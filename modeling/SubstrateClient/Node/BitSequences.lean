import SubstrateClient.Lib.Rows
import SubstrateClient.Node.Value

/-!
# Where the decoder reaches a bit sequence

`decode_type` answers every kind of type it cannot read with an error, except a bit sequence, on
which it is `unimplemented!`. Whether it gets to one depends on the types and on the bytes: the
parts of a value before the bit sequence have to be there, each one read to its end.

`LeadsToBits` says so without the decoder: a word that leads from a type to a bit sequence is made
of what is read before a part (`PartAfter`: the tag or the count, and the values of the parts
before), part below part, down to the bit sequence. The decoder panics exactly on the inputs that
begin with such a word (`decodeType_panics_iff`): by induction on the fuel in one direction, on the
word in the other.
-/

namespace SubstrateClient.Node

open SubstrateClient.Lib

/-- The variant that stands at the position of the tag, whatever index it declares: the one that
`decode_type` reads. -/
def atPosition : TagRule := fun vs b var => vs[b.toNat]? = some var

theorem atPosition_foundIn (reg : PortableRegistry) : atPosition.FoundIn reg :=
  fun _ _ _ _ _ h => h

theorem atPosition_coversPositions (reg : PortableRegistry) : atPosition.CoversPositions reg :=
  fun _ _ _ _ _ h => h

/-! ## Words that lead to a bit sequence -/

section Words

variable (S : Scale) (reg : PortableRegistry)

/-- The word encodes a value of the type. -/
def TypeWord (id : TypeId) (w : Bytes) : Prop := w ∈ typeWords S reg atPosition id

/-- A part of a type, and what is read of a value of the type before it. -/
inductive PartAfter (id : TypeId) : TypeId → Bytes → Prop where
  | composite {fields t u} : reg.typeDef id = some (.composite fields) →
      RowBefore (TypeWord S reg) (fields.map Field.ty) t u → PartAfter id t u
  | variant {variants b var t u} : reg.typeDef id = some (.variant variants) →
      variants[b.toNat]? = some var → RowBefore (TypeWord S reg) (var.fields.map Field.ty) t u →
      PartAfter id t (b :: u)
  | sequence {e n t u} : reg.typeDef id = some (.sequence e) →
      RowBefore (TypeWord S reg) (List.replicate (UInt32.toNat n) e) t u →
      PartAfter id t ((S .compactU32).encode n ++ u)
  | array {len e t u} : reg.typeDef id = some (.array len e) →
      RowBefore (TypeWord S reg) (List.replicate len.toNat e) t u → PartAfter id t u
  | tuple {ids t u} : reg.typeDef id = some (.tuple ids) →
      RowBefore (TypeWord S reg) ids t u → PartAfter id t u

/-- The word leads from the type to a bit sequence. -/
inductive LeadsToBits : TypeId → Bytes → Prop where
  | bits {id store order} : reg.typeDef id = some (.bitSequence store order) → LeadsToBits id []
  | part {id t u w} : PartAfter S reg id t u → LeadsToBits t w → LeadsToBits id (u ++ w)

end Words

variable {S : Scale} {reg : PortableRegistry}

/-! ## What the decoder takes and passes -/

/-- What `decode_type` takes off the input encodes a value. -/
theorem decodeType_takes (hS : S.Lawful) (fuel : Nat) (id : TypeId) :
    Takes Cursor.input (decodeType S reg fuel id) (TypeWord S reg id) := by
  intro s s' h
  obtain ⟨w, hw, hi, -⟩ := decodeType_reads hS (atPosition_coversPositions reg) fuel id s s' h
  exact ⟨w, hw, hi⟩

/-- `decode_type` passes the encoding of a value. -/
theorem decodeType_passes (hS : S.Lawful) (id : TypeId) :
    Passes Cursor.input (fun n => decodeType S reg n id) (TypeWord S reg id) := by
  rintro _ ⟨v, hv, rfl⟩ ⟨input, out⟩ rest rfl
  have haccepts := hv.accepts hS (atPosition_foundIn reg) (Nat.lt_succ_self _)
  exact ⟨_, ⟨v.depth + 1, haccepts rest out⟩, rfl⟩

/-- A tag or a count is read before what may panic. -/
theorem copyWith_bind_eq_panic {α β : Type} {c : Codec α} (hc : c.Canonical)
    {f : α × Cursor UInt8 → Outcome Error β} {s : Cursor UInt8} {msg : String}
    (h : (copyWith c s >>= f) = .panic msg) :
    ∃ v t, s.input = c.encode v ++ t.input ∧ f (v, t) = .panic msg := by
  rcases Outcome.bind_eq_panic.mp h with h | ⟨⟨v, t⟩, ht, h⟩
  · exact absurd h ((transcribe_returns _ c s).ne_panic msg)
  · exact ⟨v, t, hc _ _ _ (transcribe_eq_ok.mp ht).1, h⟩

/-- And it is passed on the way there. -/
theorem copyWith_bind_panics {α β : Type} {c : Codec α} {v : α} (hv : c.RoundTripsAt v)
    {F : Nat → α × Cursor UInt8 → Outcome Error β} {s : Cursor UInt8} {rest : Bytes}
    (hs : s.input = c.encode v ++ rest)
    (h : ∀ t : Cursor UInt8, t.input = rest → ∃ n msg, F n (v, t) = .panic msg) :
    Fueled.Panics (fun n s => copyWith c s >>= F n) s := by
  obtain ⟨input, out⟩ := s
  obtain rfl := hs
  obtain ⟨n, msg, h⟩ := h ⟨rest, out ++ c.encode v⟩ rfl
  refine ⟨n, msg, ?_⟩
  simp only [copyWith, transcribe_encode hv, Outcome.ok_bind, h]

/-! ## One level of the recursion -/

/-- The fields of a variant are read after its tag. -/
theorem decodeVariant_eq_panic (hS : S.Lawful) {rec : TypeId → DecodeStep}
    (hrec : ∀ id, Takes Cursor.input (rec id) (TypeWord S reg id)) {vs : List Variant}
    {s : Cursor UInt8} {msg : String} (h : decodeVariant S rec vs s = .panic msg) :
    ∃ b var t u s', vs[b.toNat]? = some var ∧
      RowBefore (TypeWord S reg) (var.fields.map Field.ty) t u ∧ s.input = b :: u ++ s'.input ∧
      rec t s' = .panic msg := by
  obtain ⟨b, t, hi, h⟩ := copyWith_bind_eq_panic (hS.encode_decode .u8) h
  rw [hS.encode_u8] at hi
  rcases Outcome.bind_eq_panic.mp h with h | ⟨var, hvar, h⟩
  · exact absurd h ((Outcome.returns_okOr _ _).ne_panic msg)
  · rw [Outcome.okOr_eq_ok] at hvar
    rw [forEach_fields] at h
    obtain ⟨id, u, s', hu, hui, h⟩ := Takes.panic (fun id _ => hrec id) h
    exact ⟨b, var, id, u, s', hvar, hu, by rw [hi, hui]; rfl, h⟩

/-- The elements of a sequence are read after the count. -/
theorem decodeSequence_eq_panic (hS : S.Lawful) {rec : TypeId → DecodeStep}
    (hrec : ∀ id, Takes Cursor.input (rec id) (TypeWord S reg id)) {e : TypeId}
    {s : Cursor UInt8} {msg : String} (h : decodeSequence S rec e s = .panic msg) :
    ∃ n t u s', RowBefore (TypeWord S reg) (List.replicate (UInt32.toNat n) e) t u ∧
      s.input = (S .compactU32).encode n ++ u ++ s'.input ∧ rec t s' = .panic msg := by
  obtain ⟨n, t, hi, h⟩ := copyWith_bind_eq_panic (hS.encode_decode .compactU32) h
  dsimp only at h
  rw [forEach_range] at h
  obtain ⟨id, u, s', hu, hui, h⟩ := Takes.panic (fun id _ => hrec id) h
  exact ⟨n, id, u, s', hu, by rw [hi, hui, List.append_assoc], h⟩

/-- **Where one level panics**: on a bit sequence, or at a part, behind what is read before it. -/
theorem decodeTypeBody_eq_panic (hS : S.Lawful) {rec : TypeId → DecodeStep}
    (hrec : ∀ id, Takes Cursor.input (rec id) (TypeWord S reg id)) {id : TypeId}
    {s : Cursor UInt8} {msg : String} (h : decodeTypeBody S reg rec id s = .panic msg) :
    (∃ store order, reg.typeDef id = some (.bitSequence store order)) ∨
      ∃ t u s', PartAfter S reg id t u ∧ s.input = u ++ s'.input ∧ rec t s' = .panic msg := by
  rcases hd : reg.typeDef id with _ | d
  · rw [decodeTypeBody_of_missing hd] at h
    cases h
  rw [decodeTypeBody_of_typeDef hd] at h
  cases d with
  | composite fields =>
    obtain ⟨t, u, s', hu, hi, h⟩ := Takes.panic (fun id _ => hrec id) h
    exact .inr ⟨t, u, s', .composite hd hu, hi, h⟩
  | variant vs =>
    obtain ⟨b, var, t, u, s', hvar, hu, hi, h⟩ := decodeVariant_eq_panic hS hrec h
    exact .inr ⟨t, b :: u, s', .variant hd hvar hu, hi, h⟩
  | sequence e =>
    obtain ⟨n, t, u, s', hu, hi, h⟩ := decodeSequence_eq_panic hS hrec h
    exact .inr ⟨t, _, s', .sequence hd hu, hi, h⟩
  | array len e =>
    obtain ⟨t, u, s', hu, hi, h⟩ := Takes.panic (fun id _ => hrec id) h
    exact .inr ⟨t, u, s', .array hd hu, hi, h⟩
  | tuple ids =>
    obtain ⟨t, u, s', hu, hi, h⟩ := Takes.panic (fun id _ => hrec id) h
    exact .inr ⟨t, u, s', .tuple hd hu, hi, h⟩
  | primitive p => exact absurd h ((decodePrimitive_returns p s).ne_panic msg)
  | compact t =>
    dsimp only at h
    rw [decodeCompact_of_compact hd] at h
    cases h
  | bitSequence store order => exact .inl ⟨store, order, rfl⟩

/-- A panic of one level is a panic of `decode_type`. -/
theorem panics_of_body {id : TypeId} {s : Cursor UInt8}
    (h : Fueled.Panics (fun n => decodeTypeBody S reg (decodeType S reg n) id) s) :
    Fueled.Panics (fun n => decodeType S reg n id) s := by
  obtain ⟨n, msg, h⟩ := h
  exact ⟨n + 1, msg, h⟩

/-- Types in a row panic where one of them does, behind those before it. -/
theorem forEach_panics (hS : S.Lawful) {ids : List TypeId} {t : TypeId} {u rest : Bytes}
    (hu : RowBefore (TypeWord S reg) ids t u) {s : Cursor UInt8} (hs : s.input = u ++ rest)
    (h : ∀ s' : Cursor UInt8, s'.input = rest → Fueled.Panics (fun n => decodeType S reg n t) s') :
    Fueled.Panics (fun n => forEach ids (decodeType S reg n)) s :=
  Passes.panics (decodeType_mono S reg) (decodeType_passes hS) hu hs h

/-- **A panic of a part is a panic of the type**, behind what is read before the part. -/
theorem PartAfter.panics (hS : S.Lawful) {id t : TypeId} {u rest : Bytes}
    (hp : PartAfter S reg id t u) {s : Cursor UInt8} (hs : s.input = u ++ rest)
    (h : ∀ s' : Cursor UInt8, s'.input = rest → Fueled.Panics (fun n => decodeType S reg n t) s') :
    Fueled.Panics (fun n => decodeType S reg n id) s := by
  refine panics_of_body ?_
  cases hp with
  | composite hd hu =>
    simp only [Fueled.Panics, decodeTypeBody_of_typeDef hd]
    exact forEach_panics hS hu hs h
  | @variant vs b var t u hd hvar hu =>
    simp only [Fueled.Panics, decodeTypeBody_of_typeDef hd]
    have htag : s.input = (S .u8).encode b ++ (u ++ rest) := by
      rw [hs, hS.encode_u8]
      rfl
    refine copyWith_bind_panics (hS.decode_encode .u8 b trivial) htag fun s' hs' => ?_
    simp only [hvar, Outcome.okOr_some, Outcome.ok_bind, forEach_fields]
    exact forEach_panics hS hu hs' h
  | @sequence e n t u hd hu =>
    simp only [Fueled.Panics, decodeTypeBody_of_typeDef hd]
    rw [List.append_assoc] at hs
    refine copyWith_bind_panics (hS.decode_encode .compactU32 n trivial) hs fun s' hs' => ?_
    simp only [forEach_range]
    exact forEach_panics hS hu hs' h
  | array hd hu =>
    simp only [Fueled.Panics, decodeTypeBody_of_typeDef hd]
    exact forEach_panics hS hu hs h
  | tuple hd hu =>
    simp only [Fueled.Panics, decodeTypeBody_of_typeDef hd]
    exact forEach_panics hS hu hs h

/-! ## Every depth -/

/-- A panic was led to, by induction on the fuel. -/
theorem leadsToBits_of_panic (hS : S.Lawful) : ∀ {fuel : Nat} {id : TypeId} {s : Cursor UInt8}
    {msg : String}, decodeType S reg fuel id s = .panic msg →
      Begins (LeadsToBits S reg id) s.input
  | 0, _, _, _, h => by cases h
  | fuel + 1, id, s, msg, h => by
    rcases decodeTypeBody_eq_panic hS (decodeType_takes hS fuel) h with
      ⟨store, order, hd⟩ | ⟨t, u, s', hp, hi, h⟩
    · exact ⟨[], .bits hd, List.nil_prefix⟩
    · obtain ⟨w, hw, hpre⟩ := leadsToBits_of_panic hS h
      exact ⟨u ++ w, .part hp hw, by rw [hi]; exact (List.prefix_append_right_inj u).mpr hpre⟩

/-- Behind a word that leads to a bit sequence there is a panic, by induction on the word. -/
theorem LeadsToBits.panics (hS : S.Lawful) {id : TypeId} {w : Bytes} (h : LeadsToBits S reg id w) :
    ∀ {s : Cursor UInt8}, w <+: s.input → Fueled.Panics (fun n => decodeType S reg n id) s := by
  induction h with
  | bits hd =>
    intro s _
    exact panics_of_body ⟨0, _, decodeTypeBody_of_typeDef hd s⟩
  | @part id t u w hp _ ih =>
    rintro s ⟨rest, hs⟩
    rw [List.append_assoc] at hs
    exact hp.panics hS hs.symm fun s' hs' => ih ⟨rest, hs'.symm⟩

/-- **`decode_type` panics exactly on the inputs that begin with a word that leads to a bit
sequence.** -/
theorem decodeType_panics_iff (hS : S.Lawful) (id : TypeId) (s : Cursor UInt8) :
    Fueled.Panics (fun n => decodeType S reg n id) s ↔ Begins (LeadsToBits S reg id) s.input := by
  constructor
  · rintro ⟨fuel, msg, h⟩
    exact leadsToBits_of_panic hS h
  · rintro ⟨w, hw, hpre⟩
    exact hw.panics hS hpre

/-- Types in a row panic exactly where one of them does, behind values of those before it. -/
theorem forEach_panics_iff (hS : S.Lawful) (ids : List TypeId) (s : Cursor UInt8) :
    Fueled.Panics (fun n => forEach ids (decodeType S reg n)) s ↔
      ∃ t u v, RowBefore (TypeWord S reg) ids t u ∧ LeadsToBits S reg t v ∧ u ++ v <+: s.input :=
  loop_panics_iff (F := fun id n => decodeType S reg n id) (decodeType_mono S reg)
    (fun id n => decodeType_takes hS n id) (decodeType_passes hS) (decodeType_panics_iff hS)

/-- Without bit sequences in the registry, nothing leads to one. -/
theorem LeadsToBits.mem_types {id : TypeId} {w : Bytes} (h : LeadsToBits S reg id w) :
    ∃ ty ∈ reg.types, ∃ store order, ty.typeDef = .bitSequence store order := by
  induction h with
  | @bits id store order hd =>
    obtain ⟨path, hr⟩ := resolve_of_typeDef hd
    exact ⟨_, List.mem_of_getElem? hr, store, order, rfl⟩
  | part _ _ ih => exact ih

end SubstrateClient.Node
