import SubstrateClient.Node.Faithful

/-!
# Values of the type graph, and the decoder as their reader

What `decode_type` is for, stated without it: a `Value` is a finite tree, `HasType` are the typing
rules of a registry, and `Value.encode` is the SCALE encoding (a composite or a tuple is its fields,
a variant is a tag byte and its fields, a sequence is a `Compact<u32>` count and its elements, an
array is its elements). The registry may be cyclic; the trees are finite.

Which variant a tag stands for is a parameter of the rules (`TagRule`): `declared`, the variant that
declares the index, is what SCALE means by it, and `inPlace` asks besides that the variant stands at
the position of its index.

* `HasType.accepts` (completeness): when a typed tag is found at its position, the encoding of a
  typed value is read back whatever follows it, with any fuel above the depth of the value. By
  induction on the typing derivation.
* `decodeType_reads` (soundness): when a variant found by position is typed, whatever is read is the
  encoding of a typed value. By induction on the fuel.
* `decodeType_sound_complete`: both, on the registries whose types are all `Supported`.
-/

namespace SubstrateClient.Node

open SubstrateClient.Lib

/-! ## Values and typing -/

/-- The Rust type a primitive is read as, when the decoder supports it. -/
def TypeDefPrimitive.leaf : TypeDefPrimitive → Option Leaf
  | .bool => some .bool
  | .str => some .str
  | .u8 => some .u8
  | .u16 => some .u16
  | .u32 => some .u32
  | .u64 => some .u64
  | .u128 => some .u128
  | .i8 => some .i8
  | .i16 => some .i16
  | .i32 => some .i32
  | .i64 => some .i64
  | .i128 => some .i128
  | .char | .u256 | .i256 => none

/-- The definition of a type. -/
def PortableRegistry.typeDef (reg : PortableRegistry) (id : TypeId) : Option TypeDef :=
  (reg.resolve id).map Ty.typeDef

/-- A value of some type of a registry. -/
inductive Value where
  | leaf (l : Leaf) (v : l.Val)
  | composite (fields : List Value)
  | variant (index : UInt8) (fields : List Value)
  | sequence (elems : List Value)
  | array (elems : List Value)
  | tuple (fields : List Value)

/-- Which variant of an enum a tag stands for. -/
abbrev TagRule := List Variant → UInt8 → Variant → Prop

/-- The variant that declares the index. -/
def declared : TagRule := fun vs b var => var ∈ vs ∧ var.index = b

/-- The variant that declares the index, standing at the position of its index. -/
def inPlace : TagRule := fun vs b var => vs[b.toNat]? = some var ∧ var.index = b

mutual

/-- The typing rules of a registry. -/
inductive HasType (reg : PortableRegistry) (tag : TagRule) : TypeId → Value → Prop where
  | leaf {id p l v} : reg.typeDef id = some (.primitive p) → p.leaf = some l → l.Fits v →
      HasType reg tag id (.leaf l v)
  | composite {id fields vs} : reg.typeDef id = some (.composite fields) →
      HasTypes reg tag (fields.map Field.ty) vs → HasType reg tag id (.composite vs)
  | variant {id variants b var vs} : reg.typeDef id = some (.variant variants) →
      tag variants b var → HasTypes reg tag (var.fields.map Field.ty) vs →
      HasType reg tag id (.variant b vs)
  | sequence {id t n vs} : reg.typeDef id = some (.sequence t) → n < 2 ^ 32 →
      HasTypes reg tag (List.replicate n t) vs → HasType reg tag id (.sequence vs)
  | array {id len t vs} : reg.typeDef id = some (.array len t) →
      HasTypes reg tag (List.replicate len.toNat t) vs → HasType reg tag id (.array vs)
  | tuple {id ids vs} : reg.typeDef id = some (.tuple ids) → HasTypes reg tag ids vs →
      HasType reg tag id (.tuple vs)

/-- A list of values, one of each type of a list. -/
inductive HasTypes (reg : PortableRegistry) (tag : TagRule) : List TypeId → List Value → Prop where
  | nil : HasTypes reg tag [] []
  | cons {id ids v vs} : HasType reg tag id v → HasTypes reg tag ids vs →
      HasTypes reg tag (id :: ids) (v :: vs)

end

theorem HasTypes.length_eq {reg : PortableRegistry} {tag : TagRule} :
    ∀ {ids : List TypeId} {vs : List Value}, HasTypes reg tag ids vs → vs.length = ids.length
  | _, _, .nil => rfl
  | _, _, .cons _ h => by rw [List.length_cons, List.length_cons, h.length_eq]

mutual

/-- The SCALE encoding of a value. -/
def Value.encode (S : Scale) : Value → Bytes
  | .leaf l v => (S l).encode v
  | .composite fields => encodeAll S fields
  | .variant index fields => index :: encodeAll S fields
  | .sequence elems => (S .compactU32).encode (UInt32.ofNat elems.length) ++ encodeAll S elems
  | .array elems => encodeAll S elems
  | .tuple fields => encodeAll S fields

/-- The encodings of a list of values, one after the other. -/
def encodeAll (S : Scale) : List Value → Bytes
  | [] => []
  | v :: vs => v.encode S ++ encodeAll S vs

end

mutual

/-- The depth of a value. -/
def Value.depth : Value → Nat
  | .leaf _ _ => 0
  | .composite fields => depthAll fields + 1
  | .variant _ fields => depthAll fields + 1
  | .sequence elems => depthAll elems + 1
  | .array elems => depthAll elems + 1
  | .tuple fields => depthAll fields + 1

/-- The depth of the deepest value of a list. -/
def depthAll : List Value → Nat
  | [] => 0
  | v :: vs => max v.depth (depthAll vs)

end

variable {S : Scale} {reg : PortableRegistry} {tag : TagRule}

theorem HasType.resolves {id : TypeId} {v : Value} (h : HasType reg tag id v) :
    ∃ ty, reg.resolve id = some ty := by
  have hd : ∃ d, reg.typeDef id = some d := by cases h <;> exact ⟨_, by assumption⟩
  obtain ⟨d, hd⟩ := hd
  obtain ⟨ty, hr, -⟩ := Option.map_eq_some_iff.mp hd
  exact ⟨ty, hr⟩

/-! ## One level of the decoder, by the definition of the type -/

theorem resolve_of_typeDef {id : TypeId} {d : TypeDef} (h : reg.typeDef id = some d) :
    ∃ path, reg.resolve id = some ⟨path, d⟩ := by
  obtain ⟨⟨path, d'⟩, hr, hd⟩ := Option.map_eq_some_iff.mp h
  cases hd
  exact ⟨path, hr⟩

/-- A loop over the fields is a loop over their types. -/
theorem forEach_fields (fields : List Field) (rec : TypeId → DecodeStep) :
    forEach fields (fun field => rec field.ty) = forEach (fields.map Field.ty) rec :=
  forEach_map Field.ty rec fields

/-- `n` rounds on one type are a loop over `n` copies of it. -/
theorem forEach_range (n : Nat) (id : TypeId) (rec : TypeId → DecodeStep) :
    forEach (List.range n) (fun _ => rec id) = forEach (List.replicate n id) rec := by
  have h := forEach_map (fun _ => id) rec (List.range n)
  rwa [List.map_const', List.length_range] at h

/-- The body on a type of the registry. -/
theorem decodeTypeBody_of_typeDef {rec : TypeId → DecodeStep} {id : TypeId} {d : TypeDef}
    (h : reg.typeDef id = some d) (s : Cursor UInt8) :
    decodeTypeBody S reg rec id s =
      match d with
      | .composite fields => forEach (fields.map Field.ty) rec s
      | .variant variants => decodeVariant S rec variants s
      | .sequence t => decodeSequence S rec t s
      | .array len t => forEach (List.replicate len.toNat t) rec s
      | .tuple ids => forEach ids rec s
      | .primitive p => decodePrimitive S p s
      | .compact _ => decodeCompact S reg id s
      | .bitSequence _ _ =>
        .panic "not implemented: BitVec decoding for events not implemented yet" := by
  obtain ⟨path, hr⟩ := resolve_of_typeDef h
  unfold decodeTypeBody resolveOr
  rw [hr, Outcome.okOr_some, Outcome.ok_bind]
  cases d with
  | composite fields => exact congrFun (forEach_fields fields rec) s
  | array len t => exact congrFun (forEach_range len.toNat t rec) s
  | _ => rfl

/-- The body on an identifier that the registry does not have. -/
theorem decodeTypeBody_of_missing {rec : TypeId → DecodeStep} {id : TypeId}
    (h : reg.typeDef id = none) (s : Cursor UInt8) :
    decodeTypeBody S reg rec id s = .err (.metadata (.typeNotFound id)) := by
  unfold decodeTypeBody resolveOr
  rw [Option.map_eq_none_iff.mp h, Outcome.okOr_none, Outcome.err_bind]

/-- The branch of the compact types refuses the compact type it looks into. -/
theorem decodeCompact_of_compact {id param : TypeId} (h : reg.typeDef id = some (.compact param))
    (s : Cursor UInt8) :
    decodeCompact S reg id s = .err (.decoding
      (.invalidCompactType "Compact type must be a primitive or a composite type")) := by
  obtain ⟨path, hr⟩ := resolve_of_typeDef h
  unfold decodeCompact resolveOr
  rw [hr, Outcome.okOr_some, Outcome.ok_bind]

/-- A leaf is read or refused. -/
theorem decodePrimitive_returns (p : TypeDefPrimitive) (s : Cursor UInt8) :
    (decodePrimitive S p s).Returns := by
  have hraw : ∀ l : Leaf, (decodeRaw (S l) s).Returns := fun l =>
    Outcome.returns_bind.mpr ⟨transcribe_returns _ (S l) s, fun _ _ => trivial⟩
  cases p with
  | char | u256 | i256 => trivial
  | _ => exact hraw _

theorem decodePrimitive_of_leaf {p : TypeDefPrimitive} {l : Leaf} (h : p.leaf = some l) :
    decodePrimitive S p = decodeRaw (S l) := by
  cases p <;> cases h <;> rfl

theorem decodePrimitive_of_no_leaf {p : TypeDefPrimitive} (h : p.leaf = none) (s : Cursor UInt8) :
    ∃ e, decodePrimitive S p s = .err e := by
  cases p <;> cases h <;> exact ⟨_, rfl⟩

/-! ## Completeness -/

/-- A typed tag is found at its position. -/
def TagRule.FoundIn (tag : TagRule) (reg : PortableRegistry) : Prop :=
  ∀ id vs b var, reg.typeDef id = some (.variant vs) → tag vs b var → vs[b.toNat]? = some var

theorem inPlace_foundIn (reg : PortableRegistry) : inPlace.FoundIn reg :=
  fun _ _ _ _ _ h => h.1

theorem decodeRaw_accepts {α : Type} {c : Codec α} {v : α} (hv : c.RoundTripsAt v) :
    Accepts (decodeRaw c) (c.encode v) := by
  have h := Accepts.transcribe Error.codec (g := fun _ => .ok) hv accepts_ok
  rwa [List.append_nil] at h

/-- A variant is accepted when the fields of the variant at its position are. -/
theorem decodeVariant_accepts (hS : S.Lawful) {rec : TypeId → DecodeStep} {vs : List Variant}
    {b : UInt8} {var : Variant} {w : Bytes} (hvar : vs[b.toNat]? = some var)
    (hw : Accepts (forEach (var.fields.map Field.ty) rec) w) :
    Accepts (decodeVariant S rec vs) (b :: w) := by
  have h := Accepts.transcribe Error.codec (g := fun i s =>
    Outcome.okOr vs[i.toNat]? (.other s!"Variant {i} not found") >>= fun v =>
      forEach v.fields (fun field => rec field.ty) s)
    (hS.decode_encode .u8 b trivial) (w := w) (by
      intro rest out
      simp only [hvar, Outcome.okOr_some, Outcome.ok_bind, forEach_fields]
      exact hw rest out)
  rwa [hS.encode_u8] at h

/-- A sequence is accepted when its elements are. -/
theorem decodeSequence_accepts (hS : S.Lawful) {rec : TypeId → DecodeStep} {t : TypeId} {n : Nat}
    {w : Bytes} (hn : n < 2 ^ 32) (hw : Accepts (forEach (List.replicate n t) rec) w) :
    Accepts (decodeSequence S rec t) ((S .compactU32).encode (UInt32.ofNat n) ++ w) := by
  refine Accepts.transcribe Error.codec (g := fun k => forEach (List.range k.toNat) (fun _ => rec t))
    (hS.decode_encode .compactU32 _ trivial) ?_
  rw [forEach_range, UInt32.toNat_ofNat_of_lt' hn]
  exact hw

mutual

/-- **Completeness**: the encoding of a typed value is read back, whatever follows it. -/
theorem HasType.accepts (hS : S.Lawful) (htag : tag.FoundIn reg) {fuel : Nat} {id : TypeId}
    {v : Value} (h : HasType reg tag id v) (hf : v.depth < fuel) :
    Accepts (decodeType S reg fuel id) (v.encode S) := by
  obtain _ | fuel := fuel
  · omega
  intro rest out
  unfold decodeType
  match h with
  | .leaf hd hl hv =>
    rw [decodeTypeBody_of_typeDef hd]
    simp only [decodePrimitive_of_leaf hl]
    exact decodeRaw_accepts (hS.decode_encode _ _ hv) rest out
  | .composite hd hs =>
    rw [decodeTypeBody_of_typeDef hd]
    exact hs.accepts hS htag (Nat.le_of_lt_succ hf) rest out
  | .variant hd hvar hs =>
    rw [decodeTypeBody_of_typeDef hd]
    exact decodeVariant_accepts hS (htag _ _ _ _ hd hvar)
      (hs.accepts hS htag (Nat.le_of_lt_succ hf)) rest out
  | .sequence hd hn hs =>
    rw [decodeTypeBody_of_typeDef hd]
    have hlen := hs.length_eq
    rw [List.length_replicate] at hlen
    simp only [Value.encode, hlen]
    exact decodeSequence_accepts hS hn (hs.accepts hS htag (Nat.le_of_lt_succ hf)) rest out
  | .array hd hs =>
    rw [decodeTypeBody_of_typeDef hd]
    exact hs.accepts hS htag (Nat.le_of_lt_succ hf) rest out
  | .tuple hd hs =>
    rw [decodeTypeBody_of_typeDef hd]
    exact hs.accepts hS htag (Nat.le_of_lt_succ hf) rest out

theorem HasTypes.accepts (hS : S.Lawful) (htag : tag.FoundIn reg) {fuel : Nat} {ids : List TypeId}
    {vs : List Value} (h : HasTypes reg tag ids vs) (hf : depthAll vs < fuel) :
    Accepts (forEach ids (decodeType S reg fuel)) (encodeAll S vs) := by
  match h with
  | .nil => exact accepts_ok
  | .cons hv hvs =>
    have hmax := max_lt_iff.mp hf
    exact Accepts.bind (hv.accepts hS htag hmax.1) (hvs.accepts hS htag hmax.2)

end

/-! ## Soundness -/

/-- A variant found by position is typed at its tag. -/
def TagRule.CoversPositions (tag : TagRule) (reg : PortableRegistry) : Prop :=
  ∀ id vs b var, reg.typeDef id = some (.variant vs) → vs[b.toNat]? = some var → tag vs b var

/-- The types of the fragment: no compact type and no bit sequence, and supported primitives. -/
def TypeDef.InFragment : TypeDef → Prop
  | .primitive p => p.leaf.isSome
  | .compact _ | .bitSequence _ _ => False
  | _ => True

/-- The encodings of the values of a type. -/
def typeWords (S : Scale) (reg : PortableRegistry) (tag : TagRule) (id : TypeId) :
    Language UInt8 :=
  {w | ∃ v, HasType reg tag id v ∧ w = v.encode S}

/-- The encodings of the lists of values, one of each type of a list. -/
def typesWords (S : Scale) (reg : PortableRegistry) (tag : TagRule) (ids : List TypeId) :
    Language UInt8 :=
  {w | ∃ vs, HasTypes reg tag ids vs ∧ w = encodeAll S vs}

/-- Words of the types, one after the other, encode a list of values. -/
theorem prod_typeWords_le :
    ∀ ids : List TypeId, (ids.map (typeWords S reg tag)).prod ≤ typesWords S reg tag ids
  | [] => by
    intro w hw
    exact ⟨[], .nil, Language.mem_one _ |>.mp hw⟩
  | id :: ids => by
    intro w hw
    rw [List.map_cons, List.prod_cons] at hw
    obtain ⟨_, ⟨v, hv, rfl⟩, _, hu, rfl⟩ := Language.mem_mul.mp hw
    obtain ⟨vs, hvs, rfl⟩ := prod_typeWords_le ids hu
    exact ⟨v :: vs, .cons hv hvs, rfl⟩

/-- A loop over types reads lists of values, when each round reads values. -/
theorem forEach_reads {rec : TypeId → DecodeStep}
    (hr : ∀ id, Reads (rec id) (typeWords S reg tag id)) (ids : List TypeId) :
    Reads (forEach ids rec) (typesWords S reg tag ids) :=
  (Reads.forEach fun id _ => hr id).mono (prod_typeWords_le ids)

theorem decodeRaw_reads {α : Type} {c : Codec α} (hc : c.Canonical) :
    Reads (decodeRaw c)
      {w | ∃ v bs rest, c.decode bs = .ok (v, rest) ∧ w = c.encode v} := by
  intro s s' h
  obtain ⟨⟨v, t⟩, ht, hs'⟩ := Outcome.bind_eq_ok.mp h
  cases hs'
  obtain ⟨hd, ho⟩ := transcribe_eq_ok.mp ht
  exact ⟨c.encode v, ⟨v, _, _, hd, rfl⟩, hc _ _ _ hd, ho⟩

theorem decodeVariant_reads (hS : S.Lawful) {rec : TypeId → DecodeStep}
    (hr : ∀ id, Reads (rec id) (typeWords S reg tag id)) (vs : List Variant) :
    Reads (decodeVariant S rec vs)
      {w | ∃ (b : UInt8) (var : Variant), vs[b.toNat]? = some var ∧
        ∃ u ∈ typesWords S reg tag (var.fields.map Field.ty), w = b :: u} := by
  intro s s' h
  obtain ⟨⟨b, t⟩, ht, hs'⟩ := Outcome.bind_eq_ok.mp h
  obtain ⟨hd, ho⟩ := transcribe_eq_ok.mp ht
  obtain ⟨var, hvar, hs'⟩ := Outcome.bind_eq_ok.mp hs'
  rw [Outcome.okOr_eq_ok] at hvar
  rw [forEach_fields] at hs'
  obtain ⟨u, hu, hui, huo⟩ := forEach_reads hr _ t s' hs'
  have hb := hS.encode_decode .u8 _ _ _ hd
  rw [hS.encode_u8] at hb ho
  refine ⟨b :: u, ⟨b, var, hvar, u, hu, rfl⟩, ?_, ?_⟩
  · rw [hb, hui]
    rfl
  · rw [huo, ho, List.append_assoc]
    rfl

theorem decodeSequence_reads (hS : S.Lawful) {rec : TypeId → DecodeStep}
    (hr : ∀ id, Reads (rec id) (typeWords S reg tag id)) (t : TypeId) :
    Reads (decodeSequence S rec t)
      (readWords (S .compactU32) (fun _ => True)
        fun n => typesWords S reg tag (List.replicate n.toNat t)) := by
  refine Reads.transcribe (g := fun n => forEach (List.range n.toNat) (fun _ => rec t))
    (hS.encode_decode .compactU32) (fun _ _ _ _ => trivial) fun n => ?_
  rw [forEach_range]
  exact forEach_reads hr _

/-- **One level of `decode_type` reads values** of the type if the levels below do. -/
theorem decodeTypeBody_reads (hS : S.Lawful) (htag : tag.CoversPositions reg)
    {rec : TypeId → DecodeStep} (hr : ∀ id, Reads (rec id) (typeWords S reg tag id)) (id : TypeId) :
    Reads (decodeTypeBody S reg rec id) (typeWords S reg tag id) := by
  intro s s' h
  rcases hd : reg.typeDef id with _ | d
  · rw [decodeTypeBody_of_missing hd] at h
    cases h
  rw [decodeTypeBody_of_typeDef hd] at h
  cases d with
  | composite fields =>
    refine (forEach_reads hr _).mono ?_ s s' h
    rintro _ ⟨vs, hvs, rfl⟩
    exact ⟨.composite vs, .composite hd hvs, rfl⟩
  | variant variants =>
    refine (decodeVariant_reads hS hr variants).mono ?_ s s' h
    rintro _ ⟨b, var, hvar, _, ⟨vs, hvs, rfl⟩, rfl⟩
    exact ⟨.variant b vs, .variant hd (htag id variants b var hd hvar) hvs, rfl⟩
  | sequence t =>
    refine (decodeSequence_reads hS hr t).mono ?_ s s' h
    rintro _ ⟨n, -, _, ⟨vs, hvs, rfl⟩, rfl⟩
    refine ⟨.sequence vs, .sequence hd n.toNat_lt hvs, ?_⟩
    rw [Value.encode, hvs.length_eq, List.length_replicate, UInt32.ofNat_toNat]
  | array len t =>
    refine (forEach_reads hr _).mono ?_ s s' h
    rintro _ ⟨vs, hvs, rfl⟩
    exact ⟨.array vs, .array hd hvs, rfl⟩
  | tuple ids =>
    refine (forEach_reads hr _).mono ?_ s s' h
    rintro _ ⟨vs, hvs, rfl⟩
    exact ⟨.tuple vs, .tuple hd hvs, rfl⟩
  | primitive p =>
    cases hl : p.leaf with
    | none =>
      obtain ⟨e, he⟩ := decodePrimitive_of_no_leaf (S := S) hl s
      dsimp only at h
      rw [he] at h
      cases h
    | some l =>
      simp only [decodePrimitive_of_leaf hl] at h
      refine (decodeRaw_reads (hS.encode_decode l)).mono ?_ s s' h
      rintro _ ⟨v, bs, rest, hv, rfl⟩
      exact ⟨.leaf l v, .leaf hd hl (hS.decode_fits l bs v rest hv), rfl⟩
  | compact t =>
    simp only [decodeCompact_of_compact hd] at h
    cases h
  | bitSequence a b => cases h

/-- **Soundness**: whatever `decode_type` reads is the encoding of a typed value. -/
theorem decodeType_reads (hS : S.Lawful) (htag : tag.CoversPositions reg) :
    ∀ (fuel : Nat) (id : TypeId), Reads (decodeType S reg fuel id) (typeWords S reg tag id)
  | 0, _ => reads_of_not_ok _ fun _ _ h => by cases h
  | fuel + 1, id => decodeTypeBody_reads hS htag (decodeType_reads hS htag fuel) id

/-! ## Registries of supported types -/

/-- The declared indexes of an enum are the positions. -/
def Dense (vs : List Variant) : Prop :=
  ∀ i (h : i < vs.length), vs[i].index.toNat = i

/-- The types on which `decode_type` is sound and complete. -/
def TypeDef.Supported (d : TypeDef) : Prop :=
  d.InFragment ∧ ∀ vs, d = .variant vs → Dense vs

/-- A registry of supported types. -/
def PortableRegistry.Supported (reg : PortableRegistry) : Prop :=
  ∀ ty ∈ reg.types, ty.typeDef.Supported

theorem PortableRegistry.Supported.typeDef (hreg : reg.Supported) {id : TypeId} {d : TypeDef}
    (h : reg.typeDef id = some d) : d.Supported := by
  obtain ⟨path, hr⟩ := resolve_of_typeDef h
  exact hreg _ (List.mem_of_getElem? hr)

theorem Dense.getElem?_of_mem {vs : List Variant} (h : Dense vs) {var : Variant}
    (hm : var ∈ vs) : vs[var.index.toNat]? = some var := by
  obtain ⟨i, hi, rfl⟩ := List.mem_iff_getElem.mp hm
  rw [h i hi, List.getElem?_eq_getElem hi]

theorem Dense.index_of_getElem? {vs : List Variant} (h : Dense vs) {b : UInt8} {var : Variant}
    (hm : vs[b.toNat]? = some var) : var.index = b := by
  obtain ⟨hi, rfl⟩ := List.getElem?_eq_some_iff.mp hm
  exact UInt8.toNat_inj.mp (h _ hi)

/-- On dense enums, the declared variant stands at its position. -/
theorem declared_foundIn (hreg : reg.Supported) : declared.FoundIn reg := by
  rintro id vs b var hd ⟨hm, rfl⟩
  exact ((hreg.typeDef hd).2 vs rfl).getElem?_of_mem hm

/-- On dense enums, the variant at a position declares it. -/
theorem declared_coversPositions (hreg : reg.Supported) : declared.CoversPositions reg := by
  intro id vs b var hd hm
  exact ⟨List.mem_of_getElem? hm, ((hreg.typeDef hd).2 vs rfl).index_of_getElem? hm⟩

/-- **`decode_type` is sound and complete** on a registry of supported types, recursive or not: the
encoding of a value is read back whatever follows it, and whatever is read encodes a value. -/
theorem decodeType_sound_complete (hS : S.Lawful) (hreg : reg.Supported) :
    (∀ id v, HasType reg declared id v → ∃ n₀, ∀ fuel ≥ n₀, ∀ rest out,
      decodeType S reg fuel id ⟨v.encode S ++ rest, out⟩ = .ok ⟨rest, out ++ v.encode S⟩) ∧
    (∀ fuel id s s', decodeType S reg fuel id s = .ok s' →
      ∃ v, HasType reg declared id v ∧ s.input = v.encode S ++ s'.input ∧
        s'.output = s.output ++ v.encode S) := by
  constructor
  · intro id v hv
    exact ⟨v.depth + 1, fun fuel hf => hv.accepts hS (declared_foundIn hreg) hf⟩
  · intro fuel id s s' h
    obtain ⟨_, ⟨v, hv, rfl⟩, hsplit⟩ := decodeType_reads hS (declared_coversPositions hreg)
      fuel id s s' h
    exact ⟨v, hv, hsplit⟩

/-- Lists of bytes as a recursive enum: nil, and cons of a byte and a list. -/
def listRegistry : PortableRegistry :=
  ⟨[⟨["List"], .variant [⟨"Nil", [], 0, []⟩, ⟨"Cons", [⟨1⟩, ⟨0⟩], 1, []⟩]⟩, ⟨[], .primitive .u8⟩]⟩

theorem listRegistry_supported : listRegistry.Supported := by
  simp only [PortableRegistry.Supported, TypeDef.Supported, listRegistry, List.forall_mem_cons]
  refine ⟨⟨trivial, ?_⟩, ⟨rfl, fun _ h => by cases h⟩, fun _ h => by cases h⟩
  rintro _ ⟨⟩ i hi
  match i, hi with
  | 0, _ => rfl
  | 1, _ => rfl

/-- `decodeType_sound_complete` on a list of one byte, and on what the decoder makes of it. -/
theorem decodeType_sound_complete_list :
    (∃ n₀, ∀ fuel ≥ n₀, ∀ rest out,
      decodeType Scale.reference listRegistry fuel 0 ⟨[1, 7, 0] ++ rest, out⟩ =
        .ok ⟨rest, out ++ [1, 7, 0]⟩) ∧
    ∃ v, HasType listRegistry declared 0 v ∧ [1, 7, 0, 9] = v.encode Scale.reference ++ [9] ∧
      [1, 7, 0] = [] ++ v.encode Scale.reference := by
  have h := decodeType_sound_complete Scale.reference_lawful listRegistry_supported
  constructor
  · refine h.1 0 (.variant 1 [.leaf .u8 7, .variant 0 []]) ?_
    refine .variant rfl ⟨List.mem_cons_of_mem _ List.mem_cons_self, rfl⟩ (.cons ?_ (.cons ?_ .nil))
    · exact .leaf (p := .u8) rfl rfl trivial
    · exact .variant rfl ⟨List.mem_cons_self, rfl⟩ .nil
  · exact h.2 3 0 ⟨[1, 7, 0, 9], []⟩ ⟨[9], [1, 7, 0]⟩ (by decide)

end SubstrateClient.Node
