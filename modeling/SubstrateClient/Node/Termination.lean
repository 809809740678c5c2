import Mathlib.Data.Fintype.EquivFin
import Mathlib.Order.WellFounded
import SubstrateClient.Node.CompactTypes

/-!
# The recursion of the decoder ends

`decode_type` follows references from type to type, and the references may form cycles. A variant is
read after its tag and an element of a sequence after the count, so a cycle through one of them
shortens the input each time round. On the registries whose cycles all go through one
(`PortableRegistry.Guarded`) the recursion ends on every input (`decodeType_terminates`), zero-sized
elements or not.

The measure is the length of the input, and below it the order of the references that consume
nothing: without cycles, on finitely many identifiers, it is well founded (`unguarded_wf`). The
counts of sequences and arrays bound their loops.
-/

namespace SubstrateClient.Node

open SubstrateClient.Lib Relation

/-! ## Cycles of references -/

/-- The types that a type refers to. -/
def TypeDef.refs : TypeDef → List TypeId
  | .composite fields => fields.map Field.ty
  | .variant variants => variants.flatMap fun var => var.fields.map Field.ty
  | .sequence t => [t]
  | .array _ t => [t]
  | .tuple ids => ids
  | .primitive _ => []
  | .compact t => [t]
  | .bitSequence store order => [store, order]

/-- A variant or a sequence: reading one takes at least a byte. -/
def TypeDef.Guards : TypeDef → Prop
  | .variant _ | .sequence _ => True
  | _ => False

namespace PortableRegistry

variable (reg : PortableRegistry)

/-- A type of the registry refers to another. -/
def Refers (id id' : TypeId) : Prop := ∃ d, reg.typeDef id = some d ∧ id' ∈ d.refs

/-- The identifier is that of a variant or a sequence. -/
def Guard (id : TypeId) : Prop := ∃ d, reg.typeDef id = some d ∧ d.Guards

/-- Each type of a cycle refers to the next, and the last to the first. -/
def Cycle (id : TypeId) (ids : List TypeId) : Prop := List.IsChain reg.Refers (id :: (ids ++ [id]))

/-- Every cycle of references passes through a variant or a sequence. -/
def Guarded : Prop := ∀ id ids, reg.Cycle id ids → ∃ x ∈ id :: ids, reg.Guard x

/-- A reference that is followed without consuming anything before. -/
def Unguarded (id id' : TypeId) : Prop := reg.Refers id id' ∧ ¬ reg.Guard id

end PortableRegistry

variable {S : Scale} {reg : PortableRegistry}

/-- Unguarded references in a row are a chain of references through types that guard nothing. -/
theorem exists_chain {id id' : TypeId} (h : TransGen reg.Unguarded id id') :
    ∃ ids, List.IsChain reg.Refers (id :: (ids ++ [id'])) ∧ ∀ x ∈ id :: ids, ¬ reg.Guard x := by
  induction h using TransGen.head_induction_on with
  | single h =>
    refine ⟨[], List.isChain_cons_cons.mpr ⟨h.1, .singleton _⟩, fun x hx => ?_⟩
    rw [List.mem_singleton.mp hx]
    exact h.2
  | @head a c h _ ih =>
    obtain ⟨ids, hchain, hguard⟩ := ih
    exact ⟨c :: ids, List.isChain_cons_cons.mpr ⟨h.1, hchain⟩,
      List.forall_mem_cons.mpr ⟨h.2, hguard⟩⟩

/-- **In a guarded registry the unguarded references are well founded**: they form no cycle. -/
theorem unguarded_wf (hreg : reg.Guarded) :
    WellFounded fun id' id => TransGen reg.Unguarded id id' := by
  have hirrefl : ∀ id, ¬ TransGen reg.Unguarded id id := by
    intro id h
    obtain ⟨ids, hchain, hguard⟩ := exists_chain h
    obtain ⟨x, hx, hguards⟩ := hreg id ids hchain
    exact hguard x hx hguards
  have : IsTrans TypeId fun id' id => TransGen reg.Unguarded id id' :=
    ⟨fun _ _ _ h h' => h'.trans h⟩
  have : Std.Irrefl fun id' id => TransGen reg.Unguarded id id' := ⟨hirrefl⟩
  have : Finite TypeId := Finite.of_injective UInt32.toFin fun _ _ h => UInt32.toFin_inj.mp h
  exact Finite.wellFounded_of_trans_of_irrefl _

/-- Along a chain through types that guard nothing, a rank that falls with each of their references
falls. -/
theorem rank_lt_of_chain {rank : TypeId → Nat}
    (h : ∀ id id', reg.Unguarded id id' → rank id' < rank id) (last : TypeId) :
    ∀ ids id, List.IsChain reg.Refers (id :: (ids ++ [last])) →
      (∀ x ∈ id :: ids, ¬ reg.Guard x) → rank last < rank id
  | [], id, hchain, hguard =>
    h id last ⟨(List.isChain_cons_cons.mp hchain).1, hguard id List.mem_cons_self⟩
  | x :: ids, id, hchain, hguard => by
    obtain ⟨href, hchain⟩ := List.isChain_cons_cons.mp hchain
    obtain ⟨hid, hguard⟩ := List.forall_mem_cons.mp hguard
    exact (rank_lt_of_chain h last ids x hchain hguard).trans (h id x ⟨href, hid⟩)

/-- A rank that falls with every unguarded reference rules out the other cycles. -/
theorem guarded_of_rank (rank : TypeId → Nat)
    (h : ∀ id id', reg.Unguarded id id' → rank id' < rank id) : reg.Guarded := by
  intro id ids hcycle
  by_contra hnone
  have hguard : ∀ x ∈ id :: ids, ¬ reg.Guard x := fun x hx hg => hnone ⟨x, hx, hg⟩
  exact Nat.lt_irrefl _ (rank_lt_of_chain h id ids id hcycle hguard)

/-! ## One level of the recursion -/

/-- Reading never lengthens the input. -/
theorem input_length_le (hS : S.Lawful) {id : TypeId} {s s' : Cursor UInt8}
    (h : Fueled.Yields (fun n => decodeType S reg n id) s s') :
    s'.input.length ≤ s.input.length := by
  obtain ⟨n, h⟩ := h
  obtain ⟨w, hw, -⟩ := (decodeType_copies hS.encode_decode n id).split h
  rw [hw, List.length_append]
  exact Nat.le_add_left _ _

/-- The recursion ends on every input of at most `n` bytes. -/
def EndsWithin (S : Scale) (reg : PortableRegistry) (n : Nat) (id : TypeId) : Prop :=
  ∀ s : Cursor UInt8, s.input.length ≤ n → Fueled.Ends (fun fuel => decodeType S reg fuel id) s

/-- Types in a row, each of which ends. -/
theorem forEach_ends (hS : S.Lawful) {n : Nat} {ids : List TypeId}
    (h : ∀ id ∈ ids, EndsWithin S reg n id) {s : Cursor UInt8} (hs : s.input.length ≤ n) :
    Fueled.Ends (fun fuel => forEach ids (decodeType S reg fuel)) s :=
  Fueled.Ends.loop (F := fun id fuel => decodeType S reg fuel id)
    (I := fun s => s.input.length ≤ n) (fun id _ => decodeType_mono S reg id)
    (fun id hid t ht => h id hid t ht) (fun _ _ _ _ ht hy => (input_length_le hS hy).trans ht) hs

/-- After a value of at least one byte the input is shorter. -/
theorem ends_after {α : Type} {c : Codec α} (hc : c.Canonical) (hne : ∀ v, c.encode v ≠ [])
    {G : α → Fueled Error (Cursor UInt8) (Cursor UInt8)} (hG : ∀ v, (G v).Mono) {n : Nat}
    (h : ∀ v t, t.input.length < n → Fueled.Ends (G v) t) {s : Cursor UInt8}
    (hs : s.input.length ≤ n) :
    Fueled.Ends (fun fuel s => copyWith c s >>= fun r => G r.1 fuel r.2) s := by
  refine Fueled.Ends.andThen (F := fun _ => copyWith c) (G := fun fuel r => G r.1 fuel r.2)
    (Fueled.mono_const _) (fun _ _ hle r => hG r.1 _ _ hle r.2) ?_ ?_
  · exact ⟨0, (transcribe_returns _ c s).ne_outOfFuel⟩
  · rintro ⟨v, t⟩ ⟨_, ht⟩
    obtain ⟨hd, -⟩ := transcribe_eq_ok.mp ht
    have hbytes : s.input.length = (c.encode v).length + t.input.length := by
      rw [hc _ _ _ hd, List.length_append]
    have hpos : 0 < (c.encode v).length := List.length_pos_iff.mpr (hne v)
    exact h v t (by omega)

/-- The fields of a variant follow its tag. -/
theorem decodeVariant_ends (hS : S.Lawful) {n : Nat} (h : ∀ k < n, ∀ id, EndsWithin S reg k id)
    (vs : List Variant) {s : Cursor UInt8} (hs : s.input.length ≤ n) :
    Fueled.Ends (fun fuel => decodeVariant S (decodeType S reg fuel) vs) s := by
  refine ends_after (G := fun i fuel t =>
    Outcome.okOr vs[i.toNat]? (.other s!"Variant {i} not found") >>= fun v =>
      forEach v.fields (fun field => decodeType S reg fuel field.ty) t)
    (hS.encode_decode .u8) (fun b => ?_) (fun i => ?_) (fun i t ht => ?_) hs
  · rw [hS.encode_u8]
    exact List.cons_ne_nil _ _
  · intro fuel fuel' hle t
    exact (Outcome.Le.refl _).bind fun v =>
      forEach_le (fun field _ => decodeType_mono S reg field.ty _ _ hle) t
  · cases hv : vs[i.toNat]? with
    | none => exact ⟨0, by rw [Outcome.okOr_none]; nofun⟩
    | some v =>
      simp only [Outcome.okOr_some, Outcome.ok_bind, forEach_fields]
      exact forEach_ends hS (fun id _ => h _ ht id) le_rfl

/-- The elements of a sequence follow its count. -/
theorem decodeSequence_ends (hS : S.Lawful) {n : Nat} (h : ∀ k < n, ∀ id, EndsWithin S reg k id)
    (id : TypeId) {s : Cursor UInt8} (hs : s.input.length ≤ n) :
    Fueled.Ends (fun fuel => decodeSequence S (decodeType S reg fuel) id) s := by
  refine ends_after (G := fun len fuel =>
    forEach (List.range len.toNat) (fun _ => decodeType S reg fuel id))
    (hS.encode_decode .compactU32) (fun len => ?_) (fun len => ?_) (fun len t ht => ?_) hs
  · have hother : len ≠ len + 1 := by
      intro heq
      have hnat := congrArg UInt32.toBitVec heq
      simp at hnat
    exact (hS.decode_encode .compactU32 len trivial).encode_ne_nil
      (hS.decode_encode .compactU32 _ trivial) hother
  · intro fuel fuel' hle t
    exact forEach_le (fun _ _ => decodeType_mono S reg id _ _ hle) t
  · simp only [forEach_range]
    exact forEach_ends hS (fun id' hid' => h _ ht id') le_rfl

/-! ## Every input -/

/-- A reference of a type that guards nothing. -/
theorem unguarded_of_mem {id id' : TypeId} {d : TypeDef} (hd : reg.typeDef id = some d)
    (hguard : ¬ d.Guards) (hmem : id' ∈ d.refs) : TransGen reg.Unguarded id id' := by
  refine .single ⟨⟨d, hd, hmem⟩, ?_⟩
  rintro ⟨d', hd', h⟩
  rw [hd] at hd'
  cases hd'
  exact hguard h

/-- **On inputs of at most `n` bytes** the recursion ends, by induction on `n`, and below it along
the unguarded references. -/
theorem decodeType_endsWithin (hS : S.Lawful) (hreg : reg.Guarded) (n : Nat) :
    ∀ id, EndsWithin S reg n id := by
  induction n using Nat.strong_induction_on with
  | h n ih =>
    intro id
    induction id using (unguarded_wf hreg).induction with
    | h id ihid =>
      intro s hs
      suffices hbody : Fueled.Ends (fun fuel => decodeTypeBody S reg (decodeType S reg fuel) id) s by
        obtain ⟨fuel, hfuel⟩ := hbody
        exact ⟨fuel + 1, hfuel⟩
      cases hd : reg.typeDef id with
      | none =>
        refine ⟨0, ?_⟩
        simp only [decodeTypeBody_of_missing hd, ne_eq, reduceCtorEq, not_false_eq_true]
      | some d =>
        unfold Fueled.Ends
        simp only [decodeTypeBody_of_typeDef hd]
        cases d with
        | composite fields =>
          exact forEach_ends hS (fun id' hid' => ihid id' (unguarded_of_mem hd not_false hid')) hs
        | variant vs => exact decodeVariant_ends hS ih vs hs
        | sequence t => exact decodeSequence_ends hS ih t hs
        | array len t =>
          refine forEach_ends hS (fun id' hid' => ihid id' (unguarded_of_mem hd not_false ?_)) hs
          rw [List.eq_of_mem_replicate hid']
          exact List.mem_singleton_self t
        | tuple ids =>
          exact forEach_ends hS (fun id' hid' => ihid id' (unguarded_of_mem hd not_false hid')) hs
        | primitive p => exact ⟨0, (decodePrimitive_returns p s).ne_outOfFuel⟩
        | compact t =>
          refine ⟨0, ?_⟩
          simp only [decodeCompact_of_compact hd, ne_eq, reduceCtorEq, not_false_eq_true]
        | bitSequence store order => exact ⟨0, fun h => by cases h⟩

/-- **The recursion of `decode_type` ends** on every input, in a registry whose cycles of references
all pass through a variant or a sequence: from some fuel on there is one outcome. -/
theorem decodeType_terminates (hS : S.Lawful) (hreg : reg.Guarded) (id : TypeId)
    (s : Cursor UInt8) :
    ∃ r, r ≠ .outOfFuel ∧ ∃ n₀, ∀ fuel ≥ n₀, decodeType S reg fuel id s = r :=
  (decodeType_endsWithin hS hreg _ id s le_rfl).outcome (decodeType_mono S reg id)

/-- Trees, whose nodes hold a sequence of trees, and sequences of arrays of units. -/
def treeRegistry : PortableRegistry :=
  ⟨[⟨["Tree"], .variant [⟨"Leaf", [], 0, []⟩, ⟨"Node", [⟨1⟩], 1, []⟩]⟩, ⟨[], .sequence 0⟩,
    ⟨[], .tuple []⟩, ⟨[], .array 4294967295 2⟩, ⟨[], .sequence 3⟩, ⟨[], .tuple [1, 4]⟩]⟩

/-- The unguarded references go back to types before. -/
theorem treeRegistry_guarded : treeRegistry.Guarded := by
  have hback : ∀ (i : Nat) (ty : Ty), treeRegistry.types[i]? = some ty → ¬ ty.typeDef.Guards →
      ∀ t ∈ ty.typeDef.refs, t.toNat < i
    | 0, _, rfl, h => absurd trivial h
    | 1, _, rfl, h => absurd trivial h
    | 2, _, rfl, _ => fun _ ht => absurd ht List.not_mem_nil
    | 3, _, rfl, _ => List.forall_mem_singleton.mpr (by decide)
    | 4, _, rfl, h => absurd trivial h
    | 5, _, rfl, _ =>
      List.forall_mem_cons.mpr ⟨by decide, List.forall_mem_singleton.mpr (by decide)⟩
  refine guarded_of_rank UInt32.toNat ?_
  rintro id id' ⟨⟨d, hd, hmem⟩, hguard⟩
  obtain ⟨path, hr⟩ := resolve_of_typeDef hd
  exact hback id.toNat _ hr (fun h => hguard ⟨d, hd, h⟩) id' hmem

/-- `decodeType_terminates` on a sequence of trees and a sequence of `2 ^ 30 - 1` arrays, each of
`2 ^ 32 - 1` units. -/
theorem decodeType_terminates_tree : ∃ r, r ≠ .outOfFuel ∧ ∃ n₀, ∀ fuel ≥ n₀,
    decodeType Scale.reference treeRegistry fuel 5 ⟨[4, 1, 4, 0, 254, 255, 255, 255], []⟩ = r :=
  decodeType_terminates Scale.reference_lawful treeRegistry_guarded 5 _

end SubstrateClient.Node
