import SubstrateClient.Node.Decoder

/-!
# What every construct of the decoder keeps

`decode_type` transcribes leaves and goes on: into fields, into a variant that a tag selects, into
as many elements as a count says. So it has every property of steps that sequencing and transcribing
keep (`StepClass`), as soon as the codecs of `parity-scale-codec` are of the kind the property asks
for. The induction is on the depth of the recursion; one level is `decodeTypeBody_class`, a case for
each kind of type.
-/

namespace SubstrateClient.Node

open SubstrateClient.Lib

variable {S : Scale} {reg : PortableRegistry} {K : ∀ α : Type, Codec α → Prop}
  {Q : DecodeStep → Prop}

/-! ## One level of the recursion -/

section Body

variable {rec : TypeId → DecodeStep}

theorem decodeRaw_class (hQ : StepClass Error K Q) {α : Type} {c : Codec α} (hc : K α c) :
    Q (decodeRaw c) :=
  hQ.transcribe (g := fun _ => .ok) hc fun _ => hQ.ok

theorem decodePrimitive_class (hQ : StepClass Error K Q) (hS : ∀ l : Leaf, K l.Val (S l))
    (p : TypeDefPrimitive) : Q (decodePrimitive S p) := by
  cases p with
  | char | u256 | i256 => exact hQ.err _
  | _ => exact decodeRaw_class hQ (hS _)

theorem decodeCompactPrimitive_class (hQ : StepClass Error K Q) (hS : ∀ l : Leaf, K l.Val (S l))
    (p : TypeDefPrimitive) : Q (decodeCompactPrimitive S p) := by
  cases p with
  | u8 | u16 | u32 | u64 | u128 => exact decodeRaw_class hQ (hS _)
  | _ => exact hQ.err _

theorem decodeCompact_class (hQ : StepClass Error K Q) (hS : ∀ l : Leaf, K l.Val (S l))
    (id : TypeId) : Q (decodeCompact S reg id) := by
  refine hQ.okOr fun inner _ => ?_
  obtain ⟨path, d⟩ := inner
  cases d with
  | primitive p => exact decodeCompactPrimitive_class hQ hS p
  | composite fields =>
    match fields with
    | [] => exact hQ.err _
    | [field] =>
      refine hQ.okOr fun fieldTy _ => ?_
      obtain ⟨path', d'⟩ := fieldTy
      cases d' with
      | primitive p => exact decodeCompactPrimitive_class hQ hS p
      | _ => exact hQ.err _
    | _ :: _ :: _ => exact hQ.err _
  | _ => exact hQ.err _

theorem decodeVariant_class (hQ : StepClass Error K Q) (hS : ∀ l : Leaf, K l.Val (S l))
    (hr : ∀ id, Q (rec id)) (vs : List Variant) : Q (decodeVariant S rec vs) := by
  refine hQ.transcribe (g := fun i s =>
    Outcome.okOr vs[i.toNat]? (.other s!"Variant {i} not found") >>= fun v =>
      forEach v.fields (fun field => rec field.ty) s) (hS .u8) fun i => ?_
  exact hQ.okOr fun v _ => hQ.forEach fun field _ => hr field.ty

theorem decodeSequence_class (hQ : StepClass Error K Q) (hS : ∀ l : Leaf, K l.Val (S l))
    (hr : ∀ id, Q (rec id)) (id : TypeId) : Q (decodeSequence S rec id) := by
  refine hQ.transcribe (g := fun n => forEach (List.range n.toNat) (fun _ => rec id))
    (hS .compactU32) fun n => ?_
  exact hQ.forEach fun _ _ => hr id

/-- **One level of `decode_type`** has the property if the levels below do. -/
theorem decodeTypeBody_class (hQ : StepClass Error K Q) (hS : ∀ l : Leaf, K l.Val (S l))
    (hr : ∀ id, Q (rec id)) (id : TypeId) : Q (decodeTypeBody S reg rec id) := by
  refine hQ.okOr fun ty _ => ?_
  obtain ⟨path, d⟩ := ty
  cases d with
  | composite fields => exact hQ.forEach fun _ _ => hr _
  | variant vs => exact decodeVariant_class hQ hS hr vs
  | sequence id' => exact decodeSequence_class hQ hS hr id'
  | array len id' => exact hQ.forEach fun _ _ => hr _
  | tuple ids => exact hQ.forEach fun _ _ => hr _
  | primitive p => exact decodePrimitive_class hQ hS p
  | compact _ => exact decodeCompact_class hQ hS id
  | bitSequence _ _ => exact hQ.of_not_ok fun _ _ h => by cases h

end Body

/-! ## Every depth -/

/-- **`decode_type` has every property of the class.** -/
theorem decodeType_class (hQ : StepClass Error K Q) (hS : ∀ l : Leaf, K l.Val (S l)) :
    ∀ (fuel : Nat) (id : TypeId), Q (decodeType S reg fuel id)
  | 0, _ => hQ.of_not_ok fun _ _ h => by cases h
  | fuel + 1, id => decodeTypeBody_class hQ hS (decodeType_class hQ hS fuel) id

end SubstrateClient.Node
