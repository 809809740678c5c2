import SubstrateClient.Node.Decoder

/-!
# The documented format of `DispatchError`

`dispatchReference` is the format of `sp_runtime::DispatchError`: a byte for the variant, then the
encoding of its fields, the texts skipped. It is lawful (`dispatchReference_lawful`), so what the
decoder assumes of the codec is satisfiable.
-/

namespace SubstrateClient.Node

open SubstrateClient.Lib

/-- A dispatch error that was read is what the wire carries of it. -/
theorem DispatchLawful.wire_of_decode {D : Codec DispatchError} (hD : DispatchLawful D)
    {bs rest : Bytes} {e : DispatchError} (h : D.decode bs = .ok (e, rest)) : e.wire = e := by
  rw [hD.encode_decode _ _ _ h, hD.decode_encode] at h
  exact (Prod.mk.inj (Except.ok.inj h)).1

/-- The variant byte of a token error. -/
def TokenError.code : TokenError → UInt8
  | .noFunds => 0
  | .wouldDie => 1
  | .belowMinimum => 2
  | .cannotCreate => 3
  | .unknownAsset => 4
  | .frozen => 5
  | .unsupported => 6

/-- The variant byte of an arithmetic error. -/
def ArithmeticError.code : ArithmeticError → UInt8
  | .underflow => 0
  | .overflow => 1
  | .divisionByZero => 2

/-- The variant byte of a transactional error. -/
def TransactionalError.code : TransactionalError → UInt8
  | .limitReached => 0
  | .noLayer => 1

/-- The documented format of `DispatchError`. -/
def dispatchReference : Codec DispatchError where
  encode
    | .other _ => [0]
    | .cannotLookup => [1]
    | .badOrigin => [2]
    | .module e => 3 :: e.index :: e.error.toList
    | .consumerRemaining => [4]
    | .noProviders => [5]
    | .tooManyConsumers => [6]
    | .token e => [7, e.code]
    | .arithmetic e => [8, e.code]
    | .transactional e => [9, e.code]
  decode
    | 0 :: rest => .ok (.other "", rest)
    | 1 :: rest => .ok (.cannotLookup, rest)
    | 2 :: rest => .ok (.badOrigin, rest)
    | 3 :: i :: e₀ :: e₁ :: e₂ :: e₃ :: rest => .ok (.module ⟨i, #v[e₀, e₁, e₂, e₃], none⟩, rest)
    | 4 :: rest => .ok (.consumerRemaining, rest)
    | 5 :: rest => .ok (.noProviders, rest)
    | 6 :: rest => .ok (.tooManyConsumers, rest)
    | 7 :: 0 :: rest => .ok (.token .noFunds, rest)
    | 7 :: 1 :: rest => .ok (.token .wouldDie, rest)
    | 7 :: 2 :: rest => .ok (.token .belowMinimum, rest)
    | 7 :: 3 :: rest => .ok (.token .cannotCreate, rest)
    | 7 :: 4 :: rest => .ok (.token .unknownAsset, rest)
    | 7 :: 5 :: rest => .ok (.token .frozen, rest)
    | 7 :: 6 :: rest => .ok (.token .unsupported, rest)
    | 8 :: 0 :: rest => .ok (.arithmetic .underflow, rest)
    | 8 :: 1 :: rest => .ok (.arithmetic .overflow, rest)
    | 8 :: 2 :: rest => .ok (.arithmetic .divisionByZero, rest)
    | 9 :: 0 :: rest => .ok (.transactional .limitReached, rest)
    | 9 :: 1 :: rest => .ok (.transactional .noLayer, rest)
    | _ => .error "Could not decode `DispatchError`"

/-- Four bytes are a vector of four bytes. -/
theorem vector_four (v : Vector UInt8 4) : ∃ a b c d, v = #v[a, b, c, d] := by
  obtain ⟨⟨l⟩, h⟩ := v
  match l, h with
  | [a, b, c, d], _ => exact ⟨a, b, c, d, rfl⟩

/-- **The documented format is lawful.** -/
theorem dispatchReference_lawful : DispatchLawful dispatchReference where
  decode_encode := by
    intro e rest
    cases e with
    | module e =>
      obtain ⟨i, v, msg⟩ := e
      obtain ⟨a, b, c, d, rfl⟩ := vector_four v
      rfl
    | token e => cases e <;> rfl
    | arithmetic e => cases e <;> rfl
    | transactional e => cases e <;> rfl
    | _ => rfl
  encode_decode := by
    intro bs e rest h
    dsimp only [dispatchReference] at h
    split at h <;> cases h <;> rfl

end SubstrateClient.Node
