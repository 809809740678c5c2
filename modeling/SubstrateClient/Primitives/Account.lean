import SubstrateClient.Scale

/-!
# Account records (`primitives/src/lib.rs`)

The entry the node keeps for an account, with its derived codec: the fields in order.
-/

namespace SubstrateClient.Primitives

open SubstrateClient.Lib

/-- `AccountData`. -/
structure AccountData where
  free : BitVec 128
  reserved : BitVec 128
  miscFrozen : BitVec 128
  feeFrozen : BitVec 128
  deriving DecidableEq, Repr

/-- `AccountInfo`. -/
structure AccountInfo where
  nonce : UInt32
  consumers : UInt32
  providers : UInt32
  sufficients : UInt32
  data : AccountData
  deriving DecidableEq, Repr

section Codecs

variable (S : Scale)

def AccountData.codec : Codec AccountData :=
  ((S .u128).pair ((S .u128).pair ((S .u128).pair (S .u128)))).iso
    { toFun := fun v => ⟨v.1, v.2.1, v.2.2.1, v.2.2.2⟩
      invFun := fun v => (v.free, v.reserved, v.miscFrozen, v.feeFrozen)
      left_inv := fun _ => rfl
      right_inv := fun _ => rfl }

def AccountInfo.codec : Codec AccountInfo :=
  ((S .u32).pair ((S .u32).pair ((S .u32).pair ((S .u32).pair (AccountData.codec S))))).iso
    { toFun := fun v => ⟨v.1, v.2.1, v.2.2.1, v.2.2.2.1, v.2.2.2.2⟩
      invFun := fun v => (v.nonce, v.consumers, v.providers, v.sufficients, v.data)
      left_inv := fun _ => rfl
      right_inv := fun _ => rfl }

end Codecs

variable {S : Scale}

theorem AccountData.canonical (hS : S.Lawful) : (AccountData.codec S).Canonical :=
  have h := hS.encode_decode .u128
  (h.pair (h.pair (h.pair h))).iso _

theorem AccountInfo.canonical (hS : S.Lawful) : (AccountInfo.codec S).Canonical :=
  have h := hS.encode_decode .u32
  (h.pair (h.pair (h.pair (h.pair (AccountData.canonical hS))))).iso _

end SubstrateClient.Primitives
