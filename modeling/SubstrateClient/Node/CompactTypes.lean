import SubstrateClient.Node.Value

/-!
# Compact types

A compact type refers to the type whose values it encodes: an unsigned integer, or a struct of one.
The branch of `decode_type` for compact types resolves `type_id` where it would have to resolve that
parameter, so what it looks into is the compact type itself, and it refuses it.

* `compact_never_decodes`: no value of a compact type decodes, in any registry.
* `decodeCompact_of_wraps`: of the parameter's identifier the same branch decodes every value.
-/

namespace SubstrateClient.Node

open SubstrateClient.Lib

/-- The primitive types a compact type is of. -/
inductive CompactPrimitive where
  | u8 | u16 | u32 | u64 | u128
  deriving DecidableEq, Repr

namespace CompactPrimitive

/-- The type in the registry. -/
def typeDef : CompactPrimitive → TypeDefPrimitive
  | u8 => .u8
  | u16 => .u16
  | u32 => .u32
  | u64 => .u64
  | u128 => .u128

/-- The Rust type of the compact encoding. -/
def leaf : CompactPrimitive → Leaf
  | u8 => .compactU8
  | u16 => .compactU16
  | u32 => .compactU32
  | u64 => .compactU64
  | u128 => .compactU128

end CompactPrimitive

/-- The type is the primitive, or a composite of one field of it. -/
inductive Wraps (reg : PortableRegistry) (p : CompactPrimitive) (id : TypeId) : Prop where
  | direct {path : List String} (h : reg.resolve id = some ⟨path, .primitive p.typeDef⟩)
  | field {path path' : List String} {f : Field}
      (h : reg.resolve id = some ⟨path, .composite [f]⟩)
      (hf : reg.resolve f.ty = some ⟨path', .primitive p.typeDef⟩)

/-- `decode_type` takes the compact encoding of a number off its input and copies it. -/
def DecodesCompact (S : Scale) (reg : PortableRegistry) (id : TypeId) (p : CompactPrimitive)
    (n : p.leaf.Val) (rest output : Bytes) : Prop :=
  ∃ fuel, decodeType S reg fuel id ⟨(S p.leaf).encode n ++ rest, output⟩ =
    .ok ⟨rest, output ++ (S p.leaf).encode n⟩

variable {S : Scale} {reg : PortableRegistry} {id param : TypeId} {path : List String}
  {p : CompactPrimitive}

theorem decodeCompactPrimitive_leaf (p : CompactPrimitive) :
    decodeCompactPrimitive S p.typeDef = decodeRaw (S p.leaf) := by
  cases p <;> rfl

/-- Of the parameter's identifier, the branch of the compact types decodes every value. -/
theorem decodeCompact_of_wraps (hS : S.Lawful) (h : Wraps reg p param) (n : p.leaf.Val)
    (rest output : Bytes) :
    decodeCompact S reg param ⟨(S p.leaf).encode n ++ rest, output⟩ =
      .ok ⟨rest, output ++ (S p.leaf).encode n⟩ := by
  have hfits : p.leaf.Fits n := by cases p <;> exact trivial
  have hraw := decodeRaw_accepts (hS.decode_encode p.leaf n hfits) rest output
  rw [← decodeCompactPrimitive_leaf] at hraw
  unfold decodeCompact resolveOr
  cases h with
  | direct h =>
    rw [h, Outcome.okOr_some, Outcome.ok_bind]
    exact hraw
  | field h hf =>
    rw [h, Outcome.okOr_some, Outcome.ok_bind]
    dsimp only
    rw [hf, Outcome.okOr_some, Outcome.ok_bind]
    exact hraw

/-- A compact type is refused, whatever its parameter and the input. -/
theorem decodeType_compact (h : reg.resolve id = some ⟨path, .compact param⟩) (fuel : Nat)
    (s : Cursor UInt8) :
    decodeType S reg (fuel + 1) id s = .err (.decoding
      (.invalidCompactType "Compact type must be a primitive or a composite type")) := by
  have hd : reg.typeDef id = some (.compact param) := by rw [PortableRegistry.typeDef, h]; rfl
  rw [decodeType, decodeTypeBody_of_typeDef hd]
  exact decodeCompact_of_compact hd s

/-- **No value of a compact type decodes.** -/
theorem compact_never_decodes (h : reg.resolve id = some ⟨path, .compact param⟩)
    (n : p.leaf.Val) (rest output : Bytes) : ¬ DecodesCompact S reg id p n rest output := by
  rintro ⟨fuel, hok⟩
  cases fuel with
  | zero => cases hok
  | succ fuel =>
    rw [decodeType_compact h] at hok
    cases hok

/-! ## A compact balance -/

/-- `u128`, `Compact<u128>`, a struct of one `u128`, and its compact type. -/
def balanceRegistry : PortableRegistry :=
  ⟨[⟨[], .primitive .u128⟩, ⟨[], .compact 0⟩, ⟨["Balance"], .composite [⟨0⟩]⟩, ⟨[], .compact 2⟩]⟩

/-- A balance of seven does not decode, wrapped or not. -/
theorem compact_never_decodes_balance :
    ¬ DecodesCompact Scale.reference balanceRegistry 1 .u128 7#128 [1, 2] [] ∧
      ¬ DecodesCompact Scale.reference balanceRegistry 3 .u128 7#128 [1, 2] [] :=
  ⟨compact_never_decodes (p := .u128) rfl 7#128 [1, 2] [],
    compact_never_decodes (p := .u128) rfl 7#128 [1, 2] []⟩

/-- **One million is refused**: the parameter is a `u128`, and the decoder says that a compact type
must be a primitive or a composite. -/
theorem not_decodesCompact_million : Wraps balanceRegistry .u128 0 ∧
    balanceRegistry.resolve 1 = some ⟨[], .compact 0⟩ ∧
    ¬ DecodesCompact Scale.reference balanceRegistry 1 .u128 1000000#128 [] [] ∧
    decodeType Scale.reference balanceRegistry 1 1
      ⟨(Scale.reference .compactU128).encode 1000000#128, []⟩ = .err (.decoding
        (.invalidCompactType "Compact type must be a primitive or a composite type")) := by
  refine ⟨.direct rfl, rfl, ?_, decodeType_compact rfl 0 _⟩
  rintro ⟨fuel, hok⟩
  cases fuel with
  | zero => cases hok
  | succ fuel =>
    rw [decodeType_compact rfl] at hok
    cases hok

end SubstrateClient.Node
