import SubstrateClient.Lib.LittleEndian

/-!
# The codecs of `parity-scale-codec` the client calls

The client encodes and decodes through `parity-scale-codec`, which is not part of the repository.
Its codecs are a parameter, `Scale`: one codec for each Rust type the client reads or writes whole
(`Leaf`). What the client relies on is `Scale.Lawful`:

* a value that fits the format round-trips, whatever follows it (`decode_encode`). Strings and
  vectors fit when their length is below `2^32`, the range of the length prefix; every other value
  fits (`Leaf.Fits`);
* the decoders are canonical: what decodes re-encodes to the bytes consumed (`encode_decode`), and
  a decoded value fits (`decode_fits`);
* a `u8` is written as itself (`encode_u8`).

Where it matters on how many bytes a value is written, `Scale.Layout` says so.

`Scale.reference` is the documented format, and it is lawful (`Scale.reference_lawful`): the
assumptions are satisfiable, and every result can be evaluated on it.
-/

namespace SubstrateClient

open SubstrateClient.Lib

/-- `H256`: 32 bytes. -/
structure H256 where
  bytes : Bytes
  size : bytes.length = 32
  deriving DecidableEq

/-- The Rust types the client hands to `parity-scale-codec`. -/
inductive Leaf where
  | bool | str
  | u8 | u16 | u32 | u64 | u128
  | i8 | i16 | i32 | i64 | i128
  | compactU8 | compactU16 | compactU32 | compactU64 | compactU128
  /-- `H256`. -/
  | hash
  /-- `Vec<H256>`. -/
  | vecHash
  /-- `Vec<()>`. -/
  | vecUnit
  deriving DecidableEq, Repr

/-- The values of the Rust type. -/
abbrev Leaf.Val : Leaf → Type
  | bool => Bool
  | str => String
  | u8 | compactU8 => UInt8
  | u16 | compactU16 => UInt16
  | u32 | compactU32 => UInt32
  | u64 | compactU64 => UInt64
  | u128 | compactU128 => BitVec 128
  | i8 => Int8
  | i16 => Int16
  | i32 => Int32
  | i64 => Int64
  | i128 => BitVec 128
  | hash => H256
  | vecHash => List H256
  | vecUnit => List Unit

/-- The value has an encoding: a length prefix is a `u32`. -/
def Leaf.Fits : (l : Leaf) → l.Val → Prop
  | str, s => s.utf8ByteSize < 2 ^ 32
  | vecHash, hs => hs.length < 2 ^ 32
  | vecUnit, us => us.length < 2 ^ 32
  | _, _ => True

/-- The codecs of `parity-scale-codec`. -/
abbrev Scale := (l : Leaf) → Codec l.Val

/-- What the client relies on. -/
structure Scale.Lawful (S : Scale) : Prop where
  decode_encode : ∀ (l : Leaf) (v : l.Val), l.Fits v → (S l).RoundTripsAt v
  encode_decode : ∀ l : Leaf, (S l).Canonical
  decode_fits : ∀ (l : Leaf) bs (v : l.Val) rest, (S l).decode bs = .ok (v, rest) → l.Fits v
  encode_u8 : ∀ b : UInt8, (S .u8).encode b = [b]

/-- On how many bytes values are written: a `u32` on four, a hash on its own, a vector of units on
its length alone, in compact form. -/
structure Scale.Layout (S : Scale) : Prop where
  u32 : ∀ v, ((S .u32).encode v).length = 4
  hash : ∀ h, (S .hash).encode h = h.bytes
  vecUnit : ∀ us : List Unit, us.length < 2 ^ 32 →
    (S .vecUnit).encode us = (S .compactU32).encode (UInt32.ofNat us.length)

namespace Scale.Lawful

variable {S : Scale}

theorem decode_u8 (hS : S.Lawful) (b : UInt8) (rest : Bytes) :
    (S .u8).decode (b :: rest) = .ok (b, rest) := by
  have h := hS.decode_encode .u8 b trivial rest
  rwa [hS.encode_u8] at h

end Scale.Lawful

/-! ## The documented format -/

namespace Scale

/-- `bool` on one byte. -/
def boolOf (b : UInt8) : Option Bool :=
  if b = 0 then some false else if b = 1 then some true else none

/-- The UTF-8 bytes of a string, and back. -/
def stringOf (bs : Bytes) : Option String :=
  if h : (⟨bs.toArray⟩ : ByteArray).IsValidUTF8 then some (String.ofByteArray ⟨bs.toArray⟩ h)
  else none

theorem stringOf_toList (s : String) : stringOf s.toByteArray.data.toList = some s := by
  unfold stringOf
  simp only [Array.toArray_toList]
  rw [dif_pos s.isValidUTF8]

theorem toList_of_stringOf {bs : Bytes} {s : String} (h : stringOf bs = some s) :
    s.toByteArray.data.toList = bs := by
  unfold stringOf at h
  split at h
  · cases h
    rfl
  · cases h

/-- A `u8`, as itself. -/
def byte : Codec UInt8 :=
  Codec.fixed 1 ⟨UInt8.ofBitVec, UInt8.toBitVec, fun _ => rfl, fun _ => rfl⟩

/-- `Compact<u32>`. -/
def compactLen : Codec UInt32 :=
  Codec.compact 32 ⟨fun v => ⟨⟨v⟩⟩, fun v => v.toBitVec.toFin, fun _ => rfl, fun _ => rfl⟩

/-- `H256`: its bytes. -/
def h256 : Codec H256 :=
  (Codec.raw 32).iso ⟨fun v => ⟨v.1, v.2⟩, fun v => ⟨v.bytes, v.size⟩, fun _ => rfl, fun _ => rfl⟩

/-- The documented format. -/
def reference : Scale
  | .bool => byte.narrow (fun b => if b then 1 else 0) boolOf "Invalid boolean representation"
  | .str => (Codec.vec compactLen byte).narrow (fun s => s.toByteArray.data.toList) stringOf
      "Invalid utf8 sequence"
  | .u8 => byte
  | .u16 => Codec.fixed 2 ⟨UInt16.ofBitVec, UInt16.toBitVec, fun _ => rfl, fun _ => rfl⟩
  | .u32 => Codec.fixed 4 ⟨UInt32.ofBitVec, UInt32.toBitVec, fun _ => rfl, fun _ => rfl⟩
  | .u64 => Codec.fixed 8 ⟨UInt64.ofBitVec, UInt64.toBitVec, fun _ => rfl, fun _ => rfl⟩
  | .u128 => Codec.fixed 16 (Equiv.refl _)
  | .i8 => Codec.fixed 1 ⟨Int8.ofBitVec, Int8.toBitVec, fun _ => rfl, fun _ => rfl⟩
  | .i16 => Codec.fixed 2 ⟨Int16.ofBitVec, Int16.toBitVec, fun _ => rfl, fun _ => rfl⟩
  | .i32 => Codec.fixed 4 ⟨Int32.ofBitVec, Int32.toBitVec, fun _ => rfl, fun _ => rfl⟩
  | .i64 => Codec.fixed 8 ⟨Int64.ofBitVec, Int64.toBitVec, fun _ => rfl, fun _ => rfl⟩
  | .i128 => Codec.fixed 16 (Equiv.refl _)
  | .compactU8 =>
    Codec.compact 8 ⟨fun v => ⟨⟨v⟩⟩, fun v => v.toBitVec.toFin, fun _ => rfl, fun _ => rfl⟩
  | .compactU16 =>
    Codec.compact 16 ⟨fun v => ⟨⟨v⟩⟩, fun v => v.toBitVec.toFin, fun _ => rfl, fun _ => rfl⟩
  | .compactU32 => compactLen
  | .compactU64 =>
    Codec.compact 64 ⟨fun v => ⟨⟨v⟩⟩, fun v => v.toBitVec.toFin, fun _ => rfl, fun _ => rfl⟩
  | .compactU128 => Codec.compact 128 ⟨fun v => ⟨v⟩, fun v => v.toFin, fun _ => rfl, fun _ => rfl⟩
  | .hash => h256
  | .vecHash => Codec.vec compactLen h256
  | .vecUnit => Codec.vec compactLen ⟨fun _ => [], fun bs => .ok ((), bs)⟩

theorem byte_roundTrips : byte.RoundTrips := Codec.fixed_roundTrips 1 _
theorem byte_canonical : byte.Canonical := Codec.fixed_canonical 1 _
theorem compactLen_roundTrips : compactLen.RoundTrips := Codec.compact_roundTrips (by decide) _
theorem compactLen_canonical : compactLen.Canonical := Codec.compact_canonical 32 _
theorem h256_roundTrips : h256.RoundTrips := fun _ => (Codec.raw_roundTrips 32 _).iso
theorem h256_canonical : h256.Canonical := (Codec.raw_canonical 32).iso _

theorem reference_roundTrips : ∀ (l : Leaf) (v : l.Val), l.Fits v →
    (reference l).RoundTripsAt v := by
  intro l v hv
  cases l with
  | bool => exact (byte_roundTrips _).narrow (by cases v <;> rfl)
  | str =>
    refine Codec.RoundTripsAt.narrow (Codec.RoundTripsAt.vec compactLen_roundTrips
      (fun b _ => byte_roundTrips b) ?_) (stringOf_toList v)
    rw [Array.length_toList]
    exact hv
  | u8 => exact byte_roundTrips v
  | u16 | u32 | u64 | u128 | i8 | i16 | i32 | i64 | i128 => exact Codec.fixed_roundTrips _ _ v
  | compactU8 | compactU16 | compactU32 | compactU64 | compactU128 =>
    exact Codec.compact_roundTrips (by decide) _ v
  | hash => exact h256_roundTrips v
  | vecHash => exact Codec.RoundTripsAt.vec compactLen_roundTrips (fun h _ => h256_roundTrips h) hv
  | vecUnit => exact Codec.RoundTripsAt.vec compactLen_roundTrips (fun _ _ _ => rfl) hv

theorem reference_canonical : ∀ l : Leaf, (reference l).Canonical := by
  intro l
  cases l with
  | bool =>
    refine byte_canonical.narrow fun b v h => ?_
    unfold boolOf at h
    split_ifs at h with h0 h1 <;> cases h
    · exact h0.symm
    · exact h1.symm
  | str => exact (compactLen_canonical.vec byte_canonical).narrow fun _ _ h => toList_of_stringOf h
  | u8 => exact byte_canonical
  | u16 | u32 | u64 | u128 | i8 | i16 | i32 | i64 | i128 => exact Codec.fixed_canonical _ _
  | compactU8 | compactU16 | compactU32 | compactU64 | compactU128 =>
    exact Codec.compact_canonical _ _
  | hash => exact h256_canonical
  | vecHash => exact compactLen_canonical.vec h256_canonical
  | vecUnit =>
    refine compactLen_canonical.vec fun bs v rest h => ?_
    cases h
    rfl

/-- A decoded string is no longer than its length prefix says. -/
theorem reference_str_fits {bs rest : Bytes} {s : String}
    (h : (reference .str).decode bs = .ok (s, rest)) : s.utf8ByteSize < 2 ^ 32 := by
  simp only [reference, Codec.narrow] at h
  split at h
  · cases h
  · rename_i us bs' hus
    split at h
    · cases h
    · rename_i s' hs
      cases h
      have hlen := Codec.vec_decode_length byte_canonical hus
      rwa [← toList_of_stringOf hs, Array.length_toList] at hlen

/-- **The documented format is lawful.** -/
theorem reference_lawful : reference.Lawful where
  decode_encode := reference_roundTrips
  encode_decode := reference_canonical
  decode_fits := by
    intro l bs v rest h
    cases l with
    | str => exact reference_str_fits h
    | vecHash => exact Codec.vec_decode_length h256_canonical h
    | vecUnit => exact Codec.vec_decode_length (fun _ _ _ hu => by cases hu; rfl) h
    | _ => trivial
  encode_u8 b := by
    show leBytes 1 b.toNat = [b]
    rw [leBytes, leBytes, UInt8.ofNat_toNat]

theorem reference_layout : reference.Layout where
  u32 _ := length_leBytes 4 _
  hash _ := rfl
  vecUnit us _ := by
    have hunits : us.flatMap (fun _ => ([] : Bytes)) = [] := by simp
    show compactLen.encode (UInt32.ofNat us.length) ++ us.flatMap (fun _ => ([] : Bytes)) = _
    rw [hunits, List.append_nil]
    rfl

end Scale

end SubstrateClient
