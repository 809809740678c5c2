import SubstrateClient.Lib.Outcome
import SubstrateClient.Primitives.Runtime
import SubstrateClient.Utils

/-!
# The extrinsic format (`primitives/src/extrinsics.rs`)

An extrinsic is a `Vec<u8>` on the wire: a length prefix, then the body, which is a version byte
whose high bit says whether a signature follows, the signature, and the call. The encoder leaves
room for the prefix from the size of the Rust type (`size`, a parameter here) and splices the real
one in; the decoder reads the prefix as a `Vec<()>` and drops it.

* `encode_eq`: the encoding is the length of the body and the body, whatever room was left.
  `encode_is_vec`: this is the encoding of the body as a vector of bytes.
* `extrinsic_roundTrips`: an extrinsic round-trips, whatever follows it.
* `decode_eq_ok`: what an accepted input consists of. `decode_consumed`: re-encoding gives back the
  bytes consumed exactly when the prefix is the length of the body, and the decoder accepts any
  prefix (`decode_length_ignored`).
-/

namespace SubstrateClient.Primitives

open SubstrateClient.Lib

/-- `GenericExtra`. -/
structure GenericExtra where
  era : Era
  nonce : UInt32
  tip : BitVec 128
  deriving DecidableEq

/-- `GenericExtra::new`. -/
def GenericExtra.new (era : Era) (nonce : UInt32) : GenericExtra := ⟨era, nonce, 0⟩

/-- What a signed extrinsic carries besides the call. -/
abbrev Signed := GenericAddress × MultiSignature × GenericExtra

/-- `UncheckedExtrinsicV4`. -/
structure UncheckedExtrinsicV4 (Call : Type) where
  signature : Option Signed
  function : Call
  deriving DecidableEq

/-- `V4`. -/
def v4 : UInt8 := 4

section Codecs

variable (S : Scale) (R : Runtime)

/-- The derived codec of `GenericExtra`: its fields in order. -/
def GenericExtra.codec : Codec GenericExtra :=
  (R.era.pair ((S .compactU32).pair (S .compactU128))).iso
    { toFun := fun v => ⟨v.1, v.2.1, v.2.2⟩
      invFun := fun v => (v.era, v.nonce, v.tip)
      left_inv := fun _ => rfl
      right_inv := fun _ => rfl }

/-- The codec of the tuple `(GenericAddress, MultiSignature, GenericExtra)`. -/
def Signed.codec : Codec Signed := R.address.pair (R.signature.pair (GenericExtra.codec S R))

/-- The room left for the length prefix. -/
def reserve (size : Nat) : Nat :=
  if size ≤ 0b0011_1111 then 1
  else if size ≤ 0b0011_1111_1111_1111 then 2
  else 4

/-- The encoding of a `Vec<()>` of length `n`. -/
def lengthPrefix (n : Nat) : Bytes := (S .vecUnit).encode (List.replicate n ())

/-- The codec of a `Vec<u8>`: the length in compact form, then the bytes. -/
def vecU8 : Codec Bytes := Codec.vec (S .compactU32) (S .u8)

/-- `length.using_encoded(..)`: a length that is not a `u32` panics. -/
def encodeLength (n : Nat) : Outcome String Bytes :=
  if n < 2 ^ 32 then .ok (lengthPrefix S n) else .panic "Compact encodes length"

/-- `encode_with_vec_prefix`. The encoder appends to the buffer, so the subtraction does not
wrap. -/
def encodeWithVecPrefix (size : Nat) (encoder : Bytes → Bytes) : Outcome String Bytes := do
  let v := encoder (List.replicate (reserve size) 0)
  let s ← encodeLength S (v.length - reserve size)
  .ok (s ++ v.drop (reserve size))

variable {Call : Type} (call : Codec Call)

namespace UncheckedExtrinsicV4

/-- `Encode::encode`. -/
def encode (size : Nat) (x : UncheckedExtrinsicV4 Call) : Outcome String Bytes :=
  encodeWithVecPrefix S size fun v =>
    match x.signature with
    | some s => v ++ [v4 ||| 0b1000_0000] ++ (Signed.codec S R).encode s ++ call.encode x.function
    | none => v ++ [v4 &&& 0b0111_1111] ++ call.encode x.function

/-- `hex_encode`. -/
def hexEncode (H : Utils.Hex) (size : Nat) (x : UncheckedExtrinsicV4 Call) :
    Outcome String String := do
  let bytes ← x.encode S R call size
  .ok ("0x" ++ H.encode bytes)

/-- The signature, when the version byte announces one. -/
def decodeSigned (isSigned : Bool) (input : Bytes) : Outcome String (Option Signed × Bytes) :=
  if isSigned then do
    let (s, input) ← Outcome.ofExcept id ((Signed.codec S R).decode input)
    .ok (some s, input)
  else .ok (none, input)

/-- `Decode::decode`: the extrinsic and the input left. -/
def decode (input : Bytes) : Outcome String (UncheckedExtrinsicV4 Call × Bytes) := do
  let (_length, input) ← Outcome.ofExcept id ((S .vecUnit).decode input)
  let (version, input) ← Outcome.ofExcept id (Codec.readByte input)
  let isSigned := version &&& 0b1000_0000 != 0
  let version := version &&& 0b0111_1111
  if version != v4 then .err "Invalid transaction version"
  else do
    let (signature, input) ← decodeSigned S R isSigned input
    let (function, input) ← Outcome.ofExcept id (call.decode input)
    .ok (⟨signature, function⟩, input)

/-- The version byte. -/
def version (x : UncheckedExtrinsicV4 Call) : UInt8 := if x.signature.isSome then 0x84 else 4

/-- The signature, encoded. -/
def signedBytes (x : UncheckedExtrinsicV4 Call) : Bytes :=
  match x.signature with
  | some s => (Signed.codec S R).encode s
  | none => []

/-- What follows the length prefix. -/
def body (x : UncheckedExtrinsicV4 Call) : Bytes :=
  x.version :: (x.signedBytes S R ++ call.encode x.function)

end UncheckedExtrinsicV4

end Codecs

variable {S : Scale} {R : Runtime} {Call : Type} {call : Codec Call}

/-! ## The parts -/

theorem GenericExtra.roundTripsAt (hS : S.Lawful) (hR : R.Lawful) {extra : GenericExtra}
    (h : R.Built extra.era) : (GenericExtra.codec S R).RoundTripsAt extra :=
  Codec.RoundTripsAt.iso ((hR.era _ h).pair
    ((hS.decode_encode .compactU32 _ trivial).pair (hS.decode_encode .compactU128 _ trivial)))

theorem GenericExtra.canonical (hS : S.Lawful) (hR : R.Canonical) :
    (GenericExtra.codec S R).Canonical :=
  (hR.era.pair ((hS.encode_decode .compactU32).pair (hS.encode_decode .compactU128))).iso _

theorem Signed.roundTripsAt (hS : S.Lawful) (hR : R.Lawful) {s : Signed}
    (h : R.Built s.2.2.era) (hlen : ((Signed.codec S R).encode s).length < 2 ^ 32) :
    (Signed.codec S R).RoundTripsAt s := by
  have hle : (R.address.encode s.1).length ≤ ((Signed.codec S R).encode s).length := by
    show _ ≤ (R.address.encode s.1 ++ _).length
    rw [List.length_append]
    exact Nat.le_add_right _ _
  exact (hR.address s.1 (Nat.lt_of_le_of_lt hle hlen)).pair
    ((hR.signature s.2.1).pair (GenericExtra.roundTripsAt hS hR h))

theorem Signed.canonical (hS : S.Lawful) (hR : R.Canonical) : (Signed.codec S R).Canonical :=
  hR.address.pair (hR.signature.pair (GenericExtra.canonical hS hR))

/-- A length prefix is taken off whatever follows it. -/
theorem decode_lengthPrefix (hS : S.Lawful) {n : Nat} (hn : n < 2 ^ 32) (rest : Bytes) :
    (S .vecUnit).decode (lengthPrefix S n ++ rest) = .ok (List.replicate n (), rest) :=
  hS.decode_encode .vecUnit _ (by rwa [Leaf.Fits, List.length_replicate]) rest

/-- The length prefix tells the length. -/
theorem lengthPrefix_injective (hS : S.Lawful) {n k : Nat} (hn : n < 2 ^ 32) (hk : k < 2 ^ 32)
    (h : lengthPrefix S n = lengthPrefix S k) : n = k := by
  have hd := decode_lengthPrefix hS hn []
  rw [h, decode_lengthPrefix hS hk] at hd
  have hlen := congrArg (fun r => r.1.length) (Except.ok.inj hd)
  simpa only [List.length_replicate] using hlen.symm

/-- The bytes of a vector are written as they are. -/
theorem vecU8_encode (hS : S.Lawful) (bs : Bytes) :
    (vecU8 S).encode bs = (S .compactU32).encode (UInt32.ofNat bs.length) ++ bs := by
  have hbytes : bs.flatMap (S .u8).encode = bs := by
    induction bs with
    | nil => rfl
    | cons b bs ih => rw [List.flatMap_cons, hS.encode_u8, ih, List.singleton_append]
  show _ ++ bs.flatMap (S .u8).encode = _
  rw [hbytes]

/-- The version byte of an accepted extrinsic. -/
theorem version_cases {v : UInt8} (h : v &&& 0b0111_1111 = v4) :
    v = if v &&& 0b1000_0000 != 0 then 0x84 else 4 := by
  have hall : ∀ n : Fin 256, UInt8.ofFin n &&& 0b0111_1111 = v4 →
      UInt8.ofFin n = if UInt8.ofFin n &&& 0b1000_0000 != 0 then 0x84 else 4 := by
    decide +kernel
  exact hall v.toFin h

namespace UncheckedExtrinsicV4

/-! ## Encoding -/

/-- **The encoding is the length of the body and the body**, whatever room was left for the length:
the room is what the splice replaces. -/
theorem encode_eq (size : Nat) (x : UncheckedExtrinsicV4 Call) :
    x.encode S R call size =
      (encodeLength S (x.body S R call).length >>= fun s => .ok (s ++ x.body S R call)) := by
  have happend : ∀ w : Bytes, (encodeWithVecPrefix S size fun v => v ++ w) =
      (encodeLength S w.length >>= fun s => .ok (s ++ w)) := by
    intro w
    simp only [encodeWithVecPrefix, List.length_append, List.length_replicate,
      Nat.add_sub_cancel_left, List.drop_left' List.length_replicate]
  obtain ⟨signature, function⟩ := x
  rw [← happend]
  cases signature with
  | none => simp only [encode, body, version, signedBytes, List.append_assoc]; rfl
  | some s => simp only [encode, body, version, signedBytes, List.append_assoc]; rfl

theorem encode_eq_ok {size : Nat} {x : UncheckedExtrinsicV4 Call} {bytes : Bytes} :
    x.encode S R call size = .ok bytes ↔ (x.body S R call).length < 2 ^ 32 ∧
      bytes = lengthPrefix S (x.body S R call).length ++ x.body S R call := by
  rw [encode_eq]
  unfold encodeLength
  by_cases h : (x.body S R call).length < 2 ^ 32
  · rw [if_pos h, Outcome.ok_bind]
    constructor
    · rintro ⟨⟩
      exact ⟨h, rfl⟩
    · rintro ⟨-, rfl⟩
      rfl
  · rw [if_neg h, Outcome.panic_bind]
    constructor
    · intro hb; cases hb
    · intro hb; exact absurd hb.1 h

/-- A body no length prefix can count. -/
theorem encode_panics {size : Nat} {x : UncheckedExtrinsicV4 Call}
    (h : 2 ^ 32 ≤ (x.body S R call).length) :
    x.encode S R call size = .panic "Compact encodes length" := by
  rw [encode_eq, encodeLength, if_neg (Nat.not_lt.mpr h), Outcome.panic_bind]

/-- **The encoding is that of the body as a vector of bytes**: the version byte, the signature when
there is one, and the call, behind their number; whatever the size of the Rust type, from which the
room for that number is guessed. -/
theorem encode_is_vec (hS : S.Lawful) (hL : S.Layout) (x : UncheckedExtrinsicV4 Call)
    (hlen : (x.body S R call).length < 2 ^ 32) (size : Nat) :
    x.encode S R call size = .ok ((vecU8 S).encode
      (match x.signature with
      | some s => 132 :: ((Signed.codec S R).encode s ++ call.encode x.function)
      | none => 4 :: call.encode x.function)) := by
  have hbody : (match x.signature with
      | some s => 132 :: ((Signed.codec S R).encode s ++ call.encode x.function)
      | none => 4 :: call.encode x.function) = x.body S R call := by
    obtain ⟨signature, function⟩ := x
    cases signature <;> rfl
  have hunits := hL.vecUnit (List.replicate (x.body S R call).length ())
    (by rwa [List.length_replicate])
  rw [List.length_replicate] at hunits
  rw [hbody, vecU8_encode hS, ← hunits]
  exact encode_eq_ok.mpr ⟨hlen, rfl⟩

/-- `encode_is_vec` on an unsigned call of one byte, in the three ranges of the size. -/
theorem encode_is_vec_unsigned :
    encode Scale.reference Runtime.reference Scale.byte 40 ⟨none, 7⟩ = .ok [8, 4, 7] ∧
    encode Scale.reference Runtime.reference Scale.byte 200 ⟨none, 7⟩ = .ok [8, 4, 7] ∧
    encode Scale.reference Runtime.reference Scale.byte 20000 ⟨none, 7⟩ = .ok [8, 4, 7] := by
  have hlen : (body Scale.reference Runtime.reference Scale.byte ⟨none, 7⟩).length < 2 ^ 32 := by
    decide
  have h := encode_is_vec Scale.reference_lawful Scale.reference_layout ⟨none, 7⟩ hlen
  have hvec : (vecU8 Scale.reference).encode (4 :: Scale.byte.encode 7) = [8, 4, 7] := by decide
  simp only [hvec] at h
  exact ⟨h 40, h 200, h 20000⟩

/-! ## Decoding -/

theorem decodeSigned_eq_ok {isSigned : Bool} {input rest : Bytes} {s : Option Signed} :
    decodeSigned S R isSigned input = .ok (s, rest) ↔
      match s with
      | some s => isSigned = true ∧ (Signed.codec S R).decode input = .ok (s, rest)
      | none => isSigned = false ∧ input = rest := by
  unfold decodeSigned
  cases isSigned with
  | false =>
    rw [if_neg Bool.false_ne_true]
    cases s <;> simp
  | true =>
    rw [if_pos rfl]
    cases hd : (Signed.codec S R).decode input with
    | error e => cases s <;> simp
    | ok r =>
      obtain ⟨s', rest'⟩ := r
      cases s <;> simp

/-- The low bits of the version byte are the version, the high bit the signed flag. -/
theorem version_bits (x : UncheckedExtrinsicV4 Call) :
    x.version &&& 0b0111_1111 = v4 ∧ (x.version &&& 0b1000_0000 != 0) = x.signature.isSome := by
  unfold version
  cases x.signature.isSome <;> decide

/-- **What an accepted input consists of**: a length nobody looks at, the version byte, the
signature it announces, and the call. -/
theorem decode_eq_ok {input rest : Bytes} {x : UncheckedExtrinsicV4 Call} :
    decode S R call input = .ok (x, rest) ↔
      ∃ units input₁ input₂ input₃, (S .vecUnit).decode input = .ok (units, input₁) ∧
        input₁ = x.version :: input₂ ∧
        decodeSigned S R x.signature.isSome input₂ = .ok (x.signature, input₃) ∧
        call.decode input₃ = .ok (x.function, rest) := by
  obtain ⟨signature, function⟩ := x
  unfold decode
  constructor
  · intro h
    obtain ⟨⟨units, input₁⟩, h1, h⟩ := Outcome.bind_eq_ok.mp h
    obtain ⟨⟨v, input₂⟩, h2, h⟩ := Outcome.bind_eq_ok.mp h
    rw [Outcome.ofExcept_eq_ok] at h1 h2
    by_cases hv : v &&& 0b0111_1111 = v4
    · simp only [hv, bne_self_eq_false, Bool.false_eq_true, if_false] at h
      obtain ⟨⟨s, input₃⟩, h3, h⟩ := Outcome.bind_eq_ok.mp h
      obtain ⟨⟨f, rest'⟩, h4, h⟩ := Outcome.bind_eq_ok.mp h
      rw [Outcome.ofExcept_eq_ok] at h4
      cases h
      have hs : (v &&& 0b1000_0000 != 0) = s.isSome := by
        have hd := decodeSigned_eq_ok.mp h3
        cases s with
        | none => exact hd.1
        | some s => exact hd.1
      have hver := version_cases hv
      rw [hs] at hver h3
      refine ⟨units, input₁, input₂, input₃, h1, ?_, h3, h4⟩
      rw [Codec.readByte_eq_ok.mp h2, hver]
      rfl
    · simp [hv] at h
  · rintro ⟨units, input₁, input₂, input₃, h1, rfl, h3, h4⟩
    obtain ⟨hv, hs⟩ := version_bits ⟨signature, function⟩
    simp only [h1, Codec.readByte, Outcome.ofExcept_ok, Outcome.ok_bind, hv, hs, h3, h4,
      bne_self_eq_false, Bool.false_eq_true, if_false]

/-- The encoding of an extrinsic, when it has one, is read back. -/
theorem decode_of_encode (hS : S.Lawful) (hR : R.Lawful) {size : Nat}
    {x : UncheckedExtrinsicV4 Call} (hera : ∀ s, x.signature = some s → R.Built s.2.2.era)
    (hcall : call.RoundTripsAt x.function) {bytes : Bytes}
    (h : x.encode S R call size = .ok bytes) (rest : Bytes) :
    decode S R call (bytes ++ rest) = .ok (x, rest) := by
  obtain ⟨hlen, rfl⟩ := encode_eq_ok.mp h
  rw [List.append_assoc]
  refine decode_eq_ok.mpr ⟨_, _, x.signedBytes S R ++ (call.encode x.function ++ rest), _,
    decode_lengthPrefix hS hlen _, by rw [body, List.cons_append, List.append_assoc], ?_,
    hcall rest⟩
  refine decodeSigned_eq_ok.mpr ?_
  obtain ⟨signature, function⟩ := x
  cases signature with
  | none => exact ⟨rfl, rfl⟩
  | some s =>
    have hle : ((Signed.codec S R).encode s).length ≤
        (body S R call ⟨some s, function⟩).length := by
      simp only [body, signedBytes, List.length_cons, List.length_append]
      omega
    have hs := Signed.roundTripsAt hS hR (hera s rfl) (Nat.lt_of_le_of_lt hle hlen)
    exact ⟨rfl, hs (call.encode function ++ rest)⟩

/-- **An extrinsic round-trips**: signed or not, of any body a length prefix can count, whatever
room was left for the prefix and whatever follows. -/
theorem extrinsic_roundTrips (hS : S.Lawful) (hR : R.Lawful) (size : Nat)
    (x : UncheckedExtrinsicV4 Call)
    (hera : ∀ s, x.signature = some s → R.Built s.2.2.era) (hcall : call.RoundTripsAt x.function)
    (hlen : (x.body S R call).length < 2 ^ 32) (rest : Bytes) :
    ∃ bytes, x.encode S R call size = .ok bytes ∧
      decode S R call (bytes ++ rest) = .ok (x, rest) := by
  have henc : x.encode S R call size = .ok _ := encode_eq_ok.mpr ⟨hlen, rfl⟩
  exact ⟨_, henc, decode_of_encode hS hR hera hcall henc rest⟩

/-- A signed extrinsic of a mortal era, whose call is `n` bytes. -/
def mortalExtrinsic (n : Nat) : UncheckedExtrinsicV4 (Fixed n) :=
  ⟨some (.id ⟨List.replicate 32 1, List.length_replicate⟩,
    .sr25519 ⟨List.replicate 64 2, List.length_replicate⟩,
    .new (Runtime.reference.eraMortal 64 1000) 5),
    ⟨List.replicate n 7, List.length_replicate⟩⟩

theorem length_mortalExtrinsic (n : Nat) :
    ((mortalExtrinsic n).body Scale.reference Runtime.reference (Codec.raw n)).length =
      n + 103 := by
  have hcall : ((Codec.raw n).encode (mortalExtrinsic n).function).length = n :=
    List.length_replicate
  have hsigned : ((mortalExtrinsic n).signedBytes Scale.reference Runtime.reference).length =
      102 := by
    show ((mortalExtrinsic 0).signedBytes Scale.reference Runtime.reference).length = 102
    decide
  rw [body, List.length_cons, List.length_append, hsigned, hcall]
  omega

/-- `extrinsic_roundTrips` on bodies of `2^14 - 1` bytes and of `2^14`, from where on a length takes
four bytes. -/
theorem extrinsic_roundTrips_boundary :
    (∃ body, (mortalExtrinsic 16280).encode Scale.reference Runtime.reference (Codec.raw 16280)
        200 = .ok ([253, 255] ++ body) ∧
      decode Scale.reference Runtime.reference (Codec.raw 16280) ([253, 255] ++ body ++ [1, 2]) =
        .ok (mortalExtrinsic 16280, [1, 2])) ∧
    ∃ body, (mortalExtrinsic 16281).encode Scale.reference Runtime.reference (Codec.raw 16281)
        200 = .ok ([2, 0, 1, 0] ++ body) ∧
      decode Scale.reference Runtime.reference (Codec.raw 16281) ([2, 0, 1, 0] ++ body ++ [1, 2]) =
        .ok (mortalExtrinsic 16281, [1, 2]) := by
  have hlead : ∀ n lead, n + 103 < 2 ^ 32 →
      Scale.compactLen.encode (UInt32.ofNat (n + 103)) = lead → ∃ body,
        (mortalExtrinsic n).encode Scale.reference Runtime.reference (Codec.raw n) 200 =
          .ok (lead ++ body) ∧
        decode Scale.reference Runtime.reference (Codec.raw n) (lead ++ body ++ [1, 2]) =
          .ok (mortalExtrinsic n, [1, 2]) := by
    rintro n lead hn rfl
    have hlen := length_mortalExtrinsic n
    obtain ⟨bytes, henc, hdec⟩ := extrinsic_roundTrips Scale.reference_lawful
      Runtime.reference_lawful 200 (mortalExtrinsic n) (by rintro _ ⟨⟩; exact .mortal 64 1000)
      (Codec.raw_roundTrips n (mortalExtrinsic n).function) (hlen ▸ hn) [1, 2]
    obtain ⟨-, rfl⟩ := encode_eq_ok.mp henc
    have hunits := Scale.reference_layout.vecUnit (List.replicate (n + 103) ())
      (by rwa [List.length_replicate])
    rw [List.length_replicate] at hunits
    rw [hlen, lengthPrefix, hunits] at henc hdec
    exact ⟨_, henc, hdec⟩
  exact ⟨hlead 16280 _ (by decide) (by decide), hlead 16281 _ (by decide) (by decide)⟩

/-! ## Re-encoding -/

/-- The body of an accepted extrinsic is what follows the length prefix. -/
theorem decode_body (hS : S.Lawful) (hR : R.Canonical) (hcall : call.Canonical)
    {input rest : Bytes} {x : UncheckedExtrinsicV4 Call}
    (h : decode S R call input = .ok (x, rest)) :
    ∃ n < 2 ^ 32, input = lengthPrefix S n ++ x.body S R call ++ rest := by
  obtain ⟨units, input₁, input₂, input₃, h1, rfl, h3, h4⟩ := decode_eq_ok.mp h
  have hsigned : input₂ = x.signedBytes S R ++ input₃ := by
    have hd := decodeSigned_eq_ok.mp h3
    unfold signedBytes
    cases hx : x.signature with
    | none =>
      rw [hx] at hd
      exact hd.2
    | some s =>
      rw [hx] at hd
      exact Signed.canonical hS hR _ _ _ hd.2
  have hunits : units = List.replicate units.length () :=
    List.eq_replicate_of_mem fun _ _ => rfl
  refine ⟨units.length, hS.decode_fits .vecUnit _ _ _ h1, ?_⟩
  rw [hS.encode_decode .vecUnit _ _ _ h1, hsigned, hcall _ _ _ h4, lengthPrefix, ← hunits]
  simp only [body, List.append_assoc, List.cons_append]

/-- The length prefix is not looked at: any other one decodes to the same extrinsic. -/
theorem decode_length_ignored (hS : S.Lawful) {n k : Nat} (hn : n < 2 ^ 32) (hk : k < 2 ^ 32)
    (input : Bytes) :
    decode S R call (lengthPrefix S n ++ input) = decode S R call (lengthPrefix S k ++ input) := by
  unfold decode
  rw [decode_lengthPrefix hS hn, decode_lengthPrefix hS hk]
  rfl

/-- **What re-encoding gives back**: the bytes consumed are a length prefix `n` and a body, the
extrinsic encodes to the length of that body and the body, and so to the bytes consumed exactly when
`n` is that length; a body no length prefix can count panics. The decoder accepts the body behind
every other prefix as well. -/
theorem decode_consumed (hS : S.Lawful) (hR : R.Canonical) (hcall : call.Canonical) (size : Nat)
    (input rest : Bytes) (x : UncheckedExtrinsicV4 Call)
    (h : decode S R call input = .ok (x, rest)) :
    ∃ n < 2 ^ 32, ∃ body : Bytes, input = lengthPrefix S n ++ body ++ rest ∧
      (body.length < 2 ^ 32 →
        x.encode S R call size = .ok (lengthPrefix S body.length ++ body)) ∧
      (2 ^ 32 ≤ body.length → ∃ msg, x.encode S R call size = .panic msg) ∧
      (x.encode S R call size = .ok (lengthPrefix S n ++ body) ↔ n = body.length) ∧
      ∀ k < 2 ^ 32, decode S R call (lengthPrefix S k ++ body ++ rest) = .ok (x, rest) := by
  obtain ⟨n, hn, rfl⟩ := decode_body hS hR hcall h
  refine ⟨n, hn, x.body S R call, rfl, fun hlen => encode_eq_ok.mpr ⟨hlen, rfl⟩,
    fun hlen => ⟨_, encode_panics hlen⟩, ?_, ?_⟩
  · rw [encode_eq_ok]
    constructor
    · rintro ⟨hlen, he⟩
      exact lengthPrefix_injective hS hn hlen (List.append_cancel_right he)
    · rintro rfl
      exact ⟨hn, rfl⟩
  · intro k hk
    rw [List.append_assoc] at h ⊢
    rw [← h]
    exact decode_length_ignored hS hk hn _

/-- **Re-encoding need not give back the bytes consumed**: a call of one byte behind the length 0
decodes, and encodes to the length 2 and the body. -/
theorem decode_not_canonical :
    ¬ ∀ (input consumed rest : Bytes) (x : UncheckedExtrinsicV4 UInt8),
      decode Scale.reference Runtime.reference Scale.byte input = .ok (x, rest) →
      input = consumed ++ rest →
      encode Scale.reference Runtime.reference Scale.byte 200 x = .ok consumed := by
  intro h
  have hx := h [0, 4, 7] [0, 4, 7] [] ⟨none, 7⟩ (by decide) rfl
  have henc : encode Scale.reference Runtime.reference Scale.byte 200 ⟨none, 7⟩ =
      .ok [8, 4, 7] := by decide
  rw [henc] at hx
  exact absurd hx (by decide)

/-- `decode_consumed` on a call of one byte behind the length 0. -/
theorem decode_consumed_wrong_length :
    ∃ n < 2 ^ 32, ∃ body : Bytes,
      [0, 4, 7] = lengthPrefix Scale.reference n ++ body ++ [] ∧
      (body.length < 2 ^ 32 →
        encode Scale.reference Runtime.reference Scale.byte 200 ⟨none, 7⟩ =
          .ok (lengthPrefix Scale.reference body.length ++ body)) ∧
      (2 ^ 32 ≤ body.length →
        ∃ msg, encode Scale.reference Runtime.reference Scale.byte 200 ⟨none, 7⟩ = .panic msg) ∧
      (encode Scale.reference Runtime.reference Scale.byte 200 ⟨none, 7⟩ =
          .ok (lengthPrefix Scale.reference n ++ body) ↔ n = body.length) ∧
      ∀ k < 2 ^ 32, decode Scale.reference Runtime.reference Scale.byte
        (lengthPrefix Scale.reference k ++ body ++ []) = .ok (⟨none, 7⟩, []) :=
  decode_consumed Scale.reference_lawful Runtime.reference_canonical Scale.byte_canonical 200
    [0, 4, 7] [] ⟨none, 7⟩ (by decide)

end UncheckedExtrinsicV4

end SubstrateClient.Primitives
