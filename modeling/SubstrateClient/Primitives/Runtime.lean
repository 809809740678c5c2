import Mathlib.Data.Nat.Log
import Mathlib.Tactic.IntervalCases
import SubstrateClient.Scale

/-!
# The types of `sp_runtime` an extrinsic is made of

Addresses, signatures and eras come from `sp_runtime`, which is not part of the repository: their
data is modelled, their codecs and `Era::mortal` are the parameter `Runtime`. What the client relies
on is split as the codecs are used: `Runtime.Lawful` for what it encodes (an address whose encoding a
length prefix can count, any signature, the eras it can build), and `Runtime.Canonical` for what it
decodes.

`Runtime.reference` is the documented format; it is lawful and canonical (`reference_lawful`,
`reference_canonical`).
-/

namespace SubstrateClient.Primitives

open SubstrateClient.Lib

/-- `[u8; w]`. -/
abbrev Fixed (w : Nat) := {bs : Bytes // bs.length = w}

/-- `AccountId32`. -/
abbrev AccountId := Fixed 32

/-- `MultiAddress<AccountId, ()>`. -/
inductive GenericAddress where
  | id (account : AccountId)
  | index
  | raw (data : Bytes)
  | address32 (data : Fixed 32)
  | address20 (data : Fixed 20)
  deriving DecidableEq

/-- `MultiSignature`. -/
inductive MultiSignature where
  | ed25519 (sig : Fixed 64)
  | sr25519 (sig : Fixed 64)
  | ecdsa (sig : Fixed 65)
  deriving DecidableEq

/-- `Era`. -/
inductive Era where
  | immortal
  | mortal (period phase : UInt64)
  deriving DecidableEq, Repr

/-- What `sp_runtime` provides. -/
structure Runtime where
  address : Codec GenericAddress
  signature : Codec MultiSignature
  era : Codec Era
  /-- `Era::mortal`. -/
  eraMortal : UInt64 → UInt64 → Era

namespace Runtime

/-- The eras a client can build. -/
inductive Built (R : Runtime) : Era → Prop where
  | immortal : Built R .immortal
  | mortal (period current : UInt64) : Built R (R.eraMortal period current)

/-- What the client relies on of what it encodes. -/
structure Lawful (R : Runtime) : Prop where
  address : ∀ a, (R.address.encode a).length < 2 ^ 32 → R.address.RoundTripsAt a
  signature : R.signature.RoundTrips
  era : ∀ e, R.Built e → R.era.RoundTripsAt e

/-- What the client relies on of what it decodes. -/
structure Canonical (R : Runtime) : Prop where
  address : R.address.Canonical
  signature : R.signature.Canonical
  era : R.era.Canonical

end Runtime

/-! ## Addresses and signatures -/

/-- The payload of a variant, wrapped. -/
def payload {α β : Type} (wrap : α → β) (r : Except String (α × Bytes)) :
    Except String (β × Bytes) :=
  r.map fun x => (wrap x.1, x.2)

theorem payload_eq_ok {α β : Type} {wrap : α → β} {r : Except String (α × Bytes)} {v : β}
    {rest : Bytes} : payload wrap r = .ok (v, rest) ↔ ∃ x, r = .ok (x, rest) ∧ wrap x = v := by
  unfold payload
  cases r with
  | error e => simp [Except.map]
  | ok x =>
    obtain ⟨x, bs⟩ := x
    simp only [Except.map, Except.ok.injEq, Prod.mk.injEq]
    constructor
    · rintro ⟨rfl, rfl⟩
      exact ⟨x, ⟨rfl, rfl⟩, rfl⟩
    · rintro ⟨_, ⟨rfl, rfl⟩, rfl⟩
      exact ⟨rfl, rfl⟩

/-- `Vec<u8>`. -/
def byteVec : Codec Bytes := Codec.vec Scale.compactLen Scale.byte

theorem byteVec_canonical : byteVec.Canonical :=
  Scale.compactLen_canonical.vec Scale.byte_canonical

theorem length_flatMap_byte (bs : Bytes) : (bs.flatMap Scale.byte.encode).length = bs.length := by
  induction bs with
  | nil => rfl
  | cons b bs ih =>
    have hb : (Scale.byte.encode b).length = 1 := length_leBytes 1 _
    rw [List.flatMap_cons, List.length_append, List.length_cons, ih, hb, Nat.add_comm]

/-- A byte vector round-trips as soon as its encoding is short enough. -/
theorem byteVec_roundTripsAt {bs : Bytes} (h : (byteVec.encode bs).length < 2 ^ 32) :
    byteVec.RoundTripsAt bs := by
  refine Codec.RoundTripsAt.vec Scale.compactLen_roundTrips
    (fun b _ => Scale.byte_roundTrips b) (Nat.lt_of_le_of_lt ?_ h)
  show bs.length ≤ (_ ++ bs.flatMap Scale.byte.encode).length
  rw [List.length_append, length_flatMap_byte]
  exact Nat.le_add_left _ _

/-- The documented format of an address. -/
def addressReference : Codec GenericAddress where
  encode
    | .id account => 0 :: (Codec.raw 32).encode account
    | .index => [1]
    | .raw data => 2 :: byteVec.encode data
    | .address32 data => 3 :: (Codec.raw 32).encode data
    | .address20 data => 4 :: (Codec.raw 20).encode data
  decode
    | [] => .error Codec.eof
    | 0 :: bs => payload .id ((Codec.raw 32).decode bs)
    | 1 :: bs => .ok (.index, bs)
    | 2 :: bs => payload .raw (byteVec.decode bs)
    | 3 :: bs => payload .address32 ((Codec.raw 32).decode bs)
    | 4 :: bs => payload .address20 ((Codec.raw 20).decode bs)
    | _ :: _ => .error "Could not decode `MultiAddress`, variant doesn't exist"

theorem addressReference_roundTripsAt {a : GenericAddress}
    (h : (addressReference.encode a).length < 2 ^ 32) : addressReference.RoundTripsAt a := by
  intro rest
  cases a with
  | id account => exact payload_eq_ok.mpr ⟨account, Codec.raw_roundTrips 32 account rest, rfl⟩
  | index => rfl
  | raw data =>
    exact payload_eq_ok.mpr
      ⟨data, byteVec_roundTripsAt (Nat.lt_of_le_of_lt (Nat.le_succ _) h) rest, rfl⟩
  | address32 data => exact payload_eq_ok.mpr ⟨data, Codec.raw_roundTrips 32 data rest, rfl⟩
  | address20 data => exact payload_eq_ok.mpr ⟨data, Codec.raw_roundTrips 20 data rest, rfl⟩

theorem addressReference_canonical : addressReference.Canonical := by
  intro bs v rest h
  simp only [addressReference] at h
  split at h
  · cases h
  · obtain ⟨x, hx, rfl⟩ := payload_eq_ok.mp h
    exact congrArg (List.cons 0) (Codec.raw_canonical 32 _ _ _ hx)
  · cases h
    rfl
  · obtain ⟨x, hx, rfl⟩ := payload_eq_ok.mp h
    exact congrArg (List.cons 2) (byteVec_canonical _ _ _ hx)
  · obtain ⟨x, hx, rfl⟩ := payload_eq_ok.mp h
    exact congrArg (List.cons 3) (Codec.raw_canonical 32 _ _ _ hx)
  · obtain ⟨x, hx, rfl⟩ := payload_eq_ok.mp h
    exact congrArg (List.cons 4) (Codec.raw_canonical 20 _ _ _ hx)
  · cases h

/-- The documented format of a signature. -/
def signatureReference : Codec MultiSignature where
  encode
    | .ed25519 sig => 0 :: (Codec.raw 64).encode sig
    | .sr25519 sig => 1 :: (Codec.raw 64).encode sig
    | .ecdsa sig => 2 :: (Codec.raw 65).encode sig
  decode
    | [] => .error Codec.eof
    | 0 :: bs => payload .ed25519 ((Codec.raw 64).decode bs)
    | 1 :: bs => payload .sr25519 ((Codec.raw 64).decode bs)
    | 2 :: bs => payload .ecdsa ((Codec.raw 65).decode bs)
    | _ :: _ => .error "Could not decode `MultiSignature`, variant doesn't exist"

theorem signatureReference_roundTrips : signatureReference.RoundTrips := by
  intro s rest
  cases s with
  | ed25519 sig => exact payload_eq_ok.mpr ⟨sig, Codec.raw_roundTrips 64 sig rest, rfl⟩
  | sr25519 sig => exact payload_eq_ok.mpr ⟨sig, Codec.raw_roundTrips 64 sig rest, rfl⟩
  | ecdsa sig => exact payload_eq_ok.mpr ⟨sig, Codec.raw_roundTrips 65 sig rest, rfl⟩

theorem signatureReference_canonical : signatureReference.Canonical := by
  intro bs v rest h
  simp only [signatureReference] at h
  split at h
  · cases h
  · obtain ⟨x, hx, rfl⟩ := payload_eq_ok.mp h
    exact congrArg (List.cons 0) (Codec.raw_canonical 64 _ _ _ hx)
  · obtain ⟨x, hx, rfl⟩ := payload_eq_ok.mp h
    exact congrArg (List.cons 1) (Codec.raw_canonical 64 _ _ _ hx)
  · obtain ⟨x, hx, rfl⟩ := payload_eq_ok.mp h
    exact congrArg (List.cons 2) (Codec.raw_canonical 65 _ _ _ hx)
  · cases h

/-! ## Eras -/

/-- The number of low zero bits, at most `fuel`. -/
def trailingZeros : Nat → Nat → Nat
  | 0, _ => 0
  | fuel + 1, n => if n % 2 = 1 then 0 else trailingZeros fuel (n / 2) + 1

/-- How many blocks a step of the encoded phase stands for. -/
def quantizeFactor (period : Nat) : Nat := max 1 (period / 2 ^ 12)

/-- The two bytes of a mortal era as a number: the period's exponent in the low four bits, the phase
above them. -/
def mortalWord (period phase : Nat) : Nat :=
  min 15 (max 1 (trailingZeros 64 period - 1)) + 16 * (phase / quantizeFactor period)

/-- The period and the phase two bytes stand for, when they are valid. -/
def mortalOfWord (word : Nat) : Option (Nat × Nat) :=
  let period := 2 ^ (word % 16 + 1)
  let phase := word / 16 * quantizeFactor period
  if 4 ≤ period ∧ phase < period then some (period, phase) else none

/-- `Era::mortal` as documented: the period is rounded up to a power of two from `4` to `2^16`, the
phase down to a multiple of the quantize factor. -/
def mortalReference (period current : UInt64) : Era :=
  let period := 2 ^ max 2 (min 16 (Nat.clog 2 period.toNat))
  let factor := quantizeFactor period
  .mortal (UInt64.ofNat period) (UInt64.ofNat (current.toNat % period / factor * factor))

/-- The documented format of an era: one zero byte, or two bytes little-endian. -/
def eraReference : Codec Era where
  encode
    | .immortal => [0]
    | .mortal period phase => leBytes 2 (mortalWord period.toNat phase.toNat)
  decode
    | [] => .error Codec.eof
    | [b] => if b = 0 then .ok (.immortal, []) else .error Codec.eof
    | b :: c :: bs =>
      if b = 0 then .ok (.immortal, c :: bs)
      else
        match mortalOfWord (leNat [b, c]) with
        | some (period, phase) => .ok (.mortal (UInt64.ofNat period) (UInt64.ofNat phase), bs)
        | none => .error "Invalid period and phase"

/-- There are at most `2^12` steps in a period. -/
theorem le_quantizeFactor {k : Nat} (hk : 2 ≤ k) (hk' : k ≤ 16) :
    2 ^ k ≤ 2 ^ 12 * quantizeFactor (2 ^ k) := by
  interval_cases k <;> decide

theorem quantizeFactor_pos (period : Nat) : 0 < quantizeFactor period :=
  Nat.lt_of_lt_of_le Nat.one_pos (le_max_left _ _)

/-- The two bytes of a period `2^k` and of `x` steps. -/
theorem mortalWord_eq {k : Nat} (hk : 2 ≤ k) (hk' : k ≤ 16) (x : Nat) :
    mortalWord (2 ^ k) (x * quantizeFactor (2 ^ k)) = (k - 1) + 16 * x := by
  unfold mortalWord
  rw [Nat.mul_div_cancel x (quantizeFactor_pos _)]
  congr 1
  interval_cases k <;> rfl

theorem mortalOfWord_eq {k x : Nat} (hk : 2 ≤ k) (hk' : k ≤ 16)
    (hx : x * quantizeFactor (2 ^ k) < 2 ^ k) :
    mortalOfWord ((k - 1) + 16 * x) = some (2 ^ k, x * quantizeFactor (2 ^ k)) := by
  have hmod : ((k - 1) + 16 * x) % 16 + 1 = k := by omega
  have hquot : ((k - 1) + 16 * x) / 16 = x := by omega
  have h4 : 4 ≤ 2 ^ k := Nat.pow_le_pow_right (by decide : 0 < 2) hk
  unfold mortalOfWord
  simp only [hmod, hquot]
  rw [if_pos ⟨h4, hx⟩]

/-- A valid word names an exponent and a number of steps. -/
theorem mortalOfWord_eq_some {word period phase : Nat}
    (h : mortalOfWord word = some (period, phase)) :
    ∃ k x, 2 ≤ k ∧ k ≤ 16 ∧ word = (k - 1) + 16 * x ∧ period = 2 ^ k ∧
      phase = x * quantizeFactor (2 ^ k) ∧ phase < period := by
  unfold mortalOfWord at h
  simp only at h
  split at h
  · rename_i hc
    cases h
    refine ⟨word % 16 + 1, word / 16, ?_, by omega, by omega, rfl, rfl, hc.2⟩
    by_contra hk
    have hz : word % 16 = 0 := by omega
    rw [hz] at hc
    exact absurd hc.1 (by decide)
  · cases h

/-- The period and the phase of a mortal era are small numbers. -/
theorem toNat_ofNat_of_lt_pow {n k : Nat} (hk : k ≤ 16) (hn : n ≤ 2 ^ k) :
    (UInt64.ofNat n).toNat = n := by
  refine UInt64.toNat_ofNat_of_lt' (Nat.lt_of_le_of_lt hn ?_)
  calc 2 ^ k ≤ 2 ^ 16 := Nat.pow_le_pow_right (by decide) hk
    _ < 2 ^ 64 := by decide

/-- A mortal era of whole steps is read back. -/
theorem eraReference_mortal {k x : Nat} (hk : 2 ≤ k) (hk' : k ≤ 16)
    (hx : x * quantizeFactor (2 ^ k) < 2 ^ k) :
    eraReference.RoundTripsAt
      (.mortal (UInt64.ofNat (2 ^ k)) (UInt64.ofNat (x * quantizeFactor (2 ^ k)))) := by
  intro rest
  have hx12 : x < 2 ^ 12 := by
    have hle := Nat.lt_of_lt_of_le hx (le_quantizeFactor hk hk')
    exact Nat.lt_of_mul_lt_mul_right hle
  have hword : (k - 1) + 16 * x < 256 ^ 2 := by omega
  have hlow : UInt8.ofNat ((k - 1) + 16 * x) ≠ 0 := by
    intro h
    have := congrArg UInt8.toNat h
    rw [UInt8.toNat_ofNat'] at this
    simp only [UInt8.toNat_zero] at this
    omega
  have henc : eraReference.encode
      (.mortal (UInt64.ofNat (2 ^ k)) (UInt64.ofNat (x * quantizeFactor (2 ^ k)))) =
        leBytes 2 ((k - 1) + 16 * x) := by
    simp only [eraReference, toNat_ofNat_of_lt_pow hk' le_rfl, toNat_ofNat_of_lt_pow hk' hx.le,
      mortalWord_eq hk hk']
  have hval := leNat_leBytes 2 _ hword
  rw [henc]
  simp only [leBytes] at hval
  simp only [eraReference, leBytes, List.cons_append, List.nil_append, if_neg hlow, hval,
    mortalOfWord_eq hk hk' hx]

theorem eraReference_canonical : eraReference.Canonical := by
  intro bs v rest h
  simp only [eraReference] at h
  split at h
  · cases h
  · split at h
    · rename_i hb
      cases h
      rw [hb]
      rfl
    · cases h
  · rename_i b c bs
    split at h
    · rename_i hb
      cases h
      rw [hb]
      rfl
    · split at h
      · rename_i period phase hw
        cases h
        obtain ⟨k, x, hk, hk', hword, rfl, rfl, hlt⟩ := mortalOfWord_eq_some hw
        simp only [eraReference, toNat_ofNat_of_lt_pow hk' le_rfl,
          toNat_ofNat_of_lt_pow hk' hlt.le, mortalWord_eq hk hk', ← hword]
        exact congrArg (· ++ rest) (leBytes_leNat [b, c]).symm
      · cases h

/-! ## The reference -/

/-- The documented formats. -/
def Runtime.reference : Runtime where
  address := addressReference
  signature := signatureReference
  era := eraReference
  eraMortal := mortalReference

/-- **The documented formats are lawful.** -/
theorem Runtime.reference_lawful : Runtime.reference.Lawful where
  address _ h := addressReference_roundTripsAt h
  signature := signatureReference_roundTrips
  era e he := by
    obtain _ | ⟨period, current⟩ := he
    · exact fun _ => by cases ‹Bytes› <;> rfl
    · have hk : 2 ≤ max 2 (min 16 (Nat.clog 2 period.toNat)) := le_max_left _ _
      have hk' : max 2 (min 16 (Nat.clog 2 period.toNat)) ≤ 16 :=
        max_le (by decide) (min_le_left _ _)
      refine eraReference_mortal hk hk' (Nat.lt_of_le_of_lt (Nat.div_mul_le_self _ _) ?_)
      exact Nat.mod_lt _ (Nat.two_pow_pos _)

/-- **The documented formats are canonical.** -/
theorem Runtime.reference_canonical : Runtime.reference.Canonical where
  address := addressReference_canonical
  signature := signatureReference_canonical
  era := eraReference_canonical

end SubstrateClient.Primitives
