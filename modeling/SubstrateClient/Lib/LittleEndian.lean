import Mathlib.Data.Nat.Log
import Mathlib.Tactic.Ring
import SubstrateClient.Lib.Codec

/-!
# Little-endian and compact integers

`leBytes w n` writes `n` on `w` bytes, least significant first, and `leNat` reads them back.
`raw w` is the codec of `w` bytes as they are; `fixed w` reads it as a `BitVec (8 * w)`.

`compact` is the length-moded integer format: the two low bits of the first byte give the mode, a
number below `2^6`, `2^14` or `2^30` takes one, two or four bytes, and a larger one takes a byte
that says how many bytes follow and as few of them as it needs. The decoder accepts the shortest
form only, so the codec is canonical.
-/

namespace SubstrateClient.Lib

/-- `n` on `w` bytes, least significant first. -/
def leBytes : Nat → Nat → Bytes
  | 0, _ => []
  | w + 1, n => UInt8.ofNat n :: leBytes w (n / 256)

/-- The number little-endian bytes stand for. -/
def leNat : Bytes → Nat
  | [] => 0
  | b :: bs => b.toNat + 256 * leNat bs

@[simp] theorem length_leBytes : ∀ w n : Nat, (leBytes w n).length = w
  | 0, _ => rfl
  | w + 1, n => by rw [leBytes, List.length_cons, length_leBytes w]

theorem leNat_leBytes : ∀ (w n : Nat), n < 256 ^ w → leNat (leBytes w n) = n
  | 0, n, h => by
    rw [Nat.pow_zero] at h
    exact (Nat.lt_one_iff.mp h).symm
  | w + 1, n, h => by
    have hq : n / 256 < 256 ^ w := by
      rw [Nat.pow_succ, Nat.mul_comm] at h
      exact Nat.div_lt_of_lt_mul h
    rw [leBytes, leNat, leNat_leBytes w _ hq, UInt8.toNat_ofNat']
    omega

theorem leNat_lt : ∀ bs : Bytes, leNat bs < 256 ^ bs.length
  | [] => Nat.one_pos
  | b :: bs => by
    have ih := leNat_lt bs
    have hb := b.toNat_lt
    rw [leNat, List.length_cons, Nat.pow_succ]
    omega

theorem leBytes_leNat : ∀ bs : Bytes, leBytes bs.length (leNat bs) = bs
  | [] => rfl
  | b :: bs => by
    have hb := b.toNat_lt
    have hq : (b.toNat + 256 * leNat bs) / 256 = leNat bs := by omega
    have hr : UInt8.ofNat (b.toNat + 256 * leNat bs) = b := by
      apply UInt8.toNat_inj.mp
      rw [UInt8.toNat_ofNat']
      omega
    rw [List.length_cons, leNat, leBytes, hq, hr, leBytes_leNat bs]

namespace Codec

/-- `w` bytes as they are. -/
def raw (w : Nat) : Codec {bs : Bytes // bs.length = w} where
  encode v := v.1
  decode bs :=
    if h : w ≤ bs.length then .ok (⟨bs.take w, List.length_take_of_le h⟩, bs.drop w)
    else .error eof

theorem raw_roundTrips (w : Nat) : (raw w).RoundTrips := by
  rintro ⟨bs, rfl⟩ rest
  have h : bs.length ≤ (bs ++ rest).length := by simp
  simp only [raw, dif_pos h, List.take_left, List.drop_left]

theorem raw_canonical (w : Nat) : (raw w).Canonical := by
  intro bs v rest h
  simp only [raw] at h
  split at h
  · cases h
    exact (List.take_append_drop w bs).symm
  · cases h

/-- `w` bytes are a number of `8 * w` bits. -/
def leEquiv (w : Nat) : {bs : Bytes // bs.length = w} ≃ BitVec (8 * w) where
  toFun bs := BitVec.ofNatLT (leNat bs.1) (by
    have := leNat_lt bs.1
    rwa [bs.2, show 256 = 2 ^ 8 from rfl, ← Nat.pow_mul] at this)
  invFun v := ⟨leBytes w v.toNat, length_leBytes w _⟩
  left_inv := by
    rintro ⟨bs, rfl⟩
    exact Subtype.ext (leBytes_leNat bs)
  right_inv v := by
    apply BitVec.eq_of_toNat_eq
    have hv : v.toNat < 256 ^ w := by
      rw [show 256 = 2 ^ 8 from rfl, ← Nat.pow_mul]
      exact v.isLt
    exact leNat_leBytes w _ hv

/-- A value of `8 * w` bits on `w` bytes, least significant first. -/
def fixed {α : Type} (w : Nat) (e : BitVec (8 * w) ≃ α) : Codec α :=
  (raw w).iso ((leEquiv w).trans e)

theorem fixed_roundTrips {α : Type} (w : Nat) (e : BitVec (8 * w) ≃ α) : (fixed w e).RoundTrips :=
  fun _ => (raw_roundTrips w _).iso

theorem fixed_canonical {α : Type} (w : Nat) (e : BitVec (8 * w) ≃ α) : (fixed w e).Canonical :=
  (raw_canonical w).iso _

/-! ## Compact integers -/

/-- The shortest form of `n`. -/
def compactBytes (n : Nat) : Bytes :=
  if n < 2 ^ 6 then leBytes 1 (4 * n)
  else if n < 2 ^ 14 then leBytes 2 (4 * n + 1)
  else if n < 2 ^ 30 then leBytes 4 (4 * n + 2)
  else UInt8.ofNat (4 * (Nat.log 256 n - 3) + 3) :: leBytes (Nat.log 256 n + 1) n

/-- The number a form stands for, shortest or not. -/
def compactValue : Bytes → Nat
  | [] => 0
  | b :: bs =>
    match b.toNat % 4 with
    | 0 => b.toNat / 4
    | 1 => leNat ((b :: bs).take 2) / 4
    | 2 => leNat ((b :: bs).take 4) / 4
    | _ => leNat (bs.take (b.toNat / 4 + 4))

/-- Small forms: the mode is the low bits of the first of `w` bytes. -/
theorem compactValue_small {w m n : Nat} (hw : (w, m) = (1, 0) ∨ (w, m) = (2, 1) ∨ (w, m) = (4, 2))
    (hn : 4 * n + m < 256 ^ w) (rest : Bytes) :
    compactValue (leBytes w (4 * n + m) ++ rest) = n := by
  have hle := leNat_leBytes w _ hn
  have hlen := length_leBytes w (4 * n + m)
  have hb : (UInt8.ofNat (4 * n + m)).toNat % 4 = m % 4 := by
    rw [UInt8.toNat_ofNat']
    omega
  rcases hw with h | h | h <;> obtain ⟨rfl, rfl⟩ := Prod.mk.inj h
  · simp only [leBytes, List.cons_append, compactValue, hb]
    simp only [leBytes, leNat] at hle
    omega
  · have ht : (leBytes 2 (4 * n + 1) ++ rest).take 2 = _ := List.take_left' hlen
    simp only [leBytes, List.cons_append, compactValue, hb] at ht hle ⊢
    rw [ht, hle]
    omega
  · have ht : (leBytes 4 (4 * n + 2) ++ rest).take 4 = _ := List.take_left' hlen
    simp only [leBytes, List.cons_append, compactValue, hb] at ht hle ⊢
    rw [ht, hle]
    omega

theorem compactValue_big {k n : Nat} (hk : 3 ≤ k) (hk' : k < 64) (hn : n < 256 ^ (k + 1))
    (rest : Bytes) :
    compactValue ((UInt8.ofNat (4 * (k - 3) + 3) :: leBytes (k + 1) n) ++ rest) = n := by
  have hb : (UInt8.ofNat (4 * (k - 3) + 3)).toNat = 4 * (k - 3) + 3 :=
    UInt8.toNat_ofNat_of_lt' (by change _ < 256; omega)
  have hm : (4 * (k - 3) + 3) % 4 = 3 := by omega
  have hq : (4 * (k - 3) + 3) / 4 + 4 = k + 1 := by omega
  simp only [List.cons_append, compactValue, hb, hm, hq]
  rw [List.take_left' (length_leBytes (k + 1) n), leNat_leBytes _ _ hn]

/-- **The shortest form stands for its number**, whatever follows it. -/
theorem compactValue_compactBytes {n : Nat} (hn : n < 256 ^ 64) (rest : Bytes) :
    compactValue (compactBytes n ++ rest) = n := by
  unfold compactBytes
  split
  · exact compactValue_small (w := 1) (m := 0) (by simp) (by omega) rest
  split
  · exact compactValue_small (w := 2) (m := 1) (by simp) (by omega) rest
  split
  · exact compactValue_small (w := 4) (m := 2) (by simp) (by omega) rest
  · rename_i h
    have hpos : n ≠ 0 := by omega
    have h3 : 3 ≤ Nat.log 256 n := (Nat.le_log_iff_pow_le (by decide) hpos).mpr (by omega)
    have h64 : Nat.log 256 n < 64 := (Nat.log_lt_iff_lt_pow (by decide) hpos).mpr hn
    exact compactValue_big h3 h64 (Nat.lt_pow_succ_log_self (by decide) n) rest

/-- A number below `bound`, in its shortest form. -/
def compactBelow (bound : Nat) : Codec (Fin bound) where
  encode v := compactBytes v
  decode bs :=
    if h : compactValue bs < bound ∧ compactBytes (compactValue bs) <+: bs then
      .ok (⟨compactValue bs, h.1⟩, bs.drop (compactBytes (compactValue bs)).length)
    else .error "out of range"

theorem compactBelow_roundTrips {bound : Nat} (hb : bound ≤ 256 ^ 64) :
    (compactBelow bound).RoundTrips := by
  intro v rest
  have hv := compactValue_compactBytes (Nat.lt_of_lt_of_le v.isLt hb) rest
  have hp : compactBytes v <+: compactBytes v ++ rest := List.prefix_append _ _
  simp only [compactBelow, hv]
  rw [dif_pos ⟨v.isLt, hp⟩, List.drop_left]

theorem compactBelow_canonical (bound : Nat) : (compactBelow bound).Canonical := by
  intro bs v rest h
  simp only [compactBelow] at h
  split at h
  · rename_i hc
    cases h
    exact (List.prefix_iff_eq_append.mp hc.2).symm
  · cases h

/-- A value of `n` bits in compact form. -/
def compact {α : Type} (n : Nat) (e : Fin (2 ^ n) ≃ α) : Codec α :=
  (compactBelow (2 ^ n)).iso e

theorem compact_roundTrips {α : Type} {n : Nat} (hn : n ≤ 128) (e : Fin (2 ^ n) ≃ α) :
    (compact n e).RoundTrips :=
  fun _ => (compactBelow_roundTrips (by
    calc 2 ^ n ≤ 2 ^ 128 := Nat.pow_le_pow_right (by decide) hn
      _ ≤ 256 ^ 64 := by decide) _).iso

theorem compact_canonical {α : Type} (n : Nat) (e : Fin (2 ^ n) ≃ α) :
    (compact n e).Canonical :=
  (compactBelow_canonical _).iso _

end Codec

end SubstrateClient.Lib
