import Mathlib.Algebra.Group.Nat.Defs
import Mathlib.Logic.Equiv.Defs

/-!
# Codecs

A `Codec α` is a pair of functions between values and bytes: `encode` writes a value, `decode` takes
a value off the front of the input and returns what is left, or fails with a message. The two laws
a codec may have are kept apart, because they serve opposite directions:

* `RoundTripsAt c v`: the encoding of `v`, whatever follows it, decodes to `v` and leaves what
  follows.
* `Canonical c`: whatever decodes re-encodes to the bytes that were consumed.

`pair` writes one value after the other (tuples, and the fields of a record in order); `iso` reads
a codec through a bijection (a record and the tuple of its fields); `narrow` reads it through a
partial bijection, and refuses what has no image; `vec` writes a list behind its length. All of
them keep both laws.
-/

namespace SubstrateClient.Lib

/-- A byte string. -/
abbrev Bytes := List UInt8

/-- `str::as_bytes`. -/
def asBytes (s : String) : Bytes := s.toByteArray.data.toList

/-- An encoder and a decoder for `α`. -/
structure Codec (α : Type) where
  encode : α → Bytes
  decode : Bytes → Except String (α × Bytes)

namespace Codec

variable {α β : Type}

/-- The encoding of `v` decodes to `v`, whatever follows it. -/
def RoundTripsAt (c : Codec α) (v : α) : Prop :=
  ∀ rest, c.decode (c.encode v ++ rest) = .ok (v, rest)

/-- Every value round-trips. -/
def RoundTrips (c : Codec α) : Prop := ∀ v, c.RoundTripsAt v

/-- Whatever decodes re-encodes to the bytes that were consumed. -/
def Canonical (c : Codec α) : Prop :=
  ∀ bs v rest, c.decode bs = .ok (v, rest) → bs = c.encode v ++ rest

/-- What a slice answers to a read past its end. -/
def eof : String := "Not enough data to fill buffer"

/-- `Input::read_byte`. -/
def readByte : Bytes → Except String (UInt8 × Bytes)
  | [] => .error eof
  | b :: bs => .ok (b, bs)

theorem readByte_eq_ok {bs rest : Bytes} {b : UInt8} :
    readByte bs = .ok (b, rest) ↔ bs = b :: rest := by
  cases bs with
  | nil => simp [readByte]
  | cons c cs => simp [readByte]

theorem RoundTripsAt.decode_encode {c : Codec α} {v : α} (h : c.RoundTripsAt v) :
    c.decode (c.encode v) = .ok (v, []) := by
  have := h []
  rwa [List.append_nil] at this

/-- Where there is another value, a value is written on at least one byte. -/
theorem RoundTripsAt.encode_ne_nil {c : Codec α} {v w : α} (hv : c.RoundTripsAt v)
    (hw : c.RoundTripsAt w) (hne : v ≠ w) : c.encode v ≠ [] := by
  intro hnil
  have hboth := hv (c.encode w)
  rw [hnil, List.nil_append, hw.decode_encode] at hboth
  exact hne (Prod.mk.inj (Except.ok.inj hboth)).1.symm

/-- **Encodings can be told apart in a row**: values that round-trip on at least one byte each are
determined by the concatenation of their encodings. -/
theorem RoundTrips.flatMap_injective {c : Codec α} (h : c.RoundTrips)
    (hne : ∀ v, c.encode v ≠ []) :
    ∀ {vs ws : List α}, vs.flatMap c.encode = ws.flatMap c.encode → vs = ws
  | [], [], _ => rfl
  | [], w :: ws, he => by
    rw [List.flatMap_nil, List.flatMap_cons] at he
    exact absurd (List.append_eq_nil_iff.mp he.symm).1 (hne w)
  | v :: vs, [], he => by
    rw [List.flatMap_nil, List.flatMap_cons] at he
    exact absurd (List.append_eq_nil_iff.mp he).1 (hne v)
  | v :: vs, w :: ws, he => by
    rw [List.flatMap_cons, List.flatMap_cons] at he
    have hv := h v (vs.flatMap c.encode)
    rw [he, h w (ws.flatMap c.encode)] at hv
    obtain ⟨hwv, htail⟩ := Prod.mk.inj (Except.ok.inj hv)
    rw [hwv, h.flatMap_injective hne htail.symm]

/-! ## Pairs -/

/-- One value after the other. -/
def pair (a : Codec α) (b : Codec β) : Codec (α × β) where
  encode v := a.encode v.1 ++ b.encode v.2
  decode bs :=
    match a.decode bs with
    | .error e => .error e
    | .ok (x, bs) =>
      match b.decode bs with
      | .error e => .error e
      | .ok (y, bs) => .ok ((x, y), bs)

theorem RoundTripsAt.pair {a : Codec α} {b : Codec β} {v : α × β} (ha : a.RoundTripsAt v.1)
    (hb : b.RoundTripsAt v.2) : (a.pair b).RoundTripsAt v := by
  intro rest
  simp only [Codec.pair, List.append_assoc, ha (b.encode v.2 ++ rest), hb rest]

theorem Canonical.pair {a : Codec α} {b : Codec β} (ha : a.Canonical) (hb : b.Canonical) :
    (a.pair b).Canonical := by
  intro bs v rest h
  simp only [Codec.pair] at h
  split at h
  · cases h
  · rename_i x bs' hx
    split at h
    · cases h
    · rename_i y bs'' hy
      cases h
      rw [ha _ _ _ hx, hb _ _ _ hy, ← List.append_assoc]
      rfl

/-! ## Bijections -/

/-- A codec read through a bijection. -/
def iso (c : Codec α) (e : α ≃ β) : Codec β where
  encode v := c.encode (e.symm v)
  decode bs :=
    match c.decode bs with
    | .error m => .error m
    | .ok (x, bs) => .ok (e x, bs)

theorem RoundTripsAt.iso {c : Codec α} {e : α ≃ β} {v : β} (h : c.RoundTripsAt (e.symm v)) :
    (c.iso e).RoundTripsAt v := by
  intro rest
  simp only [Codec.iso, h rest, Equiv.apply_symm_apply]

theorem Canonical.iso {c : Codec α} (h : c.Canonical) (e : α ≃ β) : (c.iso e).Canonical := by
  intro bs v rest hd
  simp only [Codec.iso] at hd
  split at hd
  · cases hd
  · rename_i x bs' hx
    cases hd
    rw [h _ _ _ hx]
    simp only [Codec.iso, Equiv.symm_apply_apply]

/-! ## Partial bijections -/

/-- A codec read through `dec`, the partial inverse of `enc`. -/
def narrow (c : Codec α) (enc : β → α) (dec : α → Option β) (msg : String) : Codec β where
  encode v := c.encode (enc v)
  decode bs :=
    match c.decode bs with
    | .error m => .error m
    | .ok (x, bs) =>
      match dec x with
      | none => .error msg
      | some v => .ok (v, bs)

theorem RoundTripsAt.narrow {c : Codec α} {enc : β → α} {dec : α → Option β} {msg : String}
    {v : β} (h : c.RoundTripsAt (enc v)) (hv : dec (enc v) = some v) :
    (c.narrow enc dec msg).RoundTripsAt v := by
  intro rest
  simp only [Codec.narrow, h rest, hv]

theorem Canonical.narrow {c : Codec α} {enc : β → α} {dec : α → Option β} {msg : String}
    (h : c.Canonical) (hd : ∀ x v, dec x = some v → enc v = x) :
    (c.narrow enc dec msg).Canonical := by
  intro bs v rest hb
  simp only [Codec.narrow] at hb
  split at hb
  · cases hb
  · rename_i x bs' hx
    split at hb
    · cases hb
    · rename_i v' hv
      cases hb
      rw [h _ _ _ hx, ← hd _ _ hv]
      rfl

/-! ## Lists behind their length -/

/-- `n` values one after the other. -/
def decodeN (c : Codec α) : Nat → Bytes → Except String (List α × Bytes)
  | 0, bs => .ok ([], bs)
  | n + 1, bs =>
    match c.decode bs with
    | .error e => .error e
    | .ok (x, bs) =>
      match decodeN c n bs with
      | .error e => .error e
      | .ok (xs, bs) => .ok (x :: xs, bs)

/-- A list: its length, then its elements. -/
def vec (len : Codec UInt32) (c : Codec α) : Codec (List α) where
  encode vs := len.encode (UInt32.ofNat vs.length) ++ vs.flatMap c.encode
  decode bs :=
    match len.decode bs with
    | .error e => .error e
    | .ok (n, bs) => decodeN c n.toNat bs

theorem decodeN_encode {c : Codec α} (rest : Bytes) :
    ∀ vs : List α, (∀ v ∈ vs, c.RoundTripsAt v) →
      decodeN c vs.length (vs.flatMap c.encode ++ rest) = .ok (vs, rest)
  | [], _ => rfl
  | v :: vs, h => by
    have ih := decodeN_encode rest vs fun w hw => h w (List.mem_cons_of_mem v hw)
    have hv := h v List.mem_cons_self (vs.flatMap c.encode ++ rest)
    simp only [List.length_cons, decodeN, List.flatMap_cons, List.append_assoc, hv, ih]

theorem decodeN_canonical {c : Codec α} (hc : c.Canonical) :
    ∀ (n : Nat) (bs : Bytes) (vs : List α) (rest : Bytes), decodeN c n bs = .ok (vs, rest) →
      vs.length = n ∧ bs = vs.flatMap c.encode ++ rest
  | 0, _, _, _, h => by cases h; exact ⟨rfl, rfl⟩
  | n + 1, bs, vs, rest, h => by
    simp only [decodeN] at h
    split at h
    · cases h
    · rename_i x bs' hx
      split at h
      · cases h
      · rename_i xs bs'' hxs
        cases h
        obtain ⟨hlen, hbs⟩ := decodeN_canonical hc n _ _ _ hxs
        refine ⟨by rw [List.length_cons, hlen], ?_⟩
        rw [hc _ _ _ hx, hbs, List.flatMap_cons, List.append_assoc]

theorem RoundTripsAt.vec {len : Codec UInt32} {c : Codec α} {vs : List α} (hl : len.RoundTrips)
    (hc : ∀ v ∈ vs, c.RoundTripsAt v) (hlen : vs.length < 2 ^ 32) :
    (vec len c).RoundTripsAt vs := by
  intro rest
  have hn : (UInt32.ofNat vs.length).toNat = vs.length := UInt32.toNat_ofNat_of_lt' hlen
  simp only [Codec.vec, List.append_assoc, hl _ (vs.flatMap c.encode ++ rest), hn,
    decodeN_encode rest vs hc]

theorem Canonical.vec {len : Codec UInt32} {c : Codec α} (hl : len.Canonical)
    (hc : c.Canonical) : (vec len c).Canonical := by
  intro bs vs rest h
  simp only [Codec.vec] at h
  split at h
  · cases h
  · rename_i n bs' hn
    obtain ⟨hlen, hbs⟩ := decodeN_canonical hc _ _ _ _ h
    rw [hl _ _ _ hn, hbs]
    simp only [Codec.vec, hlen, UInt32.ofNat_toNat, List.append_assoc]

/-- A decoded list is no longer than its length field can say. -/
theorem vec_decode_length {len : Codec UInt32} {c : Codec α} (hc : c.Canonical) {bs rest : Bytes}
    {vs : List α} (h : (vec len c).decode bs = .ok (vs, rest)) : vs.length < 2 ^ 32 := by
  simp only [Codec.vec] at h
  split at h
  · cases h
  · rename_i n bs' hn
    rw [(decodeN_canonical hc _ _ _ _ h).1]
    exact n.toNat_lt

end Codec

end SubstrateClient.Lib
