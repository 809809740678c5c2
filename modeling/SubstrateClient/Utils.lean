import Mathlib.Data.List.DropRight
import SubstrateClient.Scale

/-!
# Hexadecimal strings (`src/utils.rs`)

`from_hex` takes the quotes and the `0x` off a text and hands the rest to the `hex` crate, which is
not part of the repository: it is the parameter `H`. What the client relies on is `Hex.Lawful`: the
digits `encode` writes decode to the bytes they were written from. `Hex.reference` is the documented
behaviour.

* `fromHex_wrapped`: the digits of a byte string are read back, with or without `0x` in front and
  quotes around.
-/

namespace SubstrateClient.Utils

open SubstrateClient.Lib

/-- `hex::FromHexError`. -/
inductive FromHexError where
  | invalidHexCharacter (c : Char) (index : Nat)
  | oddLength
  | invalidStringLength
  deriving DecidableEq, Repr

/-- The `hex` crate. -/
structure Hex where
  encode : Bytes → String
  decode : String → Except FromHexError Bytes

/-- A digit, in either case. -/
def isHexDigit (c : Char) : Bool := c.isDigit || ('a' ≤ c && c ≤ 'f') || ('A' ≤ c && c ≤ 'F')

/-- What the client relies on. -/
structure Hex.Lawful (H : Hex) : Prop where
  decode_encode : ∀ bs, H.decode (H.encode bs) = .ok bs
  encode_digits : ∀ bs, ∀ c ∈ (H.encode bs).toList, isHexDigit c = true

/-- `trim_matches('"')`. -/
def trimQuotes (cs : List Char) : List Char := (cs.dropWhile (· == '"')).rdropWhile (· == '"')

/-- `trim_start_matches("0x")`: every leading `0x`. -/
def trimZeroX : List Char → List Char
  | '0' :: 'x' :: cs => trimZeroX cs
  | cs => cs

section FromHex

variable (H : Hex)

/-- `Vec::<u8>::from_hex`. -/
def fromHex (hex : String) : Except FromHexError Bytes :=
  H.decode (String.ofList (trimZeroX (trimQuotes hex.toList)))

/-- `Hash::from_hex`. -/
def hashFromHex (hex : String) : Except FromHexError H256 :=
  match fromHex H hex with
  | .error e => .error e
  | .ok v => if h : v.length = 32 then .ok ⟨v, h⟩ else .error .invalidStringLength

end FromHex

/-! ## What the trims leave -/

theorem isHexDigit_ne {c d : Char} (hc : isHexDigit c = true) (hd : isHexDigit d = false) :
    c ≠ d := by
  rintro rfl
  rw [hc] at hd
  cases hd

/-- A text without quotes keeps its characters. -/
theorem trimQuotes_eq {cs : List Char} (h : ∀ c ∈ cs, c ≠ '"') : trimQuotes cs = cs := by
  have hfront : cs.dropWhile (· == '"') = cs := by
    cases cs with
    | nil => rfl
    | cons c cs =>
      rw [List.dropWhile_cons_of_neg]
      have hc := h c List.mem_cons_self
      simpa using hc
  unfold trimQuotes
  rw [hfront, List.rdropWhile_eq_self_iff]
  intro hne
  have hlast := h _ (List.getLast_mem hne)
  simpa using hlast

/-- One pair of quotes around such a text is taken off. -/
theorem trimQuotes_quoted {cs : List Char} (h : ∀ c ∈ cs, c ≠ '"') :
    trimQuotes ('"' :: (cs ++ ['"'])) = cs := by
  cases cs with
  | nil => rfl
  | cons c cs =>
    have hc : c ≠ '"' := h c List.mem_cons_self
    have hfront : ('"' :: (c :: cs ++ ['"'])).dropWhile (· == '"') = c :: cs ++ ['"'] := by
      rw [List.dropWhile_cons_of_pos rfl, List.cons_append, List.dropWhile_cons_of_neg]
      simpa using hc
    have hback := trimQuotes_eq h
    unfold trimQuotes at hback ⊢
    rw [hfront, List.rdropWhile_concat_pos _ _ _ rfl]
    rwa [List.dropWhile_cons_of_neg (by simpa using hc)] at hback

/-- Digits do not begin with `0x`. -/
theorem trimZeroX_digits {cs : List Char} (h : ∀ c ∈ cs, isHexDigit c = true) :
    trimZeroX cs = cs := by
  unfold trimZeroX
  split
  · rename_i cs'
    have hx := h 'x' (List.mem_cons_of_mem _ List.mem_cons_self)
    exact absurd hx (by decide)
  · rfl

/-- The forms a node writes a byte string in: `0x` in front or not, quotes around or not. -/
def wrap (zeroX quoted : Bool) (digits : List Char) : List Char :=
  let cs := (if zeroX then ['0', 'x'] else []) ++ digits
  if quoted then '"' :: (cs ++ ['"']) else cs

/-- Digits behind `0x`. -/
theorem zeroX_append (digits : String) :
    "0x" ++ digits = String.ofList (wrap true false digits.toList) := by
  apply String.toList_inj.mp
  simp [wrap]

theorem trim_wrap (zeroX quoted : Bool) {digits : List Char}
    (h : ∀ c ∈ digits, isHexDigit c = true) :
    trimZeroX (trimQuotes (wrap zeroX quoted digits)) = digits := by
  have hquote : ∀ c ∈ (if zeroX then ['0', 'x'] else []) ++ digits, c ≠ '"' := by
    intro c hc
    rcases List.mem_append.mp hc with hc | hc
    · cases zeroX with
      | false => cases hc
      | true =>
        rcases List.mem_cons.mp hc with rfl | hc
        · decide
        · rw [List.mem_singleton.mp hc]
          decide
    · exact isHexDigit_ne (h c hc) (by decide)
  have hquotes : trimQuotes (wrap zeroX quoted digits) =
      (if zeroX then ['0', 'x'] else []) ++ digits := by
    cases quoted with
    | false => exact trimQuotes_eq hquote
    | true => exact trimQuotes_quoted hquote
  rw [hquotes]
  cases zeroX with
  | false => exact trimZeroX_digits h
  | true => exact trimZeroX_digits h

/-- The trims take nothing off the digits, in every form a node writes them. -/
theorem fromHex_wrap {H : Hex} (zeroX quoted : Bool) {digits : List Char}
    (h : ∀ c ∈ digits, isHexDigit c = true) :
    fromHex H (String.ofList (wrap zeroX quoted digits)) = H.decode (String.ofList digits) := by
  unfold fromHex
  rw [String.toList_ofList, trim_wrap zeroX quoted h]

/-- **The digits of a byte string are read back**, in every form a node writes them. -/
theorem fromHex_wrapped {H : Hex} (hH : H.Lawful) (zeroX quoted : Bool) (bs : Bytes) :
    fromHex H (String.ofList (wrap zeroX quoted (H.encode bs).toList)) = .ok bs := by
  rw [fromHex_wrap zeroX quoted (hH.encode_digits bs), String.ofList_toList, hH.decode_encode]

theorem hashFromHex_wrapped {H : Hex} (hH : H.Lawful) (zeroX quoted : Bool) (h : H256) :
    hashFromHex H (String.ofList (wrap zeroX quoted (H.encode h.bytes).toList)) = .ok h := by
  unfold hashFromHex
  rw [fromHex_wrapped hH]
  exact dif_pos h.size

/-! ## The documented behaviour -/

/-- The lower-case digit of a number below 16. -/
def hexDigit (n : Nat) : Char := if n < 10 then Char.ofNat (48 + n) else Char.ofNat (87 + n)

/-- The number a digit stands for. -/
def hexVal (c : Char) : Option Nat :=
  if '0' ≤ c ∧ c ≤ '9' then some (c.toNat - 48)
  else if 'a' ≤ c ∧ c ≤ 'f' then some (c.toNat - 87)
  else if 'A' ≤ c ∧ c ≤ 'F' then some (c.toNat - 55)
  else none

/-- The bytes digits stand for, two by two; `index` is the position of the first. -/
def hexBytes : Nat → List Char → Except FromHexError Bytes
  | _, [] => .ok []
  | _, [_] => .error .oddLength
  | index, c :: d :: cs =>
    match hexVal c, hexVal d with
    | none, _ => .error (.invalidHexCharacter c index)
    | _, none => .error (.invalidHexCharacter d (index + 1))
    | some x, some y =>
      match hexBytes (index + 2) cs with
      | .error e => .error e
      | .ok bs => .ok (UInt8.ofNat (16 * x + y) :: bs)

/-- The documented behaviour: lower-case digits, the high half of a byte first. -/
def Hex.reference : Hex where
  encode bs := String.ofList (bs.flatMap fun b => [hexDigit (b.toNat / 16), hexDigit (b.toNat % 16)])
  decode s := if s.toList.length % 2 = 1 then .error .oddLength else hexBytes 0 s.toList

theorem hexDigit_spec {n : Nat} (hn : n < 16) :
    hexVal (hexDigit n) = some n ∧ isHexDigit (hexDigit n) = true := by
  have hall : ∀ k : Fin 16, hexVal (hexDigit k) = some k.1 ∧ isHexDigit (hexDigit k) = true := by
    decide
  exact hall ⟨n, hn⟩

theorem half_lt (b : UInt8) : b.toNat / 16 < 16 := by
  have := b.toNat_lt
  omega

theorem hexBytes_encode (index : Nat) (bs : Bytes) :
    hexBytes index (bs.flatMap fun b => [hexDigit (b.toNat / 16), hexDigit (b.toNat % 16)]) =
      .ok bs := by
  induction bs generalizing index with
  | nil => rfl
  | cons b bs ih =>
    have hhigh := (hexDigit_spec (half_lt b)).1
    have hlow := (hexDigit_spec (Nat.mod_lt b.toNat (by decide : 0 < 16))).1
    have hb : 16 * (b.toNat / 16) + b.toNat % 16 = b.toNat := Nat.div_add_mod _ _
    simp only [List.flatMap_cons, List.cons_append, List.nil_append, hexBytes, hhigh, hlow, ih, hb,
      UInt8.ofNat_toNat]

/-- **The documented behaviour is lawful.** -/
theorem Hex.reference_lawful : Hex.reference.Lawful where
  decode_encode bs := by
    have heven : (bs.flatMap fun b => [hexDigit (b.toNat / 16), hexDigit (b.toNat % 16)]).length % 2
        ≠ 1 := by
      rw [List.length_flatMap]
      simp
    simp only [Hex.reference, String.toList_ofList]
    rw [if_neg heven, hexBytes_encode]
  encode_digits bs c hc := by
    simp only [Hex.reference, String.toList_ofList] at hc
    obtain ⟨b, -, hc⟩ := List.mem_flatMap.mp hc
    rcases List.mem_cons.mp hc with rfl | hc
    · exact (hexDigit_spec (half_lt b)).2
    · rw [List.mem_singleton.mp hc]
      exact (hexDigit_spec (Nat.mod_lt _ (by decide))).2

/-! ## Which texts decode -/

/-- The characters are the digits of the bytes, in either case. -/
def SpellsHex : List Char → Bytes → Prop
  | [], [] => True
  | c :: d :: cs, b :: bs =>
    hexVal c = some (b.toNat / 16) ∧ hexVal d = some (b.toNat % 16) ∧ SpellsHex cs bs
  | _, _ => False

/-- `hex::decode` accepts the digits of a byte string and nothing else. -/
def Hex.Exact (H : Hex) : Prop := ∀ s bs, H.decode s = .ok bs ↔ SpellsHex s.toList bs

/-- `hex::decode` accepts the digits of a byte string in either case. -/
def Hex.ReadsDigits (H : Hex) : Prop := ∀ s bs, SpellsHex s.toList bs → H.decode s = .ok bs

theorem Hex.Exact.readsDigits {H : Hex} (hH : H.Exact) : H.ReadsDigits :=
  fun s bs => (hH s bs).mpr

theorem SpellsHex.length_eq : ∀ {cs : List Char} {bs : Bytes}, SpellsHex cs bs →
    cs.length = 2 * bs.length
  | [], [], _ => rfl
  | [], _ :: _, h => h.elim
  | [_], _, h => h.elim
  | _ :: _ :: _, [], h => h.elim
  | _ :: _ :: _, _ :: _, h => by
    have ih := h.2.2.length_eq
    simp only [List.length_cons]
    omega

theorem le_iff_toNat_le (a b : Char) : a ≤ b ↔ a.toNat ≤ b.toNat := by
  rw [Char.le_def, UInt32.le_iff_toNat_le]
  rfl

theorem isHexDigit_iff {c : Char} : isHexDigit c = true ↔
    (48 ≤ c.toNat ∧ c.toNat ≤ 57) ∨ (97 ≤ c.toNat ∧ c.toNat ≤ 102) ∨
      (65 ≤ c.toNat ∧ c.toNat ≤ 70) := by
  have hdigit : c.isDigit = true ↔ 48 ≤ c.toNat ∧ c.toNat ≤ 57 := by
    simp [Char.isDigit, UInt32.le_iff_toNat_le]
  unfold isHexDigit
  simp only [le_iff_toNat_le, Char.reduceToNat, Bool.or_eq_true, Bool.and_eq_true,
    decide_eq_true_eq, hdigit, or_assoc]

/-- What `hexVal` accepts is a digit, of a number below 16. -/
theorem hexVal_spec {c : Char} {n : Nat} (h : hexVal c = some n) :
    isHexDigit c = true ∧ n < 16 := by
  unfold hexVal at h
  simp only [le_iff_toNat_le, Char.reduceToNat] at h
  rw [isHexDigit_iff]
  split_ifs at h <;> cases h <;> omega

theorem SpellsHex.isHexDigit : ∀ {cs : List Char} {bs : Bytes}, SpellsHex cs bs →
    ∀ c ∈ cs, isHexDigit c = true
  | [], _, _ => by simp
  | [_], _, h => h.elim
  | _ :: _ :: _, [], h => h.elim
  | _ :: _ :: _, _ :: _, ⟨hc, hd, hs⟩ => by
    have ih := hs.isHexDigit
    simp only [List.forall_mem_cons]
    exact ⟨(hexVal_spec hc).1, (hexVal_spec hd).1, ih⟩

/-- **Digits in either case are read back**, in every form a node writes them. -/
theorem fromHex_spells {H : Hex} (hH : H.ReadsDigits) (zeroX quoted : Bool) {digits : List Char}
    {bs : Bytes} (h : SpellsHex digits bs) :
    fromHex H (String.ofList (wrap zeroX quoted digits)) = .ok bs := by
  rw [fromHex_wrap zeroX quoted h.isHexDigit]
  exact hH _ _ (String.toList_ofList ▸ h)

/-- A text that is read as a byte string is read as a hash when there are 32 bytes. -/
theorem hashFromHex_of_fromHex {H : Hex} {text : String} {bs : Bytes} (h : fromHex H text = .ok bs)
    (hash : H256) : hashFromHex H text = .ok hash ↔ hash.bytes = bs := by
  unfold hashFromHex
  rw [h]
  dsimp only
  obtain ⟨bytes, size⟩ := hash
  by_cases hlen : bs.length = 32
  · rw [dif_pos hlen, Except.ok.injEq, H256.mk.injEq]
    exact eq_comm
  · rw [dif_neg hlen]
    refine ⟨nofun, ?_⟩
    rintro rfl
    exact absurd size hlen

/-- Two halves of a byte. -/
theorem byte_halves {x y : Nat} (hx : x < 16) (hy : y < 16) (b : UInt8) :
    UInt8.ofNat (16 * x + y) = b ↔ x = b.toNat / 16 ∧ y = b.toNat % 16 := by
  rw [← UInt8.toNat_inj, UInt8.toNat_ofNat']
  omega

theorem hexBytes_eq_ok : ∀ (index : Nat) (cs : List Char) (bs : Bytes),
    hexBytes index cs = .ok bs ↔ SpellsHex cs bs
  | _, [], [] => by simp [hexBytes, SpellsHex]
  | _, [], b :: bs => by simp [hexBytes, SpellsHex]
  | _, [_], bs => by simp [hexBytes, SpellsHex]
  | index, c :: d :: cs, bs => by
    have ih := hexBytes_eq_ok (index + 2) cs
    unfold hexBytes
    cases hc : hexVal c with
    | none => cases bs <;> simp [SpellsHex, hc]
    | some x =>
      cases hd : hexVal d with
      | none => cases bs <;> simp [SpellsHex, hd]
      | some y =>
        have hbyte := byte_halves (hexVal_spec hc).2 (hexVal_spec hd).2
        cases hrest : hexBytes (index + 2) cs with
        | error e =>
          cases bs with
          | nil => simp [SpellsHex]
          | cons b bs => simp [SpellsHex, ← ih, hrest]
        | ok bs' =>
          cases bs with
          | nil => simp [SpellsHex]
          | cons b bs =>
            simp only [Except.ok.injEq, List.cons.injEq, SpellsHex, ← ih, hrest, hc, hd,
              Option.some.injEq, ← and_assoc, hbyte]

/-- `0x`, `n` times. -/
def zeroXs (n : Nat) : List Char := (List.replicate n ['0', 'x']).flatten

/-- The digits of the bytes after any number of `0x`. -/
def HexText (cs : List Char) (bs : Bytes) : Prop :=
  ∃ n ds, cs = zeroXs n ++ ds ∧ SpellsHex ds bs

theorem trimZeroX_split : ∀ cs : List Char, ∃ n, cs = zeroXs n ++ trimZeroX cs := by
  intro cs
  induction cs using trimZeroX.induct with
  | case1 cs ih =>
    obtain ⟨n, hn⟩ := ih
    refine ⟨n + 1, ?_⟩
    conv_lhs => rw [hn]
    rfl
  | case2 cs h =>
    refine ⟨0, ?_⟩
    unfold trimZeroX
    split
    · exact (h _ rfl).elim
    · rfl

theorem trimZeroX_zeroXs {ds : List Char} (h : ∀ c ∈ ds, isHexDigit c = true) :
    ∀ n, trimZeroX (zeroXs n ++ ds) = ds
  | 0 => trimZeroX_digits h
  | n + 1 => trimZeroX_zeroXs h n

/-- The digits left by the trim follow some `0x`. -/
theorem spellsHex_trimZeroX {cs : List Char} {bs : Bytes} :
    SpellsHex (trimZeroX cs) bs ↔ HexText cs bs := by
  constructor
  · intro h
    obtain ⟨n, hn⟩ := trimZeroX_split cs
    exact ⟨n, trimZeroX cs, hn, h⟩
  · rintro ⟨n, ds, rfl, h⟩
    rwa [trimZeroX_zeroXs h.isHexDigit]

/-- The trims take off quotes, zeros and `x`, and nothing else. -/
theorem mem_trims {cs : List Char} {c : Char} (hc : c ∈ cs) (hq : c ≠ '"') (h0 : c ≠ '0')
    (hx : c ≠ 'x') : c ∈ trimZeroX (trimQuotes cs) := by
  have hfront : c ∈ cs.dropWhile (· == '"') := by
    rw [← List.takeWhile_append_dropWhile (p := (· == '"')) (l := cs)] at hc
    rcases List.mem_append.mp hc with h | h
    · have hquote := List.mem_takeWhile_imp (p := (· == '"')) h
      exact absurd (eq_of_beq hquote) hq
    · exact h
  have hback : c ∈ trimQuotes cs := by
    rw [← List.rdropWhile_append_rtakeWhile (p := (· == '"'))
      (l := cs.dropWhile (· == '"'))] at hfront
    rcases List.mem_append.mp hfront with h | h
    · exact h
    · have hquote := List.mem_rtakeWhile_imp (p := (· == '"')) h
      exact absurd (eq_of_beq hquote) hq
  obtain ⟨n, hn⟩ := trimZeroX_split (trimQuotes cs)
  rw [hn] at hback
  rcases List.mem_append.mp hback with h | h
  · obtain ⟨l, hl, hcl⟩ := List.mem_flatten.mp h
    rw [List.eq_of_mem_replicate hl] at hcl
    rcases List.mem_cons.mp hcl with rfl | hcl
    · exact absurd rfl h0
    · exact absurd (List.mem_singleton.mp hcl) hx
  · exact h

theorem length_trims_le (cs : List Char) : (trimZeroX (trimQuotes cs)).length ≤ cs.length := by
  obtain ⟨n, hn⟩ := trimZeroX_split (trimQuotes cs)
  have hzero := congrArg List.length hn
  rw [List.length_append] at hzero
  have hback := (List.rdropWhile_prefix (· == '"') (cs.dropWhile (· == '"'))).length_le
  have hfront := (List.dropWhile_sublist (l := cs) (· == '"')).length_le
  unfold trimQuotes at hzero ⊢
  omega

theorem fromHex_eq_ok {H : Hex} (hH : H.Exact) {text : String} {bs : Bytes} :
    fromHex H text = .ok bs ↔ SpellsHex (trimZeroX (trimQuotes text.toList)) bs := by
  unfold fromHex
  rw [hH, String.toList_ofList]

theorem hashFromHex_eq_ok {H : Hex} (hH : H.Exact) {text : String} {h : H256} :
    hashFromHex H text = .ok h ↔ SpellsHex (trimZeroX (trimQuotes text.toList)) h.bytes := by
  rw [← fromHex_eq_ok hH]
  cases hv : fromHex H text with
  | error e => simp [hashFromHex, hv]
  | ok v => rw [hashFromHex_of_fromHex hv, Except.ok.injEq, eq_comm]

/-- **The documented behaviour accepts digits and nothing else.** -/
theorem Hex.reference_exact : Hex.reference.Exact := by
  intro s bs
  show (if s.toList.length % 2 = 1 then _ else hexBytes 0 s.toList) = _ ↔ _
  by_cases hodd : s.toList.length % 2 = 1
  · rw [if_pos hodd]
    refine ⟨nofun, fun h => ?_⟩
    have := h.length_eq
    omega
  · rw [if_neg hodd, hexBytes_eq_ok]

/-- The digits of a byte string, two for each byte. -/
theorem length_encode {H : Hex} (hH : H.Lawful) (hX : H.Exact) (bs : Bytes) :
    (H.encode bs).toList.length = 2 * bs.length :=
  ((hX _ _).mp (hH.decode_encode bs)).length_eq

theorem SpellsHex.append : ∀ {cs : List Char} {bs : Bytes}, SpellsHex cs bs →
    ∀ {ds : List Char} {bs' : Bytes}, SpellsHex ds bs' → SpellsHex (cs ++ ds) (bs ++ bs')
  | [], [], _, _, _, h => h
  | [], _ :: _, h, _, _, _ => h.elim
  | [_], _, h, _, _, _ => h.elim
  | _ :: _ :: _, [], h, _, _, _ => h.elim
  | _ :: _ :: _, _ :: _, ⟨hc, hd, hs⟩, _, _, h => ⟨hc, hd, hs.append h⟩

/-- Digits one after the other are the digits of the bytes one after the other. -/
theorem decode_append {H : Hex} (hH : H.Lawful) (hX : H.Exact) (bs bs' : Bytes) :
    H.decode (H.encode bs ++ H.encode bs') = .ok (bs ++ bs') := by
  have hfront := (hX _ _).mp (hH.decode_encode bs)
  have hback := (hX _ _).mp (hH.decode_encode bs')
  rw [hX, String.toList_append]
  exact hfront.append hback

theorem encode_injective {H : Hex} (hH : H.Lawful) : Function.Injective H.encode := by
  intro bs bs' h
  have hdec := hH.decode_encode bs
  rw [h, hH.decode_encode] at hdec
  exact (Except.ok.inj hdec).symm

end SubstrateClient.Utils
