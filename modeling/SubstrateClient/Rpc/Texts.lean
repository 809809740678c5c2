import SubstrateClient.Lib.Separated
import SubstrateClient.Rpc.Json

/-!
# Values and their texts

A node writes a value on one line, and the client reads it back. `Serde.ReadsBack` says so of the
values that `serde_json` keeps as they are (`Json.Plain`): integers, and objects whose keys stand in
order. `Serde.reference` reads the documented texts of `Rpc/Json.lean` back, of any such value
(`reference_readsBack`).
-/

namespace SubstrateClient.Rpc

open SubstrateClient.Lib SubstrateClient.Utils

/-- A value that is as `serde_json` builds it, without floats. -/
inductive Json.Plain : Json → Prop where
  | null : Plain .null
  | bool (b : Bool) : Plain (.bool b)
  | posInt (n : UInt64) : Plain (.num (.posInt n))
  | negInt (n : Int64) (h : n < 0) : Plain (.num (.negInt n))
  | str (s : String) : Plain (.str s)
  | arr {elems : List Json} (h : ∀ v ∈ elems, Plain v) : Plain (.arr elems)
  | obj {members : List (String × Json)} (sorted : (members.map Prod.fst).Pairwise (· < ·))
      (h : ∀ m ∈ members, Plain m.2) : Plain (.obj members)

/-- What is written is read back. -/
def Serde.ReadsBack (J : Serde) : Prop := ∀ v : Json, v.Plain → J.fromStr (J.toString v) = .ok v

/-! ## A reader -/

/-- The characters up to the quote that closes a string. -/
def spanQuoted : RowReader Char (List Char)
  | [] => none
  | c :: cs =>
    if c = '"' then some ([], cs)
    else if c = '\\' then
      match cs with
      | d :: cs => (spanQuoted cs).map fun (s, cs) => (c :: d :: s, cs)
      | [] => none
    else (spanQuoted cs).map fun (s, cs) => (c :: s, cs)

/-- A string, after its first quote. -/
def readString : RowReader Char String := fun cs => do
  let (raw, cs) ← spanQuoted cs
  let s ← unescape raw
  some (String.ofList s, cs)

/-- A natural number in decimal. -/
def readNat : RowReader Char Nat := fun cs =>
  let digits := cs.takeWhile Char.isDigit
  if digits = [] then none
  else some (Nat.ofDigitChars 10 digits 0, cs.dropWhile Char.isDigit)

/-- An integer of 64 bits. -/
def readInt : RowReader Char Json
  | [] => none
  | c :: cs =>
    if c = '-' then
      (readNat cs).bind fun (n, cs) =>
        if 0 < n ∧ n ≤ 2 ^ 63 then some (.num (.negInt (Int64.ofInt (-n))), cs) else none
    else
      (readNat (c :: cs)).bind fun (n, cs) =>
        if n < 2 ^ 64 then some (.num (.posInt (UInt64.ofNat n)), cs) else none

/-- A word that stands for a value. -/
def readWord (word : List Char) (v : Json) : RowReader Char Json := fun cs =>
  (cs.dropPrefix? word).map (v, ·)

/-- A member of an object. -/
def readMember (value : RowReader Char Json) : RowReader Char (String × Json)
  | '"' :: cs => do
    let (k, cs) ← readString cs
    match cs with
    | ':' :: cs => (value cs).map fun (v, cs) => ((k, v), cs)
    | _ => none
  | _ => none

/-- A value. -/
def readValue : Nat → RowReader Char Json
  | 0, _ => none
  | _ + 1, [] => none
  | fuel + 1, c :: cs =>
    if c = '"' then (readString cs).map fun (s, cs) => (.str s, cs)
    else if c = '[' then
      if cs.head? = some ']' then some (.arr [], cs.tail)
      else (sepBy (readValue fuel) ',' ']' fuel cs).map fun (vs, cs) => (.arr vs, cs)
    else if c = '{' then
      if cs.head? = some '}' then some (.obj [], cs.tail)
      else (sepBy (readMember (readValue fuel)) ',' '}' fuel cs).map fun (ms, cs) => (.obj ms, cs)
    else if c = 'n' then readWord ['u', 'l', 'l'] .null cs
    else if c = 't' then readWord ['r', 'u', 'e'] (.bool true) cs
    else if c = 'f' then readWord ['a', 'l', 's', 'e'] (.bool false) cs
    else readInt (c :: cs)

/-- The value of a whole text. -/
def parseText (text : String) : Except String Json :=
  match readValue text.length text.toList with
  | some (v, []) => .ok v
  | _ => .error "expected value at line 1 column 1"

/-- `serde_json`, on texts without blanks. -/
def Serde.reference : Serde where
  fromStr := parseText
  toString v := String.ofList v.render
  fromReader := stringReader parseText

/-! ## Strings are read back -/

theorem spanQuoted_plain {c : Char} (hq : c ≠ '"') (hb : c ≠ '\\') (cs : List Char) :
    spanQuoted (c :: cs) = (spanQuoted cs).map fun (s, cs) => (c :: s, cs) := by
  conv_lhs => unfold spanQuoted
  rw [if_neg hq, if_neg hb]

theorem spanQuoted_escaped (d : Char) (cs : List Char) :
    spanQuoted ('\\' :: d :: cs) = (spanQuoted cs).map fun (s, cs) => ('\\' :: d :: s, cs) := by
  conv_lhs => unfold spanQuoted
  rw [if_neg (by decide), if_pos rfl]

theorem hexDigit_ne {n : Nat} (hn : n < 16) : hexDigit n ≠ '"' ∧ hexDigit n ≠ '\\' := by
  have h := (hexDigit_spec hn).2
  exact ⟨isHexDigit_ne h (by decide), isHexDigit_ne h (by decide)⟩

/-- An escaped character holds no closing quote. -/
theorem spanQuoted_escapeChar (c : Char) (cs : List Char) :
    spanQuoted (escapeChar c ++ cs) =
      (spanQuoted cs).map fun (s, cs) => (escapeChar c ++ s, cs) := by
  unfold escapeChar
  split_ifs with hquote hback hn hr ht h8 h12 hctl
  iterate 7 exact spanQuoted_escaped _ cs
  · have hhigh := hexDigit_ne (show c.toNat / 16 < 16 by omega)
    have hlow := hexDigit_ne (Nat.mod_lt c.toNat (by decide : 0 < 16))
    simp only [List.cons_append, List.nil_append]
    rw [spanQuoted_escaped, spanQuoted_plain (by decide) (by decide),
      spanQuoted_plain (by decide) (by decide), spanQuoted_plain hhigh.1 hhigh.2,
      spanQuoted_plain hlow.1 hlow.2]
    simp only [Option.map_map, Function.comp_def]
  · exact spanQuoted_plain hquote hback cs

theorem spanQuoted_flatMap : ∀ cs rest : List Char,
    spanQuoted (cs.flatMap escapeChar ++ '"' :: rest) = some (cs.flatMap escapeChar, rest)
  | [], rest => by
    rw [List.flatMap_nil, List.nil_append, spanQuoted.eq_def]
    rfl
  | c :: cs, rest => by
    rw [List.flatMap_cons, List.append_assoc, spanQuoted_escapeChar, spanQuoted_flatMap cs rest]
    rfl

theorem readString_strChars (s : String) (rest : List Char) :
    readString (s.toList.flatMap escapeChar ++ '"' :: rest) = some (s, rest) := by
  unfold readString
  simp only [spanQuoted_flatMap, unescape_flatMap, Option.bind_eq_bind, Option.bind_some,
    String.ofList_toList]

/-! ## Integers are read back -/

/-- No digit follows. -/
def Stops (rest : List Char) : Prop := ∀ c ∈ rest.head?, c.isDigit = false

theorem readNat_toDigits (n : Nat) {rest : List Char} (h : Stops rest) :
    readNat (Nat.toDigits 10 n ++ rest) = some (n, rest) := by
  have hdigits : ∀ c ∈ Nat.toDigits 10 n, c.isDigit = true := fun c hc =>
    Nat.isDigit_of_mem_toDigits (by decide) (by decide) hc
  have hrest : rest.takeWhile Char.isDigit = [] ∧ rest.dropWhile Char.isDigit = rest := by
    cases rest with
    | nil => exact ⟨rfl, rfl⟩
    | cons c rest =>
      have hc : ¬ c.isDigit = true := by
        rw [h c rfl]
        decide
      exact ⟨List.takeWhile_cons_of_neg hc, List.dropWhile_cons_of_neg hc⟩
  unfold readNat
  simp only [List.takeWhile_append_of_pos hdigits, List.dropWhile_append_of_pos hdigits, hrest.1,
    hrest.2, List.append_nil, Nat.toDigits_ne_nil, if_false,
    Nat.ofDigitChars_toDigits (by decide : 1 < 10) (by decide : 10 ≤ 10)]

/-- The first character of an integer. -/
theorem intChars_cons (n : Int) : ∃ c cs, intChars n = c :: cs ∧
    ((n < 0 ∧ c = '-' ∧ cs = Nat.toDigits 10 n.natAbs) ∨
      (0 ≤ n ∧ c.isDigit = true ∧ c :: cs = Nat.toDigits 10 n.natAbs)) := by
  unfold intChars
  by_cases hn : n < 0
  · rw [if_pos hn]
    exact ⟨_, _, rfl, Or.inl ⟨hn, rfl, rfl⟩⟩
  · rw [if_neg hn]
    cases hd : Nat.toDigits 10 n.natAbs with
    | nil => exact absurd hd Nat.toDigits_ne_nil
    | cons c cs =>
      refine ⟨c, cs, rfl, Or.inr ⟨by omega, ?_, rfl⟩⟩
      exact Nat.isDigit_of_mem_toDigits (by decide) (by decide) (hd ▸ List.mem_cons_self)

theorem isDigit_ne {c d : Char} (hc : c.isDigit = true) (hd : d.isDigit = false) : c ≠ d := by
  rintro rfl
  rw [hc] at hd
  cases hd

theorem readInt_posInt (n : UInt64) {rest : List Char} (h : Stops rest) :
    readInt (intChars n.toNat ++ rest) = some (.num (.posInt n), rest) := by
  obtain ⟨c, cs, hcs, ⟨hneg, -⟩ | ⟨-, hc, hdigits⟩⟩ := intChars_cons n.toNat
  · omega
  · rw [hcs, List.cons_append, readInt, if_neg (isDigit_ne hc (by decide)), ← List.cons_append,
      hdigits, Int.natAbs_natCast, readNat_toDigits _ h, Option.bind_some]
    dsimp only
    rw [if_pos n.toNat_lt, UInt64.ofNat_toNat]

theorem readInt_negInt {n : Int64} (hn : n < 0) {rest : List Char} (h : Stops rest) :
    readInt (intChars n.toInt ++ rest) = some (.num (.negInt n), rest) := by
  have hlt : n.toInt < 0 := Int64.lt_iff_toInt_lt.mp hn
  have hle := n.le_toInt
  obtain ⟨c, cs, hcs, ⟨-, rfl, rfl⟩ | ⟨hpos, -⟩⟩ := intChars_cons n.toInt
  · have hback : Int64.ofInt (-(n.toInt.natAbs : Int)) = n := by
      rw [show (-(n.toInt.natAbs : Int)) = n.toInt by omega, Int64.ofInt_toInt]
    rw [hcs, List.cons_append, readInt, if_pos rfl, readNat_toDigits _ h, Option.bind_some]
    dsimp only
    rw [if_pos (by omega), hback]
  · omega

/-! ## Values are read back -/

theorem readValue_number {c : Char} (hc : c.isDigit = true ∨ c = '-') (fuel : Nat)
    (cs : List Char) : readValue (fuel + 1) (c :: cs) = readInt (c :: cs) := by
  have hne : ∀ d : Char, d.isDigit = false → d ≠ '-' → c ≠ d := by
    rintro _ hd hminus rfl
    rcases hc with hc | hc
    · exact isDigit_ne hc hd rfl
    · exact hminus hc
  rw [readValue, if_neg (hne _ (by decide) (by decide)), if_neg (hne _ (by decide) (by decide)),
    if_neg (hne _ (by decide) (by decide)), if_neg (hne _ (by decide) (by decide)),
    if_neg (hne _ (by decide) (by decide)), if_neg (hne _ (by decide) (by decide))]

theorem renderElems_eq : ∀ elems : List Json, renderElems elems = joined ',' Json.render elems
  | [] => rfl
  | [_] => rfl
  | v :: w :: vs => by
    rw [renderElems, joined, renderElems_eq (w :: vs)]

/-- The text of a member. -/
def memberChars (m : String × Json) : List Char := strChars m.1 ++ ':' :: m.2.render

theorem renderMembers_eq : ∀ members : List (String × Json),
    renderMembers members = joined ',' memberChars members
  | [] => rfl
  | [_] => rfl
  | (k, v) :: m :: ms => by
    rw [renderMembers, joined, renderMembers_eq (m :: ms), memberChars, List.append_assoc,
      List.cons_append]

theorem stops_cons {c : Char} (hc : c.isDigit = false) (rest : List Char) : Stops (c :: rest) := by
  rintro _ ⟨⟩
  exact hc

theorem readWord_append (word : List Char) (v : Json) (rest : List Char) :
    readWord word v (word ++ rest) = some (v, rest) := by
  rw [readWord, List.dropPrefix?_append_of_beq rest BEq.rfl, Option.map_some]

/-- A value does not begin with a closing bracket. -/
theorem render_cons (v : Json) : ∃ c cs, v.render = c :: cs ∧ c ≠ ']' := by
  have hint : ∀ (n : Int) (ds : List Char), ∃ c cs, intChars n ++ ds = c :: cs ∧ c ≠ ']' := by
    intro n ds
    obtain ⟨c, cs, hcs, h⟩ := intChars_cons n
    refine ⟨c, cs ++ ds, by rw [hcs, List.cons_append], ?_⟩
    rcases h with ⟨-, rfl, -⟩ | ⟨-, hc, -⟩
    · decide
    · exact isDigit_ne hc (by decide)
  cases v with
  | null => exact ⟨_, _, rfl, by decide⟩
  | bool b => cases b <;> exact ⟨_, _, rfl, by decide⟩
  | num n =>
    cases n with
    | posInt n => simpa only [List.append_nil, Json.render] using hint n.toNat []
    | negInt n => simpa only [List.append_nil, Json.render] using hint n.toInt []
    | float m e => exact hint m _
  | str s => exact ⟨_, _, rfl, by decide⟩
  | arr elems => exact ⟨_, _, rfl, by decide⟩
  | obj members => exact ⟨_, _, rfl, by decide⟩

/-- What is written of a row begins with its first item. -/
theorem joined_cons {α : Type} {write : α → List Char} {x : α} {c : Char} {cs : List Char}
    (h : write x = c :: cs) (xs : List α) (rest : List Char) :
    ∃ ds, joined ',' write (x :: xs) ++ rest = c :: ds := by
  cases xs with
  | nil => exact ⟨_, by rw [joined, h, List.cons_append]⟩
  | cons y ys => exact ⟨_, by rw [joined, h, List.cons_append, List.cons_append]⟩

theorem readMember_memberChars {m : String × Json} {value : RowReader Char Json} {rest : List Char}
    (h : value (m.2.render ++ rest) = some (m.2, rest)) :
    readMember value (memberChars m ++ rest) = some (m, rest) := by
  rw [memberChars, strChars, List.cons_append, List.cons_append, List.append_assoc,
    List.append_assoc, List.singleton_append, List.cons_append, readMember, readString_strChars]
  simp only [Option.bind_eq_bind, Option.bind_some, h, Option.map_some]

/-- **A value is read back, whatever follows it**, by induction on what it is. -/
theorem readValue_render {v : Json} (hv : v.Plain) :
    ∀ {fuel : Nat} {rest : List Char}, v.render.length ≤ fuel → Stops rest →
      readValue fuel (v.render ++ rest) = some (v, rest) := by
  induction hv with
  | null =>
    rintro (_ | fuel) rest hf -
    · cases hf
    · exact readWord_append ['u', 'l', 'l'] .null rest
  | bool b =>
    rintro (_ | fuel) rest hf -
    · cases b <;> cases hf
    · cases b with
      | true => exact readWord_append ['r', 'u', 'e'] _ rest
      | false => exact readWord_append ['a', 'l', 's', 'e'] _ rest
  | posInt n =>
    intro fuel rest hf hrest
    obtain ⟨c, cs, hcs, h⟩ := intChars_cons n.toNat
    rw [Json.render, hcs, List.length_cons] at hf
    obtain ⟨fuel, rfl⟩ : ∃ k, fuel = k + 1 := ⟨fuel - 1, by omega⟩
    rw [Json.render, hcs, List.cons_append, readValue_number (by tauto), ← List.cons_append, ← hcs,
      readInt_posInt n hrest]
  | negInt n hn =>
    intro fuel rest hf hrest
    obtain ⟨c, cs, hcs, h⟩ := intChars_cons n.toInt
    rw [Json.render, hcs, List.length_cons] at hf
    obtain ⟨fuel, rfl⟩ : ∃ k, fuel = k + 1 := ⟨fuel - 1, by omega⟩
    rw [Json.render, hcs, List.cons_append, readValue_number (by tauto), ← List.cons_append, ← hcs,
      readInt_negInt hn hrest]
  | str s =>
    rintro (_ | fuel) rest hf -
    · cases hf
    · rw [Json.render, strChars, List.cons_append, readValue, if_pos rfl, List.append_assoc,
        List.singleton_append, readString_strChars]
      rfl
  | @arr elems h ih =>
    rintro (_ | fuel) rest hf -
    · cases hf
    · rw [Json.render, renderElems_eq, List.length_cons, List.length_append,
        List.length_singleton] at hf
      rw [Json.render, renderElems_eq, List.cons_append, List.append_assoc, List.singleton_append,
        readValue, if_neg (by decide), if_pos rfl]
      cases elems with
      | nil => rfl
      | cons v vs =>
        obtain ⟨c, cs, hcs, hne⟩ := render_cons v
        obtain ⟨ds, hds⟩ := joined_cons hcs vs (']' :: rest)
        rw [if_neg (by rw [hds]; simpa using hne), sepBy_joined (by decide) (List.cons_ne_nil _ _)]
        · rfl
        · have := length_le_length_joined ',' Json.render (v :: vs)
          omega
        · intro w hw row
          have hlen := length_le_joined ',' Json.render hw
          exact ⟨ih w hw (by omega) (stops_cons (by decide) row),
            ih w hw (by omega) (stops_cons (by decide) row)⟩
  | @obj members sorted h ih =>
    rintro (_ | fuel) rest hf -
    · cases hf
    · rw [Json.render, renderMembers_eq, List.length_cons, List.length_append,
        List.length_singleton] at hf
      rw [Json.render, renderMembers_eq, List.cons_append, List.append_assoc, List.singleton_append,
        readValue, if_neg (by decide), if_neg (by decide), if_pos rfl]
      cases members with
      | nil => rfl
      | cons m ms =>
        obtain ⟨ds, hds⟩ := joined_cons (show memberChars m = '"' :: _ from rfl) ms ('}' :: rest)
        rw [if_neg (by rw [hds]; simp), sepBy_joined (by decide) (List.cons_ne_nil _ _)]
        · rfl
        · have := length_le_length_joined ',' memberChars (m :: ms)
          omega
        · intro w hw row
          have hlen := length_le_joined ',' memberChars hw
          rw [memberChars, List.length_append, List.length_cons] at hlen
          exact ⟨readMember_memberChars (ih w hw (by omega) (stops_cons (by decide) row)),
            readMember_memberChars (ih w hw (by omega) (stops_cons (by decide) row))⟩

/-! ## The reader is lawful -/

/-- **Values are read back from their documented texts.** -/
theorem Serde.reference_readsBack : Serde.reference.ReadsBack := by
  intro v hv
  have h : readValue v.render.length (v.render ++ []) = some (v, []) :=
    readValue_render hv (Nat.le_refl _) nofun
  rw [List.append_nil] at h
  unfold Serde.reference parseText
  simp only [String.toList_ofList, String.length_ofList, h]

theorem Serde.reference_lawful : Serde.reference.Lawful := Serde.ofTexts_lawful []

/-- An integer of 64 bits is short. -/
def Number.Short : Number → Prop
  | .float _ _ => False
  | _ => True

theorem readInt_short {cs rest : List Char} {v : Json} (h : readInt cs = some (v, rest)) :
    ∃ n : Number, v = .num n ∧ n.Short := by
  cases cs with
  | nil => cases h
  | cons c cs =>
    rw [readInt] at h
    split_ifs at h <;>
    · obtain ⟨⟨n, ds⟩, -, h⟩ := Option.bind_eq_some_iff.mp h
      dsimp only at h
      split_ifs at h
      cases h
      exact ⟨_, rfl, trivial⟩

theorem readWord_eq {word cs rest : List Char} {v w : Json}
    (h : readWord word w cs = some (v, rest)) : v = w := by
  obtain ⟨_, -, h⟩ := Option.map_eq_some_iff.mp h
  exact (Prod.mk.inj h).1.symm

theorem readMember_value {value : RowReader Char Json} {cs rest : List Char} {m : String × Json}
    (h : readMember value cs = some (m, rest)) : ∃ cs rest, value cs = some (m.2, rest) := by
  unfold readMember at h
  split at h
  · simp only [Option.bind_eq_bind, Option.bind_eq_some_iff] at h
    obtain ⟨⟨k, ds⟩, -, h⟩ := h
    dsimp only at h
    split at h
    · obtain ⟨⟨v, ds'⟩, hv, h⟩ := Option.map_eq_some_iff.mp h
      cases h
      exact ⟨_, _, hv⟩
    · cases h
  · cases h

theorem mem_numbersOfElems {n : Number} : ∀ {elems : List Json},
    n ∈ numbersOfElems elems → ∃ v ∈ elems, n ∈ v.numbers
  | v :: vs, h => by
    rw [numbersOfElems, List.mem_append] at h
    rcases h with h | h
    · exact ⟨v, List.mem_cons_self, h⟩
    · obtain ⟨w, hw, hn⟩ := mem_numbersOfElems h
      exact ⟨w, List.mem_cons_of_mem v hw, hn⟩

theorem mem_numbersOfMembers {n : Number} : ∀ {members : List (String × Json)},
    n ∈ numbersOfMembers members → ∃ m ∈ members, n ∈ m.2.numbers
  | (k, v) :: ms, h => by
    rw [numbersOfMembers, List.mem_append] at h
    rcases h with h | h
    · exact ⟨(k, v), List.mem_cons_self, h⟩
    · obtain ⟨m, hm, hn⟩ := mem_numbersOfMembers h
      exact ⟨m, List.mem_cons_of_mem _ hm, hn⟩

/-- No float is read. -/
theorem readValue_short : ∀ {fuel : Nat} {cs rest : List Char} {v : Json},
    readValue fuel cs = some (v, rest) → ∀ n ∈ v.numbers, n.Short
  | fuel + 1, c :: cs, rest, v, h, n, hn => by
    rw [readValue] at h
    split_ifs at h
    · obtain ⟨_, -, h⟩ := Option.map_eq_some_iff.mp h
      cases h
      cases hn
    · cases h
      cases hn
    · obtain ⟨⟨vs, ds⟩, hvs, h⟩ := Option.map_eq_some_iff.mp h
      cases h
      obtain ⟨w, hw, hn⟩ := mem_numbersOfElems hn
      obtain ⟨_, _, hread⟩ := item_of_sepBy hvs w hw
      exact readValue_short hread n hn
    · cases h
      cases hn
    · obtain ⟨⟨ms, ds⟩, hms, h⟩ := Option.map_eq_some_iff.mp h
      cases h
      obtain ⟨m, hm, hn⟩ := mem_numbersOfMembers hn
      obtain ⟨_, _, hmember⟩ := item_of_sepBy hms m hm
      obtain ⟨_, _, hread⟩ := readMember_value hmember
      exact readValue_short hread n hn
    · rw [readWord_eq h] at hn
      cases hn
    · rw [readWord_eq h] at hn
      cases hn
    · rw [readWord_eq h] at hn
      cases hn
    · obtain ⟨k, rfl, hk⟩ := readInt_short h
      rw [Json.numbers, List.mem_singleton] at hn
      rwa [hn]

/-- A short number is written on less than 64 characters. -/
theorem Number.Short.length_lt {n : Number} (h : n.Short) : (Json.num n).render.length < 64 := by
  have hint : ∀ i : Int, i.natAbs < 10 ^ 20 → (intChars i).length < 64 := by
    intro i hi
    have := (Nat.length_toDigits_le_iff (by decide : 1 < 10) (by decide : 0 < 20)).mpr hi
    unfold intChars
    split_ifs
    · rw [List.length_cons]
      omega
    · omega
  cases n with
  | posInt n =>
    have := n.toNat_lt
    exact hint _ (by omega)
  | negInt n =>
    have := n.le_toInt
    have := n.toInt_lt
    exact hint _ (by omega)
  | float m e => cases h

/-- The texts are the documented ones. -/
theorem Serde.reference_texts : Serde.reference.Texts where
  null := rfl
  bool b := by cases b <;> rfl
  num text v hv n hn := by
    unfold Serde.reference parseText at hv ⊢
    dsimp only at hv ⊢
    split at hv
    · cases hv
      rw [String.length_ofList]
      exact (readValue_short ‹_› n hn).length_lt
    · cases hv
  str s := rfl
  arr elems := by
    show (String.ofList _).toList.head? = _
    rw [String.toList_ofList, Json.render]
    rfl
  obj members := by
    show (String.ofList _).toList.head? = _
    rw [String.toList_ofList, Json.render]
    rfl

end SubstrateClient.Rpc
