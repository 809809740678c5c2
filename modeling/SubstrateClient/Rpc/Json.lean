import SubstrateClient.Lib.Collect
import SubstrateClient.Utils

/-!
# JSON values and requests

Texts are read and written by `serde_json`, which is not part of the repository: it is the parameter
`J`, on the values `Json`. Of the values the client uses indexing (a missing member or element is
`null`), and the views as a string, an integer or an object.

The requests of `rpc/json_req.rs` the modelled calls send are at the end.
-/

namespace SubstrateClient.Rpc

open SubstrateClient.Lib SubstrateClient.Utils

/-- `serde_json::Number`; a float by its shortest decimal. -/
inductive Number where
  | posInt (n : UInt64)
  | negInt (n : Int64)
  | float (mantissa exponent : Int)
  deriving DecidableEq, Repr

/-- `serde_json::Value`. -/
inductive Json where
  | null
  | bool (b : Bool)
  | num (n : Number)
  | str (s : String)
  | arr (elems : List Json)
  | obj (members : List (String × Json))

/-- `serde_json`. -/
structure Serde where
  fromStr : String → Except String Json
  toString : Json → String
  /-- `from_reader` of a string, on the bytes of a file. -/
  fromReader : Bytes → Except String String

/-- What the client relies on: `null` is the one value written `null`. -/
def Serde.Lawful (J : Serde) : Prop := ∀ v, J.toString v = "null" ↔ v = .null

namespace Json

/-- `Value::get`: the member of an object. -/
def get (v : Json) (key : String) : Option Json :=
  match v with
  | .obj members => members.lookup key
  | _ => none

/-- `value[key]`. -/
def index (v : Json) (key : String) : Json := (v.get key).getD .null

/-- `value[i]`: the element of an array. -/
def item (v : Json) (i : Nat) : Json :=
  match v with
  | .arr elems => elems[i]?.getD .null
  | _ => .null

/-- `Value::as_str`. -/
def asStr : Json → Option String
  | .str s => some s
  | _ => none

/-- `Value::as_object`. -/
def asObject : Json → Option (List (String × Json))
  | .obj members => some members
  | _ => none

/-- `Value::as_i64`. -/
def asI64 : Json → Option Int
  | .num (.posInt n) => if n.toNat < 2 ^ 63 then some n.toNat else none
  | .num (.negInt n) => some n.toInt
  | _ => none

theorem index_of_get {v x : Json} {key : String} (h : v.get key = some x) : v.index key = x := by
  unfold index
  rw [h]
  rfl

/-- A missing member is `null`. -/
theorem index_of_get_none {v : Json} {key : String} (h : v.get key = none) :
    v.index key = .null := by
  unfold index
  rw [h]
  rfl

end Json

/-! ## Requests (`rpc/json_req.rs`) -/

/-- `REQUEST_TRANSFER`. -/
def requestTransfer : UInt32 := 3

/-- `json_req`: the members in the order of the map. -/
def jsonReq (method : String) (params : Json) (id : UInt32) : Json :=
  .obj [("id", .str (toString id)), ("jsonrpc", .str "2.0"), ("method", .str method),
    ("params", params)]

/-- `author_submit_extrinsic_with_id`. -/
def authorSubmitExtrinsicWithId (xthexPrefixed : String) (id : UInt32) : Json :=
  jsonReq "author_submitExtrinsic" (.arr [.str xthexPrefixed]) id

/-- `author_submit_extrinsic`. -/
def authorSubmitExtrinsic (xthexPrefixed : String) : Json :=
  authorSubmitExtrinsicWithId xthexPrefixed requestTransfer

/-- `author_submit_and_watch_extrinsic_with_id`. -/
def authorSubmitAndWatchExtrinsicWithId (xthexPrefixed : String) (id : UInt32) : Json :=
  jsonReq "author_submitAndWatchExtrinsic" (.arr [.str xthexPrefixed]) id

/-- `author_submit_and_watch_extrinsic`. -/
def authorSubmitAndWatchExtrinsic (xthexPrefixed : String) : Json :=
  authorSubmitAndWatchExtrinsicWithId xthexPrefixed requestTransfer

/-- `to_value` of a byte string that is written in hexadecimal. -/
def hexValue (H : Hex) (bs : Bytes) : Json := .str ("0x" ++ H.encode bs)

/-- `to_value` of an optional hash. -/
def hashValue (H : Hex) : Option H256 → Json
  | some hash => hexValue H hash.bytes
  | none => .null

/-- `to_value` of an optional number. -/
def numberValue : Option UInt32 → Json
  | some n => .num (.posInt n.toUInt64)
  | none => .null

/-- `chain_get_block_hash_with_id`. -/
def chainGetBlockHashWithId (number : Option UInt32) (id : UInt32) : Json :=
  jsonReq "chain_getBlockHash" (.arr [numberValue number]) id

/-- `chain_get_block_hash`. -/
def chainGetBlockHash (number : Option UInt32) : Json := chainGetBlockHashWithId number 1

/-- `chain_get_block`. -/
def chainGetBlock (H : Hex) (hash : Option H256) : Json :=
  jsonReq "chain_getBlock" (.arr [hashValue H hash]) 1

/-- `state_get_storage`. -/
def stateGetStorage (H : Hex) (key : Bytes) (atBlock : Option H256) : Json :=
  jsonReq "state_getStorage" (.arr [hexValue H key, hashValue H atBlock]) 1

/-- `state_get_storage_with_id`. -/
def stateGetStorageWithId (H : Hex) (key : Bytes) (atBlock : Option H256) (id : UInt32) : Json :=
  jsonReq "state_getStorage" (.arr [hexValue H key, hashValue H atBlock]) id

/-- `chain_get_header`. -/
def chainGetHeader (H : Hex) (hash : Option H256) : Json :=
  jsonReq "chain_getHeader" (.arr [hashValue H hash]) 1

/-- `chain_get_genesis_hash`. -/
def chainGetGenesisHash : Json := chainGetBlockHash (some 0)

/-- `chain_get_finalized_head`. -/
def chainGetFinalizedHead : Json := jsonReq "chain_getFinalizedHead" .null 1

/-- `chain_subscribe_finalized_heads`. -/
def chainSubscribeFinalizedHeads : Json := jsonReq "chain_subscribeFinalizedHeads" .null 1

/-- `payment_query_fee_details`. -/
def paymentQueryFeeDetails (H : Hex) (xthexPrefixed : String) (atBlock : Option H256) : Json :=
  jsonReq "payment_queryFeeDetails" (.arr [.str xthexPrefixed, hashValue H atBlock]) 1

/-- `payment_query_info`. -/
def paymentQueryInfo (H : Hex) (xthexPrefixed : String) (atBlock : Option H256) : Json :=
  jsonReq "payment_queryInfo" (.arr [.str xthexPrefixed, hashValue H atBlock]) 1

/-- `state_get_metadata_with_id`. -/
def stateGetMetadataWithId (id : UInt32) : Json := jsonReq "state_getMetadata" (.arr [.null]) id

/-- `state_get_metadata`. -/
def stateGetMetadata : Json := stateGetMetadataWithId 1

/-- `state_get_runtime_version_with_id`. -/
def stateGetRuntimeVersionWithId (id : UInt32) : Json :=
  jsonReq "state_getRuntimeVersion" (.arr [.null]) id

/-- `state_get_runtime_version`. -/
def stateGetRuntimeVersion : Json := stateGetRuntimeVersionWithId 1

/-- `to_value` of a list of storage keys. -/
def keysValue (H : Hex) (keys : List Bytes) : Json := .arr (keys.map (hexValue H))

/-- `state_subscribe_storage_with_id`: the list of keys is in a list of its own. -/
def stateSubscribeStorageWithId (H : Hex) (key : List Bytes) (id : UInt32) : Json :=
  jsonReq "state_subscribeStorage" (.arr [keysValue H key]) id

/-- `state_subscribe_storage`. -/
def stateSubscribeStorage (H : Hex) (key : List Bytes) : Json := stateSubscribeStorageWithId H key 1

/-- `state_get_read_proof`. -/
def stateGetReadProof (H : Hex) (keys : List Bytes) (atBlock : Option H256) : Json :=
  jsonReq "state_getReadProof" (.arr [keysValue H keys, hashValue H atBlock]) 1

/-- `state_get_keys`. -/
def stateGetKeys (H : Hex) (key : Bytes) (atBlock : Option H256) : Json :=
  jsonReq "state_getKeys" (.arr [hexValue H key, hashValue H atBlock]) 1

/-- `state_get_pairs`. -/
def stateGetPairs (H : Hex) (key : Bytes) (atBlock : Option H256) : Json :=
  jsonReq "state_getPairs" (.arr [hexValue H key, hashValue H atBlock]) 1

/-! ## The documented text of a value -/

/-- An integer in decimal. -/
def intChars (n : Int) : List Char :=
  if n < 0 then '-' :: Nat.toDigits 10 n.natAbs else Nat.toDigits 10 n.natAbs

/-- A character of a string. -/
def escapeChar (c : Char) : List Char :=
  if c = '"' then ['\\', '"']
  else if c = '\\' then ['\\', '\\']
  else if c = '\n' then ['\\', 'n']
  else if c = '\r' then ['\\', 'r']
  else if c = '\t' then ['\\', 't']
  else if c.toNat = 8 then ['\\', 'b']
  else if c.toNat = 12 then ['\\', 'f']
  else if c.toNat < 32 then
    ['\\', 'u', '0', '0', hexDigit (c.toNat / 16), hexDigit (c.toNat % 16)]
  else [c]

/-- A string in quotes. -/
def strChars (s : String) : List Char := '"' :: (s.toList.flatMap escapeChar ++ ['"'])

/-- A character above the digits is written as itself, but for the backslash. -/
theorem escapeChar_eq_self {c : Char} (h : 48 ≤ c.toNat) (hb : c ≠ '\\') : escapeChar c = [c] := by
  have hne : ∀ d : Char, d.toNat < 48 → c ≠ d := by
    rintro _ hd rfl
    omega
  unfold escapeChar
  rw [if_neg (hne _ (by decide)), if_neg hb, if_neg (hne _ (by decide)), if_neg (hne _ (by decide)),
    if_neg (hne _ (by decide)), if_neg (by omega), if_neg (by omega), if_neg (by omega)]

/-- Digits and `x` are written as themselves. -/
theorem flatMap_escapeChar {cs : List Char} (h : ∀ c ∈ cs, isHexDigit c = true ∨ c = 'x') :
    cs.flatMap escapeChar = cs ∧ ∀ c ∈ cs, c ≠ '"' := by
  have hchar : ∀ c ∈ cs, 48 ≤ c.toNat ∧ c ≠ '\\' := by
    intro c hc
    rcases h c hc with hdigit | rfl
    · refine ⟨?_, isHexDigit_ne hdigit (by decide)⟩
      rw [isHexDigit_iff] at hdigit
      omega
    · decide
  constructor
  · rw [List.flatMap_congr fun c hc => escapeChar_eq_self (hchar c hc).1 (hchar c hc).2]
    exact List.flatMap_singleton' _
  · rintro _ hc rfl
    exact absurd (hchar _ hc).1 (by decide)

/-- Digits are written in quotes, as they are. -/
theorem strChars_wrap (zeroX : Bool) {digits : List Char}
    (h : ∀ c ∈ digits, isHexDigit c = true) :
    strChars (String.ofList (wrap zeroX false digits)) = wrap zeroX true digits := by
  have hplain : ∀ c ∈ wrap zeroX false digits, isHexDigit c = true ∨ c = 'x' := by
    intro c hc
    rcases List.mem_append.mp hc with hc | hc
    · cases zeroX with
      | false => cases hc
      | true =>
        rcases List.mem_cons.mp hc with rfl | hc
        · exact Or.inl (by decide)
        · exact Or.inr (List.mem_singleton.mp hc)
    · exact Or.inl (h c hc)
  rw [strChars, String.toList_ofList, (flatMap_escapeChar hplain).1]
  rfl

mutual

/-- A value, on one line and without blanks. -/
def Json.render : Json → List Char
  | .null => ['n', 'u', 'l', 'l']
  | .bool true => ['t', 'r', 'u', 'e']
  | .bool false => ['f', 'a', 'l', 's', 'e']
  | .num (.posInt n) => intChars n.toNat
  | .num (.negInt n) => intChars n.toInt
  | .num (.float m e) => intChars m ++ 'e' :: intChars e
  | .str s => strChars s
  | .arr elems => '[' :: (renderElems elems ++ [']'])
  | .obj members => '{' :: (renderMembers members ++ ['}'])

/-- The elements of an array. -/
def renderElems : List Json → List Char
  | [] => []
  | [v] => v.render
  | v :: w :: vs => v.render ++ ',' :: renderElems (w :: vs)

/-- The members of an object. -/
def renderMembers : List (String × Json) → List Char
  | [] => []
  | [(k, v)] => strChars k ++ ':' :: v.render
  | (k, v) :: m :: ms => strChars k ++ ':' :: (v.render ++ ',' :: renderMembers (m :: ms))

end

/-- An integer begins with a digit or a minus sign. -/
theorem intChars_append_ne (n : Int) (cs : List Char) :
    intChars n ++ cs ≠ ['n', 'u', 'l', 'l'] := by
  have hdigits : Nat.toDigits 10 n.natAbs ++ cs ≠ ['n', 'u', 'l', 'l'] := by
    intro h
    cases hd : Nat.toDigits 10 n.natAbs with
    | nil => exact Nat.toDigits_ne_nil hd
    | cons c ds =>
      rw [hd, List.cons_append] at h
      have hc : c ∈ Nat.toDigits 10 n.natAbs := by
        rw [hd]
        exact List.mem_cons_self
      rw [(List.cons.inj h).1] at hc
      exact absurd (Nat.isDigit_of_mem_toDigits (by decide) (by decide) hc) (by decide)
  unfold intChars
  by_cases hn : n < 0
  · rw [if_pos hn]
    intro h
    cases h
  · rw [if_neg hn]
    exact hdigits

/-- A string, read off the bytes of a text. -/
def stringReader (fromStr : String → Except String Json) (bytes : Bytes) : Except String String :=
  match String.fromUTF8? ⟨bytes.toArray⟩ with
  | none => .error "invalid unicode code point at line 1 column 1"
  | some text =>
    match fromStr text with
    | .error e => .error e
    | .ok (.str s) => .ok s
    | .ok _ => .error "invalid type, expected a string at line 1 column 1"

theorem fromUTF8_asBytes (s : String) : String.fromUTF8? ⟨(asBytes s).toArray⟩ = some s := by
  have hbytes : (⟨(asBytes s).toArray⟩ : ByteArray) = s.toByteArray := by
    simp [asBytes]
  rw [hbytes, String.fromUTF8?, dif_pos s.isValidUTF8]
  rfl

/-- The bytes of a text are read as the text is. -/
theorem stringReader_asBytes {fromStr : String → Except String Json} {text s : String}
    (h : fromStr text = .ok (.str s)) : stringReader fromStr (asBytes text) = .ok s := by
  simp only [stringReader, fromUTF8_asBytes, h]

/-- What one text of a run parses to. -/
def parseOf (texts : List (String × Json)) (text : String) : Except String Json :=
  match texts.lookup text with
  | some v => .ok v
  | none => .error "expected value at line 1 column 1"

/-- `serde_json` on the texts of a run, given by what each parses to. -/
def Serde.ofTexts (texts : List (String × Json)) : Serde where
  fromStr := parseOf texts
  toString v := String.ofList v.render
  fromReader := stringReader (parseOf texts)

theorem Serde.fromStr_ofTexts_self (text : String × Json) :
    (Serde.ofTexts [text]).fromStr text.1 = .ok text.2 := by
  obtain ⟨text, v⟩ := text
  simp [Serde.ofTexts, parseOf]

/-- **The documented text of a value is lawful.** -/
theorem Serde.ofTexts_lawful (texts : List (String × Json)) : (Serde.ofTexts texts).Lawful := by
  intro v
  have hnull : ("null" : String) = String.ofList ['n', 'u', 'l', 'l'] := by decide
  show String.ofList v.render = "null" ↔ v = .null
  rw [hnull, String.ofList_inj]
  constructor
  · intro h
    cases v with
    | null => rfl
    | bool b => cases b <;> cases h
    | num n =>
      cases n with
      | posInt n => exact absurd ((List.append_nil _).trans h) (intChars_append_ne _ [])
      | negInt n => exact absurd ((List.append_nil _).trans h) (intChars_append_ne _ [])
      | float m e => exact absurd h (intChars_append_ne _ _)
    | str s => cases h
    | arr elems => cases h
    | obj members => cases h
  · rintro rfl
    rfl

/-! ## What texts look like -/

mutual

/-- The numbers in a value. -/
def Json.numbers : Json → List Number
  | .null | .bool _ | .str _ => []
  | .num n => [n]
  | .arr elems => numbersOfElems elems
  | .obj members => numbersOfMembers members

/-- The numbers in the elements of an array. -/
def numbersOfElems : List Json → List Number
  | [] => []
  | v :: vs => v.numbers ++ numbersOfElems vs

/-- The numbers in the members of an object. -/
def numbersOfMembers : List (String × Json) → List Number
  | [] => []
  | (_, v) :: members => v.numbers ++ numbersOfMembers members

end

/-- The documented texts: a string is its escaped characters in quotes, an array and an object begin
with their bracket, and a number that was read (a 64-bit integer or a double) is written on less
than 64 characters. -/
structure Serde.Texts (J : Serde) : Prop where
  null : J.toString .null = "null"
  bool : ∀ b, J.toString (.bool b) = if b then "true" else "false"
  num : ∀ text v, J.fromStr text = .ok v → ∀ n ∈ v.numbers, (J.toString (.num n)).length < 64
  str : ∀ s, J.toString (.str s) = String.ofList (strChars s)
  arr : ∀ elems, (J.toString (.arr elems)).toList.head? = some '['
  obj : ∀ members, (J.toString (.obj members)).toList.head? = some '{'

theorem numbers_of_lookup {key : String} {x : Json} :
    ∀ {members : List (String × Json)}, members.lookup key = some x →
      ∀ n ∈ x.numbers, n ∈ numbersOfMembers members
  | (k, v) :: members, h, n, hn => by
    rw [List.lookup_cons] at h
    rw [numbersOfMembers, List.mem_append]
    split at h
    · cases h
      exact Or.inl hn
    · exact Or.inr (numbers_of_lookup h n hn)

/-- The numbers of a member are numbers of the object. -/
theorem Json.numbers_of_get {v x : Json} {key : String} (h : v.get key = some x) :
    ∀ n ∈ x.numbers, n ∈ v.numbers := by
  intro n hn
  cases v with
  | obj members =>
    rw [Json.numbers]
    exact numbers_of_lookup h n hn
  | _ => cases h

theorem Json.numbers_of_index {v : Json} {key : String} :
    ∀ n ∈ (v.index key).numbers, n ∈ v.numbers := by
  intro n hn
  cases hx : v.get key with
  | none =>
    rw [Json.index_of_get_none hx] at hn
    cases hn
  | some x =>
    rw [Json.index_of_get hx] at hn
    exact Json.numbers_of_get hx n hn

/-- The documented texts, on a run without numbers. -/
theorem Serde.ofTexts_texts {texts : List (String × Json)} (h : ∀ t ∈ texts, t.2.numbers = []) :
    (Serde.ofTexts texts).Texts where
  null := rfl
  bool b := by cases b <;> rfl
  num text v hv n hn := by
    have hmem : (text, v) ∈ texts := by
      unfold Serde.ofTexts parseOf at hv
      cases hl : texts.lookup text with
      | none => simp [hl] at hv
      | some w =>
        simp only [hl, Except.ok.injEq] at hv
        subst hv
        exact HashMap.mem_of_lookup_eq_some hl
    rw [h _ hmem] at hn
    cases hn
  str s := rfl
  arr elems := by
    show (String.ofList _).toList.head? = _
    rw [String.toList_ofList, Json.render]
    rfl
  obj members := by
    show (String.ofList _).toList.head? = _
    rw [String.toList_ofList, Json.render]
    rfl

/-! ## Strings -/

/-- A string is read back from the bytes of its text. -/
def Serde.ReadsStrings (J : Serde) : Prop :=
  ∀ s, J.fromReader (asBytes (J.toString (.str s))) = .ok s

/-- What a backslash and a character stand for. -/
def simpleEscape (c : Char) : Option Char :=
  if c = '"' then some '"'
  else if c = '\\' then some '\\'
  else if c = 'n' then some '\n'
  else if c = 'r' then some '\r'
  else if c = 't' then some '\t'
  else if c = 'b' then some (Char.ofNat 8)
  else if c = 'f' then some (Char.ofNat 12)
  else none

/-- The characters an escaped text stands for. -/
def unescape : List Char → Option (List Char)
  | [] => some []
  | c :: cs =>
    if c = '\\' then
      match cs with
      | 'u' :: '0' :: '0' :: high :: low :: rest =>
        match hexVal high, hexVal low with
        | some x, some y => (unescape rest).map (Char.ofNat (16 * x + y) :: ·)
        | _, _ => none
      | d :: rest =>
        match simpleEscape d with
        | some e => (unescape rest).map (e :: ·)
        | none => none
      | [] => none
    else (unescape cs).map (c :: ·)

theorem unescape_plain {c : Char} (h : c ≠ '\\') (cs : List Char) :
    unescape (c :: cs) = (unescape cs).map (c :: ·) := by
  conv_lhs => unfold unescape
  rw [if_neg h]

theorem unescape_simple {d e : Char} (h : simpleEscape d = some e) (cs : List Char) :
    unescape ('\\' :: d :: cs) = (unescape cs).map (e :: ·) := by
  have hd : d ≠ 'u' := by
    rintro rfl
    cases h
  have hcases : unescape ('\\' :: d :: cs) =
      match simpleEscape d with
      | some e => (unescape cs).map (e :: ·)
      | none => none := by
    rw [unescape.eq_def]
    simp [hd]
  rw [hcases, h]

theorem unescape_control {n : Nat} (hn : n < 32) (cs : List Char) :
    unescape ('\\' :: 'u' :: '0' :: '0' :: hexDigit (n / 16) :: hexDigit (n % 16) :: cs) =
      (unescape cs).map (Char.ofNat n :: ·) := by
  have hhigh := (hexDigit_spec (show n / 16 < 16 by omega)).1
  have hlow := (hexDigit_spec (Nat.mod_lt n (by decide : 0 < 16))).1
  have hsum : 16 * (n / 16) + n % 16 = n := Nat.div_add_mod n 16
  simp [unescape, hhigh, hlow, hsum]

theorem eq_ofNat_of_toNat {c : Char} {n : Nat} (h : c.toNat = n) : c = Char.ofNat n := by
  rw [← h, Char.ofNat_toNat]

/-- An escaped character is read back. -/
theorem unescape_escapeChar (c : Char) (cs : List Char) :
    unescape (escapeChar c ++ cs) = (unescape cs).map (c :: ·) := by
  unfold escapeChar
  split_ifs with hquote hback hn hr ht h8 h12 hctl
  · subst hquote
    exact unescape_simple rfl cs
  · subst hback
    exact unescape_simple rfl cs
  · subst hn
    exact unescape_simple rfl cs
  · subst hr
    exact unescape_simple rfl cs
  · subst ht
    exact unescape_simple rfl cs
  · rw [eq_ofNat_of_toNat h8]
    exact unescape_simple rfl cs
  · rw [eq_ofNat_of_toNat h12]
    exact unescape_simple rfl cs
  · have hctl := unescape_control hctl cs
    rw [Char.ofNat_toNat] at hctl
    exact hctl
  · exact unescape_plain hback cs

theorem unescape_flatMap : ∀ cs : List Char, unescape (cs.flatMap escapeChar) = some cs
  | [] => rfl
  | c :: cs => by
    rw [List.flatMap_cons, unescape_escapeChar, unescape_flatMap cs]
    rfl

/-- A string, read off its text. -/
def readQuoted : List Char → Except String Json
  | '"' :: cs =>
    match unescape cs.dropLast with
    | some s => .ok (.str (String.ofList s))
    | none => .error "invalid escape at line 1 column 2"
  | _ => .error "expected value at line 1 column 1"

theorem readQuoted_strChars (s : String) : readQuoted (strChars s) = .ok (.str s) := by
  unfold strChars readQuoted
  simp only [List.dropLast_concat, unescape_flatMap, String.ofList_toList]

/-- `serde_json` on the texts of strings. -/
def Serde.ofStrings : Serde where
  fromStr text := readQuoted text.toList
  toString v := String.ofList v.render
  fromReader := stringReader fun text => readQuoted text.toList

/-- **Strings are read back.** -/
theorem Serde.ofStrings_readsStrings : Serde.ofStrings.ReadsStrings := by
  intro s
  refine stringReader_asBytes ?_
  simp only [Serde.ofStrings, Json.render, String.toList_ofList, readQuoted_strChars]

end SubstrateClient.Rpc
