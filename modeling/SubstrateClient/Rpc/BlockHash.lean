import SubstrateClient.Rpc.Milestones

/-!
# The block hash of an extrinsic (`rpc/ws_client`, `utils.rs`)

A caller that waits for `Finalized` or `InBlock` gets the block hash of the status that ended the
wait. On its way the hash is written as JSON again, quotes and all, goes through the channel, where
the empty string stands for every failure, and is read by `from_hex`, which takes off quotes and
`0x`.

* `hashFromHex_toString`: of all JSON values, those whose text is read as a hash are the strings of
  its digits, in either case and after any number of `0x`. A string with an escape keeps the
  backslash through the trims, and the texts of the other values are too short or keep a bracket.
* `sends_hash_iff`: what a handler sends is read as a hash when its message carries the hash.
* `blockHash_of_run`: the call returns the hash of the first message that ends the wait, or an error
  if that message carries none, in every interleaving of the connection and the caller and whatever
  follows. `from_hex` accepts a hash without `0x` as well (`returns_hash_without_zeroX`).
-/

namespace SubstrateClient.Rpc

open SubstrateClient.Lib SubstrateClient.Utils

variable {J : Serde} {H : Hex}

/-! ## JSON values that are read as a hash -/

/-- An escaped character brings a backslash. -/
theorem backslash_mem_escapeChar {c : Char} (h : escapeChar c ≠ [c]) : '\\' ∈ escapeChar c := by
  -- every branch but the last begins with one
  have hite : ∀ {p : Prop} [Decidable p] {l l' : List Char}, '\\' ∈ l →
      (l' ≠ [c] → '\\' ∈ l') → (if p then l else l') ≠ [c] → '\\' ∈ if p then l else l' := by
    intro p _ l l' hl hl'
    split
    · exact fun _ => hl
    · exact hl'
  revert h
  unfold escapeChar
  iterate 8 refine hite List.mem_cons_self ?_
  exact fun h => absurd rfl h

/-- The characters of a hash text are written as themselves. -/
theorem escapeChar_of_hexText {cs : List Char} {bs : Bytes} (h : HexText cs bs) :
    cs.flatMap escapeChar = cs ∧ ∀ c ∈ cs, c ≠ '"' := by
  obtain ⟨n, ds, rfl, hds⟩ := h
  refine flatMap_escapeChar fun c hc => ?_
  rcases List.mem_append.mp hc with hc | hc
  · obtain ⟨l, hl, hcl⟩ := List.mem_flatten.mp hc
    rw [List.eq_of_mem_replicate hl] at hcl
    rcases List.mem_cons.mp hcl with rfl | hcl
    · exact Or.inl (by decide)
    · exact Or.inr (List.mem_singleton.mp hcl)
  · exact Or.inl (hds.isHexDigit c hc)

/-- The text of a string is read as a hash when the string is a hash text. -/
theorem spellsHex_strChars {s : String} {bs : Bytes} :
    SpellsHex (trimZeroX (trimQuotes (strChars s))) bs ↔ HexText s.toList bs := by
  unfold strChars
  constructor
  · intro h
    by_cases hplain : ∀ c ∈ s.toList, escapeChar c = [c]
    · have hflat : s.toList.flatMap escapeChar = s.toList := by
        rw [List.flatMap_congr hplain]
        exact List.flatMap_singleton' _
      have hquote : ∀ c ∈ s.toList, c ≠ '"' := by
        rintro _ hc rfl
        exact absurd (hplain _ hc) (by decide)
      rw [hflat, trimQuotes_quoted hquote] at h
      exact spellsHex_trimZeroX.mp h
    · -- an escape puts a backslash into the text, which no trim takes off and no digit is
      push Not at hplain
      obtain ⟨c, hc, hne⟩ := hplain
      have hmem : '\\' ∈ '"' :: (s.toList.flatMap escapeChar ++ ['"']) :=
        List.mem_cons_of_mem _ (List.mem_append_left _
          (List.mem_flatMap.mpr ⟨c, hc, backslash_mem_escapeChar hne⟩))
      have hdigit := h.isHexDigit _ (mem_trims hmem (by decide) (by decide) (by decide))
      exact absurd hdigit (by decide)
  · intro h
    obtain ⟨hflat, hquote⟩ := escapeChar_of_hexText h
    rw [hflat, trimQuotes_quoted hquote]
    exact spellsHex_trimZeroX.mpr h

/-- A text that begins with a character the trims keep and that is no digit is no hash. -/
theorem not_spellsHex_of_head {cs : List Char} {c : Char} {bs : Bytes} (hc : cs.head? = some c)
    (hkeep : c ≠ '"' ∧ c ≠ '0' ∧ c ≠ 'x') (hdigit : isHexDigit c = false) :
    ¬ SpellsHex (trimZeroX (trimQuotes cs)) bs := by
  intro h
  have hmem := mem_trims (List.mem_of_head? hc) hkeep.1 hkeep.2.1 hkeep.2.2
  rw [h.isHexDigit c hmem] at hdigit
  cases hdigit

/-- A text of less than 64 characters is no hash. -/
theorem not_spellsHex_of_length {cs : List Char} (hcs : cs.length < 64) (h : H256) :
    ¬ SpellsHex (trimZeroX (trimQuotes cs)) h.bytes := by
  intro hs
  have hlen := hs.length_eq
  have hle := length_trims_le cs
  rw [h.size] at hlen
  omega

/-- **The values that are read as a hash** are the strings of its digits. -/
theorem hashFromHex_toString (hH : H.Exact) (hJ : J.Texts) {text : String} {v hash : Json}
    (hv : J.fromStr text = .ok v) (hsub : ∀ n ∈ hash.numbers, n ∈ v.numbers) {h : H256} :
    hashFromHex H (J.toString hash) = .ok h ↔ ∃ s, hash = .str s ∧ HexText s.toList h.bytes := by
  rw [hashFromHex_eq_ok hH]
  cases hash with
  | str s =>
    rw [hJ.str, String.toList_ofList, spellsHex_strChars]
    simp
  | null =>
    rw [hJ.null]
    simpa using not_spellsHex_of_length (by decide) h
  | bool b =>
    rw [hJ.bool]
    have hlen : (if b then "true" else "false").toList.length < 64 := by cases b <;> decide
    simpa using not_spellsHex_of_length hlen h
  | num n =>
    have hlen := hJ.num text v hv n (hsub n (by simp [Json.numbers]))
    rw [← String.length_toList] at hlen
    simpa using not_spellsHex_of_length hlen h
  | arr elems => simpa using not_spellsHex_of_head (hJ.arr elems) (by decide) (by decide)
  | obj members => simpa using not_spellsHex_of_head (hJ.obj members) (by decide) (by decide)

/-! ## What the handlers send -/

/-- The message is a status that ends the wait for the milestone, and carries the hash: `finalized`
or, for the milestone `inBlock`, that status where `finalized` is not reported too. -/
def CarriesHash (J : Serde) (exitOn : XtStatus) (msg : String) (h : H256) : Prop :=
  ∃ v s, J.fromStr msg = .ok v ∧ ¬ v.IsError ∧ HexText s.toList h.bytes ∧
    (v.status.get "finalized" = some (.str s) ∨
      (exitOn = .inBlock ∧ v.status.get "finalized" = none ∧
        v.status.get "inBlock" = some (.str s)))

variable {exitOn : XtStatus} {msg : String} {msgs : List String}

theorem objectStatus_hash {obj : List (String × Json)} {x : Option String} :
    (objectStatus J obj = (.finalized, x) ↔
      ∃ hash, obj.lookup "finalized" = some hash ∧ x = some (J.toString hash)) ∧
    (objectStatus J obj = (.inBlock, x) ↔ obj.lookup "finalized" = none ∧
      ∃ hash, obj.lookup "inBlock" = some hash ∧ x = some (J.toString hash)) := by
  unfold objectStatus
  cases obj.lookup "finalized" with
  | some hash => simp [eq_comm]
  | none =>
    cases obj.lookup "inBlock" with
    | some hash => simp [eq_comm]
    | none => cases obj.lookup "broadcast" <;> simp

theorem readStatus_hash {v : Json} {x : Option String} :
    (v.readStatus J = (.finalized, x) ↔
      ∃ hash, v.status.get "finalized" = some hash ∧ x = some (J.toString hash)) ∧
    (v.readStatus J = (.inBlock, x) ↔ v.status.get "finalized" = none ∧
      ∃ hash, v.status.get "inBlock" = some hash ∧ x = some (J.toString hash)) := by
  unfold Json.readStatus
  cases hobj : v.status.asObject with
  | some obj =>
    simp only [get_of_asObject hobj]
    exact objectStatus_hash
  | none =>
    simp only [get_of_asObject_none hobj, reduceCtorEq, false_and, and_false, exists_false,
      iff_false]
    unfold wordStatus
    constructor <;> split <;> simp

/-- Where a status with a hash comes from. -/
theorem parseStatus_hash {x : Option String} :
    (parseStatus J msg = .ok (.finalized, x) ↔ ∃ v hash, J.fromStr msg = .ok v ∧ ¬ v.IsError ∧
      v.status.get "finalized" = some hash ∧ x = some (J.toString hash)) ∧
    (parseStatus J msg = .ok (.inBlock, x) ↔ ∃ v hash, J.fromStr msg = .ok v ∧ ¬ v.IsError ∧
      v.status.get "finalized" = none ∧ v.status.get "inBlock" = some hash ∧
      x = some (J.toString hash)) := by
  have hparse : ∀ r, parseStatus J msg = .ok r ↔
      ∃ v, J.fromStr msg = .ok v ∧ ¬ v.IsError ∧ v.readStatus J = r := by
    intro r
    rw [parseStatus_eq_ok]
    simp only [eq_comm]
  simp only [hparse, readStatus_hash.1, readStatus_hash.2, exists_and_left, and_self]

/-- What a handler that waits for a milestone sends. -/
theorem onExtrinsicMsgUntil_sends {val : XtStatus → Option String → Option (Option String)}
    {value : String} : ((onExtrinsicMsgUntil J val).worker true msg).sends = some value ↔
      (∃ s x y, parseStatus J msg = .ok (s, x) ∧ val s x = some y ∧ value = y.getD "") ∨
        (∃ e, parseStatus J msg = .err e) ∧ value = "" := by
  unfold OnMessageFn.worker onExtrinsicMsgUntil
  cases parseStatus J msg with
  | ok r =>
    obtain ⟨s, x⟩ := r
    cases hval : val s x with
    | none => simp [hval]
    | some y => simp [hval, endProcess, sendResult, eq_comm]
  | err e => simp [endProcessWith, endProcess, sendResult, eq_comm]
  | panic m => simp
  | outOfFuel => simp

/-- The empty string is no hash. -/
theorem hashFromHex_empty (hH : H.Exact) (h : H256) : hashFromHex H "" ≠ .ok h := by
  rw [ne_eq, hashFromHex_eq_ok hH]
  exact not_spellsHex_of_length (by decide) h

/-- The statuses whose value the milestone's handler sends. -/
def SendsValue (exitOn s : XtStatus) : Prop := s = .finalized ∨ (s = .inBlock ∧ exitOn = .inBlock)

/-- The value under the status: that of `finalized` or, for the milestone `inBlock`, that of
`inBlock`. -/
def StatusValue (exitOn : XtStatus) (v hash : Json) : Prop :=
  v.status.get "finalized" = some hash ∨
    (exitOn = .inBlock ∧ v.status.get "finalized" = none ∧ v.status.get "inBlock" = some hash)

/-- The numbers in a status are numbers in the message. -/
theorem StatusValue.numbers {v hash : Json} (h : StatusValue exitOn v hash) :
    ∀ n ∈ hash.numbers, n ∈ v.numbers := by
  intro n hn
  have hstatus : n ∈ v.status.numbers := by
    rcases h with h | ⟨-, -, h⟩ <;> exact Json.numbers_of_get h n hn
  exact Json.numbers_of_index n (Json.numbers_of_index n hstatus)

/-- Where the value that is sent comes from. -/
theorem parseStatus_sendsValue {x : Option String} :
    (∃ s, SendsValue exitOn s ∧ parseStatus J msg = .ok (s, x)) ↔ ∃ v hash,
      J.fromStr msg = .ok v ∧ ¬ v.IsError ∧ StatusValue exitOn v hash ∧
        x = some (J.toString hash) := by
  constructor
  · rintro ⟨s, rfl | ⟨rfl, he⟩, hp⟩
    · obtain ⟨v, hash, hv, herr, hget, hx⟩ := parseStatus_hash.1.mp hp
      exact ⟨v, hash, hv, herr, Or.inl hget, hx⟩
    · obtain ⟨v, hash, hv, herr, hnone, hget, hx⟩ := parseStatus_hash.2.mp hp
      exact ⟨v, hash, hv, herr, Or.inr ⟨he, hnone, hget⟩, hx⟩
  · rintro ⟨v, hash, hv, herr, hget | ⟨he, hnone, hget⟩, hx⟩
    · exact ⟨_, Or.inl rfl, parseStatus_hash.1.mpr ⟨v, hash, hv, herr, hget, hx⟩⟩
    · exact ⟨_, Or.inr ⟨rfl, he⟩, parseStatus_hash.2.mpr ⟨v, hash, hv, herr, hnone, hget, hx⟩⟩

/-- **What a handler sends is read as a hash when its message carries the hash.** -/
theorem sends_hash_iff (hH : H.Exact) (hJ : J.Texts)
    (hexit : exitOn = .finalized ∨ exitOn = .inBlock) {f : OnMessageFn}
    (hf : extrinsicHandler J exitOn = some f) {h : H256} :
    (∃ value, (f.worker true msg).sends = some value ∧ hashFromHex H value = .ok h) ↔
      CarriesHash J exitOn msg h := by
  have hval : ∃ val, f = onExtrinsicMsgUntil J val ∧ ∀ s x y, val s x = some y ↔
      (SendsValue exitOn s ∧ y = x) ∨ (s = .future ∧ y = none) := by
    rcases hexit with rfl | rfl <;> cases hf <;> refine ⟨_, rfl, fun s x y => ?_⟩ <;>
      cases s <;> simp [SendsValue, eq_comm]
  obtain ⟨val, rfl, hval⟩ := hval
  simp only [onExtrinsicMsgUntil_sends, hval]
  constructor
  · rintro ⟨value, ⟨s, x, y, hp, ⟨hs, rfl⟩ | ⟨-, rfl⟩, rfl⟩ | ⟨-, rfl⟩, hh⟩
    · obtain ⟨v, hash, hv, herr, hget, rfl⟩ := parseStatus_sendsValue.mp ⟨s, hs, hp⟩
      obtain ⟨t, rfl, htext⟩ := (hashFromHex_toString hH hJ hv hget.numbers).mp hh
      exact ⟨v, t, hv, herr, htext, hget⟩
    · exact absurd hh (hashFromHex_empty hH h)
    · exact absurd hh (hashFromHex_empty hH h)
  · rintro ⟨v, t, hv, herr, htext, hget⟩
    have hvalue : StatusValue exitOn v (.str t) := hget
    obtain ⟨s, hs, hp⟩ := parseStatus_sendsValue.mpr ⟨v, _, hv, herr, hvalue, rfl⟩
    have hh := (hashFromHex_toString hH hJ hv hvalue.numbers).mpr ⟨t, rfl, htext⟩
    exact ⟨_, Or.inl ⟨s, _, _, hp, Or.inl ⟨hs, rfl⟩, rfl⟩, hh⟩

/-! ## What the caller returns -/

/-- The message ends the wait: it is not JSON, an error, `finalized` or `future`, or the status that
is waited for. -/
def EndsWait (J : Serde) (exitOn : XtStatus) (msg : String) : Prop :=
  EndsAll J msg ∨ Carries J exitOn msg

/-- The first of the messages that ends the wait. -/
def FirstEnding (J : Serde) (exitOn : XtStatus) (msgs : List String) (m : String) : Prop :=
  ∃ pre post, msgs = pre ++ m :: post ∧ (∀ u ∈ pre, ¬ EndsWait J exitOn u) ∧ EndsWait J exitOn m

/-- `WsRpcClient::send_extrinsic` returns `r` once the messages are delivered: however its turns
fall between those of the connection, whatever the node sends afterwards, and whether the connection
then lasts or is lost. -/
def SendExtrinsicGives (J : Serde) (H : Hex) (xthexPrefixed : String) (exitOn : XtStatus)
    (msgs : List String) (r : ApiResult (Option H256)) : Prop :=
  match sendExtrinsicClient J xthexPrefixed exitOn with
  | some client => ∃ taken, Mailbox.ComesTo client.onMessageFn.worker msgs taken ∧
      r = sendExtrinsicResult H exitOn (recv taken)
  | none => r = .error (.unsupportedXtStatus exitOn)

/-- What a handler of the milestone does: it is there, and ends the wait on the messages that end
it. -/
theorem exists_hashHandler (hexit : exitOn = .finalized ∨ exitOn = .inBlock) :
    ∃ f, extrinsicHandler J exitOn = some f ∧
      ∀ msg, Mailbox.ends f.worker msg = true ↔ EndsWait J exitOn msg := by
  rcases hexit with rfl | rfl
  · exact ⟨_, rfl, fun msg => ends_iff .finalized⟩
  · exact ⟨_, rfl, fun msg => ends_iff .inBlock⟩

theorem firstEnding_iff {f : OnMessageFn}
    (hends : ∀ msg, Mailbox.ends f.worker msg = true ↔ EndsWait J exitOn msg) {m : String} :
    FirstEnding J exitOn msgs m ↔ Mailbox.firstEnding f.worker msgs = some m := by
  rw [Mailbox.firstEnding_eq_some]
  simp only [← Bool.not_eq_true, hends]
  rfl

/-- A value is returned when it is read as a hash. -/
theorem sendExtrinsicResult_eq_ok (hexit : exitOn = .finalized ∨ exitOn = .inBlock)
    {taken : Option String} {o : Option H256} :
    sendExtrinsicResult H exitOn (recv taken) = .ok o ↔
      ∃ value h, taken = some value ∧ hashFromHex H value = .ok h ∧ o = some h := by
  cases taken with
  | none => rcases hexit with rfl | rfl <;> simp [recv, sendExtrinsicResult]
  | some value =>
    rcases hexit with rfl | rfl <;> simp only [recv, sendExtrinsicResult] <;>
      cases hh : hashFromHex H value <;> simp [hh, eq_comm]

/-- What is made of what a message leaves is a hash iff the message carries it. -/
theorem sendExtrinsicResult_sends (hH : H.Exact) (hJ : J.Texts)
    (hexit : exitOn = .finalized ∨ exitOn = .inBlock) {f : OnMessageFn}
    (hf : extrinsicHandler J exitOn = some f) {m : String} {o : Option H256} :
    sendExtrinsicResult H exitOn (recv (f.worker true m).sends) = .ok o ↔
      ∃ h, o = some h ∧ CarriesHash J exitOn m h := by
  rw [sendExtrinsicResult_eq_ok hexit]
  constructor
  · rintro ⟨value, h, hsend, hh, rfl⟩
    exact ⟨h, rfl, (sends_hash_iff hH hJ hexit hf).mp ⟨value, hsend, hh⟩⟩
  · rintro ⟨h, rfl, hcarries⟩
    obtain ⟨value, hsend, hh⟩ := (sends_hash_iff hH hJ hexit hf).mpr hcarries
    exact ⟨value, h, hsend, hh, rfl⟩

/-- A hash is returned only off the first message that ends the wait. -/
theorem carriesHash_of_returns (hH : H.Exact) (hJ : J.Texts)
    (hexit : exitOn = .finalized ∨ exitOn = .inBlock) {xthexPrefixed : String} {o : Option H256}
    (hret : SendExtrinsicReturns J H xthexPrefixed exitOn msgs (.ok o)) :
    ∃ h m, o = some h ∧ FirstEnding J exitOn msgs m ∧ CarriesHash J exitOn m h := by
  obtain ⟨f, hf, hends⟩ := exists_hashHandler (J := J) hexit
  unfold SendExtrinsicReturns sendExtrinsicClient at hret
  rw [hf] at hret
  obtain ⟨taken, htaken, hr⟩ := hret
  obtain ⟨value, h, rfl, hh, rfl⟩ := (sendExtrinsicResult_eq_ok hexit).mp hr.symm
  obtain ⟨m, hm, hsend⟩ := Mailbox.takes_iff.mp htaken
  exact ⟨h, m, rfl, (firstEnding_iff hends).mpr hm,
    (sends_hash_iff hH hJ hexit hf).mp ⟨value, hsend, hh⟩⟩

/-- The call comes to what is made of the first message that ends the wait. -/
theorem gives_of_firstEnding {f : OnMessageFn} (hf : extrinsicHandler J exitOn = some f)
    (hends : ∀ msg, Mailbox.ends f.worker msg = true ↔ EndsWait J exitOn msg) {m : String}
    (hm : FirstEnding J exitOn msgs m) (xthexPrefixed : String) :
    SendExtrinsicGives J H xthexPrefixed exitOn msgs
      (sendExtrinsicResult H exitOn (recv (f.worker true m).sends)) := by
  unfold SendExtrinsicGives sendExtrinsicClient
  rw [hf]
  exact ⟨_, Mailbox.comesTo_of_firstEnding ((firstEnding_iff hends).mp hm), rfl⟩

/-- **The call returns the hash of the first message that ends the wait**: a hash is returned only if
that message carries it; if it does, the call comes to return it, and if it carries none, an
error, whatever is delivered afterwards. -/
theorem blockHash_of_run (hH : H.Exact) (hJ : J.Texts)
    (hexit : exitOn = .finalized ∨ exitOn = .inBlock) (xthexPrefixed : String)
    (msgs : List String) :
    (∀ o, SendExtrinsicReturns J H xthexPrefixed exitOn msgs (.ok o) →
      ∃ h m, o = some h ∧ FirstEnding J exitOn msgs m ∧ CarriesHash J exitOn m h) ∧
    ∀ m, FirstEnding J exitOn msgs m →
      (∀ h, CarriesHash J exitOn m h →
        SendExtrinsicGives J H xthexPrefixed exitOn msgs (.ok (some h))) ∧
      ((∀ h, ¬ CarriesHash J exitOn m h) →
        ∃ e, SendExtrinsicGives J H xthexPrefixed exitOn msgs (.error e)) := by
  refine ⟨fun o hret => carriesHash_of_returns hH hJ hexit hret, fun m hm => ?_⟩
  obtain ⟨f, hf, hends⟩ := exists_hashHandler (J := J) hexit
  have hgives := gives_of_firstEnding (H := H) hf hends hm xthexPrefixed
  have hresult := fun o => sendExtrinsicResult_sends hH hJ hexit hf (m := m) (o := o)
  constructor
  · intro h hh
    rwa [(hresult (some h)).mpr ⟨h, rfl, hh⟩] at hgives
  · intro hno
    cases hr : sendExtrinsicResult H exitOn (recv (f.worker true m).sends) with
    | error e =>
      rw [hr] at hgives
      exact ⟨e, hgives⟩
    | ok o =>
      obtain ⟨h, -, hh⟩ := (hresult o).mp hr
      exact absurd hh (hno h)

/-! ## With and without `0x` -/

theorem status_blockNotification (key hash : String) :
    (blockNotification key hash).2.status.get key = some (.str hash) := by
  show List.lookup key [(key, Json.str hash)] = _
  simp

theorem carriesHash_of_notification {hash : String} {h : H256}
    (hv : J.fromStr msg = .ok (blockNotification "finalized" hash).2)
    (ht : HexText hash.toList h.bytes) : CarriesHash J .finalized msg h :=
  ⟨_, hash, hv, Bool.false_ne_true, ht, Or.inl (status_blockNotification _ _)⟩

/-- A message that carries a hash ends the wait. -/
theorem firstEnding_of_carriesHash {m : String} {h : H256} (hh : CarriesHash J .finalized m h)
    (more : List String) : FirstEnding J .finalized (m :: more) m := by
  obtain ⟨v, s, hv, herr, -, hs | ⟨hexit, -⟩⟩ := hh
  · refine ⟨[], more, rfl, by simp, Or.inr ⟨v, hv, herr, ?_⟩⟩
    show (v.status.get "finalized").isSome = true
    rw [hs]
    rfl
  · cases hexit

/-- A block hash. -/
def blockHash : H256 := ⟨List.replicate 32 161, rfl⟩

/-- The text of a block hash, with and without `0x`. -/
def blockHashText (zeroX : Bool) : String :=
  String.ofList (zeroXs zeroX.toNat) ++ Hex.reference.encode blockHash.bytes

theorem spellsHex_reference (bs : Bytes) :
    SpellsHex (Hex.reference.encode bs).toList bs :=
  (Hex.reference_exact _ _).mp (Hex.reference_lawful.decode_encode _)

theorem hexText_blockHash (zeroX : Bool) :
    HexText (blockHashText zeroX).toList blockHash.bytes := by
  refine ⟨zeroX.toNat, (Hex.reference.encode blockHash.bytes).toList, ?_, spellsHex_reference _⟩
  unfold blockHashText
  rw [String.toList_append, String.toList_ofList]

/-- The notification of a finalized block. -/
def finalizedStatus (zeroX : Bool) : String × Json :=
  blockNotification "finalized" (blockHashText zeroX)

theorem finalizedStatus_carries (zeroX : Bool) :
    CarriesHash (Serde.ofTexts [finalizedStatus zeroX]) .finalized (finalizedStatus zeroX).1
      blockHash :=
  carriesHash_of_notification (Serde.fromStr_ofTexts_self _) (hexText_blockHash zeroX)

theorem numbers_blockNotification (key hash : String) :
    (blockNotification key hash).2.numbers = [] := by
  unfold blockNotification
  simp only [Json.numbers, numbersOfMembers, List.append_nil]

theorem finalizedStatus_texts (zeroX : Bool) : (Serde.ofTexts [finalizedStatus zeroX]).Texts := by
  refine Serde.ofTexts_texts fun t ht => ?_
  rw [List.mem_singleton.mp ht]
  exact numbers_blockNotification _ _

/-- A finalized block ends the wait with its hash. -/
theorem blockHash_of_run_finalized :
    SendExtrinsicGives (Serde.ofTexts [finalizedStatus true]) Hex.reference "0x00" .finalized
      [(finalizedStatus true).1] (.ok (some blockHash)) :=
  ((blockHash_of_run Hex.reference_exact (finalizedStatus_texts true) (Or.inl rfl) "0x00"
    [(finalizedStatus true).1]).2 _ (firstEnding_of_carriesHash (finalizedStatus_carries true) [])).1
      blockHash (finalizedStatus_carries true)

/-- **A hash without `0x` is returned as well.** -/
theorem returns_hash_without_zeroX :
    SendExtrinsicReturns (Serde.ofTexts [finalizedStatus false]) Hex.reference "0x00" .finalized
      [(finalizedStatus false).1] (.ok (some blockHash)) ∧
    FirstEnding (Serde.ofTexts [finalizedStatus false]) .finalized [(finalizedStatus false).1]
      (finalizedStatus false).1 ∧
    ∀ v s, (Serde.ofTexts [finalizedStatus false]).fromStr (finalizedStatus false).1 = .ok v →
      v.status.get "finalized" = some (.str s) → ∀ ds, s.toList ≠ '0' :: 'x' :: ds := by
  have hcarries := finalizedStatus_carries false
  have hfirst := firstEnding_of_carriesHash hcarries []
  refine ⟨?_, hfirst, ?_⟩
  · obtain ⟨value, hsend, hh⟩ := (sends_hash_iff Hex.reference_exact (finalizedStatus_texts false)
      (Or.inl rfl) rfl).mpr hcarries
    have hm := (firstEnding_iff fun msg => ends_iff .finalized).mp hfirst
    exact ⟨some value, Mailbox.takes_iff.mpr ⟨_, hm, hsend⟩,
      ((sendExtrinsicResult_eq_ok (Or.inl rfl)).mpr ⟨value, blockHash, rfl, hh, rfl⟩).symm⟩
  · intro v s hv hs ds hds
    rw [Serde.fromStr_ofTexts_self] at hv
    cases hv
    obtain rfl : blockHashText false = s := by
      rw [finalizedStatus, status_blockNotification] at hs
      exact (Json.str.inj (Option.some.inj hs))
    have hdigits : ∀ c ∈ (blockHashText false).toList, isHexDigit c = true := by
      unfold blockHashText
      rw [String.toList_append, String.toList_ofList]
      exact (spellsHex_reference _).isHexDigit
    rw [hds] at hdigits
    exact absurd (hdigits 'x' (by simp)) (by decide)

end SubstrateClient.Rpc
