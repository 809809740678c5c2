import SubstrateClient.Node.Decoder
import SubstrateClient.Rpc.Handlers

/-!
# The websocket client (`rpc/ws_client/client.rs`)

A request starts a thread that connects, sends the request and hands every message of the node to
the handler; the caller waits for a value on the channel. Thread and caller are a `Mailbox`: the
calls return what `recv` gives in some interleaving of the two (`GetRequestReturns`,
`SendExtrinsicReturns`).

`send_extrinsic` folds every failure into the empty string on the channel. The callers that wait for
`Finalized` and `InBlock` reject it as a hash; the others drop what they receive.
`sendExtrinsic_honest_iff` says on exactly which runs of the node they may still be believed: those
in which every message that reports a failure comes after one that already ended the wait.
-/

namespace SubstrateClient.Rpc

open SubstrateClient.Lib SubstrateClient.Utils

/-! ## Errors (`std/error.rs`) -/

/-- `ApiClientError`: the variants the modelled calls produce. -/
inductive ApiError where
  | noSigner
  | disconnected
  | metadata (e : Node.MetadataError)
  | storageValueDecode (e : String)
  | invalidHexString (e : FromHexError)
  | deserializing (e : String)
  | unsupportedXtStatus (s : XtStatus)
  deriving DecidableEq, Repr

/-- `ApiResult`. -/
abbrev ApiResult (α : Type) := Except ApiError α

/-! ## Calls -/

/-- `RpcClient`: the request a connection sends and its handler. -/
structure RpcClient where
  request : String
  onMessageFn : OnMessageFn

/-- `result_out.recv()?`. -/
def recv : Option String → ApiResult String
  | some value => .ok value
  | none => .error .disconnected

section Calls

variable (J : Serde) (H : Hex)

/-- The connection of `WsRpcClient::get_request`. -/
def getRequestClient (jsonreq : Json) : RpcClient := ⟨J.toString jsonreq, onGetRequestMsg J⟩

/-- `WsRpcClient::get_request` may return `r` when the node sends `msgs`. -/
def GetRequestReturns (jsonreq : Json) (msgs : List String) (r : ApiResult String) : Prop :=
  ∃ taken, Mailbox.Takes (getRequestClient J jsonreq).onMessageFn.worker msgs taken ∧
    r = recv taken

/-- The handler of a milestone. -/
def extrinsicHandler : XtStatus → Option OnMessageFn
  | .finalized => some (onExtrinsicMsgUntilFinalized J)
  | .inBlock => some (onExtrinsicMsgUntilInBlock J)
  | .broadcast => some (onExtrinsicMsgUntilBroadcast J)
  | .ready => some (onExtrinsicMsgUntilReady J)
  | .submitOnly => some (onExtrinsicMsgSubmitOnly J)
  | .future | .error | .unknown => none

/-- The connection of `WsRpcClient::send_extrinsic`. -/
def sendExtrinsicClient (xthexPrefixed : String) (exitOn : XtStatus) : Option RpcClient :=
  let jsonreq :=
    match exitOn with
    | .submitOnly => authorSubmitExtrinsic xthexPrefixed
    | _ => authorSubmitAndWatchExtrinsic xthexPrefixed
  (extrinsicHandler J exitOn).map fun f => ⟨J.toString jsonreq, f⟩

/-- What `send_extrinsic` makes of what it receives. -/
def sendExtrinsicResult (exitOn : XtStatus) (res : ApiResult String) : ApiResult (Option H256) :=
  match exitOn, res with
  | .finalized, .ok res | .inBlock, .ok res =>
    match hashFromHex H res with
    | .ok hash => .ok (some hash)
    | .error e => .error (.invalidHexString e)
  | .broadcast, .ok _ | .ready, .ok _ | .submitOnly, .ok _ => .ok none
  | .future, _ | .error, _ | .unknown, _ => .error (.unsupportedXtStatus exitOn)
  | _, .error e => .error e

/-- `WsRpcClient::send_extrinsic` may return `r` when the node sends `msgs`. -/
def SendExtrinsicReturns (xthexPrefixed : String) (exitOn : XtStatus) (msgs : List String)
    (r : ApiResult (Option H256)) : Prop :=
  match sendExtrinsicClient J xthexPrefixed exitOn with
  | some client => ∃ taken, Mailbox.Takes client.onMessageFn.worker msgs taken ∧
      r = sendExtrinsicResult H exitOn (recv taken)
  | none => r = .error (.unsupportedXtStatus exitOn)

end Calls

/-! ## What the messages of a node say -/

/-- The message is a success for the milestone: a status at or beyond it, or a string `result`. -/
def Success (J : Serde) (exitOn : XtStatus) (msg : String) : Prop :=
  ∃ v, J.fromStr msg = .ok v ∧
    match exitOn with
    | .submitOnly => (v.index "result").asStr.isSome = true
    | .broadcast => ¬ v.IsError ∧ (v.Reports "broadcast" ∨ v.Reports "inBlock" ∨
        v.Reports "finalized")
    | .ready => ¬ v.IsError ∧ (v.status.asStr = some "ready" ∨ v.Reports "broadcast" ∨
        v.Reports "inBlock" ∨ v.Reports "finalized")
    | _ => False

/-- The message is an error object or the status `future`, and no success. -/
def Refusal (J : Serde) (exitOn : XtStatus) (msg : String) : Prop :=
  ¬ Success J exitOn msg ∧
    ∃ v, J.fromStr msg = .ok v ∧ (v.IsError ∨ v.status.asStr = some "future")

/-- The message that ends the wait. -/
def endingMessage (J : Serde) (exitOn : XtStatus) (msgs : List String) : Option String :=
  (extrinsicHandler J exitOn).bind fun f => Mailbox.firstEnding f.worker msgs

/-- `send_extrinsic` can be believed on a run of the node: it returns `Ok` only if the message that
ended the wait is a success, and `Err` if that message is a refusal. -/
def Honest (J : Serde) (H : Hex) (exitOn : XtStatus) (msgs : List String) : Prop :=
  ∀ xthexPrefixed r, SendExtrinsicReturns J H xthexPrefixed exitOn msgs r →
    ((∃ hash, r = .ok hash) → ∃ msg, endingMessage J exitOn msgs = some msg ∧
      Success J exitOn msg) ∧
    ∀ msg, endingMessage J exitOn msgs = some msg → Refusal J exitOn msg → ∃ e, r = .error e

/-! ## What the handlers make of them -/

/-- What a message does to the wait. -/
inductive Verdict where
  | wait | success | failure | crash
  deriving DecidableEq, Repr

/-- The verdict on a status, for a milestone. -/
def watchVerdict (exitOn : XtStatus) : Outcome RpcClientError (XtStatus × Option String) → Verdict
  | .ok (s, _) =>
    if s = .future then .failure
    else if s = .finalized ∨ s = exitOn then .success
    else .wait
  | .err _ => .failure
  | _ => .crash

/-- The verdict on the response to a submission. -/
def submitVerdict : Outcome RpcClientError String → Verdict
  | .ok _ => .success
  | .err _ => .failure
  | _ => .crash

/-- The verdict of the parsers of the source on a message. -/
def verdict (J : Serde) (exitOn : XtStatus) (msg : String) : Verdict :=
  match exitOn with
  | .submitOnly => submitVerdict (resultFromJsonResponse J msg)
  | _ => watchVerdict exitOn (parseStatus J msg)

/-- The milestones whose callers drop what they receive. -/
def DropsValue (exitOn : XtStatus) : Prop :=
  exitOn = .broadcast ∨ exitOn = .ready ∨ exitOn = .submitOnly

/-- The message ends the wait with a success: it carries `finalized` or the status of the milestone,
or a string `result`. -/
def Reaches (J : Serde) (exitOn : XtStatus) (msg : String) : Prop :=
  match exitOn with
  | .submitOnly => ∃ v, J.fromStr msg = .ok v ∧ (v.index "result").asStr.isSome = true
  | _ => Carries J .finalized msg ∨ Carries J exitOn msg

/-- The message ends the wait with a failure: it is not JSON, or it is the status `future` or an
error whose members can be written into a text. -/
def Fails (J : Serde) (exitOn : XtStatus) (msg : String) : Prop :=
  ∀ v, J.fromStr msg = .ok v →
    match exitOn with
    | .submitOnly => (v.index "result").asStr = none ∧ v.FormatsError
    | _ => (v.IsError ∧ v.FormatsError) ∨ (¬ v.IsError ∧ v.HasStatus .future)

/-- The message crashes the thread: there is no error whose members can be written into a text,
where one is expected. -/
def Crashes (J : Serde) (exitOn : XtStatus) (msg : String) : Prop :=
  ∃ v, J.fromStr msg = .ok v ∧ ¬ v.FormatsError ∧
    match exitOn with
    | .submitOnly => (v.index "result").asStr = none
    | _ => v.IsError

/-- Every message that fails comes after one that succeeded or crashed the thread. -/
def FailsLate (J : Serde) (exitOn : XtStatus) (msgs : List String) : Prop :=
  ∀ pre msg post, msgs = pre ++ msg :: post → Fails J exitOn msg →
    ∃ m ∈ pre, Reaches J exitOn m ∨ Crashes J exitOn m

variable {J : Serde} {H : Hex} {exitOn : XtStatus} {msg : String} {msgs : List String}

/-- **The verdict is settled by what the message says.** -/
structure VerdictSays (J : Serde) (exitOn : XtStatus) (msg : String) : Prop where
  success : verdict J exitOn msg = .success ↔ Reaches J exitOn msg
  failure : verdict J exitOn msg = .failure ↔ Fails J exitOn msg
  crash : verdict J exitOn msg = .crash ↔ Crashes J exitOn msg

theorem verdictSays_submitOnly (J : Serde) (msg : String) : VerdictSays J .submitOnly msg := by
  constructor <;> unfold verdict <;>
    rcases resultFromJsonResponse_cases J msg with ⟨e, hv, hp⟩ | ⟨v, s, hv, hs, hp⟩ |
      ⟨v, hv, hs, hform, e, hp⟩ | ⟨v, hv, hs, hform, m, hp⟩ <;>
    simp [Reaches, Fails, Crashes, submitVerdict, *]

/-- The verdict on a message that carries a status. -/
theorem watchVerdict_readStatus {v : Json} (hexit : exitOn ≠ .future) :
    (watchVerdict exitOn (.ok (v.readStatus J)) = .success ↔
      v.HasStatus .finalized ∨ v.HasStatus exitOn) ∧
    (watchVerdict exitOn (.ok (v.readStatus J)) = .failure ↔ v.HasStatus .future) ∧
    watchVerdict exitOn (.ok (v.readStatus J)) ≠ .crash := by
  simp only [← readStatus_fst (J := J)]
  obtain ⟨s, x⟩ := v.readStatus J
  simp only [watchVerdict]
  split_ifs with h1 h2
  · subst h1
    simp [hexit.symm]
  · simp [h1, h2]
  · simpa [h1] using h2

theorem verdictSays_watch (hexit : exitOn ≠ .future) (hsub : exitOn ≠ .submitOnly) :
    VerdictSays J exitOn msg := by
  have hverdict : verdict J exitOn msg = watchVerdict exitOn (parseStatus J msg) := by
    cases exitOn <;> first | rfl | exact absurd rfl hsub
  have hreaches : Reaches J exitOn msg ↔ Carries J .finalized msg ∨ Carries J exitOn msg := by
    cases exitOn <;> first | rfl | exact absurd rfl hsub
  have hfails : Fails J exitOn msg ↔ ∀ v, J.fromStr msg = .ok v →
      (v.IsError ∧ v.FormatsError) ∨ (¬ v.IsError ∧ v.HasStatus .future) := by
    cases exitOn <;> first | rfl | exact absurd rfl hsub
  have hcrashes : Crashes J exitOn msg ↔
      ∃ v, J.fromStr msg = .ok v ∧ ¬ v.FormatsError ∧ v.IsError := by
    cases exitOn <;> first | rfl | exact absurd rfl hsub
  rcases parseStatus_cases J msg with ⟨e, hv, hp⟩ | ⟨v, hv, herr, hform, e, hp⟩ |
    ⟨v, hv, herr, hform, m, hp⟩ | ⟨v, hv, herr, hp⟩
  · constructor <;> simp [hverdict, hreaches, hfails, hcrashes, hv, hp, Carries, watchVerdict]
  · constructor <;>
      simp [hverdict, hreaches, hfails, hcrashes, hv, hp, Carries, watchVerdict, herr, hform]
  · constructor <;>
      simp [hverdict, hreaches, hfails, hcrashes, hv, hp, Carries, watchVerdict, herr, hform]
  · obtain ⟨hsuccess, hfailure, hcrash⟩ := watchVerdict_readStatus (J := J) (v := v) hexit
    constructor
    · simp [hverdict, hreaches, hv, hp, Carries, herr, hsuccess]
    · simp [hverdict, hfails, hv, hp, herr, hfailure]
    · simp [hverdict, hcrashes, hv, hp, herr, hcrash]

theorem DropsValue.verdictSays (hd : DropsValue exitOn) (msg : String) :
    VerdictSays J exitOn msg := by
  rcases hd with rfl | rfl | rfl
  · exact verdictSays_watch (by decide) (by decide)
  · exact verdictSays_watch (by decide) (by decide)
  · exact verdictSays_submitOnly J msg

/-- What ends the wait with a success is a success for the milestone. -/
theorem Reaches.success (hd : DropsValue exitOn) (h : Reaches J exitOn msg) :
    Success J exitOn msg := by
  rcases hd with rfl | rfl | rfl
  · rcases h with ⟨v, hv, herr, hs⟩ | ⟨v, hv, herr, hs⟩
    · exact ⟨v, hv, herr, Or.inr (Or.inr hs)⟩
    · exact ⟨v, hv, herr, Or.inl hs.2.2⟩
  · rcases h with ⟨v, hv, herr, hs⟩ | ⟨v, hv, herr, hs⟩
    · exact ⟨v, hv, herr, Or.inr (Or.inr (Or.inr hs))⟩
    · exact ⟨v, hv, herr, Or.inl hs⟩
  · exact h

/-- A status that is a word has no members. -/
theorem not_reports_of_asStr {v : Json} {w : String} (h : v.status.asStr = some w)
    (key : String) : ¬ v.Reports key := by
  unfold Json.Reports
  cases hs : v.status <;> rw [hs] at h <;> cases h
  exact Bool.false_ne_true

/-- What ends the wait with a failure is no success for the milestone. -/
theorem Fails.not_success (hd : DropsValue exitOn) (h : Fails J exitOn msg) :
    ¬ Success J exitOn msg := by
  rintro ⟨v, hv, hsucc⟩
  have hfails := h v hv
  rcases hd with rfl | rfl | rfl
  · rcases hfails with ⟨herr, -⟩ | ⟨-, hfut⟩
    · exact hsucc.1 herr
    · rcases hsucc.2 with hs | hs | hs <;> exact not_reports_of_asStr hfut _ hs
  · rcases hfails with ⟨herr, -⟩ | ⟨-, hfut⟩
    · exact hsucc.1 herr
    · rcases hsucc.2 with hs | hs | hs | hs
      · rw [show v.status.asStr = some "future" from hfut] at hs
        exact absurd hs (by decide)
      all_goals exact not_reports_of_asStr hfut _ hs
  · rw [hfails.1] at hsucc
    cases hsucc

/-! ## What they send -/

/-- The reply of a worker, by its verdict: a failure sends the empty string. -/
def RepliesBy (r : Reply String) : Verdict → Prop
  | .wait => r = ⟨none, false⟩
  | .success => ∃ value, r = ⟨some value, false⟩
  | .failure => r = ⟨some "", false⟩
  | .crash => r = ⟨none, true⟩

theorem RepliesBy.quiet_iff {r : Reply String} {v : Verdict} (h : RepliesBy r v) :
    (r.sends.isSome || r.stops) = false ↔ v = .wait := by
  cases v with
  | wait => cases h; simp
  | success => obtain ⟨value, rfl⟩ := h; simp
  | failure => cases h; simp
  | crash => cases h; simp

theorem RepliesBy.sends_isSome_iff {r : Reply String} {v : Verdict} (h : RepliesBy r v) :
    r.sends.isSome = true ↔ v = .success ∨ v = .failure := by
  cases v with
  | wait => cases h; simp
  | success => obtain ⟨value, rfl⟩ := h; simp
  | failure => cases h; simp
  | crash => cases h; simp

/-- The handlers that wait for a milestone, by what they do with a status. -/
theorem onExtrinsicMsgUntil_repliesBy {val : XtStatus → Option String → Option (Option String)}
    (hfuture : ∀ x, val .future x = some none)
    (hend : ∀ s x, s ≠ .future → s = .finalized ∨ s = exitOn → (val s x).isSome = true)
    (hwait : ∀ s x, s ≠ .future → ¬ (s = .finalized ∨ s = exitOn) → val s x = none) :
    RepliesBy ((onExtrinsicMsgUntil J val).worker true msg)
      (watchVerdict exitOn (parseStatus J msg)) := by
  unfold OnMessageFn.worker onExtrinsicMsgUntil
  cases parseStatus J msg with
  | ok r =>
    obtain ⟨s, x⟩ := r
    simp only [watchVerdict]
    split_ifs with h1 h2
    · rw [h1, hfuture]
      rfl
    · obtain ⟨value, hv⟩ := Option.isSome_iff_exists.mp (hend s x h1 h2)
      rw [hv]
      exact ⟨value.getD "", rfl⟩
    · rw [hwait s x h1 h2]
      rfl
  | err e => rfl
  | panic m => rfl
  | outOfFuel => rfl

/-- **What a handler sends is settled by the verdict.** -/
theorem extrinsicHandler_repliesBy {f : OnMessageFn} (hf : extrinsicHandler J exitOn = some f)
    (msg : String) : RepliesBy (f.worker true msg) (verdict J exitOn msg) := by
  cases exitOn <;> cases hf
  case finalized | inBlock | broadcast | ready =>
    refine onExtrinsicMsgUntil_repliesBy (fun _ => rfl) (fun s x => ?_) fun s x => ?_
    · cases s <;> simp
    · cases s <;> simp
  case submitOnly =>
    unfold OnMessageFn.worker onExtrinsicMsgSubmitOnly verdict
    cases resultFromJsonResponse J msg with
    | ok s => exact ⟨s, rfl⟩
    | err e => rfl
    | panic m => rfl
    | outOfFuel => rfl

theorem ends_eq_false_iff {f : OnMessageFn} (hf : extrinsicHandler J exitOn = some f) :
    Mailbox.ends f.worker msg = false ↔ verdict J exitOn msg = .wait :=
  (extrinsicHandler_repliesBy hf msg).quiet_iff

/-- A value is sent on a success and on a failure. -/
theorem sends_isSome_iff {f : OnMessageFn} (hf : extrinsicHandler J exitOn = some f) :
    (f.worker true msg).sends.isSome = true ↔
      verdict J exitOn msg = .success ∨ verdict J exitOn msg = .failure :=
  (extrinsicHandler_repliesBy hf msg).sends_isSome_iff

/-! ## Which runs are reported honestly -/

/-- The milestones whose callers drop the value return `Ok` on any value, `Err` otherwise. -/
theorem returns_iff (hd : DropsValue exitOn) {f : OnMessageFn}
    (hf : extrinsicHandler J exitOn = some f) (xthexPrefixed : String)
    {r : ApiResult (Option H256)} :
    SendExtrinsicReturns J H xthexPrefixed exitOn msgs r ↔
      ∃ taken, Mailbox.Takes f.worker msgs taken ∧
        r = if taken.isSome then .ok none else .error .disconnected := by
  unfold SendExtrinsicReturns sendExtrinsicClient
  rw [hf]
  refine exists_congr fun taken => and_congr_right fun _ => ?_
  rcases hd with rfl | rfl | rfl <;> cases taken <;> rfl

/-- Failures come late in a run by its first message. -/
theorem failsLate_cons (hd : DropsValue exitOn) : FailsLate J exitOn (msg :: msgs) ↔
    Reaches J exitOn msg ∨ Crashes J exitOn msg ∨
      (¬ Fails J exitOn msg ∧ FailsLate J exitOn msgs) := by
  have hlinked := hd.verdictSays (J := J) msg
  constructor
  · intro h
    by_cases hreach : Reaches J exitOn msg
    · exact Or.inl hreach
    by_cases hcrash : Crashes J exitOn msg
    · exact Or.inr (Or.inl hcrash)
    refine Or.inr (Or.inr ⟨fun hfail => ?_, fun pre m post hsplit hfail => ?_⟩)
    · obtain ⟨m, hm, -⟩ := h [] msg msgs rfl hfail
      cases hm
    · rw [hsplit] at h
      obtain ⟨u, hu, hend⟩ := h (msg :: pre) m post rfl hfail
      rcases List.mem_cons.mp hu with rfl | hu
      · exact absurd hend (not_or.mpr ⟨hreach, hcrash⟩)
      · exact ⟨u, hu, hend⟩
  · intro h pre m post hsplit hfail
    cases pre with
    | nil =>
      cases hsplit
      have hv := hlinked.failure.mpr hfail
      rcases h with h | h | ⟨h, -⟩
      · rw [hlinked.success.mpr h] at hv
        cases hv
      · rw [hlinked.crash.mpr h] at hv
        cases hv
      · exact absurd hfail h
    | cons u pre =>
      cases hsplit
      rcases h with h | h | ⟨-, h⟩
      · exact ⟨msg, List.mem_cons_self, Or.inl h⟩
      · exact ⟨msg, List.mem_cons_self, Or.inr h⟩
      · obtain ⟨w, hw, hend⟩ := h pre m post rfl hfail
        exact ⟨w, List.mem_cons_of_mem msg hw, hend⟩

/-- **Failures come late iff the message that ends the wait is none**, by induction on the run. -/
theorem failsLate_iff (hd : DropsValue exitOn) {f : OnMessageFn}
    (hf : extrinsicHandler J exitOn = some f) : FailsLate J exitOn msgs ↔
      ∀ m, Mailbox.firstEnding f.worker msgs = some m → ¬ Fails J exitOn m := by
  induction msgs with
  | nil =>
    refine ⟨fun _ => nofun, fun _ pre msg post hsplit => ?_⟩
    cases pre <;> cases hsplit
  | cons u us ih =>
    rw [failsLate_cons hd, ih]
    have hlinked := hd.verdictSays (J := J) u
    rw [← hlinked.success, ← hlinked.failure, ← hlinked.crash]
    unfold Mailbox.firstEnding
    by_cases hends : Mailbox.ends f.worker u = true
    · have hwait : verdict J exitOn u ≠ .wait := by
        intro hw
        rw [(ends_eq_false_iff hf).mpr hw] at hends
        cases hends
      rw [List.find?_cons_of_pos hends]
      simp only [Option.some.injEq, forall_eq', ← hlinked.failure]
      cases hv : verdict J exitOn u with
      | wait => exact absurd hv hwait
      | success | failure | crash => simp
    · have hwait : verdict J exitOn u = .wait := by
        rw [← ends_eq_false_iff hf]
        simpa using hends
      rw [List.find?_cons_of_neg hends]
      simp [hwait]

theorem exists_extrinsicHandler (hd : DropsValue exitOn) :
    ∃ f, extrinsicHandler J exitOn = some f := by
  rcases hd with rfl | rfl | rfl <;> exact ⟨_, rfl⟩

theorem endingMessage_eq {f : OnMessageFn} (hf : extrinsicHandler J exitOn = some f) :
    endingMessage J exitOn msgs = Mailbox.firstEnding f.worker msgs := by
  unfold endingMessage
  rw [hf]
  rfl

/-- An `Ok` comes from a message that is not a failure, if failures come late. -/
theorem success_of_returns_ok (hd : DropsValue exitOn) {f : OnMessageFn}
    (hf : extrinsicHandler J exitOn = some f) (hlate : FailsLate J exitOn msgs)
    {xthexPrefixed : String} {hash : Option H256}
    (h : SendExtrinsicReturns J H xthexPrefixed exitOn msgs (.ok hash)) :
    ∃ m, endingMessage J exitOn msgs = some m ∧ Success J exitOn m := by
  obtain ⟨taken, htaken, hr⟩ := (returns_iff hd hf xthexPrefixed).mp h
  cases taken with
  | none => cases hr
  | some v =>
    obtain ⟨m, hm, hsend⟩ := Mailbox.takes_iff.mp htaken
    refine ⟨m, (endingMessage_eq hf).trans hm, Reaches.success hd ?_⟩
    have hlinked := hd.verdictSays (J := J) m
    have hsome : (f.worker true m).sends.isSome = true := by
      rw [hsend]
      rfl
    rcases (sends_isSome_iff hf).mp hsome with hv | hv
    · exact hlinked.success.mp hv
    · exact absurd (hlinked.failure.mp hv) ((failsLate_iff hd hf).mp hlate m hm)

/-- A failure that ends the wait is returned as `Ok`. -/
theorem returns_ok_of_failure (hd : DropsValue exitOn) {f : OnMessageFn}
    (hf : extrinsicHandler J exitOn = some f) (hm : Mailbox.firstEnding f.worker msgs = some msg)
    (hfail : Fails J exitOn msg) (xthexPrefixed : String) :
    SendExtrinsicReturns J H xthexPrefixed exitOn msgs (.ok none) := by
  have hv := (hd.verdictSays msg).failure.mpr hfail
  obtain ⟨v, hsend⟩ := Option.isSome_iff_exists.mp ((sends_isSome_iff hf).mpr (Or.inr hv))
  exact (returns_iff hd hf xthexPrefixed).mpr
    ⟨some v, Mailbox.takes_iff.mpr ⟨msg, hm, hsend⟩, rfl⟩

/-- **`send_extrinsic` can be believed on exactly the runs whose failures come late**, for the
milestones whose callers drop the value. -/
theorem sendExtrinsic_honest_iff (hd : DropsValue exitOn) (msgs : List String) :
    Honest J H exitOn msgs ↔ FailsLate J exitOn msgs := by
  obtain ⟨f, hf⟩ := exists_extrinsicHandler (J := J) hd
  constructor
  · intro hh
    rw [failsLate_iff hd hf]
    intro m hm hfail
    -- the failure ends the wait, and its caller still returns `Ok`
    have hret := returns_ok_of_failure (H := H) hd hf hm hfail ""
    obtain ⟨m', hm', hsucc⟩ := (hh "" (.ok none) hret).1 ⟨none, rfl⟩
    rw [endingMessage_eq hf, hm] at hm'
    cases hm'
    exact hfail.not_success hd hsucc
  · intro hlate xthexPrefixed r hr
    refine ⟨?_, ?_⟩
    · rintro ⟨hash, rfl⟩
      exact success_of_returns_ok hd hf hlate hr
    · intro msg hmsg hrefused
      cases r with
      | error e => exact ⟨e, rfl⟩
      | ok hash =>
        obtain ⟨m, hm, hsucc⟩ := success_of_returns_ok hd hf hlate hr
        rw [hmsg] at hm
        cases hm
        exact absurd hsucc hrefused.1

/-- The response of a node that subscribed the extrinsic, and what it reports next. -/
def subscribed : String × Json :=
  ("\x7b\"jsonrpc\":\"2.0\",\"result\":\"sub\",\"id\":\"3\"\x7d",
    .obj [("id", .str "3"), ("jsonrpc", .str "2.0"), ("result", .str "sub")])

/-- A notification that the extrinsic is ready. -/
def readyStatus : String × Json :=
  ("\x7b\"jsonrpc\":\"2.0\",\"method\":\"author_extrinsicUpdate\",\"params\":" ++
      "\x7b\"result\":\"ready\",\"subscription\":\"sub\"\x7d\x7d",
    .obj [("jsonrpc", .str "2.0"), ("method", .str "author_extrinsicUpdate"),
      ("params", .obj [("result", .str "ready"), ("subscription", .str "sub")])])

/-- A notification of a status that carries the hash of a block. -/
def blockNotification (key hash : String) : String × Json :=
  ("\x7b\"jsonrpc\":\"2.0\",\"method\":\"author_extrinsicUpdate\",\"params\":" ++
      "\x7b\"result\":\x7b\"" ++ key ++ "\":\"" ++ hash ++
      "\"\x7d,\"subscription\":\"sub\"\x7d\x7d",
    .obj [("jsonrpc", .str "2.0"), ("method", .str "author_extrinsicUpdate"),
      ("params", .obj [("result", .obj [(key, .str hash)]), ("subscription", .str "sub")])])

/-- The response of a node that refuses the extrinsic. -/
def badSignature : String × Json :=
  ("\x7b\"jsonrpc\":\"2.0\",\"error\":\x7b\"code\":1010,\"message\":\"Invalid Transaction\"," ++
      "\"data\":\"Bad Signature\"\x7d,\"id\":\"3\"\x7d",
    .obj [("error", .obj [("code", .num (.posInt 1010)), ("data", .str "Bad Signature"),
      ("message", .str "Invalid Transaction")]), ("id", .str "3"), ("jsonrpc", .str "2.0")])

/-- A run of a message that leaves the client waiting, and one that reaches the milestone before the
node refuses the extrinsic. -/
theorem sendExtrinsic_honest_iff_ready :
    Honest (Serde.ofTexts [subscribed, readyStatus, badSignature]) Hex.reference .ready
      [subscribed.1, readyStatus.1, badSignature.1] := by
  have hd : DropsValue .ready := Or.inr (Or.inl rfl)
  refine (sendExtrinsic_honest_iff hd _).mpr ((failsLate_cons hd).mpr (Or.inr (Or.inr ⟨?_, ?_⟩)))
  · rw [← (hd.verdictSays _).failure]
    decide
  · refine (failsLate_cons hd).mpr (Or.inl ?_)
    rw [← (hd.verdictSays _).success]
    decide

/-- The node refuses the extrinsic, and `send_extrinsic` returns `Ok`. -/
theorem not_honest_badSignature :
    ¬ Honest (Serde.ofTexts [badSignature]) Hex.reference .broadcast [badSignature.1] := by
  intro hh
  have hd : DropsValue .broadcast := Or.inl rfl
  have hfail : Fails (Serde.ofTexts [badSignature]) .broadcast badSignature.1 := by
    rw [← (hd.verdictSays _).failure]
    decide
  have hm : Mailbox.firstEnding (onExtrinsicMsgUntilBroadcast (Serde.ofTexts [badSignature])).worker
      [badSignature.1] = some badSignature.1 := rfl
  have hret := returns_ok_of_failure (H := Hex.reference) hd rfl hm hfail ""
  obtain ⟨m, hend, hsucc⟩ := (hh "" (.ok none) hret).1 ⟨none, rfl⟩
  cases hend
  exact hfail.not_success hd hsucc

end SubstrateClient.Rpc
