import SubstrateClient.Lib.Mailbox
import SubstrateClient.Lib.Outcome
import SubstrateClient.Rpc.Json

/-!
# The message handlers (`rpc/ws_client/mod.rs`)

A handler is called with every text message of a connection. It may close the connection, send a
value to the thread that waits for the request, and return an error to the websocket library, which
reports it and goes on; a panic unwinds and ends the connection's thread.

`parse_status` reads a message of a watched extrinsic. The handlers that wait for a milestone of an
extrinsic differ in the statuses they end on (`onExtrinsicMsgUntil`).

A reply is what the handler did, given whether the receiver is still there: a value sent to a
receiver that is gone is handed back in the error.
-/

namespace SubstrateClient.Rpc

open SubstrateClient.Lib

/-- `XtStatus`. -/
inductive XtStatus where
  | finalized | inBlock | broadcast | ready | future | submitOnly | error | unknown
  deriving DecidableEq, Repr

/-- `RpcClientError`. -/
inductive RpcClientError where
  | serde (e : String)
  | extrinsic (msg : String)
  | send (value : String)
  deriving DecidableEq, Repr

/-! ## Reading a response -/

/-- `.map_or_else(|| default, |v| view(v).unwrap())`. -/
def memberOr {α : Type} (members : List (String × Json)) (key : String) (default : α)
    (view : Json → Option α) : Outcome RpcClientError α :=
  match members.lookup key with
  | none => .ok default
  | some v =>
    match view v with
    | some a => .ok a
    | none => .panic "called `Option::unwrap()` on a `None` value"

/-- `into_extrinsic_err`. -/
def intoExtrinsicErr (respWithErr : Json) : Outcome RpcClientError RpcClientError :=
  match (respWithErr.index "error").asObject with
  | none => .panic "called `Option::unwrap()` on a `None` value"
  | some errObj => do
    let error ← memberOr errObj "message" "" Json.asStr
    let code ← memberOr errObj "code" (-1) Json.asI64
    let details ← memberOr errObj "data" "" Json.asStr
    .ok (.extrinsic s!"extrinsic error code {code}: {error}: {details}")

section Parse

variable (J : Serde)

/-- `serde_json::from_str(msg)?`. -/
def parseJson (msg : String) : Outcome RpcClientError Json :=
  Outcome.ofExcept .serde (J.fromStr msg)

/-- The status a message carries, when it is an object. -/
def objectStatus (obj : List (String × Json)) : XtStatus × Option String :=
  match obj.lookup "finalized" with
  | some hash => (.finalized, some (J.toString hash))
  | none =>
    match obj.lookup "inBlock" with
    | some hash => (.inBlock, some (J.toString hash))
    | none =>
      match obj.lookup "broadcast" with
      | some array => (.broadcast, some (J.toString array))
      | none => (.unknown, none)

/-- The status a message carries, when it is a word. -/
def wordStatus : Option String → XtStatus × Option String
  | some "ready" => (.ready, none)
  | some "future" => (.future, none)
  | some _ => (.unknown, none)
  | none => (.unknown, none)

/-- `parse_status`. -/
def parseStatus (msg : String) : Outcome RpcClientError (XtStatus × Option String) := do
  let value ← parseJson J msg
  if (value.index "error").asObject.isSome then do
    let e ← intoExtrinsicErr value
    .err e
  else
    let result := (value.index "params").index "result"
    match result.asObject with
    | some obj => .ok (objectStatus J obj)
    | none => .ok (wordStatus result.asStr)

/-- `result_from_json_response`. -/
def resultFromJsonResponse (resp : String) : Outcome RpcClientError String := do
  let value ← parseJson J resp
  match (value.index "result").asStr with
  | some s => .ok s
  | none => do
    let e ← intoExtrinsicErr value
    .err e

end Parse

/-! ## What a parsed message says -/

/-- The status a notification reports. -/
def Json.status (v : Json) : Json := (v.index "params").index "result"

/-- The status is an object with the member. -/
def Json.Reports (v : Json) (key : String) : Prop := (v.status.get key).isSome = true

/-- The message is a JSON-RPC error. -/
def Json.IsError (v : Json) : Prop := (v.index "error").asObject.isSome = true

/-- The error is an object whose members have the types that are written into its text. -/
def Json.FormatsError (v : Json) : Prop :=
  ∃ obj, (v.index "error").asObject = some obj ∧
    (∀ x ∈ obj.lookup "message", x.asStr.isSome = true) ∧
    (∀ x ∈ obj.lookup "code", x.asI64.isSome = true) ∧
    ∀ x ∈ obj.lookup "data", x.asStr.isSome = true

/-- The status is this one: a member of its name, and no member that goes before it, or its word. -/
def Json.HasStatus (v : Json) : XtStatus → Prop
  | .finalized => v.Reports "finalized"
  | .inBlock => ¬ v.Reports "finalized" ∧ v.Reports "inBlock"
  | .broadcast => ¬ v.Reports "finalized" ∧ ¬ v.Reports "inBlock" ∧ v.Reports "broadcast"
  | .ready => v.status.asStr = some "ready"
  | .future => v.status.asStr = some "future"
  | .unknown => ¬ v.Reports "finalized" ∧ ¬ v.Reports "inBlock" ∧ ¬ v.Reports "broadcast" ∧
      v.status.asStr ≠ some "ready" ∧ v.status.asStr ≠ some "future"
  | .submitOnly | .error => False

section Messages

variable (J : Serde)

/-- The message carries the status. -/
def Carries (s : XtStatus) (msg : String) : Prop :=
  ∃ v, J.fromStr msg = .ok v ∧ ¬ v.IsError ∧ v.HasStatus s

/-- The message is one every wait for a milestone ends on: not JSON, an error, `finalized` or
`future`. -/
def EndsAll (msg : String) : Prop :=
  ∀ v, J.fromStr msg = .ok v → v.IsError ∨ v.HasStatus .finalized ∨ v.HasStatus .future

end Messages

section ParsedMessages

variable {J : Serde} {msg : String} {v : Json}

theorem get_of_asObject {obj : List (String × Json)} (h : v.asObject = some obj)
    (key : String) : v.get key = obj.lookup key := by
  cases v <;> cases h
  rfl

theorem get_of_asObject_none (h : v.asObject = none) (key : String) : v.get key = none := by
  cases v <;> first | rfl | cases h

theorem asStr_of_asObject {obj : List (String × Json)} (h : v.asObject = some obj) :
    v.asStr = none := by
  cases v <;> cases h
  rfl

/-- What `parse_status` reads off a notification. -/
def Json.readStatus (J : Serde) (v : Json) : XtStatus × Option String :=
  match v.status.asObject with
  | some members => objectStatus J members
  | none => wordStatus v.status.asStr

/-- **`parse_status` reads the status.** -/
theorem readStatus_fst {s : XtStatus} : (v.readStatus J).1 = s ↔ v.HasStatus s := by
  unfold Json.readStatus Json.HasStatus Json.Reports
  cases hobj : v.status.asObject with
  | some obj =>
    simp only [get_of_asObject hobj, asStr_of_asObject hobj]
    unfold objectStatus
    cases obj.lookup "finalized" with
    | some hash => cases s <;> simp
    | none =>
      cases obj.lookup "inBlock" with
      | some hash => cases s <;> simp
      | none => cases obj.lookup "broadcast" <;> cases s <;> simp
  | none =>
    simp only [get_of_asObject_none hobj]
    unfold wordStatus
    split
    · rename_i hw
      rw [hw]
      cases s <;> simp
    · rename_i hw
      rw [hw]
      cases s <;> simp
    · rename_i w hready hfuture hw
      have hother : ¬ w = "ready" ∧ ¬ w = "future" := ⟨hready, hfuture⟩
      rw [hw]
      cases s <;> simp [hother]
    · rename_i hw
      rw [hw]
      cases s <;> simp

/-- A message has one status. -/
theorem Json.HasStatus.unique (J : Serde) {s s' : XtStatus} (h : v.HasStatus s)
    (h' : v.HasStatus s') : s = s' := by
  have hread := (readStatus_fst (J := J)).mpr h
  rw [readStatus_fst.mpr h'] at hread
  exact hread.symm

/-- What `parse_status` makes of a parsed message. -/
theorem parseStatus_of_fromStr (hv : J.fromStr msg = .ok v) :
    (v.IsError → parseStatus J msg = intoExtrinsicErr v >>= fun e => .err e) ∧
    (¬ v.IsError → parseStatus J msg = .ok (v.readStatus J)) := by
  unfold parseStatus parseJson
  rw [hv]
  simp only [Outcome.ofExcept_ok, Outcome.ok_bind]
  refine ⟨fun herr => if_pos herr, fun herr => (if_neg herr).trans ?_⟩
  unfold Json.readStatus
  show (match v.status.asObject with
    | some obj => .ok (objectStatus J obj)
    | none => .ok (wordStatus v.status.asStr) : Outcome RpcClientError _) = _
  cases v.status.asObject <;> rfl

/-- A text that is not JSON is an error. -/
theorem parseStatus_of_error {e : String} (he : J.fromStr msg = .error e) :
    parseStatus J msg = .err (.serde e) := by
  unfold parseStatus parseJson
  rw [he]
  rfl

theorem parseStatus_eq_ok {r : XtStatus × Option String} :
    parseStatus J msg = .ok r ↔ ∃ v, J.fromStr msg = .ok v ∧ ¬ v.IsError ∧ r = v.readStatus J := by
  cases hv : J.fromStr msg with
  | error e => simp [parseStatus_of_error hv]
  | ok v =>
    simp only [Except.ok.injEq, exists_eq_left']
    by_cases herr : v.IsError
    · rw [(parseStatus_of_fromStr hv).1 herr]
      constructor
      · intro h
        obtain ⟨e, -, he⟩ := Outcome.bind_eq_ok.mp h
        cases he
      · intro h
        exact absurd herr h.1
    · rw [(parseStatus_of_fromStr hv).2 herr, Outcome.ok.injEq]
      exact ⟨fun h => ⟨herr, h.symm⟩, fun h => h.2.symm⟩

/-- **A status is parsed iff the message carries it.** -/
theorem carries_iff {s : XtStatus} : Carries J s msg ↔ ∃ x, parseStatus J msg = .ok (s, x) := by
  simp only [parseStatus_eq_ok]
  constructor
  · rintro ⟨v, hv, herr, hs⟩
    exact ⟨(v.readStatus J).2, v, hv, herr, Prod.ext (readStatus_fst.mpr hs).symm rfl⟩
  · rintro ⟨x, v, hv, herr, hr⟩
    exact ⟨v, hv, herr, readStatus_fst.mp (congrArg Prod.fst hr).symm⟩

/-- A message carries one status. -/
theorem Carries.unique {s s' : XtStatus} (h : Carries J s msg) (h' : Carries J s' msg) :
    s = s' := by
  obtain ⟨v, hv, -, hs⟩ := h
  obtain ⟨v', hv', -, hs'⟩ := h'
  rw [hv] at hv'
  cases hv'
  exact hs.unique J hs'

theorem endsAll_of_carries {s : XtStatus} (h : Carries J s msg) :
    EndsAll J msg ↔ s = .finalized ∨ s = .future := by
  obtain ⟨v, hv, herr, hs⟩ := h
  unfold EndsAll
  simp only [hv, Except.ok.injEq, forall_eq', herr, false_or]
  constructor
  · exact Or.imp (hs.unique J) (hs.unique J)
  · rintro (rfl | rfl)
    · exact Or.inl hs
    · exact Or.inr hs

/-- A message that carries no status ends every wait. -/
theorem endsAll_of_forall_not_carries (h : ∀ s, ¬ Carries J s msg) : EndsAll J msg := by
  intro v hv
  by_contra hend
  push Not at hend
  exact h (v.readStatus J).1 ⟨v, hv, hend.1, readStatus_fst.mp rfl⟩

/-- A member is read when it is missing or has the type. -/
theorem memberOr_returns {α : Type} {members : List (String × Json)} {key : String} {default : α}
    {view : Json → Option α} : (memberOr members key default view).Returns ↔
      ∀ x ∈ members.lookup key, (view x).isSome = true := by
  unfold memberOr
  cases members.lookup key with
  | none => simp
  | some x => cases hview : view x <;> simp [hview]

theorem exists_memberOr {α : Type} {members : List (String × Json)} {key : String} (default : α)
    {view : Json → Option α} (h : ∀ x ∈ members.lookup key, (view x).isSome = true) :
    ∃ a, memberOr members key default view = .ok a := by
  unfold memberOr
  cases hl : members.lookup key with
  | none => exact ⟨default, rfl⟩
  | some x =>
    obtain ⟨a, ha⟩ := Option.isSome_iff_exists.mp (h x hl)
    exact ⟨a, by simp [ha]⟩

/-- **The error formatter returns iff the error has the types it unwraps.** -/
theorem intoExtrinsicErr_returns : (intoExtrinsicErr v).Returns ↔ v.FormatsError := by
  unfold intoExtrinsicErr Json.FormatsError
  cases (v.index "error").asObject with
  | none => simp
  | some obj =>
    simp only [Outcome.returns_bind, memberOr_returns, Outcome.returns_ok, Option.some.injEq,
      exists_eq_left']
    constructor
    · rintro ⟨hmessage, h⟩
      obtain ⟨error, herror⟩ := exists_memberOr "" hmessage
      obtain ⟨hcode, h⟩ := h error herror
      obtain ⟨code, hcode'⟩ := exists_memberOr (-1) hcode
      exact ⟨hmessage, hcode, (h code hcode').1⟩
    · rintro ⟨hmessage, hcode, hdata⟩
      exact ⟨hmessage, fun _ _ => ⟨hcode, fun _ _ => ⟨hdata, fun _ _ => trivial⟩⟩⟩

/-- The formatter hands back an error or panics. -/
theorem intoExtrinsicErr_cases (v : Json) :
    (v.FormatsError ∧ ∃ e, intoExtrinsicErr v = .ok e) ∨
      (¬ v.FormatsError ∧ ∃ m, intoExtrinsicErr v = .panic m) := by
  rw [← intoExtrinsicErr_returns]
  have hmember : ∀ {α : Type} (members : List (String × Json)) (key : String) (default : α)
      (view : Json → Option α), (∃ a, memberOr members key default view = .ok a) ∨
        ∃ m, memberOr members key default view = .panic m := by
    intro α members key default view
    unfold memberOr
    cases members.lookup key with
    | none => exact Or.inl ⟨_, rfl⟩
    | some x => cases hview : view x <;> simp [hview]
  unfold intoExtrinsicErr
  cases (v.index "error").asObject with
  | none => simp
  | some obj =>
    rcases hmember obj "message" "" Json.asStr with ⟨error, h⟩ | ⟨m, h⟩
    · rcases hmember obj "code" (-1) Json.asI64 with ⟨code, h'⟩ | ⟨m, h'⟩
      · rcases hmember obj "data" "" Json.asStr with ⟨details, h''⟩ | ⟨m, h''⟩ <;> simp [h, h', h'']
      · simp [h, h']
    · simp [h]

/-- **What `parse_status` makes of a text.** -/
theorem parseStatus_cases (J : Serde) (msg : String) :
    (∃ e, J.fromStr msg = .error e ∧ parseStatus J msg = .err (.serde e)) ∨
    (∃ v, J.fromStr msg = .ok v ∧ v.IsError ∧ v.FormatsError ∧
      ∃ e, parseStatus J msg = .err e) ∨
    (∃ v, J.fromStr msg = .ok v ∧ v.IsError ∧ ¬ v.FormatsError ∧
      ∃ m, parseStatus J msg = .panic m) ∨
    ∃ v, J.fromStr msg = .ok v ∧ ¬ v.IsError ∧ parseStatus J msg = .ok (v.readStatus J) := by
  cases hv : J.fromStr msg with
  | error e => exact Or.inl ⟨e, rfl, parseStatus_of_error hv⟩
  | ok v =>
    by_cases herr : v.IsError
    · have hparse := (parseStatus_of_fromStr hv).1 herr
      rcases intoExtrinsicErr_cases v with ⟨hform, e, he⟩ | ⟨hform, m, hm⟩
      · rw [he] at hparse
        exact Or.inr (Or.inl ⟨v, rfl, herr, hform, e, hparse⟩)
      · rw [hm] at hparse
        exact Or.inr (Or.inr (Or.inl ⟨v, rfl, herr, hform, m, hparse⟩))
    · exact Or.inr (Or.inr (Or.inr ⟨v, rfl, herr, (parseStatus_of_fromStr hv).2 herr⟩))

/-- **What `result_from_json_response` makes of a text.** -/
theorem resultFromJsonResponse_cases (J : Serde) (msg : String) :
    (∃ e, J.fromStr msg = .error e ∧ resultFromJsonResponse J msg = .err (.serde e)) ∨
    (∃ v s, J.fromStr msg = .ok v ∧ (v.index "result").asStr = some s ∧
      resultFromJsonResponse J msg = .ok s) ∨
    (∃ v, J.fromStr msg = .ok v ∧ (v.index "result").asStr = none ∧ v.FormatsError ∧
      ∃ e, resultFromJsonResponse J msg = .err e) ∨
    ∃ v, J.fromStr msg = .ok v ∧ (v.index "result").asStr = none ∧ ¬ v.FormatsError ∧
      ∃ m, resultFromJsonResponse J msg = .panic m := by
  unfold resultFromJsonResponse parseJson
  cases hv : J.fromStr msg with
  | error e => simp
  | ok v =>
    cases hs : (v.index "result").asStr with
    | some s => simp [hs]
    | none =>
      rcases intoExtrinsicErr_cases v with ⟨hform, e, he⟩ | ⟨hform, m, hm⟩
      · simp [hs, he, hform]
      · simp [hs, hm, hform]

end ParsedMessages

/-! ## Handlers -/

/-- What a handler did with a message. -/
structure WsReply where
  closes : Bool
  sends : Option String
  ret : Outcome RpcClientError Unit
  deriving DecidableEq, Repr

/-- A handler: told whether the receiver is still there. -/
abbrev OnMessageFn := Bool → String → WsReply

/-- `result.send(value)`. -/
def sendResult (closes alive : Bool) (value : String) : WsReply :=
  if alive then ⟨closes, some value, .ok ()⟩ else ⟨closes, none, .err (.send value)⟩

/-- `end_process`. -/
def endProcess (alive : Bool) (value : Option String) : WsReply :=
  sendResult true alive (value.getD "")

/-- `end_process(out, result, None)?; Err(e)`. -/
def endProcessWith (alive : Bool) (e : RpcClientError) : WsReply :=
  let r := endProcess alive none
  match r.ret with
  | .ok () => { r with ret := .err e }
  | _ => r

section Handlers

variable (J : Serde)

/-- The handlers that wait for a milestone: `val` tells which statuses end the wait, and with what
value. -/
def onExtrinsicMsgUntil (val : XtStatus → Option String → Option (Option String)) : OnMessageFn :=
  fun alive msg =>
    match parseStatus J msg with
    | .ok (status, v) =>
      match val status v with
      | some value => endProcess alive value
      | none => ⟨false, none, .ok ()⟩
    | .err e => endProcessWith alive e
    | .panic m => ⟨false, none, .panic m⟩
    | .outOfFuel => ⟨false, none, .outOfFuel⟩

/-- `on_extrinsic_msg_until_finalized`. -/
def onExtrinsicMsgUntilFinalized : OnMessageFn :=
  onExtrinsicMsgUntil J fun
    | .finalized, val => some val
    | .future, _ => some none
    | _, _ => none

/-- `on_extrinsic_msg_until_in_block`. -/
def onExtrinsicMsgUntilInBlock : OnMessageFn :=
  onExtrinsicMsgUntil J fun
    | .finalized, val => some val
    | .inBlock, val => some val
    | .future, _ => some none
    | _, _ => none

/-- `on_extrinsic_msg_until_broadcast`. -/
def onExtrinsicMsgUntilBroadcast : OnMessageFn :=
  onExtrinsicMsgUntil J fun
    | .finalized, val => some val
    | .broadcast, _ => some none
    | .future, _ => some none
    | _, _ => none

/-- `on_extrinsic_msg_until_ready`. -/
def onExtrinsicMsgUntilReady : OnMessageFn :=
  onExtrinsicMsgUntil J fun
    | .finalized, val => some val
    | .ready, _ => some none
    | .future, _ => some none
    | _, _ => none

/-- `on_extrinsic_msg_submit_only`. -/
def onExtrinsicMsgSubmitOnly : OnMessageFn := fun alive msg =>
  match resultFromJsonResponse J msg with
  | .ok val => endProcess alive (some val)
  | .err e => endProcessWith alive e
  | .panic m => ⟨false, none, .panic m⟩
  | .outOfFuel => ⟨false, none, .outOfFuel⟩

/-- `on_get_request_msg`. -/
def onGetRequestMsg : OnMessageFn := fun alive msg =>
  match J.fromStr msg with
  | .ok v => sendResult true alive (J.toString (v.index "result"))
  | .error e => ⟨true, none, .err (.serde e)⟩

/-- A value of a subscription: the connection is closed when the receiver is gone. -/
def sendOrClose (alive : Bool) (value : String) : WsReply :=
  if alive then ⟨false, some value, .ok ()⟩ else ⟨true, none, .ok ()⟩

/-- `on_subscription_msg`. -/
def onSubscriptionMsg : OnMessageFn := fun alive msg =>
  match J.fromStr msg with
  | .error e => ⟨false, none, .err (.serde e)⟩
  | .ok value =>
    match (value.index "id").asStr with
    | some _ => ⟨false, none, .ok ()⟩
    | none =>
      match (value.index "method").asStr with
      | some "state_storage" =>
        let changes := ((value.index "params").index "result").index "changes"
        match ((changes.item 0).item 1).asStr with
        | some changeSet => sendOrClose alive changeSet
        | none => ⟨false, none, .ok ()⟩
      | some "chain_finalizedHead" =>
        sendOrClose alive (J.toString ((value.index "params").index "result"))
      | _ => ⟨false, none, .ok ()⟩

end Handlers

/-- The handler as the worker of a connection: a panic ends the thread. -/
def OnMessageFn.worker (f : OnMessageFn) : Handler String String := fun alive msg =>
  let r := f alive msg
  { sends := r.sends
    stops :=
      match r.ret with
      | .ok () | .err _ => false
      | _ => true }

end SubstrateClient.Rpc
