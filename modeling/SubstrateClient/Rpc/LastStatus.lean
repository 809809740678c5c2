import SubstrateClient.Rpc.Milestones

/-!
# The last status of an extrinsic (`rpc/ws_client/mod.rs`)

A node reports the statuses of a watched extrinsic in `author_extrinsicUpdate` notifications. After
some of them it reports nothing more: `finalized`, `finalityTimeout`, `usurped`, `dropped` and
`invalid` (`NodeStatus.Last`). `parse_status` reads five statuses and folds the others into one that
every handler ignores.

* `answers_iff`: on exactly which runs of notifications a handler sends a value and closes the
  connection, so that the caller need not wait: those with `finalized`, `future`, or the handler's
  own milestone. All four handlers do on the runs with `finalized` or `future`.
* `not_answers_dropped`: the node drops the extrinsic, and every caller is left waiting.
-/

namespace SubstrateClient.Rpc

open SubstrateClient.Lib

/-- The statuses a node reports of a watched extrinsic. -/
inductive NodeStatus where
  | future | ready | broadcast | inBlock | retracted
  | finalityTimeout | finalized | usurped | dropped | invalid
  deriving DecidableEq, Repr

namespace NodeStatus

/-- The status in a notification. -/
def name : NodeStatus → String
  | future => "future"
  | ready => "ready"
  | broadcast => "broadcast"
  | inBlock => "inBlock"
  | retracted => "retracted"
  | finalityTimeout => "finalityTimeout"
  | finalized => "finalized"
  | usurped => "usurped"
  | dropped => "dropped"
  | invalid => "invalid"

/-- After it, the node sends nothing more for the subscription. -/
def Last : NodeStatus → Prop
  | finalized | finalityTimeout | usurped | dropped | invalid => True
  | future | ready | broadcast | inBlock | retracted => False

end NodeStatus

/-- An `author_extrinsicUpdate` notification: the status, as a word or with what it carries. -/
structure Update where
  status : NodeStatus
  carries : Option Json
  subscription : Json

namespace Update

/-- The two forms of a status. -/
def result (u : Update) : Json :=
  match u.carries with
  | none => .str u.status.name
  | some v => .obj [(u.status.name, v)]

/-- The notification. -/
def notification (u : Update) : Json :=
  .obj [("jsonrpc", .str "2.0"), ("method", .str "author_extrinsicUpdate"),
    ("params", .obj [("result", u.result), ("subscription", u.subscription)])]

/-- The status is `finalized` with a hash, the word `future`, or the milestone in the form the node
gives it. -/
def EndsWait (a : Milestone) (u : Update) : Prop :=
  match u.status, u.carries with
  | .finalized, some _ | .future, none => True
  | .inBlock, some _ => a = .inBlock
  | .broadcast, some _ => a = .broadcast
  | .ready, none => a = .ready
  | _, _ => False

end Update

/-- The messages are the notifications. -/
def Reports (J : Serde) (msgs : List String) (updates : List Update) : Prop :=
  List.Forall₂ (fun msg u => J.fromStr msg = .ok u.notification) msgs updates

/-- The handler has sent a value and closed the connection by the end of the run, and its caller is
not left waiting. -/
structure Answers (J : Serde) (a : Milestone) (msgs : List String) : Prop where
  finishes : ∃ m ∈ msgs, (a.onMessageFn J true m).sends.isSome = true ∧
    (a.onMessageFn J true m).closes = true
  answered : ¬ Mailbox.LeftWaiting (a.onMessageFn J).worker msgs

variable {J : Serde} {msg : String} {msgs : List String} {u : Update} {updates : List Update}

/-! ## What the handlers make of a notification -/

/-- The status that `parse_status` reads. -/
def Update.xtStatus (u : Update) : XtStatus :=
  match u.status, u.carries with
  | .finalized, some _ => .finalized
  | .inBlock, some _ => .inBlock
  | .broadcast, some _ => .broadcast
  | .ready, none => .ready
  | .future, none => .future
  | _, _ => .unknown

/-- A notification carries one of the five statuses, or an unknown one. -/
theorem carries_xtStatus (h : J.fromStr msg = .ok u.notification) : Carries J u.xtStatus msg := by
  obtain ⟨status, carries, subscription⟩ := u
  refine ⟨_, h, Bool.false_ne_true, (readStatus_fst (J := J)).mp ?_⟩
  cases carries <;> cases status <;> rfl

theorem endsWait_iff {a : Milestone} :
    u.EndsWait a ↔ u.xtStatus = .finalized ∨ u.xtStatus = .future ∨ u.xtStatus = a.status := by
  obtain ⟨status, carries, subscription⟩ := u
  cases carries <;> cases status <;> cases a <;>
    simp [Update.EndsWait, Update.xtStatus, Milestone.status]

/-- **A notification ends the wait by its status.** -/
theorem ends_notification (h : J.fromStr msg = .ok u.notification) (a : Milestone) :
    Mailbox.ends (a.onMessageFn J).worker msg = true ↔ u.EndsWait a := by
  have hcarries : Carries J a.status msg ↔ u.xtStatus = a.status :=
    ⟨(carries_xtStatus h).unique, fun hs => hs ▸ carries_xtStatus h⟩
  rw [ends_iff, endsAll_of_carries (carries_xtStatus h), hcarries, endsWait_iff, or_assoc]

/-- A handler that sends a value closes the connection. -/
theorem closes_of_sends (a : Milestone) (h : (a.onMessageFn J true msg).sends.isSome = true) :
    (a.onMessageFn J true msg).closes = true := by
  have huntil : ∀ val, (onExtrinsicMsgUntil J val true msg).sends.isSome = true →
      (onExtrinsicMsgUntil J val true msg).closes = true := by
    intro val hsends
    unfold onExtrinsicMsgUntil at hsends ⊢
    cases hparse : parseStatus J msg with
    | ok r =>
      obtain ⟨s, x⟩ := r
      simp only [hparse] at hsends ⊢
      cases hval : val s x with
      | none =>
        rw [hval] at hsends
        cases hsends
      | some value => rfl
    | err e => rfl
    | panic m =>
      rw [hparse] at hsends
      cases hsends
    | outOfFuel =>
      rw [hparse] at hsends
      cases hsends
  cases a <;> exact huntil _ h

/-- A notification does not crash a handler, so what ends the wait is a value. -/
theorem sends_notification (h : J.fromStr msg = .ok u.notification) (a : Milestone) :
    (a.onMessageFn J true msg).sends.isSome = true ↔ u.EndsWait a := by
  rw [← ends_notification h a]
  obtain ⟨x, hx⟩ := carries_iff.mp (carries_xtStatus h)
  have hf := extrinsicHandler_status (J := J) a
  have hcrash : verdict J a.status msg ≠ .crash := by
    rw [verdict_status, hx, watchVerdict]
    split_ifs <;> simp
  have hends : Mailbox.ends (a.onMessageFn J).worker msg = true ↔
      verdict J a.status msg ≠ .wait := by
    rw [← Bool.not_eq_false, Ne, ← ends_eq_false_iff hf]
  have hsends : (a.onMessageFn J true msg).sends.isSome = true ↔ _ := sends_isSome_iff hf
  rw [hsends, hends]
  cases hv : verdict J a.status msg with
  | wait => simp
  | success => simp
  | failure => simp
  | crash => exact absurd hv hcrash

/-! ## Which runs are answered -/

/-- A message of the run and a notification of the run are one. -/
theorem Reports.exists_iff (h : Reports J msgs updates) {P : String → Prop} {Q : Update → Prop}
    (hPQ : ∀ msg u, J.fromStr msg = .ok u.notification → (P msg ↔ Q u)) :
    (∃ m ∈ msgs, P m) ↔ ∃ u ∈ updates, Q u := by
  induction h with
  | nil => simp
  | cons hu _ ih => simp only [List.exists_mem_cons_iff, hPQ _ _ hu, ih]

/-- **A handler answers exactly on the runs with a status it ends on.** -/
theorem Reports.answers_iff_exists (h : Reports J msgs updates) (a : Milestone) :
    Answers J a msgs ↔ ∃ u ∈ updates, u.EndsWait a := by
  have hends := h.exists_iff fun msg u hu => ends_notification hu a
  have hsends := h.exists_iff fun msg u hu => sends_notification hu a
  constructor
  · intro hans
    obtain ⟨m, hm, hsend, -⟩ := hans.finishes
    exact hsends.mp ⟨m, hm, hsend⟩
  · intro hu
    obtain ⟨m, hm, hsend⟩ := hsends.mpr hu
    obtain ⟨m', hm', hend⟩ := hends.mpr hu
    refine ⟨⟨m, hm, hsend, closes_of_sends a hsend⟩, fun hwait => ?_⟩
    rw [Mailbox.leftWaiting_iff.mp hwait m' hm'] at hend
    cases hend

/-- **Which runs are answered**: by a handler, those with `finalized`, `future` or its own
milestone; by all four, those with `finalized` or `future`. -/
theorem answers_iff (h : Reports J msgs updates) :
    (∀ a, Answers J a msgs ↔ ∃ u ∈ updates, u.EndsWait a) ∧
    ((∀ a, Answers J a msgs) ↔ ∃ u ∈ updates, ∀ a, u.EndsWait a) := by
  refine ⟨h.answers_iff_exists, fun hall => ?_, fun ⟨u, hu, hends⟩ a => ?_⟩
  · -- what ends the wait for `finalized` ends every wait
    obtain ⟨u, hu, hend⟩ := (h.answers_iff_exists .finalized).mp (hall .finalized)
    refine ⟨u, hu, fun a => endsWait_iff.mpr ?_⟩
    rcases endsWait_iff.mp hend with hs | hs | hs
    · exact Or.inl hs
    · exact Or.inr (Or.inl hs)
    · exact Or.inl hs
  · exact (h.answers_iff_exists a).mpr ⟨u, hu, hends a⟩

/-! ## Two runs -/

/-- The extrinsic is dropped. -/
def droppedUpdate : Update := ⟨.dropped, none, .str "sub"⟩

/-- The extrinsic is in a finalized block. -/
def finalizedUpdate : Update :=
  ⟨.finalized, some (.str "0x934385b11c483498e2b5bca64c2e8ef76ad6c74d3372a05595d3a50caf758d52"),
    .str "sub"⟩

/-- The text of a notification. -/
def Update.text (u : Update) : String × Json :=
  (String.ofList u.notification.render, u.notification)

theorem reports_text (u : Update) : Reports (Serde.ofTexts [u.text]) [u.text.1] [u] :=
  .cons (Serde.fromStr_ofTexts_self u.text) .nil

/-- `answers_iff` on a run that ends with `finalized`. -/
theorem answers_iff_finalized : finalizedUpdate.status.Last ∧
    ∀ a, Answers (Serde.ofTexts [finalizedUpdate.text]) a [finalizedUpdate.text.1] :=
  ⟨trivial, (answers_iff (reports_text finalizedUpdate)).2.mpr
    ⟨finalizedUpdate, List.mem_cons_self, fun _ => trivial⟩⟩

/-- **The node drops the extrinsic, and no handler answers**: nothing more comes, and every caller
is left waiting. -/
theorem not_answers_dropped : droppedUpdate.status.Last ∧
    Reports (Serde.ofTexts [droppedUpdate.text]) [droppedUpdate.text.1] [droppedUpdate] ∧
    ∀ a : Milestone, ¬ Answers (Serde.ofTexts [droppedUpdate.text]) a [droppedUpdate.text.1] ∧
      Mailbox.LeftWaiting (a.onMessageFn (Serde.ofTexts [droppedUpdate.text])).worker
        [droppedUpdate.text.1] := by
  have h := reports_text droppedUpdate
  refine ⟨trivial, h, fun a => ⟨fun hans => ?_, Mailbox.leftWaiting_iff.mpr fun m hm => ?_⟩⟩
  · obtain ⟨u, hu, hend⟩ := (h.answers_iff_exists a).mp hans
    rw [List.mem_singleton.mp hu] at hend
    exact hend
  · rw [List.mem_singleton.mp hm, ← Bool.not_eq_true]
    exact fun hend => (ends_notification (Serde.fromStr_ofTexts_self droppedUpdate.text) a).mp hend

end SubstrateClient.Rpc
