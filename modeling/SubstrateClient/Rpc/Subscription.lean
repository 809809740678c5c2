import SubstrateClient.Rpc.Handlers

/-!
# What a subscription delivers (`rpc/ws_client/mod.rs`)

`on_subscription_msg` stays for the whole subscription: it sends what a notification carries, and
keeps the connection open as long as the receiver is there (`Subscriber.run_eq`). A `state_storage`
notification carries a list of changes, one for each key that was subscribed and has changed; the
handler looks at the first.

* `delivers_iff`: everything the notifications carry is sent, in order and once, exactly on the runs
  in which no change after the first has a value, and no message with an id that is not a string
  looks like a notification.
* `not_delivers_two`: two keys change at once, and one of the values is lost.
-/

namespace SubstrateClient.Rpc

open SubstrateClient.Lib

/-! ## What a message carries -/

/-- `null`, or missing. -/
def Json.isNull : Json → Bool
  | .null => true
  | _ => false

/-- The message has an id: it is a response. -/
def Json.hasId (v : Json) : Bool := !(v.index "id").isNull

/-- The method a notification is about. -/
def Json.method (v : Json) : Option String := (v.index "method").asStr

/-- The changes a storage notification lists: pairs of a key and a value or `null`. -/
def Json.changes (v : Json) : List Json :=
  match ((v.index "params").index "result").index "changes" with
  | .arr elems => elems
  | _ => []

/-- The value of a change. -/
def changeValue (change : Json) : Option String := (change.item 1).asStr

/-- By the method of a notification, what there is of a change of storage or of a finalized head. -/
def byMethod (method : Option String) (storage head : List String) : List String :=
  if method = some "state_storage" then storage
  else if method = some "chain_finalizedHead" then head
  else []

section Carries

variable (J : Serde)

/-- The text of the header in a notification. -/
def Json.headText (v : Json) : String := J.toString ((v.index "params").index "result")

/-- What a parsed message carries for the subscriber. -/
def Json.carried (v : Json) : List String :=
  if v.hasId then [] else byMethod v.method (v.changes.filterMap changeValue) [v.headText J]

/-- What a message carries for the subscriber. -/
def owed (msg : String) : List String :=
  match J.fromStr msg with
  | .ok v => v.carried J
  | .error _ => []

end Carries

/-! ## Runs -/

/-- The connection of a subscription, and what is on the channel. -/
structure Subscriber where
  closed : Bool
  sent : List String
  deriving DecidableEq, Repr

namespace Subscriber

variable (J : Serde)

/-- A message is handled while the receiver is there. -/
def onMessage (s : Subscriber) (msg : String) : Subscriber :=
  if s.closed then s
  else
    let r := onSubscriptionMsg J true msg
    ⟨r.closes || ((onSubscriptionMsg J).worker true msg).stops, s.sent ++ r.sends.toList⟩

/-- The messages of a run. -/
def run (msgs : List String) : Subscriber := msgs.foldl (onMessage J) ⟨false, []⟩

end Subscriber

/-- At every point of the run, what was sent is what the messages carried, in order and once. -/
def Delivers (J : Serde) (msgs : List String) : Prop :=
  ∀ pre, pre <+: msgs → (Subscriber.run J pre).sent = pre.flatMap (owed J)

/-- No change after the first has a value. -/
def Json.OneChange (v : Json) : Prop :=
  v.hasId = false → v.method = some "state_storage" → ∀ e ∈ v.changes.tail, changeValue e = none

/-- A message whose id is not a string does not look like a notification. -/
def Json.NoOddId (v : Json) : Prop :=
  v.hasId = true → (v.index "id").asStr = none →
    v.method ≠ some "chain_finalizedHead" ∧
      (v.method = some "state_storage" → ∀ e ∈ v.changes.head?, changeValue e = none)

variable {J : Serde} {msg : String} {msgs : List String}

/-! ## What the handler sends -/

/-- The handler neither closes the connection nor panics while the receiver is there. -/
theorem onSubscriptionMsg_stays (msg : String) : (onSubscriptionMsg J true msg).closes = false ∧
    ((onSubscriptionMsg J).worker true msg).stops = false := by
  unfold OnMessageFn.worker onSubscriptionMsg sendOrClose
  cases J.fromStr msg with
  | error e => exact ⟨rfl, rfl⟩
  | ok v =>
    dsimp only
    split
    · exact ⟨rfl, rfl⟩
    · split
      · split <;> exact ⟨rfl, rfl⟩
      · exact ⟨rfl, rfl⟩
      · exact ⟨rfl, rfl⟩

/-- What the handler sends. -/
def sentBy (J : Serde) (msg : String) : List String := (onSubscriptionMsg J true msg).sends.toList

theorem Subscriber.onMessage_eq (q : List String) (msg : String) :
    Subscriber.onMessage J ⟨false, q⟩ msg = ⟨false, q ++ sentBy J msg⟩ := by
  obtain ⟨hcloses, hstops⟩ := onSubscriptionMsg_stays (J := J) msg
  unfold Subscriber.onMessage
  simp only [Bool.false_eq_true, if_false, hcloses, hstops, Bool.or_false]
  rfl

/-- **A run sends what the handler sends on each message.** -/
theorem Subscriber.run_eq (msgs : List String) :
    Subscriber.run J msgs = ⟨false, msgs.flatMap (sentBy J)⟩ := by
  have hrun : ∀ q, msgs.foldl (Subscriber.onMessage J) ⟨false, q⟩ =
      ⟨false, q ++ msgs.flatMap (sentBy J)⟩ := by
    induction msgs with
    | nil => intro q; simp
    | cons msg msgs ih =>
      intro q
      rw [List.foldl_cons, Subscriber.onMessage_eq, ih, List.flatMap_cons, List.append_assoc]
  exact hrun []

/-- The first change is the one the handler looks at. -/
theorem changeValue_item_zero (v : Json) :
    ((((v.index "params").index "result").index "changes").item 0 |>.item 1).asStr =
      v.changes.head?.bind changeValue := by
  unfold Json.changes changeValue
  cases ((v.index "params").index "result").index "changes" with
  | arr elems => cases elems <;> rfl
  | _ => rfl

/-- What is sent for a parsed message. -/
theorem sentBy_eq {v : Json} (hv : J.fromStr msg = .ok v) :
    sentBy J msg =
      if (v.index "id").asStr.isSome then []
      else byMethod v.method (v.changes.head?.bind changeValue).toList [v.headText J] := by
  unfold sentBy onSubscriptionMsg Json.method
  simp only [hv, changeValue_item_zero]
  cases (v.index "id").asStr with
  | some s => rfl
  | none =>
    simp only [Option.isSome_none, Bool.false_eq_true, if_false]
    generalize (v.index "method").asStr = method
    unfold byMethod
    split
    · rw [if_pos rfl]
      cases v.changes.head?.bind changeValue <;> rfl
    · rfl
    · rename_i hstorage hhead
      rw [if_neg hstorage, if_neg hhead]
      rfl

/-- A string is not `null`. -/
theorem hasId_of_asStr {v : Json} (h : (v.index "id").asStr.isSome = true) : v.hasId = true := by
  unfold Json.hasId
  cases hid : v.index "id" <;> rw [hid] at h <;> simp_all [Json.asStr, Json.isNull]

/-- The first change stands for all when no other has a value. -/
theorem filterMap_eq_head_iff (changes : List Json) :
    (changes.head?.bind changeValue).toList = changes.filterMap changeValue ↔
      ∀ e ∈ changes.tail, changeValue e = none := by
  cases changes with
  | nil => simp
  | cons e es =>
    have hnil : es.filterMap changeValue = [] ↔ ∀ e ∈ es, changeValue e = none :=
      List.filterMap_eq_nil_iff
    rw [List.tail_cons, ← hnil, List.head?_cons, Option.bind_some, List.filterMap_cons]
    cases changeValue e with
    | none => exact eq_comm
    | some value => simp [eq_comm]

theorem byMethod_eq_iff {method : Option String} {storage storage' head : List String} :
    byMethod method storage head = byMethod method storage' head ↔
      (method = some "state_storage" → storage = storage') := by
  unfold byMethod
  split_ifs <;> simp_all

theorem byMethod_eq_nil_iff {method : Option String} {storage : List String} {text : String} :
    byMethod method storage [text] = [] ↔
      method ≠ some "chain_finalizedHead" ∧ (method = some "state_storage" → storage = []) := by
  unfold byMethod
  split_ifs <;> simp_all

/-- **What is sent for a parsed message is what it carries**, but for later changes and odd ids. -/
theorem sentBy_eq_carried_iff {v : Json} (hv : J.fromStr msg = .ok v) :
    sentBy J msg = v.carried J ↔ v.OneChange ∧ v.NoOddId := by
  rw [sentBy_eq hv]
  unfold Json.carried Json.OneChange Json.NoOddId
  by_cases hstr : (v.index "id").asStr.isSome = true
  · -- a response: nothing is sent and nothing is owed
    have hsome : (v.index "id").asStr ≠ none := Option.isSome_iff_ne_none.mp hstr
    simp [hstr, hasId_of_asStr hstr, hsome]
  · have hnone : (v.index "id").asStr = none := by simpa using hstr
    rw [if_neg hstr]
    by_cases hid : v.hasId = true
    · -- nothing is owed
      have hhead : (v.changes.head?.bind changeValue).toList = [] ↔
          ∀ e ∈ v.changes.head?, changeValue e = none := by
        simp [Option.toList_eq_nil_iff, Option.bind_eq_none_iff]
      rw [if_pos hid, byMethod_eq_nil_iff, hhead]
      simp [hid, hnone]
    · -- a notification
      rw [if_neg hid, byMethod_eq_iff, filterMap_eq_head_iff]
      simp [hid]

/-- A text that is not JSON carries nothing, and nothing is sent. -/
theorem sentBy_eq_owed_iff : sentBy J msg = owed J msg ↔
    ∀ v, J.fromStr msg = .ok v → v.OneChange ∧ v.NoOddId := by
  cases hv : J.fromStr msg with
  | error e => simp [sentBy, onSubscriptionMsg, owed, hv]
  | ok v =>
    have howed : owed J msg = v.carried J := by simp [owed, hv]
    rw [howed, sentBy_eq_carried_iff hv]
    simp

/-! ## Which runs are delivered -/

/-- Two lists of parts agree at every point iff the parts do. -/
theorem flatMap_eq_iff {α β : Type} {f g : α → List β} {xs : List α} :
    (∀ pre, pre <+: xs → pre.flatMap f = pre.flatMap g) ↔ ∀ x ∈ xs, f x = g x := by
  constructor
  · intro h x hx
    obtain ⟨pre, post, rfl⟩ := List.append_of_mem hx
    have hpre := h pre (List.prefix_append _ _)
    have hnext := h (pre ++ [x]) ⟨post, by simp⟩
    rw [List.flatMap_append, List.flatMap_append, hpre] at hnext
    simpa using List.append_cancel_left hnext
  · rintro h pre ⟨post, rfl⟩
    exact List.flatMap_congr fun x hx => h x (List.mem_append_left post hx)

/-- **Which runs are delivered**: those in which no change after the first has a value, and no
message whose id is not a string looks like a notification. -/
theorem delivers_iff (J : Serde) (msgs : List String) :
    Delivers J msgs ↔ ∀ msg ∈ msgs, ∀ v, J.fromStr msg = .ok v → v.OneChange ∧ v.NoOddId := by
  unfold Delivers
  simp only [Subscriber.run_eq, flatMap_eq_iff, sentBy_eq_owed_iff]

/-- Two keys of a subscription change in one block. -/
def twoChanges : Json :=
  .obj [("jsonrpc", .str "2.0"), ("method", .str "state_storage"),
    ("params", .obj [("result", .obj [("block", .str "0xa1"),
      ("changes", .arr [.arr [.str "0x01", .str "0xaa"], .arr [.str "0x02", .str "0xbb"]])]),
      ("subscription", .str "sub")])]

/-- The text of the notification. -/
def twoChangesText : String × Json := (String.ofList twoChanges.render, twoChanges)

/-- **The value of the second key is lost.** -/
theorem not_delivers_two :
    (Subscriber.run (Serde.ofTexts [twoChangesText]) [twoChangesText.1]).sent = ["0xaa"] ∧
    [twoChangesText.1].flatMap (owed (Serde.ofTexts [twoChangesText])) = ["0xaa", "0xbb"] ∧
    ¬ Delivers (Serde.ofTexts [twoChangesText]) [twoChangesText.1] := by
  have hv := Serde.fromStr_ofTexts_self twoChangesText
  have hsent : sentBy (Serde.ofTexts [twoChangesText]) twoChangesText.1 = ["0xaa"] := by
    rw [sentBy_eq hv]
    rfl
  have howed : owed (Serde.ofTexts [twoChangesText]) twoChangesText.1 = ["0xaa", "0xbb"] := by
    unfold owed
    rw [hv]
    rfl
  have hrun : (Subscriber.run (Serde.ofTexts [twoChangesText]) [twoChangesText.1]).sent =
      ["0xaa"] := by
    rw [Subscriber.run_eq, List.flatMap_singleton, hsent]
  have hall : [twoChangesText.1].flatMap (owed (Serde.ofTexts [twoChangesText])) =
      ["0xaa", "0xbb"] := by
    rw [List.flatMap_singleton, howed]
  refine ⟨hrun, hall, fun h => ?_⟩
  have heq := h _ List.prefix_rfl
  rw [hrun, hall] at heq
  exact absurd heq (by decide)

end SubstrateClient.Rpc
