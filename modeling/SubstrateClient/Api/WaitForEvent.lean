import SubstrateClient.Api.Requests
import SubstrateClient.Node.EventRecords

/-!
# Waiting for an event (`rpc/ws_client/mod.rs`)

The subscription thread puts the value of `System::Events` on a channel at every block, as a
hexadecimal text; `wait_for_raw_event` takes the texts off the channel, decodes them, and returns the
first event of the wanted names. `Batch` is one value: a list of records, and the form its text has.

The decoder delivers a record whose fields hold a dispatch error as an error, not as an event, and
the loop logs errors and goes on. What is returned is the first record of the names, in stream order,
among the others (`waitForRawEvent_batches`): by one step lemma a message, and an induction on the
messages. Only a failed extrinsic is passed over this way (`wanted_iff_named`).
-/

namespace SubstrateClient.Node

open SubstrateClient.Lib SubstrateClient.Utils

/-! ## Records and the texts that carry them -/

namespace EventRecord

variable {m : Metadata}

/-- The record is of the named event. -/
def Named (module variant : String) (r : EventRecord m) : Prop :=
  r.declared.pallet = module ∧ r.declared.event = variant

/-- The record is of the named event, and no field of it holds a dispatch error. -/
def Wanted (module variant : String) (r : EventRecord m) : Prop :=
  r.Named module variant ∧ r.runtimeErrors = []

instance (module variant : String) (r : EventRecord m) : Decidable (r.Named module variant) :=
  inferInstanceAs (Decidable (_ ∧ _))

instance (module variant : String) (r : EventRecord m) : Decidable (r.Wanted module variant) :=
  inferInstanceAs (Decidable (_ ∧ _))

end EventRecord

/-- A value of `System::Events`, and how it is written. -/
structure Batch (m : Metadata) where
  records : List (EventRecord m)
  zeroX : Bool
  quoted : Bool
  records_fit : records.length < 2 ^ 32

/-- The text of a value. -/
def Batch.text {m : Metadata} (S : Scale) (D : Codec DispatchError) (H : Hex) (b : Batch m) :
    String :=
  String.ofList (wrap b.zeroX b.quoted (H.encode (encodeRecords S D b.records)).toList)

end SubstrateClient.Node

namespace SubstrateClient

open Lib Node Utils Rpc

/-! ## The loop -/

/-- `RuntimeDecoder`. -/
structure RuntimeDecoder where
  metadata : Metadata

/-- `Receiver<String>`: the messages sent to it, and whether the sender is gone after them. -/
structure Receiver where
  messages : List String
  disconnected : Bool

/-- The arm of the loop that returns. -/
def requested (module variant : String) : Phase × Raw → Option RawEvent
  | (_, .event raw) => if raw.pallet = module ∧ raw.variant = variant then some raw else none
  | (_, .error _) => none

namespace Api

section Calls

variable (S : Scale) (D : Codec DispatchError) (H : Hex) (fuel : Nat) {P : Type} (api : Api P)

/-- The loop of `wait_for_raw_event`; `none` while it waits for the next message. -/
def rawEventLoop (eventDecoder : RuntimeDecoder) (module variant : String) (disconnected : Bool) :
    List String → Outcome ApiError (Option RawEvent)
  | [] => if disconnected then .err .disconnected else .ok none
  | eventStr :: messages =>
    match fromHex H eventStr with
    | .error e => .err (.invalidHexString e)
    | .ok input =>
      match decodeEvents S D eventDecoder.metadata fuel input with
      | .ok (rawEvents, _) =>
        match rawEvents.findSome? (requested module variant) with
        | some raw => .ok (some raw)
        | none => rawEventLoop eventDecoder module variant disconnected messages
      | .err _ => rawEventLoop eventDecoder module variant disconnected messages
      | .panic msg => .panic msg
      | .outOfFuel => .outOfFuel

/-- The decoder of `wait_for_raw_event`. -/
def eventDecoder (decoder : Option RuntimeDecoder) : RuntimeDecoder :=
  match decoder with
  | some d => d
  | none => ⟨api.metadata⟩

/-- `Api::wait_for_raw_event`. -/
def waitForRawEvent (module variant : String) (decoder : Option RuntimeDecoder)
    (receiver : Receiver) : Outcome ApiError (Option RawEvent) :=
  rawEventLoop S D H fuel (api.eventDecoder decoder) module variant receiver.disconnected
    receiver.messages

/-- `Api::wait_for_event`. -/
def waitForEvent {E : Type} (event : Codec E) (module variant : String)
    (decoder : Option RuntimeDecoder) (receiver : Receiver) : Outcome ApiError (Option E) := do
  let raw ← api.waitForRawEvent S D H fuel module variant decoder receiver
  match raw with
  | none => .ok none
  | some raw =>
    match event.decode raw.data with
    | .ok (e, _) => .ok (some e)
    | .error e => .err (.storageValueDecode e)

end Calls

end Api

/-! ## Which record is returned -/

variable {S : Scale} {D : Codec DispatchError} {H : Hex} {m : Metadata} {module variant : String}

/-- Of what a record is decoded to, the loop takes the event of a wanted record. -/
theorem findSome?_group (r : EventRecord m) :
    (r.group S D).findSome? (requested module variant) =
      if r.Wanted module variant then some (r.rawEvent S D) else none := by
  unfold EventRecord.group
  cases herrors : r.runtimeErrors with
  | nil =>
    have hevent : requested module variant (r.phase, .event (r.rawEvent S D)) =
        if r.Named module variant then some (r.rawEvent S D) else none := rfl
    have hwanted : r.Wanted module variant ↔ r.Named module variant :=
      ⟨fun h => h.1, fun h => ⟨h, herrors⟩⟩
    simp only [List.findSome?_cons, List.findSome?_nil, hevent, hwanted]
    by_cases hnamed : r.Named module variant
    · rw [if_pos hnamed]
    · rw [if_neg hnamed]
  | cons err errors =>
    have hwanted : ¬ r.Wanted module variant := by
      intro h
      rw [h.2] at herrors
      cases herrors
    rw [if_neg hwanted, List.findSome?_eq_none_iff]
    intro x hx
    obtain ⟨e, -, rfl⟩ := List.mem_map.mp hx
    rfl

/-- Of a list of records, it takes the first wanted one. -/
theorem findSome?_groups (rs : List (EventRecord m)) :
    (rs.flatMap (EventRecord.group S D)).findSome? (requested module variant) =
      (rs.find? (EventRecord.Wanted module variant ·)).map (EventRecord.rawEvent S D) := by
  induction rs with
  | nil => rfl
  | cons r rs ih =>
    rw [List.flatMap_cons, List.findSome?_append, findSome?_group, ih]
    by_cases hr : r.Wanted module variant
    · rw [if_pos hr, List.find?_cons, decide_eq_true hr]
      rfl
    · rw [if_neg hr, List.find?_cons, decide_eq_false hr]
      rfl

/-- The fields of any other event hold no dispatch error. -/
theorem runtimeErrors_of_args {em : EventMetadata} (hem : isExtrinsicFailed em ≠ true) :
    ∀ {fields : List Field} {args : List EventArg},
      List.Forall₂ (EventArg.HasFieldType m em) fields args →
        args.filterMap EventArg.runtimeError = []
  | _, _, .nil => rfl
  | _, .value _ :: args, .cons _ hs => by
    rw [List.filterMap_cons_none rfl]
    exact runtimeErrors_of_args hem hs
  | _, .dispatch _ _ :: _, .cons h _ => absurd h.1.1 hem

/-- Only a failed extrinsic may be named and not wanted. -/
theorem wanted_iff_named (h : ¬ (module = "System" ∧ variant = "ExtrinsicFailed"))
    (r : EventRecord m) : r.Wanted module variant ↔ r.Named module variant := by
  refine ⟨fun hr => hr.1, fun hr => ⟨hr, runtimeErrors_of_args ?_ r.args_typed⟩⟩
  intro hfail
  unfold isExtrinsicFailed at hfail
  rw [Bool.and_eq_true, beq_iff_eq, beq_iff_eq] at hfail
  exact h ⟨hr.1.symm.trans hfail.1, hr.2.symm.trans hfail.2⟩

namespace Api

/-- One message: the loop returns its first wanted record, or goes on. -/
theorem rawEventLoop_cons (hS : S.Lawful) (hD : DispatchLawful D) (hH : H.Lawful) {fuel : Nat}
    {d : RuntimeDecoder} (b : Batch d.metadata) (hf : recordsDepth b.records < fuel)
    (disconnected : Bool) (messages : List String) :
    rawEventLoop S D H fuel d module variant disconnected (b.text S D H :: messages) =
      match b.records.find? (EventRecord.Wanted module variant ·) with
      | some r => .ok (some (r.rawEvent S D))
      | none => rawEventLoop S D H fuel d module variant disconnected messages := by
  have hhex : fromHex H (b.text S D H) = .ok (encodeRecords S D b.records) :=
    fromHex_wrapped hH b.zeroX b.quoted _
  have hdec := decodeEvents_encodeRecords hS hD b.records b.records_fit hf []
  rw [List.append_nil] at hdec
  rw [rawEventLoop, hhex]
  simp only [hdec, findSome?_groups]
  cases b.records.find? (EventRecord.Wanted module variant ·) <;> rfl

/-- What the loop ends with, when this is the first wanted event. -/
def loopEnd (disconnected : Bool) : Option RawEvent → Outcome ApiError (Option RawEvent)
  | some raw => .ok (some raw)
  | none => if disconnected then .err .disconnected else .ok none

theorem loopEnd_eq_err {disconnected : Bool} {raw : Option RawEvent} :
    (∃ e, loopEnd disconnected raw = .err e) ↔ disconnected = true ∧ raw = none := by
  cases raw with
  | some raw => simp [loopEnd]
  | none => cases disconnected <;> simp [loopEnd]

/-- **The loop returns the first wanted record of the messages**; without one it waits, or ends with
the sender. By induction on the messages. -/
theorem rawEventLoop_batches (hS : S.Lawful) (hD : DispatchLawful D) (hH : H.Lawful) {fuel : Nat}
    {d : RuntimeDecoder} (module variant : String) (disconnected : Bool) :
    ∀ batches : List (Batch d.metadata), (∀ b ∈ batches, recordsDepth b.records < fuel) →
      rawEventLoop S D H fuel d module variant disconnected (batches.map (Batch.text S D H)) =
        loopEnd disconnected (((batches.flatMap Batch.records).find?
          (EventRecord.Wanted module variant ·)).map (EventRecord.rawEvent S D))
  | [], _ => rfl
  | b :: batches, hf => by
    have ih := rawEventLoop_batches hS hD hH module variant disconnected batches
      fun c hc => hf c (List.mem_cons_of_mem b hc)
    rw [List.map_cons, rawEventLoop_cons hS hD hH b (hf b List.mem_cons_self), ih,
      List.flatMap_cons, List.find?_append]
    cases b.records.find? (EventRecord.Wanted module variant ·) <;> rfl

/-- The depth of the deepest record of the messages. -/
def batchesDepth (batches : List (Batch m)) : Nat :=
  (batches.map fun b => recordsDepth b.records).foldr max ⊥

theorem recordsDepth_le_batchesDepth {batches : List (Batch m)} {b : Batch m} (h : b ∈ batches) :
    recordsDepth b.records ≤ batchesDepth batches :=
  List.le_max_of_le (List.mem_map_of_mem h) le_rfl

/-- The first wanted record of a list. -/
theorem find?_wanted {pre post : List (EventRecord m)} {r : EventRecord m}
    (hr : r.Wanted module variant) (hpre : ∀ q ∈ pre, ¬ q.Wanted module variant) :
    (pre ++ r :: post).find? (EventRecord.Wanted module variant ·) = some r := by
  refine List.find?_eq_some_iff_append.mpr ⟨decide_eq_true hr, pre, post, rfl, fun q hq => ?_⟩
  rw [decide_eq_false (hpre q hq)]
  rfl

variable {P : Type} {api : Api P} {decoder : Option RuntimeDecoder}

/-- `wait_for_event` decodes the data of the raw event. -/
theorem waitForEvent_of_raw {E : Type} {event : Codec E} {e : E} (he : event.RoundTripsAt e)
    {fuel : Nat} {receiver : Receiver} {raw : RawEvent} (hdata : raw.data = event.encode e)
    (h : api.waitForRawEvent S D H fuel module variant decoder receiver = .ok (some raw)) :
    api.waitForEvent S D H fuel event module variant decoder receiver = .ok (some e) := by
  unfold waitForEvent
  rw [h, Outcome.ok_bind]
  simp only [hdata, he.decode_encode]

/-- A failed extrinsic. -/
def failedBatch : Batch twoEvents := ⟨[failedRecord], true, false, by decide⟩

/-- A failed extrinsic and a roll of the die, in quotes. -/
def rolledBatch : Batch twoEvents := ⟨[failedRecord, rolledRecord], true, true, by decide⟩

/-- A client of `twoEvents`. -/
def twoEventsApi : Api Unit := ⟨none, twoEvents, answering (Serde.ofTexts []) .null⟩

end Api

end SubstrateClient
