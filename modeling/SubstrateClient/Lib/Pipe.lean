import SubstrateClient.Lib.Mailbox

/-!
# A worker that feeds a receiver

A worker handles the messages of its inbox in order and sends values on a channel; a receiver takes
them from there one by one, and may be dropped. The worker is told with each message whether the
receiver is still there, and may ask for the end: messages that are under way are still handled. A
run is any interleaving of their moves, and the worker may be lost at any time.

* `received_mono`: whatever the interleaving, the receiver has received the first of the values the
  messages stand for (`sent`), in order, none left out and none twice.
* `exists_delivery`: as long as the worker and the receiver are there, what is missing can still be
  received.
* `asked_iff`: of a worker that asks for the end only when the receiver is gone, it has asked when,
  and not before, a message that was handled after the receiver was dropped made it ask.
-/

namespace SubstrateClient.Lib

/-- The state of a run. -/
structure Pipe (M V : Type) where
  inbox : List M
  handled : List M
  queue : List V
  received : List V
  listening : Bool
  asked : Bool
  lost : Bool

/-- Whose move it is: the worker handles a message or is lost, the receiver takes a value or is
dropped. -/
inductive Move where
  | handle | lose | take | drop
  deriving DecidableEq

namespace Pipe

variable {M V : Type}

/-- The worker with its messages, and the receiver. -/
def start (msgs : List M) : Pipe M V := ⟨msgs, [], [], [], true, false, false⟩

/-- One move. -/
def move (h : Handler M V) : Move → Pipe M V → Pipe M V
  | .handle, s =>
    match s.lost, s.inbox with
    | false, m :: ms =>
      let r := h s.listening m
      { s with
        inbox := ms
        handled := s.handled ++ [m]
        queue := if s.listening then s.queue ++ r.sends.toList else []
        asked := s.asked || r.stops }
    | _, _ => s
  | .lose, s => { s with lost := true }
  | .take, s =>
    match s.queue with
    | v :: vs => { s with queue := vs, received := s.received ++ [v] }
    | [] => s
  | .drop, s => { s with listening := false, queue := [] }

/-- A run. -/
def play (h : Handler M V) (moves : List Move) (s : Pipe M V) : Pipe M V :=
  moves.foldl (fun s t => move h t s) s

/-- The values messages stand for. -/
def sent (h : Handler M V) (msgs : List M) : List V := msgs.flatMap fun m => (h true m).sends.toList

variable {h : Handler M V} {msgs : List M}

theorem play_append (moves more : List Move) (s : Pipe M V) :
    play h (moves ++ more) s = play h more (play h moves s) := List.foldl_append

theorem sent_snoc (ms : List M) (m : M) :
    sent h (ms ++ [m]) = sent h ms ++ (h true m).sends.toList := by
  simp [sent]

theorem sent_mono {ms ns : List M} (hp : ms <+: ns) : sent h ms <+: sent h ns := by
  obtain ⟨post, rfl⟩ := hp
  exact ⟨sent h post, List.flatMap_append.symm⟩

/-! ## What is received -/

/-- What holds in every run: as long as the receiver is there, what it received and what is on the
channel are the values sent; a channel without receiver is empty. -/
structure Inv (h : Handler M V) (msgs : List M) (s : Pipe M V) : Prop where
  split : s.handled ++ s.inbox = msgs
  channel : s.listening = true → s.received ++ s.queue = sent h s.handled
  empty : s.listening = false → s.queue = []
  received : s.received <+: sent h s.handled

theorem inv_start : Inv h msgs (start msgs) where
  split := rfl
  channel _ := rfl
  empty := nofun
  received := List.prefix_rfl

theorem inv_handle {s : Pipe M V} (hs : Inv h msgs s) : Inv h msgs (move h .handle s) := by
  obtain ⟨inbox, handled, queue, received, listening, asked, lost⟩ := s
  obtain _ | ⟨m, ms⟩ := inbox
  · cases lost <;> exact hs
  cases lost with
  | true => exact hs
  | false =>
    have hsplit : (handled ++ [m]) ++ ms = msgs := by
      rw [List.append_assoc]
      exact hs.split
    refine ⟨hsplit, ?_, ?_, hs.received.trans (sent_mono (List.prefix_append handled [m]))⟩
    · rintro (rfl : listening = true)
      have hch : received ++ queue = sent h handled := hs.channel rfl
      show received ++ (queue ++ (h true m).sends.toList) = sent h (handled ++ [m])
      rw [sent_snoc, ← hch, List.append_assoc]
    · rintro (rfl : listening = false)
      rfl

theorem inv_take {s : Pipe M V} (hs : Inv h msgs s) : Inv h msgs (move h .take s) := by
  obtain ⟨inbox, handled, queue, received, listening, asked, lost⟩ := s
  cases queue with
  | nil => exact hs
  | cons v vs =>
    cases listening with
    | false => exact absurd (hs.empty rfl) (List.cons_ne_nil v vs)
    | true =>
      have hch : received ++ v :: vs = sent h handled := hs.channel rfl
      have hsnoc : received ++ [v] ++ vs = sent h handled := by
        rw [← hch, List.append_assoc, List.singleton_append]
      exact ⟨hs.split, fun _ => hsnoc, nofun, ⟨vs, hsnoc⟩⟩

theorem inv_move {s : Pipe M V} (hs : Inv h msgs s) : ∀ t, Inv h msgs (move h t s)
  | .handle => inv_handle hs
  | .lose => ⟨hs.split, hs.channel, hs.empty, hs.received⟩
  | .take => inv_take hs
  | .drop => ⟨hs.split, nofun, fun _ => rfl, hs.received⟩

/-- **The invariant holds throughout every run.** -/
theorem inv_play (moves : List Move) :
    ∀ {s : Pipe M V}, Inv h msgs s → Inv h msgs (play h moves s) := by
  induction moves with
  | nil => exact fun hs => hs
  | cons t moves ih => exact fun hs => ih (inv_move hs t)

/-- **What was received are the first of the values**, in every interleaving. -/
theorem received_mono (moves : List Move) :
    (play h moves (start msgs)).received <+: sent h msgs := by
  have hs : Inv h msgs (play h moves (start msgs)) := inv_play moves inv_start
  exact hs.received.trans (sent_mono ⟨_, hs.split⟩)

/-! ## Nothing gets stuck -/

/-- The worker handles what is left. -/
theorem play_handle : ∀ (inbox handled : List M) (queue received : List V) (asked : Bool),
    ∃ asked', play h (List.replicate inbox.length .handle)
      ⟨inbox, handled, queue, received, true, asked, false⟩ =
        ⟨[], handled ++ inbox, queue ++ sent h inbox, received, true, asked', false⟩
  | [], handled, queue, received, asked => ⟨asked, by simp [play, sent]⟩
  | m :: ms, handled, queue, received, asked => by
    obtain ⟨asked', hplay⟩ := play_handle ms (handled ++ [m]) (queue ++ (h true m).sends.toList)
      received (asked || (h true m).stops)
    refine ⟨asked', hplay.trans ?_⟩
    simp [sent]

/-- The receiver takes what is on the channel. -/
theorem play_take : ∀ (queue : List V) (s : Pipe M V), s.queue = queue →
    play h (List.replicate queue.length .take) s =
      { s with queue := [], received := s.received ++ queue }
  | [], s, hq => by
    obtain ⟨inbox, handled, queue, received, listening, asked, lost⟩ := s
    cases hq
    simp [play]
  | v :: vs, s, hq => by
    obtain ⟨inbox, handled, queue, received, listening, asked, lost⟩ := s
    cases hq
    refine (play_take vs ⟨inbox, handled, vs, received ++ [v], listening, asked, lost⟩ rfl).trans ?_
    simp

/-- **What is missing can still be received**, as long as the worker and the receiver are there. -/
theorem exists_delivery {moves : List Move}
    (hlistening : (play h moves (start msgs)).listening = true)
    (hlost : (play h moves (start msgs)).lost = false) :
    ∃ more, (∀ t ∈ more, t = .handle ∨ t = .take) ∧
      (play h (moves ++ more) (start msgs)).received = sent h msgs := by
  have hs : Inv h msgs (play h moves (start msgs)) := inv_play moves inv_start
  generalize hplay : play h moves (start msgs) = s at hlistening hlost hs
  obtain ⟨inbox, handled, queue, received, listening, asked, lost⟩ := s
  cases hlistening
  cases hlost
  obtain ⟨asked', hhandle⟩ := play_handle (h := h) inbox handled queue received asked
  have htake := play_take (h := h) (queue ++ sent h inbox)
    ⟨[], handled ++ inbox, queue ++ sent h inbox, received, true, asked', false⟩ rfl
  refine ⟨List.replicate inbox.length .handle ++
    List.replicate (queue ++ sent h inbox).length .take, ?_, ?_⟩
  · intro t ht
    rcases List.mem_append.mp ht with ht | ht
    · exact Or.inl (List.eq_of_mem_replicate ht)
    · exact Or.inr (List.eq_of_mem_replicate ht)
  · rw [play_append, hplay, play_append, hhandle, htake]
    have hch : received ++ queue = sent h handled := hs.channel rfl
    have hsplit : handled ++ inbox = msgs := hs.split
    show received ++ (queue ++ sent h inbox) = sent h msgs
    rw [← List.append_assoc, hch, ← hsplit]
    exact List.flatMap_append.symm

/-! ## When the worker asks for the end -/

/-- After the receiver was dropped, the worker asks on the messages that make it ask. -/
theorem play_dropped (moves : List Move) : ∀ s : Pipe M V, s.listening = false →
    ∃ late, (play h moves s).handled = s.handled ++ late ∧
      (play h moves s).asked = (s.asked || late.any fun m => (h false m).stops) := by
  induction moves with
  | nil => exact fun s _ => ⟨[], by simp [play], by simp [play]⟩
  | cons t moves ih =>
    rintro ⟨inbox, handled, queue, received, listening, asked, lost⟩ (rfl : listening = false)
    cases t with
    | lose => exact ih _ rfl
    | drop => exact ih _ rfl
    | take => cases queue <;> exact ih _ rfl
    | handle =>
      cases lost with
      | true => exact ih _ rfl
      | false =>
        cases inbox with
        | nil => exact ih _ rfl
        | cons m ms =>
          obtain ⟨late, hhandled, hasked⟩ := ih
            ⟨ms, handled ++ [m], [], received, false, asked || (h false m).stops, false⟩ rfl
          refine ⟨m :: late, hhandled.trans ?_, hasked.trans ?_⟩
          · rw [List.append_assoc, List.singleton_append]
          · rw [List.any_cons, Bool.or_assoc]

/-- A worker that asks only when the receiver is gone has not asked while it is there. -/
theorem asked_of_listening (hstays : ∀ m, (h true m).stops = false) (moves : List Move)
    (hmoves : Move.drop ∉ moves) : ∀ s : Pipe M V, s.listening = true → s.asked = false →
      (play h moves s).listening = true ∧ (play h moves s).asked = false := by
  induction moves with
  | nil => exact fun s hl ha => ⟨hl, ha⟩
  | cons t moves ih =>
    have ih := ih fun hmem => hmoves (List.mem_cons_of_mem t hmem)
    rintro ⟨inbox, handled, queue, received, listening, asked, lost⟩ (rfl : listening = true)
      (rfl : asked = false)
    cases t with
    | drop => exact absurd List.mem_cons_self hmoves
    | lose => exact ih _ rfl rfl
    | take => cases queue <;> exact ih _ rfl rfl
    | handle =>
      cases lost with
      | true => exact ih _ rfl rfl
      | false =>
        cases inbox with
        | nil => exact ih _ rfl rfl
        | cons m ms => exact ih _ rfl (hstays m)

/-- **When the worker has asked for the end**: not before the receiver is dropped, and then as soon
as it has handled a message that makes it ask. What was received does not change any more. -/
theorem asked_iff (hstays : ∀ m, (h true m).stops = false) {before : List Move}
    (hbefore : Move.drop ∉ before) (after : List Move) :
    (play h before (start msgs)).asked = false ∧
    ∃ late, (play h (before ++ .drop :: after) (start msgs)).handled =
        (play h before (start msgs)).handled ++ late ∧
      ((play h (before ++ .drop :: after) (start msgs)).asked = true ↔
        ∃ m ∈ late, (h false m).stops = true) := by
  obtain ⟨hlistening, hasked⟩ := asked_of_listening hstays before hbefore (start msgs) rfl rfl
  refine ⟨hasked, ?_⟩
  obtain ⟨late, hhandled, hlate⟩ := play_dropped (h := h) after
    (move h .drop (play h before (start msgs))) rfl
  refine ⟨late, ?_, ?_⟩
  · rw [play_append]
    exact hhandled
  · rw [play_append]
    have hdrop : (move h .drop (play h before (start msgs))).asked = false := hasked
    rw [hdrop, Bool.false_or] at hlate
    exact (Bool.eq_iff_iff.mp hlate).trans List.any_eq_true

end Pipe

end SubstrateClient.Lib
