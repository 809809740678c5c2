/-!
# A worker that answers on a channel

A worker handles the messages of its inbox in order; handling one may send a value on a channel, and
may end the worker. A caller waits on the channel: it takes the first value there, or learns that
the worker is gone and the channel empty. The two run side by side, so a run is any interleaving of
turns (`Turn`): the worker may handle messages before or after the caller looked, may leave at any
time, and may be left with messages unhandled.

What the caller takes does not depend on the interleaving: it is the value of the **first message
that ends the wait** (`firstEnding`), if that message sends one, and it can always be taken
(`takes_iff`). Once that message is handled, the caller comes to it, whatever follows
(`comesTo_of_firstEnding`): the worker leaving early can only make the caller take nothing. If no
message ends the wait and the worker stays, the caller is left waiting (`leftWaiting_iff`).
-/

namespace SubstrateClient.Lib

/-- What handling a message does: the value it sends, and whether it ends the worker. -/
structure Reply (V : Type) where
  sends : Option V
  stops : Bool

/-- A handler, told whether the receiver is still there. -/
abbrev Handler (M V : Type) := Bool → M → Reply V

/-- The state of a run. The caller has taken `some v`, a value, or `none`: the worker is gone. -/
structure Mailbox (M V : Type) where
  inbox : List M
  handled : List M
  queue : List V
  running : Bool
  taken : Option (Option V)

/-- Whose turn it is: the worker handles a message or leaves, or the caller looks. -/
inductive Turn where
  | handle | leave | look
  deriving DecidableEq

namespace Mailbox

variable {M V : Type}

/-- The worker with its messages, and the caller waiting. -/
def start (msgs : List M) : Mailbox M V := ⟨msgs, [], [], true, none⟩

/-- One turn. -/
def turn (h : Handler M V) : Turn → Mailbox M V → Mailbox M V
  | .handle, s =>
    match s.running, s.inbox with
    | true, m :: ms =>
      let r := h s.taken.isNone m
      { s with
        inbox := ms
        handled := s.handled ++ [m]
        queue := s.queue ++ r.sends.toList
        running := !r.stops }
    | _, _ => s
  | .leave, s => { s with running := false }
  | .look, s =>
    match s.taken, s.queue with
    | none, v :: vs => { s with queue := vs, taken := some (some v) }
    | none, [] => if s.running then s else { s with taken := some none }
    | some _, _ => s

/-- A run. -/
def play (h : Handler M V) (turns : List Turn) (s : Mailbox M V) : Mailbox M V :=
  turns.foldl (fun s t => turn h t s) s

/-- The caller may take `r`. -/
def Takes (h : Handler M V) (msgs : List M) (r : Option V) : Prop :=
  ∃ turns, (play h turns (start msgs)).taken = some r

/-- The message sends a value or ends the worker. -/
def ends (h : Handler M V) (m : M) : Bool := (h true m).sends.isSome || (h true m).stops

/-- The message that ends the wait. -/
def firstEnding (h : Handler M V) (msgs : List M) : Option M := msgs.find? (ends h)

variable {h : Handler M V} {msgs : List M}

/-! ## The invariant -/

/-- The value the wait ends with is `v`. -/
def Settled (h : Handler M V) (msgs : List M) (v : V) : Prop :=
  ∃ m, firstEnding h msgs = some m ∧ (h true m).sends = some v

/-- What holds in every run: until the caller took something, an empty channel means that no message
ended the wait, or that one ended the worker; and the first value on the channel, then the value
taken, is the one the wait ends with. -/
structure Inv (h : Handler M V) (msgs : List M) (s : Mailbox M V) : Prop where
  split : s.handled ++ s.inbox = msgs
  empty : s.taken = none → s.queue = [] → s.running = true → ∀ m ∈ s.handled, ends h m = false
  queued : s.taken = none → ∀ v vs, s.queue = v :: vs → Settled h msgs v
  took : ∀ v, s.taken = some (some v) → Settled h msgs v

theorem inv_start : Inv h msgs (start msgs) where
  split := rfl
  empty := nofun
  queued := nofun
  took := nofun

/-- A message after quiet ones is the first that may end the wait. -/
theorem firstEnding_of_quiet {pre ms : List M} {m : M} (hpre : ∀ u ∈ pre, ends h u = false)
    (hm : ends h m = true) : firstEnding h (pre ++ m :: ms) = some m := by
  have hnone : pre.find? (ends h) = none := by
    refine List.find?_eq_none.mpr fun u hu => ?_
    rw [hpre u hu]
    exact Bool.false_ne_true
  unfold firstEnding
  rw [List.find?_append, hnone, Option.none_or, List.find?_cons_of_pos hm]

theorem ends_of_sends {m : M} {v : V} (hm : (h true m).sends = some v) : ends h m = true := by
  unfold ends
  rw [hm]
  rfl

/-- The worker handles a message. -/
theorem inv_handle {s : Mailbox M V} (hs : Inv h msgs s) : Inv h msgs (turn h .handle s) := by
  obtain ⟨inbox, handled, queue, running, taken⟩ := s
  obtain _ | ⟨m, ms⟩ := inbox
  · cases running <;> exact hs
  cases running with
  | false => exact hs
  | true =>
    have hsplit : (handled ++ [m]) ++ ms = msgs := by
      rw [List.append_assoc]
      exact hs.split
    cases taken with
    | some r => exact ⟨hsplit, nofun, nofun, hs.took⟩
    | none =>
      refine ⟨hsplit, fun _ hq hr => ?_, fun _ v vs hq => ?_, nofun⟩
      · -- nothing was on the channel and nothing was sent: the message did not end the wait
        obtain ⟨hq, hsend⟩ := List.append_eq_nil_iff.mp hq
        have hsend : (h true m).sends = none := Option.toList_eq_nil_iff.mp hsend
        have hstop : (h true m).stops = false := by
          have : (!(h true m).stops) = true := hr
          simpa using this
        intro u hu
        rcases List.mem_append.mp hu with hu | hu
        · exact hs.empty rfl hq rfl u hu
        · rw [List.mem_singleton.mp hu, ends, hsend, hstop]
          rfl
      · cases queue with
        | cons w ws =>
          cases hq
          exact hs.queued rfl v ws rfl
        | nil =>
          -- the first value on the channel is that of the message just handled
          have hsend : (h true m).sends = some v := by
            have : (h true m).sends.toList = v :: vs := hq
            cases hm : (h true m).sends with
            | none => rw [hm] at this; cases this
            | some w => rw [hm] at this; cases this; rfl
          refine ⟨m, ?_, hsend⟩
          rw [← hs.split]
          exact firstEnding_of_quiet (hs.empty rfl rfl rfl) (ends_of_sends hsend)

theorem inv_leave {s : Mailbox M V} (hs : Inv h msgs s) : Inv h msgs (turn h .leave s) :=
  ⟨hs.split, nofun, hs.queued, hs.took⟩

/-- The caller looks. -/
theorem inv_look {s : Mailbox M V} (hs : Inv h msgs s) : Inv h msgs (turn h .look s) := by
  obtain ⟨inbox, handled, queue, running, taken⟩ := s
  cases taken with
  | some r => exact hs
  | none =>
    cases queue with
    | cons v vs =>
      refine ⟨hs.split, nofun, nofun, ?_⟩
      rintro _ ⟨⟩
      exact hs.queued rfl v vs rfl
    | nil =>
      cases running with
      | true => exact hs
      | false => exact ⟨hs.split, nofun, nofun, nofun⟩

theorem inv_turn {s : Mailbox M V} (hs : Inv h msgs s) : ∀ t, Inv h msgs (turn h t s)
  | .handle => inv_handle hs
  | .leave => inv_leave hs
  | .look => inv_look hs

/-- **The invariant holds throughout every run.** -/
theorem inv_play (turns : List Turn) :
    ∀ {s : Mailbox M V}, Inv h msgs s → Inv h msgs (play h turns s) := by
  induction turns with
  | nil => exact fun hs => hs
  | cons t turns ih => exact fun hs => ih (inv_turn hs t)

/-! ## What the caller takes -/

/-- A message that does not end the wait leaves the channel empty and the worker running. -/
theorem turn_handle_quiet {u : M} {ms handled : List M} (hu : ends h u = false) :
    turn h .handle ⟨u :: ms, handled, [], true, none⟩ = ⟨ms, handled ++ [u], [], true, none⟩ := by
  have hquiet : (h true u).sends = none ∧ (h true u).stops = false := by
    unfold ends at hu
    cases hs : (h true u).sends <;> simp_all
  simp only [turn, Option.isNone_none, hquiet.1, hquiet.2]
  rfl

/-- From a quiet state, the caller can come to take what the first ending message leaves, and the
worker need not leave early. -/
theorem exists_play {m : M} : ∀ inbox handled : List M, firstEnding h inbox = some m →
    ∃ turns, Turn.leave ∉ turns ∧
      (play h turns ⟨inbox, handled, [], true, none⟩).taken = some (h true m).sends
  | u :: ms, handled, hf => by
    unfold firstEnding at hf
    by_cases hu : ends h u = true
    · rw [List.find?_cons_of_pos hu] at hf
      cases hf
      refine ⟨[.handle, .look], by simp, ?_⟩
      simp only [play, List.foldl_cons, List.foldl_nil, turn, Option.isNone_none, List.nil_append]
      cases hs : (h true m).sends with
      | some v => rfl
      | none =>
        have hstop : (h true m).stops = true := by
          rw [ends, hs] at hu
          exact hu
        rw [hstop]
        rfl
    · rw [List.find?_cons_of_neg hu] at hf
      obtain ⟨turns, hstays, ht⟩ := exists_play ms (handled ++ [u]) hf
      refine ⟨.handle :: turns, by simp [hstays], ?_⟩
      have hturn : turn h .handle ⟨u :: ms, handled, [], true, none⟩ =
          ⟨ms, handled ++ [u], [], true, none⟩ := turn_handle_quiet (by simpa using hu)
      rw [play, List.foldl_cons, hturn]
      exact ht

/-! ## When the caller takes nothing -/

/-- What holds in every run: a channel that is empty before the caller took something was never sent
on, and a caller that took nothing found the worker gone and nothing ever sent. -/
structure Unsent (h : Handler M V) (s : Mailbox M V) : Prop where
  empty : s.taken = none → s.queue = [] → ∀ m ∈ s.handled, (h true m).sends = none
  gone : s.taken = some none → s.running = false ∧ ∀ m ∈ s.handled, (h true m).sends = none

theorem unsent_start : Unsent h (start msgs : Mailbox M V) where
  empty := nofun
  gone := nofun

theorem unsent_turn {s : Mailbox M V} (hs : Unsent h s) (t : Turn) : Unsent h (turn h t s) := by
  obtain ⟨inbox, handled, queue, running, taken⟩ := s
  cases t with
  | leave => exact ⟨hs.empty, fun ht => ⟨rfl, (hs.gone ht).2⟩⟩
  | look =>
    cases taken with
    | some r => exact hs
    | none =>
      cases queue with
      | cons v vs => exact ⟨nofun, nofun⟩
      | nil =>
        cases running with
        | true => exact hs
        | false => exact ⟨nofun, fun _ => ⟨rfl, hs.empty rfl rfl⟩⟩
  | handle =>
    obtain _ | ⟨m, ms⟩ := inbox
    · cases running <;> exact hs
    cases running with
    | false => exact hs
    | true =>
      cases taken with
      | some r => exact ⟨nofun, fun ht => absurd (hs.gone ht).1 nofun⟩
      | none =>
        refine ⟨fun _ hq u hu => ?_, nofun⟩
        obtain ⟨hq, hsend⟩ := List.append_eq_nil_iff.mp hq
        rcases List.mem_append.mp hu with hu | hu
        · exact hs.empty rfl hq u hu
        · rw [List.mem_singleton.mp hu]
          exact Option.toList_eq_nil_iff.mp hsend

theorem unsent_play (turns : List Turn) :
    ∀ {s : Mailbox M V}, Unsent h s → Unsent h (play h turns s) := by
  induction turns with
  | nil => exact fun hs => hs
  | cons t turns ih => exact fun hs => ih (unsent_turn hs t)

/-- A caller that looks once the ending message is handled takes what that message leaves. -/
theorem taken_of_look {s : Mailbox M V} {m : M} (hs : Inv h msgs s) (hu : Unsent h s)
    (hm : firstEnding h msgs = some m) (hhandled : m ∈ s.handled) :
    (turn h .look s).taken = some (h true m).sends := by
  have hsettled : ∀ v, Settled h msgs v → some v = (h true m).sends := by
    rintro v ⟨m', hm', hv⟩
    rw [hm] at hm'
    cases hm'
    exact hv.symm
  obtain ⟨inbox, handled, queue, running, taken⟩ := s
  cases taken with
  | some r =>
    cases r with
    | none => exact congrArg some ((hu.gone rfl).2 m hhandled).symm
    | some v => exact congrArg some (hsettled v (hs.took v rfl))
  | none =>
    cases queue with
    | cons v vs => exact congrArg some (hsettled v (hs.queued rfl v vs rfl))
    | nil =>
      cases running with
      | true =>
        -- a channel that is empty still means that nothing ended the wait
        have hends : ends h m = true := by simpa using List.find?_some hm
        rw [hs.empty rfl rfl rfl m hhandled] at hends
        cases hends
      | false => exact congrArg some (hu.empty rfl rfl m hhandled).symm

/-- What was handled stays handled. -/
theorem handled_turn {u : M} {s : Mailbox M V} (hu : u ∈ s.handled) (t : Turn) :
    u ∈ (turn h t s).handled := by
  obtain ⟨inbox, handled, queue, running, taken⟩ := s
  cases t with
  | leave => exact hu
  | look => cases taken <;> cases queue <;> cases running <;> exact hu
  | handle =>
    cases running <;> cases inbox <;> first | exact hu | exact List.mem_append_left _ hu

theorem handled_play {u : M} (turns : List Turn) :
    ∀ {s : Mailbox M V}, u ∈ s.handled → u ∈ (play h turns s).handled := by
  induction turns with
  | nil => exact fun hu => hu
  | cons t turns ih => exact fun hu => ih (handled_turn hu t)

/-- A worker that has a turn for each message up to the ending one, and does not leave, handles
it. -/
theorem handled_of_stays {m : M} {post : List M} (turns : List Turn) (hstays : Turn.leave ∉ turns) :
    ∀ pre handled : List M, (∀ u ∈ pre, ends h u = false) → pre.length < turns.count .handle →
      m ∈ (play h turns ⟨pre ++ m :: post, handled, [], true, none⟩).handled := by
  induction turns with
  | nil => exact fun _ _ _ hcount => absurd hcount (Nat.not_lt_zero _)
  | cons t turns ih =>
    intro pre handled hquiet hcount
    have hstays' : Turn.leave ∉ turns := fun hmem => hstays (List.mem_cons_of_mem t hmem)
    rw [play, List.foldl_cons]
    cases t with
    | leave => exact absurd List.mem_cons_self hstays
    | look =>
      rw [List.count_cons_of_ne (by decide)] at hcount
      exact ih hstays' pre handled hquiet hcount
    | handle =>
      rw [List.count_cons_self] at hcount
      cases pre with
      | nil => exact handled_play turns (List.mem_append_right _ (List.mem_singleton_self m))
      | cons u us =>
        rw [List.cons_append, turn_handle_quiet (hquiet u List.mem_cons_self)]
        exact ih hstays' us _ (fun w hw => hquiet w (List.mem_cons_of_mem u hw))
          (Nat.lt_of_succ_lt_succ hcount)

/-- The first ending message, with the quiet ones before it. -/
theorem firstEnding_eq_some {m : M} : firstEnding h msgs = some m ↔
    ∃ pre post, msgs = pre ++ m :: post ∧ (∀ u ∈ pre, ends h u = false) ∧ ends h m = true := by
  unfold firstEnding
  rw [List.find?_eq_some_iff_append]
  constructor
  · rintro ⟨hm, pre, post, rfl, hpre⟩
    exact ⟨pre, post, rfl, fun u hu => by simpa using hpre u hu, hm⟩
  · rintro ⟨pre, post, rfl, hpre, hm⟩
    exact ⟨hm, pre, post, rfl, fun u hu => by simp [hpre u hu]⟩

/-- The caller comes to `r` once the messages are handled: however its turns fall between those of
the worker, whatever the worker is sent afterwards, and whether it then stays or leaves. -/
def ComesTo (h : Handler M V) (msgs : List M) (r : Option V) : Prop :=
  ∀ more before after, Turn.leave ∉ before → msgs.length ≤ before.count .handle →
    (turn h .look (play h (before ++ after) (start (msgs ++ more)))).taken = some r

/-- **The caller comes to what the first ending message leaves.** -/
theorem comesTo_of_firstEnding {m : M} (hm : firstEnding h msgs = some m) :
    ComesTo h msgs (h true m).sends := by
  intro more before after hstays hcount
  obtain ⟨pre, post, rfl, hpre, hend⟩ := firstEnding_eq_some.mp hm
  have hfirst : firstEnding h (pre ++ m :: post ++ more) = some m :=
    firstEnding_eq_some.mpr ⟨pre, post ++ more, by simp, hpre, hend⟩
  refine taken_of_look (inv_play _ inv_start) (unsent_play _ unsent_start) hfirst ?_
  rw [play, List.foldl_append]
  refine handled_play after ?_
  rw [start, List.append_assoc, List.cons_append]
  refine handled_of_stays before hstays pre [] hpre ?_
  rw [List.length_append, List.length_cons] at hcount
  omega

/-- **The caller takes a value iff the first ending message sends it**, whatever the interleaving. -/
theorem takes_iff {v : V} :
    Takes h msgs (some v) ↔ ∃ m, firstEnding h msgs = some m ∧ (h true m).sends = some v := by
  constructor
  · rintro ⟨turns, ht⟩
    exact (inv_play turns inv_start).took v ht
  · rintro ⟨m, hm, hv⟩
    obtain ⟨turns, -, ht⟩ := exists_play msgs [] hm
    rw [hv] at ht
    exact ⟨turns, ht⟩

/-! ## A caller that is left waiting -/

/-- As long as the worker does not leave, the caller takes nothing. -/
def LeftWaiting (h : Handler M V) (msgs : List M) : Prop :=
  ∀ turns, Turn.leave ∉ turns → (play h turns (start msgs)).taken = none

/-- On messages that do not end the wait, the channel stays empty and the worker running. -/
theorem taken_of_quiet (turns : List Turn) (hstays : Turn.leave ∉ turns) :
    ∀ inbox handled : List M, (∀ m ∈ inbox, ends h m = false) →
      (play h turns ⟨inbox, handled, [], true, none⟩ : Mailbox M V).taken = none := by
  induction turns with
  | nil => exact fun _ _ _ => rfl
  | cons t turns ih =>
    intro inbox handled hquiet
    have hstays' : Turn.leave ∉ turns := fun hmem => hstays (List.mem_cons_of_mem t hmem)
    rw [play, List.foldl_cons]
    cases t with
    | leave => exact absurd List.mem_cons_self hstays
    | look => exact ih hstays' inbox handled hquiet
    | handle =>
      cases inbox with
      | nil => exact ih hstays' [] handled hquiet
      | cons u ms =>
        rw [turn_handle_quiet (hquiet u List.mem_cons_self)]
        exact ih hstays' ms _ fun m hm => hquiet m (List.mem_cons_of_mem u hm)

/-- **The caller is left waiting iff no message ends the wait.** -/
theorem leftWaiting_iff : LeftWaiting h msgs ↔ ∀ m ∈ msgs, ends h m = false := by
  constructor
  · intro hwait
    have hnone : firstEnding h msgs = none := by
      cases hf : firstEnding h msgs with
      | none => rfl
      | some m =>
        obtain ⟨turns, hstays, ht⟩ := exists_play msgs [] hf
        have hnone : (play h turns ⟨msgs, [], [], true, none⟩).taken = none := hwait turns hstays
        rw [ht] at hnone
        cases hnone
    intro m hm
    simpa using List.find?_eq_none.mp hnone m hm
  · exact fun hquiet turns hstays => taken_of_quiet turns hstays msgs [] hquiet

end Mailbox

end SubstrateClient.Lib
