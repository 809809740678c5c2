import SubstrateClient.Rpc.Client

/-!
# Waiting for an earlier milestone (`rpc/ws_client/mod.rs`)

The statuses of a watched extrinsic are passed in the order `ready`, `broadcast`, `inBlock`,
`finalized`, and a node may skip some of them. Each of the four handlers names the statuses it ends
on, and each ends on its own milestone and on `finalized`; the milestones between the two are
missing.

`endsEarlier_iff` says on exactly which runs of messages an earlier milestone is waited for no
longer than a later one: up to the first message that ends every wait, each `broadcast` comes after
a `ready` and each `inBlock` after a `broadcast`. A node that reports `inBlock` alone escapes it
(`not_endsEarlier_inBlock`).
-/

namespace SubstrateClient.Rpc

open SubstrateClient.Lib

/-- The statuses a caller may wait for, in their order. -/
inductive Milestone where
  | ready | broadcast | inBlock | finalized
  deriving DecidableEq, Repr

namespace Milestone

/-- The place in the order. -/
def rank : Milestone → Nat
  | ready => 0
  | broadcast => 1
  | inBlock => 2
  | finalized => 3

/-- The status of the milestone. -/
def status : Milestone → XtStatus
  | ready => .ready
  | broadcast => .broadcast
  | inBlock => .inBlock
  | finalized => .finalized

/-- The handler that waits for the milestone. -/
def onMessageFn (J : Serde) : Milestone → OnMessageFn
  | ready => onExtrinsicMsgUntilReady J
  | broadcast => onExtrinsicMsgUntilBroadcast J
  | inBlock => onExtrinsicMsgUntilInBlock J
  | finalized => onExtrinsicMsgUntilFinalized J

/-- The handler has ended the wait on one of the messages. -/
def Ended (J : Serde) (a : Milestone) (msgs : List String) : Prop :=
  ∃ m ∈ msgs, Mailbox.ends (a.onMessageFn J).worker m = true

end Milestone

/-- Waiting for less takes no longer than waiting for more. -/
def EndsEarlier (J : Serde) (msgs : List String) : Prop :=
  ∀ lo hi : Milestone, lo.rank < hi.rank → ∀ pre, pre <+: msgs → hi.Ended J pre → lo.Ended J pre

/-- Up to the first message that ends every wait, no status comes before the one it follows. -/
def InOrder (J : Serde) (msgs : List String) : Prop :=
  ∀ pre m post, msgs = pre ++ m :: post → (∀ u ∈ pre, ¬ EndsAll J u) →
    (Carries J .broadcast m → ∃ u ∈ pre, Carries J .ready u) ∧
    (Carries J .inBlock m → ∃ u ∈ pre, Carries J .broadcast u)

variable {J : Serde} {msg : String} {msgs : List String}

/-! ## What ends a wait -/

theorem extrinsicHandler_status (a : Milestone) :
    extrinsicHandler J a.status = some (a.onMessageFn J) := by
  cases a <;> rfl

/-- The verdict on a message that may carry a milestone. -/
theorem verdict_status (a : Milestone) :
    verdict J a.status msg = watchVerdict a.status (parseStatus J msg) := by
  cases a <;> rfl

/-- **What each of the four handlers ends on.** -/
theorem ends_iff (a : Milestone) :
    Mailbox.ends (a.onMessageFn J).worker msg = true ↔ EndsAll J msg ∨ Carries J a.status msg := by
  rw [← not_iff_not, Bool.not_eq_true, ends_eq_false_iff (extrinsicHandler_status a),
    verdict_status]
  by_cases hs : ∃ s, Carries J s msg
  · obtain ⟨s, hs⟩ := hs
    obtain ⟨x, hx⟩ := carries_iff.mp hs
    have hcarries : ∀ s', Carries J s' msg ↔ s = s' := fun s' => ⟨hs.unique, fun h => h ▸ hs⟩
    rw [endsAll_of_carries hs, hcarries, hx, watchVerdict]
    split_ifs <;> simp_all
  · have hall : EndsAll J msg := endsAll_of_forall_not_carries (not_exists.mp hs)
    simp only [hall, true_or, not_true, iff_false]
    cases hparse : parseStatus J msg with
    | ok r => exact absurd ⟨r.1, carries_iff.mpr ⟨r.2, hparse⟩⟩ hs
    | err e => simp [watchVerdict]
    | panic m => simp [watchVerdict]
    | outOfFuel => simp [watchVerdict]

namespace Milestone

theorem ended_append {a : Milestone} {pre post : List String} :
    a.Ended J (pre ++ post) ↔ a.Ended J pre ∨ a.Ended J post := by
  unfold Ended
  simp only [List.mem_append, or_and_right, exists_or]

theorem ended_singleton {a : Milestone} :
    a.Ended J [msg] ↔ EndsAll J msg ∨ Carries J a.status msg := by
  unfold Ended
  simp only [List.mem_singleton, exists_eq_left, ends_iff]

/-- Where nothing ends every wait, a wait ends on the status of its milestone. -/
theorem ended_iff {a : Milestone} (h : ∀ u ∈ msgs, ¬ EndsAll J u) :
    a.Ended J msgs ↔ ∃ u ∈ msgs, Carries J a.status u := by
  unfold Ended
  refine exists_congr fun u => and_congr_right fun hu => ?_
  rw [ends_iff, or_iff_right (h u hu)]

end Milestone

/-! ## When waiting for less takes no longer -/

/-- An earlier wait that has ended with the later one had ended before it. -/
theorem EndsEarlier.carries (h : EndsEarlier J msgs) (lo hi : Milestone) (hlt : lo.rank < hi.rank)
    (hmid : hi ≠ .finalized) {pre post : List String} (hsplit : msgs = pre ++ msg :: post)
    (hpre : ∀ u ∈ pre, ¬ EndsAll J u) (hmsg : Carries J hi.status msg) :
    ∃ u ∈ pre, Carries J lo.status u := by
  have hprefix : pre ++ [msg] <+: msgs := ⟨post, by rw [hsplit, List.append_assoc]; rfl⟩
  have hended : lo.Ended J (pre ++ [msg]) := h lo hi hlt _ hprefix
    (Milestone.ended_append.mpr (Or.inr (Milestone.ended_singleton.mpr (Or.inr hmsg))))
  rcases Milestone.ended_append.mp hended with hlo | hlo
  · exact (Milestone.ended_iff hpre).mp hlo
  · -- the message is neither `finalized` nor `future`, and carries no second status
    rcases Milestone.ended_singleton.mp hlo with hall | hlo
    · have hs := (endsAll_of_carries hmsg).mp hall
      cases hi <;> simp [Milestone.status] at hs hmid
    · have hs := hlo.unique hmsg
      cases lo <;> cases hi <;> simp [Milestone.status, Milestone.rank] at hs hlt

/-- In a run in order, a status was preceded by the one before it. -/
theorem InOrder.earlier (h : InOrder J msgs) {pre : List String} (hpre : pre <+: msgs)
    (hquiet : ∀ u ∈ pre, ¬ EndsAll J u) :
    ((∃ u ∈ pre, Carries J .broadcast u) → ∃ u ∈ pre, Carries J .ready u) ∧
    ((∃ u ∈ pre, Carries J .inBlock u) → ∃ u ∈ pre, Carries J .broadcast u) := by
  obtain ⟨rest, rfl⟩ := hpre
  have hsplit : ∀ u ∈ pre, ∃ p₁ : List String, (∀ w ∈ p₁, w ∈ pre) ∧
      (Carries J .broadcast u → ∃ w ∈ p₁, Carries J .ready w) ∧
      (Carries J .inBlock u → ∃ w ∈ p₁, Carries J .broadcast w) := by
    intro u hu
    obtain ⟨p₁, p₂, rfl⟩ := List.append_of_mem hu
    have hsub : ∀ w ∈ p₁, w ∈ p₁ ++ u :: p₂ := fun w hw => List.mem_append_left _ hw
    exact ⟨p₁, hsub, h p₁ u (p₂ ++ rest) (by simp) fun w hw => hquiet w (hsub w hw)⟩
  constructor
  · rintro ⟨u, hu, hs⟩
    obtain ⟨p₁, hsub, hb, -⟩ := hsplit u hu
    obtain ⟨w, hw, hr⟩ := hb hs
    exact ⟨w, hsub w hw, hr⟩
  · rintro ⟨u, hu, hs⟩
    obtain ⟨p₁, hsub, -, hi⟩ := hsplit u hu
    obtain ⟨w, hw, hb⟩ := hi hs
    exact ⟨w, hsub w hw, hb⟩

/-- **Waiting for less takes no longer than waiting for more** on exactly the runs in which, up to
the first message that ends every wait, `broadcast` comes after `ready` and `inBlock` after
`broadcast`. -/
theorem endsEarlier_iff (J : Serde) (msgs : List String) : EndsEarlier J msgs ↔ InOrder J msgs := by
  constructor
  · intro h pre m post hsplit hpre
    constructor
    · exact h.carries .ready .broadcast (by decide) (by decide) hsplit hpre
    · exact h.carries .broadcast .inBlock (by decide) (by decide) hsplit hpre
  · intro h lo hi hlt pre hpre hended
    by_cases hall : ∃ u ∈ pre, EndsAll J u
    · obtain ⟨u, hu, hall⟩ := hall
      exact ⟨u, hu, (ends_iff lo).mpr (Or.inl hall)⟩
    · have hquiet : ∀ u ∈ pre, ¬ EndsAll J u := fun u hu h => hall ⟨u, hu, h⟩
      rw [Milestone.ended_iff hquiet] at hended ⊢
      obtain ⟨hready, hbroadcast⟩ := h.earlier hpre hquiet
      cases hi with
      | ready => cases hlt
      | broadcast =>
        cases lo with
        | ready => exact hready hended
        | _ => simp [Milestone.rank] at hlt
      | inBlock =>
        cases lo with
        | ready => exact hready (hbroadcast hended)
        | broadcast => exact hbroadcast hended
        | _ => simp [Milestone.rank] at hlt
      | finalized =>
        obtain ⟨u, hu, hs⟩ := hended
        exact absurd ((endsAll_of_carries hs).mpr (Or.inl rfl)) (hquiet u hu)

/-- The notification that an extrinsic is in a block, with the hash of the block. -/
def inBlockStatus : String × Json :=
  blockNotification "inBlock" "0xa1b2c3d4e5f60718293a4b5c6d7e8f90112233445566778899aabbccddeeff01"

theorem carries_inBlock {hash : String}
    (hv : J.fromStr msg = .ok (blockNotification "inBlock" hash).2) : Carries J .inBlock msg :=
  ⟨_, hv, Bool.false_ne_true, Bool.false_ne_true, rfl⟩

/-- **A skipped status keeps the earlier waits blocked**: the node reports `inBlock`, and only the
handler that waits for it ends. -/
theorem not_endsEarlier_inBlock :
    ¬ EndsEarlier (Serde.ofTexts [inBlockStatus]) [inBlockStatus.1] := by
  intro h
  obtain ⟨u, hu, -⟩ := h.carries .broadcast .inBlock (by decide) (by decide)
    (List.nil_append _).symm (by simp)
    (carries_inBlock (Serde.fromStr_ofTexts_self inBlockStatus))
  cases hu

end SubstrateClient.Rpc
