import SubstrateClient.Lib.Cursor

/-!
# Calls with fuel

A definition by recursion on fuel is a family of calls, one for each bound on the depth of the
recursion. A *monotone* family changes nothing but outcomes that ran out of it, so what it does with
some fuel it does with more: it `Ends`, `Yields` a value or `Panics` when it does so with some fuel.

The rules say what a sequence (`andThen`) and a loop (`loop`) do from what their parts do, each with
a fuel of its own; the sequence takes the larger. `Ends.loop` carries an invariant of the states.
A call that `Reports` answers what it is not meant for with an error: it does unless it panics, if
its values are right (`reports_iff_not_panics`). That says nothing of a call that never ends; one
that `Answers` ends as well (`Ends.answers_iff_reports`). One that `Decides` a property of its values
ends on every argument: with a value that has the property, or with an error where no value has it.
-/

namespace SubstrateClient.Lib

variable {ε α β γ ι τ : Type}

/-- A call with a bound on the depth of its recursion. -/
abbrev Fueled (ε α β : Type) := Nat → α → Outcome ε β

namespace Fueled

/-- More fuel changes nothing but an outcome that ran out of it. -/
def Mono (F : Fueled ε α β) : Prop := ∀ n n', n ≤ n' → ∀ a, (F n a).Le (F n' a)

/-- With enough fuel the call ends. -/
def Ends (F : Fueled ε α β) (a : α) : Prop := ∃ n, F n a ≠ .outOfFuel

/-- With enough fuel the call returns the value. -/
def Yields (F : Fueled ε α β) (a : α) (b : β) : Prop := ∃ n, F n a = .ok b

/-- With enough fuel the call panics. -/
def Panics (F : Fueled ε α β) (a : α) : Prop := ∃ n m, F n a = .panic m

/-- Whenever the call ends, it returns: an error, or a value, and then `P` holds of the argument. -/
def Reports (F : Fueled ε α β) (P : α → Prop) (a : α) : Prop :=
  ∀ n, F n a ≠ .outOfFuel → (∃ e, F n a = .err e) ∨ P a ∧ ∃ b, F n a = .ok b

/-- The call ends, with an error, or with a value, and then `P` holds of the argument. -/
def Answers (F : Fueled ε α β) (P : α → Prop) (a : α) : Prop :=
  (∃ e n₀, ∀ n ≥ n₀, F n a = .err e) ∨ P a ∧ ∃ b n₀, ∀ n ≥ n₀, F n a = .ok b

/-- The call ends with a value that has the property, or with an error, and no value has it. -/
def Decides (F : Fueled ε α β) (P : β → Prop) (a : α) : Prop :=
  (∃ b, P b ∧ ∃ n₀, ∀ n ≥ n₀, F n a = .ok b) ∨ (∀ b, ¬ P b) ∧ ∃ e n₀, ∀ n ≥ n₀, F n a = .err e

/-- One call after the other. -/
def andThen (F : Fueled ε α β) (G : Fueled ε β γ) : Fueled ε α γ := fun n a => F n a >>= G n

/-- A loop of calls. -/
def loop (l : List ι) (F : ι → Fueled ε τ τ) : Fueled ε τ τ := fun n => forEach l fun x => F x n

section Rules

variable {F : Fueled ε α β} {G : Fueled ε β γ} {a : α} {b : β} {c : γ}

theorem not_reports_of_panic {P : α → Prop} {n : Nat} {m : String} (h : F n a = .panic m) :
    ¬ Reports F P a := by
  intro hreports
  have hn := hreports n (by rw [h]; nofun)
  simp only [h, reduceCtorEq, exists_false, and_false, or_false] at hn

/-- A call whose values are right reports, unless it panics. -/
theorem reports_iff_not_panics {P : α → Prop} (hP : ∀ n b, F n a = .ok b → P a) :
    Reports F P a ↔ ¬ Panics F a := by
  constructor
  · rintro h ⟨n, m, hp⟩
    exact not_reports_of_panic hp h
  · intro h n hn
    cases hFa : F n a with
    | ok b => exact .inr ⟨hP n b hFa, b, rfl⟩
    | err e => exact .inl ⟨e, rfl⟩
    | panic m => exact absurd ⟨n, m, hFa⟩ h
    | outOfFuel => exact absurd hFa hn

/-- With more fuel, the outcome stays. -/
theorem Mono.stable (hF : F.Mono) {n n' : Nat} (hle : n ≤ n') {r : Outcome ε β} (h : F n a = r)
    (hr : r ≠ .outOfFuel) : F n' a = r := by
  subst h
  exact (hF n n' hle a).eq_of_ne hr

/-- A call that ends has one outcome, with any fuel from some bound on. -/
theorem Ends.outcome (hF : F.Mono) (h : Ends F a) :
    ∃ r, r ≠ .outOfFuel ∧ ∃ n₀, ∀ n ≥ n₀, F n a = r := by
  obtain ⟨n, hn⟩ := h
  exact ⟨F n a, hn, n, fun n' hle => hF.stable hle rfl hn⟩

/-- A call that ends answers when it reports. -/
theorem Ends.answers_iff_reports (hF : F.Mono) (h : Ends F a) {P : α → Prop} :
    Answers F P a ↔ Reports F P a := by
  constructor
  · rintro (⟨e, n₀, h⟩ | ⟨hP, b, n₀, h⟩) n hn
    · have hmax := h _ (Nat.le_max_right n n₀)
      rw [hF.stable (Nat.le_max_left n n₀) rfl hn] at hmax
      exact .inl ⟨e, hmax⟩
    · have hmax := h _ (Nat.le_max_right n n₀)
      rw [hF.stable (Nat.le_max_left n n₀) rfl hn] at hmax
      exact .inr ⟨hP, b, hmax⟩
  · intro hreports
    obtain ⟨r, hr, n₀, hn⟩ := h.outcome hF
    rcases hreports n₀ (by rw [hn n₀ le_rfl]; exact hr) with ⟨e, he⟩ | ⟨hP, b, hb⟩
    · rw [hn n₀ le_rfl] at he
      exact .inl ⟨e, n₀, fun n hle => (hn n hle).trans he⟩
    · rw [hn n₀ le_rfl] at hb
      exact .inr ⟨hP, b, n₀, fun n hle => (hn n hle).trans hb⟩

/-- A call that ends and does not panic decides what its values have in common. -/
theorem Ends.decides (hF : F.Mono) (h : Ends F a) (hp : ¬ Panics F a) {P : β → Prop}
    (hP : ∀ b, Yields F a b ↔ P b) : Decides F P a := by
  obtain ⟨r, hr, n₀, hn⟩ := h.outcome hF
  cases r with
  | ok b => exact .inl ⟨b, (hP b).mp ⟨n₀, hn n₀ le_rfl⟩, n₀, hn⟩
  | err e =>
    refine .inr ⟨fun b hb => ?_, e, n₀, hn⟩
    obtain ⟨n, hok⟩ := (hP b).mpr hb
    have hmax := hF.stable (Nat.le_max_left n n₀) hok nofun
    rw [hn _ (Nat.le_max_right n n₀)] at hmax
    cases hmax
  | panic msg => exact absurd ⟨n₀, msg, hn n₀ le_rfl⟩ hp
  | outOfFuel => exact absurd rfl hr

theorem mono_const (f : α → Outcome ε β) : Mono fun _ => f := fun _ _ _ _ => Outcome.Le.refl _

/-- The value of the first call is passed on. -/
theorem andThen_of_yields (hF : F.Mono) (h : Yields F a b) :
    ∃ n₀, ∀ n ≥ n₀, F.andThen G n a = G n b := by
  obtain ⟨n₀, h⟩ := h
  refine ⟨n₀, fun n hle => ?_⟩
  rw [Fueled.andThen, hF.stable hle h nofun, Outcome.ok_bind]

theorem Ends.andThen (hF : F.Mono) (hG : G.Mono) (h : Ends F a)
    (hb : ∀ b, Yields F a b → Ends G b) : Ends (F.andThen G) a := by
  obtain ⟨n, hn⟩ := h
  cases hFa : F n a with
  | ok b =>
    obtain ⟨n₀, heq⟩ := andThen_of_yields (G := G) hF ⟨n, hFa⟩
    obtain ⟨k, hk⟩ := hb b ⟨n, hFa⟩
    refine ⟨max n₀ k, ?_⟩
    rw [heq _ (Nat.le_max_left _ _), hG.stable (Nat.le_max_right _ _) rfl hk]
    exact hk
  | err e => exact ⟨n, by simp [Fueled.andThen, hFa]⟩
  | panic m => exact ⟨n, by simp [Fueled.andThen, hFa]⟩
  | outOfFuel => exact absurd hFa hn

theorem Yields.andThen (hF : F.Mono) (hG : G.Mono) (h : Yields F a b) (h' : Yields G b c) :
    Yields (F.andThen G) a c := by
  obtain ⟨n₀, heq⟩ := andThen_of_yields (G := G) hF h
  obtain ⟨k, hk⟩ := h'
  refine ⟨max n₀ k, ?_⟩
  rw [heq _ (Nat.le_max_left _ _), hG.stable (Nat.le_max_right _ _) hk nofun]

/-- A sequence panics when its first call does. -/
theorem Panics.first (h : Panics F a) : Panics (F.andThen G) a := by
  obtain ⟨n, m, h⟩ := h
  exact ⟨n, m, by rw [Fueled.andThen, h, Outcome.panic_bind]⟩

/-- And when its second call does, on the value of the first. -/
theorem Panics.second (hF : F.Mono) (hG : G.Mono) (h : Yields F a b) (h' : Panics G b) :
    Panics (F.andThen G) a := by
  obtain ⟨n₀, heq⟩ := andThen_of_yields (G := G) hF h
  obtain ⟨k, m, hk⟩ := h'
  refine ⟨max n₀ k, m, ?_⟩
  rw [heq _ (Nat.le_max_left _ _), hG.stable (Nat.le_max_right _ _) hk nofun]

/-- A call that is another one, followed by what returns, ends where that one does. -/
theorem Ends.of_bind {δ : Type} {F : Fueled ε α δ} {G : Fueled ε β γ} {K : Nat → γ → Outcome ε δ}
    (h : ∀ n, F n a = G n b >>= K n) (hK : ∀ n c, (K n c).Returns) (hG : Ends G b) : Ends F a := by
  obtain ⟨n, hn⟩ := hG
  refine ⟨n, ?_⟩
  rw [h]
  cases hb : G n b with
  | ok c => exact (hK n c).ne_outOfFuel
  | err e => nofun
  | panic m => nofun
  | outOfFuel => exact absurd hb hn

/-- A call that is another one, followed by what returns, panics where that one does. -/
theorem panics_iff_of_bind {δ : Type} {F : Fueled ε α δ} {G : Fueled ε β γ}
    {K : Nat → γ → Outcome ε δ} (h : ∀ n, F n a = G n b >>= K n) (hK : ∀ n c, (K n c).Returns) :
    Panics F a ↔ Panics G b := by
  constructor
  · rintro ⟨n, m, hF⟩
    rw [h] at hF
    rcases Outcome.bind_eq_panic.mp hF with hG | ⟨c, -, hc⟩
    · exact ⟨n, m, hG⟩
    · exact absurd hc ((hK n c).ne_panic m)
  · rintro ⟨n, m, hG⟩
    exact ⟨n, m, by rw [h, hG, Outcome.panic_bind]⟩

end Rules

section Loop

variable {F : ι → Fueled ε τ τ}

theorem loop_cons (x : ι) (xs : List ι) : loop (x :: xs) F = (F x).andThen (loop xs F) := rfl

theorem loop_append : ∀ l l' : List ι, loop (l ++ l') F = (loop l F).andThen (loop l' F)
  | [], _ => rfl
  | x :: xs, l' => by
    funext n s
    have ih := congrFun (loop_append xs l') n
    simp only [loop] at ih
    simp only [loop, Fueled.andThen, List.cons_append, forEach_cons, ih]
    cases F x n s <;> rfl

theorem Mono.loop {l : List ι} (hF : ∀ x ∈ l, (F x).Mono) : (loop l F).Mono :=
  fun n n' hle s => forEach_le (fun x hx => hF x hx n n' hle) s

/-- **A loop ends** when its rounds do on the states of an invariant that they keep. -/
theorem Ends.loop {I : τ → Prop} : ∀ {l : List ι}, (∀ x ∈ l, (F x).Mono) →
    (∀ x ∈ l, ∀ s, I s → Ends (F x) s) → (∀ x ∈ l, ∀ s s', I s → Yields (F x) s s' → I s') →
    ∀ {s}, I s → Ends (loop l F) s
  | [], _, _, _, s, _ => ⟨0, nofun⟩
  | x :: xs, hF, hE, hI, s, hs => by
    obtain ⟨hFx, hFxs⟩ := List.forall_mem_cons.mp hF
    obtain ⟨hEx, hExs⟩ := List.forall_mem_cons.mp hE
    obtain ⟨hIx, hIxs⟩ := List.forall_mem_cons.mp hI
    rw [loop_cons]
    exact (hEx s hs).andThen hFx (Mono.loop hFxs) fun t ht =>
      Ends.loop hFxs hExs hIxs (hIx s t hs ht)

end Loop

end Fueled

end SubstrateClient.Lib
