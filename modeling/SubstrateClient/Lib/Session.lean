import Mathlib.Logic.Relation

/-!
# Sessions with a service that moves

A session asks a service and goes on with the answer, until it is done. The service answers from a
state, and takes steps of its own: any number of them before each answer.

* `runs_bind_iff`, `runs_andThen_iff`: one session after another runs as the first, and then as the
  second from where the first has ended.
* `runs_call_iff`: a single call has the answer of the state it ends in.
* `runs_eval`: as long as the service does not move, a session ends with its value.
-/

namespace SubstrateClient.Lib

/-- A caller that asks questions `Q` and goes on with answers `A`. -/
inductive Session (Q A α : Type) where
  | done (result : α)
  | ask (q : Q) (next : A → Session Q A α)

namespace Session

variable {Q A α β ε σ : Type}

/-- One session, and another that goes on with its result. -/
def bind : Session Q A α → (α → Session Q A β) → Session Q A β
  | done a, f => f a
  | ask q next, f => ask q fun answer => (next answer).bind f

/-- The same, which ends on an error. -/
def andThen (m : Session Q A (Except ε α)) (f : α → Session Q A (Except ε β)) :
    Session Q A (Except ε β) :=
  m.bind fun
    | .ok a => f a
    | .error e => done (.error e)

/-- A single question. -/
def call (q : Q) (f : A → α) : Session Q A α := ask q fun answer => done (f answer)

/-- What comes of fixed answers. -/
def eval (answer : Q → A) : Session Q A α → α
  | done a => a
  | ask q next => (next (answer q)).eval answer

/-- A run of a session, from one state of the service to another. -/
inductive Runs (step : σ → σ → Prop) (answer : σ → Q → A) :
    Session Q A α → σ → σ → α → Prop
  | done (a : α) (s : σ) : Runs step answer (done a) s s a
  | ask {q : Q} {next : A → Session Q A α} {s t u : σ} {a : α} :
      Relation.ReflTransGen step s t → Runs step answer (next (answer t q)) t u a →
      Runs step answer (ask q next) s u a

/-! ## Values -/

@[simp] theorem eval_done (answer : Q → A) (a : α) : (done a : Session Q A α).eval answer = a := rfl

@[simp] theorem eval_call (answer : Q → A) (q : Q) (f : A → α) :
    (call q f).eval answer = f (answer q) := rfl

@[simp] theorem eval_bind (answer : Q → A) (m : Session Q A α) (f : α → Session Q A β) :
    (m.bind f).eval answer = (f (m.eval answer)).eval answer := by
  induction m with
  | done a => rfl
  | ask q next ih => exact ih (answer q)

theorem eval_andThen (answer : Q → A) (m : Session Q A (Except ε α))
    (f : α → Session Q A (Except ε β)) :
    (m.andThen f).eval answer = (m.eval answer >>= fun a => (f a).eval answer) := by
  unfold andThen
  rw [eval_bind]
  cases m.eval answer <;> rfl

/-! ## Runs -/

section Runs

variable {step : σ → σ → Prop} {answer : σ → Q → A} {s u : σ}

theorem runs_done_iff {a b : α} :
    Runs step answer (done a : Session Q A α) s u b ↔ u = s ∧ b = a := by
  constructor
  · rintro ⟨⟩
    exact ⟨rfl, rfl⟩
  · rintro ⟨rfl, rfl⟩
    exact .done _ _

theorem runs_call_iff {q : Q} {f : A → α} {b : α} :
    Runs step answer (call q f) s u b ↔ Relation.ReflTransGen step s u ∧ b = f (answer u q) := by
  constructor
  · rintro (_ | ⟨hmove, hrest⟩)
    obtain ⟨rfl, rfl⟩ := runs_done_iff.mp hrest
    exact ⟨hmove, rfl⟩
  · rintro ⟨hmove, rfl⟩
    exact .ask hmove (.done _ _)

/-- **One session after another**, by induction on the run of the first. -/
theorem runs_bind_iff {m : Session Q A α} {f : α → Session Q A β} {b : β} :
    Runs step answer (m.bind f) s u b ↔
      ∃ a t, Runs step answer m s t a ∧ Runs step answer (f a) t u b := by
  constructor
  · intro h
    induction m generalizing s with
    | done a => exact ⟨a, s, .done a s, h⟩
    | ask q next ih =>
      obtain _ | ⟨hmove, hrest⟩ := h
      obtain ⟨a, t, hfirst, hsecond⟩ := ih _ hrest
      exact ⟨a, t, .ask hmove hfirst, hsecond⟩
  · rintro ⟨a, t, hfirst, hsecond⟩
    induction hfirst with
    | done a s => exact hsecond
    | ask hmove _ ih => exact .ask hmove (ih hsecond)

/-- **One session after another that succeeds.** -/
theorem runs_andThen_iff {m : Session Q A (Except ε α)} {f : α → Session Q A (Except ε β)} {b : β} :
    Runs step answer (m.andThen f) s u (.ok b) ↔
      ∃ a t, Runs step answer m s t (.ok a) ∧ Runs step answer (f a) t u (.ok b) := by
  unfold andThen
  rw [runs_bind_iff]
  constructor
  · rintro ⟨a | a, t, hfirst, hsecond⟩
    · obtain ⟨-, ⟨⟩⟩ := runs_done_iff.mp hsecond
    · exact ⟨a, t, hfirst, hsecond⟩
  · rintro ⟨a, t, hfirst, hsecond⟩
    exact ⟨.ok a, t, hfirst, hsecond⟩

/-- **A service that does not move** gives a session its value. -/
theorem runs_eval (m : Session Q A α) (s : σ) :
    Runs step answer m s s (m.eval (answer s)) := by
  induction m with
  | done a => exact .done a s
  | ask q next ih => exact .ask .refl (ih _)

end Runs

end Session

end SubstrateClient.Lib
