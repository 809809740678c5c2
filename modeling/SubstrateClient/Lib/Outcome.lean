/-!
# Outcomes of a call that may fail, panic or not return

`Outcome ε α` is what a call ends with: a value, an error handed to the caller (`?`), a panic that
unwinds, or `outOfFuel`, which stands for a recursion deeper than the fuel of its definition.
Sequencing stops at the first outcome that is not a value.

A call `Returns` when it ends with a value or an error; a sequence does when each of its steps does
(`returns_bind`).

`Le x y` is the order of the fuel: `y` is what `x` is, unless `x` ran out. A definition by
recursion on fuel is monotone in it, so its outcome at a large enough fuel is *the* outcome.
-/

namespace SubstrateClient.Lib

/-- What a call ends with. -/
inductive Outcome (ε α : Type) where
  | ok (a : α)
  | err (e : ε)
  | panic (msg : String)
  | outOfFuel
  deriving DecidableEq, Repr

namespace Outcome

variable {ε α β γ : Type}

/-- Sequencing: only a value goes on. -/
def bind : Outcome ε α → (α → Outcome ε β) → Outcome ε β
  | ok a, f => f a
  | err e, _ => err e
  | panic m, _ => panic m
  | outOfFuel, _ => outOfFuel

instance : Monad (Outcome ε) where
  pure := ok
  bind := bind

/-- `Option::ok_or`. -/
def okOr (x : Option α) (e : ε) : Outcome ε α :=
  match x with
  | some a => ok a
  | none => err e

/-- `Result` with its error converted, as `?` does through `From`. -/
def ofExcept {δ : Type} (conv : δ → ε) : Except δ α → Outcome ε α
  | .ok a => ok a
  | .error e => err (conv e)

@[simp] theorem pure_eq (a : α) : (pure a : Outcome ε α) = ok a := rfl
@[simp] theorem ok_bind (a : α) (f : α → Outcome ε β) : (ok a >>= f) = f a := rfl
@[simp] theorem err_bind (e : ε) (f : α → Outcome ε β) : (err e >>= f) = err e := rfl
@[simp] theorem panic_bind (m : String) (f : α → Outcome ε β) : (panic m >>= f) = panic m := rfl
@[simp] theorem outOfFuel_bind (f : α → Outcome ε β) :
    ((outOfFuel : Outcome ε α) >>= f) = outOfFuel := rfl

@[simp] theorem okOr_some (a : α) (e : ε) : okOr (some a) e = ok a := rfl
@[simp] theorem okOr_none (e : ε) : okOr (none : Option α) e = err e := rfl

@[simp] theorem ofExcept_ok {δ : Type} (conv : δ → ε) (a : α) :
    ofExcept conv (.ok a) = ok a := rfl
@[simp] theorem ofExcept_error {δ : Type} (conv : δ → ε) (e : δ) :
    ofExcept conv (.error e : Except δ α) = err (conv e) := rfl

/-- **Inversion of a sequence**: it returns a value iff both halves do. -/
theorem bind_eq_ok {x : Outcome ε α} {f : α → Outcome ε β} {b : β} :
    (x >>= f) = ok b ↔ ∃ a, x = ok a ∧ f a = ok b := by
  cases x <;> simp

/-- A sequence panics when its first half does, or its second half on the value of the first. -/
theorem bind_eq_panic {x : Outcome ε α} {f : α → Outcome ε β} {m : String} :
    (x >>= f) = panic m ↔ x = panic m ∨ ∃ a, x = ok a ∧ f a = panic m := by
  cases x <;> simp

theorem okOr_eq_ok {x : Option α} {e : ε} {a : α} : okOr x e = ok a ↔ x = some a := by
  cases x <;> simp

theorem ofExcept_eq_ok {δ : Type} {conv : δ → ε} {x : Except δ α} {a : α} :
    ofExcept conv x = ok a ↔ x = .ok a := by
  cases x <;> simp

/-- Inversion of a sequence of `Result`s. -/
theorem except_bind_eq_ok {x : Except ε α} {f : α → Except ε β} {b : β} :
    (x >>= f) = .ok b ↔ ∃ a, x = .ok a ∧ f a = .ok b := by
  cases x <;> simp [Bind.bind, Except.bind]

/-! ## Calls that return -/

/-- The call returns, with a value or with an error. -/
def Returns : Outcome ε α → Prop
  | ok _ | err _ => True
  | panic _ | outOfFuel => False

@[simp] theorem returns_ok (a : α) : (ok a : Outcome ε α).Returns := trivial
@[simp] theorem returns_err (e : ε) : (err e : Outcome ε α).Returns := trivial
@[simp] theorem not_returns_panic (m : String) : ¬ (panic m : Outcome ε α).Returns := id
@[simp] theorem not_returns_outOfFuel : ¬ (outOfFuel : Outcome ε α).Returns := id

theorem Returns.ne_panic {x : Outcome ε α} (h : x.Returns) (m : String) : x ≠ panic m := by
  rintro rfl
  exact h

theorem Returns.ne_outOfFuel {x : Outcome ε α} (h : x.Returns) : x ≠ outOfFuel := by
  rintro rfl
  exact h

@[simp] theorem returns_okOr (x : Option α) (e : ε) : (okOr x e).Returns := by
  cases x <;> simp

@[simp] theorem returns_ofExcept {δ : Type} (conv : δ → ε) (x : Except δ α) :
    (ofExcept conv x).Returns := by
  cases x <;> simp

/-- **A sequence returns iff its steps do.** -/
theorem returns_bind {x : Outcome ε α} {f : α → Outcome ε β} :
    (x >>= f).Returns ↔ x.Returns ∧ ∀ a, x = ok a → (f a).Returns := by
  cases x <;> simp

/-! ## The order of the fuel -/

/-- `y` is what `x` is, unless `x` ran out of fuel. -/
def Le (x y : Outcome ε α) : Prop := x = outOfFuel ∨ x = y

theorem Le.refl (x : Outcome ε α) : Le x x := Or.inr rfl

/-- An outcome other than running out is the outcome with more fuel. -/
theorem Le.eq_of_ne {x y : Outcome ε α} (h : Le x y) (hx : x ≠ outOfFuel) : y = x :=
  (h.resolve_left hx).symm

theorem Le.bind {x y : Outcome ε α} {f g : α → Outcome ε β} (h : Le x y)
    (hfg : ∀ a, Le (f a) (g a)) : Le (x >>= f) (y >>= g) := by
  rcases h with rfl | rfl
  · exact Or.inl rfl
  · cases x with
    | ok a => exact hfg a
    | err e => exact Or.inr rfl
    | panic m => exact Or.inr rfl
    | outOfFuel => exact Or.inl rfl

end Outcome

end SubstrateClient.Lib
