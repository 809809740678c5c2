import Mathlib.Data.List.Basic

/-!
# Items with a separator between them

`sepBy` reads items off a row of tokens until the closing one, with a separator between every two.
It is given the reader of an item, and reads back what is written this way (`sepBy_joined`).
-/

namespace SubstrateClient.Lib

variable {α τ : Type}

/-- Reads something off the front of a row. -/
abbrev RowReader (τ α : Type) : Type := List τ → Option (α × List τ)

/-- The items up to the closing token. -/
def sepBy [DecidableEq τ] (item : RowReader τ α) (sep close : τ) : Nat → RowReader τ (List α)
  | 0, _ => none
  | fuel + 1, row => do
    let (x, row) ← item row
    match row with
    | t :: row =>
      if t = close then some ([x], row)
      else if t = sep then (sepBy item sep close fuel row).map fun (xs, row) => (x :: xs, row)
      else none
    | [] => none

/-- The words of the items, with a separator between every two. -/
def joined (sep : τ) (write : α → List τ) : List α → List τ
  | [] => []
  | [x] => write x
  | x :: y :: xs => write x ++ sep :: joined sep write (y :: xs)

/-- The word of an item is part of what is written. -/
theorem length_le_joined (sep : τ) (write : α → List τ) :
    ∀ {xs : List α} {x : α}, x ∈ xs → (write x).length ≤ (joined sep write xs).length
  | [y], x, hx => by
    rw [List.mem_singleton.mp hx]
    exact Nat.le_refl _
  | y :: z :: xs, x, hx => by
    rw [joined, List.length_append, List.length_cons]
    rcases List.mem_cons.mp hx with rfl | hx
    · omega
    · have := length_le_joined sep write hx
      omega

/-- There is a separator between every two items. -/
theorem length_le_length_joined (sep : τ) (write : α → List τ) :
    ∀ xs : List α, xs.length ≤ (joined sep write xs).length + 1
  | [] => Nat.zero_le _
  | [_] => Nat.le_add_left _ _
  | x :: y :: xs => by
    have := length_le_length_joined sep write (y :: xs)
    simp only [joined, List.length_append, List.length_cons] at this ⊢
    omega

/-- **Items are read back**, when each of them is before the separator and the closing token. -/
theorem sepBy_joined [DecidableEq τ] {item : RowReader τ α} {sep close : τ} {write : α → List τ}
    (hne : sep ≠ close) :
    ∀ {xs : List α} {fuel : Nat}, xs ≠ [] → xs.length ≤ fuel →
      (∀ x ∈ xs, ∀ row, item (write x ++ sep :: row) = some (x, sep :: row) ∧
        item (write x ++ close :: row) = some (x, close :: row)) →
      ∀ row, sepBy item sep close fuel (joined sep write xs ++ close :: row) = some (xs, row)
  | [x], fuel + 1, _, _, hitem, row => by
    have hx := (hitem x List.mem_cons_self row).2
    simp only [sepBy, joined, hx, Option.bind_eq_bind, Option.bind_some, if_true]
  | x :: y :: xs, fuel + 1, _, hf, hitem, row => by
    have hx := (hitem x List.mem_cons_self (joined sep write (y :: xs) ++ close :: row)).1
    have ih : sepBy item sep close fuel (joined sep write (y :: xs) ++ close :: row) =
        some (y :: xs, row) := sepBy_joined hne (List.cons_ne_nil _ _) (Nat.le_of_succ_le_succ hf)
      (fun z hz => hitem z (List.mem_cons_of_mem x hz)) row
    simp only [sepBy, joined, List.append_assoc, List.cons_append, hx, Option.bind_eq_bind,
      Option.bind_some, if_neg hne, if_true, ih, Option.map_some]

/-- Every item that was read was read off some row. -/
theorem item_of_sepBy [DecidableEq τ] {item : RowReader τ α} {sep close : τ} :
    ∀ {fuel : Nat} {row rest : List τ} {xs : List α},
      sepBy item sep close fuel row = some (xs, rest) →
      ∀ x ∈ xs, ∃ row rest, item row = some (x, rest)
  | fuel + 1, row, rest, xs, h => by
    simp only [sepBy, Option.bind_eq_bind, Option.bind_eq_some_iff] at h
    obtain ⟨⟨x, after⟩, hx, h⟩ := h
    cases after with
    | nil => cases h
    | cons t after =>
      dsimp only at h
      split_ifs at h
      · cases h
        intro y hy
        rw [List.mem_singleton.mp hy]
        exact ⟨row, _, hx⟩
      · obtain ⟨⟨ys, left⟩, hys, hr⟩ := Option.map_eq_some_iff.mp h
        cases hr
        intro y hy
        rcases List.mem_cons.mp hy with rfl | hy
        · exact ⟨row, _, hx⟩
        · exact item_of_sepBy hys y hy

end SubstrateClient.Lib
