import Mathlib.Logic.Relation
import Mathlib.Tactic.SplitIfs

/-!
# Items with a parent and a height

An item has at most one parent, which is one lower; the items without parent have height 0. The
items below one are then a line, with exactly one at every height up to its own.

* `Forest.total`: of two items below one, one is below the other.
* `Forest.ancestorAt_eq_some`: `ancestorAt` finds the item below at a height.
* `Forest.ancestorAt_eq_none`: there is one up to the height of the item, and none beyond.
-/

namespace SubstrateClient.Lib

/-- Items with their parents and heights. -/
structure Forest (ι : Type) where
  parent : ι → Option ι
  height : ι → Nat
  height_root : ∀ i, parent i = none → height i = 0
  height_child : ∀ i j, parent i = some j → height i = height j + 1

namespace Forest

variable {ι : Type} (f : Forest ι)

/-- The second item is the first, or its parent, or the parent of that, and so on. -/
def Extends : ι → ι → Prop := Relation.ReflTransGen fun i j => f.parent i = some j

/-- So many parents down. -/
def down : Nat → ι → Option ι
  | 0, i => some i
  | n + 1, i => (f.parent i).bind (down n)

/-- The item below at a height. -/
def ancestorAt (i : ι) (n : Nat) : Option ι :=
  if n ≤ f.height i then f.down (f.height i - n) i else none

variable {f} {i j k : ι} {n : Nat}

theorem Extends.refl (i : ι) : f.Extends i i := Relation.ReflTransGen.refl

theorem Extends.trans (hij : f.Extends i j) (hjk : f.Extends j k) : f.Extends i k :=
  Relation.ReflTransGen.trans hij hjk

theorem Extends.height_le (h : f.Extends i j) : f.height j ≤ f.height i := by
  induction h with
  | refl => exact Nat.le_refl _
  | @tail b c _ hstep ih =>
    have := f.height_child b c hstep
    omega

/-- An item of the same height is the item itself. -/
theorem Extends.eq_of_height_le (h : f.Extends i j) (hle : f.height i ≤ f.height j) : i = j := by
  obtain rfl | ⟨c, hstep, hrest⟩ := Relation.ReflTransGen.cases_head h
  · rfl
  · have hchild := f.height_child i c hstep
    have hlow := Extends.height_le hrest
    omega

/-- **Of two items below one, one is below the other.** -/
theorem Extends.total (hij : f.Extends i j) (hik : f.Extends i k)
    (hle : f.height j ≤ f.height k) : f.Extends k j := by
  have hunique : Relator.RightUnique fun i j => f.parent i = some j := by
    intro a b c hb hc
    rw [hb] at hc
    exact Option.some.inj hc
  obtain h | h := Relation.ReflTransGen.total_of_right_unique hunique hij hik
  · rw [Extends.eq_of_height_le h hle]
    exact .refl k
  · exact h

/-- Going down as far as there is, by induction on how far. -/
theorem down_eq_some : ∀ {n : Nat} {i j : ι}, f.down n i = some j →
    f.Extends i j ∧ f.height i = f.height j + n
  | 0, i, j, h => by
    cases h
    exact ⟨.refl i, rfl⟩
  | n + 1, i, j, h => by
    obtain ⟨p, hp, hrest⟩ := Option.bind_eq_some_iff.mp h
    obtain ⟨hext, hheight⟩ := down_eq_some hrest
    have hchild := f.height_child i p hp
    exact ⟨Relation.ReflTransGen.head hp hext, by omega⟩

theorem exists_down : ∀ {n : Nat} {i : ι}, n ≤ f.height i → ∃ j, f.down n i = some j
  | 0, i, _ => ⟨i, rfl⟩
  | n + 1, i, h => by
    cases hp : f.parent i with
    | none =>
      have hroot := f.height_root i hp
      omega
    | some p =>
      have hchild := f.height_child i p hp
      obtain ⟨j, hj⟩ := exists_down (n := n) (i := p) (by omega)
      exact ⟨j, by rw [down, hp, Option.bind_some, hj]⟩

/-- **The item below at a height.** -/
theorem ancestorAt_eq_some : f.ancestorAt i n = some j ↔ f.Extends i j ∧ f.height j = n := by
  unfold ancestorAt
  constructor
  · intro h
    split_ifs at h with hle
    obtain ⟨hext, hheight⟩ := down_eq_some h
    exact ⟨hext, by omega⟩
  · rintro ⟨hext, rfl⟩
    have hle := hext.height_le
    rw [if_pos hle]
    obtain ⟨k, hk⟩ := exists_down (f := f) (Nat.sub_le (f.height i) (f.height j))
    obtain ⟨hik, hheight⟩ := down_eq_some hk
    have hkj : f.Extends k j := hext.total hik (by omega)
    rw [hk, hkj.eq_of_height_le (by omega)]

/-- **Beyond its height there is none.** -/
theorem ancestorAt_eq_none : f.ancestorAt i n = none ↔ f.height i < n := by
  unfold ancestorAt
  split_ifs with hle
  · obtain ⟨j, hj⟩ := exists_down (f := f) (Nat.sub_le (f.height i) n)
    rw [hj]
    simpa using hle
  · simpa using hle

/-- Up to the height of an item that is extended, both have the same below. -/
theorem ancestorAt_of_extends (hij : f.Extends i j) (hn : n ≤ f.height j) :
    f.ancestorAt i n = f.ancestorAt j n := by
  cases hat : f.ancestorAt j n with
  | none =>
    have := ancestorAt_eq_none.mp hat
    omega
  | some k =>
    obtain ⟨hjk, hheight⟩ := ancestorAt_eq_some.mp hat
    exact ancestorAt_eq_some.mpr ⟨hij.trans hjk, hheight⟩

end Forest

end SubstrateClient.Lib
