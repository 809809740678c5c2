import Mathlib.Data.List.Induction
import Mathlib.Data.List.TakeWhile
import Mathlib.Logic.Function.Basic

/-!
# Stores of two layers

A layer in memory lies in front of one on disk: what is placed in memory hides what is written to
disk under the same key, and is gone when the store is opened again. `Layers` is that store as two
maps, of values that may differ in kind; `lastPlaced` and `lastWritten` read the same off the events
of its life.

* `find_run`: a value found is the one placed last since the store was opened, or else the one
  written last.
* `find_step_of_spares`: what happens to one key does not change what is found for another.
-/

namespace SubstrateClient.Lib

/-- What happens to a store. -/
inductive StoreEvent (κ ν δ : Type) where
  | placed (k : κ) (v : ν)
  | wrote (k : κ) (v : δ)
  | reopened

/-- A store. -/
structure Layers (κ ν δ : Type) where
  memory : κ → Option ν
  disk : κ → Option δ

variable {κ ν δ : Type} [DecidableEq κ]

namespace StoreEvent

/-- The value placed for the key. -/
def placedAt (k : κ) : StoreEvent κ ν δ → Option ν
  | .placed k' v => if k' = k then some v else none
  | .wrote _ _ | .reopened => none

/-- The value written for the key. -/
def writtenAt (k : κ) : StoreEvent κ ν δ → Option δ
  | .wrote k' v => if k' = k then some v else none
  | .placed _ _ | .reopened => none

/-- The store is opened again. -/
def isReopened : StoreEvent κ ν δ → Bool
  | .reopened => true
  | .placed _ _ | .wrote _ _ => false

/-- The event is about another key. -/
def Spares (k : κ) : StoreEvent κ ν δ → Prop
  | .placed k' _ | .wrote k' _ => k' ≠ k
  | .reopened => False

/-- The event has nothing for the key. -/
def Leaves (k : κ) (e : StoreEvent κ ν δ) : Prop := e.placedAt k = none ∧ e.writtenAt k = none

end StoreEvent

/-- The value placed last for the key since the store was opened. -/
def lastPlaced (es : List (StoreEvent κ ν δ)) (k : κ) : Option ν :=
  (es.reverse.takeWhile fun e => !e.isReopened).findSome? (StoreEvent.placedAt k)

/-- The value written last for the key. -/
def lastWritten (es : List (StoreEvent κ ν δ)) (k : κ) : Option δ :=
  es.reverse.findSome? (StoreEvent.writtenAt k)

/-- The last event decides, or leaves it to those before. -/
theorem lastPlaced_concat (es : List (StoreEvent κ ν δ)) (e : StoreEvent κ ν δ) (k : κ) :
    lastPlaced (es ++ [e]) k =
      if e.isReopened then none else (e.placedAt k).or (lastPlaced es k) := by
  unfold lastPlaced
  rw [List.reverse_append, List.reverse_singleton, List.singleton_append]
  by_cases he : e.isReopened = true
  · simp [he]
  · simp only [he, Bool.not_false, List.takeWhile_cons_of_pos, List.findSome?_cons]
    cases e.placedAt k <;> rfl

theorem lastWritten_concat (es : List (StoreEvent κ ν δ)) (e : StoreEvent κ ν δ) (k : κ) :
    lastWritten (es ++ [e]) k = (e.writtenAt k).or (lastWritten es k) := by
  unfold lastWritten
  rw [List.reverse_append, List.reverse_singleton, List.singleton_append, List.findSome?_cons]
  cases e.writtenAt k <;> rfl

theorem lastPlaced_eq_none {es : List (StoreEvent κ ν δ)} {k : κ}
    (h : ∀ e ∈ es, e.placedAt k = none) : lastPlaced es k = none := by
  unfold lastPlaced
  rw [List.findSome?_eq_none_iff]
  exact fun e he => h e (List.mem_reverse.mp ((List.takeWhile_prefix _).subset he))

theorem lastWritten_eq_none {es : List (StoreEvent κ ν δ)} {k : κ}
    (h : ∀ e ∈ es, e.writtenAt k = none) : lastWritten es k = none := by
  unfold lastWritten
  rw [List.findSome?_eq_none_iff]
  exact fun e he => h e (List.mem_reverse.mp he)

/-- Events that place nothing for the key leave what was placed, or forget it. -/
theorem lastPlaced_append (es : List (StoreEvent κ ν δ)) {fs : List (StoreEvent κ ν δ)} {k : κ}
    (h : ∀ e ∈ fs, e.placedAt k = none) :
    lastPlaced (es ++ fs) k = if fs.any StoreEvent.isReopened then none else lastPlaced es k := by
  induction fs using List.reverseRecOn with
  | nil => simp
  | append_singleton fs e ih =>
    have hinit : ∀ e' ∈ fs, e'.placedAt k = none := fun e' he' => h e' (by simp [he'])
    have hlast : e.placedAt k = none := h e (by simp)
    rw [← List.append_assoc, lastPlaced_concat, ih hinit, hlast]
    by_cases he : e.isReopened = true
    · simp [he]
    · simp [he]

/-- What is written later goes first. -/
theorem lastWritten_append (es fs : List (StoreEvent κ ν δ)) (k : κ) :
    lastWritten (es ++ fs) k = (lastWritten fs k).or (lastWritten es k) := by
  unfold lastWritten
  rw [List.reverse_append, List.findSome?_append]

/-- What was written last was written. -/
theorem wrote_mem_of_lastWritten {es : List (StoreEvent κ ν δ)} {k : κ} {v : δ}
    (h : lastWritten es k = some v) : .wrote k v ∈ es := by
  obtain ⟨e, he, hat⟩ := List.exists_of_findSome?_eq_some h
  cases e with
  | placed k' v' => simp [StoreEvent.writtenAt] at hat
  | wrote k' v' =>
    simp only [StoreEvent.writtenAt, Option.ite_none_right_eq_some, Option.some.injEq] at hat
    obtain ⟨rfl, rfl⟩ := hat
    exact List.mem_reverse.mp he
  | reopened => simp [StoreEvent.writtenAt] at hat

/-- What is placed stays until the store is opened again. -/
theorem lastPlaced_placed (es : List (StoreEvent κ ν δ)) {fs : List (StoreEvent κ ν δ)} {k : κ}
    (v : ν) (h : ∀ e ∈ fs, e.Leaves k) : lastPlaced (es ++ .placed k v :: fs) k =
      if fs.any StoreEvent.isReopened then none else some v := by
  rw [List.append_cons, lastPlaced_append _ fun e he => (h e he).1, lastPlaced_concat]
  simp [StoreEvent.isReopened, StoreEvent.placedAt]

/-- What is written stays. -/
theorem lastWritten_wrote (es : List (StoreEvent κ ν δ)) {fs : List (StoreEvent κ ν δ)} {k : κ}
    (v : δ)
    (h : ∀ e ∈ fs, e.Leaves k) : lastWritten (es ++ .wrote k v :: fs) k = some v := by
  rw [List.append_cons, lastWritten_append, lastWritten_eq_none fun e he => (h e he).2,
    lastWritten_concat]
  simp [StoreEvent.writtenAt]

namespace Layers

/-- A store with nothing in it. -/
def empty : Layers κ ν δ := ⟨fun _ => none, fun _ => none⟩

/-- An event. -/
def step (s : Layers κ ν δ) : StoreEvent κ ν δ → Layers κ ν δ
  | .placed k v => { s with memory := Function.update s.memory k (some v) }
  | .wrote k v => { s with disk := Function.update s.disk k (some v) }
  | .reopened => { s with memory := fun _ => none }

/-- Events, one after the other. -/
def run (s : Layers κ ν δ) (es : List (StoreEvent κ ν δ)) : Layers κ ν δ := es.foldl step s

/-- The value of a key, in a store whose layers hold the same values. -/
def find (s : Layers κ ν ν) (k : κ) : Option ν := (s.memory k).or (s.disk k)

@[simp] theorem run_nil (s : Layers κ ν δ) : s.run [] = s := rfl

@[simp] theorem run_cons (s : Layers κ ν δ) (e : StoreEvent κ ν δ) (es : List (StoreEvent κ ν δ)) :
    s.run (e :: es) = (s.step e).run es := rfl

theorem run_append (s : Layers κ ν δ) (es fs : List (StoreEvent κ ν δ)) :
    s.run (es ++ fs) = (s.run es).run fs := List.foldl_append

theorem memory_step (s : Layers κ ν δ) (e : StoreEvent κ ν δ) (k : κ) :
    (s.step e).memory k = if e.isReopened then none else (e.placedAt k).or (s.memory k) := by
  cases e with
  | placed k' v =>
    by_cases hk : k' = k
    · subst hk
      simp [step, StoreEvent.isReopened, StoreEvent.placedAt]
    · simp [step, StoreEvent.isReopened, StoreEvent.placedAt, hk, Ne.symm hk]
  | wrote k' v => rfl
  | reopened => rfl

theorem disk_step (s : Layers κ ν δ) (e : StoreEvent κ ν δ) (k : κ) :
    (s.step e).disk k = (e.writtenAt k).or (s.disk k) := by
  cases e with
  | placed k' v => rfl
  | wrote k' v =>
    by_cases hk : k' = k
    · subst hk
      simp [step, StoreEvent.writtenAt]
    · simp [step, StoreEvent.writtenAt, hk, Ne.symm hk]
  | reopened => rfl

/-- Memory holds what was placed last. -/
theorem memory_run (es : List (StoreEvent κ ν δ)) (k : κ) :
    (empty.run es).memory k = lastPlaced es k := by
  induction es using List.reverseRecOn with
  | nil => rfl
  | append_singleton es e ih =>
    rw [run_append, run_cons, run_nil, memory_step, lastPlaced_concat, ih]

/-- The disk holds what was written last. -/
theorem disk_run (es : List (StoreEvent κ ν δ)) (k : κ) :
    (empty.run es).disk k = lastWritten es k := by
  induction es using List.reverseRecOn with
  | nil => rfl
  | append_singleton es e ih =>
    rw [run_append, run_cons, run_nil, disk_step, lastWritten_concat, ih]

/-- **The value found is the one placed last, or else the one written last.** -/
theorem find_run (es : List (StoreEvent κ ν ν)) (k : κ) :
    (empty.run es).find k = (lastPlaced es k).or (lastWritten es k) := by
  unfold find
  rw [memory_run, disk_run]

/-- In a store that is not opened again, a key that something happened to has a value. -/
theorem find_run_ne_none {es : List (StoreEvent κ ν ν)} (h : ∀ e ∈ es, e.isReopened = false)
    (k : κ) :
    (empty.run es).find k ≠ none ↔ ∃ e ∈ es, e.placedAt k ≠ none ∨ e.writtenAt k ≠ none := by
  have hplaced : lastPlaced es k = es.reverse.findSome? (StoreEvent.placedAt k) := by
    unfold lastPlaced
    rw [List.takeWhile_eq_self_iff.mpr]
    intro e he
    rw [h e (List.mem_reverse.mp he)]
    rfl
  rw [find_run, hplaced, lastWritten, ← not_iff_not, not_not, Option.or_eq_none_iff,
    List.findSome?_eq_none_iff, List.findSome?_eq_none_iff]
  simp only [List.mem_reverse, not_exists, not_and, not_or, not_not, ← forall_and]

/-- An event about another key leaves the value. -/
theorem find_step_of_spares (s : Layers κ ν ν) {e : StoreEvent κ ν ν} {k : κ} (h : e.Spares k) :
    (s.step e).find k = s.find k := by
  unfold find
  cases e with
  | placed k' v => simp [step, Ne.symm h]
  | wrote k' v => simp [step, Ne.symm h]
  | reopened => exact h.elim

theorem find_run_of_spares {es : List (StoreEvent κ ν ν)} {k : κ} (h : ∀ e ∈ es, e.Spares k) :
    ∀ s : Layers κ ν ν, (s.run es).find k = s.find k := by
  induction es with
  | nil => exact fun s => rfl
  | cons e es ih =>
    intro s
    rw [run_cons, ih fun e' he' => h e' (List.mem_cons_of_mem _ he'),
      find_step_of_spares s (h e List.mem_cons_self)]

end Layers

end SubstrateClient.Lib
