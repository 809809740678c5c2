import Mathlib.Data.List.AList
import Mathlib.Data.List.Induction
import Mathlib.Data.List.Nodup

/-!
# Collecting an iterator

`HashMap` is a map with one value a key, whose iteration order nothing may depend on; `collect`
inserts the pairs of a list from left to right, so the last pair of a key wins (`get_collect`), and
with distinct keys every pair is found (`get_collect_iff`).

`tryCollect` collects fallible items into a `Result` of a list: the first error, or all the values.
-/

namespace SubstrateClient.Lib

/-- A map with one value a key. -/
abbrev HashMap (κ ν : Type) := AList fun _ : κ => ν

namespace HashMap

variable {κ ν : Type} [DecidableEq κ]

/-- `HashMap::get`. -/
def get (m : HashMap κ ν) (k : κ) : Option ν := AList.lookup k m

/-- What was inserted last is found. -/
theorem get_insert (m : HashMap κ ν) (k k' : κ) (v : ν) :
    get (m.insert k v) k' = if k' = k then some v else m.get k' := by
  unfold get
  by_cases hk : k' = k
  · subst hk
    rw [AList.lookup_insert, if_pos rfl]
  · rw [AList.lookup_insert_ne hk, if_neg hk]

/-- The keys are those under which something is found. -/
theorem mem_keys {m : HashMap κ ν} {k : κ} : k ∈ m.keys ↔ (m.get k).isSome = true := by
  unfold get
  rw [AList.lookup_isSome, AList.mem_keys]

/-- `HashMap::into_iter`. -/
def intoIter (m : HashMap κ ν) : List (κ × ν) := m.entries.map fun entry => (entry.1, entry.2)

theorem mem_intoIter {m : HashMap κ ν} {k : κ} {v : ν} :
    (k, v) ∈ m.intoIter ↔ m.get k = some v := by
  unfold intoIter get
  rw [← Option.mem_def, AList.mem_lookup_iff, List.mem_map]
  constructor
  · rintro ⟨entry, hentry, h⟩
    cases h
    exact hentry
  · exact fun hentry => ⟨_, hentry, rfl⟩

omit [DecidableEq κ] in
theorem nodup_intoIter (m : HashMap κ ν) : (m.intoIter.map Prod.fst).Nodup := by
  unfold intoIter
  rw [List.map_map]
  exact m.nodupKeys

/-- `collect::<HashMap<_, _>>()`. -/
def collect (l : List (κ × ν)) : HashMap κ ν :=
  l.foldl (fun m kv => m.insert kv.1 kv.2) ∅

theorem collect_snoc (l : List (κ × ν)) (kv : κ × ν) :
    collect (l ++ [kv]) = (collect l).insert kv.1 kv.2 := by
  unfold collect
  rw [List.foldl_append, List.foldl_cons, List.foldl_nil]

/-- The last pair of a key wins. -/
theorem get_collect (l : List (κ × ν)) (k : κ) : (collect l).get k = l.reverse.lookup k := by
  induction l using List.reverseRecOn with
  | nil => rfl
  | append_singleton l kv ih =>
    rw [collect_snoc, List.reverse_append, List.reverse_singleton, List.singleton_append]
    unfold get at ih ⊢
    by_cases hk : k = kv.1
    · subst hk
      rw [AList.lookup_insert, List.lookup_cons, beq_self_eq_true]
    · rw [AList.lookup_insert_ne hk, ih, List.lookup_cons, beq_false_of_ne hk]

theorem lookup_eq_some_of_mem {k : κ} {v : ν} :
    ∀ {l : List (κ × ν)}, (l.map Prod.fst).Nodup → (k, v) ∈ l → l.lookup k = some v
  | (k', v') :: l, hn, hm => by
    rw [List.map_cons, List.nodup_cons] at hn
    rw [List.lookup_cons]
    rcases List.mem_cons.mp hm with h | h
    · cases h
      rw [beq_self_eq_true]
    · have hk : k ∈ l.map Prod.fst := List.mem_map.mpr ⟨(k, v), h, rfl⟩
      have hne : k ≠ k' := fun e => hn.1 (e ▸ hk)
      rw [beq_false_of_ne hne]
      exact lookup_eq_some_of_mem hn.2 h

theorem mem_of_lookup_eq_some {k : κ} {v : ν} :
    ∀ {l : List (κ × ν)}, l.lookup k = some v → (k, v) ∈ l
  | (k', v') :: l, h => by
    rw [List.lookup_cons] at h
    by_cases hk : k = k'
    · subst hk
      rw [beq_self_eq_true] at h
      cases h
      exact List.mem_cons_self
    · rw [beq_false_of_ne hk] at h
      exact List.mem_cons_of_mem _ (mem_of_lookup_eq_some h)

/-- Whatever is found was collected. -/
theorem mem_of_get_collect {l : List (κ × ν)} {k : κ} {v : ν} (h : (collect l).get k = some v) :
    (k, v) ∈ l := by
  rw [get_collect] at h
  exact List.mem_reverse.mp (mem_of_lookup_eq_some h)

/-- **With distinct keys the map is the list.** -/
theorem get_collect_iff {l : List (κ × ν)} (hn : (l.map Prod.fst).Nodup) {k : κ} {v : ν} :
    (collect l).get k = some v ↔ (k, v) ∈ l := by
  refine ⟨mem_of_get_collect, fun h => ?_⟩
  rw [get_collect]
  refine lookup_eq_some_of_mem ?_ (List.mem_reverse.mpr h)
  rw [List.map_reverse]
  exact List.nodup_reverse.mpr hn

theorem lookup_forall₂ {α : Type} {key : α → κ} {R : α → ν → Prop} {l : List α}
    {kvs : List (κ × ν)} (h : List.Forall₂ (fun x kv => kv.1 = key x ∧ R x kv.2) l kvs) (k : κ) :
    Option.Rel R (l.find? fun x => key x == k) (kvs.lookup k) := by
  induction h with
  | nil => exact .none
  | @cons x kv l kvs hx _ ih =>
    obtain ⟨k', v⟩ := kv
    obtain ⟨rfl, hR⟩ := hx
    by_cases hk : key x = k
    · subst hk
      rw [List.lookup_cons, List.find?_cons, beq_self_eq_true]
      exact .some hR
    · rw [List.lookup_cons, List.find?_cons, beq_false_of_ne hk, beq_false_of_ne (Ne.symm hk)]
      exact ih

/-- Where each pair comes from an item, a key finds what the last item of the key gives. -/
theorem get_collect_forall₂ {α : Type} {key : α → κ} {R : α → ν → Prop} {l : List α}
    {kvs : List (κ × ν)} (h : List.Forall₂ (fun x kv => kv.1 = key x ∧ R x kv.2) l kvs) (k : κ) :
    Option.Rel R (l.reverse.find? fun x => key x == k) ((collect kvs).get k) := by
  rw [get_collect]
  exact lookup_forall₂ (List.forall₂_reverse_iff.mpr h) k

/-- Items collected by a key of theirs are found by it, the last one first. -/
theorem get_collect_by (key : ν → κ) (l : List ν) (k : κ) :
    (collect (l.map fun x => (key x, x))).get k = l.reverse.find? fun x => key x == k := by
  have hrel : Option.Rel Eq (l.reverse.find? fun x => key x == k)
      ((collect (l.map fun x => (key x, x))).get k) := by
    refine get_collect_forall₂ ?_ k
    rw [List.forall₂_map_right_iff]
    exact List.forall₂_same.mpr fun x _ => ⟨rfl, rfl⟩
  generalize (collect (l.map fun x => (key x, x))).get k = found at hrel ⊢
  generalize (l.reverse.find? fun x => key x == k) = wanted at hrel ⊢
  cases hrel with
  | none => rfl
  | some h => rw [h]

end HashMap

/-- An item that comes from one element alone is collected once, if the element is there. -/
theorem count_filterMap_of_nodup {α β : Type} [DecidableEq α] [BEq β] [LawfulBEq β]
    {f : α → Option β} {l : List α} (hl : l.Nodup) {b : β} {c : α}
    (h : ∀ a ∈ l, f a = some b ↔ a = c) {there : Prop} [Decidable there] (hc : c ∈ l ↔ there) :
    (l.filterMap f).count b = if there then 1 else 0 := by
  have hcount : l.countP (fun a => f a == some b) = l.count c := by
    refine List.countP_congr fun a ha => ?_
    simp only [beq_iff_eq, h a ha]
  rw [List.count_filterMap, hcount, List.Nodup.count hl]
  exact if_congr hc rfl rfl

section TryCollect

variable {ε α β : Type}

/-- `collect::<Result<Vec<_>, _>>()` of a fallible map. -/
def tryCollect (f : α → Except ε β) : List α → Except ε (List β)
  | [] => .ok []
  | x :: xs =>
    match f x with
    | .error e => .error e
    | .ok y =>
      match tryCollect f xs with
      | .error e => .error e
      | .ok ys => .ok (y :: ys)

/-- What is collected is the value of every item, in order. -/
theorem tryCollect_eq_ok {f : α → Except ε β} :
    ∀ {l : List α} {ys : List β}, tryCollect f l = .ok ys ↔ List.Forall₂ (f · = .ok ·) l ys
  | [], ys => by
    unfold tryCollect
    constructor
    · rintro ⟨⟩
      exact .nil
    · rintro ⟨⟩
      rfl
  | x :: xs, ys => by
    unfold tryCollect
    constructor
    · intro h
      split at h
      · cases h
      · rename_i y hy
        split at h
        · cases h
        · rename_i ys' hys
          cases h
          exact .cons hy (tryCollect_eq_ok.mp hys)
    · rintro (_ | ⟨hy, hys⟩)
      simp only [hy, tryCollect_eq_ok.mpr hys]

/-- A collection succeeds iff every item does. -/
theorem exists_tryCollect {f : α → Except ε β} {l : List α} :
    (∃ ys, tryCollect f l = .ok ys) ↔ ∀ x ∈ l, ∃ y, f x = .ok y := by
  constructor
  · rintro ⟨ys, h⟩
    have hf := tryCollect_eq_ok.mp h
    clear h
    induction hf with
    | nil => simp
    | cons hxy _ ih => exact List.forall_mem_cons.mpr ⟨⟨_, hxy⟩, ih⟩
  · intro h
    induction l with
    | nil => exact ⟨[], rfl⟩
    | cons x l ih =>
      obtain ⟨⟨y, hy⟩, hl⟩ := List.forall_mem_cons.mp h
      obtain ⟨ys, hys⟩ := ih hl
      exact ⟨y :: ys, tryCollect_eq_ok.mpr (.cons hy (tryCollect_eq_ok.mp hys))⟩

/-- The collected values are the values of the items. -/
theorem mem_tryCollect {f : α → Except ε β} :
    ∀ {l : List α} {ys : List β}, tryCollect f l = .ok ys →
      ∀ y, y ∈ ys ↔ ∃ x ∈ l, f x = .ok y
  | [], ys, h, y => by
    cases h
    simp
  | x :: xs, ys, h, y => by
    obtain _ | ⟨hy', hys'⟩ := tryCollect_eq_ok.mp h
    have ih := mem_tryCollect (tryCollect_eq_ok.mpr hys') y
    rw [List.mem_cons, ih]
    constructor
    · rintro (rfl | ⟨z, hz, hf⟩)
      · exact ⟨x, List.mem_cons_self, hy'⟩
      · exact ⟨z, List.mem_cons_of_mem x hz, hf⟩
    · rintro ⟨z, hz, hf⟩
      rcases List.mem_cons.mp hz with rfl | hz
      · rw [hy'] at hf
        exact Or.inl (Except.ok.inj hf).symm
      · exact Or.inr ⟨z, hz, hf⟩

/-- Collecting keeps the order, so a projection the items keep is kept. -/
theorem map_tryCollect {γ : Type} {f : α → Except ε β} {g : β → γ} {h : α → γ}
    (hgh : ∀ x y, f x = .ok y → g y = h x) {l : List α} {ys : List β}
    (hl : tryCollect f l = .ok ys) : ys.map g = l.map h := by
  have hf := tryCollect_eq_ok.mp hl
  clear hl
  induction hf with
  | nil => rfl
  | cons hxy _ ih => rw [List.map_cons, List.map_cons, hgh _ _ hxy, ih]

end TryCollect

end SubstrateClient.Lib
