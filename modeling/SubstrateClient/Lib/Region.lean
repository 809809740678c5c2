import Mathlib.Logic.Function.Basic
import SubstrateClient.Lib.Collect

/-!
# A map kept in a part of a store

One store keeps many maps. Each key of a map has a place in the store, and the places of a map lie
in a part of the store of their own (`Layout`).

* `Holds`: the store has the values of the map in their places, and nothing else in that part.
* `Holds.run`: it still does after any writes, to keys of the map or outside of its part. The map is
  then the one its own writes make of it.
* `Holds.exists_keys`: what the store lists of that part are the places of keys the map has.
* `get_of_not_region`: who looks outside of the part sees none of the writes to the map.
-/

namespace SubstrateClient.Lib

variable {K V κ ν : Type}

/-- Where a map is kept: the place of each key, how a value is written there, and the part of the
store around the places. -/
structure Layout (K V κ ν : Type) where
  place : K → κ
  encode : V → ν
  region : κ → Prop
  place_injective : Function.Injective place
  region_place : ∀ k, region (place k)

/-- A write to the store, as seen from the map. -/
inductive StoreWrite (K V κ ν : Type) where
  | put (k : K) (v : V)
  | remove (k : K)
  | elsewhere (key : κ) (value : Option ν)

namespace StoreWrite

/-- The write leaves the part of the map alone, or is one to a key of the map. -/
def Respects (L : Layout K V κ ν) : StoreWrite K V κ ν → Prop
  | .put _ _ | .remove _ => True
  | .elsewhere key _ => ¬ L.region key

/-- The write is one to a key of the map. -/
def Own : StoreWrite K V κ ν → Prop
  | .put _ _ | .remove _ => True
  | .elsewhere _ _ => False

/-- The store after the write. -/
def apply [DecidableEq κ] (L : Layout K V κ ν) (store : HashMap κ ν) :
    StoreWrite K V κ ν → HashMap κ ν
  | .put k v => store.insert (L.place k) (L.encode v)
  | .remove k => store.erase (L.place k)
  | .elsewhere key (some x) => store.insert key x
  | .elsewhere key none => store.erase key

/-- The map after the write. -/
def view [DecidableEq K] (map : K → Option V) : StoreWrite K V κ ν → K → Option V
  | .put k v => Function.update map k (some v)
  | .remove k => Function.update map k none
  | .elsewhere _ _ => map

end StoreWrite

namespace HashMap

variable [DecidableEq κ]

theorem get_erase (m : HashMap κ ν) (k k' : κ) :
    get (AList.erase k m) k' = if k' = k then none else m.get k' := by
  unfold get
  by_cases hk : k' = k
  · subst hk
    rw [AList.lookup_erase, if_pos rfl]
  · rw [AList.lookup_erase_ne hk, if_neg hk]

end HashMap

/-- Writes to the map leave alone what is outside of its part. -/
theorem get_of_not_region [DecidableEq κ] {L : Layout K V κ ν} {key : κ} (hkey : ¬ L.region key) :
    ∀ {ws : List (StoreWrite K V κ ν)}, (∀ w ∈ ws, w.Own) → ∀ store : HashMap κ ν,
      (ws.foldl (StoreWrite.apply L) store).get key = store.get key
  | [], _, _ => rfl
  | w :: ws, hws, store => by
    obtain ⟨hw, hws⟩ := List.forall_mem_cons.mp hws
    have hne : ∀ k, key ≠ L.place k := by
      rintro k rfl
      exact hkey (L.region_place k)
    rw [List.foldl_cons, get_of_not_region hkey hws]
    cases w with
    | put k v => exact (HashMap.get_insert store _ key _).trans (if_neg (hne k))
    | remove k => exact (HashMap.get_erase store _ key).trans (if_neg (hne k))
    | elsewhere key' x => exact hw.elim

/-- The store has the map in its part, and nothing else there. -/
structure Holds [DecidableEq κ] (L : Layout K V κ ν) (store : HashMap κ ν) (map : K → Option V) :
    Prop where
  get_place : ∀ k, store.get (L.place k) = (map k).map L.encode
  placed : ∀ key, (store.get key).isSome → L.region key → ∃ k, L.place k = key

namespace Holds

variable [DecidableEq κ] {L : Layout K V κ ν} {store : HashMap κ ν} {map : K → Option V}

/-- An empty store holds the empty map. -/
theorem empty (L : Layout K V κ ν) : Holds L ∅ fun _ => none where
  get_place _ := rfl
  placed _ h _ := by cases h

/-- **What is listed**: keys of the part that have a value are the places of keys of the map. -/
theorem exists_keys (h : Holds L store map) {select : κ → Prop}
    (hselect : ∀ key, select key → L.region key) {keys : List κ} (hnodup : keys.Nodup)
    (hkeys : ∀ key, key ∈ keys ↔ select key ∧ (store.get key).isSome = true) :
    ∃ ks : List K, keys = ks.map L.place ∧ ks.Nodup ∧
      ∀ k, k ∈ ks ↔ select (L.place k) ∧ (map k).isSome = true := by
  have hplaces : ∀ keys' : List κ, (∀ key ∈ keys', ∃ k, L.place k = key) →
      ∃ ks : List K, keys' = ks.map L.place := by
    intro keys' hall
    induction keys' with
    | nil => exact ⟨[], rfl⟩
    | cons key keys' ih =>
      obtain ⟨⟨k, rfl⟩, hrest⟩ := List.forall_mem_cons.mp hall
      obtain ⟨ks, rfl⟩ := ih hrest
      exact ⟨k :: ks, rfl⟩
  obtain ⟨ks, rfl⟩ := hplaces keys fun key hkey =>
    h.placed key ((hkeys key).mp hkey).2 (hselect key ((hkeys key).mp hkey).1)
  refine ⟨ks, rfl, hnodup.of_map _, fun k => ?_⟩
  rw [← List.mem_map_of_injective L.place_injective, hkeys, h.get_place, Option.isSome_map]

/-- Whatever happens outside of the part leaves the map. -/
theorem set_outside (h : Holds L store map) {key : κ} (hout : ¬ L.region key) {x : Option ν}
    {store' : HashMap κ ν}
    (hget : ∀ key', store'.get key' = if key' = key then x else store.get key') :
    Holds L store' map where
  get_place k := by
    have hne : L.place k ≠ key := by
      rintro rfl
      exact hout (L.region_place k)
    rw [hget, if_neg hne, h.get_place]
  placed key' hsome hregion := by
    have hne : key' ≠ key := by
      rintro rfl
      exact hout hregion
    rw [hget, if_neg hne] at hsome
    exact h.placed key' hsome hregion

variable [DecidableEq K]

/-- Whatever happens in a place happens to its key. -/
theorem set_place (h : Holds L store map) {k : K} {v : Option V} {store' : HashMap κ ν}
    (hget : ∀ key, store'.get key = if key = L.place k then v.map L.encode else store.get key) :
    Holds L store' (Function.update map k v) where
  get_place k' := by
    rw [hget]
    by_cases hk : k' = k
    · subst hk
      rw [if_pos rfl, Function.update_self]
    · rw [if_neg fun he => hk (L.place_injective he), Function.update_of_ne hk, h.get_place]
  placed key hsome hregion := by
    by_cases hk : key = L.place k
    · exact ⟨k, hk.symm⟩
    · rw [hget, if_neg hk] at hsome
      exact h.placed key hsome hregion

/-- One write. -/
theorem step (h : Holds L store map) {w : StoreWrite K V κ ν} (hw : w.Respects L) :
    Holds L (w.apply L store) (w.view map) := by
  cases w with
  | put k v => exact h.set_place fun key => HashMap.get_insert store _ key _
  | remove k => exact h.set_place (v := none) fun key => HashMap.get_erase store _ key
  | elsewhere key value =>
    cases value with
    | some x => exact h.set_outside hw fun key' => HashMap.get_insert store key key' x
    | none => exact h.set_outside hw fun key' => HashMap.get_erase store key key'

/-- **Any writes**: the store holds what the map's own writes make of it. -/
theorem run : ∀ {ws : List (StoreWrite K V κ ν)} {store : HashMap κ ν} {map : K → Option V},
    Holds L store map → (∀ w ∈ ws, w.Respects L) →
      Holds L (ws.foldl (StoreWrite.apply L) store) (ws.foldl StoreWrite.view map)
  | [], _, _, h, _ => h
  | _ :: _, _, _, h, hws =>
    (h.step (hws _ List.mem_cons_self)).run fun w hw => hws w (List.mem_cons_of_mem _ hw)

end Holds

end SubstrateClient.Lib
