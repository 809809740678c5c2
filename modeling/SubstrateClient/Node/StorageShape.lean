import SubstrateClient.Node.StorageKeys

/-!
# Which entries a key is built for

An entry of the metadata is plain, or a map that declares one hasher for each of its keys. Three
functions build whole keys: `storage_value_key` of a plain entry, `storage_map_key` of a map of one
key, `storage_double_map_key` of a map of two. Each looks at the hashers it uses, and at no others.

* `keysMatchShape_iff`: they succeed exactly on the entries of their shape as long as the entry is
  not a map of two or more keys. The first does in any case, the last does up to two keys
  (`storageValueKey_builds`, `storageMapKey_builds_iff`, `storageDoubleMapKey_builds_iff`).
* `not_keysMatchShape_account`: the map key of a double map is its partial key.
-/

namespace SubstrateClient.Node

open SubstrateClient.Lib

/-- How many keys an entry takes: one for each hasher of a map. -/
def StorageEntryType.numKeys : StorageEntryType → Nat
  | .plain _ => 0
  | .map hashers _ _ => hashers.length

/-- The key is built on the entries of a shape, and refused on the others. -/
def BuildsExactly (build : Except MetadataError StorageKey) (shape : Prop) : Prop :=
  (shape → ∃ key, build = .ok key) ∧ (¬ shape → build = .error .storageTypeError)

/-- The whole keys of an entry are built when they match its shape, and refused when they do
not. -/
structure KeysMatchShape (N : Hashing) (m : Metadata) (storagePrefix storageKeyName : String)
    (entry : StorageEntryMetadata) : Prop where
  value : BuildsExactly (m.storageValueKey N storagePrefix storageKeyName)
    (∃ value, entry.ty = .plain value)
  map : ∀ {K : Type} (encode : K → Bytes) (a : K),
    BuildsExactly (m.storageMapKey N storagePrefix storageKeyName encode a)
      (entry.ty.numKeys = 1)
  doubleMap : ∀ {K Q : Type} (encode : K → Bytes) (encode2 : Q → Bytes) (a : K) (b : Q),
    BuildsExactly (m.storageDoubleMapKey N storagePrefix storageKeyName encode encode2 a b)
      (entry.ty.numKeys = 2)

/-- A key that is built for `n` hashers or more matches the entries of at most `n`. -/
theorem buildsExactly_iff {build : Except MetadataError StorageKey} {numKeys n : Nat}
    (hok : n ≤ numKeys → ∃ key, build = .ok key)
    (herr : numKeys < n → build = .error .storageTypeError) :
    BuildsExactly build (numKeys = n) ↔ numKeys ≤ n := by
  constructor
  · intro h
    by_contra hlt
    obtain ⟨key, hkey⟩ := hok (by omega)
    rw [h.2 (by omega)] at hkey
    cases hkey
  · intro hle
    exact ⟨fun he => hok (by omega), fun hne => herr (by omega)⟩

section Builders

variable {N : Hashing} {m : Metadata} {storagePrefix storageKeyName : String}
  {entry : StorageEntryMetadata}

/-- On an entry that is found, a function does what it does with the entry. -/
theorem of_found {α : Type} {f : StorageEntryMetadata → Except MetadataError α}
    (he : m.entry storagePrefix storageKeyName = .ok entry) :
    (do let pallet ← m.pallet storagePrefix
        let entry ← pallet.storageEntry storageKeyName
        f entry) = f entry := by
  unfold Metadata.entry at he
  cases hp : m.pallet storagePrefix with
  | error e =>
    rw [hp] at he
    cases he
  | ok pallet =>
    rw [hp] at he
    have hentry : pallet.storageEntry storageKeyName = .ok entry := he
    simp only [Bind.bind, Except.bind, hentry]

/-- Plain entries have a value key, and maps have none. -/
theorem storageValueKey_builds (he : m.entry storagePrefix storageKeyName = .ok entry) :
    BuildsExactly (m.storageValueKey N storagePrefix storageKeyName)
      (∃ value, entry.ty = .plain value) := by
  unfold Metadata.storageValueKey BuildsExactly
  rw [of_found he]
  unfold StorageEntryMetadata.getValue
  cases entry.ty with
  | plain value => exact ⟨fun _ => ⟨_, rfl⟩, fun h => absurd ⟨value, rfl⟩ h⟩
  | map hashers k v =>
    refine ⟨?_, fun _ => rfl⟩
    rintro ⟨value, h⟩
    cases h

/-- A map key is built for the first hasher, whether or not there are more. -/
theorem storageMapKey_builds_iff (he : m.entry storagePrefix storageKeyName = .ok entry)
    {K : Type} (encode : K → Bytes) (a : K) :
    BuildsExactly (m.storageMapKey N storagePrefix storageKeyName encode a)
      (entry.ty.numKeys = 1) ↔ entry.ty.numKeys ≤ 1 := by
  unfold Metadata.storageMapKey
  rw [of_found he]
  unfold StorageEntryMetadata.getMap
  cases entry.ty with
  | plain value => exact buildsExactly_iff (fun hle => by cases hle) fun _ => rfl
  | map hashers k v =>
    cases hashers with
    | nil => exact buildsExactly_iff (fun hle => by cases hle) fun _ => rfl
    | cons h hs =>
      refine buildsExactly_iff (fun _ => ⟨_, rfl⟩) fun hlt => ?_
      simp [StorageEntryType.numKeys] at hlt

/-- A double map key is built for the first two, whether or not there are more. -/
theorem storageDoubleMapKey_builds_iff (he : m.entry storagePrefix storageKeyName = .ok entry)
    {K Q : Type} (encode : K → Bytes) (encode2 : Q → Bytes) (a : K) (b : Q) :
    BuildsExactly (m.storageDoubleMapKey N storagePrefix storageKeyName encode encode2 a b)
      (entry.ty.numKeys = 2) ↔ entry.ty.numKeys ≤ 2 := by
  unfold Metadata.storageDoubleMapKey
  rw [of_found he]
  unfold StorageEntryMetadata.getDoubleMap
  cases entry.ty with
  | plain value => exact buildsExactly_iff (fun hle => by cases hle) fun _ => rfl
  | map hashers k v =>
    by_cases hlen : 2 ≤ hashers.length
    · obtain ⟨h1, h2, hs, rfl⟩ : ∃ h1 h2 hs, hashers = h1 :: h2 :: hs := by
        rcases hashers with - | ⟨h1, - | ⟨h2, hs⟩⟩
        · simp at hlen
        · simp at hlen
        · exact ⟨h1, h2, hs, rfl⟩
      exact buildsExactly_iff (fun _ => ⟨_, rfl⟩) fun hlt => absurd hlt (Nat.not_lt.mpr hlen)
    · have hnone : hashers[1]? = none := List.getElem?_eq_none (by omega)
      refine buildsExactly_iff (fun hle => absurd hle hlen) fun _ => ?_
      cases h0 : hashers[0]? <;> simp only [hnone, h0] <;> rfl

/-- **When whole keys match the shape of their entry**: as long as it is not a map of two or more
keys. -/
theorem keysMatchShape_iff (he : m.entry storagePrefix storageKeyName = .ok entry) :
    KeysMatchShape N m storagePrefix storageKeyName entry ↔ entry.ty.numKeys ≤ 1 := by
  constructor
  · intro h
    exact (storageMapKey_builds_iff he (fun _ : Unit => []) ()).mp (h.map _ ())
  · intro hle
    exact ⟨storageValueKey_builds he,
      fun encode a => (storageMapKey_builds_iff he encode a).mpr hle,
      fun encode encode2 a b =>
        (storageDoubleMapKey_builds_iff he encode encode2 a b).mpr (Nat.le_succ_of_le hle)⟩

end Builders

/-! ## Two entries -/

/-- `keysMatchShape_iff` on a map of one key. -/
theorem keysMatchShape_iff_asset : ∃ r entry,
    Metadata.tryFrom ⟨metaReserved, .v14 assetsRuntime⟩ = .ok r ∧
    r.entry "Assets" "Asset" = .ok entry ∧
    KeysMatchShape namesHashing r "Assets" "Asset" entry := by
  obtain ⟨r, hr⟩ : ∃ r, Metadata.tryFrom ⟨metaReserved, .v14 assetsRuntime⟩ = .ok r := ⟨_, rfl⟩
  have he : r.entry "Assets" "Asset" = .ok _ := assets_entry hr rfl rfl
  exact ⟨r, _, hr, he, (keysMatchShape_iff he).mpr (by decide)⟩

/-- **A map key is built for a double map**, and it is the partial key of its first key. -/
theorem not_keysMatchShape_account : ∃ r entry key,
    Metadata.tryFrom ⟨metaReserved, .v14 assetsRuntime⟩ = .ok r ∧
    r.entry "Assets" "Account" = .ok entry ∧ entry.ty.numKeys = 2 ∧
    r.storageMapKey namesHashing "Assets" "Account" ([·]) (1 : UInt8) = .ok key ∧
    r.storageDoubleMapPartialKey namesHashing "Assets" "Account" ([·]) (1 : UInt8) = .ok key ∧
    ¬ KeysMatchShape namesHashing r "Assets" "Account" entry := by
  obtain ⟨r, hr⟩ : ∃ r, Metadata.tryFrom ⟨metaReserved, .v14 assetsRuntime⟩ = .ok r := ⟨_, rfl⟩
  have he : r.entry "Assets" "Account" = .ok _ := assets_entry hr rfl rfl
  have hmap : r.storageMapKey namesHashing "Assets" "Account" ([·]) (1 : UInt8) = .ok _ :=
    storageMapKey_eq_ok.mpr ⟨_, he, _, _, _, _, rfl, rfl, rfl⟩
  refine ⟨r, _, _, hr, he, rfl, hmap,
    storageDoubleMapPartialKey_eq_ok.mpr ⟨_, he, _, _, _, _, rfl, rfl, rfl⟩, fun h => ?_⟩
  have hle := (storageMapKey_builds_iff he (fun b : UInt8 => [b]) 1).mp (h.map _ 1)
  exact absurd hle (by decide)

end SubstrateClient.Node
