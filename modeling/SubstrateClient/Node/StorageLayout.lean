import SubstrateClient.Lib.Region
import SubstrateClient.Node.MapIdentifier

/-!
# The entries of a storage

A runtime keeps every entry of its metadata in one flat store: a value under the hashes of two
names, the storage prefix that the pallet declares and the name of the entry, and a map under these
and the hashes of its keys. `valueLayout`, `mapLayout` and `doubleMapLayout` say where; the part of
an entry are the keys that begin with the two names.

The client hashes the name of the pallet in place of the declared prefix.

* `storageMapKey_eq_place` and its siblings: where the two names hash alike, the client looks where
  the runtime keeps the entry.
* `not_entryRegion_of_keyOf`: where they do not, it looks outside of the part of the entry.
* `not_entryRegion_of_entryRegion`: the parts of two entries do not meet.
* `extractMapIdentifier_place`, `extractDoubleMapIdentifier_place`: a place tells the key it is of.
-/

namespace SubstrateClient.Node

open SubstrateClient.Lib

variable (N : Hashing) (declaredPrefix entryName : String)

/-- The keys that begin with the two names. -/
def entryRegion (key : StorageKey) : Prop := namesPrefix N declaredPrefix entryName <+: key

/-- A plain entry. -/
def valueLayout {V : Type} (value : Codec V) : Layout Unit V StorageKey Bytes where
  place _ := namesPrefix N declaredPrefix entryName
  encode := value.encode
  region := entryRegion N declaredPrefix entryName
  place_injective _ _ _ := rfl
  region_place _ := List.prefix_rfl

/-- An entry with a key, which can be told from its hash. -/
def mapLayout {K V : Type} {h : StorageHasher} (hh : h.Reversible) {encode : K → Bytes}
    (hi : Function.Injective encode) (value : Codec V) : Layout K V StorageKey Bytes where
  place k := namesPrefix N declaredPrefix entryName ++ keyHash N encode k h
  encode := value.encode
  region := entryRegion N declaredPrefix entryName
  place_injective _ _ hk := keyHash_injective hh hi (List.append_cancel_left hk)
  region_place _ := List.prefix_append _ _

/-- An entry with two keys, the first of which can be split off. -/
def doubleMapLayout {K Q V : Type} {h₁ h₂ : StorageHasher} (hh₁ : h₁.Reversible)
    (hh₂ : h₂.Reversible) {encode : K → Bytes} (hi : Function.Injective encode)
    (hp : PrefixFree encode) {encode2 : Q → Bytes} (hi2 : Function.Injective encode2)
    (value : Codec V) : Layout (K × Q) V StorageKey Bytes where
  place kq := namesPrefix N declaredPrefix entryName ++ keyHash N encode kq.1 h₁ ++
    keyHash N encode2 kq.2 h₂
  encode := value.encode
  region := entryRegion N declaredPrefix entryName
  place_injective kq kq' hk := by
    dsimp only at hk
    rw [List.append_assoc, List.append_assoc] at hk
    obtain ⟨h1, h2⟩ := (keyHash_prefixFree hh₁ hp).split_eq (List.append_cancel_left hk)
    exact Prod.ext (keyHash_injective hh₁ hi h1) (keyHash_injective hh₂ hi2 h2)
  region_place _ := by
    rw [List.append_assoc]
    exact List.prefix_append _ _

/-- The metadata declares the entry: of the last pallet of the name, the last entry of the name, in
a storage with a prefix of its own. -/
structure StoresEntry (m : RuntimeMetadataV14) (palletName entryName : String)
    (storage : PalletStorageMetadata) (entry : StorageEntryMetadata) : Prop where
  pallet : ∃ p, m.lastPallet palletName = some p ∧ p.storage = some storage
  entry_eq : storage.lastEntry entryName = some entry

/-- The client hashes the name of the pallet as the runtime hashes the prefix it declares. -/
def HashesPrefix (storage : PalletStorageMetadata) (palletName : String) : Prop :=
  N.twox_128 (asBytes storage.storagePrefix) = N.twox_128 (asBytes palletName)

variable {N declaredPrefix entryName}

theorem StoresEntry.entry_eq_ok {md : RuntimeMetadataPrefixed} {r : Metadata}
    (hr : Metadata.tryFrom md = .ok r) {palletName entryName : String}
    {storage : PalletStorageMetadata} {entry : StorageEntryMetadata}
    (h : StoresEntry r.metadata palletName entryName storage entry) :
    r.entry palletName entryName = .ok entry := by
  obtain ⟨p, hp, hs⟩ := h.pallet
  exact (Node.entry_eq_ok hr).mpr ⟨p, storage, hp, hs, h.entry_eq⟩

/-- Two prefixes that hash alike begin the same keys. -/
theorem namesPrefix_congr {name name' : String}
    (h : N.twox_128 (asBytes name) = N.twox_128 (asBytes name')) (entryName : String) :
    namesPrefix N name entryName = namesPrefix N name' entryName := by
  unfold namesPrefix entryPrefix
  rw [h]

/-! ## Where the client looks -/

section Lookup

variable {md : RuntimeMetadataPrefixed} {r : Metadata} {palletName : String}
  {storage : PalletStorageMetadata} {entry : StorageEntryMetadata} {K Q V : Type} {k v : TypeId}

theorem storageValueKey_eq_place (value : Codec V) (hr : Metadata.tryFrom md = .ok r)
    (he : StoresEntry r.metadata palletName entryName storage entry)
    (hp : HashesPrefix N storage palletName) {ty : TypeId} (hty : entry.ty = .plain ty) :
    r.storageValueKey N palletName entryName =
      .ok ((valueLayout N storage.storagePrefix entryName value).place ()) := by
  have hentry := he.entry_eq_ok hr
  refine storageValueKey_eq_ok.mpr ⟨entry, hentry, ⟨ty, hty⟩, ?_⟩
  rw [name_of_entry hr hentry, ← namesPrefix_congr hp]
  rfl

theorem storageMapKey_eq_place (value : Codec V) (hr : Metadata.tryFrom md = .ok r)
    (he : StoresEntry r.metadata palletName entryName storage entry)
    (hp : HashesPrefix N storage palletName) {h : StorageHasher} (hty : entry.ty = .map [h] k v)
    (hh : h.Reversible) {encode : K → Bytes} (hi : Function.Injective encode) (a : K) :
    r.storageMapKey N palletName entryName encode a =
      .ok ((mapLayout N storage.storagePrefix entryName hh hi value).place a) := by
  have hentry := he.entry_eq_ok hr
  refine storageMapKey_eq_ok.mpr ⟨entry, hentry, _, _, _, _, hty, rfl, ?_⟩
  rw [name_of_entry hr hentry, ← namesPrefix_congr hp]
  rfl

theorem storageMapKeyPrefix_eq_names (hr : Metadata.tryFrom md = .ok r)
    (he : StoresEntry r.metadata palletName entryName storage entry)
    {hashers : List StorageHasher} (hty : entry.ty = .map hashers k v) :
    r.storageMapKeyPrefix N palletName entryName = .ok (namesPrefix N palletName entryName) := by
  have hentry := he.entry_eq_ok hr
  refine storageMapKeyPrefix_eq_ok.mpr ⟨entry, hentry, ⟨_, _, _, hty⟩, ?_⟩
  rw [name_of_entry hr hentry]

variable {h₁ h₂ : StorageHasher} {encode : K → Bytes} {encode2 : Q → Bytes}

theorem storageDoubleMapKey_eq_place (value : Codec V) (hr : Metadata.tryFrom md = .ok r)
    (he : StoresEntry r.metadata palletName entryName storage entry)
    (hp : HashesPrefix N storage palletName) (hty : entry.ty = .map [h₁, h₂] k v)
    (hh₁ : h₁.Reversible) (hh₂ : h₂.Reversible) (hi : Function.Injective encode)
    (hf : PrefixFree encode) (hi2 : Function.Injective encode2) (a : K) (b : Q) :
    r.storageDoubleMapKey N palletName entryName encode encode2 a b =
      .ok ((doubleMapLayout N storage.storagePrefix entryName hh₁ hh₂ hi hf hi2 value).place
        (a, b)) := by
  have hentry := he.entry_eq_ok hr
  refine storageDoubleMapKey_eq_ok.mpr ⟨entry, hentry, _, _, _, _, _, hty, rfl, rfl, ?_⟩
  rw [name_of_entry hr hentry, ← namesPrefix_congr hp]
  rfl

theorem storageDoubleMapPartialKey_eq_names (hr : Metadata.tryFrom md = .ok r)
    (he : StoresEntry r.metadata palletName entryName storage entry)
    (hty : entry.ty = .map [h₁, h₂] k v) (a : K) :
    r.storageDoubleMapPartialKey N palletName entryName encode a =
      .ok (namesPrefix N palletName entryName ++ keyHash N encode a h₁) := by
  have hentry := he.entry_eq_ok hr
  refine storageDoubleMapPartialKey_eq_ok.mpr ⟨entry, hentry, _, _, _, _, hty, rfl, ?_⟩
  rw [name_of_entry hr hentry]

/-- A partial key begins the places of its first key and of no other. -/
theorem partialKey_prefix_place (value : Codec V) (hh₁ : h₁.Reversible) (hh₂ : h₂.Reversible)
    (hi : Function.Injective encode) (hf : PrefixFree encode) (hi2 : Function.Injective encode2)
    (a a' : K) (b : Q) : namesPrefix N declaredPrefix entryName ++ keyHash N encode a h₁ <+:
      (doubleMapLayout N declaredPrefix entryName hh₁ hh₂ hi hf hi2 value).place (a', b) ↔
        a = a' := by
  show _ <+: _ ++ keyHash N encode a' h₁ ++ keyHash N encode2 b h₂ ↔ _
  rw [List.append_assoc, List.prefix_append_right_inj]
  constructor
  · intro h
    rw [← List.append_nil (keyHash N encode a h₁)] at h
    exact keyHash_injective hh₁ hi ((keyHash_prefixFree hh₁ hf).split h).1
  · rintro rfl
    exact List.prefix_append _ _

end Lookup

/-! ## Parts that do not meet -/

/-- A key with two names is in a part with the same hashes only. -/
theorem hash_of_entryRegion {name name' : String} {key : StorageKey}
    (hname : namesPrefix N name name' <+: key)
    (hregion : entryRegion N declaredPrefix entryName key) :
    N.twox_128 (asBytes declaredPrefix) = N.twox_128 (asBytes name) ∧
      N.twox_128 (asBytes entryName) = N.twox_128 (asBytes name') := by
  obtain ⟨tail, rfl⟩ := hname
  exact namesPrefix_prefix_iff.mp hregion

/-- The parts of two entries do not meet, unless their names collide. -/
theorem not_entryRegion_of_entryRegion {declaredPrefix' entryName' : String} {key : StorageKey}
    (hne : (declaredPrefix', entryName') ≠ (declaredPrefix, entryName))
    (hp : NoCollision N declaredPrefix declaredPrefix') (he : NoCollision N entryName entryName')
    (hkey : entryRegion N declaredPrefix' entryName' key) :
    ¬ entryRegion N declaredPrefix entryName key := by
  intro h
  obtain ⟨hP, hE⟩ := hash_of_entryRegion hkey h
  exact hne (Prod.ext (hp hP).symm (he hE).symm)

/-- **Where the declared prefix hashes otherwise**, the client looks outside of the part of the
entry. -/
theorem not_entryRegion_of_keyOf {md : RuntimeMetadataPrefixed} {r : Metadata}
    (hr : Metadata.tryFrom md = .ok r) {palletName : String} {storage : PalletStorageMetadata}
    (hp : ¬ HashesPrefix N storage palletName) {key : StorageKey}
    (hkey : KeyOf N r palletName entryName key) :
    ¬ entryRegion N storage.storagePrefix entryName key := by
  obtain ⟨entry, he, tail, rfl⟩ := hkey.names
  rw [name_of_entry hr he]
  exact fun h => hp (hash_of_entryRegion (List.prefix_append _ tail) h).1

/-! ## Which key a place is of -/

/-- A hasher that keeps the key behind a hash can be reversed. -/
theorem StorageHasher.Concat.reversible {h : StorageHasher} (hh : h.Concat) : h.Reversible := by
  cases h with
  | blake2_128Concat => trivial
  | twox64Concat => trivial
  | _ => exact hh.elim

section Identifiers

variable {K T V : Type} {value : Codec V} {c : Codec T}

theorem extractMapIdentifier_place {h : StorageHasher} (hh : h.Concat)
    (hi : Function.Injective c.encode) {k : T} (hk : c.RoundTripsAt k) :
    extractMapIdentifier c h
      ((mapLayout N declaredPrefix entryName hh.reversible hi value).place k) =
        .ok (k, []) := by
  have hkey := extractMapIdentifier_key (N := N) (P := declaredPrefix) (E := entryName) hh hk []
  rwa [List.append_nil] at hkey

theorem extractDoubleMapIdentifier_place {h₁ h₂ : StorageHasher} (hh₁ : h₁.Concat)
    (hh₂ : h₂.Concat) {encode : K → Bytes} (hi : Function.Injective encode)
    (hp : PrefixFree encode) (hi2 : Function.Injective c.encode) {encodedSize : K → Nat} {a : K}
    (hsize : encodedSize a = (encode a).length) {b : T} (hb : c.RoundTripsAt b) :
    extractDoubleMapIdentifier c encodedSize h₁ h₂ a
      ((doubleMapLayout N declaredPrefix entryName hh₁.reversible hh₂.reversible hi hp hi2
        value).place (a, b)) = .ok (b, []) := by
  have hkey := extractDoubleMapIdentifier_key (N := N) (P := declaredPrefix) (E := entryName)
    hh₁ hh₂ hsize hb []
  rwa [List.append_nil] at hkey

end Identifiers

end SubstrateClient.Node
