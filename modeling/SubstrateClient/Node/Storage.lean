import SubstrateClient.Node.Metadata

/-!
# Storage keys (`node-api/src/storage.rs`)

A storage key is the hash of the pallet, the hash of the entry, and for a map the hash of each map
key, one after the other. Which hash a map key goes through is declared in the metadata.

The hash functions are those of `sp_core`, the parameter `N`.
-/

namespace SubstrateClient.Node

open SubstrateClient.Lib

/-- `StorageKey`. -/
abbrev StorageKey := Bytes

/-- `sp_core::hashing`. -/
structure Hashing where
  blake2_128 : Bytes → {bs : Bytes // bs.length = 16}
  blake2_256 : Bytes → {bs : Bytes // bs.length = 32}
  twox_64 : Bytes → {bs : Bytes // bs.length = 8}
  twox_128 : Bytes → {bs : Bytes // bs.length = 16}
  twox_256 : Bytes → {bs : Bytes // bs.length = 32}

/-- `StorageValue`. -/
structure StorageValue where
  modulePrefix : Bytes
  storagePrefix : Bytes
  deriving DecidableEq, Repr

/-- `StorageMap`. -/
structure StorageMap where
  modulePrefix : Bytes
  storagePrefix : Bytes
  hasher : StorageHasher
  deriving DecidableEq, Repr

/-- `StorageDoubleMap`. -/
structure StorageDoubleMap where
  modulePrefix : Bytes
  storagePrefix : Bytes
  hasher : StorageHasher
  key2Hasher : StorageHasher
  deriving DecidableEq, Repr

section Keys

variable (N : Hashing)

/-- `key_hash`. -/
def keyHash {K : Type} (encode : K → Bytes) (key : K) (hasher : StorageHasher) : Bytes :=
  let encodedKey := encode key
  match hasher with
  | .identity => encodedKey
  | .blake2_128 => (N.blake2_128 encodedKey).1
  | .blake2_128Concat => (N.blake2_128 encodedKey).1 ++ encodedKey
  | .blake2_256 => (N.blake2_256 encodedKey).1
  | .twox128 => (N.twox_128 encodedKey).1
  | .twox256 => (N.twox_256 encodedKey).1
  | .twox64Concat => (N.twox_64 encodedKey).1 ++ encodedKey

/-- What every key of an entry begins with. -/
def entryPrefix (modulePrefix storagePrefix : Bytes) : Bytes :=
  (N.twox_128 modulePrefix).1 ++ (N.twox_128 storagePrefix).1

/-- `StorageValue::key`. -/
def StorageValue.key (s : StorageValue) : StorageKey := entryPrefix N s.modulePrefix s.storagePrefix

/-- `StorageMap::key`. -/
def StorageMap.key {K : Type} (encode : K → Bytes) (s : StorageMap) (key : K) : StorageKey :=
  entryPrefix N s.modulePrefix s.storagePrefix ++ keyHash N encode key s.hasher

/-- `StorageDoubleMap::key`. -/
def StorageDoubleMap.key {K Q : Type} (encode : K → Bytes) (encode2 : Q → Bytes)
    (s : StorageDoubleMap) (key1 : K) (key2 : Q) : StorageKey :=
  entryPrefix N s.modulePrefix s.storagePrefix ++ keyHash N encode key1 s.hasher ++
    keyHash N encode2 key2 s.key2Hasher

/-- `StorageDoubleMap::partial_key`. -/
def StorageDoubleMap.partialKey {K : Type} (encode : K → Bytes) (s : StorageDoubleMap) (key : K) :
    StorageKey :=
  entryPrefix N s.modulePrefix s.storagePrefix ++ keyHash N encode key s.hasher

end Keys

/-! ## Entries (`GetStorage`) -/

namespace StorageEntryMetadata

/-- `get_value`. -/
def getValue (entry : StorageEntryMetadata) (palletPrefix : String) :
    Except MetadataError StorageValue :=
  match entry.ty with
  | .plain _ => .ok ⟨asBytes palletPrefix, asBytes entry.name⟩
  | .map _ _ _ => .error .storageTypeError

/-- `get_map`. -/
def getMap (entry : StorageEntryMetadata) (palletPrefix : String) :
    Except MetadataError StorageMap :=
  match entry.ty with
  | .map hashers _ _ =>
    match hashers[0]? with
    | some hasher => .ok ⟨asBytes palletPrefix, asBytes entry.name, hasher⟩
    | none => .error .storageTypeError
  | .plain _ => .error .storageTypeError

/-- `get_double_map`. -/
def getDoubleMap (entry : StorageEntryMetadata) (palletPrefix : String) :
    Except MetadataError StorageDoubleMap :=
  match entry.ty with
  | .map hashers _ _ =>
    match hashers[0]?, hashers[1]? with
    | some hasher1, some hasher2 =>
      .ok ⟨asBytes palletPrefix, asBytes entry.name, hasher1, hasher2⟩
    | _, _ => .error .storageTypeError
  | .plain _ => .error .storageTypeError

/-- `get_map_prefix`. -/
def getMapPrefix (N : Hashing) (entry : StorageEntryMetadata) (palletPrefix : String) :
    Except MetadataError StorageKey :=
  match entry.ty with
  | .map _ _ _ => .ok (entryPrefix N (asBytes palletPrefix) (asBytes entry.name))
  | .plain _ => .error .storageTypeError

/-- `get_double_map_prefix`. -/
def getDoubleMapPrefix (N : Hashing) {K : Type} (encode : K → Bytes)
    (entry : StorageEntryMetadata) (palletPrefix : String) (key : K) :
    Except MetadataError StorageKey :=
  match entry.ty with
  | .map hashers _ _ =>
    match hashers[0]? with
    | some hasher =>
      .ok (entryPrefix N (asBytes palletPrefix) (asBytes entry.name) ++ keyHash N encode key hasher)
    | none => .error .storageTypeError
  | .plain _ => .error .storageTypeError

end StorageEntryMetadata

/-! ## Keys by name (`node-api/src/metadata.rs`) -/

/-- `PalletMetadata::storage`. -/
def PalletMetadata.storageEntry (p : PalletMetadata) (key : String) :
    Except MetadataError StorageEntryMetadata :=
  match p.storage.get key with
  | some entry => .ok entry
  | none => .error (.storageNotFound key)

namespace Metadata

section Keys

variable (N : Hashing) (m : Metadata) (storagePrefix storageKeyName : String)

/-- `Metadata::storage_value_key`. -/
def storageValueKey : Except MetadataError StorageKey := do
  let pallet ← m.pallet storagePrefix
  let entry ← pallet.storageEntry storageKeyName
  let value ← entry.getValue storagePrefix
  return value.key N

/-- `Metadata::storage_map_key`. -/
def storageMapKey {K : Type} (encode : K → Bytes) (mapKey : K) :
    Except MetadataError StorageKey := do
  let pallet ← m.pallet storagePrefix
  let entry ← pallet.storageEntry storageKeyName
  let map ← entry.getMap storagePrefix
  return map.key N encode mapKey

/-- `Metadata::storage_double_map_key`. -/
def storageDoubleMapKey {K Q : Type} (encode : K → Bytes) (encode2 : Q → Bytes) (first : K)
    (second : Q) : Except MetadataError StorageKey := do
  let pallet ← m.pallet storagePrefix
  let entry ← pallet.storageEntry storageKeyName
  let map ← entry.getDoubleMap storagePrefix
  return map.key N encode encode2 first second

/-- `Metadata::storage_map_key_prefix`. -/
def storageMapKeyPrefix : Except MetadataError StorageKey := do
  let pallet ← m.pallet storagePrefix
  let entry ← pallet.storageEntry storageKeyName
  entry.getMapPrefix N storagePrefix

/-- `Metadata::storage_double_map_partial_key`. -/
def storageDoubleMapPartialKey {K : Type} (encode : K → Bytes) (first : K) :
    Except MetadataError StorageKey := do
  let pallet ← m.pallet storagePrefix
  let entry ← pallet.storageEntry storageKeyName
  entry.getDoubleMapPrefix N encode storagePrefix first

end Keys

end Metadata

end SubstrateClient.Node
