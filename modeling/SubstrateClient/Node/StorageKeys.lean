import SubstrateClient.Lib.PrefixFree
import SubstrateClient.Node.Storage
import SubstrateClient.Node.Tables

/-!
# Where storage keys lead

Five functions build the keys of a storage entry from its names (`KeyOf`). All of them write the
hash of the pallet's **name** and the hash of the entry's name, and then the hashes of map keys.

* `declaredPrefix_iff`: the runtime keeps an entry under the storage prefix its pallet declares. The
  keys of an entry begin with it exactly when the declared prefix hashes like the name, or the
  client finds no such entry. `try_from` drops the declared prefix.
* `storageKeys_select`: the prefix of a map begins the keys of the map and of no other entry, and the
  partial key of a double map begins the keys of its first map key and of no other. A hasher that
  keeps the encoding of the key behind its hash needs no assumption on the hash
  (`keyHash_eq_tagged`).
-/

namespace SubstrateClient.Node

open SubstrateClient.Lib

/-! ## Finding an entry -/

/-- The last entry of a name. -/
def PalletStorageMetadata.lastEntry (s : PalletStorageMetadata) (name : String) :
    Option StorageEntryMetadata :=
  s.entries.reverse.find? fun entry => entry.name == name

/-- The entry two names lead to. -/
def Metadata.entry (m : Metadata) (storagePrefix storageKeyName : String) :
    Except MetadataError StorageEntryMetadata := do
  let pallet ← m.pallet storagePrefix
  pallet.storageEntry storageKeyName

/-- The table of the entries finds the last entry of a name. -/
theorem storageTable_get (p : RuntimePallet) (name : String) :
    p.storageTable.get name = p.storage.bind fun s => s.lastEntry name := by
  unfold RuntimePallet.storageTable PalletStorageMetadata.lastEntry
  cases p.storage with
  | none => rfl
  | some s => exact HashMap.get_collect_by StorageEntryMetadata.name s.entries name

theorem storageEntry_eq_ok {p : PalletMetadata} {key : String} {entry : StorageEntryMetadata} :
    p.storageEntry key = .ok entry ↔ p.storage.get key = some entry := by
  unfold PalletMetadata.storageEntry
  cases p.storage.get key <;> simp

/-- **Which entry the client finds**: the last of its name in the last pallet of its name. -/
theorem entry_eq_ok {md : RuntimeMetadataPrefixed} {r : Metadata}
    (hr : Metadata.tryFrom md = .ok r) {storagePrefix storageKeyName : String}
    {entry : StorageEntryMetadata} :
    r.entry storagePrefix storageKeyName = .ok entry ↔
      ∃ p s, r.metadata.lastPallet storagePrefix = some p ∧ p.storage = some s ∧
        s.lastEntry storageKeyName = some entry := by
  have htable : ∀ pm p, palletMetadata r.metadata p = .ok (storagePrefix, pm) →
      (pm.storageEntry storageKeyName = .ok entry ↔
        ∃ s, p.storage = some s ∧ s.lastEntry storageKeyName = some entry) := by
    intro pm p hpm
    obtain ⟨calls, -, he⟩ := palletMetadata_eq_ok.mp hpm
    cases he
    rw [storageEntry_eq_ok, storageTable_get, Option.bind_eq_some_iff]
  unfold Metadata.entry
  rw [Outcome.except_bind_eq_ok]
  constructor
  · rintro ⟨pm, hpm, he⟩
    obtain ⟨p, hlast, hbuilt⟩ := (pallet_eq_ok hr).mp hpm
    obtain ⟨s, hs, he⟩ := (htable pm p hbuilt).mp he
    exact ⟨p, s, hlast, hs, he⟩
  · rintro ⟨p, s, hlast, hs, he⟩
    obtain ⟨pm, hpm⟩ := exists_pallet hr hlast
    obtain ⟨p', hlast', hbuilt⟩ := (pallet_eq_ok hr).mp hpm
    rw [hlast] at hlast'
    cases hlast'
    exact ⟨pm, hpm, (htable pm p hbuilt).mpr ⟨s, hs, he⟩⟩

/-! ## The five functions -/

section Builders

variable {N : Hashing} {m : Metadata} {storagePrefix storageKeyName : String} {key : StorageKey}
  {K Q : Type} {encode : K → Bytes} {encode2 : Q → Bytes} {a : K} {b : Q}

/-- The part of a key its two names give. -/
abbrev namesPrefix (N : Hashing) (storagePrefix storageKeyName : String) : Bytes :=
  entryPrefix N (asBytes storagePrefix) (asBytes storageKeyName)

/-- The functions find the entry first. -/
theorem of_entry {α : Type} {f : StorageEntryMetadata → Except MetadataError α} {x : α} :
    (do let pallet ← m.pallet storagePrefix
        let entry ← pallet.storageEntry storageKeyName
        f entry) = .ok x ↔
      ∃ entry, m.entry storagePrefix storageKeyName = .ok entry ∧ f entry = .ok x := by
  simp only [Metadata.entry, Outcome.except_bind_eq_ok]
  constructor
  · rintro ⟨pallet, hp, entry, he, hx⟩
    exact ⟨entry, ⟨pallet, hp, he⟩, hx⟩
  · rintro ⟨entry, ⟨pallet, hp, he⟩, hx⟩
    exact ⟨pallet, hp, entry, he, hx⟩

theorem storageValueKey_eq_ok : m.storageValueKey N storagePrefix storageKeyName = .ok key ↔
    ∃ entry, m.entry storagePrefix storageKeyName = .ok entry ∧
      (∃ value, entry.ty = .plain value) ∧ key = namesPrefix N storagePrefix entry.name := by
  refine of_entry.trans (exists_congr fun entry => and_congr_right fun _ => ?_)
  unfold StorageEntryMetadata.getValue
  cases entry.ty <;> simp [Bind.bind, Except.bind, pure, Except.pure, eq_comm, StorageValue.key]

theorem storageMapKeyPrefix_eq_ok :
    m.storageMapKeyPrefix N storagePrefix storageKeyName = .ok key ↔
      ∃ entry, m.entry storagePrefix storageKeyName = .ok entry ∧
        (∃ hashers k v, entry.ty = .map hashers k v) ∧
        key = namesPrefix N storagePrefix entry.name := by
  refine of_entry.trans (exists_congr fun entry => and_congr_right fun _ => ?_)
  unfold StorageEntryMetadata.getMapPrefix
  cases entry.ty <;> simp [eq_comm]

theorem storageMapKey_eq_ok :
    m.storageMapKey N storagePrefix storageKeyName encode a = .ok key ↔
      ∃ entry, m.entry storagePrefix storageKeyName = .ok entry ∧
        ∃ hashers k v h, entry.ty = .map hashers k v ∧ hashers[0]? = some h ∧
          key = namesPrefix N storagePrefix entry.name ++ keyHash N encode a h := by
  refine of_entry.trans (exists_congr fun entry => and_congr_right fun _ => ?_)
  unfold StorageEntryMetadata.getMap
  cases entry.ty with
  | plain value => simp [Bind.bind, Except.bind]
  | map hashers k v =>
    cases hh : hashers[0]? <;>
      simp [hh, Bind.bind, Except.bind, pure, Except.pure, eq_comm, StorageMap.key]

theorem storageDoubleMapPartialKey_eq_ok :
    m.storageDoubleMapPartialKey N storagePrefix storageKeyName encode a = .ok key ↔
      ∃ entry, m.entry storagePrefix storageKeyName = .ok entry ∧
        ∃ hashers k v h, entry.ty = .map hashers k v ∧ hashers[0]? = some h ∧
          key = namesPrefix N storagePrefix entry.name ++ keyHash N encode a h := by
  refine of_entry.trans (exists_congr fun entry => and_congr_right fun _ => ?_)
  unfold StorageEntryMetadata.getDoubleMapPrefix
  cases entry.ty with
  | plain value => simp
  | map hashers k v => cases hh : hashers[0]? <;> simp [hh, eq_comm]

theorem storageDoubleMapKey_eq_ok :
    m.storageDoubleMapKey N storagePrefix storageKeyName encode encode2 a b = .ok key ↔
      ∃ entry, m.entry storagePrefix storageKeyName = .ok entry ∧
        ∃ hashers k v h h2, entry.ty = .map hashers k v ∧ hashers[0]? = some h ∧
          hashers[1]? = some h2 ∧ key = namesPrefix N storagePrefix entry.name ++
            keyHash N encode a h ++ keyHash N encode2 b h2 := by
  refine of_entry.trans (exists_congr fun entry => and_congr_right fun _ => ?_)
  unfold StorageEntryMetadata.getDoubleMap
  cases entry.ty with
  | plain value => simp [Bind.bind, Except.bind]
  | map hashers k v =>
    cases hh : hashers[0]? <;> cases hh2 : hashers[1]? <;>
      simp [hh, hh2, Bind.bind, Except.bind, pure, Except.pure, eq_comm, StorageDoubleMap.key]

/-- The partial key read off the metadata is that of the double map. -/
theorem getDoubleMapPrefix_of_getDoubleMap {entry : StorageEntryMetadata} {map : StorageDoubleMap}
    (h : entry.getDoubleMap storagePrefix = .ok map) :
    entry.getDoubleMapPrefix N encode storagePrefix a = .ok (map.partialKey N encode a) := by
  unfold StorageEntryMetadata.getDoubleMap at h
  unfold StorageEntryMetadata.getDoubleMapPrefix
  split at h
  · rename_i hashers k v hty
    split at h
    · rename_i h1 h2 hh1 hh2
      cases h
      simp only [hh1]
      rfl
    · cases h
  · cases h

/-- Keys that begin with the same 32 bytes have names of the same hashes. -/
theorem namesPrefix_prefix_iff {P P' E E' : String} {tail : Bytes} :
    namesPrefix N P E <+: namesPrefix N P' E' ++ tail ↔
      N.twox_128 (asBytes P) = N.twox_128 (asBytes P') ∧
        N.twox_128 (asBytes E) = N.twox_128 (asBytes E') := by
  have hfree : PrefixFree fun bs => (N.twox_128 bs).1 := .of_length fun bs => (N.twox_128 bs).2
  unfold namesPrefix entryPrefix
  constructor
  · intro h
    rw [List.append_assoc] at h
    obtain ⟨hP, h⟩ := hfree.split h
    rw [← List.append_nil (N.twox_128 (asBytes E)).1] at h
    exact ⟨Subtype.ext hP, Subtype.ext (hfree.split h).1⟩
  · rintro ⟨hP, hE⟩
    rw [hP, hE]
    exact List.prefix_append _ _

/-- The keys the client computes for an entry. -/
inductive KeyOf (N : Hashing) (m : Metadata) (storagePrefix storageKeyName : String)
    (key : StorageKey) : Prop where
  | value : m.storageValueKey N storagePrefix storageKeyName = .ok key →
      KeyOf N m storagePrefix storageKeyName key
  | mapPrefix : m.storageMapKeyPrefix N storagePrefix storageKeyName = .ok key →
      KeyOf N m storagePrefix storageKeyName key
  | map {K : Type} (encode : K → Bytes) (a : K) :
      m.storageMapKey N storagePrefix storageKeyName encode a = .ok key →
      KeyOf N m storagePrefix storageKeyName key
  | partialKey {K : Type} (encode : K → Bytes) (a : K) :
      m.storageDoubleMapPartialKey N storagePrefix storageKeyName encode a = .ok key →
      KeyOf N m storagePrefix storageKeyName key
  | doubleMap {K Q : Type} (encode : K → Bytes) (encode2 : Q → Bytes) (a : K) (b : Q) :
      m.storageDoubleMapKey N storagePrefix storageKeyName encode encode2 a b = .ok key →
      KeyOf N m storagePrefix storageKeyName key

/-- **Every key of an entry begins with the hashes of its names.** -/
theorem KeyOf.names (h : KeyOf N m storagePrefix storageKeyName key) :
    ∃ entry, m.entry storagePrefix storageKeyName = .ok entry ∧
      ∃ tail, key = namesPrefix N storagePrefix entry.name ++ tail := by
  cases h with
  | value h =>
    obtain ⟨entry, he, -, rfl⟩ := storageValueKey_eq_ok.mp h
    exact ⟨entry, he, [], (List.append_nil _).symm⟩
  | mapPrefix h =>
    obtain ⟨entry, he, -, rfl⟩ := storageMapKeyPrefix_eq_ok.mp h
    exact ⟨entry, he, [], (List.append_nil _).symm⟩
  | map encode a h =>
    obtain ⟨entry, he, _, _, _, _, -, -, rfl⟩ := storageMapKey_eq_ok.mp h
    exact ⟨entry, he, _, rfl⟩
  | partialKey encode a h =>
    obtain ⟨entry, he, _, _, _, _, -, -, rfl⟩ := storageDoubleMapPartialKey_eq_ok.mp h
    exact ⟨entry, he, _, rfl⟩
  | doubleMap encode encode2 a b h =>
    obtain ⟨entry, he, _, _, _, _, _, -, -, -, rfl⟩ := storageDoubleMapKey_eq_ok.mp h
    exact ⟨entry, he, _, List.append_assoc _ _ _⟩

/-- An entry that is found has a key. -/
theorem exists_keyOf {entry : StorageEntryMetadata}
    (he : m.entry storagePrefix storageKeyName = .ok entry) :
    KeyOf N m storagePrefix storageKeyName (namesPrefix N storagePrefix entry.name) := by
  cases hty : entry.ty with
  | plain value => exact .value (storageValueKey_eq_ok.mpr ⟨entry, he, ⟨value, hty⟩, rfl⟩)
  | map hashers k v =>
    exact .mapPrefix (storageMapKeyPrefix_eq_ok.mpr ⟨entry, he, ⟨hashers, k, v, hty⟩, rfl⟩)

end Builders

/-! ## The declared prefix -/

section Declared

variable {N : Hashing} {md : RuntimeMetadataPrefixed} {r : Metadata}

/-- The entry found under a name has that name. -/
theorem name_of_entry (hr : Metadata.tryFrom md = .ok r) {storagePrefix storageKeyName : String}
    {entry : StorageEntryMetadata} (he : r.entry storagePrefix storageKeyName = .ok entry) :
    entry.name = storageKeyName := by
  obtain ⟨p, s, -, -, hlast⟩ := (entry_eq_ok hr).mp he
  exact eq_of_beq (List.find?_some hlast :)

/-- The keys of the entry begin with the storage prefix its pallet declares. -/
def DeclaredPrefix (N : Hashing) (r : Metadata) (p : RuntimePallet) (s : PalletStorageMetadata)
    (entry : StorageEntryMetadata) : Prop :=
  ∀ key, KeyOf N r p.name entry.name key → namesPrefix N s.storagePrefix entry.name <+: key

/-- The last pallet of the name has no entry of the name. -/
def Hidden (m : RuntimeMetadataV14) (palletName entryName : String) : Prop :=
  ∃ q, m.lastPallet palletName = some q ∧ ∀ s, q.storage = some s → ∀ e ∈ s.entries,
    e.name ≠ entryName

/-- An entry of the metadata is found, unless it is hidden. -/
theorem entry_of_not_hidden (hr : Metadata.tryFrom md = .ok r) {p : RuntimePallet}
    (hp : p ∈ r.metadata.pallets) {entryName : String} (h : ¬ Hidden r.metadata p.name entryName) :
    ∃ entry, r.entry p.name entryName = .ok entry := by
  unfold Hidden at h
  push Not at h
  have hlast : (r.metadata.lastPallet p.name).isSome := by
    rw [RuntimeMetadataV14.lastPallet, List.find?_isSome]
    exact ⟨p, List.mem_reverse.mpr hp, beq_self_eq_true _⟩
  obtain ⟨q, hq⟩ := Option.isSome_iff_exists.mp hlast
  obtain ⟨s, hs, e, he, hname⟩ := h q hq
  have hfound : (s.lastEntry entryName).isSome := by
    rw [PalletStorageMetadata.lastEntry, List.find?_isSome]
    exact ⟨e, List.mem_reverse.mpr he, beq_iff_eq.mpr hname⟩
  obtain ⟨entry, hentry⟩ := Option.isSome_iff_exists.mp hfound
  exact ⟨entry, (entry_eq_ok hr).mpr ⟨q, s, hq, hs, hentry⟩⟩

theorem not_entry_of_hidden (hr : Metadata.tryFrom md = .ok r) {palletName entryName : String}
    (h : Hidden r.metadata palletName entryName) (entry : StorageEntryMetadata) :
    r.entry palletName entryName ≠ .ok entry := by
  intro he
  obtain ⟨q, s, hq, hs, hlast⟩ := (entry_eq_ok hr).mp he
  obtain ⟨q', hq', hnone⟩ := h
  rw [hq] at hq'
  cases hq'
  exact hnone s hs entry (List.mem_reverse.mp (List.mem_of_find?_eq_some hlast))
    (eq_of_beq (List.find?_some hlast :))

/-- **When the keys begin with the declared prefix**: the prefix hashes like the name of the
pallet, or the client finds no such entry. -/
theorem declaredPrefix_iff (hr : Metadata.tryFrom md = .ok r) :
    ∀ p ∈ r.metadata.pallets, ∀ s, p.storage = some s → ∀ entry ∈ s.entries,
      (DeclaredPrefix N r p s entry ↔
        N.twox_128 (asBytes s.storagePrefix) = N.twox_128 (asBytes p.name) ∨
          Hidden r.metadata p.name entry.name) := by
  intro p hp s _ entry _
  constructor
  · intro h
    by_cases hh : Hidden r.metadata p.name entry.name
    · exact Or.inr hh
    · obtain ⟨e, he⟩ := entry_of_not_hidden hr hp hh
      have hkey := h _ (exists_keyOf he)
      rw [← List.append_nil (namesPrefix N p.name e.name)] at hkey
      exact Or.inl (namesPrefix_prefix_iff.mp hkey).1
  · rintro (hhash | hh) key hkey
    · obtain ⟨e, he, tail, rfl⟩ := hkey.names
      rw [name_of_entry hr he]
      exact namesPrefix_prefix_iff.mpr ⟨hhash, rfl⟩
    · obtain ⟨e, he, -⟩ := hkey.names
      exact absurd he (not_entry_of_hidden hr hh e)

/-- A hash, cut or filled up to its length. -/
def digest (n : Nat) (bs : Bytes) : {bs : Bytes // bs.length = n} :=
  ⟨(bs ++ List.replicate n 0).take n, by simp⟩

/-- The hashes of the names of two pallets and their entries, and of two asset ids. -/
def namesHashing : Hashing where
  blake2_128 bs := digest 16 <|
    if bs = [1] then [74, 158, 111, 155, 141, 67, 246, 173, 0, 143, 140, 41, 25, 41, 222, 226]
    else if bs = [2] then
      [228, 105, 99, 242, 158, 74, 220, 221, 70, 23, 11, 138, 193, 154, 162, 145]
    else []
  blake2_256 _ := digest 32 []
  twox_64 bs := digest 8 <|
    if bs = [1] then [48, 231, 33, 27, 129, 39, 65, 138]
    else if bs = [2] then [231, 176, 50, 87, 201, 184, 121, 75]
    else []
  twox_128 bs := digest 16 <|
    if bs = asBytes "Assets" then
      [104, 42, 89, 213, 26, 185, 228, 138, 140, 140, 196, 24, 255, 151, 8, 210]
    else if bs = asBytes "Asset" then
      [211, 67, 113, 161, 147, 167, 81, 238, 165, 136, 62, 149, 83, 69, 123, 46]
    else if bs = asBytes "Account" then
      [185, 157, 136, 14, 198, 129, 121, 156, 12, 243, 14, 136, 134, 55, 29, 169]
    else if bs = asBytes "Grandpa" then
      [95, 156, 196, 91, 122, 0, 197, 137, 147, 97, 225, 198, 9, 150, 120, 220]
    else if bs = asBytes "GrandpaFinality" then
      [35, 113, 226, 22, 132, 210, 250, 233, 155, 203, 77, 87, 146, 66, 247, 74]
    else if bs = asBytes "CurrentSetId" then
      [138, 45, 9, 70, 62, 255, 204, 120, 162, 45, 117, 185, 203, 135, 223, 252]
    else []
  twox_256 _ := digest 32 []

/-- `declaredPrefix_iff` where the two names are one. -/
theorem declaredPrefix_iff_assets : ∃ r,
    Metadata.tryFrom ⟨metaReserved, .v14 assetsRuntime⟩ = .ok r ∧
    ∀ s, assetsPallet.storage = some s → ∀ entry ∈ s.entries,
      DeclaredPrefix namesHashing r assetsPallet s entry := by
  obtain ⟨r, hr⟩ : ∃ r, Metadata.tryFrom ⟨metaReserved, .v14 assetsRuntime⟩ = .ok r := ⟨_, rfl⟩
  refine ⟨r, hr, fun s hs entry he => ?_⟩
  have hp : assetsPallet ∈ r.metadata.pallets := by
    rw [metadata_of_tryFrom hr]
    exact List.mem_cons_of_mem _ List.mem_cons_self
  refine (declaredPrefix_iff hr assetsPallet hp s hs entry he).mpr (Or.inl ?_)
  cases hs
  rfl

/-- The storage a pallet keeps under a name of its own. -/
def grandpaStorage : PalletStorageMetadata := ⟨"GrandpaFinality", [⟨"CurrentSetId", .plain 0⟩]⟩

/-- A pallet whose storage prefix is not its name. -/
def grandpaPallet : RuntimePallet := ⟨"Grandpa", some grandpaStorage, none, none, [], none, 10⟩

/-- **The client reads elsewhere** when the declared prefix is not the name of the pallet. -/
theorem not_declaredPrefix_grandpa : ∃ r,
    Metadata.tryFrom ⟨metaReserved, .v14 ⟨⟨[]⟩, [grandpaPallet]⟩⟩ = .ok r ∧
    (∃ key, r.storageValueKey namesHashing "Grandpa" "CurrentSetId" = .ok key ∧
      ¬ namesPrefix namesHashing "GrandpaFinality" "CurrentSetId" <+: key) ∧
    ¬ DeclaredPrefix namesHashing r grandpaPallet grandpaStorage ⟨"CurrentSetId", .plain 0⟩ := by
  obtain ⟨r, hr⟩ : ∃ r, Metadata.tryFrom ⟨metaReserved, .v14 ⟨⟨[]⟩, [grandpaPallet]⟩⟩ = .ok r :=
    ⟨_, rfl⟩
  have he : r.entry "Grandpa" "CurrentSetId" = .ok ⟨"CurrentSetId", .plain 0⟩ :=
    (entry_eq_ok hr).mpr ⟨grandpaPallet, _, by rw [metadata_of_tryFrom hr]; rfl, rfl, rfl⟩
  have hkey : r.storageValueKey namesHashing "Grandpa" "CurrentSetId" =
      .ok (namesPrefix namesHashing "Grandpa" "CurrentSetId") :=
    storageValueKey_eq_ok.mpr ⟨_, he, ⟨0, rfl⟩, rfl⟩
  have hne : ¬ namesPrefix namesHashing "GrandpaFinality" "CurrentSetId" <+:
      namesPrefix namesHashing "Grandpa" "CurrentSetId" := by decide
  exact ⟨r, hr, ⟨_, hkey, hne⟩, fun h => hne (h _ (.value hkey))⟩

end Declared

/-! ## Selecting by prefix -/

/-- The hashers that keep the encoding of the key behind its hash. -/
def StorageHasher.Reversible : StorageHasher → Prop
  | .identity | .blake2_128Concat | .twox64Concat => True
  | .blake2_128 | .blake2_256 | .twox128 | .twox256 => False

/-- The names are one, or their hashes differ. -/
def NoCollision (N : Hashing) (name name' : String) : Prop :=
  N.twox_128 (asBytes name) = N.twox_128 (asBytes name') → name = name'

section Select

variable {N : Hashing} {h : StorageHasher} {K : Type} {encode : K → Bytes}

/-- A reversible hasher writes a part of one length, and the encoding. -/
theorem keyHash_eq_tagged (N : Hashing) (hh : h.Reversible) :
    ∃ (tag : Bytes → Bytes) (n : Nat), (∀ bs, (tag bs).length = n) ∧
      ∀ {K : Type} (encode : K → Bytes), (keyHash N encode · h) = tagged tag encode := by
  cases h with
  | identity => exact ⟨fun _ => [], 0, fun _ => rfl, fun _ => rfl⟩
  | blake2_128Concat =>
    exact ⟨fun bs => (N.blake2_128 bs).1, 16, fun bs => (N.blake2_128 bs).2, fun _ => rfl⟩
  | twox64Concat => exact ⟨fun bs => (N.twox_64 bs).1, 8, fun bs => (N.twox_64 bs).2, fun _ => rfl⟩
  | _ => exact hh.elim

theorem keyHash_prefixFree (hh : h.Reversible) (hp : PrefixFree encode) :
    PrefixFree (keyHash N encode · h) := by
  obtain ⟨tag, n, hn, htag⟩ := keyHash_eq_tagged N hh
  rw [htag]
  exact hp.tagged hn

theorem keyHash_injective (hh : h.Reversible) (hi : Function.Injective encode) :
    Function.Injective (keyHash N encode · h) := by
  obtain ⟨tag, n, hn, htag⟩ := keyHash_eq_tagged N hh
  rw [htag]
  exact tagged_injective hi hn

variable {md : RuntimeMetadataPrefixed} {r : Metadata}

/-- The prefix of a map selects the keys of its own entry. -/
theorem mapKeyPrefix_selects (hr : Metadata.tryFrom md = .ok r) {P E P' E' : String}
    {pre key : StorageKey} (hpre : r.storageMapKeyPrefix N P E = .ok pre)
    (hkey : KeyOf N r P' E' key) :
    pre <+: key ↔ N.twox_128 (asBytes P) = N.twox_128 (asBytes P') ∧
      N.twox_128 (asBytes E) = N.twox_128 (asBytes E') := by
  obtain ⟨entry, he, -, rfl⟩ := storageMapKeyPrefix_eq_ok.mp hpre
  obtain ⟨entry', he', tail, rfl⟩ := hkey.names
  rw [name_of_entry hr he, name_of_entry hr he']
  exact namesPrefix_prefix_iff

/-- The keys of a double map whose hashers are reversible take their map keys apart. -/
theorem doubleMapKeys_select {P E : String} {entry : StorageEntryMetadata}
    {hashers : List StorageHasher} {k v : TypeId} {h₁ h₂ : StorageHasher}
    (he : r.entry P E = .ok entry) (hty : entry.ty = .map hashers k v)
    (hh₁ : hashers[0]? = some h₁) (hh₂ : hashers[1]? = some h₂) (hr₁ : h₁.Reversible)
    (hr₂ : h₂.Reversible) {Q : Type} {encode2 : Q → Bytes} (hi : Function.Injective encode)
    (hp : PrefixFree encode) (hi2 : Function.Injective encode2) (a a' : K) (b b' : Q) :
    ∃ pk key key', r.storageDoubleMapPartialKey N P E encode a = .ok pk ∧
      (∀ map, entry.getDoubleMap P = .ok map → map.partialKey N encode a = pk) ∧
      r.storageDoubleMapKey N P E encode encode2 a b = .ok key ∧
      r.storageDoubleMapKey N P E encode encode2 a' b' = .ok key' ∧
      (pk <+: key' ↔ a = a') ∧ (key = key' → a = a' ∧ b = b') := by
  have hfree := keyHash_prefixFree (N := N) hr₁ hp
  have hinj := keyHash_injective (N := N) hr₁ hi
  have hpartial : r.storageDoubleMapPartialKey N P E encode a = .ok _ :=
    storageDoubleMapPartialKey_eq_ok.mpr ⟨entry, he, _, _, _, _, hty, hh₁, rfl⟩
  refine ⟨_, _, _, hpartial, fun map hmap => ?_,
    storageDoubleMapKey_eq_ok.mpr ⟨entry, he, _, _, _, _, _, hty, hh₁, hh₂, rfl⟩,
    storageDoubleMapKey_eq_ok.mpr ⟨entry, he, _, _, _, _, _, hty, hh₁, hh₂, rfl⟩, ?_, ?_⟩
  · obtain ⟨entry', he', hpk⟩ := of_entry.mp hpartial
    cases he.symm.trans he'
    rw [getDoubleMapPrefix_of_getDoubleMap hmap] at hpk
    exact Except.ok.inj hpk
  · rw [List.append_assoc, List.prefix_append_right_inj]
    constructor
    · intro hpre
      rw [← List.append_nil (keyHash N encode a h₁)] at hpre
      exact hinj (hfree.split hpre).1
    · rintro rfl
      exact List.prefix_append _ _
  · intro hkeys
    rw [List.append_assoc, List.append_assoc] at hkeys
    obtain ⟨ha, hb⟩ := hfree.split_eq (List.append_cancel_left hkeys)
    exact ⟨hinj ha, keyHash_injective hr₂ hi2 hb⟩

/-- **A prefix selects the keys it is meant to**: that of a map the keys of the map, and that of a
first map key, which the double map computes as well, the keys under it. -/
theorem storageKeys_select (N : Hashing) (hr : Metadata.tryFrom md = .ok r) :
    (∀ P E pre, r.storageMapKeyPrefix N P E = .ok pre →
      (∀ key, KeyOf N r P E key → pre <+: key) ∧
      ∀ P' E' key, (P', E') ≠ (P, E) → NoCollision N P P' → NoCollision N E E' →
        KeyOf N r P' E' key → ¬ pre <+: key) ∧
    (∀ P E entry hashers k v h₁ h₂, r.entry P E = .ok entry → entry.ty = .map hashers k v →
      hashers[0]? = some h₁ → hashers[1]? = some h₂ → h₁.Reversible → h₂.Reversible →
      ∀ {K Q : Type} (encode : K → Bytes) (encode2 : Q → Bytes),
      Function.Injective encode → PrefixFree encode →
      Function.Injective encode2 → PrefixFree encode2 → ∀ a a' b b',
      ∃ pk key key', r.storageDoubleMapPartialKey N P E encode a = .ok pk ∧
        (∀ map, entry.getDoubleMap P = .ok map → map.partialKey N encode a = pk) ∧
        r.storageDoubleMapKey N P E encode encode2 a b = .ok key ∧
        r.storageDoubleMapKey N P E encode encode2 a' b' = .ok key' ∧
        (pk <+: key' ↔ a = a') ∧ (key = key' → a = a' ∧ b = b')) := by
  constructor
  · intro P E pre hpre
    refine ⟨fun key hkey => (mapKeyPrefix_selects hr hpre hkey).mpr ⟨rfl, rfl⟩, ?_⟩
    intro P' E' key hne hP hE hkey hprefix
    obtain ⟨hP', hE'⟩ := (mapKeyPrefix_selects hr hpre hkey).mp hprefix
    exact hne (Prod.ext (hP hP').symm (hE hE').symm)
  · intro P E entry hashers k v h₁ h₂ he hty hh₁ hh₂ hr₁ hr₂ K Q encode encode2 hi hp hi2 _ a a' b
      b'
    exact doubleMapKeys_select he hty hh₁ hh₂ hr₁ hr₂ hi hp hi2 a a' b b'

/-- An entry of the assets pallet is found. -/
theorem assets_entry {r : Metadata}
    (hr : Metadata.tryFrom ⟨metaReserved, .v14 assetsRuntime⟩ = .ok r)
    {s : PalletStorageMetadata} (hs : assetsPallet.storage = some s) {name : String}
    {entry : StorageEntryMetadata} (hlast : s.lastEntry name = some entry) :
    r.entry "Assets" name = .ok entry :=
  (entry_eq_ok hr).mpr ⟨assetsPallet, s, by rw [metadata_of_tryFrom hr]; rfl, hs, hlast⟩

/-- `storageKeys_select` on the entries of the assets pallet, with ids of one byte. -/
theorem storageKeys_select_assets : ∃ r pre,
    Metadata.tryFrom ⟨metaReserved, .v14 assetsRuntime⟩ = .ok r ∧
    r.storageMapKeyPrefix namesHashing "Assets" "Account" = .ok pre ∧
    (∀ key, KeyOf namesHashing r "Assets" "Account" key → pre <+: key) ∧
    (∀ key, KeyOf namesHashing r "Assets" "Asset" key → ¬ pre <+: key) ∧
    ∀ a a' b b' : UInt8, ∃ pk key key',
      r.storageDoubleMapPartialKey namesHashing "Assets" "Account" ([·]) a = .ok pk ∧
      r.storageDoubleMapKey namesHashing "Assets" "Account" ([·]) ([·]) a b = .ok key ∧
      r.storageDoubleMapKey namesHashing "Assets" "Account" ([·]) ([·]) a' b' = .ok key' ∧
      (pk <+: key' ↔ a = a') ∧ (key = key' → a = a' ∧ b = b') := by
  obtain ⟨r, hr⟩ : ∃ r, Metadata.tryFrom ⟨metaReserved, .v14 assetsRuntime⟩ = .ok r := ⟨_, rfl⟩
  have he : r.entry "Assets" "Account" =
      .ok ⟨"Account", .map [.blake2_128Concat, .twox64Concat] 3 4⟩ := assets_entry hr rfl rfl
  have hpre : r.storageMapKeyPrefix namesHashing "Assets" "Account" = .ok _ :=
    storageMapKeyPrefix_eq_ok.mpr ⟨_, he, ⟨_, _, _, rfl⟩, rfl⟩
  obtain ⟨hmap, hdouble⟩ := storageKeys_select namesHashing hr
  obtain ⟨hown, hother⟩ := hmap _ _ _ hpre
  have hi : Function.Injective fun b : UInt8 => [b] := fun _ _ h => List.singleton_inj.mp h
  have hp : PrefixFree fun b : UInt8 => [b] := PrefixFree.of_length fun _ => rfl
  refine ⟨r, _, hr, hpre, hown, fun key hkey => ?_, fun a a' b b' => ?_⟩
  · exact hother "Assets" "Asset" key (by decide) (fun _ => rfl)
      (fun h => absurd h (by decide)) hkey
  · obtain ⟨pk, key, key', hpk, -, hkeys⟩ :=
      hdouble _ _ _ _ _ _ _ _ he rfl rfl rfl trivial trivial _ _ hi hp hi hp a a' b b'
    exact ⟨pk, key, key', hpk, hkeys⟩

end Select

end SubstrateClient.Node
