import SubstrateClient.Api.Storage
import SubstrateClient.Node.StorageLayout

/-!
# Reading what a runtime has written (`src/std/mod.rs`)

The storage of a block is what the runtime's writes have made of it, to all entries of its metadata.
The runtime places an entry by the storage prefix that its pallet declares; the client reads it by
the names of the pallet and the entry.

* `storageReads_follow_writes`: for a plain entry, a map and a double map alike, whatever else was
  written in between, the client reads what the writes to the entry made of it, if the declared
  prefix hashes as the name of the pallet. Proofs are of the place that is read. Otherwise none of
  the writes to the entry are seen.
* `storageKeys_enumerate`: the keys listed under the prefix of a map, and under the partial prefix
  of a double map, are the keys the map has, each of them once, and the extractors read them back,
  if the declared prefix hashes as the name of the pallet. Otherwise none of them is listed.
-/

namespace SubstrateClient

open Lib Node Rpc Utils

section Reads

variable {J : Serde} {H : Hex} {N : Hashing} {F : ProofFormat} {P : Type} {api : Api P}
  {node : StorageNode} {storage : HashMap StorageKey Bytes} {atBlock : Option H256}

/-- A read under the place of a key returns what the map has. -/
theorem getStorageByKeyHash_place (hL : TextLaws J H) (hs : ServesStorage J H F node api.client)
    (hat : node.storageAt atBlock = some storage) {K V : Type} {L : Layout K V StorageKey Bytes}
    {map : K → Option V} (h : Holds L storage map) {value : Codec V}
    (hencode : L.encode = value.encode) {k : K} (hv : ∀ v, map k = some v → value.RoundTripsAt v) :
    api.getStorageByKeyHash H value (L.place k) atBlock = .ok (map k) := by
  unfold Api.getStorageByKeyHash
  rw [getOpaqueStorageByKeyHash_eq hL hs hat, h.get_place, hencode]
  cases hk : map k with
  | none => rfl
  | some v => simp only [Option.map_some, (hv v hk).decode_encode]

/-- The storage of the block is what the writes made of one that held the map. -/
def Wrote {K V : Type} (L : Layout K V StorageKey Bytes) (node : StorageNode)
    (atBlock : Option H256) (map : K → Option V) (ws : List (StoreWrite K V StorageKey Bytes)) :
    Prop :=
  (∀ w ∈ ws, w.Respects L) ∧ ∃ store, Holds L store map ∧
    node.storageAt atBlock = some (ws.foldl (StoreWrite.apply L) store)

theorem Wrote.holds {K V : Type} [DecidableEq K] {L : Layout K V StorageKey Bytes}
    {map : K → Option V} {ws : List (StoreWrite K V StorageKey Bytes)}
    (h : Wrote L node atBlock map ws) : ∃ storage, node.storageAt atBlock = some storage ∧
      Holds L storage (ws.foldl StoreWrite.view map) := by
  obtain ⟨hws, store, hstore, hat⟩ := h
  exact ⟨_, hat, hstore.run hws⟩

/-- The read returns the value, and the proof is one of the place. -/
def ReadsPlace {K V : Type} (L : Layout K V StorageKey Bytes) (node : StorageNode)
    (atBlock : Option H256) (k : K) (value : Option V) (read : ApiResult (Option V))
    (readProof : ApiResult (Option ReadProof)) : Prop :=
  read = .ok value ∧ ∃ storage, node.storageAt atBlock = some storage ∧
    storage.get (L.place k) = value.map L.encode ∧
    readProof = .ok (some (node.prove [L.place k] storage))

/-- **What the writes made of an entry is read**, and proved. -/
theorem readsPlace_of_wrote (hL : TextLaws J H) (hs : ServesStorage J H F node api.client)
    {K V : Type} [DecidableEq K] {L : Layout K V StorageKey Bytes} {map : K → Option V}
    {ws : List (StoreWrite K V StorageKey Bytes)} (h : Wrote L node atBlock map ws)
    {value : Codec V} (hencode : L.encode = value.encode) {k : K}
    (hv : ∀ v, ws.foldl StoreWrite.view map k = some v → value.RoundTripsAt v) :
    ReadsPlace L node atBlock k (ws.foldl StoreWrite.view map k)
      (api.getStorageByKeyHash H value (L.place k) atBlock)
      (api.getStorageProofByKeys H F [L.place k] atBlock) := by
  obtain ⟨storage, hat, hholds⟩ := h.holds
  exact ⟨getStorageByKeyHash_place hL hs hat hholds hencode hv, storage, hat, hholds.get_place k,
    getStorageProofByKeys_eq hL hs hat _⟩

/-- **The client reads what the runtime has written**, of plain entries, of maps and of double maps,
after any writes to them and to other entries, where the declared prefix hashes as the name of the
pallet. Elsewhere it reads what was stored before the writes to the entry. -/
theorem storageReads_follow_writes (hL : TextLaws J H)
    (hs : ServesStorage J H F node api.client) {md : RuntimeMetadataPrefixed}
    (hr : Metadata.tryFrom md = .ok api.metadata) {p e : String} {st : PalletStorageMetadata}
    {entry : StorageEntryMetadata} (he : StoresEntry api.metadata.metadata p e st entry) {V : Type}
    (value : Codec V) (atBlock : Option H256) :
    (HashesPrefix N st p →
      (∀ ty, entry.ty = .plain ty → ∀ map ws,
        Wrote (valueLayout N st.storagePrefix e value) node atBlock map ws →
        (∀ v, ws.foldl StoreWrite.view map () = some v → value.RoundTripsAt v) →
        ReadsPlace (valueLayout N st.storagePrefix e value) node atBlock ()
          (ws.foldl StoreWrite.view map ()) (api.getStorageValue H N value p e atBlock)
          (api.getStorageValueProof H N F p e atBlock)) ∧
      (∀ h kt vt, entry.ty = .map [h] kt vt → ∀ (hh : h.Reversible) {K : Type} [DecidableEq K]
        (encode : K → Bytes) (hi : Function.Injective encode) map ws,
        Wrote (mapLayout N st.storagePrefix e hh hi value) node atBlock map ws → ∀ k,
        (∀ v, ws.foldl StoreWrite.view map k = some v → value.RoundTripsAt v) →
        ReadsPlace (mapLayout N st.storagePrefix e hh hi value) node atBlock k
          (ws.foldl StoreWrite.view map k) (api.getStorageMap H N encode value p e k atBlock)
          (api.getStorageMapProof H N F encode p e k atBlock)) ∧
      (∀ h₁ h₂ kt vt, entry.ty = .map [h₁, h₂] kt vt → ∀ (hh₁ : h₁.Reversible)
        (hh₂ : h₂.Reversible) {K Q : Type} [DecidableEq K] [DecidableEq Q] (encode : K → Bytes)
        (hi : Function.Injective encode) (hf : PrefixFree encode) (encode2 : Q → Bytes)
        (hi2 : Function.Injective encode2) map ws,
        Wrote (doubleMapLayout N st.storagePrefix e hh₁ hh₂ hi hf hi2 value) node atBlock map ws →
        ∀ k q, (∀ v, ws.foldl StoreWrite.view map (k, q) = some v → value.RoundTripsAt v) →
        ReadsPlace (doubleMapLayout N st.storagePrefix e hh₁ hh₂ hi hf hi2 value) node atBlock
          (k, q) (ws.foldl StoreWrite.view map (k, q))
          (api.getStorageDoubleMap H N encode encode2 value p e k q atBlock)
          (api.getStorageDoubleMapProof H N F encode encode2 p e k q atBlock))) ∧
    (¬ HashesPrefix N st p → ∀ key, KeyOf N api.metadata p e key →
      ∀ {K : Type} (L : Layout K V StorageKey Bytes), L.region = entryRegion N st.storagePrefix e →
      ∀ ws : List (StoreWrite K V StorageKey Bytes), (∀ w ∈ ws, w.Own) →
      ∀ store : HashMap StorageKey Bytes,
        node.storageAt atBlock = some (ws.foldl (StoreWrite.apply L) store) →
        api.getOpaqueStorageByKeyHash H key atBlock = .ok (store.get key)) := by
  refine ⟨fun hp => ⟨?_, ?_, ?_⟩, ?_⟩
  · intro ty hty map ws hws hv
    unfold Api.getStorageValue Api.getStorageValueProof
    simp only [storageValueKey_eq_place value hr he hp hty]
    exact readsPlace_of_wrote hL hs hws rfl hv
  · intro h kt vt hty hh K _ encode hi map ws hws k hv
    unfold Api.getStorageMap Api.getStorageMapProof
    simp only [storageMapKey_eq_place value hr he hp hty hh hi]
    exact readsPlace_of_wrote hL hs hws rfl hv
  · intro h₁ h₂ kt vt hty hh₁ hh₂ K Q _ _ encode hi hf encode2 hi2 map ws hws k q hv
    unfold Api.getStorageDoubleMap Api.getStorageDoubleMapProof
    simp only [storageDoubleMapKey_eq_place value hr he hp hty hh₁ hh₂ hi hf hi2]
    exact readsPlace_of_wrote hL hs hws rfl hv
  · intro hp key hkey K L hregion ws hws store hat
    have hout : ¬ L.region key := by
      rw [hregion]
      exact not_entryRegion_of_keyOf hr hp hkey
    rw [getOpaqueStorageByKeyHash_eq hL hs hat, get_of_not_region hout hws]

/-! ## The keys of a map -/

/-- The keys of the part that begin with a prefix are places of keys the map has. -/
theorem getKeys_places (hL : TextLaws J H) (hs : ServesStorage J H F node api.client)
    (hat : node.storageAt atBlock = some storage) {K V : Type} {L : Layout K V StorageKey Bytes}
    {map : K → Option V} (h : Holds L storage map) {pre : StorageKey}
    (hpre : ∀ key, pre <+: key → L.region key) : ∃ ks : List K,
      api.getKeys J H pre atBlock = .ok (some (ks.map L.place)) ∧ ks.Nodup ∧
        ∀ k, k ∈ ks ↔ pre <+: L.place k ∧ (map k).isSome = true := by
  have hlisted : (node.keysUnder pre storage).Nodup := StorageNode.keysUnder_nodup pre
  obtain ⟨ks, hks, hnodup, hmem⟩ := h.exists_keys hpre hlisted fun _ => StorageNode.mem_keysUnder
  exact ⟨ks, hks ▸ getKeys_eq hL hs hat pre, hnodup, hmem⟩

/-- The keys that are listed are read back as `ids`, those `has` is true of and each once. -/
def Enumerates {T : Type} (listed : ApiResult (Option (List Bytes)))
    (extract : Bytes → Outcome Error (T × Bytes)) (has : T → Prop) : Prop :=
  ∃ keys ids, listed = .ok (some keys) ∧
    List.Forall₂ (fun key t => extract key = .ok (t, [])) keys ids ∧ ids.Nodup ∧
      ∀ t, t ∈ ids ↔ has t

/-- **The keys of a map are listed under its prefix**, and the second keys of a double map under the
partial prefix of the first, where the declared prefix hashes as the name of the pallet. Elsewhere
no key of the entry is listed. -/
theorem storageKeys_enumerate (hL : TextLaws J H) (hs : ServesStorage J H F node api.client)
    {md : RuntimeMetadataPrefixed} (hr : Metadata.tryFrom md = .ok api.metadata) {p e : String}
    {st : PalletStorageMetadata} {entry : StorageEntryMetadata}
    (he : StoresEntry api.metadata.metadata p e st entry) {V : Type} (value : Codec V)
    (atBlock : Option H256) :
    (HashesPrefix N st p →
      (∀ h kt vt, entry.ty = .map [h] kt vt → ∀ (hh : h.Concat) {K : Type} [DecidableEq K]
        (c : Codec K) (hc : c.RoundTrips) map ws,
        Wrote (mapLayout N st.storagePrefix e hh.reversible hc.injective value) node atBlock map
          ws →
        ∃ pre, api.getStorageMapKeyPrefix N p e = .ok pre ∧
          Enumerates (api.getKeys J H pre atBlock) (extractMapIdentifier c h)
            fun k => (ws.foldl StoreWrite.view map k).isSome = true) ∧
      (∀ h₁ h₂ kt vt, entry.ty = .map [h₁, h₂] kt vt → ∀ (hh₁ : h₁.Concat) (hh₂ : h₂.Concat)
        {K Q : Type} [DecidableEq K] [DecidableEq Q] (c : Codec K) (hc : c.RoundTrips)
        (c2 : Codec Q) (hc2 : c2.RoundTrips) map ws,
        Wrote (doubleMapLayout N st.storagePrefix e hh₁.reversible hh₂.reversible hc.injective
          hc.prefixFree hc2.injective value) node atBlock map ws → ∀ k,
        ∃ pre, api.getStorageDoubleMapPartialPrefix N c.encode p e k = .ok pre ∧
          Enumerates (api.getKeys J H pre atBlock)
            (extractDoubleMapIdentifier c2 (fun k => (c.encode k).length) h₁ h₂ k)
            fun q => (ws.foldl StoreWrite.view map (k, q)).isSome = true)) ∧
    (¬ HashesPrefix N st p → ∀ pre, KeyOf N api.metadata p e pre → ∀ storage,
      node.storageAt atBlock = some storage → ∃ keys,
        api.getKeys J H pre atBlock = .ok (some keys) ∧
        ∀ key ∈ keys, ¬ entryRegion N st.storagePrefix e key) := by
  refine ⟨fun hp => ⟨?_, ?_⟩, ?_⟩
  · intro h kt vt hty hh K _ c hc map ws hws
    obtain ⟨storage, hat, hholds⟩ := hws.holds
    obtain ⟨ks, hks, hnodup, hmem⟩ := getKeys_places hL hs hat hholds fun _ hkey => hkey
    refine ⟨_, ?_, _, ks, hks, ?_, hnodup, fun k => (hmem k).trans ?_⟩
    · unfold Api.getStorageMapKeyPrefix
      simp only [storageMapKeyPrefix_eq_names hr he hty, namesPrefix_congr hp]
    · rw [List.forall₂_map_left_iff]
      exact List.forall₂_same.mpr fun k _ =>
        extractMapIdentifier_place hh hc.injective (hc k)
    · exact and_iff_right (List.prefix_append _ _)
  · intro h₁ h₂ kt vt hty hh₁ hh₂ K Q _ _ c hc c2 hc2 map ws hws k
    obtain ⟨storage, hat, hholds⟩ := hws.holds
    obtain ⟨kqs, hkqs, hnodup, hmem⟩ := getKeys_places hL hs hat hholds
      fun _ hkey => (List.prefix_append _ (keyHash N c.encode k h₁)).trans hkey
    -- every key that is listed has the first key `k`
    have hfirst : ∀ kq ∈ kqs, kq.1 = k := fun kq hkq =>
      ((partialKey_prefix_place value hh₁.reversible hh₂.reversible hc.injective hc.prefixFree
        hc2.injective k kq.1 kq.2).mp ((hmem kq).mp hkq).1).symm
    refine ⟨_, ?_, _, kqs.map Prod.snd, hkqs, ?_, ?_, fun q => ?_⟩
    · unfold Api.getStorageDoubleMapPartialPrefix
      simp only [storageDoubleMapPartialKey_eq_names hr he hty, namesPrefix_congr hp]
    · rw [List.forall₂_map_left_iff, List.forall₂_map_right_iff]
      refine List.forall₂_same.mpr fun kq hkq => ?_
      obtain rfl := hfirst kq hkq
      exact extractDoubleMapIdentifier_place hh₁ hh₂ hc.injective hc.prefixFree hc2.injective rfl
        (hc2 kq.2)
    · refine hnodup.map_on fun kq hkq kq' hkq' hq => Prod.ext ?_ hq
      rw [hfirst kq hkq, hfirst kq' hkq']
    · constructor
      · intro hq
        obtain ⟨kq, hkq, rfl⟩ := List.mem_map.mp hq
        obtain rfl := hfirst kq hkq
        exact ((hmem kq).mp hkq).2
      · intro hsome
        refine List.mem_map.mpr ⟨(k, q), (hmem (k, q)).mpr ⟨?_, hsome⟩, rfl⟩
        exact (partialKey_prefix_place value hh₁.reversible hh₂.reversible hc.injective
          hc.prefixFree hc2.injective k k q).mpr rfl
  · intro hp pre hpre storage hat
    refine ⟨_, getKeys_eq hL hs hat pre, fun key hkey => ?_⟩
    obtain ⟨entry', he', tail, rfl⟩ := hpre.names
    rw [name_of_entry hr he'] at hkey
    have hnames := (List.prefix_append _ tail).trans (StorageNode.mem_keysUnder.mp hkey).1
    exact fun hregion => hp (hash_of_entryRegion hnames hregion).1

end Reads

/-! ## The assets pallet -/

/-- Ids of one byte. -/
def idCodec : Codec UInt8 := Scale.reference .u8

theorem idCodec_roundTrips : idCodec.RoundTrips := fun id =>
  Scale.reference_roundTrips .u8 id trivial

theorem blake2_128Concat_reversible : StorageHasher.blake2_128Concat.Reversible := trivial

theorem twox64Concat_reversible : StorageHasher.twox64Concat.Reversible := trivial

/-- The assets, by their ids. -/
abbrev assetLayout : Layout UInt8 UInt8 StorageKey Bytes :=
  mapLayout namesHashing "Assets" "Asset" blake2_128Concat_reversible idCodec_roundTrips.injective
    idCodec

/-- The accounts, by the ids of the asset and the holder. -/
abbrev accountLayout : Layout (UInt8 × UInt8) UInt8 StorageKey Bytes :=
  doubleMapLayout namesHashing "Assets" "Account" blake2_128Concat_reversible
    twox64Concat_reversible idCodec_roundTrips.injective idCodec_roundTrips.prefixFree
    idCodec_roundTrips.injective idCodec

/-- Two assets are created, an account is written, and the first asset is destroyed. -/
def assetWrites : List (StoreWrite UInt8 UInt8 StorageKey Bytes) :=
  [.put 1 7, .elsewhere (accountLayout.place (1, 2)) (some [9]), .put 2 5, .remove 1]

/-- The holders 2 and 3 of an asset, and one of another. -/
def accountWrites : List (StoreWrite (UInt8 × UInt8) UInt8 StorageKey Bytes) :=
  [.put (1, 2) 7, .put (2, 2) 8, .put (1, 3) 9]

/-- The node the writes lead to. -/
def assetsNode {K : Type} (L : Layout K UInt8 StorageKey Bytes)
    (ws : List (StoreWrite K UInt8 StorageKey Bytes)) : StorageNode :=
  .of (ws.foldl (StoreWrite.apply L) ∅)

/-- The metadata declares the entries of the assets pallet. -/
theorem assets_stores {r : Metadata}
    (hr : Metadata.tryFrom ⟨metaReserved, .v14 assetsRuntime⟩ = .ok r)
    {st : PalletStorageMetadata} (hst : assetsPallet.storage = some st) {name : String}
    {entry : StorageEntryMetadata} (hlast : st.lastEntry name = some entry) :
    StoresEntry r.metadata "Assets" name st entry :=
  ⟨⟨assetsPallet, by rw [metadata_of_tryFrom hr]; rfl, hst⟩, hlast⟩

/-- `storageReads_follow_writes` on the second asset, beside an account. -/
theorem storageReads_follow_writes_assets : ∃ r,
    Metadata.tryFrom ⟨metaReserved, .v14 assetsRuntime⟩ = .ok r ∧
    (⟨none, r, (assetsNode assetLayout assetWrites).client⟩ : Api Unit).getStorageMap Hex.reference
      namesHashing idCodec.encode idCodec "Assets" "Asset" 2 none = .ok (some 5) := by
  obtain ⟨r, hr⟩ : ∃ r, Metadata.tryFrom ⟨metaReserved, .v14 assetsRuntime⟩ = .ok r := ⟨_, rfl⟩
  have he : StoresEntry r.metadata "Assets" "Asset" _ ⟨"Asset", .map [.blake2_128Concat] 3 4⟩ :=
    assets_stores hr rfl rfl
  have hout : ¬ entryRegion namesHashing "Assets" "Asset" (accountLayout.place (1, 2)) :=
    not_entryRegion_of_entryRegion (by decide) (fun _ => rfl) (fun h => absurd h (by decide))
      (accountLayout.region_place (1, 2))
  have hwrote : Wrote assetLayout (assetsNode assetLayout assetWrites) none (fun _ => none)
      assetWrites := by
    refine ⟨?_, ∅, Holds.empty _, rfl⟩
    simp only [assetWrites, List.forall_mem_cons]
    exact ⟨trivial, hout, trivial, trivial, fun _ h => by cases h⟩
  let api : Api Unit := ⟨none, r, (assetsNode assetLayout assetWrites).client⟩
  have hs : ServesStorage Serde.reference Hex.reference ProofFormat.reference
      (assetsNode assetLayout assetWrites) api.client := StorageNode.serves_client _
  obtain ⟨-, hmap, -⟩ := (storageReads_follow_writes (N := namesHashing) textLaws_reference hs hr
    he idCodec none).1 rfl
  exact ⟨r, hr, (hmap _ _ _ rfl blake2_128Concat_reversible _ _ _ _ hwrote 2
    fun v _ => idCodec_roundTrips v).1⟩

/-- `storageKeys_enumerate` on the holders of the first asset. -/
theorem storageKeys_enumerate_assets : ∃ r pre,
    Metadata.tryFrom ⟨metaReserved, .v14 assetsRuntime⟩ = .ok r ∧
    Enumerates ((⟨none, r, (assetsNode accountLayout accountWrites).client⟩ : Api Unit).getKeys
        Serde.reference Hex.reference pre none)
      (extractDoubleMapIdentifier idCodec (fun k => (idCodec.encode k).length) .blake2_128Concat
        .twox64Concat (1 : UInt8)) (fun q => q = 2 ∨ q = 3) := by
  obtain ⟨r, hr⟩ : ∃ r, Metadata.tryFrom ⟨metaReserved, .v14 assetsRuntime⟩ = .ok r := ⟨_, rfl⟩
  have he : StoresEntry r.metadata "Assets" "Account" _
      ⟨"Account", .map [.blake2_128Concat, .twox64Concat] 3 4⟩ := assets_stores hr rfl rfl
  have hwrote : Wrote accountLayout (assetsNode accountLayout accountWrites) none (fun _ => none)
      accountWrites := by
    refine ⟨?_, ∅, Holds.empty _, rfl⟩
    simp only [accountWrites, List.forall_mem_cons]
    exact ⟨trivial, trivial, trivial, fun _ h => by cases h⟩
  let api : Api Unit := ⟨none, r, (assetsNode accountLayout accountWrites).client⟩
  have hs : ServesStorage Serde.reference Hex.reference ProofFormat.reference
      (assetsNode accountLayout accountWrites) api.client := StorageNode.serves_client _
  obtain ⟨-, hdouble⟩ := (storageKeys_enumerate (N := namesHashing) textLaws_reference hs hr he
    idCodec none).1 rfl
  obtain ⟨pre, -, keys, ids, hkeys, hids, hnodup, hmem⟩ := hdouble _ _ _ _ rfl trivial trivial
    idCodec idCodec_roundTrips idCodec idCodec_roundTrips _ _ hwrote 1
  refine ⟨r, pre, hr, keys, ids, hkeys, hids, hnodup, fun q => (hmem q).trans ?_⟩
  simp only [accountWrites, List.foldl_cons, List.foldl_nil, StoreWrite.view, Function.update_apply,
    Prod.mk.injEq]
  by_cases h2 : q = 2 <;> by_cases h3 : q = 3 <;> simp [h2, h3]

end SubstrateClient
