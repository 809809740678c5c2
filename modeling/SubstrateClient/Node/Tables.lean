import SubstrateClient.Node.VariantIndex

/-!
# What the tables of an accepted metadata hold

`Metadata::try_from` walks the pallets four times: once for the table of the pallets by name, once
for each of the tables of calls, events and errors. A pass fails on the first type that is not an
enum, so all four succeed exactly when every declared type is one (`tryFrom_ok_iff`).

* `pallet_eq_ok`: a name finds the last pallet of that name.
* `variantTable_iff`: with distinct indexes, a key of an index table finds the item that a pallet
  declares there, and nothing else.
* `tryFrom_exact`: both halves, for the metadata a node sends.
-/

namespace SubstrateClient.Node

open SubstrateClient.Lib

/-! ## The passes -/

/-- The type is an enum of the registry. -/
def RuntimeMetadataV14.IsVariant (m : RuntimeMetadataV14) (id : TypeId) : Prop :=
  ∃ vs, m.types.typeDef id = some (.variant vs)

theorem getTypeDefVariant_iff {m : RuntimeMetadataV14} {id : TypeId} {vs : List Variant} :
    getTypeDefVariant m id = .ok vs ↔ m.types.typeDef id = some (.variant vs) := by
  rw [getTypeDefVariant_eq_ok]
  exact Option.map_eq_some_iff.symm

/-- A pass succeeds when every type it meets is an enum. -/
theorem exists_palletVariants {m : RuntimeMetadataV14} {sect : RuntimePallet → Option TypeId} :
    (∃ pvs, palletVariants m sect = .ok pvs) ↔
      ∀ p ∈ m.pallets, ∀ id, sect p = some id → m.IsVariant id := by
  unfold palletVariants
  rw [exists_tryCollect]
  constructor
  · intro h p hp id hid
    have hmem : (p, id) ∈ m.pallets.filterMap fun p => (sect p).map fun ty => (p, ty) :=
      List.mem_filterMap.mpr ⟨p, hp, by rw [hid]; rfl⟩
    obtain ⟨pv, hpv⟩ := h _ hmem
    simp only at hpv
    split at hpv
    · cases hpv
    · rename_i vs hvs
      exact ⟨vs, getTypeDefVariant_iff.mp hvs⟩
  · rintro h ⟨p, id⟩ hmem
    obtain ⟨q, hq, hs⟩ := List.mem_filterMap.mp hmem
    obtain ⟨ty, hty, he⟩ := Option.map_eq_some_iff.mp hs
    cases he
    obtain ⟨vs, hvs⟩ := h p hq id hty
    refine ⟨(p, vs), ?_⟩
    simp only [getTypeDefVariant_iff.mpr hvs]

/-- The calls of a pallet by name. -/
def RuntimePallet.callTable (m : RuntimeMetadataV14) (p : RuntimePallet) :
    Except InvalidMetadataError (HashMap String UInt8) :=
  match p.calls with
  | none => .ok ∅
  | some ty =>
    match getTypeDefVariant m ty with
    | .error e => .error e
    | .ok vs => .ok (.collect (vs.map fun v => (v.name, v.index)))

/-- The storage entries of a pallet by name. -/
def RuntimePallet.storageTable (p : RuntimePallet) : HashMap String StorageEntryMetadata :=
  match p.storage with
  | none => ∅
  | some s => .collect (s.entries.map fun entry => (entry.name, entry))

/-- What the first pass makes of a pallet. -/
theorem palletMetadata_eq_ok {m : RuntimeMetadataV14} {p : RuntimePallet}
    {kv : String × PalletMetadata} :
    palletMetadata m p = .ok kv ↔ ∃ calls, p.callTable m = .ok calls ∧
      kv = (p.name, ⟨p.index, p.name, calls, p.storageTable,
        .collect (p.constants.map fun constant => (constant.name, constant))⟩) := by
  unfold palletMetadata RuntimePallet.callTable RuntimePallet.storageTable
  cases p.calls with
  | none =>
    constructor
    · rintro ⟨⟩
      exact ⟨∅, rfl, rfl⟩
    · rintro ⟨_, ⟨⟩, rfl⟩
      rfl
  | some ty =>
    dsimp only
    cases getTypeDefVariant m ty with
    | error e => simp
    | ok vs =>
      constructor
      · rintro ⟨⟩
        exact ⟨_, rfl, rfl⟩
      · rintro ⟨_, ⟨⟩, rfl⟩
        rfl

/-- The first pass builds the entry of a pallet when its calls are an enum. -/
theorem exists_palletMetadata {m : RuntimeMetadataV14} {p : RuntimePallet} :
    (∃ kv, palletMetadata m p = .ok kv) ↔ ∀ id, p.calls = some id → m.IsVariant id := by
  simp only [palletMetadata_eq_ok, RuntimeMetadataV14.IsVariant, ← getTypeDefVariant_iff,
    RuntimePallet.callTable]
  cases p.calls with
  | none => simp
  | some ty =>
    dsimp only
    cases hty : getTypeDefVariant m ty <;> simp [hty]

/-- **Which metadata is accepted**: V14 behind the magic number, every declared type an enum. -/
theorem tryFrom_ok_iff {md : RuntimeMetadataPrefixed} :
    (∃ r, Metadata.tryFrom md = .ok r) ↔ ∃ m, md = ⟨metaReserved, .v14 m⟩ ∧
      ∀ p ∈ m.pallets, ∀ (sect : Section) (id : TypeId), sect.typeId p = some id →
        m.IsVariant id := by
  constructor
  · rintro ⟨r, hr⟩
    obtain ⟨m, pallets, calls, events, errors, hmd, -, hc, he, her, -⟩ := tryFrom_eq_ok.mp hr
    refine ⟨m, hmd, fun p hp sect id hid => ?_⟩
    match sect with
    | .calls => exact exists_palletVariants.mp ⟨calls, hc⟩ p hp id hid
    | .events => exact exists_palletVariants.mp ⟨events, he⟩ p hp id hid
    | .errors => exact exists_palletVariants.mp ⟨errors, her⟩ p hp id hid
  · rintro ⟨m, hmd, h⟩
    obtain ⟨pallets, hp⟩ := exists_tryCollect.mpr fun p hp =>
      exists_palletMetadata.mpr (h p hp .calls)
    obtain ⟨calls, hc⟩ := exists_palletVariants.mpr fun p hp => h p hp .calls
    obtain ⟨events, he⟩ := exists_palletVariants.mpr fun p hp => h p hp .events
    obtain ⟨errors, her⟩ := exists_palletVariants.mpr fun p hp => h p hp .errors
    exact ⟨_, tryFrom_eq_ok.mpr ⟨m, pallets, calls, events, errors, hmd, hp, hc, he, her, rfl⟩⟩

/-! ## The pallets by name -/

/-- The last pallet of a name. -/
def RuntimeMetadataV14.lastPallet (m : RuntimeMetadataV14) (name : String) :
    Option RuntimePallet :=
  m.pallets.reverse.find? fun p => p.name == name

theorem RuntimeMetadataV14.lastPallet_eq_some {m : RuntimeMetadataV14} {name : String}
    {p : RuntimePallet} (h : m.lastPallet name = some p) : p ∈ m.pallets ∧ p.name = name :=
  ⟨List.mem_reverse.mp (List.mem_of_find?_eq_some h), eq_of_beq (List.find?_some h :)⟩

/-- A name finds what the last pallet of that name was made into. -/
theorem pallet_eq_ok {md : RuntimeMetadataPrefixed} {r : Metadata}
    (hr : Metadata.tryFrom md = .ok r) {name : String} {pm : PalletMetadata} :
    r.pallet name = .ok pm ↔ ∃ p, r.metadata.lastPallet name = some p ∧
      palletMetadata r.metadata p = .ok (name, pm) := by
  obtain ⟨m, pallets, calls, events, errors, -, hp, -, -, -, rfl⟩ := tryFrom_eq_ok.mp hr
  have hrel : Option.Rel (fun p pm => palletMetadata m p = .ok (p.name, pm))
      (m.lastPallet name) ((HashMap.collect pallets).get name) := by
    refine HashMap.get_collect_forall₂ ((tryCollect_eq_ok.mp hp).imp fun p kv h => ?_) name
    obtain ⟨_, _, rfl⟩ := palletMetadata_eq_ok.mp h
    exact ⟨rfl, h⟩
  unfold Metadata.pallet
  cases hl : m.lastPallet name with
  | none =>
    rw [hl] at hrel
    cases hg : (HashMap.collect pallets).get name with
    | none => simp
    | some pm' => rw [hg] at hrel; cases hrel
  | some p =>
    have hname := (RuntimeMetadataV14.lastPallet_eq_some hl).2
    rw [hl] at hrel
    cases hg : (HashMap.collect pallets).get name with
    | none => rw [hg] at hrel; cases hrel
    | some pm' =>
      rw [hg] at hrel
      cases hrel with
      | some h =>
        simp only [Except.ok.injEq, Option.some.injEq, exists_eq_left', h, Prod.mk.injEq, hname,
          true_and]

/-- Every pallet of an accepted metadata was made into an entry, so every name is found. -/
theorem exists_pallet {md : RuntimeMetadataPrefixed} {r : Metadata}
    (hr : Metadata.tryFrom md = .ok r) {name : String} {p : RuntimePallet}
    (hlast : r.metadata.lastPallet name = some p) : ∃ pm, r.pallet name = .ok pm := by
  have hp : ∃ pallets, tryCollect (palletMetadata r.metadata) r.metadata.pallets = .ok pallets := by
    obtain ⟨m, pallets, _, _, _, -, hp, -, -, -, rfl⟩ := tryFrom_eq_ok.mp hr
    exact ⟨pallets, hp⟩
  obtain ⟨hmem, rfl⟩ := RuntimeMetadataV14.lastPallet_eq_some hlast
  obtain ⟨kv, hkv⟩ := exists_tryCollect.mp hp p hmem
  obtain ⟨calls, -, rfl⟩ := palletMetadata_eq_ok.mp hkv
  exact ⟨_, (pallet_eq_ok hr).mpr ⟨p, hlast, hkv⟩⟩

/-! ## The items by index -/

/-- The table of a section holds under each key what a pallet declares there, and nothing else. -/
theorem variantTable_iff {α : Type} (entry : RuntimePallet → Variant → α)
    {m : RuntimeMetadataV14} (hm : DistinctIndexes m) (sect : Section)
    {pvs : List (RuntimePallet × List Variant)} (hpvs : palletVariants m sect.typeId = .ok pvs)
    {p b : UInt8} {a : α} :
    (variantTable entry pvs).get (p, b) = some a ↔
      ∃ pal var, sect.Declares m p b pal var ∧ a = entry pal var := by
  have hmem : ∀ pal vs, (pal, vs) ∈ pvs ↔ pal ∈ m.pallets ∧
      ∃ id, sect.typeId pal = some id ∧ m.types.typeDef id = some (.variant vs) := by
    intro pal vs
    rw [mem_palletVariants hpvs]
    simp only [getTypeDefVariant_iff]
  have hv : ∀ pv ∈ pvs, (pv.2.map Variant.index).Nodup := by
    rintro ⟨pal, vs⟩ hpv
    obtain ⟨hpal, id, hid, hvs⟩ := (hmem pal vs).mp hpv
    exact hm.variants sect pal hpal id vs hid (getTypeDefVariant_iff.mpr hvs)
  rw [variantTable_get_iff (palletVariants_index_nodup hpvs hm.pallets) hv]
  constructor
  · rintro ⟨pal, vs, hpv, hp, var, hvar, hb, rfl⟩
    obtain ⟨hpal, id, hid, hvs⟩ := (hmem pal vs).mp hpv
    exact ⟨pal, var, ⟨hpal, hp, ⟨id, vs, hid, hvs, hvar⟩, hb⟩, rfl⟩
  · rintro ⟨pal, var, ⟨hpal, hp, ⟨id, vs, hid, hvs, hvar⟩, hb⟩, rfl⟩
    exact ⟨pal, vs, (hmem pal vs).mpr ⟨hpal, id, hid, hvs⟩, hp, var, hvar, hb, rfl⟩

section Lookups

variable {md : RuntimeMetadataPrefixed} {r : Metadata} {p b : UInt8}

theorem call_eq_ok (hr : Metadata.tryFrom md = .ok r) (hd : DistinctIndexes r.metadata)
    {c : CallMetadata} : r.call p b = .ok c ↔ ∃ pal var,
      Section.calls.Declares r.metadata p b pal var ∧ c = ⟨pal.name, var.name, var⟩ := by
  obtain ⟨m, _, calls, _, _, -, -, hc, -, -, rfl⟩ := tryFrom_eq_ok.mp hr
  refine Iff.trans ?_ (variantTable_iff callEntry hd .calls hc)
  unfold Metadata.call
  cases (variantTable callEntry calls).get (p, b) <;> simp

theorem event_eq_ok (hr : Metadata.tryFrom md = .ok r) (hd : DistinctIndexes r.metadata)
    {e : EventMetadata} : r.event p b = .ok e ↔ ∃ pal var,
      Section.events.Declares r.metadata p b pal var ∧ e = ⟨pal.name, var.name, var⟩ := by
  obtain ⟨m, _, _, events, _, -, -, -, he, -, rfl⟩ := tryFrom_eq_ok.mp hr
  refine Iff.trans ?_ (variantTable_iff eventEntry hd .events he)
  unfold Metadata.event
  cases (variantTable eventEntry events).get (p, b) <;> simp

theorem error_eq_ok (hr : Metadata.tryFrom md = .ok r) (hd : DistinctIndexes r.metadata)
    {e : ErrorMetadata} : r.error p b = .ok e ↔ ∃ pal var,
      Section.errors.Declares r.metadata p b pal var ∧ e = ⟨pal.name, var.name, var⟩ := by
  obtain ⟨m, _, _, _, errors, -, -, -, -, he, rfl⟩ := tryFrom_eq_ok.mp hr
  refine Iff.trans ?_ (variantTable_iff errorEntry hd .errors he)
  unfold Metadata.error
  cases (variantTable errorEntry errors).get (p, b) <;> simp

end Lookups

/-- An accepted metadata keeps what the node sent. -/
theorem metadata_of_tryFrom {m : RuntimeMetadataV14} {r : Metadata}
    (hr : Metadata.tryFrom ⟨metaReserved, .v14 m⟩ = .ok r) : r.metadata = m := by
  obtain ⟨_, _, _, _, _, hm, -, -, -, -, rfl⟩ := tryFrom_eq_ok.mp hr
  cases hm
  rfl

/-- **The tables are exact**: a metadata is accepted when it is V14 and its declared types are
enums, and with distinct indexes its tables hold the declared items, under their indexes and with
the names of their pallets. -/
theorem tryFrom_exact (md : RuntimeMetadataPrefixed) :
    ((∃ r, Metadata.tryFrom md = .ok r) ↔ ∃ m, md = ⟨metaReserved, .v14 m⟩ ∧
      ∀ p ∈ m.pallets, ∀ (sect : Section) (id : TypeId), sect.typeId p = some id →
        m.IsVariant id) ∧
    ∀ m r, md = ⟨metaReserved, .v14 m⟩ → Metadata.tryFrom md = .ok r → DistinctIndexes m →
      ∀ p b,
        (∀ c, r.call p b = .ok c ↔ ∃ pal var,
          Section.calls.Declares m p b pal var ∧ c = ⟨pal.name, var.name, var⟩) ∧
        (∀ e, r.event p b = .ok e ↔ ∃ pal var,
          Section.events.Declares m p b pal var ∧ e = ⟨pal.name, var.name, var⟩) ∧
        (∀ e, r.error p b = .ok e ↔ ∃ pal var,
          Section.errors.Declares m p b pal var ∧ e = ⟨pal.name, var.name, var⟩) := by
  refine ⟨tryFrom_ok_iff, ?_⟩
  rintro _ r rfl hr hd p b
  obtain rfl := metadata_of_tryFrom hr
  exact ⟨fun _ => call_eq_ok hr hd, fun _ => event_eq_ok hr hd, fun _ => error_eq_ok hr hd⟩

/-- A pallet with storage, calls, events and errors. -/
def assetsPallet : RuntimePallet where
  name := "Assets"
  storage := some ⟨"Assets", [⟨"Asset", .map [.blake2_128Concat] 3 4⟩,
    ⟨"Account", .map [.blake2_128Concat, .twox64Concat] 3 4⟩]⟩
  calls := some 0
  event := some 1
  constants := []
  error := some 2
  index := 50

/-- A runtime with the assets pallet, whose calls leave indexes out. -/
def assetsRuntime : RuntimeMetadataV14 where
  types := ⟨[⟨["Call"], .variant [⟨"create", [⟨3⟩], 0, []⟩, ⟨"mint", [⟨3⟩, ⟨4⟩], 3, []⟩]⟩,
    ⟨["Event"], .variant [⟨"Issued", [⟨3⟩], 1, []⟩]⟩,
    ⟨["Error"], .variant [⟨"Frozen", [], 2, []⟩]⟩,
    ⟨[], .primitive .u8⟩, ⟨[], .primitive .u32⟩]⟩
  pallets := [⟨"System", none, none, none, [], none, 0⟩, assetsPallet]

theorem assetsRuntime_declared : ∀ p ∈ assetsRuntime.pallets, ∀ (sect : Section) (id : TypeId),
    sect.typeId p = some id → ∃ vs, assetsRuntime.types.typeDef id = some (.variant vs) ∧
      (vs.map Variant.index).Nodup := by
  simp only [assetsRuntime, List.forall_mem_cons]
  refine ⟨fun sect id hid => ?_, fun sect id hid => ?_, fun _ h => by cases h⟩
  · cases sect <;> cases hid
  · cases sect <;> cases hid <;> exact ⟨_, rfl, by decide⟩

theorem assetsRuntime_distinct : DistinctIndexes assetsRuntime where
  pallets := by decide
  variants sect p hp id vs hid hvs := by
    obtain ⟨vs', hvs', hn⟩ := assetsRuntime_declared p hp sect id hid
    rw [getTypeDefVariant_iff, hvs'] at hvs
    cases hvs
    exact hn

/-- `tryFrom_exact` on a call, an event and an error of the assets pallet. -/
theorem tryFrom_exact_assets : ∃ r, Metadata.tryFrom ⟨metaReserved, .v14 assetsRuntime⟩ = .ok r ∧
    r.call 50 3 = .ok ⟨"Assets", "mint", ⟨"mint", [⟨3⟩, ⟨4⟩], 3, []⟩⟩ ∧
    r.event 50 1 = .ok ⟨"Assets", "Issued", ⟨"Issued", [⟨3⟩], 1, []⟩⟩ ∧
    r.error 50 2 = .ok ⟨"Assets", "Frozen", ⟨"Frozen", [], 2, []⟩⟩ := by
  obtain ⟨haccepts, hexact⟩ := tryFrom_exact ⟨metaReserved, .v14 assetsRuntime⟩
  obtain ⟨r, hr⟩ := haccepts.mpr ⟨_, rfl, fun p hp sect id hid =>
    (assetsRuntime_declared p hp sect id hid).imp fun _ h => h.1⟩
  have hlookup := hexact _ r rfl hr assetsRuntime_distinct 50
  have hassets : assetsPallet ∈ assetsRuntime.pallets := List.mem_cons_of_mem _ List.mem_cons_self
  refine ⟨r, hr, ?_, ?_, ?_⟩
  · exact ((hlookup 3).1 _).mpr ⟨_, _, ⟨hassets, rfl, ⟨0, _, rfl, rfl,
      List.mem_cons_of_mem _ List.mem_cons_self⟩, rfl⟩, rfl⟩
  · exact ((hlookup 1).2.1 _).mpr ⟨_, _, ⟨hassets, rfl, ⟨1, _, rfl, rfl,
      List.mem_cons_self⟩, rfl⟩, rfl⟩
  · exact ((hlookup 2).2.2 _).mpr ⟨_, _, ⟨hassets, rfl, ⟨2, _, rfl, rfl,
      List.mem_cons_self⟩, rfl⟩, rfl⟩

end SubstrateClient.Node
