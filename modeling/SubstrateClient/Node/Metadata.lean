import SubstrateClient.Lib.Collect
import SubstrateClient.Lib.Outcome
import SubstrateClient.Node.Registry

/-!
# The runtime metadata (`node-api/src/metadata.rs`)

`Metadata.tryFrom` turns the `frame_metadata` value a node sends into the tables the client looks
up: pallets by name, and calls, events and errors by `(pallet index, variant index)`. The three
index tables are built by one pass each (`palletVariants`, then `variantTable`) over the pallets
that declare the section; they differ in the section read and in the entry built.

Of `frame_metadata` the model keeps what `try_from` and the lookups read; versions other than V14
are one case, since `try_from` refuses them all.

* `tryFrom_eq_ok`: what an accepted metadata consists of.
* `mem_variantTable`, `variantTable_get_iff`: the tables are keyed by the **declared** index of the
  variant, and hold nothing else.
-/

namespace SubstrateClient.Node

open SubstrateClient.Lib

/-- `MetadataError`. -/
inductive MetadataError where
  | palletNotFound (name : String)
  | palletIndexNotFound (index : UInt8)
  | callNotFound (name : String)
  | callableNotFound (pallet call : UInt8)
  | eventNotFound (pallet event : UInt8)
  | errorNotFound (pallet error : UInt8)
  | storageNotFound (name : String)
  | storageTypeError
  | mapValueTypeError
  | defaultError (e : String)
  | constantValueError (e : String)
  | constantNotFound (name : String)
  | typeNotFound (id : TypeId)
  deriving DecidableEq, Repr

/-- `InvalidMetadataError`. -/
inductive InvalidMetadataError where
  | invalidPrefix
  | invalidVersion
  | missingType (id : TypeId)
  | typeDefNotVariant (id : TypeId)
  deriving DecidableEq, Repr

/-! ## What the node sends -/

/-- `StorageHasher`. -/
inductive StorageHasher where
  | blake2_128 | blake2_256 | blake2_128Concat | twox128 | twox256 | twox64Concat | identity
  deriving DecidableEq, Repr

/-- `StorageEntryType`. -/
inductive StorageEntryType where
  | plain (value : TypeId)
  | map (hashers : List StorageHasher) (key value : TypeId)
  deriving DecidableEq, Repr

/-- `StorageEntryMetadata`. -/
structure StorageEntryMetadata where
  name : String
  ty : StorageEntryType
  deriving DecidableEq, Repr

/-- `PalletStorageMetadata`: the declared storage prefix and the entries. -/
structure PalletStorageMetadata where
  storagePrefix : String
  entries : List StorageEntryMetadata
  deriving DecidableEq, Repr

/-- `PalletConstantMetadata`. -/
structure PalletConstantMetadata where
  name : String
  value : Bytes
  deriving DecidableEq, Repr

/-- A pallet as `frame_metadata` describes it. -/
structure RuntimePallet where
  name : String
  storage : Option PalletStorageMetadata
  calls : Option TypeId
  event : Option TypeId
  constants : List PalletConstantMetadata
  error : Option TypeId
  index : UInt8
  deriving DecidableEq, Repr

/-- `RuntimeMetadataLastVersion`. -/
structure RuntimeMetadataV14 where
  types : PortableRegistry
  pallets : List RuntimePallet
  deriving DecidableEq, Repr

/-- `RuntimeMetadata`. -/
inductive RuntimeMetadata where
  | v14 (m : RuntimeMetadataV14)
  | other (version : Nat)
  deriving DecidableEq, Repr

/-- `RuntimeMetadataPrefixed`. -/
structure RuntimeMetadataPrefixed where
  reserved : UInt32
  metadata : RuntimeMetadata
  deriving DecidableEq, Repr

/-- `META_RESERVED`: `meta` in ASCII, least significant byte first. -/
def metaReserved : UInt32 := 0x6174656d

/-! ## The tables of the client -/

/-- `PalletMetadata`. -/
structure PalletMetadata where
  index : UInt8
  name : String
  calls : HashMap String UInt8
  storage : HashMap String StorageEntryMetadata
  constants : HashMap String PalletConstantMetadata

/-- `CallMetadata`. -/
structure CallMetadata where
  pallet : String
  call : String
  variant : Variant
  deriving DecidableEq, Repr

/-- `EventMetadata`. -/
structure EventMetadata where
  pallet : String
  event : String
  variant : Variant
  deriving DecidableEq, Repr

/-- `ErrorMetadata`. -/
structure ErrorMetadata where
  pallet : String
  error : String
  variant : Variant
  deriving DecidableEq, Repr

/-- `ErrorMetadata::description`. -/
def ErrorMetadata.description (e : ErrorMetadata) : List String := e.variant.docs

/-- `Metadata`. -/
structure Metadata where
  metadata : RuntimeMetadataV14
  pallets : HashMap String PalletMetadata
  calls : HashMap (UInt8 × UInt8) CallMetadata
  events : HashMap (UInt8 × UInt8) EventMetadata
  errors : HashMap (UInt8 × UInt8) ErrorMetadata

namespace Metadata

/-- `Metadata::pallet`. -/
def pallet (m : Metadata) (name : String) : Except MetadataError PalletMetadata :=
  match m.pallets.get name with
  | some p => .ok p
  | none => .error (.palletNotFound name)

/-- `Metadata::call`. -/
def call (m : Metadata) (palletIndex callIndex : UInt8) : Except MetadataError CallMetadata :=
  match m.calls.get (palletIndex, callIndex) with
  | some c => .ok c
  | none => .error (.callableNotFound palletIndex callIndex)

/-- `Metadata::event`. -/
def event (m : Metadata) (palletIndex eventIndex : UInt8) : Except MetadataError EventMetadata :=
  match m.events.get (palletIndex, eventIndex) with
  | some e => .ok e
  | none => .error (.eventNotFound palletIndex eventIndex)

/-- `Metadata::error`. -/
def error (m : Metadata) (palletIndex errorIndex : UInt8) : Except MetadataError ErrorMetadata :=
  match m.errors.get (palletIndex, errorIndex) with
  | some e => .ok e
  | none => .error (.errorNotFound palletIndex errorIndex)

/-- `Metadata::resolve_type`. -/
def resolveType (m : Metadata) (id : TypeId) : Option Ty := m.metadata.types.resolve id

end Metadata

/-! ## `Metadata::try_from` -/

/-- The closure `get_type_def_variant`. -/
def getTypeDefVariant (m : RuntimeMetadataV14) (typeId : TypeId) :
    Except InvalidMetadataError (List Variant) :=
  match m.types.resolve typeId with
  | none => .error (.missingType typeId)
  | some ty =>
    match ty.typeDef with
    | .variant vs => .ok vs
    | _ => .error (.typeDefNotVariant typeId)

/-- The closure that builds one entry of `pallets`. -/
def palletMetadata (m : RuntimeMetadataV14) (p : RuntimePallet) :
    Except InvalidMetadataError (String × PalletMetadata) :=
  let build (calls : HashMap String UInt8) : String × PalletMetadata :=
    (p.name,
      { index := p.index
        name := p.name
        calls := calls
        storage :=
          match p.storage with
          | none => ∅
          | some s => .collect (s.entries.map fun entry => (entry.name, entry))
        constants := .collect (p.constants.map fun constant => (constant.name, constant)) })
  match p.calls with
  | none => .ok (build ∅)
  | some ty =>
    match getTypeDefVariant m ty with
    | .error e => .error e
    | .ok vs => .ok (build (.collect (vs.map fun v => (v.name, v.index))))

/-- One pass over the pallets that declare a section (`pallet_calls`, `pallet_events`,
`pallet_errors`): the pallet and the variants of the section's enum. -/
def palletVariants (m : RuntimeMetadataV14) (sect : RuntimePallet → Option TypeId) :
    Except InvalidMetadataError (List (RuntimePallet × List Variant)) :=
  tryCollect
    (fun (p, ty) =>
      match getTypeDefVariant m ty with
      | .error e => .error e
      | .ok vs => .ok (p, vs))
    (m.pallets.filterMap fun p => (sect p).map fun ty => (p, ty))

/-- The table of one pass, keyed by the index of the pallet and of the variant. -/
def variantTable {α : Type} (entry : RuntimePallet → Variant → α)
    (pvs : List (RuntimePallet × List Variant)) : HashMap (UInt8 × UInt8) α :=
  .collect (pvs.flatMap fun (p, vs) => vs.map fun var => ((p.index, var.index), entry p var))

/-- The entry of `calls`. -/
def callEntry (p : RuntimePallet) (var : Variant) : CallMetadata := ⟨p.name, var.name, var⟩

/-- The entry of `events`. -/
def eventEntry (p : RuntimePallet) (var : Variant) : EventMetadata := ⟨p.name, var.name, var⟩

/-- The entry of `errors`. -/
def errorEntry (p : RuntimePallet) (var : Variant) : ErrorMetadata := ⟨p.name, var.name, var⟩

/-- `Metadata::try_from`. -/
def Metadata.tryFrom (md : RuntimeMetadataPrefixed) : Except InvalidMetadataError Metadata :=
  if md.reserved ≠ metaReserved then .error .invalidPrefix
  else
    match md.metadata with
    | .other _ => .error .invalidVersion
    | .v14 m => do
      let pallets ← tryCollect (palletMetadata m) m.pallets
      let calls ← palletVariants m RuntimePallet.calls
      let events ← palletVariants m RuntimePallet.event
      let errors ← palletVariants m RuntimePallet.error
      return {
        metadata := m
        pallets := .collect pallets
        calls := variantTable callEntry calls
        events := variantTable eventEntry events
        errors := variantTable errorEntry errors }

/-- **What an accepted metadata consists of.** -/
theorem tryFrom_eq_ok {md : RuntimeMetadataPrefixed} {r : Metadata} :
    Metadata.tryFrom md = .ok r ↔
      ∃ m pallets calls events errors, md = ⟨metaReserved, .v14 m⟩ ∧
        tryCollect (palletMetadata m) m.pallets = .ok pallets ∧
        palletVariants m RuntimePallet.calls = .ok calls ∧
        palletVariants m RuntimePallet.event = .ok events ∧
        palletVariants m RuntimePallet.error = .ok errors ∧
        r = ⟨m, .collect pallets, variantTable callEntry calls, variantTable eventEntry events,
          variantTable errorEntry errors⟩ := by
  obtain ⟨reserved, metadata⟩ := md
  unfold Metadata.tryFrom
  by_cases hr : reserved = metaReserved
  · subst hr
    rw [if_neg (not_not.mpr rfl)]
    cases metadata with
    | other v => simp
    | v14 m =>
      simp only [Outcome.except_bind_eq_ok]
      constructor
      · rintro ⟨pallets, h1, calls, h2, events, h3, errors, h4, hr⟩
        cases hr
        exact ⟨m, pallets, calls, events, errors, rfl, h1, h2, h3, h4, rfl⟩
      · rintro ⟨m', pallets, calls, events, errors, hm, h1, h2, h3, h4, rfl⟩
        cases hm
        exact ⟨pallets, h1, calls, h2, events, h3, errors, h4, rfl⟩
  · rw [if_pos hr]
    constructor
    · intro h; cases h
    · rintro ⟨m, _, _, _, _, hm, -⟩
      cases hm
      exact absurd rfl hr

/-! ## The index tables -/

theorem getTypeDefVariant_eq_ok {m : RuntimeMetadataV14} {id : TypeId} {vs : List Variant} :
    getTypeDefVariant m id = .ok vs ↔
      ∃ ty, m.types.resolve id = some ty ∧ ty.typeDef = .variant vs := by
  unfold getTypeDefVariant
  cases m.types.resolve id with
  | none => simp
  | some ty =>
    obtain ⟨path, d⟩ := ty
    cases d <;> simp

/-- A pass lists the pallets that declare the section, each with the variants of its enum. -/
theorem mem_palletVariants {m : RuntimeMetadataV14} {sect : RuntimePallet → Option TypeId}
    {pvs : List (RuntimePallet × List Variant)} (h : palletVariants m sect = .ok pvs)
    (p : RuntimePallet) (vs : List Variant) :
    (p, vs) ∈ pvs ↔
      p ∈ m.pallets ∧ ∃ ty, sect p = some ty ∧ getTypeDefVariant m ty = .ok vs := by
  rw [mem_tryCollect h]
  constructor
  · rintro ⟨⟨q, ty⟩, hq, hv⟩
    obtain ⟨q', hq', hs⟩ := List.mem_filterMap.mp hq
    obtain ⟨ty', hty, he⟩ := Option.map_eq_some_iff.mp hs
    cases he
    simp only at hv
    split at hv
    · cases hv
    · rename_i vs' hvs
      cases hv
      exact ⟨hq', ty, hty, hvs⟩
  · rintro ⟨hp, ty, hty, hvs⟩
    refine ⟨(p, ty), List.mem_filterMap.mpr ⟨p, hp, by rw [hty]; rfl⟩, ?_⟩
    simp only [hvs]

/-- The pallets that declare a section keep the order of the metadata. -/
theorem declaring_sublist (sect : RuntimePallet → Option TypeId) :
    ∀ ps : List RuntimePallet,
      ((ps.filterMap fun p => (sect p).map fun ty => (p, ty)).map fun x => x.1.index).Sublist
        (ps.map RuntimePallet.index)
  | [] => List.Sublist.refl _
  | p :: ps => by
    have ih := declaring_sublist sect ps
    cases hs : sect p with
    | none =>
      rw [List.filterMap_cons_none (by rw [hs]; rfl)]
      exact ih.cons _
    | some ty =>
      rw [List.filterMap_cons_some (b := (p, ty)) (by rw [hs]; rfl)]
      exact ih.cons_cons _

/-- With distinct pallet indexes in the metadata, a pass lists distinct indexes. -/
theorem palletVariants_index_nodup {m : RuntimeMetadataV14}
    {sect : RuntimePallet → Option TypeId} {pvs : List (RuntimePallet × List Variant)}
    (h : palletVariants m sect = .ok pvs) (hn : (m.pallets.map RuntimePallet.index).Nodup) :
    (pvs.map fun pv => pv.1.index).Nodup := by
  have hmap := map_tryCollect (g := fun pv => pv.1.index) (h := fun x => x.1.index)
    (fun x y hxy => by
      simp only at hxy
      split at hxy
      · cases hxy
      · cases hxy
        rfl) h
  rw [hmap]
  exact hn.sublist (declaring_sublist sect m.pallets)

section Tables

variable {α : Type} {entry : RuntimePallet → Variant → α}
  {pvs : List (RuntimePallet × List Variant)}

/-- Every entry of a table is that of a variant at its **declared** index. -/
theorem mem_variantTable {p b : UInt8} {a : α}
    (h : (variantTable entry pvs).get (p, b) = some a) :
    ∃ pal vs, (pal, vs) ∈ pvs ∧ pal.index = p ∧ ∃ var ∈ vs, var.index = b ∧ a = entry pal var := by
  obtain ⟨⟨pal, vs⟩, hpv, hm⟩ := List.mem_flatMap.mp (HashMap.mem_of_get_collect h)
  obtain ⟨var, hvar, he⟩ := List.mem_map.mp hm
  cases he
  exact ⟨pal, vs, hpv, rfl, var, hvar, rfl, rfl⟩

/-- **The tables are keyed by declared index**: with distinct pallet indexes, and distinct variant
indexes in each enum, a key finds the variant that declares it. -/
theorem variantTable_get_iff (hp : (pvs.map fun pv => pv.1.index).Nodup)
    (hv : ∀ pv ∈ pvs, (pv.2.map Variant.index).Nodup) {p b : UInt8} {a : α} :
    (variantTable entry pvs).get (p, b) = some a ↔
      ∃ pal vs, (pal, vs) ∈ pvs ∧ pal.index = p ∧
        ∃ var ∈ vs, var.index = b ∧ a = entry pal var := by
  refine ⟨mem_variantTable, ?_⟩
  rintro ⟨pal, vs, hpv, rfl, var, hvar, rfl, rfl⟩
  refine (HashMap.get_collect_iff ?_).mpr
    (List.mem_flatMap.mpr ⟨(pal, vs), hpv, List.mem_map.mpr ⟨var, hvar, rfl⟩⟩)
  rw [List.map_flatMap, List.nodup_flatMap]
  refine ⟨fun pv hpv => ?_, ?_⟩
  · rw [List.map_map]
    have := hv pv hpv
    refine List.Nodup.of_map Prod.snd ?_
    rwa [List.map_map]
  · refine (List.pairwise_map.mp hp).imp fun {x y} hxy => ?_
    intro k hx hy
    obtain ⟨_, hm, rfl⟩ := List.mem_map.mp hx
    obtain ⟨_, hm', he⟩ := List.mem_map.mp hy
    obtain ⟨v, -, rfl⟩ := List.mem_map.mp hm
    obtain ⟨v', -, rfl⟩ := List.mem_map.mp hm'
    exact hxy (congrArg Prod.fst he).symm

end Tables

end SubstrateClient.Node
