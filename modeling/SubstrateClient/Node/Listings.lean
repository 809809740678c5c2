import SubstrateClient.Node.Calls
import SubstrateClient.Node.EventRecords

/-!
# Listing what a pallet declares (`node-api/src/metadata.rs`)

`Metadata::events` and `Metadata::errors` walk the index tables and keep what has the index of a
pallet. A hash map has no order, so the lists are known up to their order.

* `listings_exact`: with distinct indexes, each is listed once, and nothing else is.
* `constant_eq`: a constant is found by the name of its pallet and its own.
* `decodeEvents_listed`: whatever the decoder accepts, what it returns is listed.
-/

namespace SubstrateClient.Node

open SubstrateClient.Lib

/-- What a table has under the index of a pallet. -/
def ofPallet {α : Type} (table : HashMap (UInt8 × UInt8) α) (palletIndex : UInt8) : List α :=
  (table.intoIter.filter fun kv => kv.1.1 = palletIndex).map Prod.snd

/-- `Metadata::events`. -/
def Metadata.eventsOf (m : Metadata) (palletIndex : UInt8) : List EventMetadata :=
  ofPallet m.events palletIndex

/-- `Metadata::errors`. -/
def Metadata.errorsOf (m : Metadata) (palletIndex : UInt8) : List ErrorMetadata :=
  ofPallet m.errors palletIndex

/-- `PalletMetadata::constant`. -/
def PalletMetadata.constant (p : PalletMetadata) (key : String) :
    Except MetadataError PalletConstantMetadata :=
  match p.constants.get key with
  | some c => .ok c
  | none => .error (.constantNotFound key)

/-- The list holds each item of the section that a pallet of the index declares, once. -/
structure ListsDeclared {α : Type} (m : RuntimeMetadataV14) (sect : Section) (p : UInt8)
    (entry : RuntimePallet → Variant → α) (items : List α) : Prop where
  once : items.Nodup
  declared : ∀ a, a ∈ items ↔ ∃ b pal var, sect.Declares m p b pal var ∧ a = entry pal var

section Listings

variable {md : RuntimeMetadataPrefixed} {r : Metadata}

theorem mem_ofPallet {α : Type} {table : HashMap (UInt8 × UInt8) α} {p : UInt8} {a : α} :
    a ∈ ofPallet table p ↔ ∃ b, table.get (p, b) = some a := by
  unfold ofPallet
  simp only [List.mem_map, List.mem_filter, decide_eq_true_eq]
  constructor
  · rintro ⟨⟨⟨p', b⟩, a'⟩, ⟨hkv, rfl⟩, rfl⟩
    exact ⟨b, HashMap.mem_intoIter.mp hkv⟩
  · rintro ⟨b, hget⟩
    exact ⟨((p, b), a), ⟨HashMap.mem_intoIter.mpr hget, rfl⟩, rfl⟩

/-- Where an item tells the key it is under, nothing is listed twice. -/
theorem nodup_ofPallet {α : Type} {table : HashMap (UInt8 × UInt8) α} (index : α → UInt8)
    (h : ∀ p b a, table.get (p, b) = some a → index a = b) (p : UInt8) :
    (ofPallet table p).Nodup := by
  unfold ofPallet
  rw [List.Nodup, List.pairwise_map, List.pairwise_filter]
  have hkeys := table.nodup_intoIter
  rw [List.Nodup, List.pairwise_map] at hkeys
  refine hkeys.imp_of_mem ?_
  rintro ⟨⟨p₁, b₁⟩, a₁⟩ ⟨⟨p₂, b₂⟩, a₂⟩ h₁ h₂ hne hp₁ hp₂ heq
  simp only [decide_eq_true_eq] at hp₁ hp₂
  have hb₁ := h _ _ _ (HashMap.mem_intoIter.mp h₁)
  have hb₂ := h _ _ _ (HashMap.mem_intoIter.mp h₂)
  dsimp only at heq
  subst heq
  exact hne (by simp [hp₁, hp₂, ← hb₁, ← hb₂])

/-- The list of a section whose table is that of `try_from`. -/
theorem listsDeclared_ofPallet {α : Type} {entry : RuntimePallet → Variant → α}
    (variant : α → Variant) (hvariant : ∀ p v, variant (entry p v) = v) {m : RuntimeMetadataV14}
    (hd : DistinctIndexes m) (sect : Section) {pvs : List (RuntimePallet × List Variant)}
    (hpvs : palletVariants m sect.typeId = .ok pvs) (p : UInt8) :
    ListsDeclared m sect p entry (ofPallet (variantTable entry pvs) p) where
  once := by
    refine nodup_ofPallet (fun a => (variant a).index) (fun p b a hget => ?_) p
    obtain ⟨pal, var, ⟨-, -, -, rfl⟩, rfl⟩ := (variantTable_iff entry hd sect hpvs).mp hget
    rw [hvariant]
  declared a := by
    simp only [mem_ofPallet, variantTable_iff entry hd sect hpvs]

/-- **The events and the errors of a pallet are listed**, each once, and no others. -/
theorem listings_exact (hr : Metadata.tryFrom md = .ok r) (hd : DistinctIndexes r.metadata)
    (p : UInt8) :
    ListsDeclared r.metadata .events p (fun pal var => ⟨pal.name, var.name, var⟩) (r.eventsOf p) ∧
    ListsDeclared r.metadata .errors p (fun pal var => ⟨pal.name, var.name, var⟩)
      (r.errorsOf p) := by
  obtain ⟨m, _, _, events, errors, -, -, -, hevents, herrors, rfl⟩ := tryFrom_eq_ok.mp hr
  exact ⟨listsDeclared_ofPallet EventMetadata.variant (fun _ _ => rfl) hd .events
      hevents p,
    listsDeclared_ofPallet ErrorMetadata.variant (fun _ _ => rfl) hd .errors
      herrors p⟩

/-- `listings_exact` on the assets pallet. -/
theorem listings_exact_assets : ∃ r, Metadata.tryFrom ⟨metaReserved, .v14 assetsRuntime⟩ = .ok r ∧
    ⟨"Assets", "Issued", ⟨"Issued", [⟨3⟩], 1, []⟩⟩ ∈ r.eventsOf 50 ∧
    ⟨"Assets", "Frozen", ⟨"Frozen", [], 2, []⟩⟩ ∈ r.errorsOf 50 := by
  obtain ⟨r, hr⟩ := tryFrom_ok_iff.mpr ⟨assetsRuntime, rfl, fun p hp sect id hid =>
    (assetsRuntime_declared p hp sect id hid).imp fun _ h => h.1⟩
  have hm := metadata_of_tryFrom hr
  obtain ⟨hevents, herrors⟩ := listings_exact hr (hm ▸ assetsRuntime_distinct) 50
  rw [hm] at hevents herrors
  have hassets : assetsPallet ∈ assetsRuntime.pallets := List.mem_cons_of_mem _ List.mem_cons_self
  exact ⟨r, hr,
    (hevents.declared _).mpr ⟨1, _, _, ⟨hassets, rfl, ⟨1, _, rfl, rfl, List.mem_cons_self⟩, rfl⟩,
      rfl⟩,
    (herrors.declared _).mpr ⟨2, _, _, ⟨hassets, rfl, ⟨2, _, rfl, rfl, List.mem_cons_self⟩, rfl⟩,
      rfl⟩⟩

/-- The last constant of a name in the last pallet of a name. -/
def RuntimeMetadataV14.lastConstant (m : RuntimeMetadataV14) (palletName constantName : String) :
    Except MetadataError PalletConstantMetadata :=
  match m.lastPallet palletName with
  | none => .error (.palletNotFound palletName)
  | some p =>
    match p.constants.reverse.find? fun c => c.name == constantName with
    | none => .error (.constantNotFound constantName)
    | some c => .ok c

/-- **A constant is the last of its name** in the last pallet of its name. -/
theorem constant_eq (hr : Metadata.tryFrom md = .ok r) (palletName constantName : String) :
    ((r.pallet palletName).bind fun p => p.constant constantName) =
      r.metadata.lastConstant palletName constantName := by
  unfold RuntimeMetadataV14.lastConstant
  cases hlast : r.metadata.lastPallet palletName with
  | none =>
    have hnone : ∀ pm, r.pallet palletName ≠ .ok pm := by
      intro pm hpm
      obtain ⟨p, hp, -⟩ := (pallet_eq_ok hr).mp hpm
      rw [hlast] at hp
      cases hp
    unfold Metadata.pallet at hnone ⊢
    cases hget : r.pallets.get palletName with
    | none => rfl
    | some pm => exact (hnone pm (by rw [hget])).elim
  | some p =>
    obtain ⟨pm, hpm⟩ := exists_pallet hr hlast
    obtain ⟨p', hp', hbuilt⟩ := (pallet_eq_ok hr).mp hpm
    rw [hlast] at hp'
    cases hp'
    obtain ⟨calls, -, hkv⟩ := palletMetadata_eq_ok.mp hbuilt
    cases hkv
    rw [hpm]
    show PalletMetadata.constant _ constantName = _
    unfold PalletMetadata.constant
    dsimp only
    rw [HashMap.get_collect_by PalletConstantMetadata.name]
    cases p.constants.reverse.find? fun c => c.name == constantName <;> rfl

end Listings

/-! ## What is decoded is listed -/

/-- A decoded event is listed for its pallet, and a module error for some pallet. -/
def Listed (m : Metadata) : Raw → Prop
  | .event e => ∃ em ∈ m.eventsOf e.palletIndex, m.event e.palletIndex e.variantIndex = .ok em ∧
      e.pallet = em.pallet ∧ e.variant = em.event
  | .error (.module e) => ∃ p, ∃ em ∈ m.errorsOf p,
      e = ⟨em.pallet, em.error, em.description⟩
  | .error _ => True

section Decoded

variable {S : Scale} {D : Codec DispatchError} {m : Metadata} {fuel : Nat}

theorem listed_event {p b : UInt8} {em : EventMetadata} (h : m.event p b = .ok em)
    (output : Bytes) : Listed m (.event ⟨em.pallet, p, em.event, b, output⟩) := by
  refine ⟨em, mem_ofPallet.mpr ⟨b, ?_⟩, h, rfl, rfl⟩
  unfold Metadata.event at h
  cases hget : m.events.get (p, b) with
  | none => simp [hget] at h
  | some em' => simpa [hget] using h

/-- A module error is named by the metadata. -/
theorem listed_fromDispatch {e : DispatchError} {err : RuntimeError}
    (h : RuntimeError.fromDispatch m e = .ok err) : Listed m (.error err) := by
  cases e with
  | module e =>
    obtain ⟨em, hem, herr⟩ := Outcome.bind_eq_ok.mp h
    cases herr
    refine ⟨e.index, em, mem_ofPallet.mpr ⟨e.error[0], ?_⟩, rfl⟩
    unfold Metadata.error at hem
    cases hget : m.errors.get (e.index, e.error[0]) with
    | none => simp [hget, liftMetadata, Outcome.ofExcept] at hem
    | some em' => simpa [hget, liftMetadata, Outcome.ofExcept] using hem
  | _ =>
    cases h
    trivial

/-- A round of the loop over the fields keeps the errors listed. -/
theorem decodeEventField_listed {em : EventMetadata} {arg : Field} {s s' : EventState}
    (h : decodeEventField S D m fuel em arg s = .ok s')
    (hs : ∀ err ∈ s.errors, Listed m (.error err)) : ∀ err ∈ s'.errors, Listed m (.error err) := by
  have hvalue : ∀ {id : TypeId}, decodeEventValue S m fuel id s = .ok s' →
      ∀ err ∈ s'.errors, Listed m (.error err) := by
    intro id hdec
    obtain ⟨cursor, -, hs'⟩ := Outcome.bind_eq_ok.mp hdec
    cases hs'
    exact hs
  unfold decodeEventField at h
  split_ifs at h with hfailed
  · obtain ⟨ty, -, hty⟩ := Outcome.bind_eq_ok.mp h
    split_ifs at hty
    · obtain ⟨⟨e, cursor⟩, -, hconv⟩ := Outcome.bind_eq_ok.mp hty
      obtain ⟨err, herr, hs'⟩ := Outcome.bind_eq_ok.mp hconv
      cases hs'
      intro err' hmem
      rcases List.mem_append.mp hmem with hmem | hmem
      · exact hs err' hmem
      · rw [List.mem_singleton.mp hmem]
        exact listed_fromDispatch herr
    · exact hvalue hty
  · exact hvalue h

/-- A round of the loop over the records keeps what is returned listed. -/
theorem decodeEventRecord_listed {s s' : RecordState}
    (h : decodeEventRecord S D m fuel s = .ok s') (hs : ∀ x ∈ s.records, Listed m x.2) :
    ∀ x ∈ s'.records, Listed m x.2 := by
  obtain ⟨⟨phase, i₁⟩, -, h⟩ := Outcome.bind_eq_ok.mp h
  obtain ⟨⟨p, i₂⟩, -, h⟩ := Outcome.bind_eq_ok.mp h
  obtain ⟨⟨b, i₃⟩, -, h⟩ := Outcome.bind_eq_ok.mp h
  obtain ⟨em, hem, h⟩ := Outcome.bind_eq_ok.mp h
  obtain ⟨es, hes, h⟩ := Outcome.bind_eq_ok.mp h
  obtain ⟨⟨topics, i₄⟩, -, h⟩ := Outcome.bind_eq_ok.mp h
  cases h
  have herrors : ∀ err ∈ es.errors, Listed m (.error err) := by
    refine forEach_inv (p := fun t : EventState => ∀ err ∈ t.errors, Listed m (.error err))
      (fun arg _ t t' ht => decodeEventField_listed ht) hes ?_
    simp
  have hevent : m.event p b = .ok em := by
    cases hget : m.event p b with
    | error e => simp [hget, liftMetadata, Outcome.ofExcept] at hem
    | ok em' => simpa [hget, liftMetadata, Outcome.ofExcept] using hem
  intro x hx
  rcases List.mem_append.mp hx with hx | hx
  · exact hs x hx
  · unfold recordEntries at hx
    rcases List.mem_append.mp hx with hx | hx
    · split_ifs at hx
      · rw [List.mem_singleton.mp hx]
        exact listed_event hevent _
      · simp at hx
    · obtain ⟨err, herr, rfl⟩ := List.mem_map.mp hx
      exact herrors err herr

/-- **Whatever `decode_events` accepts**, the events it returns are among those listed for their
pallets, and its module errors are errors the metadata names. -/
theorem decodeEvents_listed {input rest : Bytes} {records : List (Phase × Raw)}
    (h : decodeEvents S D m fuel input = .ok (records, rest)) : ∀ x ∈ records, Listed m x.2 := by
  obtain ⟨⟨len, i⟩, -, h⟩ := Outcome.bind_eq_ok.mp h
  obtain ⟨s, hs, h⟩ := Outcome.bind_eq_ok.mp h
  cases h
  refine forEach_inv (p := fun t : RecordState => ∀ x ∈ t.records, Listed m x.2)
    (fun _ _ t t' ht => decodeEventRecord_listed ht) hs ?_
  simp

end Decoded

/-- `decodeEvents_listed` on a failed extrinsic and an ordinary event. -/
theorem decodeEvents_listed_twoEvents : ∃ fuel records rest,
    decodeEvents Scale.reference dispatchReference twoEvents fuel
      [8, 0, 1, 0, 0, 0, 0, 0, 2, 9, 0, 1, 3, 1, 6, 0] = .ok (records, rest) ∧
    ∀ x ∈ records, Listed twoEvents x.2 := by
  have hdec := decodeEvents_encodeRecords Scale.reference_lawful dispatchReference_lawful
    [failedRecord, rolledRecord] (by decide) (Nat.lt_succ_self _) []
  exact ⟨_, _, _, hdec, decodeEvents_listed hdec⟩

end SubstrateClient.Node
