import SubstrateClient.Node.Value

/-!
# How an enum tag finds its variant

`Metadata::try_from` keys calls, events and errors by the **declared** index of the variant
(`Section.variant_eq_some`); `decode_type` takes the variant at the **position** of the tag byte.
`ResolvesByIndex` says that `decode_type` follows the declared index too. It does on a tag exactly
when the variant at the position of the tag and the variant that declares the tag have the same
field types, or neither exists (`resolvesByIndex_iff`). An enum whose indexes have a gap, or are
declared in another order, escapes it (`not_resolvesByIndex_gap`).

What is compared is which types are decoded next, so the recursive calls are a parameter: the
necessity runs the body with calls that write down the type they are asked for (`logType`).
-/

namespace SubstrateClient.Node

open SubstrateClient.Lib

variable {S : Scale} {reg : PortableRegistry}

/-! ## The tables of the metadata -/

/-- The enums of a pallet that the metadata indexes. -/
inductive Section where
  | calls | events | errors
  deriving DecidableEq, Repr

namespace Section

/-- The type a pallet declares for the section. -/
def typeId : Section → RuntimePallet → Option TypeId
  | calls => RuntimePallet.calls
  | events => RuntimePallet.event
  | errors => RuntimePallet.error

/-- The variant the table of the section finds. -/
def variant (m : Metadata) (p b : UInt8) : Section → Option Variant
  | calls => (m.calls.get (p, b)).map CallMetadata.variant
  | events => (m.events.get (p, b)).map EventMetadata.variant
  | errors => (m.errors.get (p, b)).map ErrorMetadata.variant

/-- The pallet declares the variant in its enum of the section, under the key `(p, b)`. -/
structure Declares (m : RuntimeMetadataV14) (sect : Section) (p b : UInt8) (pal : RuntimePallet)
    (var : Variant) : Prop where
  pallet : pal ∈ m.pallets
  palletIndex : pal.index = p
  variant : ∃ id vs, sect.typeId pal = some id ∧ m.types.typeDef id = some (.variant vs) ∧ var ∈ vs
  variantIndex : var.index = b

end Section

/-- What a runtime ensures of the indexes: distinct across pallets, and within each enum. -/
structure DistinctIndexes (m : RuntimeMetadataV14) : Prop where
  pallets : (m.pallets.map RuntimePallet.index).Nodup
  variants : ∀ (sect : Section), ∀ p ∈ m.pallets, ∀ id vs, sect.typeId p = some id →
    getTypeDefVariant m id = .ok vs → (vs.map Variant.index).Nodup

/-- The entries of one pass, by declared index. -/
theorem variantTable_variant {α : Type} {entry : RuntimePallet → Variant → α} {var : α → Variant}
    (hvar : ∀ p v, var (entry p v) = v) {m : RuntimeMetadataV14} (hm : DistinctIndexes m)
    (sect : Section) {pvs : List (RuntimePallet × List Variant)}
    (hpvs : palletVariants m sect.typeId = .ok pvs) {p : RuntimePallet} (hp : p ∈ m.pallets)
    {id : TypeId} (hid : sect.typeId p = some id) {vs : List Variant}
    (hvs : getTypeDefVariant m id = .ok vs) {b : UInt8} {v : Variant} :
    ((variantTable entry pvs).get (p.index, b)).map var = some v ↔ v ∈ vs ∧ v.index = b := by
  have hpv : ∀ pv ∈ pvs, (pv.2.map Variant.index).Nodup := by
    rintro ⟨q, ws⟩ hq
    obtain ⟨hq, id', hid', hws⟩ := (mem_palletVariants hpvs q ws).mp hq
    exact hm.variants sect q hq id' ws hid' hws
  have hget : ∀ a, (variantTable entry pvs).get (p.index, b) = some a ↔
      ∃ q ws, (q, ws) ∈ pvs ∧ q.index = p.index ∧ ∃ w ∈ ws, w.index = b ∧ a = entry q w :=
    fun _ => variantTable_get_iff (palletVariants_index_nodup hpvs hm.pallets) hpv
  constructor
  · intro h
    obtain ⟨a, ha, rfl⟩ := Option.map_eq_some_iff.mp h
    obtain ⟨q, ws, hq, hqp, w, hw, hwb, rfl⟩ := (hget a).mp ha
    obtain ⟨hq, id', hid', hws⟩ := (mem_palletVariants hpvs q ws).mp hq
    have hqp : q = p := List.inj_on_of_nodup_map hm.pallets hq hp hqp
    subst hqp
    rw [hid] at hid'
    cases hid'
    rw [hvs] at hws
    cases hws
    rw [hvar]
    exact ⟨hw, hwb⟩
  · rintro ⟨hv, hvb⟩
    refine Option.map_eq_some_iff.mpr ⟨entry p v, (hget _).mpr ?_, hvar p v⟩
    exact ⟨p, vs, (mem_palletVariants hpvs p vs).mpr ⟨hp, id, hid, hvs⟩, rfl, v, hv, hvb, rfl⟩

/-- **Calls, events and errors are found by declared index.** -/
theorem Section.variant_eq_some {md : RuntimeMetadataPrefixed} {m : Metadata}
    (h : Metadata.tryFrom md = .ok m) (hm : DistinctIndexes m.metadata) (sect : Section)
    {p : RuntimePallet} (hp : p ∈ m.metadata.pallets) {id : TypeId}
    (hid : sect.typeId p = some id) {vs : List Variant}
    (hvs : m.metadata.types.typeDef id = some (.variant vs)) {b : UInt8} {v : Variant} :
    sect.variant m p.index b = some v ↔ v ∈ vs ∧ v.index = b := by
  obtain ⟨m', _, calls, events, errors, -, -, hc, he, her, rfl⟩ := tryFrom_eq_ok.mp h
  have hvs : getTypeDefVariant m' id = .ok vs := by
    obtain ⟨path, hr⟩ := resolve_of_typeDef hvs
    exact getTypeDefVariant_eq_ok.mpr ⟨_, hr, rfl⟩
  match sect with
  | .calls => exact variantTable_variant (fun _ _ => rfl) hm .calls hc hp hid hvs
  | .events => exact variantTable_variant (fun _ _ => rfl) hm .events he hp hid hvs
  | .errors => exact variantTable_variant (fun _ _ => rfl) hm .errors her hp hid hvs

/-! ## The nested enums -/

/-- The fields a tag leads to, or the refusal of the tag. -/
def decodeFields (rec : TypeId → DecodeStep) (b : UInt8) : Option (List Field) → DecodeStep
  | some fields => forEach fields fun field => rec field.ty
  | none => fun _ => .err (.other s!"Variant {b} not found")

/-- `decode_type` resolves the tag `b` of the enum `vs`, the type `id` of the registry, by declared
index. `rec` stands for the recursive calls of `decode_type`, those of any depth included. -/
structure ResolvesByIndex (S : Scale) (reg : PortableRegistry) (id : TypeId) (vs : List Variant)
    (b : UInt8) : Prop where
  /-- The fields decoded are those of the variant that declares `b`. -/
  decodes : ∀ var ∈ vs, var.index = b → ∀ rec input out,
    decodeTypeBody S reg rec id ⟨b :: input, out⟩ =
      forEach var.fields (fun field => rec field.ty) ⟨input, out ++ [b]⟩
  /-- The tag is refused exactly when no variant declares `b`. -/
  refuses : (∀ rec input out, decodeTypeBody S reg rec id ⟨b :: input, out⟩ =
    .err (.other s!"Variant {b} not found")) ↔ ∀ var ∈ vs, var.index ≠ b
  /-- An accepted metadata resolves the tag alike, when the enum is one it indexes. -/
  alike : ∀ md m, Metadata.tryFrom md = .ok m → m.metadata.types = reg →
    DistinctIndexes m.metadata → ∀ (sect : Section), ∀ p ∈ m.metadata.pallets,
    sect.typeId p = some id → ∀ rec input out,
    decodeTypeBody S reg rec id ⟨b :: input, out⟩ =
      decodeFields rec b ((sect.variant m p.index b).map Variant.fields) ⟨input, out ++ [b]⟩

/-- The variant that declares the tag. -/
def variantOfIndex (vs : List Variant) (b : UInt8) : Option Variant :=
  vs.find? fun var => var.index == b

/-- The variant at the position of the tag has the fields of the variant that declares it, or
neither exists. -/
def AgreesAt (vs : List Variant) (b : UInt8) : Prop :=
  vs[b.toNat]?.map Variant.fields = (variantOfIndex vs b).map Variant.fields

instance (vs : List Variant) (b : UInt8) : Decidable (AgreesAt vs b) :=
  inferInstanceAs (Decidable (_ = _))

theorem variantOfIndex_eq_none {vs : List Variant} {b : UInt8} :
    variantOfIndex vs b = none ↔ ∀ var ∈ vs, var.index ≠ b := by
  unfold variantOfIndex
  rw [List.find?_eq_none]
  simp only [beq_iff_eq, ne_eq]

theorem index_of_variantOfIndex {vs : List Variant} {b : UInt8} {var : Variant}
    (h : variantOfIndex vs b = some var) : var.index = b := by
  unfold variantOfIndex at h
  have hb := List.find?_some h
  exact eq_of_beq hb

theorem variantOfIndex_eq_some {vs : List Variant} (hd : (vs.map Variant.index).Nodup) {b : UInt8}
    {var : Variant} : variantOfIndex vs b = some var ↔ var ∈ vs ∧ var.index = b := by
  constructor
  · intro h
    exact ⟨List.mem_of_find?_eq_some h, index_of_variantOfIndex h⟩
  · rintro ⟨hm, hb⟩
    cases h : variantOfIndex vs b with
    | none => exact absurd hb (variantOfIndex_eq_none.mp h var hm)
    | some v =>
      rw [List.inj_on_of_nodup_map hd (List.mem_of_find?_eq_some h) hm
        ((index_of_variantOfIndex h).trans hb.symm)]

/-- The code decodes the fields of the variant at the position of the tag. -/
theorem decodeTypeBody_variant (hS : S.Lawful) {id : TypeId} {vs : List Variant}
    (hid : reg.typeDef id = some (.variant vs)) (b : UInt8) (rec : TypeId → DecodeStep)
    (input out : Bytes) :
    decodeTypeBody S reg rec id ⟨b :: input, out⟩ =
      decodeFields rec b (vs[b.toNat]?.map Variant.fields) ⟨input, out ++ [b]⟩ := by
  rw [decodeTypeBody_of_typeDef hid]
  simp only [decodeVariant, copyWith, transcribe, hS.decode_u8, hS.encode_u8,
    Outcome.ofExcept_ok, Outcome.ok_bind]
  cases vs[b.toNat]? <;> rfl

/-- Recursive calls that write down the type they are asked for, and read nothing. -/
def logType (id : TypeId) : DecodeStep := fun s =>
  .ok ⟨s.input, s.output ++ (Scale.reference .u32).encode id⟩

theorem u32_roundTrips : (Scale.reference .u32).RoundTrips :=
  fun id => Scale.reference_roundTrips .u32 id trivial

theorem u32_encode_ne_nil (id : TypeId) : (Scale.reference .u32).encode id ≠ [] := by
  intro h
  cases h

theorem forEach_logType : ∀ (ids : List TypeId) (s : Cursor UInt8),
    forEach ids logType s =
      .ok ⟨s.input, s.output ++ ids.flatMap (Scale.reference .u32).encode⟩
  | [], s => by rw [List.flatMap_nil, List.append_nil]; rfl
  | id :: ids, s => by
    rw [forEach_cons, logType, Outcome.ok_bind, forEach_logType ids, List.append_assoc,
      List.flatMap_cons]

/-- What was written down tells which fields a tag led to. -/
theorem decodeFields_logType_injective {b : UInt8} {x y : Option (List Field)} {s : Cursor UInt8}
    (h : decodeFields logType b x s = decodeFields logType b y s) : x = y := by
  cases x with
  | none =>
    cases y with
    | none => rfl
    | some gs =>
      rw [decodeFields, decodeFields, forEach_fields, forEach_logType] at h
      cases h
  | some fs =>
    cases y with
    | none =>
      rw [decodeFields, decodeFields, forEach_fields, forEach_logType] at h
      cases h
    | some gs =>
      rw [decodeFields, decodeFields, forEach_fields, forEach_fields, forEach_logType,
        forEach_logType] at h
      have hout := List.append_cancel_left (congrArg Cursor.output (Outcome.ok.inj h))
      have hids := u32_roundTrips.flatMap_injective u32_encode_ne_nil hout
      exact congrArg some
        (List.map_injective_iff.mpr (fun ⟨_⟩ ⟨_⟩ h => congrArg Field.mk h) hids)

/-- **When `decode_type` follows the declared index**: on exactly the tags whose position holds the
fields of the variant that declares it, or on which both are missing. -/
theorem resolvesByIndex_iff (hS : S.Lawful) {id : TypeId} {vs : List Variant}
    (hid : reg.typeDef id = some (.variant vs)) (hd : (vs.map Variant.index).Nodup) (b : UInt8) :
    ResolvesByIndex S reg id vs b ↔ AgreesAt vs b := by
  have hbody := decodeTypeBody_variant hS hid b
  constructor
  · -- the body run with `logType` shows which fields it takes
    intro h
    unfold AgreesAt
    refine decodeFields_logType_injective (b := b) (s := ⟨[], [] ++ [b]⟩) ?_
    rw [← hbody]
    cases hf : variantOfIndex vs b with
    | none => exact h.refuses.mpr (variantOfIndex_eq_none.mp hf) _ _ _
    | some var =>
      obtain ⟨hm, hb⟩ := (variantOfIndex_eq_some hd).mp hf
      exact h.decodes var hm hb _ _ _
  · intro h
    rw [h] at hbody
    have hdecodes : ∀ var ∈ vs, var.index = b → ∀ rec input out,
        decodeTypeBody S reg rec id ⟨b :: input, out⟩ =
          forEach var.fields (fun field => rec field.ty) ⟨input, out ++ [b]⟩ := by
      intro var hm hb rec input out
      rw [hbody, (variantOfIndex_eq_some hd).mpr ⟨hm, hb⟩]
      rfl
    refine ⟨hdecodes, ⟨fun hr var hm hb => ?_, fun hne rec input out => ?_⟩, ?_⟩
    · have hlog := hr logType [] []
      rw [hdecodes var hm hb, forEach_fields, forEach_logType] at hlog
      cases hlog
    · rw [hbody, variantOfIndex_eq_none.mpr hne]
      rfl
    · rintro md m hmd rfl hm sect p hp hsid rec input out
      have hvar : sect.variant m p.index b = variantOfIndex vs b := by
        refine Option.ext fun v => ?_
        rw [Section.variant_eq_some hmd hm sect hp hsid hid, variantOfIndex_eq_some hd]
      rw [hbody, hvar]

/-- An enum whose only variant declares index 5. -/
def gapVariants : List Variant := [⟨"Only", [], 5, []⟩]

/-- `resolvesByIndex_iff` where it holds: index 0 is declared first. -/
theorem resolvesByIndex_iff_first :
    ResolvesByIndex Scale.reference ⟨[⟨[], .variant [⟨"A", [⟨1⟩], 0, []⟩]⟩]⟩ 0
      [⟨"A", [⟨1⟩], 0, []⟩] 0 :=
  (resolvesByIndex_iff Scale.reference_lawful rfl (by decide) 0).mpr (by decide)

/-- **A declared tag is refused** when the enum has a gap below it. -/
theorem not_resolvesByIndex_gap :
    ¬ ResolvesByIndex Scale.reference ⟨[⟨[], .variant gapVariants⟩]⟩ 0 gapVariants 5 := by
  intro h
  have hok := h.decodes ⟨"Only", [], 5, []⟩ List.mem_cons_self rfl
    (decodeType Scale.reference ⟨[⟨[], .variant gapVariants⟩]⟩ 0) [] []
  exact absurd hok (by decide)

end SubstrateClient.Node
