import SubstrateClient.Node.Tables

/-!
# Calls, composed by name and decoded by index (`compose-macros/src/lib.rs`, `node-api`)

A call is written as the index of its pallet, the index of the call in the pallet, and its
arguments. Both indexes are looked up by name, in the table of the pallet: by the macro
`compose_call!`, which panics on a name that is not there, and by `PalletMetadata::encode_call`.
`RuntimeDecoder::decode_call` reads the two indexes back and looks them up in the table of calls,
which `try_from` builds in a pass of its own.

* `encodeCall_eq_ok`: the bytes of a call, by what the pallet declares. `composeCall_eq_ok`: which
  calls the macro composes.
* `composeCall_agrees`: with distinct names and indexes the macro writes the same bytes, the two
  indexes lead back to the call, and the arguments, when they are values of its field types, are
  decoded to their end.
-/

namespace SubstrateClient.Node

open SubstrateClient.Lib

/-- `Encode`: the types that implement it, by some name. -/
structure EncodeTrait where
  Name : Type
  Ty : Name → Type
  encode : (n : Name) → Ty n → Bytes

/-- An argument of a call. -/
abbrev Arg (E : EncodeTrait) := (n : E.Name) × E.Ty n

/-- `Encode::encode` of a tuple: its parts, one after the other. -/
def encodeArgs {E : EncodeTrait} (args : List (Arg E)) : Bytes :=
  args.flatMap fun arg => E.encode arg.1 arg.2

/-- `PalletMetadata::encode_call`. -/
def PalletMetadata.encodeCall {C : Type} (encode : C → Bytes) (p : PalletMetadata)
    (callName : String) (args : C) : Except MetadataError Bytes :=
  match p.calls.get callName with
  | none => .error (.callNotFound callName)
  | some fnIndex => .ok ([p.index, fnIndex] ++ encode args)

/-- What `compose_call!` makes: a tuple of the two indexes, and the arguments. -/
structure ComposedCall (E : EncodeTrait) where
  index : UInt8 × UInt8
  args : List (Arg E)

/-- `Encode::encode` of the tuple. -/
def ComposedCall.encode {E : EncodeTrait} (c : ComposedCall E) : Bytes :=
  [c.index.1, c.index.2] ++ encodeArgs c.args

/-- `compose_call!`. -/
def composeCall {E : EncodeTrait} (nodeMetadata : Metadata) (pallet callName : String)
    (args : List (Arg E)) : Outcome Empty (ComposedCall E) :=
  match nodeMetadata.pallet pallet with
  | .error _ => .panic "called `Result::unwrap()` on an `Err` value"
  | .ok pallet =>
    match pallet.calls.get callName with
    | none => .panic "called `Option::unwrap()` on a `None` value"
    | some callIndex => .ok ⟨(pallet.index, callIndex), args⟩

/-! ## What is written -/

/-- What a runtime ensures of the names: distinct across pallets, and within each enum of calls. -/
structure DistinctNames (m : RuntimeMetadataV14) : Prop where
  pallets : (m.pallets.map RuntimePallet.name).Nodup
  calls : ∀ p ∈ m.pallets, ∀ id vs, p.calls = some id →
    m.types.typeDef id = some (.variant vs) → (vs.map Variant.name).Nodup

/-- The pallet declares the call. -/
structure DeclaresCall (m : RuntimeMetadataV14) (palletName callName : String)
    (pal : RuntimePallet) (var : Variant) : Prop where
  pallet : pal ∈ m.pallets
  palletName : pal.name = palletName
  variant : ∃ id vs, pal.calls = some id ∧ m.types.typeDef id = some (.variant vs) ∧ var ∈ vs
  variantName : var.name = callName

/-- The table of a pallet holds calls it declares, under their names. -/
theorem mem_callTable {m : RuntimeMetadataV14} {p : RuntimePallet} {calls : HashMap String UInt8}
    (h : p.callTable m = .ok calls) {callName : String} {b : UInt8}
    (hb : calls.get callName = some b) :
    ∃ id vs var, p.calls = some id ∧ m.types.typeDef id = some (.variant vs) ∧ var ∈ vs ∧
      var.name = callName ∧ var.index = b := by
  unfold RuntimePallet.callTable at h
  split at h
  · cases h
    cases hb
  · rename_i ty hty
    split at h
    · cases h
    · rename_i vs hvs
      cases h
      obtain ⟨var, hvar, he⟩ := List.mem_map.mp (HashMap.mem_of_get_collect hb)
      cases he
      exact ⟨ty, vs, var, hty, getTypeDefVariant_iff.mp hvs, hvar, rfl, rfl⟩

/-- With distinct names, a declared call is determined by its names. -/
theorem DeclaresCall.unique {m : RuntimeMetadataV14} (hn : DistinctNames m)
    {palletName callName : String} {pal pal' : RuntimePallet} {var var' : Variant}
    (h : DeclaresCall m palletName callName pal var)
    (h' : DeclaresCall m palletName callName pal' var') : pal = pal' ∧ var = var' := by
  obtain ⟨hpal, rfl, ⟨id, vs, hid, hvs, hvar⟩, rfl⟩ := h
  obtain ⟨hpal', hname, ⟨id', vs', hid', hvs', hvar'⟩, hvname⟩ := h'
  obtain rfl := List.inj_on_of_nodup_map hn.pallets hpal' hpal hname
  rw [hid] at hid'
  cases hid'
  rw [hvs] at hvs'
  cases hvs'
  obtain rfl := List.inj_on_of_nodup_map (hn.calls _ hpal id vs hid hvs) hvar' hvar hvname
  exact ⟨rfl, rfl⟩

section Calls

variable {md : RuntimeMetadataPrefixed} {r : Metadata}

/-- **The bytes of a call**: the indexes of a call declared under the two names, and the
arguments. -/
theorem encodeCall_eq_ok (hr : Metadata.tryFrom md = .ok r) {palletName callName : String}
    {p : PalletMetadata} (hp : r.pallet palletName = .ok p) {C : Type} {encode : C → Bytes}
    {args : C} {bytes : Bytes} (h : p.encodeCall encode callName args = .ok bytes) :
    ∃ pal var, DeclaresCall r.metadata palletName callName pal var ∧ p.index = pal.index ∧
      p.calls.get callName = some var.index ∧ bytes = [pal.index, var.index] ++ encode args := by
  obtain ⟨pal, hlast, hpal⟩ := (pallet_eq_ok hr).mp hp
  obtain ⟨hmem, hname⟩ := RuntimeMetadataV14.lastPallet_eq_some hlast
  obtain ⟨calls, hcalls, he⟩ := palletMetadata_eq_ok.mp hpal
  cases he
  unfold PalletMetadata.encodeCall at h
  split at h
  · cases h
  · rename_i b hb
    cases h
    obtain ⟨id, vs, var, hid, hvs, hvar, hvname, rfl⟩ := mem_callTable hcalls hb
    exact ⟨pal, var, ⟨hmem, hname, ⟨id, vs, hid, hvs, hvar⟩, hvname⟩, rfl, hb, rfl⟩

/-- With distinct names, the index of a declared call is found in the table of its pallet. -/
theorem get_callTable {m : RuntimeMetadataV14} (hn : DistinctNames m) {palletName callName : String}
    {pal : RuntimePallet} {var : Variant} (h : DeclaresCall m palletName callName pal var)
    {calls : HashMap String UInt8} (hcalls : pal.callTable m = .ok calls) :
    calls.get callName = some var.index := by
  obtain ⟨hmem, -, ⟨id, vs, hid, hvs, hvar⟩, rfl⟩ := h
  simp only [RuntimePallet.callTable, hid, getTypeDefVariant_iff.mpr hvs, Except.ok.injEq] at hcalls
  rw [← hcalls]
  refine (HashMap.get_collect_iff ?_).mpr (List.mem_map.mpr ⟨var, hvar, rfl⟩)
  rw [List.map_map]
  exact hn.calls pal hmem id vs hid hvs

/-- The macro composes calls that a pallet declares, to their indexes. -/
theorem declaresCall_of_composeCall (hr : Metadata.tryFrom md = .ok r) {E : EncodeTrait}
    {palletName callName : String} {args : List (Arg E)} {c : ComposedCall E}
    (h : composeCall r palletName callName args = .ok c) : ∃ pal var,
      DeclaresCall r.metadata palletName callName pal var ∧ c = ⟨(pal.index, var.index), args⟩ := by
  unfold composeCall at h
  split at h
  · cases h
  · rename_i p hp
    obtain ⟨pal, hlast, hpal⟩ := (pallet_eq_ok hr).mp hp
    obtain ⟨hmem, hname⟩ := RuntimeMetadataV14.lastPallet_eq_some hlast
    obtain ⟨calls, hcalls, he⟩ := palletMetadata_eq_ok.mp hpal
    cases he
    split at h
    · cases h
    · rename_i b hb
      cases h
      obtain ⟨id, vs, var, hid, hvs, hvar, hvname, rfl⟩ := mem_callTable hcalls hb
      exact ⟨pal, var, ⟨hmem, hname, ⟨id, vs, hid, hvs, hvar⟩, hvname⟩, rfl⟩

/-- **Which calls the macro composes**: with distinct names, those a pallet declares, to their
indexes. -/
theorem composeCall_eq_ok (hr : Metadata.tryFrom md = .ok r) (hn : DistinctNames r.metadata)
    {E : EncodeTrait} {palletName callName : String} {args : List (Arg E)} {c : ComposedCall E} :
    composeCall r palletName callName args = .ok c ↔ ∃ pal var,
      DeclaresCall r.metadata palletName callName pal var ∧ c = ⟨(pal.index, var.index), args⟩ := by
  refine ⟨declaresCall_of_composeCall hr, ?_⟩
  rintro ⟨pal, var, hdecl, rfl⟩
  obtain ⟨pal', hlast⟩ : ∃ pal', r.metadata.lastPallet palletName = some pal' :=
    Option.isSome_iff_exists.mp (List.find?_isSome.mpr
      ⟨pal, List.mem_reverse.mpr hdecl.pallet, beq_iff_eq.mpr hdecl.palletName⟩)
  obtain ⟨hmem, hname⟩ := RuntimeMetadataV14.lastPallet_eq_some hlast
  obtain rfl := List.inj_on_of_nodup_map hn.pallets hmem hdecl.pallet
    (hname.trans hdecl.palletName.symm)
  obtain ⟨p, hp⟩ := exists_pallet hr hlast
  obtain ⟨_, hlast', hpal⟩ := (pallet_eq_ok hr).mp hp
  rw [hlast] at hlast'
  cases hlast'
  obtain ⟨calls, hcalls, he⟩ := palletMetadata_eq_ok.mp hpal
  cases he
  unfold composeCall
  simp only [hp, get_callTable hn hdecl hcalls]

/-- The macro and the method look the call up in one table. -/
theorem composeCall_of_encodeCall {E : EncodeTrait} {palletName callName : String}
    {p : PalletMetadata} (hp : r.pallet palletName = .ok p) {args : List (Arg E)} {bytes : Bytes}
    (h : p.encodeCall encodeArgs callName args = .ok bytes) :
    ∃ call, composeCall r palletName callName args = .ok call ∧ call.encode = bytes := by
  unfold PalletMetadata.encodeCall at h
  unfold composeCall
  rw [hp]
  cases hb : p.calls.get callName with
  | none => rw [hb] at h; cases h
  | some b =>
    rw [hb] at h
    cases h
    exact ⟨⟨(p.index, b), args⟩, by simp only [hb], rfl⟩

/-- A call is decoded to the end of its arguments. -/
theorem decodeCall_accepts {S : Scale} {fuel : Nat} {p b : UInt8} {c : CallMetadata}
    (hc : r.call p b = .ok c) {w : Bytes}
    (hw : Accepts (forEach (c.variant.fields.map Field.ty) (decodeType S r.metadata.types fuel)) w)
    (rest : Bytes) : decodeCall S r fuel ([p, b] ++ w ++ rest) = .ok rest := by
  have hloop := hw rest []
  rw [← forEach_fields] at hloop
  simp only [decodeCall, readByte, Codec.readByte, List.cons_append, List.nil_append,
    Outcome.ofExcept_ok, Outcome.ok_bind, liftMetadata, hc, hloop]

/-- **A composed call is the call it was composed as**: the macro and `encode_call` write the same
bytes, the first two of them lead back to the call of that name, and the decoder takes the
arguments, when they are values of the field types, to their end. -/
theorem composeCall_agrees {S : Scale} (hS : S.Lawful) (hr : Metadata.tryFrom md = .ok r)
    (hd : DistinctIndexes r.metadata) (hn : DistinctNames r.metadata) {E : EncodeTrait}
    {palletName callName : String} {p : PalletMetadata} (hp : r.pallet palletName = .ok p)
    {args : List (Arg E)} {bytes : Bytes}
    (h : p.encodeCall encodeArgs callName args = .ok bytes) :
    (∃ call, composeCall r palletName callName args = .ok call ∧ call.encode = bytes) ∧
    (∃ p₀ b₀ tail c, bytes = p₀ :: b₀ :: tail ∧ r.call p₀ b₀ = .ok c ∧
      c.pallet = palletName ∧ c.call = callName) ∧
    (∀ pal var vs, DeclaresCall r.metadata palletName callName pal var →
      HasTypes r.metadata.types inPlace (var.fields.map Field.ty) vs →
      encodeArgs args = encodeAll S vs →
      ∃ n₀, ∀ fuel ≥ n₀, ∀ rest, decodeCall S r fuel (bytes ++ rest) = .ok rest) := by
  obtain ⟨pal, var, hdecl, -, -, rfl⟩ := encodeCall_eq_ok hr hp h
  have hcall : r.call pal.index var.index = .ok ⟨pal.name, var.name, var⟩ :=
    (call_eq_ok hr hd).mpr ⟨pal, var, ⟨hdecl.pallet, rfl, hdecl.variant, rfl⟩, rfl⟩
  refine ⟨composeCall_of_encodeCall hp h, ?_, ?_⟩
  · exact ⟨pal.index, var.index, encodeArgs args, _, rfl, hcall, hdecl.palletName,
      hdecl.variantName⟩
  · intro pal' var' vs hdecl' hvs hargs
    obtain ⟨rfl, rfl⟩ := hdecl.unique hn hdecl'
    refine ⟨depthAll vs + 1, fun fuel hf rest => ?_⟩
    rw [hargs]
    exact decodeCall_accepts hcall (hvs.accepts hS (inPlace_foundIn _) hf) rest

end Calls

theorem assetsRuntime_names : DistinctNames assetsRuntime where
  pallets := by decide
  calls p hp id vs hid hvs := by
    rcases List.mem_cons.mp hp with rfl | hp
    · cases hid
    · cases List.mem_singleton.mp hp
      cases hid
      cases hvs
      decide

/-- The types of `parity-scale-codec`. -/
def leafTypes : EncodeTrait := ⟨Leaf, Leaf.Val, fun l => (Scale.reference l).encode⟩

/-- An asset id and an amount. -/
def mintArgs : List (Arg leafTypes) := [⟨Leaf.u8, (7 : UInt8)⟩, ⟨Leaf.u32, (5 : UInt32)⟩]

/-- `composeCall_agrees` on a call of the assets pallet. -/
theorem composeCall_agrees_mint : ∃ r, Metadata.tryFrom ⟨metaReserved, .v14 assetsRuntime⟩ = .ok r ∧
    (∃ call, composeCall r "Assets" "mint" mintArgs = .ok call ∧
      call.encode = [50, 3, 7, 5, 0, 0, 0]) ∧
    ∃ n₀, ∀ fuel ≥ n₀, ∀ rest,
      decodeCall Scale.reference r fuel ([50, 3, 7, 5, 0, 0, 0] ++ rest) = .ok rest := by
  obtain ⟨r, hr⟩ : ∃ r, Metadata.tryFrom ⟨metaReserved, .v14 assetsRuntime⟩ = .ok r := ⟨_, rfl⟩
  have hm := metadata_of_tryFrom hr
  let p : PalletMetadata := ⟨50, "Assets", .collect [("create", 0), ("mint", 3)],
    assetsPallet.storageTable, .collect []⟩
  have hp : r.pallet "Assets" = .ok p :=
    (pallet_eq_ok hr).mpr ⟨assetsPallet, by rw [hm]; rfl, by rw [hm]; rfl⟩
  have hbytes : p.encodeCall encodeArgs "mint" mintArgs = .ok [50, 3, 7, 5, 0, 0, 0] := rfl
  have hdecl : DeclaresCall r.metadata "Assets" "mint" assetsPallet
      ⟨"mint", [⟨3⟩, ⟨4⟩], 3, []⟩ := by
    rw [hm]
    exact ⟨List.mem_cons_of_mem _ List.mem_cons_self, rfl,
      ⟨0, _, rfl, rfl, List.mem_cons_of_mem _ List.mem_cons_self⟩, rfl⟩
  obtain ⟨hcall, -, hdecode⟩ := composeCall_agrees Scale.reference_lawful hr
    (hm ▸ assetsRuntime_distinct) (hm ▸ assetsRuntime_names) hp hbytes
  refine ⟨r, hr, hcall, hdecode _ _ [.leaf .u8 (7 : UInt8), .leaf .u32 (5 : UInt32)] hdecl ?_ rfl⟩
  rw [hm]
  exact .cons (.leaf (p := .u8) rfl rfl trivial) (.cons (.leaf (p := .u32) rfl rfl trivial) .nil)

end SubstrateClient.Node
