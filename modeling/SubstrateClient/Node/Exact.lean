import SubstrateClient.Node.Calls
import SubstrateClient.Node.EventPanics

/-!
# Which inputs are lists of records, and calls

The decoder is not told what is in front of it: any input may be a list of event records, or a call.
Where every enum stands by its indexes (`DenseEnums`), it recognises them exactly.

* `decode_exact`: a result comes from a list of records and is the groups of that list; an input
  that is read as a call is one, with arguments of its field types.
* `decode_decides`: on a guarded registry without bit sequences it decides: the value of a list or a
  call that the input begins with, or an error where it begins with none.
-/

namespace SubstrateClient.Node

open SubstrateClient.Lib

/-- Every enum of the registry declares its variants in the order of their indexes. -/
def PortableRegistry.DenseEnums (reg : PortableRegistry) : Prop :=
  ∀ ty ∈ reg.types, ∀ vs, ty.typeDef = .variant vs → Dense vs

/-- The arguments of a call: what its indexes lead to, and a value of each field type. -/
structure CallArgs (m : Metadata) where
  palletIndex : UInt8
  callIndex : UInt8
  args : List Value
  /-- What the metadata declares for the indexes. -/
  declared : CallMetadata
  call_eq : m.call palletIndex callIndex = .ok declared
  args_typed : HasTypes m.metadata.types inPlace (declared.variant.fields.map Field.ty) args

/-- The SCALE encoding of a call. -/
def CallArgs.encode (S : Scale) {m : Metadata} (c : CallArgs m) : Bytes :=
  c.palletIndex :: c.callIndex :: encodeAll S c.args

variable {S : Scale} {D : Codec DispatchError} {m : Metadata} {fuel : Nat}

/-! ## What was read -/

/-- On dense enums, the variant at a position declares it. -/
theorem inPlace_coversPositions (hm : m.metadata.types.DenseEnums) :
    inPlace.CoversPositions m.metadata.types := by
  intro id vs b var hd hvar
  obtain ⟨path, hr⟩ := resolve_of_typeDef hd
  have hdense : Dense vs := hm _ (List.mem_of_getElem? hr) vs rfl
  exact ⟨hvar, hdense.index_of_getElem? hvar⟩

/-- The arguments were taken off the input and copied, and their runtime errors appended. -/
def TookArgs (S : Scale) (D : Codec DispatchError) (args : List EventArg) (s s' : EventState) :
    Prop :=
  s.cursor.input = args.flatMap (EventArg.encode S D) ++ s'.cursor.input ∧
    s'.cursor.output = s.cursor.output ++ args.flatMap (EventArg.encode S D) ∧
    s'.errors = s.errors ++ args.filterMap EventArg.runtimeError

theorem TookArgs.append {args args' : List EventArg} {s t u : EventState}
    (h : TookArgs S D args s t) (h' : TookArgs S D args' t u) :
    TookArgs S D (args ++ args') s u := by
  obtain ⟨hi, ho, he⟩ := h
  obtain ⟨hi', ho', he'⟩ := h'
  refine ⟨?_, ?_, ?_⟩
  · rw [hi, hi', List.flatMap_append, List.append_assoc]
  · rw [ho', ho, List.flatMap_append, List.append_assoc]
  · rw [he', he, List.filterMap_append, List.append_assoc]

/-- One field of an event holds an argument. -/
theorem decodeEventField_took (hS : S.Lawful) (hD : DispatchLawful D)
    (hm : m.metadata.types.DenseEnums) {em : EventMetadata} {field : Field} {s s' : EventState}
    (h : decodeEventField S D m fuel em field s = .ok s') :
    ∃ arg : EventArg, arg.HasFieldType m em field ∧ TookArgs S D [arg] s s' := by
  by_cases hfield : EventArg.IsDispatchField m em field
  · rw [decodeEventField_of_dispatch hfield] at h
    obtain ⟨⟨e, c⟩, hc, h⟩ := Outcome.bind_eq_ok.mp h
    obtain ⟨re, hre, h⟩ := Outcome.bind_eq_ok.mp h
    cases h
    obtain ⟨hd, ho⟩ := transcribe_eq_ok.mp hc
    refine ⟨.dispatch e re, ⟨hfield, ?_⟩, ?_, ?_, rfl⟩
    · rw [← fromDispatch_wire_iff, hD.wire_of_decode hd]
      exact hre
    · rw [List.flatMap_singleton]
      exact hD.encode_decode _ _ _ hd
    · rw [List.flatMap_singleton]
      exact ho
  · rcases decodeEventField_of_value (S := S) (D := D) hfield s with heq | ⟨-, e, heq⟩
    · rw [heq] at h
      obtain ⟨c, hc, h⟩ := Outcome.bind_eq_ok.mp h
      cases h
      obtain ⟨_, ⟨v, hv, rfl⟩, hi, ho⟩ :=
        decodeType_reads hS (inPlace_coversPositions hm) fuel field.ty _ _ hc
      refine ⟨.value v, ⟨hfield, hv⟩, ?_, ?_, (List.append_nil _).symm⟩
      · rw [List.flatMap_singleton]
        exact hi
      · rw [List.flatMap_singleton]
        exact ho
    · rw [heq] at h
      cases h

/-- The fields of an event hold an argument each. By induction on the fields. -/
theorem decodeEventFields_took (hS : S.Lawful) (hD : DispatchLawful D)
    (hm : m.metadata.types.DenseEnums) {em : EventMetadata} :
    ∀ {fields : List Field} {s s' : EventState},
      forEach fields (decodeEventField S D m fuel em) s = .ok s' →
      ∃ args, List.Forall₂ (EventArg.HasFieldType m em) fields args ∧ TookArgs S D args s s'
  | [], s, _, h => by
    cases h
    exact ⟨[], .nil, rfl, (List.append_nil _).symm, (List.append_nil _).symm⟩
  | _ :: _, _, _, h => by
    obtain ⟨t, ht, h⟩ := Outcome.bind_eq_ok.mp h
    obtain ⟨arg, harg, htook⟩ := decodeEventField_took hS hD hm ht
    obtain ⟨args, hargs, htooks⟩ := decodeEventFields_took hS hD hm h
    exact ⟨arg :: args, .cons harg hargs, htook.append htooks⟩

/-- **A round of the loop reads a record**, and adds its group. -/
theorem decodeEventRecord_took (hS : S.Lawful) (hD : DispatchLawful D)
    (hm : m.metadata.types.DenseEnums) {s s' : RecordState}
    (h : decodeEventRecord S D m fuel s = .ok s') :
    ∃ r : EventRecord m, s.input = r.encode S D ++ s'.input ∧
      s'.records = s.records ++ r.group S D := by
  obtain ⟨input, records⟩ := s
  rcases decodeEventRecord_cases hS ⟨input, records⟩ with ⟨e, he⟩ | ⟨phase, p, b, em, rest, hem, hi⟩
  · rw [he] at h
    cases h
  · obtain rfl := hi
    rw [decodeEventRecord_of_header hS hem] at h
    obtain ⟨es, hes, h⟩ := Outcome.bind_eq_ok.mp h
    obtain ⟨⟨topics, left⟩, ht, h⟩ := Outcome.bind_eq_ok.mp h
    cases h
    obtain ⟨args, hargs, hin, hout, herr⟩ := decodeEventFields_took hS hD hm hes
    rw [decodeWith, Outcome.ofExcept_eq_ok] at ht
    have htopics := hS.encode_decode .vecHash _ _ _ ht
    let r : EventRecord m := ⟨phase, p, b, args, topics, em, hem, hargs,
      hS.decode_fits .vecHash _ _ _ ht⟩
    refine ⟨r, ?_, ?_⟩
    · dsimp only at hin htopics ⊢
      rw [hin, htopics, EventRecord.encode, EventRecord.argBytes]
      simp only [r, List.append_assoc, List.cons_append]
    · rw [← r.recordEntries_eq]
      dsimp only at hout herr ⊢
      rw [hout, herr]
      rfl

/-- The rounds of the loop read records. -/
theorem decodeEventRecords_took (hS : S.Lawful) (hD : DispatchLawful D)
    (hm : m.metadata.types.DenseEnums) :
    ∀ {l : List Nat} {s s' : RecordState},
      forEach l (fun _ => decodeEventRecord S D m fuel) s = .ok s' →
      ∃ rs : List (EventRecord m), rs.length = l.length ∧
        s.input = rs.flatMap (EventRecord.encode S D) ++ s'.input ∧
        s'.records = s.records ++ rs.flatMap (EventRecord.group S D)
  | [], s, _, h => by
    cases h
    exact ⟨[], rfl, rfl, (List.append_nil _).symm⟩
  | _ :: _, _, _, h => by
    obtain ⟨t, ht, h⟩ := Outcome.bind_eq_ok.mp h
    obtain ⟨r, hi, ho⟩ := decodeEventRecord_took hS hD hm ht
    obtain ⟨rs, hlen, his, hos⟩ := decodeEventRecords_took hS hD hm h
    refine ⟨r :: rs, by rw [List.length_cons, List.length_cons, hlen], ?_, ?_⟩
    · rw [hi, his, List.flatMap_cons, List.append_assoc]
    · rw [hos, ho, List.flatMap_cons, List.append_assoc]

/-- A list of records, and what is left. -/
theorem decodeEvents_took (hS : S.Lawful) (hD : DispatchLawful D)
    (hm : m.metadata.types.DenseEnums) {input rest : Bytes} {out : List (Phase × Raw)}
    (h : decodeEvents S D m fuel input = .ok (out, rest)) :
    ∃ rs : List (EventRecord m), rs.length < 2 ^ 32 ∧ input = encodeRecords S D rs ++ rest ∧
      out = rs.flatMap (EventRecord.group S D) := by
  obtain ⟨⟨n, left⟩, hn, h⟩ := Outcome.bind_eq_ok.mp h
  obtain ⟨s, hs, h⟩ := Outcome.bind_eq_ok.mp h
  cases h
  obtain ⟨rs, hlen, hi, ho⟩ := decodeEventRecords_took hS hD hm hs
  rw [List.length_range] at hlen
  rw [decodeWith, Outcome.ofExcept_eq_ok] at hn
  refine ⟨rs, hlen ▸ n.toNat_lt, ?_, by simpa using ho⟩
  dsimp only at hi
  rw [hS.encode_decode .compactU32 _ _ _ hn, hi, encodeRecords, hlen, UInt32.ofNat_toNat,
    List.append_assoc]

/-- A call, and what is left. -/
theorem decodeCall_took (hS : S.Lawful) (hm : m.metadata.types.DenseEnums) {input rest : Bytes}
    (h : decodeCall S m fuel input = .ok rest) :
    ∃ c : CallArgs m, input = c.encode S ++ rest := by
  rcases decodeCall_cases S m input with ⟨e, he⟩ | ⟨p, b, c, args, hc, rfl⟩
  · rw [he] at h
    cases h
  · rw [decodeCall_of_call hc] at h
    obtain ⟨s, hs, h⟩ := Outcome.bind_eq_ok.mp h
    cases h
    obtain ⟨_, ⟨vs, hvs, rfl⟩, hi, -⟩ :=
      forEach_reads (decodeType_reads hS (inPlace_coversPositions hm) fuel) _ _ _ hs
    refine ⟨⟨p, b, vs, c, hc, hvs⟩, ?_⟩
    dsimp only at hi
    rw [hi]
    rfl

/-! ## Exactly what is read -/

/-- A call is read back, whatever follows it. -/
theorem decodeCall_encode (hS : S.Lawful) (c : CallArgs m) (hf : depthAll c.args < fuel)
    (rest : Bytes) : decodeCall S m fuel (c.encode S ++ rest) = .ok rest :=
  decodeCall_accepts c.call_eq (c.args_typed.accepts hS (inPlace_foundIn _) hf) rest

theorem decodeEvents_yields_iff (hS : S.Lawful) (hD : DispatchLawful D)
    (hm : m.metadata.types.DenseEnums) {input rest : Bytes} {out : List (Phase × Raw)} :
    Fueled.Yields (decodeEvents S D m) input (out, rest) ↔
      ∃ rs : List (EventRecord m), rs.length < 2 ^ 32 ∧ input = encodeRecords S D rs ++ rest ∧
        out = rs.flatMap (EventRecord.group S D) := by
  constructor
  · rintro ⟨n, h⟩
    exact decodeEvents_took hS hD hm h
  · rintro ⟨rs, hlen, rfl, rfl⟩
    exact ⟨_, decodeEvents_encodeRecords hS hD rs hlen (Nat.lt_succ_self _) rest⟩

theorem decodeCall_yields_iff (hS : S.Lawful) (hm : m.metadata.types.DenseEnums)
    {input rest : Bytes} :
    Fueled.Yields (decodeCall S m) input rest ↔ ∃ c : CallArgs m, input = c.encode S ++ rest := by
  constructor
  · rintro ⟨n, h⟩
    exact decodeCall_took hS hm h
  · rintro ⟨c, rfl⟩
    exact ⟨_, decodeCall_encode hS c (Nat.lt_succ_self _) rest⟩

/-- **The decoder reads the lists of records, and the calls, and nothing else.** -/
theorem decode_exact (hS : S.Lawful) (hD : DispatchLawful D) (m : Metadata)
    (hm : m.metadata.types.DenseEnums) (input rest : Bytes) :
    (∀ out, Fueled.Yields (decodeEvents S D m) input (out, rest) ↔
      ∃ rs : List (EventRecord m), rs.length < 2 ^ 32 ∧ input = encodeRecords S D rs ++ rest ∧
        out = rs.flatMap (EventRecord.group S D)) ∧
    (Fueled.Yields (decodeCall S m) input rest ↔
      ∃ c : CallArgs m, input = c.encode S ++ rest) :=
  ⟨fun _ => decodeEvents_yields_iff hS hD hm, decodeCall_yields_iff hS hm⟩

/-! ## Every input -/

/-- What a runtime ensures of its types so that the decoder can read them: enums stand by their
indexes, cycles of references are guarded, and there is no bit sequence. -/
structure PortableRegistry.Readable (reg : PortableRegistry) : Prop where
  dense : reg.DenseEnums
  guarded : reg.Guarded
  noBits : ∀ ty ∈ reg.types, ∀ store order, ty.typeDef ≠ .bitSequence store order

theorem decodeEvents_decides (hS : S.Lawful) (hD : DispatchLawful D)
    (hm : m.metadata.types.Readable) (input : Bytes) :
    Fueled.Decides (decodeEvents S D m) (fun r => ∃ rs : List (EventRecord m), rs.length < 2 ^ 32 ∧
      input = encodeRecords S D rs ++ r.2 ∧ r.1 = rs.flatMap (EventRecord.group S D)) input := by
  refine (decodeEvents_ends hS hm.guarded input).decides (decodeEvents_mono S D m) ?_
    fun r => decodeEvents_yields_iff hS hD hm.dense
  rw [decodeEvents_panics_iff hS hD]
  rintro ⟨w, hw, -⟩
  obtain ⟨ty, hty, store, order, hd⟩ := hw.mem_types
  exact hm.noBits ty hty store order hd

theorem decodeCall_decides (hS : S.Lawful) (hm : m.metadata.types.Readable) (input : Bytes) :
    Fueled.Decides (decodeCall S m) (fun rest => ∃ c : CallArgs m, input = c.encode S ++ rest)
      input := by
  refine (decodeCall_ends hS hm.guarded input).decides (decodeCall_mono S m) ?_
    fun rest => decodeCall_yields_iff hS hm.dense
  rw [decodeCall_panics_iff hS]
  rintro ⟨w, hw, -⟩
  obtain ⟨ty, hty, store, order, hd⟩ := hw.mem_types
  exact hm.noBits ty hty store order hd

/-- **The decoder decides**, on every input: it returns the groups of a list of records that the
input begins with, or an error where it begins with none; and so for calls. -/
theorem decode_decides (hS : S.Lawful) (hD : DispatchLawful D) (m : Metadata)
    (hm : m.metadata.types.Readable) (input : Bytes) :
    Fueled.Decides (decodeEvents S D m) (fun r => ∃ rs : List (EventRecord m), rs.length < 2 ^ 32 ∧
      input = encodeRecords S D rs ++ r.2 ∧ r.1 = rs.flatMap (EventRecord.group S D)) input ∧
    Fueled.Decides (decodeCall S m) (fun rest => ∃ c : CallArgs m, input = c.encode S ++ rest)
      input :=
  ⟨decodeEvents_decides hS hD hm input, decodeCall_decides hS hm input⟩

/-! ## Two events -/

theorem twoEvents_readable : twoEvents.metadata.types.Readable where
  dense := by
    simp only [PortableRegistry.DenseEnums, twoEvents, List.forall_mem_cons]
    refine ⟨fun _ h => (by cases h), ?_, fun _ h => (by cases h)⟩
    rintro _ ⟨⟩ i hi
    cases hi
  guarded := twoEvents_guarded
  noBits := by
    simp only [twoEvents, List.forall_mem_cons]
    exact ⟨fun _ _ h => (by cases h), fun _ _ h => (by cases h), fun _ h => (by cases h)⟩

/-- The bytes of a failed extrinsic and a roll of the die. -/
def twoRecords : Bytes := [8, 0, 1, 0, 0, 0, 0, 0, 2, 9, 0, 1, 3, 1, 6, 0]

theorem encodeRecords_twoRecords :
    encodeRecords Scale.reference dispatchReference [failedRecord, rolledRecord] = twoRecords := by
  decide

/-- `decode_exact` on the two records and a byte after them. -/
theorem decode_exact_twoRecords :
    Fueled.Yields (decodeEvents Scale.reference dispatchReference twoEvents) (twoRecords ++ [7])
      ([(.applyExtrinsic 1, .error .badOrigin),
        (.finalization, .event ⟨"Game", 3, "Rolled", 1, [6]⟩)], [7]) :=
  ((decode_exact Scale.reference_lawful dispatchReference_lawful twoEvents twoEvents_readable.dense
    _ [7]).1 _).mpr ⟨[failedRecord, rolledRecord], by decide, by rw [encodeRecords_twoRecords], rfl⟩

/-- `decode_decides` on the two records and a byte after them. -/
theorem decode_decides_twoRecords : ∃ r n₀, ∀ fuel ≥ n₀,
    decodeEvents Scale.reference dispatchReference twoEvents fuel (twoRecords ++ [7]) = .ok r := by
  rcases (decode_decides Scale.reference_lawful dispatchReference_lawful twoEvents
    twoEvents_readable (twoRecords ++ [7])).1 with ⟨r, -, n₀, h⟩ | ⟨hnone, -⟩
  · exact ⟨r, n₀, h⟩
  · refine absurd ⟨[failedRecord, rolledRecord], by decide, ?_, rfl⟩ (hnone (_, [7]))
    rw [encodeRecords_twoRecords]

end SubstrateClient.Node
