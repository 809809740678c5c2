import SubstrateClient.Node.BitSequences
import SubstrateClient.Node.EventRecords
import SubstrateClient.Node.Termination

/-!
# Events and calls that lead to a bit sequence

`decode_events` and `decode_call` hand the fields of events and the arguments of calls to
`decode_type`, and everything else they do answers with a value or an error. So they panic exactly
on the inputs that lead from a declared event or call to a bit sequence: behind the records before,
the header of the record and the fields before, a word that leads from the type of a field to a bit
sequence (`EventsLead`, `CallLeads`). What they accept begins with a list of records, or with a call
(`EventsWord`, `CallWord`).

* `decodeEventField_panics_iff`, `decodeEventRecord_panics_iff`: one field, one record; with what
  each takes off the input and what it passes.
* `decodeEvents_ends`, `decodeCall_ends`: on a guarded registry the decoder ends on every input. The
  records are a loop over the count; each of them shortens the input or keeps it.
* `decode_reports_iff`: malformed input is reported as an error exactly where nothing leads to a bit
  sequence. Where the registry is not guarded a run may not end at all.
-/

namespace SubstrateClient.Node

open SubstrateClient.Lib

/-- The dispatch error has a runtime error: that of a module is one the metadata declares. -/
def DispatchError.Known (m : Metadata) : DispatchError → Prop
  | .module e => ∃ d, m.error e.index (e.error.get 0) = .ok d
  | _ => True

/-! ## Words of events and calls, and words that lead to a bit sequence -/

section Words

variable (S : Scale) (D : Codec DispatchError) (m : Metadata)

/-- The word is what a field of an event holds: a dispatch error, in a field for one, or else a
value of its type. -/
def FieldWord (em : EventMetadata) (field : Field) (w : Bytes) : Prop :=
  (EventArg.IsDispatchField m em field ∧ ∃ e : DispatchError, e.Known m ∧ w = D.encode e) ∨
    (¬ EventArg.IsDispatchField m em field ∧ TypeWord S m.metadata.types field.ty w)

/-- The word leads from a field of an event to a bit sequence. A dispatch error has none. -/
def FieldLeads (em : EventMetadata) (field : Field) (w : Bytes) : Prop :=
  ¬ EventArg.IsDispatchField m em field ∧ LeadsToBits S m.metadata.types field.ty w

/-- The word is a record of an event that the metadata declares. -/
inductive RecordWord : Bytes → Prop where
  | mk (phase : Phase) {p b em ws topics} : m.event p b = .ok em →
      List.Forall₂ (FieldWord S D m em) em.variant.fields ws → topics.length < 2 ^ 32 →
      RecordWord (phase.encode S ++ p :: b :: (ws.flatten ++ (S .vecHash).encode topics))

/-- The word leads from a record to a bit sequence, in a field of its event. -/
inductive RecordLeads : Bytes → Prop where
  | mk (phase : Phase) {p b em field u v} : m.event p b = .ok em →
      RowBefore (FieldWord S D m em) em.variant.fields field u → FieldLeads S m em field v →
      RecordLeads (phase.encode S ++ p :: b :: (u ++ v))

/-- The word is a list of records: their count, and the records. -/
inductive EventsWord : Bytes → Prop where
  | mk {n : UInt32} {ws} : List.Forall₂ (fun _ => RecordWord S D m) (List.range n.toNat) ws →
      EventsWord ((S .compactU32).encode n ++ ws.flatten)

/-- The word leads from a list of records to a bit sequence: a count, records before the count is
reached, and then into a record. -/
inductive EventsLead : Bytes → Prop where
  | mk {n : UInt32} {i u v} : RowBefore (fun _ => RecordWord S D m) (List.range n.toNat) i u →
      RecordLeads S D m v → EventsLead ((S .compactU32).encode n ++ (u ++ v))

/-- The word is a call that the metadata declares: its indexes, and a value for each argument. -/
inductive CallWord : Bytes → Prop where
  | mk {p b c ws} : m.call p b = .ok c →
      List.Forall₂ (TypeWord S m.metadata.types) (c.variant.fields.map Field.ty) ws →
      CallWord (p :: b :: ws.flatten)

/-- The word leads from a call to a bit sequence, in an argument. -/
inductive CallLeads : Bytes → Prop where
  | mk {p b c t u v} : m.call p b = .ok c →
      RowBefore (TypeWord S m.metadata.types) (c.variant.fields.map Field.ty) t u →
      LeadsToBits S m.metadata.types t v → CallLeads (p :: b :: (u ++ v))

end Words

variable {S : Scale} {D : Codec DispatchError} {m : Metadata} {em : EventMetadata} {field : Field}

/-! ## One field -/

theorem fromDispatch_eq_ok_iff {e : DispatchError} :
    (∃ re, RuntimeError.fromDispatch m e = .ok re) ↔ e.Known m := by
  cases e with
  | module e =>
    have hget : e.error.get 0 = e.error[0] := rfl
    simp only [RuntimeError.fromDispatch, DispatchError.Known, liftMetadata, hget]
    cases m.error e.index e.error[0] <;> simp
  | _ => exact ⟨fun _ => trivial, fun _ => ⟨_, rfl⟩⟩

theorem fromDispatch_returns (m : Metadata) (e : DispatchError) :
    (RuntimeError.fromDispatch m e).Returns := by
  cases e with
  | module e => exact Outcome.returns_bind.mpr ⟨Outcome.returns_ofExcept _ _, fun _ _ => trivial⟩
  | _ => trivial

/-- A dispatch error is read or refused. -/
theorem decodeDispatchError_returns (s : EventState) : (decodeDispatchError D m s).Returns :=
  Outcome.returns_bind.mpr ⟨transcribe_returns _ D _, fun r _ =>
    Outcome.returns_bind.mpr ⟨fromDispatch_returns m r.1, fun _ _ => trivial⟩⟩

theorem decodeEventField_mono (S : Scale) (D : Codec DispatchError) (m : Metadata)
    (em : EventMetadata) (field : Field) :
    Fueled.Mono fun n => decodeEventField S D m n em field := by
  intro n n' hle s
  by_cases hfield : EventArg.IsDispatchField m em field
  · simp only [decodeEventField_of_dispatch hfield]
    exact .refl _
  · rcases decodeEventField_of_value (S := S) (D := D) hfield s with h | ⟨-, e, h⟩
    · simp only [h]
      exact (decodeType_mono S _ field.ty n n' hle s.cursor).bind fun _ => .refl _
    · simp only [h]
      exact .refl _

/-- What a field takes off the input. -/
theorem decodeEventField_takes (hS : S.Lawful) (hD : DispatchLawful D) (fuel : Nat) :
    Takes (fun s : EventState => s.cursor.input) (decodeEventField S D m fuel em field)
      (FieldWord S D m em field) := by
  intro s s' h
  by_cases hfield : EventArg.IsDispatchField m em field
  · rw [decodeEventField_of_dispatch hfield] at h
    obtain ⟨⟨e, c⟩, hc, h⟩ := Outcome.bind_eq_ok.mp h
    obtain ⟨re, hre, h⟩ := Outcome.bind_eq_ok.mp h
    cases h
    exact ⟨D.encode e, .inl ⟨hfield, e, fromDispatch_eq_ok_iff.mp ⟨re, hre⟩, rfl⟩,
      hD.encode_decode _ _ _ (transcribe_eq_ok.mp hc).1⟩
  · rcases decodeEventField_of_value (S := S) (D := D) hfield s with heq | ⟨-, e, heq⟩
    · rw [heq] at h
      obtain ⟨c, hc, h⟩ := Outcome.bind_eq_ok.mp h
      cases h
      obtain ⟨w, hw, hi⟩ := decodeType_takes hS fuel field.ty _ _ hc
      exact ⟨w, .inr ⟨hfield, hw⟩, hi⟩
    · rw [heq] at h
      cases h

/-- What a field passes. -/
theorem decodeEventField_passes (hS : S.Lawful) (hD : DispatchLawful D) :
    Passes (fun s : EventState => s.cursor.input) (fun n => decodeEventField S D m n em field)
      (FieldWord S D m em field) := by
  rintro w (⟨hfield, e, hknown, rfl⟩ | ⟨hfield, hw⟩) ⟨⟨input, out⟩, errs⟩ rest hs
  · obtain rfl := hs
    obtain ⟨re, hre⟩ := fromDispatch_eq_ok_iff.mpr (show e.wire.Known m by cases e <;> exact hknown)
    refine ⟨⟨⟨rest, out ++ D.encode e.wire⟩, errs ++ [re]⟩, ⟨0, ?_⟩, rfl⟩
    simp only [decodeEventField_of_dispatch hfield, decodeDispatchError, copyWith, transcribe,
      hD.decode_encode e rest, Outcome.ofExcept_ok, Outcome.ok_bind, hre]
  · rcases decodeEventField_of_value (S := S) (D := D) hfield ⟨⟨input, out⟩, errs⟩ with
      heq | ⟨hr, -⟩
    · obtain ⟨c, ⟨n, hc⟩, hci⟩ := decodeType_passes hS field.ty w hw ⟨input, out⟩ rest hs
      refine ⟨⟨c, errs⟩, ⟨n, ?_⟩, hci⟩
      simp only [heq, decodeEventValue, hc, Outcome.ok_bind]
    · obtain ⟨v, hv, -⟩ := hw
      obtain ⟨ty, hr'⟩ := hv.resolves
      rw [hr] at hr'
      cases hr'

/-- **A field panics** exactly where a word leads from it to a bit sequence. -/
theorem decodeEventField_panics_iff (hS : S.Lawful) (s : EventState) :
    Fueled.Panics (fun n => decodeEventField S D m n em field) s ↔
      Begins (FieldLeads S m em field) s.cursor.input := by
  by_cases hfield : EventArg.IsDispatchField m em field
  · constructor
    · rintro ⟨n, msg, h⟩
      simp only [decodeEventField_of_dispatch hfield] at h
      exact absurd h ((decodeDispatchError_returns s).ne_panic msg)
    · rintro ⟨w, ⟨hnot, -⟩, -⟩
      exact absurd hfield hnot
  · simp only [Begins, FieldLeads, hfield, not_false_eq_true, true_and]
    rw [← Begins, ← decodeType_panics_iff hS]
    rcases decodeEventField_of_value (S := S) (D := D) hfield s with heq | ⟨hr, e, heq⟩
    · simp only [Fueled.Panics, heq, decodeEventValue, Outcome.bind_eq_panic, reduceCtorEq,
        and_false, exists_false, or_false]
    · constructor
      · rintro ⟨n, msg, h⟩
        simp only [heq, reduceCtorEq] at h
      · rintro ⟨_ | n, msg, h⟩
        · cases h
        · simp only [decodeType, decodeTypeBody, resolveOr, hr, Outcome.okOr_none,
            Outcome.err_bind, reduceCtorEq] at h

theorem decodeRawEvent_panics_iff (hS : S.Lawful) (hD : DispatchLawful D) (s : EventState) :
    Fueled.Panics (fun n => decodeRawEvent S D m n em) s ↔
      ∃ field u v, RowBefore (FieldWord S D m em) em.variant.fields field u ∧
        FieldLeads S m em field v ∧ u ++ v <+: s.cursor.input :=
  loop_panics_iff (F := fun field n => decodeEventField S D m n em field)
    (decodeEventField_mono S D m em) (fun _ n => decodeEventField_takes hS hD n)
    (fun _ => decodeEventField_passes hS hD) fun _ => decodeEventField_panics_iff hS

/-! ## One record -/

theorem Phase.decode_cases (hS : S.Lawful) (bs : Bytes) :
    (∃ e, Phase.decode S bs = .err e) ∨ ∃ phase rest, bs = Phase.encode S phase ++ rest := by
  unfold Phase.decode readByte
  cases bs with
  | nil => exact .inl ⟨_, rfl⟩
  | cons b input =>
    simp only [Codec.readByte, Outcome.ofExcept_ok, Outcome.ok_bind]
    split
    · unfold decodeWith
      cases h : (S .u32).decode input with
      | error e => exact .inl ⟨_, rfl⟩
      | ok r =>
        obtain ⟨index, rest⟩ := r
        exact .inr ⟨.applyExtrinsic index, rest, by rw [hS.encode_decode .u32 _ _ _ h]; rfl⟩
    · exact .inr ⟨.finalization, input, rfl⟩
    · exact .inr ⟨.initialization, input, rfl⟩
    · exact .inl ⟨_, rfl⟩

/-- The header of a record is read or refused, whatever the fuel. -/
theorem decodeEventRecord_cases (hS : S.Lawful) (s : RecordState) :
    (∃ e, ∀ fuel, decodeEventRecord S D m fuel s = .err e) ∨
      ∃ phase p b em rest, m.event p b = .ok em ∧
        s.input = Phase.encode S phase ++ p :: b :: rest := by
  obtain ⟨input, records⟩ := s
  rcases Phase.decode_cases hS input with ⟨e, he⟩ | ⟨phase, rest, rfl⟩
  · exact .inl ⟨e, fun fuel => by simp only [decodeEventRecord, he, Outcome.err_bind]⟩
  · simp only [decodeEventRecord, Phase.decode_encode hS, Outcome.ok_bind]
    match rest with
    | [] => exact .inl ⟨_, fun _ => rfl⟩
    | [_] => exact .inl ⟨_, fun _ => rfl⟩
    | p :: b :: rest =>
      cases hem : m.event p b with
      | ok em => exact .inr ⟨phase, p, b, em, rest, hem, rfl⟩
      | error e =>
        refine .inl ⟨.metadata e, fun _ => ?_⟩
        simp only [readByte, Codec.readByte, Outcome.ofExcept_ok, Outcome.ok_bind, liftMetadata,
          hem, Outcome.ofExcept_error, Outcome.err_bind]

theorem decodeEventRecord_mono (S : Scale) (D : Codec DispatchError) (m : Metadata) :
    Fueled.Mono (decodeEventRecord S D m) := by
  intro n n' hle s
  refine (Outcome.Le.refl _).bind fun phase => (Outcome.Le.refl _).bind fun p =>
    (Outcome.Le.refl _).bind fun b => (Outcome.Le.refl _).bind fun em => ?_
  exact (forEach_le (fun field _ => decodeEventField_mono S D m em field n n' hle) _).bind
    fun _ => .refl _

/-- What a record takes off the input. -/
theorem decodeEventRecord_takes (hS : S.Lawful) (hD : DispatchLawful D) (fuel : Nat) :
    Takes RecordState.input (decodeEventRecord S D m fuel) (RecordWord S D m) := by
  rintro ⟨input, records⟩ s' h
  rcases decodeEventRecord_cases hS ⟨input, records⟩ with ⟨e, he⟩ | ⟨phase, p, b, em, rest, hem, hi⟩
  · rw [he] at h
    cases h
  · obtain rfl := hi
    rw [decodeEventRecord_of_header hS hem] at h
    obtain ⟨es, hes, h⟩ := Outcome.bind_eq_ok.mp h
    obtain ⟨⟨topics, left⟩, ht, h⟩ := Outcome.bind_eq_ok.mp h
    cases h
    obtain ⟨ws, hws, hi⟩ :=
      Takes.forEach (fun _ _ => decodeEventField_takes hS hD fuel) hes
    rw [decodeWith, Outcome.ofExcept_eq_ok] at ht
    refine ⟨_, .mk phase hem hws (hS.decode_fits .vecHash _ _ _ ht), ?_⟩
    have htopics := hS.encode_decode .vecHash _ _ _ ht
    dsimp only at hi htopics ⊢
    rw [hi, htopics]
    simp only [List.append_assoc, List.cons_append]

/-- What a record passes. -/
theorem decodeEventRecord_passes (hS : S.Lawful) (hD : DispatchLawful D) :
    Passes RecordState.input (decodeEventRecord S D m) (RecordWord S D m) := by
  rintro w hw ⟨input, records⟩ rest hs
  cases hw with
  | @mk phase p b em ws topics hem hws hlen =>
    obtain rfl := hs
    obtain ⟨es, ⟨n, hes⟩, hi⟩ := Passes.loop (F := fun field n => decodeEventField S D m n em field)
      (decodeEventField_mono S D m em) (fun _ => decodeEventField_passes hS hD) hws
      (s := ⟨⟨ws.flatten ++ ((S .vecHash).encode topics ++ rest), []⟩, []⟩) rfl
    have htopics : (S .vecHash).decode es.cursor.input = .ok (topics, rest) := by
      rw [hi]
      exact hS.decode_encode .vecHash topics hlen rest
    refine ⟨⟨rest, records ++ recordEntries phase
      (.event ⟨em.pallet, p, em.event, b, es.cursor.output⟩) es.errors⟩, ⟨n, ?_⟩, rfl⟩
    rw [List.append_assoc, List.cons_append, List.cons_append, List.append_assoc,
      decodeEventRecord_of_header hS hem, decodeRawEvent, show forEach _ _ _ = _ from hes,
      Outcome.ok_bind, decodeWith, htopics, Outcome.ofExcept_ok, Outcome.ok_bind]

/-- Behind the header, a record panics where its event does. -/
theorem decodeEventRecord_panics_of_header (hS : S.Lawful) {phase : Phase} {p b : UInt8}
    (hem : m.event p b = .ok em) (rest : Bytes) (records : List (Phase × Raw)) :
    Fueled.Panics (decodeEventRecord S D m) ⟨phase.encode S ++ p :: b :: rest, records⟩ ↔
      Fueled.Panics (fun n => decodeRawEvent S D m n em) ⟨⟨rest, []⟩, []⟩ :=
  Fueled.panics_iff_of_bind (fun _ => decodeEventRecord_of_header hS hem rest records) fun _ _ =>
    Outcome.returns_bind.mpr ⟨Outcome.returns_ofExcept _ _, fun _ _ => trivial⟩

/-- **A record panics** exactly where a word leads from it to a bit sequence. -/
theorem decodeEventRecord_panics_iff (hS : S.Lawful) (hD : DispatchLawful D) (s : RecordState) :
    Fueled.Panics (decodeEventRecord S D m) s ↔ Begins (RecordLeads S D m) s.input := by
  obtain ⟨input, records⟩ := s
  constructor
  · intro h
    rcases decodeEventRecord_cases hS ⟨input, records⟩ with
      ⟨e, he⟩ | ⟨phase, p, b, em, rest, hem, hi⟩
    · obtain ⟨n, msg, h⟩ := h
      rw [he] at h
      cases h
    · obtain rfl := hi
      rw [decodeEventRecord_panics_of_header hS hem, decodeRawEvent_panics_iff hS hD] at h
      obtain ⟨field, u, v, hu, hv, hpre⟩ := h
      refine ⟨_, .mk phase hem hu hv, ?_⟩
      exact (List.prefix_append_right_inj _).mpr
        (List.cons_prefix_cons.mpr ⟨rfl, List.cons_prefix_cons.mpr ⟨rfl, hpre⟩⟩)
  · rintro ⟨w, hw, rest, hs⟩
    cases hw with
    | @mk phase p b em field u v hem hu hv =>
      obtain rfl := hs
      rw [List.append_assoc, List.cons_append, List.cons_append,
        decodeEventRecord_panics_of_header hS hem, decodeRawEvent_panics_iff hS hD]
      exact ⟨field, u, v, hu, hv, List.prefix_append _ _⟩

/-! ## Lists of records, and calls -/

/-- Behind the count, a list panics where its records do. -/
theorem decodeEvents_panics_of_count (hS : S.Lawful) (n : UInt32) (rest : Bytes) :
    Fueled.Panics (decodeEvents S D m) ((S .compactU32).encode n ++ rest) ↔
      Fueled.Panics
        (fun fuel => forEach (List.range n.toNat) fun _ => decodeEventRecord S D m fuel)
        ⟨rest, []⟩ := by
  have hn : (S .compactU32).decode ((S .compactU32).encode n ++ rest) = .ok (n, rest) :=
    hS.decode_encode .compactU32 n trivial rest
  refine Fueled.panics_iff_of_bind (K := fun _ s => .ok (s.records, s.input)) (fun fuel => ?_)
    fun _ _ => trivial
  simp only [decodeEvents, decodeWith, hn, Outcome.ofExcept_ok, Outcome.ok_bind]

/-- **A list of records panics** exactly where a word leads from it to a bit sequence. -/
theorem decodeEvents_panics_iff (hS : S.Lawful) (hD : DispatchLawful D) (input : Bytes) :
    Fueled.Panics (decodeEvents S D m) input ↔ Begins (EventsLead S D m) input := by
  have hloop : ∀ (n : UInt32) (s : RecordState), Fueled.Panics
      (fun fuel => forEach (List.range n.toNat) fun _ => decodeEventRecord S D m fuel) s ↔
      ∃ i u v, RowBefore (fun _ => RecordWord S D m) (List.range n.toNat) i u ∧
        RecordLeads S D m v ∧ u ++ v <+: s.input := fun n s =>
    loop_panics_iff (F := fun _ fuel => decodeEventRecord S D m fuel)
      (fun _ => decodeEventRecord_mono S D m) (fun _ fuel => decodeEventRecord_takes hS hD fuel)
      (fun _ => decodeEventRecord_passes hS hD) fun _ => decodeEventRecord_panics_iff hS hD
  constructor
  · intro h
    cases hn : (S .compactU32).decode input with
    | error e =>
      obtain ⟨fuel, msg, h⟩ := h
      simp only [decodeEvents, decodeWith, hn, Outcome.ofExcept_error, Outcome.err_bind,
        reduceCtorEq] at h
    | ok r =>
      obtain ⟨n, rest⟩ := r
      obtain rfl := hS.encode_decode .compactU32 _ _ _ hn
      rw [decodeEvents_panics_of_count hS, hloop] at h
      obtain ⟨i, u, v, hu, hv, hpre⟩ := h
      exact ⟨_, .mk hu hv, (List.prefix_append_right_inj _).mpr hpre⟩
  · rintro ⟨w, hw, rest, hs⟩
    cases hw with
    | @mk n i u v hu hv =>
      obtain rfl := hs
      rw [List.append_assoc, decodeEvents_panics_of_count hS, hloop]
      exact ⟨i, u, v, hu, hv, List.prefix_append _ _⟩

/-- What `decode_events` accepts is a list of records. -/
theorem decodeEvents_sound (hS : S.Lawful) (hD : DispatchLawful D) {fuel : Nat} {input : Bytes}
    {r : List (Phase × Raw) × Bytes} (h : decodeEvents S D m fuel input = .ok r) :
    Begins (EventsWord S D m) input := by
  obtain ⟨⟨n, rest⟩, hn, h⟩ := Outcome.bind_eq_ok.mp h
  obtain ⟨s, hs, -⟩ := Outcome.bind_eq_ok.mp h
  obtain ⟨ws, hws, hi⟩ := Takes.forEach (fun _ _ => decodeEventRecord_takes hS hD fuel) hs
  rw [decodeWith, Outcome.ofExcept_eq_ok] at hn
  dsimp only at hi
  refine ⟨_, .mk hws, s.input, ?_⟩
  rw [hS.encode_decode .compactU32 _ _ _ hn, hi, List.append_assoc]

/-- Behind the indexes of a call come its arguments. -/
theorem decodeCall_of_call {p b : UInt8} {c : CallMetadata} (hc : m.call p b = .ok c) (fuel : Nat)
    (rest : Bytes) :
    decodeCall S m fuel (p :: b :: rest) =
      (forEach (c.variant.fields.map Field.ty) (decodeType S m.metadata.types fuel) ⟨rest, []⟩ >>=
        fun s => .ok s.input) := by
  simp only [decodeCall, readByte, Codec.readByte, Outcome.ofExcept_ok, Outcome.ok_bind,
    liftMetadata, hc, forEach_fields]

/-- The indexes of a call are read or refused, whatever the fuel. -/
theorem decodeCall_cases (S : Scale) (m : Metadata) (input : Bytes) :
    (∃ e, ∀ fuel, decodeCall S m fuel input = .err e) ∨
      ∃ p b c rest, m.call p b = .ok c ∧ input = p :: b :: rest := by
  match input with
  | [] => exact .inl ⟨_, fun _ => rfl⟩
  | [_] => exact .inl ⟨_, fun _ => rfl⟩
  | p :: b :: rest =>
    cases hc : m.call p b with
    | ok c => exact .inr ⟨p, b, c, rest, hc, rfl⟩
    | error e =>
      refine .inl ⟨.metadata e, fun _ => ?_⟩
      simp only [decodeCall, readByte, Codec.readByte, Outcome.ofExcept_ok, Outcome.ok_bind,
        liftMetadata, hc, Outcome.ofExcept_error, Outcome.err_bind]

/-- **A call panics** exactly where a word leads from it to a bit sequence. -/
theorem decodeCall_panics_iff (hS : S.Lawful) (input : Bytes) :
    Fueled.Panics (decodeCall S m) input ↔ Begins (CallLeads S m) input := by
  have hcall : ∀ {p b : UInt8} {c : CallMetadata}, m.call p b = .ok c → ∀ rest,
      Fueled.Panics (decodeCall S m) (p :: b :: rest) ↔ Fueled.Panics (fun fuel =>
        forEach (c.variant.fields.map Field.ty) (decodeType S m.metadata.types fuel))
        ⟨rest, []⟩ := by
    intro p b c hc rest
    exact Fueled.panics_iff_of_bind (fun fuel => decodeCall_of_call hc fuel rest) fun _ _ => trivial
  constructor
  · intro h
    rcases decodeCall_cases S m input with ⟨e, he⟩ | ⟨p, b, c, rest, hc, rfl⟩
    · obtain ⟨fuel, msg, h⟩ := h
      rw [he] at h
      cases h
    · rw [hcall hc, forEach_panics_iff hS] at h
      obtain ⟨t, u, v, hu, hv, hpre⟩ := h
      exact ⟨_, .mk hc hu hv,
        List.cons_prefix_cons.mpr ⟨rfl, List.cons_prefix_cons.mpr ⟨rfl, hpre⟩⟩⟩
  · rintro ⟨w, hw, rest, hs⟩
    cases hw with
    | @mk p b c t u v hc hu hv =>
      obtain rfl := hs
      rw [List.cons_append, List.cons_append, hcall hc, forEach_panics_iff hS]
      exact ⟨t, u, v, hu, hv, List.prefix_append _ _⟩

/-- What `decode_call` accepts is a call. -/
theorem decodeCall_sound (hS : S.Lawful) {fuel : Nat} {input rest : Bytes}
    (h : decodeCall S m fuel input = .ok rest) : Begins (CallWord S m) input := by
  rcases decodeCall_cases S m input with ⟨e, he⟩ | ⟨p, b, c, args, hc, rfl⟩
  · rw [he] at h
    cases h
  · rw [decodeCall_of_call hc] at h
    obtain ⟨s, hs, -⟩ := Outcome.bind_eq_ok.mp h
    obtain ⟨ws, hws, hi⟩ := Takes.forEach (fun id _ => decodeType_takes hS fuel id) hs
    dsimp only at hi
    exact ⟨_, .mk hc hws, s.input, by rw [hi]; rfl⟩

/-! ## Every call ends on a guarded registry -/

theorem decodeEvents_mono (S : Scale) (D : Codec DispatchError) (m : Metadata) :
    Fueled.Mono (decodeEvents S D m) := by
  intro n n' hle input
  exact (Outcome.Le.refl _).bind fun r =>
    (forEach_le (fun _ _ => decodeEventRecord_mono S D m n n' hle) _).bind fun _ => .refl _

theorem decodeCall_mono (S : Scale) (m : Metadata) : Fueled.Mono (decodeCall S m) := by
  intro n n' hle input
  refine (Outcome.Le.refl _).bind fun p => (Outcome.Le.refl _).bind fun b =>
    (Outcome.Le.refl _).bind fun c => ?_
  exact (forEach_le (fun field _ => decodeType_mono S _ field.ty n n' hle) _).bind fun _ => .refl _

/-- A field is read as a dispatch error, which ends, or as a value of its type. -/
theorem decodeEventField_ends (hS : S.Lawful) (hreg : m.metadata.types.Guarded)
    {em : EventMetadata} (field : Field) (s : EventState) :
    Fueled.Ends (fun n => decodeEventField S D m n em field) s := by
  by_cases hfield : EventArg.IsDispatchField m em field
  · refine ⟨0, ?_⟩
    simp only [decodeEventField_of_dispatch hfield]
    exact (decodeDispatchError_returns s).ne_outOfFuel
  · rcases decodeEventField_of_value (S := S) (D := D) hfield s with heq | ⟨-, e, heq⟩
    · exact Fueled.Ends.of_bind (K := fun _ c => .ok ⟨c, s.errors⟩) heq (fun _ _ => trivial)
        (decodeType_endsWithin hS hreg _ field.ty s.cursor le_rfl)
    · refine ⟨0, ?_⟩
      simp only [heq, ne_eq, reduceCtorEq, not_false_eq_true]

theorem decodeEventRecord_ends (hS : S.Lawful) (hreg : m.metadata.types.Guarded)
    (s : RecordState) : Fueled.Ends (decodeEventRecord S D m) s := by
  obtain ⟨input, records⟩ := s
  rcases decodeEventRecord_cases hS ⟨input, records⟩ with ⟨e, he⟩ | ⟨phase, p, b, em, rest, hem, hi⟩
  · exact ⟨0, by rw [he]; nofun⟩
  · obtain rfl := hi
    refine Fueled.Ends.of_bind (fun n => decodeEventRecord_of_header hS hem rest records)
      (fun _ _ => Outcome.returns_bind.mpr ⟨Outcome.returns_ofExcept _ _, fun _ _ => trivial⟩) ?_
    exact Fueled.Ends.loop (I := fun _ => True)
      (F := fun field n => decodeEventField S D m n em field)
      (fun field _ => decodeEventField_mono S D m em field)
      (fun field _ s _ => decodeEventField_ends hS hreg field s) (fun _ _ _ _ _ _ => trivial) trivial

/-- The records are a loop over the count. -/
theorem decodeEvents_ends (hS : S.Lawful) (hreg : m.metadata.types.Guarded) (input : Bytes) :
    Fueled.Ends (decodeEvents S D m) input := by
  cases hn : (S .compactU32).decode input with
  | error e =>
    refine ⟨0, ?_⟩
    simp only [decodeEvents, decodeWith, hn, Outcome.ofExcept_error, Outcome.err_bind, ne_eq,
      reduceCtorEq, not_false_eq_true]
  | ok r =>
    obtain ⟨n, rest⟩ := r
    refine Fueled.Ends.of_bind (K := fun _ s => .ok (s.records, s.input)) (fun fuel => ?_)
      (fun _ _ => trivial) (Fueled.Ends.loop (I := fun _ => True)
        (F := fun _ n => decodeEventRecord S D m n) (fun _ _ => decodeEventRecord_mono S D m)
        (fun _ _ s _ => decodeEventRecord_ends hS hreg s) (fun _ _ _ _ _ _ => trivial) trivial
        (l := List.range n.toNat) (s := ⟨rest, []⟩))
    simp only [decodeEvents, decodeWith, hn, Outcome.ofExcept_ok, Outcome.ok_bind]
    rfl

theorem decodeCall_ends (hS : S.Lawful) (hreg : m.metadata.types.Guarded) (input : Bytes) :
    Fueled.Ends (decodeCall S m) input := by
  rcases decodeCall_cases S m input with ⟨e, he⟩ | ⟨p, b, c, rest, hc, rfl⟩
  · exact ⟨0, by rw [he]; nofun⟩
  · exact Fueled.Ends.of_bind (fun fuel => decodeCall_of_call hc fuel rest) (fun _ _ => trivial)
      (forEach_ends hS (fun id _ => decodeType_endsWithin hS hreg _ id) le_rfl)

/-! ## Exactly where the decoder reports -/

theorem EventsLead.mem_types {w : Bytes} (h : EventsLead S D m w) :
    ∃ ty ∈ m.metadata.types.types, ∃ store order, ty.typeDef = .bitSequence store order := by
  obtain ⟨-, ⟨-, -, -, hv⟩⟩ := h
  exact hv.2.mem_types

theorem CallLeads.mem_types {w : Bytes} (h : CallLeads S m w) :
    ∃ ty ∈ m.metadata.types.types, ∃ store order, ty.typeDef = .bitSequence store order := by
  obtain ⟨-, -, hv⟩ := h
  exact hv.mem_types

/-- Without bit sequences in the registry, the decoder reports every malformed input. -/
theorem decode_reports_of_no_bits (hS : S.Lawful) (hD : DispatchLawful D)
    (hm : ∀ ty ∈ m.metadata.types.types, ∀ store order, ty.typeDef ≠ .bitSequence store order)
    (input : Bytes) :
    Fueled.Reports (decodeEvents S D m) (Begins (EventsWord S D m)) input ∧
      Fueled.Reports (decodeCall S m) (Begins (CallWord S m)) input := by
  constructor
  · rw [Fueled.reports_iff_not_panics fun _ _ => decodeEvents_sound hS hD,
      decodeEvents_panics_iff hS hD]
    rintro ⟨w, hw, -⟩
    obtain ⟨ty, hty, store, order, hd⟩ := hw.mem_types
    exact hm ty hty store order hd
  · rw [Fueled.reports_iff_not_panics fun _ _ => decodeCall_sound hS, decodeCall_panics_iff hS]
    rintro ⟨w, hw, -⟩
    obtain ⟨ty, hty, store, order, hd⟩ := hw.mem_types
    exact hm ty hty store order hd

/-- **The decoder reports every malformed input as an error** (it never panics, and whenever it ends
with a value the input begins with a list of records or with a call) exactly on the inputs that do
not lead to a bit sequence. On a guarded registry, on which it ends, it answers on exactly these
inputs. -/
theorem decode_reports_iff (hS : S.Lawful) (hD : DispatchLawful D) (m : Metadata) (input : Bytes) :
    ((Fueled.Reports (decodeEvents S D m) (Begins (EventsWord S D m)) input ↔
        ¬ Begins (EventsLead S D m) input) ∧
      (Fueled.Reports (decodeCall S m) (Begins (CallWord S m)) input ↔
        ¬ Begins (CallLeads S m) input)) ∧
    (m.metadata.types.Guarded →
      (Fueled.Answers (decodeEvents S D m) (Begins (EventsWord S D m)) input ↔
        ¬ Begins (EventsLead S D m) input) ∧
      (Fueled.Answers (decodeCall S m) (Begins (CallWord S m)) input ↔
        ¬ Begins (CallLeads S m) input)) := by
  have hevents : Fueled.Reports (decodeEvents S D m) (Begins (EventsWord S D m)) input ↔
      ¬ Begins (EventsLead S D m) input := by
    rw [← decodeEvents_panics_iff hS hD]
    exact Fueled.reports_iff_not_panics fun _ _ => decodeEvents_sound hS hD
  have hcall : Fueled.Reports (decodeCall S m) (Begins (CallWord S m)) input ↔
      ¬ Begins (CallLeads S m) input := by
    rw [← decodeCall_panics_iff hS]
    exact Fueled.reports_iff_not_panics fun _ _ => decodeCall_sound hS
  refine ⟨⟨hevents, hcall⟩, fun hm => ⟨?_, ?_⟩⟩
  · exact ((decodeEvents_ends hS hm input).answers_iff_reports
      (decodeEvents_mono S D m)).trans hevents
  · exact ((decodeCall_ends hS hm input).answers_iff_reports (decodeCall_mono S m)).trans hcall

/-- A runtime with an event that holds bits, and a call that takes them. -/
def bitsRuntime : RuntimeMetadataV14 where
  types := ⟨[⟨["bits", "Event"], .variant [⟨"Flags", [⟨1⟩], 0, []⟩]⟩, ⟨[], .bitSequence 2 3⟩,
    ⟨[], .primitive .u8⟩, ⟨["bitvec", "order", "Lsb0"], .composite []⟩]⟩
  pallets := [⟨"Bits", none, some 0, some 0, [], none, 0⟩]

/-- On a record of the event, and on the call, the decoder panics. -/
theorem decode_not_reports_bits : ∃ r, Metadata.tryFrom ⟨metaReserved, .v14 bitsRuntime⟩ = .ok r ∧
    ¬ Fueled.Reports (decodeEvents Scale.reference dispatchReference r)
      (Begins (EventsWord Scale.reference dispatchReference r)) [4, 1, 0, 0] ∧
    ¬ Fueled.Reports (decodeCall Scale.reference r) (Begins (CallWord Scale.reference r))
      [0, 0] :=
  ⟨_, rfl, Fueled.not_reports_of_panic (n := 1) rfl, Fueled.not_reports_of_panic (n := 1) rfl⟩

/-- The types of the two events refer to none. -/
theorem twoEvents_guarded : twoEvents.metadata.types.Guarded := by
  refine guarded_of_rank (fun _ => 0) ?_
  rintro id id' ⟨⟨d, hd, hmem⟩, -⟩
  obtain ⟨path, hr⟩ := resolve_of_typeDef hd
  have hty := List.mem_of_getElem? hr
  rcases List.mem_cons.mp hty with h | hty
  · cases h
    cases hmem
  · cases List.mem_singleton.mp hty
    cases hmem

/-- `decode_reports_iff` on records without bits, and on the record and the call with bits: the
words that lead to them. -/
theorem decode_reports_iff_bits :
    (Fueled.Reports (decodeEvents Scale.reference dispatchReference twoEvents)
        (Begins (EventsWord Scale.reference dispatchReference twoEvents))
        [8, 0, 1, 0, 0, 0, 0, 0, 2, 9, 0, 1, 3, 1, 6, 0] ∧
      Fueled.Answers (decodeEvents Scale.reference dispatchReference twoEvents)
        (Begins (EventsWord Scale.reference dispatchReference twoEvents))
        [8, 0, 1, 0, 0, 0, 0, 0, 2, 9, 0, 1, 3, 1, 6, 0]) ∧
      ∃ r, Metadata.tryFrom ⟨metaReserved, .v14 bitsRuntime⟩ = .ok r ∧
        Begins (EventsLead Scale.reference dispatchReference r) [4, 1, 0, 0] ∧
        Begins (CallLeads Scale.reference r) [0, 0] := by
  have h := decode_reports_iff Scale.reference_lawful dispatchReference_lawful
  constructor
  · have hnot : ¬ Begins (EventsLead Scale.reference dispatchReference twoEvents)
        [8, 0, 1, 0, 0, 0, 0, 0, 2, 9, 0, 1, 3, 1, 6, 0] := by
      rintro ⟨w, hw, -⟩
      obtain ⟨ty, hty, store, order, hd⟩ := hw.mem_types
      rcases List.mem_cons.mp hty with rfl | hty
      · cases hd
      · cases List.mem_singleton.mp hty
        cases hd
    exact ⟨(h twoEvents _).1.1.mpr hnot, ((h twoEvents _).2 twoEvents_guarded).1.mpr hnot⟩
  · refine ⟨_, rfl, ?_, ?_⟩
    · by_contra hnot
      exact Fueled.not_reports_of_panic (n := 1) rfl ((h _ _).1.1.mpr hnot)
    · by_contra hnot
      exact Fueled.not_reports_of_panic (n := 1) rfl ((h _ _).1.2.mpr hnot)

end SubstrateClient.Node
