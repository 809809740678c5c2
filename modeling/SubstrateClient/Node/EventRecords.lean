import Mathlib.Data.List.MinMax
import SubstrateClient.Node.Dispatch
import SubstrateClient.Node.Value

/-!
# Lists of event records

What the node stores under `System::Events`: `EventRecord` is one record, with the event the metadata
declares for its indexes and arguments that have the types of its fields, so an ill-typed record
cannot be built. A field of `System::ExtrinsicFailed` whose type is a `DispatchError` holds a
dispatch error; every other field holds a value of its type.

* `decodeEventFields_encode`: the arguments are read back, and each dispatch error is turned into a
  runtime error. By induction on the fields.
* `decodeEventRecord_encode`: one record is read back and adds its `group` to the result.
* `decodeEvents_encode`: so is a list of records, whatever follows it; by induction on the list.
-/

namespace SubstrateClient.Node

open SubstrateClient.Lib

variable {S : Scale} {D : Codec DispatchError} {m : Metadata}

/-! ## Records -/

/-- The runtime error that a dispatch error stands for. That of a module is the one the metadata
declares for its indexes; texts are not on the wire. -/
inductive DispatchError.StandsFor (m : Metadata) : DispatchError → RuntimeError → Prop where
  | module {e : ModuleError} {d : ErrorMetadata} : m.error e.index (e.error.get 0) = .ok d →
      StandsFor m (.module e) (.module ⟨d.pallet, d.error, d.description⟩)
  | badOrigin : StandsFor m .badOrigin .badOrigin
  | cannotLookup : StandsFor m .cannotLookup .cannotLookup
  | consumerRemaining : StandsFor m .consumerRemaining .consumerRemaining
  | tooManyConsumers : StandsFor m .tooManyConsumers .tooManyConsumers
  | noProviders : StandsFor m .noProviders .noProviders
  | arithmetic (e : ArithmeticError) : StandsFor m (.arithmetic e) (.other "math_error")
  | token (e : TokenError) : StandsFor m (.token e) (.other "token error")
  | transactional (e : TransactionalError) :
      StandsFor m (.transactional e) (.other "transactional error")
  | other (msg : String) : StandsFor m (.other msg) (.other "")

/-- **The decoder turns a dispatch error into the runtime error it stands for**, if there is one. -/
theorem fromDispatch_wire_iff {e : DispatchError} {re : RuntimeError} :
    RuntimeError.fromDispatch m e.wire = .ok re ↔ e.StandsFor m re := by
  constructor
  · intro h
    cases e with
    | module e =>
      obtain ⟨d, hd, h⟩ := Outcome.bind_eq_ok.mp h
      cases h
      exact .module (Outcome.ofExcept_eq_ok.mp hd)
    | _ =>
      cases h
      constructor
  · intro h
    cases h with
    | module hd =>
      refine Outcome.bind_eq_ok.mpr ⟨_, Outcome.ofExcept_eq_ok.mpr hd, rfl⟩
    | _ => rfl

/-- An argument of an event: a value, or a dispatch error with the runtime error it is turned
into. -/
inductive EventArg where
  | value (v : Value)
  | dispatch (e : DispatchError) (runtimeError : RuntimeError)

namespace EventArg

/-- A dispatch error belongs in a field of its type of `System::ExtrinsicFailed`. -/
def IsDispatchField (m : Metadata) (em : EventMetadata) (field : Field) : Prop :=
  isExtrinsicFailed em = true ∧
    ∃ ty, m.metadata.types.resolve field.ty = some ty ∧ isDispatchError ty = true

/-- The argument belongs in the field. -/
def HasFieldType (m : Metadata) (em : EventMetadata) (field : Field) : EventArg → Prop
  | value v => ¬ IsDispatchField m em field ∧ HasType m.metadata.types inPlace field.ty v
  | dispatch e re => IsDispatchField m em field ∧ e.StandsFor m re

/-- The SCALE encoding of an argument. -/
def encode (S : Scale) (D : Codec DispatchError) : EventArg → Bytes
  | value v => v.encode S
  | dispatch e _ => D.encode e

/-- The depth of an argument. -/
def depth : EventArg → Nat
  | value v => v.depth
  | dispatch _ _ => 0

/-- The runtime error of an argument. -/
def runtimeError : EventArg → Option RuntimeError
  | value _ => none
  | dispatch _ re => some re

end EventArg

/-- A record of an event the metadata declares. -/
structure EventRecord (m : Metadata) where
  phase : Phase
  palletIndex : UInt8
  variantIndex : UInt8
  args : List EventArg
  topics : List H256
  /-- What the metadata declares for the indexes. -/
  declared : EventMetadata
  event_eq : m.event palletIndex variantIndex = .ok declared
  args_typed : List.Forall₂ (EventArg.HasFieldType m declared) declared.variant.fields args
  topics_fit : topics.length < 2 ^ 32

/-- The SCALE encoding of a phase. -/
def Phase.encode (S : Scale) : Phase → Bytes
  | .applyExtrinsic index => 0 :: (S .u32).encode index
  | .finalization => [1]
  | .initialization => [2]

namespace EventRecord

/-- The arguments, encoded. -/
def argBytes (S : Scale) (D : Codec DispatchError) (r : EventRecord m) : Bytes :=
  r.args.flatMap (EventArg.encode S D)

/-- The SCALE encoding of a record. -/
def encode (S : Scale) (D : Codec DispatchError) (r : EventRecord m) : Bytes :=
  r.phase.encode S ++ r.palletIndex :: r.variantIndex :: (r.argBytes S D ++
    (S .vecHash).encode r.topics)

/-- The depth of the deepest argument. -/
def depth (r : EventRecord m) : Nat := (r.args.map EventArg.depth).foldr max ⊥

/-- The runtime errors of the dispatch errors of a record. -/
def runtimeErrors (r : EventRecord m) : List RuntimeError := r.args.filterMap EventArg.runtimeError

/-- The event a record is decoded to. -/
def rawEvent (S : Scale) (D : Codec DispatchError) (r : EventRecord m) : RawEvent where
  pallet := r.declared.pallet
  palletIndex := r.palletIndex
  variant := r.declared.event
  variantIndex := r.variantIndex
  data := r.argBytes S D

/-- What a record adds to the result: its event, or one error for each dispatch error. -/
def group (S : Scale) (D : Codec DispatchError) (r : EventRecord m) : List (Phase × Raw) :=
  match r.runtimeErrors with
  | [] => [(r.phase, .event (r.rawEvent S D))]
  | errors => errors.map fun err => (r.phase, .error err)

end EventRecord

/-! ## One record -/

theorem Phase.decode_encode (hS : S.Lawful) (p : Phase) (rest : Bytes) :
    Phase.decode S (p.encode S ++ rest) = .ok (p, rest) := by
  cases p with
  | applyExtrinsic index =>
    have h := hS.decode_encode .u32 index trivial rest
    simp [Phase.encode, Phase.decode, readByte, Codec.readByte, decodeWith, h]
  | finalization => rfl
  | initialization => rfl

/-- A field for a dispatch error is read as one. -/
theorem decodeEventField_of_dispatch {fuel : Nat} {em : EventMetadata} {field : Field}
    (h : EventArg.IsDispatchField m em field) (s : EventState) :
    decodeEventField S D m fuel em field s = decodeDispatchError D m s := by
  obtain ⟨hfail, ty, hr, hty⟩ := h
  unfold decodeEventField
  rw [if_pos hfail, resolveOr, hr, Outcome.okOr_some, Outcome.ok_bind, if_pos hty]

/-- Every other field is read as a value of its type, once the type is found. -/
theorem decodeEventField_of_value {em : EventMetadata} {field : Field}
    (h : ¬ EventArg.IsDispatchField m em field) (s : EventState) :
    (∀ fuel, decodeEventField S D m fuel em field s = decodeEventValue S m fuel field.ty s) ∨
      m.metadata.types.resolve field.ty = none ∧
        ∃ e, ∀ fuel, decodeEventField S D m fuel em field s = .err e := by
  unfold decodeEventField
  by_cases hfail : isExtrinsicFailed em = true
  · simp only [if_pos hfail, resolveOr]
    cases hr : m.metadata.types.resolve field.ty with
    | none => exact .inr ⟨rfl, _, fun _ => rfl⟩
    | some ty =>
      have hty : isDispatchError ty ≠ true := fun hd => h ⟨hfail, ty, hr, hd⟩
      exact .inl fun fuel => by rw [Outcome.okOr_some, Outcome.ok_bind, if_neg hty]
  · exact .inl fun fuel => if_neg hfail

/-- One argument is read back. -/
theorem decodeEventField_encode (hS : S.Lawful) (hD : DispatchLawful D) {fuel : Nat}
    {em : EventMetadata} {field : Field} {arg : EventArg} (h : arg.HasFieldType m em field)
    (hf : arg.depth < fuel) (rest out : Bytes) (errs : List RuntimeError) :
    decodeEventField S D m fuel em field ⟨⟨arg.encode S D ++ rest, out⟩, errs⟩ =
      .ok ⟨⟨rest, out ++ arg.encode S D⟩, errs ++ arg.runtimeError.toList⟩ := by
  cases arg with
  | value v =>
    obtain ⟨hnot, hv⟩ := h
    have hval : decodeEventValue S m fuel field.ty ⟨⟨v.encode S ++ rest, out⟩, errs⟩ =
        .ok ⟨⟨rest, out ++ v.encode S⟩, errs⟩ := by
      unfold decodeEventValue
      rw [hv.accepts hS (inPlace_foundIn _) hf rest out, Outcome.ok_bind]
    simp only [EventArg.encode, EventArg.runtimeError, Option.toList_none, List.append_nil]
    rcases decodeEventField_of_value hnot ⟨⟨v.encode S ++ rest, out⟩, errs⟩ with h | ⟨hr, -⟩
    · rw [h, hval]
    · obtain ⟨ty, hr'⟩ := hv.resolves
      rw [hr] at hr'
      cases hr'
  | dispatch e re =>
    obtain ⟨hfield, hre⟩ := h
    rw [← fromDispatch_wire_iff] at hre
    rw [decodeEventField_of_dispatch hfield]
    have henc : D.encode e.wire = D.encode e := by
      have := hD.encode_decode _ _ _ (hD.decode_encode e [])
      simpa using this.symm
    simp only [decodeDispatchError, EventArg.encode, EventArg.runtimeError, copyWith, transcribe,
      hD.decode_encode e rest, Outcome.ofExcept_ok, Outcome.ok_bind, hre, henc,
      Option.toList_some]

/-- **The arguments of an event are read back**, and each dispatch error among them gives its
runtime error. -/
theorem decodeEventFields_encode (hS : S.Lawful) (hD : DispatchLawful D) {fuel : Nat}
    {em : EventMetadata} (rest : Bytes) :
    ∀ {fields : List Field} {args : List EventArg},
      List.Forall₂ (EventArg.HasFieldType m em) fields args → (∀ arg ∈ args, arg.depth < fuel) →
      ∀ out errs,
        forEach fields (decodeEventField S D m fuel em)
            ⟨⟨args.flatMap (EventArg.encode S D) ++ rest, out⟩, errs⟩ =
          .ok ⟨⟨rest, out ++ args.flatMap (EventArg.encode S D)⟩,
            errs ++ args.filterMap EventArg.runtimeError⟩
  | _, _, .nil, _, out, errs => by
    simp only [List.flatMap_nil, List.filterMap_nil, List.append_nil]
    rfl
  | _, arg :: args, .cons h hs, hf, out, errs => by
    have ih := decodeEventFields_encode hS hD rest hs
      fun a ha => hf a (List.mem_cons_of_mem arg ha)
    rw [List.flatMap_cons, List.append_assoc, forEach_cons,
      decodeEventField_encode hS hD h (hf arg List.mem_cons_self), Outcome.ok_bind, ih,
      List.append_assoc, List.append_assoc]
    cases hre : arg.runtimeError with
    | none => rw [List.filterMap_cons_none hre]; rfl
    | some re => rw [List.filterMap_cons_some hre]; rfl

theorem EventRecord.depth_arg_le (r : EventRecord m) {arg : EventArg} (h : arg ∈ r.args) :
    arg.depth ≤ r.depth :=
  List.le_max_of_le (List.mem_map_of_mem h) le_rfl

/-- What the decoder adds to the result is the group of the record. -/
theorem EventRecord.recordEntries_eq (r : EventRecord m) :
    recordEntries r.phase (.event (r.rawEvent S D)) r.runtimeErrors = r.group S D := by
  unfold recordEntries EventRecord.group
  cases r.runtimeErrors <;> rfl

/-- Behind the header of a record come the arguments of its event, and the topics. -/
theorem decodeEventRecord_of_header (hS : S.Lawful) {fuel : Nat} {phase : Phase} {p b : UInt8}
    {em : EventMetadata} (hem : m.event p b = .ok em) (rest : Bytes)
    (records : List (Phase × Raw)) :
    decodeEventRecord S D m fuel ⟨phase.encode S ++ p :: b :: rest, records⟩ =
      (decodeRawEvent S D m fuel em ⟨⟨rest, []⟩, []⟩ >>= fun es =>
        decodeWith (S .vecHash) es.cursor.input >>= fun topics =>
          .ok ⟨topics.2, records ++ recordEntries phase
            (.event ⟨em.pallet, p, em.event, b, es.cursor.output⟩) es.errors⟩) := by
  unfold decodeEventRecord
  simp only [Phase.decode_encode hS, Outcome.ok_bind, readByte, Codec.readByte,
    Outcome.ofExcept_ok, liftMetadata, hem]

/-- **One record is read back**, up to its last byte, and adds its group. -/
theorem decodeEventRecord_encode (hS : S.Lawful) (hD : DispatchLawful D) {fuel : Nat}
    (r : EventRecord m) (hf : r.depth < fuel) (rest : Bytes) (records : List (Phase × Raw)) :
    decodeEventRecord S D m fuel ⟨r.encode S D ++ rest, records⟩ =
      .ok ⟨rest, records ++ r.group S D⟩ := by
  have hargs := decodeEventFields_encode hS hD ((S .vecHash).encode r.topics ++ rest) r.args_typed
    (fun arg ha => Nat.lt_of_le_of_lt (r.depth_arg_le ha) hf) [] []
  have htopics := hS.decode_encode .vecHash r.topics r.topics_fit rest
  rw [EventRecord.encode, List.append_assoc, List.cons_append, List.cons_append, List.append_assoc,
    decodeEventRecord_of_header hS r.event_eq, decodeRawEvent, EventRecord.argBytes, hargs]
  simp only [Outcome.ok_bind, decodeWith, htopics, Outcome.ofExcept_ok, List.nil_append]
  rw [← r.recordEntries_eq]
  rfl

/-! ## A list of records -/

/-- The rounds of `decode_events`, one a record. -/
theorem decodeEventRecords_encode (hS : S.Lawful) (hD : DispatchLawful D) {fuel : Nat}
    (rest : Bytes) :
    ∀ (rs : List (EventRecord m)), (∀ r ∈ rs, r.depth < fuel) → ∀ records,
      forEach rs (fun _ => decodeEventRecord S D m fuel)
          ⟨rs.flatMap (EventRecord.encode S D) ++ rest, records⟩ =
        .ok ⟨rest, records ++ rs.flatMap (EventRecord.group S D)⟩
  | [], _, records => by
    rw [List.flatMap_nil, List.flatMap_nil, List.append_nil]
    rfl
  | r :: rs, hf, records => by
    rw [List.flatMap_cons, List.append_assoc, forEach_cons,
      decodeEventRecord_encode hS hD r (hf r List.mem_cons_self), Outcome.ok_bind,
      decodeEventRecords_encode hS hD rest rs fun q hq => hf q (List.mem_cons_of_mem r hq),
      List.flatMap_cons, List.append_assoc]

/-- The SCALE encoding of a list of records. -/
def encodeRecords (S : Scale) (D : Codec DispatchError) (rs : List (EventRecord m)) : Bytes :=
  (S .compactU32).encode (UInt32.ofNat rs.length) ++ rs.flatMap (EventRecord.encode S D)

/-- The depth of the deepest record. -/
def recordsDepth (rs : List (EventRecord m)) : Nat := (rs.map EventRecord.depth).foldr max ⊥

theorem depth_le_recordsDepth {rs : List (EventRecord m)} {r : EventRecord m} (h : r ∈ rs) :
    r.depth ≤ recordsDepth rs :=
  List.le_max_of_le (List.mem_map_of_mem h) le_rfl

/-- A list of records is read back, with any fuel above its depth. -/
theorem decodeEvents_encodeRecords (hS : S.Lawful) (hD : DispatchLawful D) {fuel : Nat}
    (rs : List (EventRecord m)) (hlen : rs.length < 2 ^ 32) (hf : recordsDepth rs < fuel)
    (rest : Bytes) :
    decodeEvents S D m fuel (encodeRecords S D rs ++ rest) =
      .ok (rs.flatMap (EventRecord.group S D), rest) := by
  have hcount := hS.decode_encode .compactU32 (UInt32.ofNat rs.length) trivial
    (rs.flatMap (EventRecord.encode S D) ++ rest)
  have hloop := decodeEventRecords_encode hS hD rest rs
    (fun r hr => Nat.lt_of_le_of_lt (depth_le_recordsDepth hr) hf) []
  have hrange : forEach (List.range rs.length) (fun _ => decodeEventRecord S D m fuel) =
      forEach rs (fun _ => decodeEventRecord S D m fuel) :=
    forEach_const _ List.length_range
  unfold decodeEvents encodeRecords
  rw [List.append_assoc, decodeWith, hcount, Outcome.ofExcept_ok, Outcome.ok_bind]
  simp only [UInt32.toNat_ofNat_of_lt' hlen, hrange, hloop, Outcome.ok_bind, List.nil_append]

/-- **A list of records is decoded record by record**, whatever follows it: the result is the groups
in record order, and what follows the list is left. -/
theorem decodeEvents_encode (hS : S.Lawful) (hD : DispatchLawful D) (m : Metadata)
    (rs : List (EventRecord m)) (hlen : rs.length < 2 ^ 32) :
    ∃ n₀, ∀ fuel ≥ n₀, ∀ rest,
      decodeEvents S D m fuel (encodeRecords S D rs ++ rest) =
        .ok (rs.flatMap (EventRecord.group S D), rest) :=
  ⟨recordsDepth rs + 1, fun _ hf rest => decodeEvents_encodeRecords hS hD rs hlen hf rest⟩

/-- A runtime with two events: one with a byte, and a failed extrinsic. -/
def twoEvents : Metadata where
  metadata := ⟨⟨[⟨[], .primitive .u8⟩, ⟨["sp_runtime", "DispatchError"], .variant []⟩]⟩, []⟩
  pallets := ∅
  calls := ∅
  events := .collect [
    ((0, 0), ⟨"System", "ExtrinsicFailed", ⟨"ExtrinsicFailed", [⟨1⟩, ⟨0⟩], 0, []⟩⟩),
    ((3, 1), ⟨"Game", "Rolled", ⟨"Rolled", [⟨0⟩], 1, []⟩⟩)]
  errors := ∅

/-- A failed extrinsic, for want of a permission. -/
def failedRecord : EventRecord twoEvents where
  phase := .applyExtrinsic 1
  palletIndex := 0
  variantIndex := 0
  args := [.dispatch .badOrigin .badOrigin, .value (.leaf .u8 9)]
  topics := []
  declared := ⟨"System", "ExtrinsicFailed", ⟨"ExtrinsicFailed", [⟨1⟩, ⟨0⟩], 0, []⟩⟩
  event_eq := by decide
  args_typed := by
    refine .cons ⟨⟨rfl, _, rfl, by decide⟩, .badOrigin⟩ (.cons ⟨?_, ?_⟩ .nil)
    · rintro ⟨-, ty, hty, hd⟩
      cases hty
      exact absurd hd (by decide)
    · exact .leaf (p := .u8) rfl rfl trivial
  topics_fit := by decide

/-- A roll of the die. -/
def rolledRecord : EventRecord twoEvents where
  phase := .finalization
  palletIndex := 3
  variantIndex := 1
  args := [.value (.leaf .u8 6)]
  topics := []
  declared := ⟨"Game", "Rolled", ⟨"Rolled", [⟨0⟩], 1, []⟩⟩
  event_eq := by decide
  args_typed := by
    refine .cons ⟨?_, ?_⟩ .nil
    · rintro ⟨h, -⟩
      exact absurd h (by decide)
    · exact .leaf (p := .u8) rfl rfl trivial
  topics_fit := by decide

/-- `decodeEvents_encode` on a failed extrinsic and an ordinary event. -/
theorem decodeEvents_encode_twoEvents :
    ∃ n₀, ∀ fuel ≥ n₀, ∀ rest,
      decodeEvents Scale.reference dispatchReference twoEvents fuel
          ([8, 0, 1, 0, 0, 0, 0, 0, 2, 9, 0, 1, 3, 1, 6, 0] ++ rest) =
        .ok ([(.applyExtrinsic 1, .error .badOrigin),
          (.finalization, .event ⟨"Game", 3, "Rolled", 1, [6]⟩)], rest) :=
  decodeEvents_encode Scale.reference_lawful dispatchReference_lawful twoEvents
    [failedRecord, rolledRecord] (by decide)

end SubstrateClient.Node
