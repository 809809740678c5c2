import SubstrateClient.Lib.Delimits
import SubstrateClient.Node.EventPanics

/-!
# The decoder ends where the value ends

`decode_type` neither reads past a value nor stops short of it (`decodeType_delimits`): what it took
off the input it takes off every input that begins with it, with the same output, and it fails on
every proper prefix. So the encodings a type accepts are prefix-free. All that is used of
`parity-scale-codec` is that its decoders do so (`Scale.Delimits`); the induction over runs on two
inputs is that of `delimits_class`.

So do `decode_events` and `decode_call` (`decode_delimits`): a list of records, or a call, that breaks
off is an error, whatever the metadata.
-/

namespace SubstrateClient

open SubstrateClient.Lib

/-- What the client relies on: every decoder ends where the value ends. -/
def Scale.Delimits (S : Scale) : Prop := ∀ l : Leaf, (S l).Delimits

theorem Scale.Lawful.delimits {S : Scale} (hS : S.Lawful) : S.Delimits :=
  fun l => Codec.delimits (hS.decode_encode l) (hS.decode_fits l) (hS.encode_decode l)

namespace Node

/-- And so does that of a dispatch error. -/
theorem DispatchLawful.delimits {D : Codec DispatchError} (hD : DispatchLawful D) : D.Delimits := by
  refine Codec.delimits (P := fun e => e.wire = e) (fun e he rest => ?_)
    (fun _ _ _ => hD.wire_of_decode) hD.encode_decode
  rw [hD.decode_encode, he]

variable {S : Scale} {reg : PortableRegistry}

/-- The accepted encodings of a type: `decode_type` reads them to their end. -/
def AcceptsType (S : Scale) (reg : PortableRegistry) (id : TypeId) (w : Bytes) : Prop :=
  ∃ fuel out s, decodeType S reg fuel id ⟨w, out⟩ = .ok s ∧ s.input = []

theorem decodeType_delimitsAt (hS : S.Delimits) (fuel : Nat) (id : TypeId) :
    Delimits (decodeType S reg fuel id) :=
  decodeType_class delimits_class hS fuel id

/-- **`decode_type` ends where the value ends**: with the bytes it consumed in front of any others
it appends the same and leaves the others, and on every proper prefix of them it fails. The
encodings a type accepts are prefix-free. -/
theorem decodeType_delimits (hS : S.Delimits) (reg : PortableRegistry) (id : TypeId) :
    (∀ fuel s s', decodeType S reg fuel id s = .ok s' → ∃ c v, s.input = c ++ s'.input ∧
      s'.output = s.output ++ v ∧ ∀ fuel' ≥ fuel,
        (∀ t out, decodeType S reg fuel' id ⟨c ++ t, out⟩ = .ok ⟨t, out ++ v⟩) ∧
        ∀ p out, p <+: c → p ≠ c → ∃ e, decodeType S reg fuel' id ⟨p, out⟩ = .err e) ∧
    ∀ w w', AcceptsType S reg id w → AcceptsType S reg id w' → w <+: w' → w = w' := by
  constructor
  · intro fuel s s' h
    obtain ⟨c, v, hc, hv, hfull, hpart⟩ := decodeType_delimitsAt hS fuel id s s' h
    refine ⟨c, v, hc, hv, fun fuel' hle => ⟨fun t out => ?_, fun p out hp hne => ?_⟩⟩
    · exact (decodeType_mono S reg id).stable hle (hfull t out) nofun
    · obtain ⟨e, he⟩ := hpart p out hp hne
      exact ⟨e, (decodeType_mono S reg id).stable hle he nofun⟩
  · rintro w w' ⟨fuel, out, s, h, -⟩ ⟨fuel', out', s', h', hs'⟩ hp
    -- both runs at the larger of the two fuels
    have hmono := decodeType_mono S reg id
    have hmax := hmono.stable (Nat.le_max_left fuel fuel') h nofun
    have hmax' := hmono.stable (Nat.le_max_right fuel fuel') h' nofun
    exact (decodeType_delimitsAt hS _ id).prefixFree hmax hmax' hs' hp

/-- `decodeType_delimits` on a list of one byte: the list is read in front of anything, and its
first two bytes are not. -/
theorem decodeType_delimits_list :
    decodeType Scale.reference listRegistry 3 0 ⟨[1, 7, 0, 5, 6], [4]⟩ =
      .ok ⟨[5, 6], [4, 1, 7, 0]⟩ ∧
    ∃ e, decodeType Scale.reference listRegistry 3 0 ⟨[1, 7], []⟩ = .err e := by
  obtain ⟨c, v, hc, hv, hall⟩ :=
    (decodeType_delimits Scale.reference_lawful.delimits listRegistry 0).1 3 ⟨[1, 7, 0, 9], []⟩
      ⟨[9], [1, 7, 0]⟩ (by decide)
  obtain rfl : [1, 7, 0] = c := List.append_cancel_right hc
  obtain rfl : [1, 7, 0] = v := hv
  obtain ⟨hfull, hpart⟩ := hall 3 le_rfl
  exact ⟨hfull [5, 6] [4], hpart [1, 7] [] (by decide) (by decide)⟩

/-! ## Records and calls -/

instance : HasInput EventState UInt8 where
  input s := s.cursor.input
  put s t := ⟨⟨t, s.cursor.output⟩, s.errors⟩
  input_put _ _ := rfl
  put_put _ _ _ := rfl
  put_input _ := rfl

instance : HasInput RecordState UInt8 where
  input := RecordState.input
  put s t := ⟨t, s.records⟩
  input_put _ _ := rfl
  put_put _ _ _ := rfl
  put_input _ := rfl

open HasInput

variable {D : Codec DispatchError} {m : Metadata} {fuel : Nat}

theorem readByte_delimited : Delimited readByte := by
  rintro (_ | ⟨b, bs⟩) s hs
  · cases hs
  · cases hs
    refine ⟨[b], rfl, fun t => rfl, fun p hp hne => ?_⟩
    cases p with
    | nil => exact ⟨_, rfl⟩
    | cons c cs =>
      obtain ⟨rfl, hcs⟩ := List.cons_prefix_cons.mp hp
      exact absurd (by rw [List.prefix_nil.mp hcs]) hne

theorem Phase.decode_delimited (hS : S.Delimits) : Delimited (Phase.decode S) := by
  refine readByte_delimited.bind fun r => ?_
  obtain ⟨b, input⟩ := r
  dsimp only [HasInput.put]
  split
  · exact (Delimited.decode _ (hS .u32)).bind fun r => Delimited.ok (Phase.applyExtrinsic r.1, r.2)
  · exact Delimited.ok (Phase.finalization, input)
  · exact Delimited.ok (Phase.initialization, input)
  · exact fun _ _ hs => by cases hs

/-- One field of an event, on either path. -/
theorem decodeEventField_delimited (hS : S.Delimits) (hD : D.Delimits) (em : EventMetadata)
    (field : Field) (s : EventState) :
    Delimited fun bs => decodeEventField S D m fuel em field (put s bs) := by
  have hvalue : Delimited fun bs => decodeEventValue S m fuel field.ty (put s bs) := by
    show Delimited fun bs => decodeType S m.metadata.types fuel field.ty (put s.cursor bs) >>=
      fun c => .ok (⟨c, s.errors⟩ : EventState)
    exact (Delimited.step (decodeType_delimitsAt hS fuel field.ty) s.cursor).bind fun c =>
      Delimited.ok (⟨c, s.errors⟩ : EventState)
  have hdispatch : Delimited fun bs => decodeDispatchError D m (put s bs) := by
    show Delimited fun bs => (decodeWith D bs >>= fun r =>
      .ok (r.1, (⟨r.2, s.cursor.output ++ D.encode r.1⟩ : Cursor UInt8))) >>= fun r =>
        RuntimeError.fromDispatch m r.1 >>= fun re =>
          .ok (⟨r.2, s.errors ++ [re]⟩ : EventState)
    refine Delimited.bind ((Delimited.decode _ hD).bind fun r =>
      Delimited.ok (r.1, (⟨r.2, s.cursor.output ++ D.encode r.1⟩ : Cursor UInt8))) fun r => ?_
    dsimp only [HasInput.put]
    exact Delimited.lookup fun re => Delimited.ok (⟨r.2, s.errors ++ [re]⟩ : EventState)
  unfold decodeEventField
  split
  · refine Delimited.lookup fun ty => ?_
    split
    · exact hdispatch
    · exact hvalue
  · exact hvalue

theorem decodeEventRecord_delimited (hS : S.Delimits) (hD : D.Delimits) (s : RecordState) :
    Delimited fun bs => decodeEventRecord S D m fuel (put s bs) := by
  unfold decodeEventRecord
  dsimp only [HasInput.put]
  refine (Phase.decode_delimited hS).bind fun r => ?_
  dsimp only [HasInput.put]
  refine readByte_delimited.bind fun p => ?_
  dsimp only [HasInput.put]
  refine readByte_delimited.bind fun b => ?_
  dsimp only [HasInput.put]
  refine Delimited.lookup fun em => ?_
  refine (Delimited.forEach (fun field _ s => decodeEventField_delimited hS hD em field s)
    (⟨⟨b.2, []⟩, []⟩ : EventState)).bind fun es => ?_
  dsimp only [HasInput.put]
  exact (Delimited.decode _ (hS .vecHash)).bind fun topics => Delimited.ok (⟨topics.2, s.records ++
    recordEntries r.1 (.event ⟨em.pallet, p.1, em.event, b.1, es.cursor.output⟩) es.errors⟩ :
      RecordState)

theorem decodeEvents_delimited (hS : S.Delimits) (hD : D.Delimits) :
    Delimited (decodeEvents S D m fuel) := by
  refine (Delimited.decode _ (hS .compactU32)).bind fun r => ?_
  refine (Delimited.forEach (fun _ _ s => decodeEventRecord_delimited hS hD s)
    (⟨r.2, []⟩ : RecordState)).bind fun s => ?_
  exact Delimited.ok (s.records, s.input)

theorem decodeCall_delimited (hS : S.Delimits) : Delimited (decodeCall S m fuel) := by
  refine readByte_delimited.bind fun p => ?_
  dsimp only [HasInput.put]
  refine readByte_delimited.bind fun b => ?_
  dsimp only [HasInput.put]
  refine Delimited.lookup fun c => ?_
  refine (Delimited.forEach (fun field _ s =>
    Delimited.step (decodeType_delimitsAt hS fuel (Field.ty field)) s)
      (⟨b.2, []⟩ : Cursor UInt8)).bind fun s => ?_
  exact Delimited.ok s.input

/-- **Lists of records and calls end where they end**: the bytes that `decode_events` or
`decode_call` consumed are read alike in front of any others, and a list or a call that breaks off
is an error. -/
theorem decode_delimits (hS : S.Delimits) (hD : D.Delimits) (m : Metadata) :
    (∀ fuel input out rest, decodeEvents S D m fuel input = .ok (out, rest) →
      ∃ c, input = c ++ rest ∧ ∀ fuel' ≥ fuel,
        (∀ t, decodeEvents S D m fuel' (c ++ t) = .ok (out, t)) ∧
        ∀ p, p <+: c → p ≠ c → ∃ e, decodeEvents S D m fuel' p = .err e) ∧
    ∀ fuel input rest, decodeCall S m fuel input = .ok rest →
      ∃ c, input = c ++ rest ∧ ∀ fuel' ≥ fuel,
        (∀ t, decodeCall S m fuel' (c ++ t) = .ok t) ∧
        ∀ p, p <+: c → p ≠ c → ∃ e, decodeCall S m fuel' p = .err e := by
  constructor
  · intro fuel input out rest h
    obtain ⟨c, hc, hfull, hpart⟩ := decodeEvents_delimited hS hD _ _ h
    refine ⟨c, hc, fun fuel' hle => ⟨fun t => ?_, fun p hp hne => ?_⟩⟩
    · exact (decodeEvents_mono S D m).stable hle (hfull t) nofun
    · obtain ⟨e, he⟩ := hpart p hp hne
      exact ⟨e, (decodeEvents_mono S D m).stable hle he nofun⟩
  · intro fuel input rest h
    obtain ⟨c, hc, hfull, hpart⟩ := decodeCall_delimited hS _ _ h
    refine ⟨c, hc, fun fuel' hle => ⟨fun t => ?_, fun p hp hne => ?_⟩⟩
    · exact (decodeCall_mono S m).stable hle (hfull t) nofun
    · obtain ⟨e, he⟩ := hpart p hp hne
      exact ⟨e, (decodeCall_mono S m).stable hle he nofun⟩

/-- `decode_delimits` on two records, without their last byte and in front of another. -/
theorem decode_delimits_twoRecords :
    (∃ e, decodeEvents Scale.reference dispatchReference twoEvents 2
      [8, 0, 1, 0, 0, 0, 0, 0, 2, 9, 0, 1, 3, 1, 6] = .err e) ∧
    decodeEvents Scale.reference dispatchReference twoEvents 2
        [8, 0, 1, 0, 0, 0, 0, 0, 2, 9, 0, 1, 3, 1, 6, 0, 7] =
      .ok ([(.applyExtrinsic 1, .error .badOrigin),
        (.finalization, .event ⟨"Game", 3, "Rolled", 1, [6]⟩)], [7]) := by
  obtain ⟨c, hc, hall⟩ := (decode_delimits Scale.reference_lawful.delimits
    dispatchReference_lawful.delimits twoEvents).1 2
    [8, 0, 1, 0, 0, 0, 0, 0, 2, 9, 0, 1, 3, 1, 6, 0] _ [] rfl
  obtain rfl := hc.trans (List.append_nil c)
  obtain ⟨hfull, hpart⟩ := hall 2 le_rfl
  exact ⟨hpart _ ⟨[0], rfl⟩ (by decide), hfull [7]⟩

end Node

end SubstrateClient
