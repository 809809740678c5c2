import SubstrateClient.Lib.Fuel
import SubstrateClient.Node.Dispatch
import SubstrateClient.Node.Steps

/-!
# The decoder copies what it reads

Whatever `decode_type` or `decode_raw_event` takes off the input on success, it appends to the
output, byte for byte (`decode_copies`). Only the canonicity of the codecs is used: decoding a value
and encoding it again gives back the bytes consumed.

`decodeType_le`: more fuel changes nothing but an outcome that ran out of it.
-/

namespace SubstrateClient.Node

open SubstrateClient.Lib

variable {S : Scale} {reg : PortableRegistry}

theorem decodeType_copies (hS : ∀ l, (S l).Canonical) (fuel : Nat) (id : TypeId) :
    Copies (decodeType S reg fuel id) :=
  decodeType_class copies_class hS fuel id

/-- The cursor `t` is reached from `s` by copying input to output. -/
def CopiedTo (s t : Cursor UInt8) : Prop :=
  ∃ w, s.input = w ++ t.input ∧ t.output = s.output ++ w

theorem CopiedTo.refl (s : Cursor UInt8) : CopiedTo s s := ⟨[], rfl, (List.append_nil _).symm⟩

theorem CopiedTo.trans {s t u : Cursor UInt8} (hst : CopiedTo s t) (htu : CopiedTo t u) :
    CopiedTo s u := by
  obtain ⟨v, hvi, hvo⟩ := hst
  obtain ⟨w, hwi, hwo⟩ := htu
  exact ⟨v ++ w, by rw [hvi, hwi, List.append_assoc], by rw [hwo, hvo, List.append_assoc]⟩

variable {D : Codec DispatchError} {m : Metadata} {fuel : Nat} {em : EventMetadata}

/-- One field of an event is copied, on either path. -/
theorem decodeEventField_copied (hS : ∀ l, (S l).Canonical) (hD : D.Canonical) (arg : Field)
    {s s' : EventState} (h : decodeEventField S D m fuel em arg s = .ok s') :
    CopiedTo s.cursor s'.cursor := by
  have value : ∀ {s'}, decodeEventValue S m fuel arg.ty s = .ok s' →
      CopiedTo s.cursor s'.cursor := by
    intro s' h
    obtain ⟨c, hc, hs'⟩ := Outcome.bind_eq_ok.mp h
    cases hs'
    exact (decodeType_copies hS fuel arg.ty).split hc
  unfold decodeEventField at h
  split at h
  · obtain ⟨ty, -, h⟩ := Outcome.bind_eq_ok.mp h
    split at h
    · obtain ⟨⟨e, c⟩, hc, h⟩ := Outcome.bind_eq_ok.mp h
      obtain ⟨re, -, h⟩ := Outcome.bind_eq_ok.mp h
      cases h
      obtain ⟨hd, ho⟩ := transcribe_eq_ok.mp hc
      exact ⟨D.encode e, hD _ _ _ hd, ho⟩
    · exact value h
  · exact value h

/-- **The decoder copies what it reads**: on success the input splits into the bytes consumed and
the bytes left, and exactly the bytes consumed are appended to the output. -/
theorem decode_copies (hS : ∀ l, (S l).Canonical) (hD : D.Canonical) :
    (∀ reg fuel id (s s' : Cursor UInt8), decodeType S reg fuel id s = .ok s' →
      ∃ consumed, s.input = consumed ++ s'.input ∧ s'.output = s.output ++ consumed) ∧
    (∀ m fuel em (s s' : EventState), decodeRawEvent S D m fuel em s = .ok s' →
      ∃ consumed, s.cursor.input = consumed ++ s'.cursor.input ∧
        s'.cursor.output = s.cursor.output ++ consumed) := by
  constructor
  · intro reg fuel id s s' h
    exact (decodeType_copies hS fuel id).split h
  · intro m fuel em s s' h
    exact forEach_rel (R := fun s t : EventState => CopiedTo s.cursor t.cursor)
      (fun s => CopiedTo.refl s.cursor) (fun _ _ _ => CopiedTo.trans)
      (fun arg _ s s' => decodeEventField_copied hS hD arg) h

/-- `decode_copies` on a tuple of two bytes, and on a dispatch error of a failed extrinsic. -/
theorem decode_copies_tuple_and_dispatch :
    (∃ consumed : Bytes, [7, 8, 9] = consumed ++ [9] ∧ [7, 8] = [] ++ consumed) ∧
      ∃ consumed : Bytes, [2, 5] = consumed ++ [5] ∧ [2] = [] ++ consumed := by
  have h := decode_copies Scale.reference_lawful.encode_decode
    dispatchReference_lawful.encode_decode
  constructor
  · exact h.1 ⟨[⟨[], .tuple [1, 1]⟩, ⟨[], .primitive .u8⟩]⟩ 2 0 ⟨[7, 8, 9], []⟩ ⟨[9], [7, 8]⟩
      (by decide)
  · exact h.2 ⟨⟨⟨[⟨["sp_runtime", "DispatchError"], .variant []⟩]⟩, []⟩, ∅, ∅, ∅, ∅⟩ 0
      ⟨"System", "ExtrinsicFailed", ⟨"ExtrinsicFailed", [⟨0⟩], 1, []⟩⟩
      ⟨⟨[2, 5], []⟩, []⟩ ⟨⟨[5], [2]⟩, [.badOrigin]⟩ (by decide)

/-! ## More fuel -/

theorem decodeVariant_le {rec rec' : TypeId → DecodeStep} (h : ∀ id s, (rec id s).Le (rec' id s))
    (vs : List Variant) (s : Cursor UInt8) :
    (decodeVariant S rec vs s).Le (decodeVariant S rec' vs s) :=
  (Outcome.Le.refl _).bind fun _ => (Outcome.Le.refl _).bind fun _ =>
    forEach_le (fun _ _ => h _) _

theorem decodeTypeBody_le {rec rec' : TypeId → DecodeStep}
    (h : ∀ id s, (rec id s).Le (rec' id s)) (id : TypeId) (s : Cursor UInt8) :
    (decodeTypeBody S reg rec id s).Le (decodeTypeBody S reg rec' id s) := by
  refine (Outcome.Le.refl _).bind fun ty => ?_
  obtain ⟨path, d⟩ := ty
  cases d with
  | composite fields => exact forEach_le (fun _ _ => h _) s
  | variant vs => exact decodeVariant_le h vs s
  | sequence id' =>
    exact (Outcome.Le.refl _).bind fun _ => forEach_le (fun _ _ => h _) _
  | array len id' => exact forEach_le (fun _ _ => h _) s
  | tuple ids => exact forEach_le (fun _ _ => h _) s
  | _ => exact Outcome.Le.refl _

/-- **More fuel changes nothing but an outcome that ran out of it.** -/
theorem decodeType_le : ∀ {fuel fuel' : Nat}, fuel ≤ fuel' → ∀ (id : TypeId) (s : Cursor UInt8),
    (decodeType S reg fuel id s).Le (decodeType S reg fuel' id s)
  | 0, _, _, _, _ => Or.inl rfl
  | _ + 1, _ + 1, h, id, s =>
    decodeTypeBody_le (fun id s => decodeType_le (Nat.le_of_succ_le_succ h) id s) id s

theorem decodeType_mono (S : Scale) (reg : PortableRegistry) (id : TypeId) :
    Fueled.Mono fun n => decodeType S reg n id :=
  fun _ _ hle s => decodeType_le hle id s

end SubstrateClient.Node
