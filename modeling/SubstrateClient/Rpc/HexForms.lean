import SubstrateClient.Primitives.Extrinsic
import SubstrateClient.Rpc.Json

/-!
# The forms of a byte string (`src/utils.rs`, `primitives/src/extrinsics.rs`)

A byte string comes as its digits, in either case, with `0x` in front or not, and with the quotes of
a JSON string around it or not. `from_hex` takes the quotes and the `0x` off by trimming, which
repeats; no digit is taken off with them, whatever the bytes are.

* `fromHex_forms`: every form of a byte string is read back, as a hash when there are 32 bytes; the
  quoted form is the text `serde_json` gives a string; and what `hex_encode` writes of an extrinsic
  is read back as its encoding.
-/

namespace SubstrateClient.Rpc

open SubstrateClient.Lib SubstrateClient.Utils SubstrateClient.Primitives

/-- The text is a form of the byte string. -/
inductive HexForm (v : Bytes) : String → Prop where
  | mk (zeroX quoted : Bool) {digits : List Char} (h : SpellsHex digits v) :
    HexForm v (String.ofList (wrap zeroX quoted digits))

variable {H : Hex}

/-- The text of a JSON string is the form with quotes. -/
theorem toString_form {J : Serde} (hJ : J.Texts) (zeroX : Bool) {digits : List Char} {v : Bytes}
    (h : SpellsHex digits v) :
    J.toString (.str (String.ofList (wrap zeroX false digits))) =
      String.ofList (wrap zeroX true digits) := by
  rw [hJ.str, strChars_wrap zeroX h.isHexDigit]

/-- **An extrinsic is read back from the text that is sent of it.** -/
theorem fromHex_hexEncode (hH : H.Lawful) {S : Scale} {R : Runtime} {Call : Type}
    {call : Codec Call} {size : Nat} {x : UncheckedExtrinsicV4 Call} {bytes : Bytes}
    (h : x.encode S R call size = .ok bytes) :
    ∃ text, x.hexEncode S R call H size = .ok text ∧ fromHex H text = .ok bytes := by
  refine ⟨"0x" ++ H.encode bytes, ?_, ?_⟩
  · rw [UncheckedExtrinsicV4.hexEncode, h, Outcome.ok_bind]
  · rw [zeroX_append, fromHex_wrapped hH]

/-- **Every form of a byte string is read back**, whatever the bytes are. -/
theorem fromHex_forms (hH : H.Lawful) (hD : H.ReadsDigits) :
    (∀ v text, HexForm v text → fromHex H text = .ok v ∧
      ((∃ h, hashFromHex H text = .ok h) ↔ v.length = 32) ∧
      ∀ h, hashFromHex H text = .ok h → h.bytes = v) ∧
    (∀ J : Serde, J.Texts → ∀ zeroX digits v, SpellsHex digits v →
      J.toString (.str (String.ofList (wrap zeroX false digits))) =
        String.ofList (wrap zeroX true digits)) ∧
    ∀ S R (Call : Type) (call : Codec Call) size (x : UncheckedExtrinsicV4 Call) bytes,
      x.encode S R call size = .ok bytes →
        ∃ text, x.hexEncode S R call H size = .ok text ∧ fromHex H text = .ok bytes := by
  refine ⟨?_, fun J hJ zeroX digits v h => toString_form hJ zeroX h,
    fun S R Call call size x bytes h => fromHex_hexEncode hH h⟩
  rintro v _ ⟨zeroX, quoted, h⟩
  have hread := fromHex_spells hD zeroX quoted h
  have hhash := hashFromHex_of_fromHex hread
  refine ⟨hread, ⟨?_, fun hlen => ?_⟩, fun hash h => (hhash hash).mp h⟩
  · rintro ⟨hash, h⟩
    rw [← (hhash hash).mp h]
    exact hash.size
  · exact ⟨⟨v, hlen⟩, (hhash ⟨v, hlen⟩).mpr rfl⟩

/-- `fromHex_forms` on three bytes in mixed case, on none and on too few for a hash, on a JSON
string, and on an unsigned extrinsic. -/
theorem fromHex_forms_mixed :
    fromHex Hex.reference "\"0x00fFA0\"" = .ok [0, 255, 160] ∧
    fromHex Hex.reference "\"\"" = .ok [] ∧
    (¬ ∃ h, hashFromHex Hex.reference "0x00fFA0" = .ok h) ∧
    (Serde.ofTexts []).toString (.str "0x00fFA0") = "\"0x00fFA0\"" ∧
    ∃ text, UncheckedExtrinsicV4.hexEncode Scale.reference Runtime.reference Scale.byte
        Hex.reference 200 ⟨none, 7⟩ = .ok text ∧ fromHex Hex.reference text = .ok [8, 4, 7] := by
  obtain ⟨hforms, hjson, hxt⟩ :=
    fromHex_forms Hex.reference_lawful Hex.reference_exact.readsDigits
  have hdigits : SpellsHex ['0', '0', 'f', 'F', 'A', '0'] [0, 255, 160] := by
    simp only [SpellsHex]
    decide
  have hthree := fun zeroX quoted => hforms [0, 255, 160] _ (.mk zeroX quoted hdigits)
  have hnone := hforms [] _ (@HexForm.mk [] false true [] trivial)
  refine ⟨(hthree true true).1, hnone.1, fun h => ?_, ?_, ?_⟩
  · exact absurd ((hthree true false).2.1.mp h) (by decide)
  · exact hjson _ (Serde.ofTexts_texts (by simp)) true _ _ hdigits
  · exact hxt _ _ _ _ _ _ _ (by decide)

end SubstrateClient.Rpc
