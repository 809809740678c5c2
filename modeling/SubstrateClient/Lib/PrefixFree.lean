import Mathlib.Data.List.Basic
import Mathlib.Logic.Function.Basic
import SubstrateClient.Lib.Codec

/-!
# Encodings in a row, without separators

Where values are written one after the other with nothing between them, a row can be taken apart
from the front when no encoding continues another (`PrefixFree`): of two rows, one beginning the
other, the first parts agree and the rest of one begins the rest of the other
(`PrefixFree.split`).

Encodings of one length are prefix-free (`PrefixFree.of_length`). Writing a part of a fixed length
before each encoding (`tagged`) keeps the property, whatever the part is: a hash that collides takes
nothing away from the encoding that follows it.

An encoding that is prefix-free and injective is `SelfDelimiting`: a row tells the value it begins
with. So does a codec that round-trips, and rows of self-delimiting encodings are self-delimiting
(`SelfDelimiting.append`).
-/

namespace SubstrateClient.Lib

/-- No encoding is a proper prefix of another. -/
def PrefixFree {α β : Type} (encode : α → List β) : Prop :=
  ∀ a b, encode a <+: encode b → encode a = encode b

section PrefixFree

variable {α β : Type} {encode : α → List β}

/-- Two rows of which one begins the other begin alike. -/
theorem PrefixFree.split (h : PrefixFree encode) {a b : α} {x y : List β}
    (hp : encode a ++ x <+: encode b ++ y) : encode a = encode b ∧ x <+: y := by
  have hab : encode a = encode b := by
    have ha : encode a <+: encode b ++ y := (List.prefix_append _ x).trans hp
    rcases List.prefix_or_prefix_of_prefix ha (List.prefix_append _ y) with h1 | h1
    · exact h a b h1
    · exact (h b a h1).symm
  rw [hab] at hp
  exact ⟨hab, (List.prefix_append_right_inj _).mp hp⟩

/-- Two equal rows have equal parts. -/
theorem PrefixFree.split_eq (h : PrefixFree encode) {a b : α} {x y : List β}
    (he : encode a ++ x = encode b ++ y) : encode a = encode b ∧ x = y := by
  have hp : encode a ++ x <+: encode b ++ y := he ▸ List.prefix_rfl
  obtain ⟨hab, -⟩ := h.split hp
  rw [hab] at he
  exact ⟨hab, List.append_cancel_left he⟩

theorem PrefixFree.of_length {n : Nat} (h : ∀ a, (encode a).length = n) : PrefixFree encode :=
  fun a b hp => hp.eq_of_length ((h a).trans (h b).symm)

/-- A part computed from the encoding, and the encoding. -/
def tagged (tag : List β → List β) (encode : α → List β) (a : α) : List β :=
  tag (encode a) ++ encode a

/-- The part before the encoding can be cut off, for it has one length. -/
theorem prefix_of_tagged {tag : List β → List β} {n : Nat} (hn : ∀ bs, (tag bs).length = n)
    {a b : α} (hp : tagged tag encode a <+: tagged tag encode b) : encode a <+: encode b := by
  have htags : PrefixFree fun c => tag (encode c) := PrefixFree.of_length fun c => hn (encode c)
  exact (htags.split hp).2

theorem PrefixFree.tagged (h : PrefixFree encode) {tag : List β → List β} {n : Nat}
    (hn : ∀ bs, (tag bs).length = n) : PrefixFree (tagged tag encode) := by
  intro a b hp
  unfold Lib.tagged
  rw [h a b (prefix_of_tagged hn hp)]

theorem tagged_injective (h : Function.Injective encode) {tag : List β → List β} {n : Nat}
    (hn : ∀ bs, (tag bs).length = n) : Function.Injective (tagged tag encode) := by
  intro a b he
  have htags : PrefixFree fun c => tag (encode c) := PrefixFree.of_length fun c => hn (encode c)
  exact h (htags.split_eq he).2

end PrefixFree

/-- Of two equal rows, the values they begin with are equal, and so is what follows. -/
def SelfDelimiting {α β : Type} (P : α → Prop) (encode : α → List β) : Prop :=
  ∀ a b x y, P a → P b → encode a ++ x = encode b ++ y → a = b ∧ x = y

section SelfDelimiting

variable {α β γ δ : Type} {P : α → Prop} {encode : α → List β}

theorem PrefixFree.selfDelimiting (h : PrefixFree encode) (hinj : Function.Injective encode)
    (P : α → Prop) : SelfDelimiting P encode := by
  intro a b x y _ _ he
  obtain ⟨hab, hxy⟩ := h.split_eq he
  exact ⟨hinj hab, hxy⟩

/-- A decoder tells the value and what follows it. -/
theorem Codec.selfDelimiting {c : Codec α} (h : ∀ v, P v → c.RoundTripsAt v) :
    SelfDelimiting P c.encode := by
  intro a b x y ha hb he
  have hd := h a ha x
  rw [he, h b hb y] at hd
  obtain ⟨rfl, rfl⟩ := Prod.mk.inj (Except.ok.inj hd)
  exact ⟨rfl, rfl⟩

theorem Codec.RoundTrips.injective {c : Codec α} (h : c.RoundTrips) :
    Function.Injective c.encode := by
  intro a b he
  have hd := (h a).decode_encode
  rw [he, (h b).decode_encode] at hd
  exact (Prod.mk.inj (Except.ok.inj hd)).1.symm

/-- A codec that round-trips splits its encodings off. -/
theorem Codec.RoundTrips.prefixFree {c : Codec α} (h : c.RoundTrips) : PrefixFree c.encode := by
  rintro a b ⟨t, ht⟩
  have hd := h a t
  rw [ht, (h b).decode_encode] at hd
  rw [(Prod.mk.inj (Except.ok.inj hd)).1]

/-- One value after the other. -/
theorem SelfDelimiting.append {Q : γ → Prop} {encode' : γ → List β} (h : SelfDelimiting P encode)
    (h' : SelfDelimiting Q encode') :
    SelfDelimiting (fun v : α × γ => P v.1 ∧ Q v.2) fun v => encode v.1 ++ encode' v.2 := by
  rintro ⟨a, c⟩ ⟨b, d⟩ x y ⟨ha, hc⟩ ⟨hb, hd⟩ he
  simp only [List.append_assoc] at he
  obtain ⟨rfl, he'⟩ := h a b _ _ ha hb he
  obtain ⟨rfl, hxy⟩ := h' c d _ _ hc hd he'
  exact ⟨rfl, hxy⟩

/-- Another form of the values, when none is lost. -/
theorem SelfDelimiting.comap {form : δ → α} (h : SelfDelimiting P encode)
    (hform : Function.Injective form) :
    SelfDelimiting (fun v => P (form v)) fun v => encode (form v) := by
  intro a b x y ha hb he
  obtain ⟨hab, hxy⟩ := h _ _ _ _ ha hb he
  exact ⟨hform hab, hxy⟩

/-- No two values are written alike. -/
theorem SelfDelimiting.eq_of_encode (h : SelfDelimiting P encode) {a b : α} (ha : P a) (hb : P b)
    (he : encode a = encode b) : a = b :=
  (h a b [] [] ha hb (congrArg (· ++ []) he)).1

end SelfDelimiting

end SubstrateClient.Lib
