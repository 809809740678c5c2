import SubstrateClient.Lib.PrefixFree
import SubstrateClient.Primitives.Compose

/-!
# What a signature binds

The signer of a payload sees bytes: the call, the extra and the fields that are not sent, one after
the other and without separators, or their hash when they are more than 256. `usingEncoded_binds`:
two payloads whose signers see the same bytes are equal, or their encodings are a collision of the
hash.

Every part is self-delimiting, so the parts can be told apart (`SignedPayload.encode_injective`),
and the two hashes alone are longer than a hash of the payload, so no payload signed as it is looks
like the hash of another (`SignedPayload.lt_length_encode`).
-/

namespace SubstrateClient.Primitives

open SubstrateClient.Lib

/-- Two messages of one hash. -/
def Collision (hash : Bytes → Bytes) (x y : Bytes) : Prop := x ≠ y ∧ hash x = hash y

section Parts

variable {S : Scale} {R : Runtime}

theorem GenericExtra.selfDelimiting (hS : S.Lawful) (hR : R.Lawful) :
    SelfDelimiting (fun extra => R.Built extra.era) (GenericExtra.codec S R).encode :=
  Codec.selfDelimiting fun _ h => GenericExtra.roundTripsAt hS hR h

/-- The fields that are not sent, one after the other. -/
theorem additionalSigned_selfDelimiting (hS : S.Lawful) :
    SelfDelimiting (fun _ : AdditionalSigned => ((True ∧ True) ∧ True) ∧ True) fun v =>
      (S .u32).encode v.1 ++ (S .u32).encode v.2.1 ++ (S .hash).encode v.2.2.1 ++
        (S .hash).encode v.2.2.2.1 := by
  have hword : SelfDelimiting (fun _ => True) (S .u32).encode :=
    Codec.selfDelimiting fun v _ => hS.decode_encode .u32 v trivial
  have hhash : SelfDelimiting (fun _ => True) (S .hash).encode :=
    Codec.selfDelimiting fun v _ => hS.decode_encode .hash v trivial
  have hform : Function.Injective fun v : AdditionalSigned =>
      (((v.1, v.2.1), v.2.2.1), v.2.2.2.1) := by
    rintro ⟨_, _, _, _, ⟨⟩, ⟨⟩, ⟨⟩⟩ ⟨_, _, _, _, ⟨⟩, ⟨⟩, ⟨⟩⟩ h
    cases h
    rfl
  exact (((hword.append hword).append hhash).append hhash).comap hform

end Parts

namespace SignedPayload

variable {S : Scale} {R : Runtime} {Call : Type} {call : Codec Call} {p q : SignedPayload Call}

/-- The parts of a payload. -/
def parts (p : SignedPayload Call) : (Call × GenericExtra) × AdditionalSigned :=
  ((p.call, p.extra), p.additionalSigned)

theorem parts_injective : Function.Injective (parts : SignedPayload Call → _) := by
  rintro ⟨call, extra, additional⟩ ⟨call', extra', additional'⟩ h
  obtain ⟨hce, rfl⟩ := Prod.mk.inj h
  obtain ⟨rfl, rfl⟩ := Prod.mk.inj hce
  rfl

/-- **The bytes of a payload tell its call, its extra and the fields that are not sent.** -/
theorem encode_injective (hS : S.Lawful) (hR : R.Lawful)
    (hcall : Function.Injective call.encode) (hfree : PrefixFree call.encode)
    (hp : R.Built p.extra.era) (hq : R.Built q.extra.era)
    (h : p.encode S R call = q.encode S R call) : p = q := by
  have hall := (((hfree.selfDelimiting hcall fun _ => True).append
    (GenericExtra.selfDelimiting hS hR)).append (additionalSigned_selfDelimiting hS)).comap
    parts_injective
  have hfields : ((True ∧ True) ∧ True) ∧ True := by simp
  exact hall.eq_of_encode ⟨⟨trivial, hp⟩, hfields⟩ ⟨⟨trivial, hq⟩, hfields⟩ h

/-- A payload is longer than a hash: it ends in two. -/
theorem lt_length_encode (hL : S.Layout) (p : SignedPayload Call) :
    32 < (p.encode S R call).length := by
  obtain ⟨function, extra, spec, tx, genesis, checkpoint, _⟩ := p
  have hgenesis := genesis.size
  have hcheckpoint := checkpoint.size
  simp only [encode, List.length_append, hL.hash]
  omega

section UsingEncoded

variable {ρ : Type} {blake2_256 : Bytes → Bytes} {f : Bytes → ρ}

/-- A short payload is passed on as it is. -/
theorem usingEncoded_of_le (h : (p.encode S R call).length ≤ 256) :
    p.usingEncoded S R call blake2_256 f = f (p.encode S R call) := if_neg (Nat.not_lt.mpr h)

/-- Of a long one, its hash. -/
theorem usingEncoded_of_lt (h : 256 < (p.encode S R call).length) :
    p.usingEncoded S R call blake2_256 f = f (blake2_256 (p.encode S R call)) := if_pos h

end UsingEncoded

end SignedPayload

section Binding

variable {S : Scale} {R : Runtime} {Call : Type} {call : Codec Call} {blake2_256 : Bytes → Bytes}
  {p q : SignedPayload Call}

/-- A payload that is passed on as it is does not look like the hash of another one. -/
theorem usingEncoded_ne (hL : S.Layout) (hblake : ∀ bs, (blake2_256 bs).length = 32)
    (hp : (p.encode S R call).length ≤ 256) (hq : 256 < (q.encode S R call).length) :
    p.usingEncoded S R call blake2_256 id ≠ q.usingEncoded S R call blake2_256 id := by
  rw [SignedPayload.usingEncoded_of_le hp, SignedPayload.usingEncoded_of_lt hq, id_eq, id_eq]
  intro he
  have hlong : 32 < (p.encode S R call).length := p.lt_length_encode hL
  rw [he, hblake] at hlong
  exact Nat.lt_irrefl 32 hlong

/-- **What a signature binds**: when the signer is passed the same bytes for two payloads, the
payloads are equal or their encodings collide. No payload passed on as it is looks like the hash of
a longer one, and no two payloads have the same encoding. -/
theorem usingEncoded_binds (hS : S.Lawful) (hL : S.Layout) (hR : R.Lawful)
    (hcall : Function.Injective call.encode) (hfree : PrefixFree call.encode)
    (hblake : ∀ bs, (blake2_256 bs).length = 32)
    (hp : R.Built p.extra.era) (hq : R.Built q.extra.era) :
    (p.usingEncoded S R call blake2_256 id = q.usingEncoded S R call blake2_256 id →
      p = q ∨ Collision blake2_256 (p.encode S R call) (q.encode S R call)) ∧
    ((p.encode S R call).length ≤ 256 → 256 < (q.encode S R call).length →
      p.usingEncoded S R call blake2_256 id ≠ q.usingEncoded S R call blake2_256 id) ∧
    (p.encode S R call = q.encode S R call → p = q) := by
  have hinj : p.encode S R call = q.encode S R call → p = q :=
    SignedPayload.encode_injective hS hR hcall hfree hp hq
  refine ⟨fun h => ?_, usingEncoded_ne hL hblake, hinj⟩
  by_cases he : p.encode S R call = q.encode S R call
  · exact Or.inl (hinj he)
  by_cases hpl : (p.encode S R call).length ≤ 256
  · by_cases hql : (q.encode S R call).length ≤ 256
    · -- both as they are
      rw [SignedPayload.usingEncoded_of_le hpl, SignedPayload.usingEncoded_of_le hql] at h
      exact Or.inl (hinj h)
    · exact absurd h (usingEncoded_ne hL hblake hpl (Nat.not_le.mp hql))
  · by_cases hql : (q.encode S R call).length ≤ 256
    · exact absurd h.symm (usingEncoded_ne hL hblake hql (Nat.not_le.mp hpl))
    · -- both hashed
      rw [SignedPayload.usingEncoded_of_lt (Nat.not_le.mp hpl),
        SignedPayload.usingEncoded_of_lt (Nat.not_le.mp hql)] at h
      exact Or.inr ⟨he, h⟩

end Binding

/-! ## Payloads of 256 bytes and of 257 -/

/-- A payload whose call is 181 bytes, all `b`. -/
def samplePayload (b : UInt8) (era : Era) : SignedPayload (Fixed 181) :=
  SignedPayload.fromRaw ⟨List.replicate 181 b, List.length_replicate⟩ (.new era 5)
    (9, 1, ⟨List.replicate 32 2, rfl⟩, ⟨List.replicate 32 3, rfl⟩, (), (), ())

/-- Its bytes. -/
def sampleBytes (b : UInt8) (era : Era) : Bytes :=
  (samplePayload b era).encode Scale.reference Runtime.reference (Codec.raw 181)

/-- An era of 64 blocks. -/
def sampleEra : Era := Runtime.reference.eraMortal 64 1000

/-- The digests of `blake2_256` for these payloads. -/
def sampleDigest (bs : Bytes) : Fixed 32 :=
  if bs = sampleBytes 0 .immortal then
    ⟨[79, 250, 32, 170, 49, 105, 7, 23, 168, 163, 130, 220, 198, 116, 212, 5, 181, 39, 108,
      162, 238, 214, 43, 97, 91, 142, 63, 124, 204, 172, 48, 73], rfl⟩
  else if bs = sampleBytes 1 .immortal then
    ⟨[115, 189, 88, 19, 37, 162, 34, 161, 10, 26, 41, 124, 52, 32, 202, 81, 19, 32, 138,
      170, 154, 127, 31, 112, 74, 251, 62, 215, 80, 79, 164, 167], rfl⟩
  else if bs = sampleBytes 0 sampleEra then
    ⟨[183, 118, 115, 238, 82, 238, 90, 200, 185, 89, 0, 24, 234, 174, 95, 109, 232, 231,
      151, 70, 213, 182, 230, 235, 139, 245, 217, 40, 127, 142, 238, 139], rfl⟩
  else ⟨List.replicate 32 0, List.length_replicate⟩

theorem length_sampleBytes (b : UInt8) : (sampleBytes b .immortal).length = 256 ∧
    (sampleBytes b sampleEra).length = 257 := by
  have himmortal : ((GenericExtra.codec Scale.reference Runtime.reference).encode
      (.new .immortal 5)).length = 3 := by decide
  have hmortal : ((GenericExtra.codec Scale.reference Runtime.reference).encode
      (.new sampleEra 5)).length = 4 := by decide
  unfold sampleBytes SignedPayload.encode samplePayload SignedPayload.fromRaw at *
  simp only [List.length_append, himmortal, hmortal, Scale.reference_layout.u32,
    Scale.reference_layout.hash]
  exact ⟨rfl, rfl⟩

/-- `usingEncoded_binds` on a payload that is passed on as it is and one that is hashed, and on two
that are passed on as they are. -/
theorem usingEncoded_binds_samples :
    ((samplePayload 0 .immortal).usingEncoded Scale.reference Runtime.reference (Codec.raw 181)
        (fun bs => (sampleDigest bs).1) id ≠
      (samplePayload 0 sampleEra).usingEncoded Scale.reference Runtime.reference (Codec.raw 181)
        (fun bs => (sampleDigest bs).1) id) ∧
    (samplePayload 0 .immortal).usingEncoded Scale.reference Runtime.reference (Codec.raw 181)
        (fun bs => (sampleDigest bs).1) id ≠
      (samplePayload 1 .immortal).usingEncoded Scale.reference Runtime.reference (Codec.raw 181)
        (fun bs => (sampleDigest bs).1) id := by
  have hraw : Function.Injective (Codec.raw 181).encode := fun _ _ h => Subtype.ext h
  have hbinds : ∀ {b era}, Runtime.reference.Built era → _ := fun {b era} hera =>
    usingEncoded_binds (p := samplePayload 0 .immortal) (q := samplePayload b era)
      Scale.reference_lawful Scale.reference_layout Runtime.reference_lawful hraw
      (PrefixFree.of_length fun v => v.2) (fun bs => (sampleDigest bs).2) .immortal hera
  have hne : sampleBytes 1 .immortal ≠ sampleBytes 0 .immortal := fun h =>
    absurd (congrArg List.head? h) (by decide)
  refine ⟨(hbinds (.mortal 64 1000)).2.1 (length_sampleBytes 0).1.le
    ((length_sampleBytes 0).2 ▸ by decide), fun h => ?_⟩
  obtain heq | ⟨-, hdigest⟩ := (hbinds .immortal).1 h
  · exact hne (congrArg (SignedPayload.encode _ _ _) heq).symm
  · change (sampleDigest (sampleBytes 0 .immortal)).1 = (sampleDigest (sampleBytes 1 .immortal)).1
      at hdigest
    unfold sampleDigest at hdigest
    rw [if_pos rfl, if_neg hne, if_pos rfl] at hdigest
    exact absurd hdigest (by decide)

end SubstrateClient.Primitives
