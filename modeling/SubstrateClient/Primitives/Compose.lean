import SubstrateClient.Primitives.Extrinsic

/-!
# Composing a signed extrinsic (`compose-macros/src/lib.rs`)

`compose_extrinsic_offline!` signs the payload (call, extra, and the fields both sides know without
sending them), hashed when it is longer than 256 bytes, and puts call, extra, signature and the
signer's account into an extrinsic. What is signed is never sent: the receiver rebuilds it from the
extrinsic (`composeExtrinsicOffline_verifies`).

The keys are those of `sp_core`, the parameter `K`; all that is used of them is that `verify` accepts
what `sign` produced. A scheme may sign with fresh randomness: `sign` is then one choice of it.
-/

namespace SubstrateClient.Primitives

open SubstrateClient.Lib

/-- `AdditionalSigned`: what is signed and not sent. -/
abbrev AdditionalSigned := UInt32 × UInt32 × H256 × H256 × Unit × Unit × Unit

/-- `SignedPayload`. -/
structure SignedPayload (Call : Type) where
  call : Call
  extra : GenericExtra
  additionalSigned : AdditionalSigned

namespace SignedPayload

variable {Call : Type}

/-- `SignedPayload::from_raw`. -/
def fromRaw (call : Call) (extra : GenericExtra) (additionalSigned : AdditionalSigned) :
    SignedPayload Call := ⟨call, extra, additionalSigned⟩

/-- The encoding of the tuple: its fields in order, the units on no byte. -/
def encode (S : Scale) (R : Runtime) (call : Codec Call) (p : SignedPayload Call) : Bytes :=
  let (specVersion, transactionVersion, genesisHash, checkpointHash, (), (), ()) :=
    p.additionalSigned
  call.encode p.call ++ (GenericExtra.codec S R).encode p.extra ++
    ((S .u32).encode specVersion ++ (S .u32).encode transactionVersion ++
      (S .hash).encode genesisHash ++ (S .hash).encode checkpointHash)

/-- `SignedPayload::using_encoded`. -/
def usingEncoded {ρ : Type} (S : Scale) (R : Runtime) (call : Codec Call)
    (blake2_256 : Bytes → Bytes) (p : SignedPayload Call) (f : Bytes → ρ) : ρ :=
  let payload := p.encode S R call
  if payload.length > 256 then f (blake2_256 payload) else f payload

end SignedPayload

/-- The keys of `sp_core`: `Pair`, and the conversions into the types of an extrinsic. -/
structure Keys where
  Pair : Type
  Public : Type
  Signature : Type
  MultiSigner : Type
  /-- `Pair::public`. -/
  publicKey : Pair → Public
  sign : Pair → Bytes → Signature
  /-- `MultiSignature::from`. -/
  multiSignature : Signature → MultiSignature
  /-- `MultiSigner::from`. -/
  multiSigner : Public → MultiSigner
  intoAccount : MultiSigner → AccountId
  verify : MultiSignature → Bytes → Public → Bool

/-- `verify` accepts what `sign` produced. -/
def Keys.Lawful (K : Keys) : Prop :=
  ∀ signer msg, K.verify (K.multiSignature (K.sign signer msg)) msg (K.publicKey signer) = true

section Compose

variable (S : Scale) (R : Runtime) {Call : Type} (call : Codec Call) (K : Keys)
  (blake2_256 : Bytes → Bytes)

/-- `compose_extrinsic_offline!`. -/
def composeExtrinsicOffline (signer : K.Pair) (function : Call) (nonce : UInt32) (era : Era)
    (genesisHash genesisOrCurrentHash : H256) (runtimeSpecVersion transactionVersion : UInt32) :
    UncheckedExtrinsicV4 Call :=
  let extra := GenericExtra.new era nonce
  let rawPayload := SignedPayload.fromRaw function extra
    (runtimeSpecVersion, transactionVersion, genesisHash, genesisOrCurrentHash, (), (), ())
  let signature := rawPayload.usingEncoded S R call blake2_256 fun payload => K.sign signer payload
  let multiSigner := K.multiSigner (K.publicKey signer)
  ⟨some (.id (K.intoAccount multiSigner), K.multiSignature signature, extra), function⟩

end Compose

variable {S : Scale} {R : Runtime} {Call : Type} {call : Codec Call} {K : Keys}
  (blake2_256 : Bytes → Bytes)

/-- A function of what `using_encoded` passes on can be applied to what it returns. -/
theorem SignedPayload.apply_usingEncoded {ρ σ : Type} (p : SignedPayload Call) (f : Bytes → ρ)
    (g : Bytes → ρ → σ) :
    p.usingEncoded S R call blake2_256 (fun payload => g payload (f payload)) =
      p.usingEncoded S R call blake2_256
        (fun payload => g payload (p.usingEncoded S R call blake2_256 f)) := by
  unfold usingEncoded
  simp only
  split <;> rfl

/-- What the signer signed is what the payload passes on. -/
theorem verify_usingEncoded (hK : K.Lawful) (p : SignedPayload Call) (signer : K.Pair) :
    p.usingEncoded S R call blake2_256 (fun payload =>
      K.verify (K.multiSignature
        (p.usingEncoded S R call blake2_256 fun payload => K.sign signer payload)) payload
        (K.publicKey signer)) = true := by
  rw [← p.apply_usingEncoded blake2_256 (fun payload => K.sign signer payload)
    fun payload s => K.verify (K.multiSignature s) payload (K.publicKey signer)]
  unfold SignedPayload.usingEncoded
  simp only
  split
  · exact hK signer _
  · exact hK signer _

/-- **What was signed is what the receiver rebuilds**: an encoded extrinsic decodes to one of the same
call and extra, signed by the signer's account, whose signature verifies for the payload rebuilt from
its call and extra. It has an encoding as soon as a length prefix can count its body. -/
theorem composeExtrinsicOffline_verifies (hS : S.Lawful) (hR : R.Lawful) (hK : K.Lawful)
    {function : Call} (hcall : call.RoundTripsAt function) {era : Era} (hera : R.Built era)
    (size : Nat) (signer : K.Pair) (nonce : UInt32) (genesisHash checkpointHash : H256)
    (specVersion transactionVersion : UInt32) :
    let xt := composeExtrinsicOffline S R call K blake2_256 signer function nonce era genesisHash
      checkpointHash specVersion transactionVersion
    (∀ bytes, xt.encode S R call size = .ok bytes →
      ∃ address signature extra function',
        UncheckedExtrinsicV4.decode S R call bytes =
          .ok (⟨some (address, signature, extra), function'⟩, []) ∧
        address = .id (K.intoAccount (K.multiSigner (K.publicKey signer))) ∧
        function' = function ∧ extra = .new era nonce ∧
        (SignedPayload.fromRaw function' extra (specVersion, transactionVersion, genesisHash,
            checkpointHash, (), (), ())).usingEncoded S R call blake2_256
          (fun payload => K.verify signature payload (K.publicKey signer)) = true) ∧
    ((xt.body S R call).length < 2 ^ 32 → ∃ bytes, xt.encode S R call size = .ok bytes) := by
  intro xt
  constructor
  · intro bytes hbytes
    obtain ⟨hlen, -⟩ := UncheckedExtrinsicV4.encode_eq_ok.mp hbytes
    have hbuilt : ∀ s, xt.signature = some s → R.Built s.2.2.era := by
      rintro _ ⟨⟩
      exact hera
    have hdec := UncheckedExtrinsicV4.decode_of_encode hS hR hbuilt hcall hbytes []
    rw [List.append_nil] at hdec
    exact ⟨_, _, _, _, hdec, rfl, rfl, rfl, verify_usingEncoded blake2_256 hK _ signer⟩
  · intro hlen
    exact ⟨_, UncheckedExtrinsicV4.encode_eq_ok.mpr ⟨hlen, rfl⟩⟩

/-- Keys whose signature is the message, cut or filled up to 64 bytes. -/
def echoKeys : Keys where
  Pair := AccountId
  Public := AccountId
  Signature := Fixed 64
  MultiSigner := AccountId
  publicKey := id
  sign _ msg := ⟨(msg ++ List.replicate 64 0).take 64, by
    rw [List.length_take_of_le]
    rw [List.length_append, List.length_replicate]
    exact Nat.le_add_left _ _⟩
  multiSignature := .sr25519
  multiSigner := id
  intoAccount := id
  verify sig msg _ :=
    match sig with
    | .sr25519 s => s.1 == (msg ++ List.replicate 64 0).take 64
    | _ => false

/-- `composeExtrinsicOffline_verifies` on a call of one byte and a mortal era, which has an
encoding. -/
theorem composeExtrinsicOffline_verifies_byte :
    ∃ bytes address signature extra function',
      UncheckedExtrinsicV4.decode Scale.reference Runtime.reference Scale.byte bytes =
        .ok (⟨some (address, signature, extra), function'⟩, []) ∧
      address = .id ⟨List.replicate 32 1, rfl⟩ ∧
      function' = 7 ∧ extra = .new (Runtime.reference.eraMortal 64 1000) 5 ∧
      (SignedPayload.fromRaw function' extra (9, 1, ⟨List.replicate 32 2, rfl⟩,
          ⟨List.replicate 32 3, rfl⟩, (), (), ())).usingEncoded Scale.reference Runtime.reference
        Scale.byte id (fun payload =>
          echoKeys.verify signature payload ⟨List.replicate 32 1, rfl⟩) = true := by
  have hK : echoKeys.Lawful := fun _ _ => beq_self_eq_true _
  have h := composeExtrinsicOffline_verifies id Scale.reference_lawful
    Runtime.reference_lawful hK (Scale.byte_roundTrips 7) (.mortal 64 1000) 200
    ⟨List.replicate 32 1, rfl⟩ 5 ⟨List.replicate 32 2, rfl⟩ ⟨List.replicate 32 3, rfl⟩ 9 1
  obtain ⟨bytes, hbytes⟩ := h.2 (by decide)
  exact ⟨bytes, h.1 bytes hbytes⟩

end SubstrateClient.Primitives
