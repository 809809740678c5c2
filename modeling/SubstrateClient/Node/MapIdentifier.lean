import SubstrateClient.Lib.LittleEndian
import SubstrateClient.Node.Decoder
import SubstrateClient.Node.StorageKeys

/-!
# Map keys read back out of storage keys (`node-api/src/decoder.rs`)

`extract_map_identifier` skips the 32 bytes of the names and the hash before the map key, and
decodes what follows; `extract_double_map_identifier` also skips the first map key, by its size, and
the second hash. The widths are written out here and, as hash functions, in
`node-api/src/storage.rs`.

* `extractIdentifierFromConcatedKey_keyHash`: what is skipped is what the hasher wrote before the
  encoding.
* `mapIdentifiers_extracted`: the extractors invert the keys.
-/

namespace SubstrateClient.Node

open SubstrateClient.Lib

/-- `RuntimeDecoder::extract_identifier_from_concated_key`: the input left. -/
def extractIdentifierFromConcatedKey (hasher : StorageHasher) (input : Bytes) :
    Except String Bytes :=
  match hasher with
  | .blake2_128Concat => do
    let (_x, input) ← (Codec.raw 16).decode input
    return input
  | .twox64Concat => do
    let (_x, input) ← (Codec.raw 8).decode input
    return input
  | _ => .error "Couldn't extract identifier from a non-concated storage key"

section Extract

variable {T : Type} (c : Codec T)

/-- `RuntimeDecoder::extract_map_identifier`: the identifier and the input left. -/
def extractMapIdentifier (hasher : StorageHasher) (input : Bytes) : Outcome Error (T × Bytes) := do
  let (_x, input) ← decodeWith (Codec.raw 32) input
  let input ← Outcome.ofExcept .codec (extractIdentifierFromConcatedKey hasher input)
  decodeWith c input

/-- `RuntimeDecoder::extract_double_map_identifier`: the identifier and the input left.
`encodedSize` is `Encode::encoded_size` of the first key. -/
def extractDoubleMapIdentifier {K : Type} (encodedSize : K → Nat)
    (firstHasher secondHasher : StorageHasher) (firstKey : K) (input : Bytes) :
    Outcome Error (T × Bytes) := do
  let (_x, input) ← decodeWith (Codec.raw 32) input
  let input ← Outcome.ofExcept .codec (extractIdentifierFromConcatedKey firstHasher input)
  let (_x, input) ← decodeWith (Codec.raw (encodedSize firstKey)) input
  let input ← Outcome.ofExcept .codec (extractIdentifierFromConcatedKey secondHasher input)
  decodeWith c input

end Extract

/-! ## What is skipped -/

/-- The hashers that write a hash and the encoding of the key behind it. -/
def StorageHasher.Concat : StorageHasher → Prop
  | .blake2_128Concat | .twox64Concat => True
  | .identity | .blake2_128 | .blake2_256 | .twox128 | .twox256 => False

/-- `n` bytes are skipped. -/
theorem raw_skip {n : Nat} {bs : Bytes} (h : bs.length = n) (rest : Bytes) :
    (Codec.raw n).decode (bs ++ rest) = .ok (⟨bs, h⟩, rest) :=
  Codec.raw_roundTrips n ⟨bs, h⟩ rest

/-- The hash is skipped, and the encoding of the key is next. -/
theorem extractIdentifierFromConcatedKey_keyHash {N : Hashing} {h : StorageHasher} (hh : h.Concat)
    {K : Type} (encode : K → Bytes) (a : K) (rest : Bytes) :
    extractIdentifierFromConcatedKey h (keyHash N encode a h ++ rest) = .ok (encode a ++ rest) := by
  cases h with
  | blake2_128Concat =>
    have hskip := raw_skip (N.blake2_128 (encode a)).2 (encode a ++ rest)
    simp only [extractIdentifierFromConcatedKey, keyHash, List.append_assoc, hskip]
    rfl
  | twox64Concat =>
    have hskip := raw_skip (N.twox_64 (encode a)).2 (encode a ++ rest)
    simp only [extractIdentifierFromConcatedKey, keyHash, List.append_assoc, hskip]
    rfl
  | _ => exact hh.elim

/-- The names are skipped. -/
theorem decodeWith_names (N : Hashing) (P E : String) (rest : Bytes) :
    ∃ x, decodeWith (Codec.raw 32) (namesPrefix N P E ++ rest) = .ok (x, rest) := by
  have hlen : (namesPrefix N P E).length = 32 := by
    unfold namesPrefix entryPrefix
    rw [List.length_append, (N.twox_128 _).2, (N.twox_128 _).2]
  exact ⟨_, by rw [decodeWith, raw_skip hlen]; rfl⟩

theorem decodeWith_roundTrips {T : Type} {c : Codec T} {v : T} (h : c.RoundTripsAt v)
    (rest : Bytes) : decodeWith c (c.encode v ++ rest) = .ok (v, rest) := by
  rw [decodeWith, h rest]
  rfl

/-! ## The extractors -/

section Inverse

variable {N : Hashing} {K T : Type} {c : Codec T} {P E : String}

theorem extractMapIdentifier_key {h : StorageHasher} (hh : h.Concat) {k : T}
    (hk : c.RoundTripsAt k) (rest : Bytes) :
    extractMapIdentifier c h (namesPrefix N P E ++ keyHash N c.encode k h ++ rest) =
      .ok (k, rest) := by
  obtain ⟨x, hx⟩ := decodeWith_names N P E (keyHash N c.encode k h ++ rest)
  rw [extractMapIdentifier, List.append_assoc, hx]
  simp only [Outcome.ok_bind, extractIdentifierFromConcatedKey_keyHash hh, Outcome.ofExcept_ok,
    decodeWith_roundTrips hk]

theorem extractDoubleMapIdentifier_key {h₁ h₂ : StorageHasher} (hh₁ : h₁.Concat)
    (hh₂ : h₂.Concat) {encode : K → Bytes} {encodedSize : K → Nat} {k₁ : K}
    (hsize : encodedSize k₁ = (encode k₁).length) {k₂ : T} (hk : c.RoundTripsAt k₂)
    (rest : Bytes) :
    extractDoubleMapIdentifier c encodedSize h₁ h₂ k₁ (namesPrefix N P E ++
      keyHash N encode k₁ h₁ ++ keyHash N c.encode k₂ h₂ ++ rest) = .ok (k₂, rest) := by
  obtain ⟨x, hx⟩ :=
    decodeWith_names N P E (keyHash N encode k₁ h₁ ++ (keyHash N c.encode k₂ h₂ ++ rest))
  have hskip : decodeWith (Codec.raw (encodedSize k₁))
      (encode k₁ ++ (keyHash N c.encode k₂ h₂ ++ rest)) =
      .ok (⟨encode k₁, hsize.symm⟩, keyHash N c.encode k₂ h₂ ++ rest) := by
    rw [decodeWith, raw_skip hsize.symm]
    rfl
  rw [extractDoubleMapIdentifier, List.append_assoc, List.append_assoc, hx]
  simp only [Outcome.ok_bind, extractIdentifierFromConcatedKey_keyHash hh₁,
    extractIdentifierFromConcatedKey_keyHash hh₂, Outcome.ofExcept_ok, hskip,
    decodeWith_roundTrips hk]

/-- **The extractors invert the storage keys**, for the hashers that keep the key behind a hash: the
map key, or the second one, is read back, and what follows the storage key is left. -/
theorem mapIdentifiers_extracted (N : Hashing) (m : Metadata) :
    (∀ P E entry hashers kt vt h, m.entry P E = .ok entry → entry.ty = .map hashers kt vt →
      hashers[0]? = some h → h.Concat →
      ∀ {T : Type} (c : Codec T) (k : T), c.RoundTripsAt k →
        ∃ key, m.storageMapKey N P E c.encode k = .ok key ∧
          ∀ rest, extractMapIdentifier c h (key ++ rest) = .ok (k, rest)) ∧
    (∀ P E entry hashers kt vt h₁ h₂, m.entry P E = .ok entry → entry.ty = .map hashers kt vt →
      hashers[0]? = some h₁ → hashers[1]? = some h₂ → h₁.Concat → h₂.Concat →
      ∀ {K T : Type} (encode : K → Bytes) (encodedSize : K → Nat) (c : Codec T) (k₁ : K) (k₂ : T),
        encodedSize k₁ = (encode k₁).length → c.RoundTripsAt k₂ →
        ∃ key, m.storageDoubleMapKey N P E encode c.encode k₁ k₂ = .ok key ∧
          ∀ rest, extractDoubleMapIdentifier c encodedSize h₁ h₂ k₁ (key ++ rest) =
            .ok (k₂, rest)) := by
  constructor
  · intro P E entry hashers kt vt h he hty hh hconcat T c k hk
    refine ⟨_, storageMapKey_eq_ok.mpr ⟨entry, he, _, _, _, _, hty, hh, rfl⟩, ?_⟩
    exact extractMapIdentifier_key hconcat hk
  · intro P E entry hashers kt vt h₁ h₂ he hty hh₁ hh₂ hc₁ hc₂ K T encode encodedSize c k₁ k₂ hsize
      hk
    refine ⟨_, storageDoubleMapKey_eq_ok.mpr ⟨entry, he, _, _, _, _, _, hty, hh₁, hh₂, rfl⟩, ?_⟩
    exact extractDoubleMapIdentifier_key hc₁ hc₂ hsize hk

/-- `mapIdentifiers_extracted` on the entries of the assets pallet, with ids of one byte. -/
theorem mapIdentifiers_extracted_assets : ∃ r,
    Metadata.tryFrom ⟨metaReserved, .v14 assetsRuntime⟩ = .ok r ∧
    (∀ k : UInt8, ∃ key,
      r.storageMapKey namesHashing "Assets" "Asset" (Scale.reference .u8).encode k = .ok key ∧
      ∀ rest, extractMapIdentifier (Scale.reference .u8) .blake2_128Concat (key ++ rest) =
        .ok (k, rest)) ∧
    ∀ k₁ k₂ : UInt8, ∃ key,
      r.storageDoubleMapKey namesHashing "Assets" "Account" ([·]) (Scale.reference .u8).encode k₁ k₂ =
        .ok key ∧
      ∀ rest, extractDoubleMapIdentifier (Scale.reference .u8) (fun _ => 1) .blake2_128Concat
        .twox64Concat k₁ (key ++ rest) = .ok (k₂, rest) := by
  obtain ⟨r, hr⟩ : ∃ r, Metadata.tryFrom ⟨metaReserved, .v14 assetsRuntime⟩ = .ok r := ⟨_, rfl⟩
  have hk : ∀ k : UInt8, (Scale.reference .u8).RoundTripsAt k := fun k =>
    Scale.reference_roundTrips .u8 k trivial
  obtain ⟨hmap, hdouble⟩ := mapIdentifiers_extracted namesHashing r
  refine ⟨r, hr, fun k => ?_, fun k₁ k₂ => ?_⟩
  · exact hmap _ "Asset" _ _ _ _ _ (assets_entry hr rfl rfl) rfl rfl trivial _ k (hk k)
  · exact hdouble _ "Account" _ _ _ _ _ _ (assets_entry hr rfl rfl) rfl rfl rfl trivial trivial
      ([·]) _ _ k₁ k₂ rfl (hk k₂)

end Inverse

end SubstrateClient.Node
