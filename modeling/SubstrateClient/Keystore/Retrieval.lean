import SubstrateClient.Keystore.Layers

/-!
# Creating a key and getting it back

A key is derived twice: when it is created, and from its phrase when it is asked for. The second
time the password of the store is used. `generate_by_type` uses it the first time as well;
`insert_ephemeral_from_seed_by_type` does not, so a seed that the password matters for gives another
key when it is asked for, and `key_pair_by_type` reports a mismatch.

* `retrieved_iff`: a key that was created is given back, and signs, on exactly one condition:
  under the password of the store, the phrase that is found first derives that key.
* `not_retrieved_alice`: `//Alice` in a store with a password.
-/

namespace SubstrateClient.Keystore

open Lib Utils Rpc

/-! ## Signing -/

/-- The crypto schemes `sign_with` knows. -/
inductive Scheme where
  | ed25519
  | sr25519
  | ecdsa
  deriving DecidableEq, Repr

/-- `CRYPTO_ID`: `ed25`, `sr25` and `ecds`. -/
def Scheme.cryptoId : Scheme → CryptoTypeId
  | .ed25519 => ⟨[101, 100, 50, 53], rfl⟩
  | .sr25519 => ⟨[115, 114, 50, 53], rfl⟩
  | .ecdsa => ⟨[101, 99, 100, 115], rfl⟩

/-- `CryptoTypePublicPair`. -/
structure CryptoTypePublicPair where
  cryptoId : CryptoTypeId
  key : Bytes
  deriving DecidableEq

/-- `sp_keystore::Error`; the conversion of a store's error is that crate's. -/
inductive TraitError where
  | ofError (e : Error)
  | keyNotSupported (id : KeyTypeId)
  | other (e : String)
  deriving DecidableEq

namespace World

section Signing

variable (J : Serde) (H : Hex) (w : World)

/-- `key_pair_by_type`. -/
def keyPairByType (P : PairT) (key : P.Public) (keyType : KeyTypeId) :
    Except Error (Option P.Pair) :=
  w.inner.keyPairByType J H P w.fs key keyType

/-- A branch of `sign_with`. -/
def signWithPair (P : PairT) (id : KeyTypeId) (key : Bytes) (msg : Bytes) :
    Except TraitError (Option Bytes) :=
  match P.fromSlice key with
  | none => .error (.other "Corrupted public key - Invalid size")
  | some pubKey =>
    match w.keyPairByType J H P pubKey id with
    | .error e => .error (.ofError e)
    | .ok keyPair => .ok (keyPair.map fun k => P.sign k msg)

/-- `sign_with`, on the pairs of the three schemes. -/
def signWith (C : Scheme → PairT) (id : KeyTypeId) (key : CryptoTypePublicPair) (msg : Bytes) :
    Except TraitError (Option Bytes) :=
  if key.cryptoId = Scheme.ed25519.cryptoId then
    w.signWithPair J H (C .ed25519) id key.key msg
  else if key.cryptoId = Scheme.sr25519.cryptoId then
    w.signWithPair J H (C .sr25519) id key.key msg
  else if key.cryptoId = Scheme.ecdsa.cryptoId then
    w.signWithPair J H (C .ecdsa) id key.key msg
  else .error (.keyNotSupported id)

end Signing

end World

/-! ## Creating -/

/-- The operations that create a key. -/
inductive Creation (P : PairT) where
  | generate (entropy : P.Entropy) (io : WriteIo)
  | fromSeed (seed : String)

/-- The operation on a store. -/
def Creation.run (J : Serde) (H : Hex) {P : PairT} (w : World) (keyType : KeyTypeId) :
    Creation P → Except Error P.Pair × World
  | .generate entropy io =>
    let (r, inner, fs) := w.inner.generateByType J H P entropy io w.fs keyType
    (r, ⟨inner, fs⟩)
  | .fromSeed seed =>
    let (r, inner) := w.inner.insertEphemeralFromSeedByType P seed keyType
    (r, ⟨inner, w.fs⟩)

/-- The phrase derives the key. -/
def PairT.Derives (P : PairT) (phrase : String) (password : Option String) (key : P.Public) :
    Prop :=
  ∃ pair, P.fromString phrase password = some pair ∧ P.publicKey pair = key

/-- The phrase that is found first derives the key that is created, under the password of the store.
A generated key is only at stake where memory hides the file it is written to. -/
def Creation.Agrees {P : PairT} (w : World) (keyType : KeyTypeId) : Creation P → Prop
  | .generate entropy _ =>
    let key := P.publicKey (P.generateWithPhrase entropy w.inner.password).1
    w.inner.path.isSome = true → ∀ phrase,
      w.inner.additional.get (keyType, P.asSlice key) = some phrase →
        P.Derives phrase w.inner.password key
  | .fromSeed seed =>
    ∀ pair, P.fromString seed none = some pair →
      P.Derives seed w.inner.password (P.publicKey pair)

/-- The key is given back, and signs. -/
structure Retrieved (J : Serde) (H : Hex) (C : Scheme → PairT) (P : PairT) (w : World)
    (key : P.Public) (keyType : KeyTypeId) : Prop where
  keyPair : ∃ pair, w.keyPairByType J H P key keyType = .ok (some pair) ∧ P.publicKey pair = key
  signs : ∀ s, C s = P → ∀ msg, ∃ signature,
    w.signWith J H C keyType ⟨s.cryptoId, P.asSlice key⟩ msg = .ok (some signature)

section Retrieval

variable {J : Serde} {H : Hex} {C : Scheme → PairT} {P : PairT} {w w' : World} {key : P.Public}
  {keyType : KeyTypeId}

/-- A scheme signs with its own pairs. -/
theorem signWith_scheme (s : Scheme) (id : KeyTypeId) (bs msg : Bytes) :
    w.signWith J H C id ⟨s.cryptoId, bs⟩ msg = w.signWithPair J H (C s) id bs msg := by
  have hed : Scheme.sr25519.cryptoId ≠ Scheme.ed25519.cryptoId := by decide
  have hec : Scheme.ecdsa.cryptoId ≠ Scheme.ed25519.cryptoId ∧
      Scheme.ecdsa.cryptoId ≠ Scheme.sr25519.cryptoId := by decide
  unfold World.signWith
  cases s with
  | ed25519 => exact if_pos rfl
  | sr25519 => simp only [if_neg hed, if_true]
  | ecdsa => simp only [if_neg hec.1, if_neg hec.2, if_true]

/-- The pair that is given back is the one the phrase derives, if it has the key. -/
theorem keyPairByType_eq_some {phrase : String}
    (hphrase : w.keyPhraseByType J H (P.asSlice key) keyType = .ok (some phrase))
    (pair : P.Pair) : w.keyPairByType J H P key keyType = .ok (some pair) ↔
      P.fromString phrase w.inner.password = some pair ∧ P.publicKey pair = key := by
  unfold World.keyPhraseByType at hphrase
  unfold World.keyPairByType KeystoreInner.keyPairByType
  rw [hphrase]
  dsimp only
  cases hpair : P.fromString phrase w.inner.password with
  | none => simp
  | some pair' =>
    by_cases hkey : P.publicKey pair' = key
    · simp only [if_pos hkey, Except.ok.injEq, Option.some.injEq]
      constructor
      · rintro rfl
        exact ⟨rfl, hkey⟩
      · exact fun h => h.1
    · simp only [if_neg hkey, reduceCtorEq, Option.some.injEq, false_iff]
      rintro ⟨rfl, h⟩
      exact hkey h

/-- A key is given back, and signs, when its phrase derives it. -/
theorem retrieved_iff_derives (hP : P.Lawful) {phrase : String}
    (hphrase : w.keyPhraseByType J H (P.asSlice key) keyType = .ok (some phrase)) :
    Retrieved J H C P w key keyType ↔ P.Derives phrase w.inner.password key := by
  have hpair := keyPairByType_eq_some hphrase
  constructor
  · rintro ⟨⟨pair, hget, hkey⟩, -⟩
    exact ⟨pair, ((hpair pair).mp hget).1, hkey⟩
  · rintro ⟨pair, hfrom, hkey⟩
    have hget := (hpair pair).mpr ⟨hfrom, hkey⟩
    refine ⟨⟨pair, hget, hkey⟩, fun s hs msg => ⟨P.sign pair msg, ?_⟩⟩
    subst hs
    rw [signWith_scheme]
    unfold World.signWithPair
    rw [hP.fromSlice_asSlice]
    dsimp only
    rw [hget]
    rfl

/-- A key in a file is found by the phrase in memory, if there is one for it. -/
theorem keyPhrase_of_file (hJ : J.ReadsStrings) {bs : Bytes} {file : PathBuf} {phrase : String}
    {fs : FileSystem} (hfile : w.inner.keyFilePath H bs keyType = some file)
    (hfs : Stores J w.fs file phrase fs) :
    World.keyPhraseByType J H ⟨w.inner, fs⟩ bs keyType =
      .ok (some ((w.inner.additional.get (keyType, bs)).getD phrase)) := by
  unfold World.keyPhraseByType
  cases hmem : w.inner.additional.get (keyType, bs) with
  | some hidden => exact KeystoreInner.keyPhraseByType_memory hmem
  | none =>
    have hbytes : fs.get file = (some phrase).map fun p => asBytes (J.toString (.str p)) := by
      rw [hfs file, if_pos rfl]
      rfl
    exact KeystoreInner.keyPhraseByType_file hJ hmem hfile hbytes

/-- A key that was placed in memory is found by its phrase. -/
theorem keyPhrase_of_placed (pair : P.Pair) (phrase : String) :
    World.keyPhraseByType J H ⟨w.inner.insertEphemeralPair P pair phrase keyType, w.fs⟩
      (P.asSlice (P.publicKey pair)) keyType = .ok (some phrase) := by
  apply KeystoreInner.keyPhraseByType_memory
  show HashMap.get (w.inner.additional.insert _ phrase) _ = _
  rw [HashMap.get_insert, if_pos rfl]

theorem generate_agrees_iff {entropy : P.Entropy} {io : WriteIo} {pair : P.Pair} {phrase : String}
    (hgen : P.generateWithPhrase entropy w.inner.password = (pair, phrase)) :
    (Creation.generate entropy io : Creation P).Agrees w keyType ↔
      (w.inner.path.isSome = true → ∀ hidden,
        w.inner.additional.get (keyType, P.asSlice (P.publicKey pair)) = some hidden →
          P.Derives hidden w.inner.password (P.publicKey pair)) := by
  simp [Creation.Agrees, hgen]

/-- A generated key is given back unless memory hides it. -/
theorem retrieved_generate (hJ : J.ReadsStrings) (hP : P.Lawful) {entropy : P.Entropy}
    {io : WriteIo} {pair : P.Pair} {inner : KeystoreInner} {fs : FileSystem}
    (hres : w.inner.generateByType J H P entropy io w.fs keyType = (.ok pair, inner, fs)) :
    Retrieved J H C P ⟨inner, fs⟩ (P.publicKey pair) keyType ↔
      (Creation.generate entropy io : Creation P).Agrees w keyType := by
  rcases hgen : P.generateWithPhrase entropy w.inner.password with ⟨made, phrase⟩
  have hderives : P.Derives phrase w.inner.password (P.publicKey made) := by
    have hfrom := hP.fromString_generate entropy w.inner.password
    rw [hgen] at hfrom
    exact ⟨made, hfrom, rfl⟩
  rw [generate_agrees_iff hgen]
  obtain ⟨rfl, ⟨file, hfile, hfs, rfl⟩ | ⟨hnone, rfl, rfl⟩⟩ :=
    KeystoreInner.generateByType_ok hgen hres
  · rw [retrieved_iff_derives hP (keyPhrase_of_file hJ hfile hfs)]
    cases hmem : w.inner.additional.get (keyType, P.asSlice (P.publicKey pair)) with
    | none => simp [hderives]
    | some hidden => simp [KeystoreInner.isSome_of_keyFilePath hfile]
  · rw [retrieved_iff_derives hP (keyPhrase_of_placed pair phrase)]
    simp [hnone, hderives, KeystoreInner.insertEphemeralPair]

/-- A key made from a seed is given back when the password does not matter for it. -/
theorem retrieved_fromSeed (hP : P.Lawful) {seed : String} {pair : P.Pair} {inner : KeystoreInner}
    (hres : w.inner.insertEphemeralFromSeedByType P seed keyType = (.ok pair, inner)) :
    Retrieved J H C P ⟨inner, w.fs⟩ (P.publicKey pair) keyType ↔
      (Creation.fromSeed seed : Creation P).Agrees w keyType := by
  obtain ⟨hpair, rfl⟩ := KeystoreInner.insertEphemeralFromSeedByType_ok hres
  rw [retrieved_iff_derives hP (keyPhrase_of_placed pair seed)]
  unfold Creation.Agrees
  simp [hpair, KeystoreInner.insertEphemeralPair]

/-- **A key that was created is given back, and signs, when the phrase found first derives it.** -/
theorem retrieved_iff (hJ : J.ReadsStrings) (hP : P.Lawful) (c : Creation P) {pair : P.Pair}
    (hrun : c.run J H w keyType = (.ok pair, w')) :
    Retrieved J H C P w' (P.publicKey pair) keyType ↔ c.Agrees w keyType := by
  cases c with
  | generate entropy io =>
    rcases hres : w.inner.generateByType J H P entropy io w.fs keyType with ⟨r, inner, fs⟩
    dsimp only [Creation.run] at hrun
    rw [hres] at hrun
    cases hrun
    exact retrieved_generate hJ hP hres
  | fromSeed seed =>
    rcases hres : w.inner.insertEphemeralFromSeedByType P seed keyType with ⟨r, inner⟩
    dsimp only [Creation.run] at hrun
    rw [hres] at hrun
    cases hrun
    exact retrieved_fromSeed hP hres

/-- Without a password every seed is given back. -/
theorem fromSeed_agrees_of_no_password (hpassword : w.inner.password = none) (seed : String) :
    (Creation.fromSeed seed : Creation P).Agrees w keyType := by
  intro pair hpair
  rw [hpassword]
  exact ⟨pair, hpair, rfl⟩

end Retrieval

/-! ## A store with a password -/

theorem echoPair_lawful : echoPair.Lawful where
  fromString_generate _ _ := rfl
  fromSlice_asSlice key := dif_pos key.size

/-- A generated key is given back. -/
theorem retrieved_iff_generated : ∃ pair w,
    Creation.run Serde.ofStrings Hex.reference openedWorld testKeyType
      (.generate "caution juice atom" .ok : Creation echoPair) = (.ok pair, w) ∧
    Retrieved Serde.ofStrings Hex.reference (fun _ => echoPair) echoPair w pair testKeyType := by
  refine ⟨_, _, rfl, ?_⟩
  refine (retrieved_iff (w := openedWorld) Serde.ofStrings_readsStrings echoPair_lawful
    (.generate "caution juice atom" .ok) rfl).mpr ?_
  intro _ phrase h
  have hempty : (none : Option String) = some phrase := h
  cases hempty

/-- **`//Alice` is not given back**: the password makes another key of it. -/
theorem not_retrieved_alice : ∃ w,
    Creation.run Serde.ofStrings Hex.reference openedWorld testKeyType
      (.fromSeed "//Alice" : Creation echoPair) = (.ok (echoKey "//Alice" none), w) ∧
    w.keyPairByType Serde.ofStrings Hex.reference echoPair (echoKey "//Alice" none) testKeyType =
      .error .publicKeyMismatch ∧
    ¬ Retrieved Serde.ofStrings Hex.reference (fun _ => echoPair) echoPair w
      (echoKey "//Alice" none) testKeyType := by
  refine ⟨_, rfl, rfl, ?_⟩
  rintro ⟨⟨pair, hpair, -⟩, -⟩
  cases hpair

end SubstrateClient.Keystore
