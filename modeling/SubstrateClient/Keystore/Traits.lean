import SubstrateClient.Keystore.Supported

/-!
# The store behind its traits

`LocalKeystore` puts the store behind a lock and the traits `SyncCryptoStore` and `KeystoreExt`. Its
calls ask the two layers in three ways: by name (`*_public_keys`), by phrase (`has_keys`) and by
pair (`sign_with`, `sr25519_vrf_sign`, `ecdsa_sign_prehashed`, `key_pair`).

Here a run is any run: operations fail, and the writes among them leave what they had written.
`World.trace` is what a run places in memory and leaves in files.

* `answers_of_run`: what each call answers about a key, by the phrase placed last and the bytes left
  last. So what can be signed with is held, and what is held is listed; what is listed is not held
  when a write tore its file (`answers_of_run_torn`).
-/

namespace SubstrateClient.Keystore

open Lib Utils Rpc

/-- `AppPair`: the pairs of a scheme, under a key type of their own. -/
structure AppPair where
  generic : PairT
  id : KeyTypeId

namespace World

section Traits

variable (J : Serde) (H : Hex) (w : World)

/-! ## Listing and asking -/

/-- The keys of a key type that `from_slice` reads. -/
def publicKeysBy (P : PairT) (io : ReadIo) (keyType : KeyTypeId) : Except Error (List P.Public) :=
  (w.inner.rawPublicKeys H io w.fs keyType).map fun v => v.filterMap P.fromSlice

/-- `KeystoreExt::public_keys`. -/
def publicKeys (A : AppPair) (io : ReadIo) : Except Error (List A.generic.Public) :=
  w.publicKeysBy H A.generic io A.id

/-- `*_public_keys`. -/
def publicKeysOf (P : PairT) (io : ReadIo) (keyType : KeyTypeId) : List P.Public :=
  (w.publicKeysBy H P io keyType).toOption.getD []

/-- `has_keys` of one key. -/
def hasKey (key : Bytes) (keyType : KeyTypeId) : Bool :=
  (w.keyPhraseByType J H key keyType).toOption.join.isSome

/-- `has_keys`. -/
def hasKeys (publicKeys : List (Bytes × KeyTypeId)) : Bool :=
  publicKeys.all fun (p, t) => w.hasKey J H p t

/-! ## Generating -/

/-- `*_generate_new`. -/
def generateNewBy (P : PairT) (entropy : P.Entropy) (io : WriteIo) (id : KeyTypeId)
    (seed : Option String) : Except TraitError P.Public × World :=
  let (pair, w) := match seed with
    | some seed => (Creation.fromSeed seed : Creation P).run J H w id
    | none => (Creation.generate entropy io).run J H w id
  match pair with
  | .ok pair => (.ok (P.publicKey pair), w)
  | .error e => (.error (.ofError e), w)

/-- `KeystoreExt::generate`. -/
def generate (A : AppPair) (entropy : A.generic.Entropy) (io : WriteIo) :
    Except Error A.generic.Pair × World :=
  (Creation.generate entropy io).run J H w A.id

/-- `SyncCryptoStore::insert_unknown`. -/
def insertUnknown (io : WriteIo) (keyType : KeyTypeId) (suri : String) (key : Bytes) :
    Except Unit Unit × World :=
  let (r, fs) := w.inner.insertUnknown J H io w.fs keyType suri key
  (r.mapError fun _ => (), ⟨w.inner, fs⟩)

/-! ## Signing -/

/-- A call that signs with the pair of a public key. -/
def signBy (P : PairT) {α σ : Type} (sign : P.Pair → α → σ) (id : KeyTypeId) (key : P.Public)
    (x : α) : Except TraitError (Option σ) :=
  match w.keyPairByType J H P key id with
  | .error e => .error (.ofError e)
  | .ok pair => .ok (pair.map fun k => sign k x)

/-- `LocalKeystore::key_pair`. -/
def keyPair (A : AppPair) (key : A.generic.Public) : Except Error (Option A.generic.Pair) :=
  w.keyPairByType J H A.generic key A.id

variable (C : Scheme → PairT)

/-- `sr25519_public_keys`. -/
def sr25519PublicKeys (io : ReadIo) (keyType : KeyTypeId) : List (C .sr25519).Public :=
  w.publicKeysOf H (C .sr25519) io keyType

/-- `ed25519_public_keys`. -/
def ed25519PublicKeys (io : ReadIo) (keyType : KeyTypeId) : List (C .ed25519).Public :=
  w.publicKeysOf H (C .ed25519) io keyType

/-- `ecdsa_public_keys`. -/
def ecdsaPublicKeys (io : ReadIo) (keyType : KeyTypeId) : List (C .ecdsa).Public :=
  w.publicKeysOf H (C .ecdsa) io keyType

/-- `sr25519_generate_new`. -/
def sr25519GenerateNew (entropy : (C .sr25519).Entropy) (io : WriteIo) (id : KeyTypeId)
    (seed : Option String) : Except TraitError (C .sr25519).Public × World :=
  w.generateNewBy J H (C .sr25519) entropy io id seed

/-- `ed25519_generate_new`. -/
def ed25519GenerateNew (entropy : (C .ed25519).Entropy) (io : WriteIo) (id : KeyTypeId)
    (seed : Option String) : Except TraitError (C .ed25519).Public × World :=
  w.generateNewBy J H (C .ed25519) entropy io id seed

/-- `ecdsa_generate_new`. -/
def ecdsaGenerateNew (entropy : (C .ecdsa).Entropy) (io : WriteIo) (id : KeyTypeId)
    (seed : Option String) : Except TraitError (C .ecdsa).Public × World :=
  w.generateNewBy J H (C .ecdsa) entropy io id seed

/-- `sr25519_vrf_sign`; `make_transcript` and the signature of a transcript are those crates'. -/
def sr25519VrfSign {Data Transcript Output Proof : Type} (makeTranscript : Data → Transcript)
    (vrfSign : (C .sr25519).Pair → Transcript → Output × Proof) (keyType : KeyTypeId)
    (key : (C .sr25519).Public) (transcriptData : Data) :
    Except TraitError (Option (Output × Proof)) :=
  w.signBy J H (C .sr25519) vrfSign keyType key (makeTranscript transcriptData)

/-- `ecdsa_sign_prehashed`. -/
def ecdsaSignPrehashed {Signature : Type} (signPrehashed : (C .ecdsa).Pair → H256 → Signature)
    (id : KeyTypeId) (key : (C .ecdsa).Public) (msg : H256) :
    Except TraitError (Option Signature) :=
  w.signBy J H (C .ecdsa) signPrehashed id key msg

end Traits

/-! ## What a run leaves -/

section Trace

variable (J : Serde) (H : Hex)

/-- What an operation places in memory, and what it leaves in a file, whether it succeeds or not. -/
def effects (w : World) : Op → List (StoreEvent Key String Bytes)
  | .generateByType P entropy io keyType =>
    let (pair, phrase) := P.generateWithPhrase entropy w.inner.password
    let key := (keyType, P.asSlice (P.publicKey pair))
    if w.inner.path.isSome then ((io.left J phrase).map fun bytes => .wrote key bytes).toList
    else [.placed key phrase]
  | .insertEphemeralFromSeedByType P seed keyType =>
    match P.fromString seed none with
    | some pair => [.placed (keyType, P.asSlice (P.publicKey pair)) seed]
    | none => []
  | .insertUnknown io keyType suri key =>
    if w.inner.path.isSome then
      ((io.left J suri).map fun bytes => .wrote (keyType, key) bytes).toList
    else []
  | .reopen created password =>
    match KeystoreInner.create created w.inner.path password with
    | .ok _ => [.reopened]
    | .error _ => []

/-- What the operations of a run place and leave. -/
def trace : World → List Op → List (StoreEvent Key String Bytes)
  | _, [] => []
  | w, op :: ops => w.effects J op ++ trace (w.run J H op).2 ops

/-- Memory and files hold what the layers hold. -/
structure Contents (w : World) (l : Layers Key String Bytes) : Prop where
  memory : ∀ k, w.inner.additional.get k = l.memory k
  files : ∀ k, w.keyFile H k = l.disk k

end Trace

end World

section Contents

variable {J : Serde} {H : Hex} {w w' w₀ : World} {l : Layers Key String Bytes}

theorem World.Empty.contents (h : w.Empty) : w.Contents H Layers.empty where
  memory k := by
    rw [h.memory]
    rfl
  files k := by
    unfold World.keyFile KeystoreInner.keyFilePath
    cases hdir : w.inner.path with
    | none => rfl
    | some dir => exact h.fresh.directory dir hdir _

/-- A write leaves its bytes, if it got as far as creating the file. -/
theorem World.Contents.write (hH : H.Lawful) (hX : H.Exact) (h : w.Contents H l) {io : WriteIo}
    {k : Key} {data : String} {file : PathBuf}
    (hfile : w.inner.keyFilePath H k.2 k.1 = some file) :
    World.Contents H ⟨w.inner, (writeToFile J io file data w.fs).2⟩
      (l.run ((io.left J data).map fun bytes => .wrote k bytes).toList) where
  memory k' := by
    rw [h.memory k']
    cases io.left J data with
    | none => rfl
    | some bytes => simp [Layers.memory_step, StoreEvent.isReopened, StoreEvent.placedAt]
  files k' := by
    rw [keyFile_write hH hX hfile, h.files, h.files]
    cases io.left J data with
    | none =>
      by_cases hk : k' = k
      · simp [hk]
      · simp [hk]
    | some bytes =>
      by_cases hk : k' = k
      · simp [hk, Layers.disk_step, StoreEvent.writtenAt]
      · simp [hk, Ne.symm hk, Layers.disk_step, StoreEvent.writtenAt]

/-- A pair in memory is placed for its key. -/
theorem World.Contents.place (h : w.Contents H l) {P : PairT} {pair : P.Pair} {keyType : KeyTypeId}
    {phrase : String} :
    World.Contents H ⟨w.inner.insertEphemeralPair P pair phrase keyType, w.fs⟩
      (l.step (.placed (keyType, P.asSlice (P.publicKey pair)) phrase)) where
  memory k := by
    show HashMap.get (w.inner.additional.insert _ phrase) k = _
    rw [HashMap.get_insert, Layers.memory_step, h.memory k]
    by_cases hk : k = (keyType, P.asSlice (P.publicKey pair))
    · simp [hk, StoreEvent.isReopened, StoreEvent.placedAt]
    · simp [hk, Ne.symm hk, StoreEvent.isReopened, StoreEvent.placedAt]
  files k := h.files k

/-- A store that is opened again has lost its memory. -/
theorem World.Contents.reopen (h : w.Contents H l) {inner : KeystoreInner}
    (hmem : inner.additional = ∅) (hpath : inner.path = w.inner.path) :
    World.Contents H ⟨inner, w.fs⟩ (l.step .reopened) where
  memory k := by
    show HashMap.get inner.additional k = none
    rw [hmem]
    rfl
  files k := by
    rw [Layers.disk_step]
    show World.keyFile H ⟨inner, w.fs⟩ k = l.disk k
    rw [← h.files k]
    unfold World.keyFile KeystoreInner.keyFilePath
    rw [hpath]

theorem effects_generateByType {P : PairT} {entropy : P.Entropy} {io : WriteIo}
    {keyType : KeyTypeId} {pair : P.Pair} {phrase : String}
    (hgen : P.generateWithPhrase entropy w.inner.password = (pair, phrase)) :
    w.effects J (.generateByType P entropy io keyType) =
      if w.inner.path.isSome then
        ((io.left J phrase).map fun bytes =>
          .wrote (keyType, P.asSlice (P.publicKey pair)) bytes).toList
      else [.placed (keyType, P.asSlice (P.publicKey pair)) phrase] := by
  simp [World.effects, hgen]

/-- **What an operation does, the layers do,** whether it succeeds or not. -/
theorem World.Contents.run (hH : H.Lawful) (hX : H.Exact) (h : w.Contents H l) (op : Op) :
    (w.run J H op).2.Contents H (l.run (w.effects J op)) := by
  cases op with
  | generateByType P entropy io keyType =>
    rcases hgen : P.generateWithPhrase entropy w.inner.password with ⟨pair, phrase⟩
    rw [effects_generateByType hgen]
    dsimp only [World.run]
    cases hfile : w.inner.keyFilePath H (P.asSlice (P.publicKey pair)) keyType with
    | some file =>
      rw [KeystoreInner.generateByType_file hgen hfile,
        if_pos (KeystoreInner.isSome_of_keyFilePath hfile)]
      exact h.write hH hX hfile
    | none =>
      have hpath := KeystoreInner.keyFilePath_eq_none.mp hfile
      rw [KeystoreInner.generateByType_memory hgen hpath, hpath]
      exact h.place
  | insertEphemeralFromSeedByType P seed keyType =>
    dsimp only [World.run, World.effects]
    unfold KeystoreInner.insertEphemeralFromSeedByType
    cases P.fromString seed none with
    | none => exact h
    | some pair => exact h.place
  | insertUnknown io keyType suri key =>
    dsimp only [World.run, World.effects]
    unfold KeystoreInner.insertUnknown
    cases hfile : w.inner.keyFilePath H key keyType with
    | some file =>
      rw [if_pos (KeystoreInner.isSome_of_keyFilePath hfile)]
      exact h.write hH hX hfile
    | none =>
      rw [KeystoreInner.keyFilePath_eq_none.mp hfile]
      exact h
  | reopen created password =>
    dsimp only [World.run, World.effects]
    cases hcreate : KeystoreInner.create created w.inner.path password with
    | error e => exact h
    | ok inner =>
      obtain ⟨hmem, hpath, -⟩ := create_ok hcreate
      exact h.reopen hmem hpath

/-- **What a run does, the layers do,** whatever fails on the way. -/
theorem World.Contents.after (hH : H.Lawful) (hX : H.Exact) (ops : List Op) :
    ∀ {w : World} {l : Layers Key String Bytes}, w.Contents H l →
      (w.after J H ops).Contents H (l.run (w.trace J H ops)) := by
  induction ops with
  | nil => exact fun h => h
  | cons op ops ih =>
    intro w l h
    rw [World.trace, Layers.run_append]
    exact ih (h.run hH hX op)

/-- The phrase of a key: in memory, or else what its file reads as. -/
def HasPhrase (J : Serde) (es : List (StoreEvent Key String Bytes)) (k : Key) (phrase : String) :
    Prop :=
  lastPlaced es k = some phrase ∨ lastPlaced es k = none ∧
    ∃ bytes, lastWritten es k = some bytes ∧ readString J bytes = .ok phrase

theorem World.Contents.phrase_iff {es : List (StoreEvent Key String Bytes)}
    (h : w.Contents H (Layers.empty.run es)) (key : Bytes) (keyType : KeyTypeId)
    (phrase : String) : w.keyPhraseByType J H key keyType = .ok (some phrase) ↔
      HasPhrase J es (keyType, key) phrase := by
  rw [keyPhraseByType_eq, h.memory, h.files, Layers.memory_run, Layers.disk_run]
  unfold HasPhrase
  cases lastPlaced es (keyType, key) with
  | some placed => simp
  | none =>
    cases lastWritten es (keyType, key) with
    | none => simp
    | some bytes => cases hread : readString J bytes <;> simp [hread, Except.map]

theorem hasKey_iff (key : Bytes) (keyType : KeyTypeId) : w.hasKey J H key keyType = true ↔
    ∃ phrase, w.keyPhraseByType J H key keyType = .ok (some phrase) := by
  unfold World.hasKey
  rcases w.keyPhraseByType J H key keyType with e | _ | phrase <;> simp [Except.toOption]

theorem hasKeys_iff {publicKeys : List (Bytes × KeyTypeId)} :
    w.hasKeys J H publicKeys = true ↔ ∀ k ∈ publicKeys, w.hasKey J H k.1 k.2 = true := by
  unfold World.hasKeys
  rw [List.all_eq_true]

end Contents

/-! ## What the calls answer -/

/-- What the calls answer after a run. -/
structure Answers (J : Serde) (H : Hex) (C : Scheme → PairT) (w₀ : World) (ops : List Op)
    (P : PairT) : Prop where
  /-- A key is listed once for what was placed for it, and once for what was left in its file. -/
  listed : ∀ keyType (key : P.Public),
    ((w₀.after J H ops).publicKeysOf H P .ok keyType).count key =
      (lastPlaced (w₀.trace J H ops) (keyType, P.asSlice key)).toList.length +
        (lastWritten (w₀.trace J H ops) (keyType, P.asSlice key)).toList.length
  /-- Keys are held that have a phrase. -/
  held : ∀ ks, (w₀.after J H ops).hasKeys J H ks = true ↔
    ∀ k ∈ ks, ∃ phrase, HasPhrase J (w₀.trace J H ops) (k.2, k.1) phrase
  /-- A key signs by the pair that its phrase derives, if that pair has the key. -/
  signs : ∀ {α σ : Type} (sign : P.Pair → α → σ) keyType key x signature,
    (w₀.after J H ops).signBy J H P sign keyType key x = .ok (some signature) ↔
      ∃ phrase pair, HasPhrase J (w₀.trace J H ops) (keyType, P.asSlice key) phrase ∧
        P.fromString phrase (w₀.after J H ops).inner.password = some pair ∧
        P.publicKey pair = key ∧ sign pair x = signature
  /-- So it does with `sign_with`, by its own scheme. -/
  signsWith : ∀ s, C s = P → ∀ keyType key msg signature,
    (w₀.after J H ops).signWith J H C keyType ⟨s.cryptoId, P.asSlice key⟩ msg =
        .ok (some signature) ↔
      (w₀.after J H ops).signBy J H P P.sign keyType key msg = .ok (some signature)
  /-- A key that is listed and not held has a file that an operation left when it failed. -/
  torn : ∀ keyType (key : P.Public), key ∈ (w₀.after J H ops).publicKeysOf H P .ok keyType →
    (w₀.after J H ops).hasKey J H (P.asSlice key) keyType = false →
    ∃ pre op post, ops = pre ++ op :: post ∧
      (∃ e, ((w₀.after J H pre).run J H op).1 = .error e) ∧
      ∃ bytes, .wrote (keyType, P.asSlice key) bytes ∈ (w₀.after J H pre).effects J op

section Answered

variable {J : Serde} {H : Hex} {C : Scheme → PairT} {P : PairT} {w w₀ : World}

theorem mem_trace {ops : List Op} {e : StoreEvent Key String Bytes} : ∀ {w : World},
    e ∈ w.trace J H ops → ∃ pre op post, ops = pre ++ op :: post ∧
      e ∈ (w.after J H pre).effects J op := by
  induction ops with
  | nil => simp [World.trace]
  | cons op ops ih =>
    intro w he
    rw [World.trace, List.mem_append] at he
    rcases he with he | he
    · exact ⟨[], op, ops, rfl, he⟩
    · obtain ⟨pre, op', post, rfl, hmem⟩ := ih he
      exact ⟨op :: pre, op', post, rfl, hmem⟩

/-- A write that succeeds leaves what it was to write. -/
theorem left_of_ok {io : WriteIo} {file : PathBuf} {data : String} {fs : FileSystem}
    (h : (writeToFile J io file data fs).1 = .ok ()) :
    io.left J data = some (asBytes (J.toString (.str data))) := by
  unfold writeToFile at h
  unfold WriteIo.left
  cases hcreate : io.create with
  | some e => simp [hcreate] at h
  | none =>
    cases hperm : io.setPermissions with
    | some e => simp [hcreate, hperm] at h
    | none =>
      cases hwrite : io.write with
      | some e => simp [hcreate, hperm, hwrite] at h
      | none => rfl

/-- What a successful operation leaves in a file can be read. -/
theorem reads_of_wrote (hJ : J.ReadsStrings) {op : Op} (hop : (w.run J H op).1 = .ok ())
    {k : Key} {bytes : Bytes} (he : .wrote k bytes ∈ w.effects J op) :
    ∃ phrase, readString J bytes = .ok phrase := by
  cases op with
  | generateByType P entropy io keyType =>
    rcases hgen : P.generateWithPhrase entropy w.inner.password with ⟨pair, phrase⟩
    rw [effects_generateByType hgen] at he
    dsimp only [World.run] at hop
    cases hfile : w.inner.keyFilePath H (P.asSlice (P.publicKey pair)) keyType with
    | none =>
      rw [KeystoreInner.keyFilePath_eq_none.mp hfile] at he
      simp at he
    | some file =>
      rw [KeystoreInner.generateByType_file hgen hfile] at hop
      have hwrite : (writeToFile J io file phrase w.fs).1 = .ok () := by
        cases hres : (writeToFile J io file phrase w.fs).1 with
        | ok _ => rfl
        | error e => simp [hres, Except.map] at hop
      simp only [KeystoreInner.isSome_of_keyFilePath hfile, if_true, left_of_ok hwrite,
        Option.map_some, Option.toList_some, List.mem_singleton, StoreEvent.wrote.injEq] at he
      exact ⟨phrase, he.2 ▸ readString_toString hJ phrase⟩
  | insertEphemeralFromSeedByType P seed keyType =>
    dsimp only [World.effects] at he
    cases hpair : P.fromString seed none <;> simp [hpair] at he
  | insertUnknown io keyType suri key =>
    dsimp only [World.effects] at he
    dsimp only [World.run] at hop
    unfold KeystoreInner.insertUnknown at hop
    cases hfile : w.inner.keyFilePath H key keyType with
    | none =>
      rw [KeystoreInner.keyFilePath_eq_none.mp hfile] at he
      simp at he
    | some file =>
      rw [hfile] at hop
      simp only [KeystoreInner.isSome_of_keyFilePath hfile, if_true, left_of_ok hop,
        Option.map_some, Option.toList_some, List.mem_singleton, StoreEvent.wrote.injEq] at he
      exact ⟨suri, he.2 ▸ readString_toString hJ suri⟩
  | reopen created password =>
    dsimp only [World.effects] at he
    cases hcreate : KeystoreInner.create created w.inner.path password <;> simp [hcreate] at he

/-- Every public key is read off its own bytes, and off no others. -/
theorem PairT.ReadsBytes.fromSlice_eq_some (hP : P.Lawful) (hB : P.ReadsBytes) {bs : Bytes}
    {key : P.Public} : P.fromSlice bs = some key ↔ bs = P.asSlice key := by
  constructor
  · intro h
    exact (hB.asSlice_fromSlice h).symm
  · rintro rfl
    exact hP.fromSlice_asSlice key

theorem count_publicKeys (hP : P.Lawful) (hB : P.ReadsBytes) (raw : List Bytes) (key : P.Public) :
    (raw.filterMap P.fromSlice).count key = raw.count (P.asSlice key) := by
  induction raw with
  | nil => rfl
  | cons bs raw ih =>
    have hread : P.fromSlice bs = some key ↔ bs = P.asSlice key := hB.fromSlice_eq_some hP
    by_cases hbs : bs = P.asSlice key
    · rw [List.filterMap_cons_some (hread.mpr hbs), hbs, List.count_cons_self,
        List.count_cons_self, ih]
    · cases hkey : P.fromSlice bs with
      | none => rw [List.filterMap_cons_none hkey, List.count_cons_of_ne hbs, ih]
      | some key' =>
        have hne : key' ≠ key := by
          rintro rfl
          exact hbs (hread.mp hkey)
        rw [List.filterMap_cons_some hkey, List.count_cons_of_ne hne, List.count_cons_of_ne hbs, ih]

theorem signBy_eq_some {α σ : Type} {sign : P.Pair → α → σ} {keyType : KeyTypeId} {key : P.Public}
    {x : α} {signature : σ} : w.signBy J H P sign keyType key x = .ok (some signature) ↔
      ∃ pair, w.keyPairByType J H P key keyType = .ok (some pair) ∧ sign pair x = signature := by
  unfold World.signBy
  cases hpair : w.keyPairByType J H P key keyType with
  | error e => simp
  | ok found => cases found <;> simp

/-- A pair is given back when a phrase of the key derives it. -/
theorem keyPairByType_ok_iff {key : P.Public} {keyType : KeyTypeId} {pair : P.Pair} :
    w.keyPairByType J H P key keyType = .ok (some pair) ↔
      ∃ phrase, w.keyPhraseByType J H (P.asSlice key) keyType = .ok (some phrase) ∧
        P.fromString phrase w.inner.password = some pair ∧ P.publicKey pair = key := by
  constructor
  · intro h
    obtain ⟨phrase, hphrase⟩ := phrase_of_keyPair h
    exact ⟨phrase, hphrase, (keyPairByType_eq_some hphrase pair).mp h⟩
  · rintro ⟨phrase, hphrase, h⟩
    exact (keyPairByType_eq_some hphrase pair).mpr h

/-- The listing of a scheme, by what memory and files hold. -/
theorem World.Contents.count_publicKeysOf (hH : H.Lawful) (hX : H.Exact) (hP : P.Lawful)
    (hB : P.ReadsBytes) {l : Layers Key String Bytes} (h : w.Contents H l)
    (hfiles : w.KeyFilesOnly H) (keyType : KeyTypeId) (key : P.Public) :
    (w.publicKeysOf H P .ok keyType).count key =
      (l.memory (keyType, P.asSlice key)).toList.length +
        (l.disk (keyType, P.asSlice key)).toList.length := by
  obtain ⟨raw, hraw⟩ := rawPublicKeys_ok (H := H) (w := w) keyType
  have hlisted : w.publicKeysOf H P .ok keyType = raw.filterMap P.fromSlice := by
    unfold World.rawPublicKeys at hraw
    unfold World.publicKeysOf World.publicKeysBy
    rw [hraw]
    rfl
  rw [hlisted, count_publicKeys hP hB, count_rawPublicKeys hH hX hfiles hraw, h.memory, h.files,
    if_neg (hB.nonempty key)]

/-- **What the calls answer** is decided by the phrase placed last and the bytes left last. -/
theorem answers_of_run (hJ : J.ReadsStrings) (hH : H.Lawful) (hX : H.Exact) (hP : P.Lawful)
    (hB : P.ReadsBytes) (hempty : w₀.Empty) (ops : List Op) : Answers J H C w₀ ops P := by
  have h := hempty.contents.after (J := J) hH hX ops
  have hfiles : (w₀.after J H ops).KeyFilesOnly H := hempty.keyFilesOnly.after ops
  have hcount := h.count_publicKeysOf hH hX hP hB hfiles
  simp only [Layers.memory_run, Layers.disk_run] at hcount
  have hheld : ∀ key keyType, (w₀.after J H ops).hasKey J H key keyType = true ↔
      ∃ phrase, HasPhrase J (w₀.trace J H ops) (keyType, key) phrase := by
    intro key keyType
    simp only [hasKey_iff, h.phrase_iff]
  refine ⟨hcount, ?_, ?_, ?_, ?_⟩
  · intro ks
    simp only [hasKeys_iff, hheld]
  · intro α σ sign keyType key x signature
    simp only [signBy_eq_some, keyPairByType_ok_iff, h.phrase_iff]
    constructor
    · rintro ⟨pair, ⟨phrase, hphrase, hpair, hkey⟩, hsign⟩
      exact ⟨phrase, pair, hphrase, hpair, hkey, hsign⟩
    · rintro ⟨phrase, pair, hphrase, hpair, hkey, hsign⟩
      exact ⟨pair, ⟨phrase, hphrase, hpair, hkey⟩, hsign⟩
  · rintro s rfl keyType key msg signature
    rw [signWith_scheme, signWithPair_eq_some, signBy_eq_some]
    simp only [hB.fromSlice_eq_some hP]
    constructor
    · rintro ⟨key', pair, hkey, hpair, hsign⟩
      have hkeys : some key' = some key := by
        rw [← hP.fromSlice_asSlice key', ← hkey, hP.fromSlice_asSlice]
      cases hkeys
      exact ⟨pair, hpair, hsign⟩
    · rintro ⟨pair, hpair, hsign⟩
      exact ⟨key, pair, rfl, hpair, hsign⟩
  · intro keyType key hlisted hnot
    have hnone : ∀ phrase, ¬ HasPhrase J (w₀.trace J H ops) (keyType, P.asSlice key) phrase := by
      intro phrase hphrase
      rw [(hheld _ _).mpr ⟨phrase, hphrase⟩] at hnot
      cases hnot
    have hplaced : lastPlaced (w₀.trace J H ops) (keyType, P.asSlice key) = none := by
      by_contra hsome
      obtain ⟨phrase, hphrase⟩ := Option.ne_none_iff_exists'.mp hsome
      exact hnone phrase (Or.inl hphrase)
    rw [← List.count_pos_iff, hcount, hplaced] at hlisted
    cases hwritten : lastWritten (w₀.trace J H ops) (keyType, P.asSlice key) with
    | none => simp [hwritten] at hlisted
    | some bytes =>
      obtain ⟨pre, op, post, rfl, he⟩ := mem_trace (wrote_mem_of_lastWritten hwritten)
      refine ⟨pre, op, post, rfl, ?_, bytes, he⟩
      cases hop : ((w₀.after J H pre).run J H op).1 with
      | error e => exact ⟨e, rfl⟩
      | ok _ =>
        obtain ⟨phrase, hread⟩ := reads_of_wrote hJ hop he
        exact (hnone phrase (Or.inr ⟨hplaced, bytes, hwritten, hread⟩)).elim

end Answered

/-- `//Alice` is inserted twice, and the permissions of its file cannot be set the second time. -/
def insertAliceTorn : List Op := [insertAlice .ok, insertAlice noPermissions]

/-- **A torn file**: `//Alice` is listed, and not held. -/
theorem answers_of_run_torn :
    ((plainWorld.after Serde.ofStrings Hex.reference insertAliceTorn).publicKeysOf Hex.reference
      (taggedPair "sr") .ok testKeyType).count (echoKey "//Alice" none) = 1 ∧
    ¬ (plainWorld.after Serde.ofStrings Hex.reference insertAliceTorn).hasKeys Serde.ofStrings
      Hex.reference [((echoKey "//Alice" none).bytes, testKeyType)] = true := by
  have h := answers_of_run (C := taggedSchemes) Serde.ofStrings_readsStrings Hex.reference_lawful
    Hex.reference_exact (taggedPair_lawful "sr") (taggedPair_readsBytes "sr") plainWorld_empty
    insertAliceTorn
  have hplaced : lastPlaced (plainWorld.trace Serde.ofStrings Hex.reference insertAliceTorn)
      (testKeyType, (echoKey "//Alice" none).bytes) = none := by
    decide
  have hwritten : lastWritten (plainWorld.trace Serde.ofStrings Hex.reference insertAliceTorn)
      (testKeyType, (echoKey "//Alice" none).bytes) = some [] := by
    decide
  refine ⟨(h.listed testKeyType (echoKey "//Alice" none)).trans ?_, fun hheld => ?_⟩
  · show (lastPlaced _ (testKeyType, (echoKey "//Alice" none).bytes)).toList.length +
      (lastWritten _ (testKeyType, (echoKey "//Alice" none).bytes)).toList.length = 1
    rw [hplaced, hwritten]
    rfl
  · obtain ⟨phrase, hphrase | ⟨-, bytes, hbytes, hread⟩⟩ :=
      (h.held _).mp hheld _ List.mem_cons_self
    · rw [hplaced] at hphrase
      cases hphrase
    · rw [hwritten] at hbytes
      cases hbytes
      rw [readString_empty] at hread
      cases hread

end SubstrateClient.Keystore
