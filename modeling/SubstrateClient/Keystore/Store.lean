import SubstrateClient.Lib.PrefixFree
import SubstrateClient.Rpc.Json

/-!
# The key store (`client-keystore/src/lib.rs`)

`KeystoreInner` keeps the phrases of keys in two places: files in a directory, one for each key type
and public key, and a map in memory. Phrases are JSON strings on disk. Keys are derived from their
phrase when they are asked for (`key_pair_by_type`).

The crypto is that of `sp_core`, the parameter `P`: of its errors nothing is kept, so `from_string`
is an `Option`. What it draws at random is an argument. The system answers every step of a write, so
that each can fail (`WriteIo`).

* `keyFilePath_inj`: a file belongs to one key type and one public key.
-/

namespace SubstrateClient.Keystore

open Lib Utils Rpc

/-! ## Data -/

/-- `KeyTypeId`: four bytes. -/
structure KeyTypeId where
  bytes : Bytes
  size : bytes.length = 4
  deriving DecidableEq

/-- `CryptoTypeId`: four bytes. -/
structure CryptoTypeId where
  bytes : Bytes
  size : bytes.length = 4
  deriving DecidableEq

/-- `sc_keystore::Error`: the variants the modelled calls produce. -/
inductive Error where
  | io (e : String)
  | json (e : String)
  | invalidPhrase
  | invalidSeed
  | publicKeyMismatch
  deriving DecidableEq, Repr

/-- `sp_core::crypto::Pair` and the public keys of its pairs. `asSlice` stands for `to_raw_vec` as
well, and `sign` gives the encoded signature. -/
structure PairT where
  Pair : Type
  Public : Type
  Entropy : Type
  [publicEq : DecidableEq Public]
  generateWithPhrase : Entropy → Option String → Pair × String
  fromString : String → Option String → Option Pair
  publicKey : Pair → Public
  asSlice : Public → Bytes
  fromSlice : Bytes → Option Public
  sign : Pair → Bytes → Bytes

attribute [instance] PairT.publicEq

/-- What the store relies on: a generated phrase gives the pair back under the password it was
generated with, and a public key is read off its bytes. -/
structure PairT.Lawful (P : PairT) : Prop where
  fromString_generate : ∀ entropy password,
    P.fromString (P.generateWithPhrase entropy password).2 password =
      some (P.generateWithPhrase entropy password).1
  fromSlice_asSlice : ∀ key, P.fromSlice (P.asSlice key) = some key

/-- `PathBuf`, by its components. -/
abbrev PathBuf := List String

/-- The contents of files. -/
abbrev FileSystem := HashMap PathBuf Bytes

/-- `KeystoreInner`. -/
structure KeystoreInner where
  path : Option PathBuf
  additional : HashMap (KeyTypeId × Bytes) String
  password : Option String

/-- What the system answers to the steps of a write: `none`, or an error. A write that fails has
written a number of bytes. -/
structure WriteIo where
  create : Option String
  setPermissions : Option String
  write : Option (Nat × String)
  flush : Option String

/-- Every step succeeds. -/
def WriteIo.ok : WriteIo := ⟨none, none, none, none⟩

/-! ## Files -/

section Files

variable (J : Serde)

/-- `KeystoreInner::write_to_file`. -/
def writeToFile (io : WriteIo) (file : PathBuf) (data : String) (fs : FileSystem) :
    Except Error Unit × FileSystem :=
  match io.create with
  | some e => (.error (.io e), fs)
  | none =>
    -- the file is there from here on, and empty if it was there before
    let fs := fs.insert file []
    match io.setPermissions with
    | some e => (.error (.io e), fs)
    | none =>
      let bytes := asBytes (J.toString (.str data))
      match io.write with
      | some (written, e) => (.error (.json e), fs.insert file (bytes.take written))
      | none =>
        let fs := fs.insert file bytes
        match io.flush with
        | some e => (.error (.io e), fs)
        | none => (.ok (), fs)

/-- `serde_json::from_reader` of a string. -/
def readString (bytes : Bytes) : Except Error String := (J.fromReader bytes).mapError .json

end Files

section FileSpec

variable {J : Serde}

theorem readString_toString (hJ : J.ReadsStrings) (s : String) :
    readString J (asBytes (J.toString (.str s))) = .ok s := by
  unfold readString
  rw [hJ]
  rfl

/-- The phrase is in the file, and the other files are as they were. -/
def Stores (J : Serde) (fs : FileSystem) (file : PathBuf) (phrase : String) (fs' : FileSystem) :
    Prop :=
  ∀ path, fs'.get path =
    if path = file then some (asBytes (J.toString (.str phrase))) else fs.get path

/-- A write that succeeds stores the phrase. -/
theorem stores_of_ok {io : WriteIo} {file : PathBuf} {data : String} {fs fs' : FileSystem}
    (h : writeToFile J io file data fs = (.ok (), fs')) : Stores J fs file data fs' := by
  unfold writeToFile at h
  split at h
  · cases h
  · dsimp only at h
    split at h
    · cases h
    · split at h
      · cases h
      · split at h
        · cases h
        · cases h
          intro path
          rw [HashMap.get_insert, HashMap.get_insert]
          by_cases hp : path = file
          · rw [if_pos hp, if_pos hp]
          · rw [if_neg hp, if_neg hp, if_neg hp]

end FileSpec

namespace KeystoreInner

/-! ## Operations -/

/-- `KeystoreInner::open`; `created` is what `create_dir_all` returns. -/
def openStore (created : Except String Unit) (path : PathBuf) (password : Option String) :
    Except Error KeystoreInner :=
  match created with
  | .error e => .error (.io e)
  | .ok () => .ok { path := some path, additional := ∅, password }

/-- `KeystoreInner::new_in_memory`. -/
def newInMemory : KeystoreInner := { path := none, additional := ∅, password := none }

/-- `KeystoreInner::get_additional_pair`. -/
def getAdditionalPair (self : KeystoreInner) (key : Bytes) (keyType : KeyTypeId) : Option String :=
  self.additional.get (keyType, key)

/-- `KeystoreInner::insert_ephemeral_pair`. -/
def insertEphemeralPair (self : KeystoreInner) (P : PairT) (pair : P.Pair) (seed : String)
    (keyType : KeyTypeId) : KeystoreInner :=
  { self with
    additional := self.additional.insert (keyType, P.asSlice (P.publicKey pair)) seed }

/-- `KeystoreInner::key_file_path`. -/
def keyFilePath (self : KeystoreInner) (H : Hex) (key : Bytes) (keyType : KeyTypeId) :
    Option PathBuf :=
  self.path.map fun buf => buf ++ [H.encode keyType.bytes ++ H.encode key]

section Operations

variable (J : Serde) (H : Hex) (self : KeystoreInner)

/-- `KeystoreInner::insert_unknown`. -/
def insertUnknown (io : WriteIo) (fs : FileSystem) (keyType : KeyTypeId) (suri : String)
    (key : Bytes) : Except Error Unit × FileSystem :=
  match self.keyFilePath H key keyType with
  | some path => writeToFile J io path suri fs
  | none => (.ok (), fs)

/-- `KeystoreInner::generate_by_type`. -/
def generateByType (P : PairT) (entropy : P.Entropy) (io : WriteIo) (fs : FileSystem)
    (keyType : KeyTypeId) : Except Error P.Pair × KeystoreInner × FileSystem :=
  let (pair, phrase) := P.generateWithPhrase entropy self.password
  match self.keyFilePath H (P.asSlice (P.publicKey pair)) keyType with
  | some path =>
    match writeToFile J io path phrase fs with
    | (.error e, fs) => (.error e, self, fs)
    | (.ok (), fs) => (.ok pair, self, fs)
  | none => (.ok pair, self.insertEphemeralPair P pair phrase keyType, fs)

/-- `KeystoreInner::insert_ephemeral_from_seed_by_type`. -/
def insertEphemeralFromSeedByType (P : PairT) (seed : String) (keyType : KeyTypeId) :
    Except Error P.Pair × KeystoreInner :=
  match P.fromString seed none with
  | some pair => (.ok pair, self.insertEphemeralPair P pair seed keyType)
  | none => (.error .invalidSeed, self)

/-- `KeystoreInner::key_phrase_by_type`. -/
def keyPhraseByType (fs : FileSystem) (key : Bytes) (keyType : KeyTypeId) :
    Except Error (Option String) :=
  match self.getAdditionalPair key keyType with
  | some phrase => .ok (some phrase)
  | none =>
    match self.keyFilePath H key keyType with
    | none => .ok none
    | some path =>
      match fs.get path with
      | some bytes => (readString J bytes).map some
      | none => .ok none

/-- `KeystoreInner::key_pair_by_type`. -/
def keyPairByType (P : PairT) (fs : FileSystem) (key : P.Public) (keyType : KeyTypeId) :
    Except Error (Option P.Pair) :=
  match self.keyPhraseByType J H fs (P.asSlice key) keyType with
  | .error e => .error e
  | .ok none => .ok none
  | .ok (some phrase) =>
    match P.fromString phrase self.password with
    | none => .error .invalidPhrase
    | some pair =>
      if P.publicKey pair = key then .ok (some pair) else .error .publicKeyMismatch

end Operations

/-! ## What the operations do -/

variable {J : Serde} {H : Hex}

/-- **A file belongs to one key type and one public key**: the digits of the key type are of one
length, so they can be cut off. -/
theorem keyFilePath_inj (hH : H.Lawful) (hX : H.Exact) {self : KeystoreInner} {key key' : Bytes}
    {keyType keyType' : KeyTypeId} {file : PathBuf}
    (h : self.keyFilePath H key keyType = some file)
    (h' : self.keyFilePath H key' keyType' = some file) : (keyType, key) = (keyType', key') := by
  obtain ⟨buf, hbuf, rfl⟩ := Option.map_eq_some_iff.mp h
  obtain ⟨buf', hbuf', hfile⟩ := Option.map_eq_some_iff.mp h'
  rw [hbuf] at hbuf'
  cases hbuf'
  have hname : H.encode keyType'.bytes ++ H.encode key' = H.encode keyType.bytes ++ H.encode key :=
    List.cons.inj (List.append_cancel_left hfile) |>.1
  have hchars := congrArg String.toList hname
  rw [String.toList_append, String.toList_append] at hchars
  have hfree : PrefixFree fun t : KeyTypeId => (H.encode t.bytes).toList :=
    PrefixFree.of_length fun t => (length_encode hH hX t.bytes).trans (by rw [t.size])
  obtain ⟨htype, hkey⟩ := hfree.split_eq hchars
  have hbytes := encode_injective hH (String.toList_inj.mp htype)
  have hpublic := encode_injective hH (String.toList_inj.mp hkey)
  cases keyType
  cases keyType'
  simp_all

theorem keyFilePath_eq_some {self : KeystoreInner} {key : Bytes} {keyType : KeyTypeId}
    {dir : PathBuf} (h : self.path = some dir) :
    self.keyFilePath H key keyType = some (dir ++ [H.encode keyType.bytes ++ H.encode key]) :=
  Option.map_eq_some_iff.mpr ⟨dir, h, rfl⟩

theorem keyFilePath_eq_none {self : KeystoreInner} {key : Bytes} {keyType : KeyTypeId} :
    self.keyFilePath H key keyType = none ↔ self.path = none :=
  Option.map_eq_none_iff

theorem isSome_of_keyFilePath {self : KeystoreInner} {key : Bytes} {keyType : KeyTypeId}
    {file : PathBuf} (h : self.keyFilePath H key keyType = some file) :
    self.path.isSome = true := by
  obtain ⟨dir, hdir, -⟩ := Option.map_eq_some_iff.mp h
  rw [hdir]
  rfl

/-- What `insert_unknown` does when it succeeds. -/
theorem insertUnknown_ok {self : KeystoreInner} {io : WriteIo} {fs fs' : FileSystem}
    {keyType : KeyTypeId} {suri : String} {key : Bytes}
    (h : self.insertUnknown J H io fs keyType suri key = (.ok (), fs')) :
    (∃ file, self.keyFilePath H key keyType = some file ∧ Stores J fs file suri fs') ∨
      self.path = none ∧ fs' = fs := by
  unfold insertUnknown at h
  split at h
  · rename_i file hfile
    exact Or.inl ⟨file, hfile, stores_of_ok h⟩
  · rename_i hnone
    cases h
    exact Or.inr ⟨keyFilePath_eq_none.mp hnone, rfl⟩

/-- With a directory, `generate_by_type` is a write. -/
theorem generateByType_file {self : KeystoreInner} {P : PairT} {entropy : P.Entropy}
    {io : WriteIo} {fs : FileSystem} {keyType : KeyTypeId} {pair : P.Pair} {phrase : String}
    (hgen : P.generateWithPhrase entropy self.password = (pair, phrase)) {file : PathBuf}
    (hfile : self.keyFilePath H (P.asSlice (P.publicKey pair)) keyType = some file) :
    self.generateByType J H P entropy io fs keyType =
      ((writeToFile J io file phrase fs).1.map fun _ => pair, self,
        (writeToFile J io file phrase fs).2) := by
  unfold generateByType
  rw [hgen]
  dsimp only
  rw [hfile]
  dsimp only
  rcases writeToFile J io file phrase fs with ⟨_ | _, fs⟩ <;> rfl

/-- Without a directory it keeps the phrase in memory. -/
theorem generateByType_memory {self : KeystoreInner} {P : PairT} {entropy : P.Entropy}
    {io : WriteIo} {fs : FileSystem} {keyType : KeyTypeId} {pair : P.Pair} {phrase : String}
    (hgen : P.generateWithPhrase entropy self.password = (pair, phrase))
    (hpath : self.path = none) :
    self.generateByType J H P entropy io fs keyType =
      (.ok pair, self.insertEphemeralPair P pair phrase keyType, fs) := by
  unfold generateByType
  rw [hgen]
  dsimp only
  rw [keyFilePath_eq_none.mpr hpath]

/-- What `generate_by_type` does when it succeeds: the phrase goes to the disk, or to memory if
there is none. -/
theorem generateByType_ok {self self' : KeystoreInner} {P : PairT} {entropy : P.Entropy}
    {io : WriteIo} {fs fs' : FileSystem} {keyType : KeyTypeId} {pair : P.Pair} {phrase : String}
    (hgen : P.generateWithPhrase entropy self.password = (pair, phrase)) {r : P.Pair}
    (h : self.generateByType J H P entropy io fs keyType = (.ok r, self', fs')) :
    r = pair ∧
    ((∃ file, self.keyFilePath H (P.asSlice (P.publicKey pair)) keyType = some file ∧
        Stores J fs file phrase fs' ∧ self' = self) ∨
      self.path = none ∧ self' = self.insertEphemeralPair P pair phrase keyType ∧ fs' = fs) := by
  cases hfile : self.keyFilePath H (P.asSlice (P.publicKey pair)) keyType with
  | some file =>
    rw [generateByType_file hgen hfile] at h
    rcases hwrite : writeToFile J io file phrase fs with ⟨_ | _, fs₁⟩
    · rw [hwrite] at h
      cases h
    · rw [hwrite] at h
      cases h
      exact ⟨rfl, Or.inl ⟨file, rfl, stores_of_ok hwrite, rfl⟩⟩
  | none =>
    have hpath := keyFilePath_eq_none.mp hfile
    rw [generateByType_memory hgen hpath] at h
    cases h
    exact ⟨rfl, Or.inr ⟨hpath, rfl, rfl⟩⟩

/-- What `insert_ephemeral_from_seed_by_type` does when it succeeds. -/
theorem insertEphemeralFromSeedByType_ok {self self' : KeystoreInner} {P : PairT} {seed : String}
    {keyType : KeyTypeId} {pair : P.Pair}
    (h : self.insertEphemeralFromSeedByType P seed keyType = (.ok pair, self')) :
    P.fromString seed none = some pair ∧
      self' = self.insertEphemeralPair P pair seed keyType := by
  unfold insertEphemeralFromSeedByType at h
  split at h
  · rename_i hpair
    cases h
    exact ⟨hpair, rfl⟩
  · cases h

/-- The phrase in memory goes first. -/
theorem keyPhraseByType_memory {self : KeystoreInner} {fs : FileSystem} {key : Bytes}
    {keyType : KeyTypeId} {phrase : String}
    (h : self.additional.get (keyType, key) = some phrase) :
    self.keyPhraseByType J H fs key keyType = .ok (some phrase) := by
  unfold keyPhraseByType getAdditionalPair
  rw [h]

/-- Then comes the file. -/
theorem keyPhraseByType_file (hJ : J.ReadsStrings) {self : KeystoreInner} {fs : FileSystem}
    {key : Bytes} {keyType : KeyTypeId} {file : PathBuf} {phrase : Option String}
    (hmem : self.additional.get (keyType, key) = none)
    (hfile : self.keyFilePath H key keyType = some file)
    (h : fs.get file = phrase.map fun p => asBytes (J.toString (.str p))) :
    self.keyPhraseByType J H fs key keyType = .ok phrase := by
  unfold keyPhraseByType getAdditionalPair
  rw [hmem, hfile]
  dsimp only
  rw [h]
  cases phrase with
  | none => rfl
  | some p =>
    simp only [Option.map_some, readString_toString hJ]
    rfl

theorem keyPhraseByType_none {self : KeystoreInner} {fs : FileSystem} {key : Bytes}
    {keyType : KeyTypeId} (hmem : self.additional.get (keyType, key) = none)
    (hpath : self.path = none) : self.keyPhraseByType J H fs key keyType = .ok none := by
  unfold keyPhraseByType getAdditionalPair
  rw [hmem, keyFilePath_eq_none.mpr hpath]

end KeystoreInner

end SubstrateClient.Keystore
