import SubstrateClient.Keystore.Listing

/-!
# Writes that fail

`write_to_file` creates the file, sets its permissions, writes the phrase and flushes. Creating a
file that is there empties it, so from the second step on the phrase that was stored is gone, and a
step that fails leaves the file as it is at that point (`WriteIo.left`).

* `unchanged_iff`: on exactly which failures lookup and listing are what they were: the file was not
  created, or it was there before and what is left in it reads alike or is hidden by memory.
* `not_unchanged_alice`: a phrase that is lost because the permissions could not be set.
-/

namespace SubstrateClient.Keystore

open Lib Utils Rpc

/-! ## What a write leaves -/

/-- What a write leaves in its file, unless it could not create it. -/
def WriteIo.left (J : Serde) (io : WriteIo) (data : String) : Option Bytes :=
  match io.create, io.setPermissions, io.write with
  | some _, _, _ => none
  | none, some _, _ => some []
  | none, none, some (written, _) => some ((asBytes (J.toString (.str data))).take written)
  | none, none, none => some (asBytes (J.toString (.str data)))

/-- What an operation writes, for which key. -/
def Op.writes (password : Option String) : Op → Option (WriteIo × Key × String)
  | .generateByType P entropy io keyType =>
    let (pair, phrase) := P.generateWithPhrase entropy password
    some (io, (keyType, P.asSlice (P.publicKey pair)), phrase)
  | .insertUnknown io keyType suri key => some (io, (keyType, key), suri)
  | .insertEphemeralFromSeedByType .. | .reopen .. => none

/-- Lookup and listing are what they were. -/
structure Unchanged (J : Serde) (H : Hex) (w w' : World) : Prop where
  phrases : ∀ key keyType, w'.keyPhraseByType J H key keyType = w.keyPhraseByType J H key keyType
  listing : ∀ id keys keys', w.rawPublicKeys H id = .ok keys → w'.rawPublicKeys H id = .ok keys' →
    keys'.Perm keys

/-- The write creates no file, or there is one and what is left in it reads like what was there, or
the key is in memory as well. A new file is harmless for the empty key alone, which no listing
shows. -/
def HarmlessWrite (J : Serde) (H : Hex) (w : World) (io : WriteIo) (k : Key) (data : String) :
    Prop :=
  match io.left J data, w.keyFile H k with
  | none, _ => True
  | some left, some old =>
    (w.inner.additional.get k).isSome = true ∨ readString J left = readString J old
  | some _, none => (w.inner.additional.get k).isSome = true ∧ k.2 = []

/-- The operation writes nothing, or harmlessly. -/
def Op.Harmless (J : Serde) (H : Hex) (w : World) (op : Op) : Prop :=
  ∀ io k data, op.writes w.inner.password = some (io, k, data) → HarmlessWrite J H w io k data

section Left

variable {J : Serde} {H : Hex} {w w' w₀ : World}

theorem writeToFile_left (io : WriteIo) (file : PathBuf) (data : String) (fs : FileSystem) :
    (writeToFile J io file data fs).2.get file = (io.left J data).or (fs.get file) := by
  unfold writeToFile WriteIo.left
  cases io.create with
  | some e => rfl
  | none =>
    cases io.setPermissions with
    | some e => exact (HashMap.get_insert _ _ _ _).trans (if_pos rfl)
    | none =>
      cases io.write with
      | some e => exact (HashMap.get_insert _ _ _ _).trans (if_pos rfl)
      | none =>
        dsimp only
        cases io.flush with
        | some e => exact (HashMap.get_insert _ _ _ _).trans (if_pos rfl)
        | none => exact (HashMap.get_insert _ _ _ _).trans (if_pos rfl)

/-- An operation that fails leaves memory alone, and at most has written its file. -/
theorem run_error {op : Op} {e : Error} (h : w.run J H op = (.error e, w')) :
    w' = w ∧ op.writes w.inner.password = none ∨
      ∃ io k data file, op.writes w.inner.password = some (io, k, data) ∧
        w.inner.keyFilePath H k.2 k.1 = some file ∧
        w' = ⟨w.inner, (writeToFile J io file data w.fs).2⟩ := by
  cases op with
  | generateByType P entropy io keyType =>
    rcases hgen : P.generateWithPhrase entropy w.inner.password with ⟨pair, phrase⟩
    have hwrites : (Op.generateByType P entropy io keyType).writes w.inner.password =
        some (io, (keyType, P.asSlice (P.publicKey pair)), phrase) := by
      simp [Op.writes, hgen]
    dsimp only [World.run] at h
    cases hfile : w.inner.keyFilePath H (P.asSlice (P.publicKey pair)) keyType with
    | none =>
      have hpath := KeystoreInner.keyFilePath_eq_none.mp hfile
      rw [KeystoreInner.generateByType_memory hgen hpath] at h
      cases h
    | some file =>
      rw [KeystoreInner.generateByType_file hgen hfile] at h
      exact Or.inr ⟨io, _, phrase, file, hwrites, hfile, (Prod.ext_iff.mp h).2.symm⟩
  | insertEphemeralFromSeedByType P seed keyType =>
    refine Or.inl ⟨?_, rfl⟩
    dsimp only [World.run] at h
    unfold KeystoreInner.insertEphemeralFromSeedByType at h
    cases hpair : P.fromString seed none with
    | none =>
      rw [hpair] at h
      cases h
      rfl
    | some pair =>
      rw [hpair] at h
      cases h
  | insertUnknown io keyType suri key =>
    dsimp only [World.run] at h
    unfold KeystoreInner.insertUnknown at h
    cases hfile : w.inner.keyFilePath H key keyType with
    | none =>
      rw [hfile] at h
      cases h
    | some file =>
      rw [hfile] at h
      exact Or.inr ⟨io, (keyType, key), suri, file, rfl, hfile, (Prod.ext_iff.mp h).2.symm⟩
  | reopen created password =>
    refine Or.inl ⟨?_, rfl⟩
    dsimp only [World.run] at h
    cases hcreate : KeystoreInner.create created w.inner.path password with
    | error e' =>
      rw [hcreate] at h
      cases h
      rfl
    | ok inner =>
      rw [hcreate] at h
      cases h

/-- A write changes the file of its key and no other. -/
theorem keyFile_write (hH : H.Lawful) (hX : H.Exact) {io : WriteIo} {k : Key} {data : String}
    {file : PathBuf} (hfile : w.inner.keyFilePath H k.2 k.1 = some file) (k' : Key) :
    World.keyFile H ⟨w.inner, (writeToFile J io file data w.fs).2⟩ k' =
      if k' = k then (io.left J data).or (w.keyFile H k) else w.keyFile H k' := by
  unfold World.keyFile
  dsimp only
  by_cases hk : k' = k
  · subst hk
    rw [if_pos rfl, hfile, Option.bind_some, Option.bind_some, writeToFile_left]
  · rw [if_neg hk]
    cases hfile' : w.inner.keyFilePath H k'.2 k'.1 with
    | none => rfl
    | some file' =>
      have hne : file' ≠ file := by
        rintro rfl
        exact hk (KeystoreInner.keyFilePath_inj hH hX hfile' hfile)
      rw [Option.bind_some, Option.bind_some, writeToFile_get hne]

/-- The phrase of a key is in memory, or else in its file. -/
theorem keyPhraseByType_eq (key : Bytes) (keyType : KeyTypeId) :
    w.keyPhraseByType J H key keyType =
      match w.inner.additional.get (keyType, key), w.keyFile H (keyType, key) with
      | some phrase, _ => .ok (some phrase)
      | none, some bytes => (readString J bytes).map some
      | none, none => .ok none := by
  unfold World.keyPhraseByType KeystoreInner.keyPhraseByType KeystoreInner.getAdditionalPair
    World.keyFile
  dsimp only
  cases w.inner.additional.get (keyType, key) with
  | some phrase => rfl
  | none =>
    cases w.inner.keyFilePath H key keyType with
    | none => rfl
    | some file =>
      dsimp only [Option.bind_some]
      cases w.fs.get file <;> rfl

/-- With the same memory, the listing changes only with the files that are there. -/
theorem perm_rawPublicKeys_iff (hH : H.Lawful) (hX : H.Exact) (hfiles : w.KeyFilesOnly H)
    (hfiles' : w'.KeyFilesOnly H) (hmem : w'.inner.additional = w.inner.additional) :
    (∀ id keys keys', w.rawPublicKeys H id = .ok keys → w'.rawPublicKeys H id = .ok keys' →
      keys'.Perm keys) ↔
      ∀ k : Key, k.2 ≠ [] → (w'.keyFile H k).isSome = (w.keyFile H k).isSome := by
  have hone : ∀ {α : Type} (x y : Option α),
      x.toList.length = y.toList.length ↔ x.isSome = y.isSome := by
    rintro α (_ | x) (_ | y) <;> simp
  constructor
  · intro h k hk
    obtain ⟨keys, hkeys⟩ := rawPublicKeys_ok (H := H) (w := w) k.1
    obtain ⟨keys', hkeys'⟩ := rawPublicKeys_ok (H := H) (w := w') k.1
    have hcount := (h k.1 keys keys' hkeys hkeys').count_eq k.2
    rw [count_rawPublicKeys hH hX hfiles hkeys, count_rawPublicKeys hH hX hfiles' hkeys', hmem,
      if_neg hk, if_neg hk] at hcount
    exact (hone _ _).mp (Nat.add_left_cancel hcount)
  · intro h id keys keys' hkeys hkeys'
    refine List.perm_iff_count.mpr fun key => ?_
    rw [count_rawPublicKeys hH hX hfiles hkeys, count_rawPublicKeys hH hX hfiles' hkeys', hmem]
    by_cases hkey : key = []
    · rw [if_pos hkey, if_pos hkey]
    · rw [if_neg hkey, if_neg hkey, (hone _ _).mpr (h (id, key) hkey)]

end Left

/-! ## When a failure does no harm -/

section Harmless

variable {J : Serde} {H : Hex} {w w' w₀ : World}

/-- Only the key that is written can change. -/
theorem unchanged_write_iff (hH : H.Lawful) (hX : H.Exact) (hfiles : w.KeyFilesOnly H)
    {io : WriteIo} {k : Key} {data : String} {file : PathBuf}
    (hfile : w.inner.keyFilePath H k.2 k.1 = some file)
    (hw' : w' = ⟨w.inner, (writeToFile J io file data w.fs).2⟩) (hfiles' : w'.KeyFilesOnly H) :
    Unchanged J H w w' ↔
      w'.keyPhraseByType J H k.2 k.1 = w.keyPhraseByType J H k.2 k.1 ∧
      (k.2 ≠ [] → (w'.keyFile H k).isSome = (w.keyFile H k).isSome) := by
  have hmem : w'.inner.additional = w.inner.additional := by rw [hw']
  have hother : ∀ k', k' ≠ k → w'.keyFile H k' = w.keyFile H k' := by
    intro k' hk'
    rw [hw', keyFile_write hH hX hfile, if_neg hk']
  have hlisting := perm_rawPublicKeys_iff hH hX hfiles hfiles' hmem
  constructor
  · rintro ⟨hphrases, hkeys⟩
    exact ⟨hphrases k.2 k.1, hlisting.mp hkeys k⟩
  · rintro ⟨hphrase, hkey⟩
    refine ⟨fun key keyType => ?_, hlisting.mpr fun k' hne => ?_⟩
    · by_cases hk : (keyType, key) = k
      · subst hk
        exact hphrase
      · rw [keyPhraseByType_eq, keyPhraseByType_eq, hmem, hother _ hk]
    · by_cases hk : k' = k
      · subst hk
        exact hkey hne
      · rw [hother k' hk]

theorem map_some_inj {ε α : Type} {x y : Except ε α} : x.map some = y.map some ↔ x = y := by
  cases x <;> cases y <;> simp [Except.map]

theorem map_some_ne {ε α : Type} {x : Except ε α} : x.map some ≠ .ok none := by
  cases x <;> simp [Except.map]

/-- A write whose file was not created, or was there and reads alike, is not noticed. -/
theorem unchanged_write (hH : H.Lawful) (hX : H.Exact) (hfiles : w.KeyFilesOnly H)
    {io : WriteIo} {k : Key} {data : String} {file : PathBuf}
    (hfile : w.inner.keyFilePath H k.2 k.1 = some file)
    (hw' : w' = ⟨w.inner, (writeToFile J io file data w.fs).2⟩) (hfiles' : w'.KeyFilesOnly H) :
    Unchanged J H w w' ↔ HarmlessWrite J H w io k data := by
  have hmem : w'.inner.additional = w.inner.additional := by rw [hw']
  have hkey : w'.keyFile H k = (io.left J data).or (w.keyFile H k) := by
    rw [hw', keyFile_write hH hX hfile, if_pos rfl]
  rw [unchanged_write_iff hH hX hfiles hfile hw' hfiles', keyPhraseByType_eq, keyPhraseByType_eq,
    hmem, hkey]
  unfold HarmlessWrite
  cases io.left J data with
  | none => simp
  | some left =>
    cases w.keyFile H k with
    | some old => cases w.inner.additional.get k <;> simp [map_some_inj]
    | none => cases w.inner.additional.get k <;> simp [map_some_ne]

/-- **A failed operation leaves lookup and listing as they were exactly when its write was
harmless**, in every state a run of operations leads to. -/
theorem unchanged_iff (hH : H.Lawful) (hX : H.Exact) (hempty : w₀.Empty) (ops : List Op) {op : Op}
    {e : Error} (hrun : (w₀.after J H ops).run J H op = (.error e, w')) :
    Unchanged J H (w₀.after J H ops) w' ↔ op.Harmless J H (w₀.after J H ops) := by
  have hfiles : (w₀.after J H ops).KeyFilesOnly H := hempty.keyFilesOnly.after ops
  have hfiles' : w'.KeyFilesOnly H := by
    have hnext := hfiles.run (J := J) op
    rw [hrun] at hnext
    exact hnext
  unfold Op.Harmless
  rcases run_error hrun with ⟨rfl, hnone⟩ | ⟨io, k, data, file, hwrites, hfile, hw'⟩
  · simp only [hnone, reduceCtorEq, false_implies, implies_true, iff_true]
    refine ⟨fun _ _ => rfl, fun id keys keys' hkeys hkeys' => ?_⟩
    rw [hkeys] at hkeys'
    cases hkeys'
    exact List.Perm.refl _
  · rw [unchanged_write hH hX hfiles hfile hw' hfiles', hwrites]
    simp

end Harmless

/-! ## A phrase that is lost -/

/-- `//Alice` is inserted as an unknown key. -/
def insertAlice (io : WriteIo) : Op :=
  .insertUnknown io testKeyType "//Alice" (echoKey "//Alice" none).bytes

/-- The file cannot be created. -/
def noCreate : WriteIo := ⟨some "Permission denied (os error 13)", none, none, none⟩

/-- The permissions cannot be set. -/
def noPermissions : WriteIo := ⟨none, some "Operation not permitted (os error 1)", none, none⟩

theorem left_noPermissions (J : Serde) (data : String) : noPermissions.left J data = some [] := rfl

/-- An empty file holds no string. -/
theorem readString_empty :
    readString Serde.ofStrings [] = .error (.json "expected value at line 1 column 1") := by
  have hempty : String.fromUTF8? ⟨#[]⟩ = some "" := fromUTF8_asBytes ""
  simp [readString, Serde.ofStrings, stringReader, hempty, readQuoted, Except.mapError]

/-- When the file cannot be created, nothing changes. -/
theorem unchanged_iff_noCreate : ∃ e w',
    (plainWorld.after Serde.ofStrings Hex.reference [insertAlice .ok]).run Serde.ofStrings
      Hex.reference (insertAlice noCreate) = (.error e, w') ∧
    Unchanged Serde.ofStrings Hex.reference
      (plainWorld.after Serde.ofStrings Hex.reference [insertAlice .ok]) w' := by
  have hrun : (plainWorld.after Serde.ofStrings Hex.reference [insertAlice .ok]).run Serde.ofStrings
      Hex.reference (insertAlice noCreate) = (.error _, _) := rfl
  refine ⟨_, _, hrun, (unchanged_iff Hex.reference_lawful Hex.reference_exact plainWorld_empty
    [insertAlice .ok] hrun).mpr ?_⟩
  rintro io k data ⟨⟩
  trivial

/-- **The phrase of `//Alice` is lost**: it is inserted again, and the permissions of its file
cannot be set. -/
theorem not_unchanged_alice : ∃ w e w',
    plainWorld.runAll Serde.ofStrings Hex.reference [insertAlice .ok] = .ok w ∧
    w.run Serde.ofStrings Hex.reference (insertAlice noPermissions) = (.error e, w') ∧
    w.keyPhraseByType Serde.ofStrings Hex.reference (echoKey "//Alice" none).bytes testKeyType =
      .ok (some "//Alice") ∧
    w'.keyPhraseByType Serde.ofStrings Hex.reference (echoKey "//Alice" none).bytes testKeyType =
      .error (.json "expected value at line 1 column 1") ∧
    ¬ Unchanged Serde.ofStrings Hex.reference w w' := by
  obtain ⟨w, hrun⟩ : ∃ w,
      plainWorld.runAll Serde.ofStrings Hex.reference [insertAlice .ok] = .ok w := ⟨_, rfl⟩
  have h := runAll_refines Hex.reference_lawful Hex.reference_exact
    (fresh_refines plainWorld_empty.fresh) hrun
  have hpath : w.inner.path = some ["keystore"] := by
    rw [after_eq_of_runAll hrun]
    exact run_path plainWorld (insertAlice .ok)
  obtain ⟨file, hfile⟩ : ∃ file, w.inner.keyFilePath Hex.reference (echoKey "//Alice" none).bytes
      testKeyType = some file := ⟨_, KeystoreInner.keyFilePath_eq_some hpath⟩
  have hstored : w.keyPhraseByType Serde.ofStrings Hex.reference (echoKey "//Alice" none).bytes
      testKeyType = .ok (some "//Alice") := by
    rw [h.keyPhrase_eq Serde.ofStrings_readsStrings, Layers.find_run]
    decide
  have hmem : w.inner.additional.get (testKeyType, (echoKey "//Alice" none).bytes) = none := by
    rw [h.memory, Layers.memory_run]
    decide
  have hfails : w.run Serde.ofStrings Hex.reference (insertAlice noPermissions) =
      (.error (.io "Operation not permitted (os error 1)"),
        ⟨w.inner, (writeToFile Serde.ofStrings noPermissions file "//Alice" w.fs).2⟩) := by
    dsimp only [World.run, insertAlice]
    unfold KeystoreInner.insertUnknown
    rw [hfile]
    rfl
  have hlost : World.keyPhraseByType Serde.ofStrings Hex.reference
      ⟨w.inner, (writeToFile Serde.ofStrings noPermissions file "//Alice" w.fs).2⟩
      (echoKey "//Alice" none).bytes testKeyType =
        .error (.json "expected value at line 1 column 1") := by
    rw [keyPhraseByType_eq, keyFile_write Hex.reference_lawful Hex.reference_exact
      (k := (testKeyType, (echoKey "//Alice" none).bytes)) hfile, if_pos rfl, hmem,
      left_noPermissions, Option.some_or]
    dsimp only
    rw [readString_empty]
    rfl
  refine ⟨w, _, _, hrun, hfails, hstored, hlost, fun hsame => ?_⟩
  have hphrase := hsame.phrases (echoKey "//Alice" none).bytes testKeyType
  rw [hstored, hlost] at hphrase
  cases hphrase

end SubstrateClient.Keystore
