import SubstrateClient.Keystore.Store
import SubstrateClient.Lib.Layers

/-!
# The two layers of the key store

The map in memory and the directory are the two layers of a `Layers`: seeds are placed in memory,
generated phrases and phrases of unknown keys are written to disk (or, without a directory, placed
in memory and dropped). `history` is what a run of operations does to the layers, and `Refines` the
relation between a store and them.

* `run_refines`: what a successful operation does, the layers do.
* `twoLayers_of_run`: after every run of successful operations the phrase of a key is the one placed
  last since the store was opened, or else the one written last; so no operation changes the phrase
  of another key, what was generated into the directory is there after the store is opened again,
  and a seed is in no file.
-/

namespace SubstrateClient.Keystore

open Lib Utils Rpc

/-! ## Runs -/

/-- A key: its type and its public key. -/
abbrev Key := KeyTypeId × Bytes

/-- A store, and the files of its system. -/
structure World where
  inner : KeystoreInner
  fs : FileSystem

/-- The operations. `reopen` drops the store and opens the same directory again. -/
inductive Op where
  | generateByType (P : PairT) (entropy : P.Entropy) (io : WriteIo) (keyType : KeyTypeId)
  | insertEphemeralFromSeedByType (P : PairT) (seed : String) (keyType : KeyTypeId)
  | insertUnknown (io : WriteIo) (keyType : KeyTypeId) (suri : String) (key : Bytes)
  | reopen (created : Except String Unit) (password : Option String)

/-- The store of a path, or one in memory. -/
def KeystoreInner.create (created : Except String Unit) (path : Option PathBuf)
    (password : Option String) : Except Error KeystoreInner :=
  match path with
  | some path => openStore created path password
  | none => .ok newInMemory

namespace World

section Runs

variable (J : Serde) (H : Hex)

/-- An operation. -/
def run (w : World) : Op → Except Error Unit × World
  | .generateByType P entropy io keyType =>
    let (r, inner, fs) := w.inner.generateByType J H P entropy io w.fs keyType
    (r.map fun _ => (), ⟨inner, fs⟩)
  | .insertEphemeralFromSeedByType P seed keyType =>
    let (r, inner) := w.inner.insertEphemeralFromSeedByType P seed keyType
    (r.map fun _ => (), ⟨inner, w.fs⟩)
  | .insertUnknown io keyType suri key =>
    let (r, fs) := w.inner.insertUnknown J H io w.fs keyType suri key
    (r, ⟨w.inner, fs⟩)
  | .reopen created password =>
    match KeystoreInner.create created w.inner.path password with
    | .error e => (.error e, w)
    | .ok inner => (.ok (), ⟨inner, w.fs⟩)

/-- Operations that all succeed, one after the other. -/
def runAll : World → List Op → Except Error World
  | w, [] => .ok w
  | w, op :: ops =>
    match w.run J H op with
    | (.error e, _) => .error e
    | (.ok (), w) => runAll w ops

/-- The phrase of a key. -/
def keyPhraseByType (w : World) (key : Bytes) (keyType : KeyTypeId) :
    Except Error (Option String) :=
  w.inner.keyPhraseByType J H w.fs key keyType

end Runs

/-- A new store on an empty directory, or in memory. -/
structure Fresh (w : World) : Prop where
  memory : w.inner.additional = ∅
  directory : ∀ dir, w.inner.path = some dir → ∀ name, w.fs.get (dir ++ [name]) = none

end World

/-! ## What a run does to the layers -/

/-- What an operation places and writes; `onDisk` says whether the store has a path. -/
def Op.events (onDisk : Bool) (password : Option String) : Op → List (StoreEvent Key String String)
  | .generateByType P entropy _ keyType =>
    let (pair, phrase) := P.generateWithPhrase entropy password
    let key := (keyType, P.asSlice (P.publicKey pair))
    if onDisk then [.wrote key phrase] else [.placed key phrase]
  | .insertEphemeralFromSeedByType P seed keyType =>
    match P.fromString seed none with
    | some pair => [.placed (keyType, P.asSlice (P.publicKey pair)) seed]
    | none => []
  | .insertUnknown _ keyType suri key => if onDisk then [.wrote (keyType, key) suri] else []
  | .reopen _ _ => [.reopened]

/-- The password after an operation: a store in memory has none. -/
def Op.password (onDisk : Bool) (password : Option String) : Op → Option String
  | .reopen _ new => if onDisk then new else none
  | .generateByType .. | .insertEphemeralFromSeedByType .. | .insertUnknown .. => password

/-- What a run places and writes. -/
def history (onDisk : Bool) : Option String → List Op → List (StoreEvent Key String String)
  | _, [] => []
  | password, op :: ops =>
    op.events onDisk password ++ history onDisk (op.password onDisk password) ops

/-- The events of an operation on the store. -/
def World.events (w : World) (op : Op) : List (StoreEvent Key String String) :=
  op.events w.inner.path.isSome w.inner.password

/-! ## The store refines the layers -/

/-- The store holds what the layers hold. -/
structure Refines (J : Serde) (H : Hex) (w : World) (l : Layers Key String String) : Prop where
  memory : ∀ k, w.inner.additional.get k = l.memory k
  disk : ∀ k file, w.inner.keyFilePath H k.2 k.1 = some file →
    w.fs.get file = (l.disk k).map fun phrase => asBytes (J.toString (.str phrase))
  noDisk : w.inner.path = none → ∀ k, l.disk k = none

section Refinement

variable {J : Serde} {H : Hex} {w w' : World} {l : Layers Key String String}

theorem fresh_refines (h : w.Fresh) : Refines J H w Layers.empty where
  memory k := by
    rw [h.memory]
    rfl
  disk k file hfile := by
    obtain ⟨dir, hdir, rfl⟩ := Option.map_eq_some_iff.mp hfile
    rw [h.directory dir hdir]
    rfl
  noDisk _ _ := rfl

/-- The phrase of a key is the one the layers hold. -/
theorem Refines.keyPhrase_eq (hJ : J.ReadsStrings) (h : Refines J H w l) (key : Bytes)
    (keyType : KeyTypeId) : w.keyPhraseByType J H key keyType = .ok (l.find (keyType, key)) := by
  unfold World.keyPhraseByType Layers.find
  have hmem := h.memory (keyType, key)
  cases hm : l.memory (keyType, key) with
  | some phrase =>
    rw [hm] at hmem
    exact KeystoreInner.keyPhraseByType_memory hmem
  | none =>
    rw [hm] at hmem
    cases hfile : w.inner.keyFilePath H key keyType with
    | some file =>
      exact KeystoreInner.keyPhraseByType_file hJ hmem hfile (h.disk (keyType, key) file hfile)
    | none =>
      have hpath := KeystoreInner.keyFilePath_eq_none.mp hfile
      rw [h.noDisk hpath]
      exact KeystoreInner.keyPhraseByType_none hmem hpath

/-- A phrase in the file of a key is written for that key. -/
theorem Refines.wrote (hH : H.Lawful) (hX : H.Exact) (h : Refines J H w l) {key : Bytes}
    {keyType : KeyTypeId} {file : PathBuf} {phrase : String} {fs : FileSystem}
    (hfile : w.inner.keyFilePath H key keyType = some file) (hfs : Stores J w.fs file phrase fs) :
    Refines J H ⟨w.inner, fs⟩ (l.step (.wrote (keyType, key) phrase)) where
  memory k := h.memory k
  disk k path hpath := by
    rw [hfs path, Layers.disk_step, StoreEvent.writtenAt]
    by_cases hk : (keyType, key) = k
    · subst hk
      rw [hfile] at hpath
      cases hpath
      rw [if_pos rfl, if_pos rfl]
      rfl
    · have hne : path ≠ file := by
        rintro rfl
        exact hk (KeystoreInner.keyFilePath_inj hH hX hfile hpath)
      rw [if_neg hne, if_neg hk, h.disk k path hpath]
      rfl
  noDisk hpath := by
    rw [KeystoreInner.keyFilePath_eq_none.mpr hpath] at hfile
    cases hfile

/-- A phrase in memory is placed for its key. -/
theorem Refines.placed (h : Refines J H w l) {P : PairT} {pair : P.Pair} {keyType : KeyTypeId}
    {phrase : String} :
    Refines J H ⟨w.inner.insertEphemeralPair P pair phrase keyType, w.fs⟩
      (l.step (.placed (keyType, P.asSlice (P.publicKey pair)) phrase)) where
  memory k := by
    rw [Layers.memory_step]
    show HashMap.get (w.inner.additional.insert _ phrase) k = _
    rw [HashMap.get_insert, h.memory k]
    simp only [StoreEvent.isReopened, StoreEvent.placedAt, eq_comm (a := k), Bool.false_eq_true,
      if_false]
    split_ifs <;> rfl
  disk k path hpath := h.disk k path hpath
  noDisk hpath k := h.noDisk hpath k

/-- A store that is opened again has lost its memory. -/
theorem Refines.reopened (h : Refines J H w l) {inner : KeystoreInner}
    (hmem : inner.additional = ∅) (hpath : inner.path = w.inner.path) :
    Refines J H ⟨inner, w.fs⟩ (l.step .reopened) where
  memory k := by
    show HashMap.get inner.additional k = none
    rw [hmem]
    rfl
  disk k path hfile := by
    unfold KeystoreInner.keyFilePath at hfile
    dsimp only at hfile
    rw [hpath] at hfile
    exact h.disk k path hfile
  noDisk hnone := h.noDisk (hpath ▸ hnone)

/-- A store is opened empty, with the path and, if it has one, the password. -/
theorem create_ok {created : Except String Unit} {path : Option PathBuf}
    {password : Option String} {inner : KeystoreInner}
    (h : KeystoreInner.create created path password = .ok inner) :
    inner.additional = ∅ ∧ inner.path = path ∧
      inner.password = if path.isSome then password else none := by
  unfold KeystoreInner.create at h
  cases path with
  | none =>
    cases h
    exact ⟨rfl, rfl, rfl⟩
  | some dir =>
    unfold KeystoreInner.openStore at h
    cases created with
    | error e => cases h
    | ok _ =>
      cases h
      exact ⟨rfl, rfl, rfl⟩

theorem events_generateByType {P : PairT} {entropy : P.Entropy} {io : WriteIo}
    {keyType : KeyTypeId} {pair : P.Pair} {phrase : String}
    (hgen : P.generateWithPhrase entropy w.inner.password = (pair, phrase)) :
    w.events (.generateByType P entropy io keyType) =
      if w.inner.path.isSome then [.wrote (keyType, P.asSlice (P.publicKey pair)) phrase]
      else [.placed (keyType, P.asSlice (P.publicKey pair)) phrase] := by
  simp [World.events, Op.events, hgen]

/-- A generated phrase goes to the layer that `generate_by_type` picks. -/
theorem generateByType_refines (hH : H.Lawful) (hX : H.Exact) (h : Refines J H w l) {P : PairT}
    {entropy : P.Entropy} {io : WriteIo} {keyType : KeyTypeId} {r : P.Pair}
    {inner : KeystoreInner} {fs : FileSystem}
    (hres : w.inner.generateByType J H P entropy io w.fs keyType = (.ok r, inner, fs)) :
    Refines J H ⟨inner, fs⟩ (l.run (w.events (.generateByType P entropy io keyType))) ∧
      inner.path = w.inner.path ∧ inner.password = w.inner.password := by
  rcases hgen : P.generateWithPhrase entropy w.inner.password with ⟨pair, phrase⟩
  obtain ⟨-, ⟨file, hfile, hfs, rfl⟩ | ⟨hnone, rfl, rfl⟩⟩ :=
    KeystoreInner.generateByType_ok hgen hres
  · rw [events_generateByType hgen, if_pos (KeystoreInner.isSome_of_keyFilePath hfile)]
    exact ⟨h.wrote hH hX hfile hfs, rfl, rfl⟩
  · have hmemory : ¬ w.inner.path.isSome = true := by simp [hnone]
    rw [events_generateByType hgen, if_neg hmemory]
    exact ⟨h.placed, rfl, rfl⟩

/-- A seed goes to memory. -/
theorem insertEphemeralFromSeedByType_refines (h : Refines J H w l) {P : PairT} {seed : String}
    {keyType : KeyTypeId} {pair : P.Pair} {inner : KeystoreInner}
    (hres : w.inner.insertEphemeralFromSeedByType P seed keyType = (.ok pair, inner)) :
    Refines J H ⟨inner, w.fs⟩
        (l.run (w.events (.insertEphemeralFromSeedByType P seed keyType))) ∧
      inner.path = w.inner.path ∧ inner.password = w.inner.password := by
  obtain ⟨hpair, rfl⟩ := KeystoreInner.insertEphemeralFromSeedByType_ok hres
  dsimp only [World.events, Op.events]
  rw [hpair]
  exact ⟨h.placed, rfl, rfl⟩

/-- The phrase of an unknown key goes to the disk, if there is one. -/
theorem insertUnknown_refines (hH : H.Lawful) (hX : H.Exact) (h : Refines J H w l) {io : WriteIo}
    {keyType : KeyTypeId} {suri : String} {key : Bytes} {fs : FileSystem}
    (hres : w.inner.insertUnknown J H io w.fs keyType suri key = (.ok (), fs)) :
    Refines J H ⟨w.inner, fs⟩ (l.run (w.events (.insertUnknown io keyType suri key))) := by
  dsimp only [World.events, Op.events]
  rcases KeystoreInner.insertUnknown_ok hres with ⟨file, hfile, hfs⟩ | ⟨hnone, rfl⟩
  · rw [KeystoreInner.isSome_of_keyFilePath hfile]
    exact h.wrote hH hX hfile hfs
  · rw [hnone]
    exact h

/-- A store that was just opened on an empty directory, or in memory, is fresh. -/
theorem create_fresh {created : Except String Unit} {path : Option PathBuf}
    {password : Option String} {inner : KeystoreInner} {fs : FileSystem}
    (h : KeystoreInner.create created path password = .ok inner)
    (hdir : ∀ dir, path = some dir → ∀ name, fs.get (dir ++ [name]) = none) :
    World.Fresh ⟨inner, fs⟩ := by
  obtain ⟨hmem, rfl, -⟩ := create_ok h
  exact ⟨hmem, hdir⟩

/-- **What a successful operation does, the layers do.** -/
theorem run_refines (hH : H.Lawful) (hX : H.Exact) (h : Refines J H w l) {op : Op}
    (hrun : w.run J H op = (.ok (), w')) :
    Refines J H w' (l.run (w.events op)) ∧ w'.inner.path = w.inner.path ∧
      w'.inner.password = op.password w.inner.path.isSome w.inner.password := by
  cases op with
  | generateByType P entropy io keyType =>
    dsimp only [World.run] at hrun
    rcases hres : w.inner.generateByType J H P entropy io w.fs keyType with ⟨r, inner, fs⟩
    rw [hres] at hrun
    cases r with
    | error e => cases hrun
    | ok r =>
      cases hrun
      exact generateByType_refines hH hX h hres
  | insertEphemeralFromSeedByType P seed keyType =>
    dsimp only [World.run] at hrun
    rcases hres : w.inner.insertEphemeralFromSeedByType P seed keyType with ⟨r, inner⟩
    rw [hres] at hrun
    cases r with
    | error e => cases hrun
    | ok pair =>
      cases hrun
      exact insertEphemeralFromSeedByType_refines h hres
  | insertUnknown io keyType suri key =>
    dsimp only [World.run] at hrun
    rcases hres : w.inner.insertUnknown J H io w.fs keyType suri key with ⟨r, fs⟩
    rw [hres] at hrun
    cases hrun
    exact ⟨insertUnknown_refines hH hX h hres, rfl, rfl⟩
  | reopen created password =>
    unfold World.run at hrun
    dsimp only at hrun
    split at hrun
    · cases hrun
    · rename_i inner hcreate
      cases hrun
      obtain ⟨hmem, hpath, hpassword⟩ := create_ok hcreate
      exact ⟨h.reopened hmem hpath, hpath, hpassword⟩

/-- **What a run of successful operations does, the layers do.** -/
theorem runAll_refines (hH : H.Lawful) (hX : H.Exact) {ops : List Op} : ∀ {w : World}
    {l : Layers Key String String}, Refines J H w l → w.runAll J H ops = .ok w' →
      Refines J H w' (l.run (history w.inner.path.isSome w.inner.password ops)) := by
  induction ops with
  | nil =>
    intro w l h hrun
    cases hrun
    exact h
  | cons op ops ih =>
    intro w l h hrun
    unfold World.runAll at hrun
    split at hrun
    · cases hrun
    · rename_i w₁ hop
      obtain ⟨hstep, hpath, hpassword⟩ := run_refines hH hX h hop
      have hrest := ih hstep hrun
      rw [hpath, hpassword] at hrest
      rw [history, Layers.run_append]
      exact hrest

/-! ## Phrases -/

variable (J H w) in
/-- The phrases are those of the layers after the events, and stay so. -/
structure TwoLayers (es : List (StoreEvent Key String String)) : Prop where
  /-- The phrase of a key was placed last since the store was opened, or else written last. -/
  phrase : ∀ key keyType, w.keyPhraseByType J H key keyType =
    .ok ((lastPlaced es (keyType, key)).or (lastWritten es (keyType, key)))
  /-- No operation changes the phrase of another key. -/
  others : ∀ op w', w.run J H op = (.ok (), w') → ∀ key keyType,
    (∀ e ∈ w.events op, e.Spares (keyType, key)) →
      w'.keyPhraseByType J H key keyType = w.keyPhraseByType J H key keyType
  /-- When the store is opened again, what was written is left. -/
  reopened : ∀ created password w', w.run J H (.reopen created password) = (.ok (), w') →
    ∀ key keyType, w'.keyPhraseByType J H key keyType = .ok (lastWritten es (keyType, key))
  /-- What is generated into the directory is there when the store is opened again. -/
  survives : w.inner.path.isSome = true → ∀ (P : PairT) entropy io keyType pair phrase,
    P.generateWithPhrase entropy w.inner.password = (pair, phrase) →
    ∀ w₁, w.run J H (.generateByType P entropy io keyType) = (.ok (), w₁) →
    ∀ created password w₂, w₁.run J H (.reopen created password) = (.ok (), w₂) →
      w₂.keyPhraseByType J H (P.asSlice (P.publicKey pair)) keyType = .ok (some phrase)
  /-- A seed is written to no file. -/
  seeds : ∀ (P : PairT) seed keyType,
    (w.run J H (.insertEphemeralFromSeedByType P seed keyType)).2.fs = w.fs

/-- When the store is opened again, the phrases are those on disk. -/
theorem Refines.keyPhrase_reopened (hJ : J.ReadsStrings) (hH : H.Lawful) (hX : H.Exact)
    (h : Refines J H w l) {created : Except String Unit} {password : Option String}
    (hrun : w.run J H (.reopen created password) = (.ok (), w')) (key : Bytes)
    (keyType : KeyTypeId) :
    w'.keyPhraseByType J H key keyType = .ok (l.disk (keyType, key)) :=
  (run_refines hH hX h hrun).1.keyPhrase_eq hJ key keyType

/-- **The key store is a map of two layers.** -/
theorem twoLayers_of_run (hJ : J.ReadsStrings) (hH : H.Lawful) (hX : H.Exact) {w₀ : World}
    (hfresh : w₀.Fresh) {ops : List Op} (hrun : w₀.runAll J H ops = .ok w) :
    TwoLayers J H w (history w₀.inner.path.isSome w₀.inner.password ops) := by
  have h := runAll_refines hH hX (fresh_refines hfresh) hrun
  refine ⟨?_, ?_, ?_, ?_, ?_⟩
  · intro key keyType
    rw [h.keyPhrase_eq hJ, Layers.find_run]
  · intro op w' hop key keyType hspares
    rw [(run_refines hH hX h hop).1.keyPhrase_eq hJ, h.keyPhrase_eq hJ,
      Layers.find_run_of_spares hspares]
  · intro created password w' hop key keyType
    rw [h.keyPhrase_reopened hJ hH hX hop, Layers.disk_run]
  · intro hdisk P entropy io keyType pair phrase hgen w₁ hop created password w₂ hopen
    obtain ⟨h₁, -, -⟩ := run_refines hH hX h hop
    rw [events_generateByType hgen, if_pos hdisk] at h₁
    rw [h₁.keyPhrase_reopened hJ hH hX hopen, Layers.run_cons, Layers.run_nil, Layers.disk_step,
      StoreEvent.writtenAt, if_pos rfl]
    rfl
  · intro P seed keyType
    rfl

end Refinement

/-! ## A run -/

/-- The key that is spelled by its phrase and password, cut or filled up to 32 bytes. -/
def echoKey (phrase : String) (password : Option String) : H256 :=
  let spelled := (phrase ++ password.getD "").toList.map fun c => UInt8.ofNat c.toNat
  ⟨(spelled ++ List.replicate 32 0).take 32, by simp⟩

/-- Pairs that are their own public key; every phrase gives one. -/
def echoPair : PairT where
  Pair := H256
  Public := H256
  Entropy := String
  generateWithPhrase phrase password := (echoKey phrase password, phrase)
  fromString phrase password := some (echoKey phrase password)
  publicKey pair := pair
  asSlice key := key.bytes
  fromSlice bs := if h : bs.length = 32 then some ⟨bs, h⟩ else none
  sign pair msg := pair.bytes ++ msg

/-- `KeyTypeId(*b"test")`. -/
def testKeyType : KeyTypeId := ⟨[116, 101, 115, 116], rfl⟩

/-- A store with a password that has just been opened. -/
def openedWorld : World := ⟨⟨some ["keystore"], ∅, some "password"⟩, ∅⟩

/-- A key is generated, another is made from a seed, and the store is opened again. -/
def generateAndReopen : List Op :=
  [.generateByType echoPair "caution juice atom" .ok testKeyType,
    .insertEphemeralFromSeedByType echoPair "//Alice" testKeyType,
    .reopen (.ok ()) (some "password")]

/-- The generated key is still there, and the seed is gone. -/
theorem twoLayers_of_run_reopened : ∃ w,
    openedWorld.runAll Serde.ofStrings Hex.reference generateAndReopen = .ok w ∧
    w.keyPhraseByType Serde.ofStrings Hex.reference
      (echoKey "caution juice atom" (some "password")).bytes testKeyType =
        .ok (some "caution juice atom") ∧
    w.keyPhraseByType Serde.ofStrings Hex.reference (echoKey "//Alice" none).bytes testKeyType =
      .ok none := by
  have hcreate : KeystoreInner.create (.ok ()) (some ["keystore"]) (some "password") =
      .ok openedWorld.inner := rfl
  have hfresh : openedWorld.Fresh := create_fresh hcreate fun _ _ _ => rfl
  have hrun : ∃ w, openedWorld.runAll Serde.ofStrings Hex.reference generateAndReopen = .ok w :=
    ⟨_, rfl⟩
  obtain ⟨w, hrun⟩ := hrun
  have h := twoLayers_of_run Serde.ofStrings_readsStrings Hex.reference_lawful Hex.reference_exact
    hfresh hrun
  refine ⟨w, hrun, ?_, ?_⟩
  · rw [h.phrase]
    decide
  · rw [h.phrase]
    decide

end SubstrateClient.Keystore
