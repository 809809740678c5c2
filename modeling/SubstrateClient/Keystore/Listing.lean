import Mathlib.Data.List.Dedup
import SubstrateClient.Keystore.Layers

/-!
# Listing the public keys of a key type

`raw_public_keys` lists the keys in memory, and after them the keys that the files of the directory
are named after. A lookup asks the two layers in that order and stops at the first answer; the
listing puts them one after the other.

* `count_rawPublicKeys`: a key is listed once for each layer it is in, and no other key is listed.
* `listsOnce_iff`: so the keys with a phrase are listed once each on exactly the runs in which no
  key of the type was placed in memory, since the store was opened, and also written to disk.
* `not_listsOnce_alice`: `//Alice`, inserted as an unknown key and from its seed.
-/

namespace SubstrateClient.Keystore

open Lib Utils Rpc

/-! ## Directories -/

/-- What the system answers while a directory is read: `none`, or an error. -/
structure ReadIo where
  readDir : Option String
  entry : Option String

/-- Every step succeeds. -/
def ReadIo.ok : ReadIo := ⟨none, none⟩

/-- The entry of a directory on the way to a path. -/
def entryOf (dir path : PathBuf) : Option PathBuf :=
  if dir <+: path then path[dir.length]?.map fun name => dir ++ [name] else none

/-- `fs::read_dir`: files and directories, each once. -/
def readDir (fs : FileSystem) (dir : PathBuf) : List PathBuf :=
  (fs.keys.filterMap (entryOf dir)).dedup

theorem entryOf_eq_some {dir path entry : PathBuf} :
    entryOf dir path = some entry ↔
      ∃ name rest, path = dir ++ name :: rest ∧ entry = dir ++ [name] := by
  unfold entryOf
  constructor
  · intro h
    split_ifs at h with hpre
    obtain ⟨tail, rfl⟩ := hpre
    rw [List.getElem?_append_right le_rfl, Nat.sub_self] at h
    cases tail with
    | nil => cases h
    | cons name rest =>
      cases h
      exact ⟨name, rest, rfl, rfl⟩
  · rintro ⟨name, rest, rfl, rfl⟩
    rw [if_pos (List.prefix_append dir _), List.getElem?_append_right le_rfl, Nat.sub_self]
    rfl

theorem mem_readDir {fs : FileSystem} {dir entry : PathBuf} :
    entry ∈ readDir fs dir ↔ ∃ name rest, entry = dir ++ [name] ∧
      (fs.get (dir ++ name :: rest)).isSome = true := by
  unfold readDir
  simp only [List.mem_dedup, List.mem_filterMap, HashMap.mem_keys, entryOf_eq_some]
  constructor
  · rintro ⟨path, hpath, name, rest, rfl, rfl⟩
    exact ⟨name, rest, rfl, hpath⟩
  · rintro ⟨name, rest, rfl, hpath⟩
    exact ⟨_, hpath, name, rest, rfl, rfl⟩

/-! ## The listing -/

/-- The public key a file of the key type is named after. -/
def publicOfName (H : Hex) (id : KeyTypeId) (name : String) : Option Bytes :=
  match H.decode name with
  | .ok hex =>
    if hex.length > 4 then
      if hex.take 4 = id.bytes then some (hex.drop 4) else none
    else none
  | .error _ => none

/-- `KeystoreInner::raw_public_keys`. -/
def KeystoreInner.rawPublicKeys (self : KeystoreInner) (H : Hex) (io : ReadIo) (fs : FileSystem)
    (id : KeyTypeId) : Except Error (List Bytes) :=
  let publicKeys := self.additional.keys.filterMap fun k => if k.1 = id then some k.2 else none
  match self.path with
  | none => .ok publicKeys
  | some path =>
    match io.readDir, io.entry with
    | some e, _ | none, some e => .error (.io e)
    | none, none =>
      .ok (publicKeys ++ (readDir fs path).filterMap fun entry =>
        entry.getLast?.bind (publicOfName H id))

namespace World

/-- `raw_public_keys`, of a directory that can be read. -/
def rawPublicKeys (H : Hex) (w : World) (id : KeyTypeId) : Except Error (List Bytes) :=
  w.inner.rawPublicKeys H .ok w.fs id

/-- A new store on a directory without entries, or in memory. -/
structure Empty (w : World) : Prop where
  memory : w.inner.additional = ∅
  directory : ∀ dir, w.inner.path = some dir → readDir w.fs dir = []

/-- The bytes in the file of a key. -/
def keyFile (H : Hex) (w : World) (k : Key) : Option Bytes :=
  (w.inner.keyFilePath H k.2 k.1).bind w.fs.get

/-- The directory holds nothing but files of keys. -/
def KeyFilesOnly (H : Hex) (w : World) : Prop :=
  ∀ dir, w.inner.path = some dir → ∀ name rest, (w.fs.get (dir ++ name :: rest)).isSome = true →
    rest = [] ∧ ∃ k : Key, name = H.encode k.1.bytes ++ H.encode k.2

/-- Operations one after the other, whether they succeed or not. -/
def after (J : Serde) (H : Hex) (w : World) (ops : List Op) : World :=
  ops.foldl (fun w op => (w.run J H op).2) w

end World

/-! ## What is in the directory -/

section Files

variable {J : Serde} {H : Hex} {w w₀ : World}

theorem World.Empty.fresh (h : w.Empty) : w.Fresh where
  memory := h.memory
  directory dir hdir name := by
    by_contra hsome
    have hentry : dir ++ [name] ∈ readDir w.fs dir :=
      mem_readDir.mpr ⟨name, [], rfl, Option.isSome_iff_ne_none.mpr hsome⟩
    rw [h.directory dir hdir] at hentry
    cases hentry

theorem World.Empty.keyFilesOnly (h : w.Empty) : w.KeyFilesOnly H := by
  intro dir hdir name rest hsome
  have hentry : dir ++ [name] ∈ readDir w.fs dir := mem_readDir.mpr ⟨name, rest, rfl, hsome⟩
  rw [h.directory dir hdir] at hentry
  cases hentry

/-- A write touches one file. -/
theorem writeToFile_get {io : WriteIo} {file path : PathBuf} {data : String} {fs : FileSystem}
    (h : path ≠ file) : (writeToFile J io file data fs).2.get path = fs.get path := by
  unfold writeToFile
  split
  · rfl
  · dsimp only
    split
    · rw [HashMap.get_insert, if_neg h]
    · split
      · rw [HashMap.get_insert, if_neg h, HashMap.get_insert, if_neg h]
      · split <;> rw [HashMap.get_insert, if_neg h, HashMap.get_insert, if_neg h]

/-- An operation leaves the files alone, or writes the file of a key. -/
theorem run_fs (w : World) (op : Op) : (w.run J H op).2.fs = w.fs ∨
    ∃ (io : WriteIo) (k : Key) (file : PathBuf) (data : String),
      w.inner.keyFilePath H k.2 k.1 = some file ∧
        (w.run J H op).2.fs = (writeToFile J io file data w.fs).2 := by
  cases op with
  | generateByType P entropy io keyType =>
    rcases hgen : P.generateWithPhrase entropy w.inner.password with ⟨pair, phrase⟩
    dsimp only [World.run]
    cases hfile : w.inner.keyFilePath H (P.asSlice (P.publicKey pair)) keyType with
    | none =>
      have hpath := KeystoreInner.keyFilePath_eq_none.mp hfile
      rw [KeystoreInner.generateByType_memory hgen hpath]
      exact Or.inl rfl
    | some file =>
      rw [KeystoreInner.generateByType_file hgen hfile]
      exact Or.inr ⟨io, (keyType, _), file, phrase, hfile, rfl⟩
  | insertEphemeralFromSeedByType P seed keyType => exact Or.inl rfl
  | insertUnknown io keyType suri key =>
    dsimp only [World.run]
    unfold KeystoreInner.insertUnknown
    cases hfile : w.inner.keyFilePath H key keyType with
    | none => exact Or.inl rfl
    | some file => exact Or.inr ⟨io, (keyType, key), file, suri, hfile, rfl⟩
  | reopen created password =>
    dsimp only [World.run]
    cases KeystoreInner.create created w.inner.path password <;> exact Or.inl rfl

/-- A generated key leaves the path and the password of the store alone. -/
theorem run_generateByType (w : World) (P : PairT) (entropy : P.Entropy) (io : WriteIo)
    (keyType : KeyTypeId) :
    (w.run J H (.generateByType P entropy io keyType)).2.inner.path = w.inner.path ∧
      (w.run J H (.generateByType P entropy io keyType)).2.inner.password = w.inner.password := by
  rcases hgen : P.generateWithPhrase entropy w.inner.password with ⟨pair, phrase⟩
  dsimp only [World.run]
  cases hfile : w.inner.keyFilePath H (P.asSlice (P.publicKey pair)) keyType with
  | none =>
    have hpath := KeystoreInner.keyFilePath_eq_none.mp hfile
    rw [KeystoreInner.generateByType_memory hgen hpath]
    exact ⟨rfl, rfl⟩
  | some file =>
    rw [KeystoreInner.generateByType_file hgen hfile]
    exact ⟨rfl, rfl⟩

/-- No operation moves the store. -/
theorem run_path (w : World) (op : Op) : (w.run J H op).2.inner.path = w.inner.path := by
  cases op with
  | generateByType P entropy io keyType => exact (run_generateByType w P entropy io keyType).1
  | insertEphemeralFromSeedByType P seed keyType =>
    dsimp only [World.run]
    unfold KeystoreInner.insertEphemeralFromSeedByType
    cases P.fromString seed none <;> rfl
  | insertUnknown io keyType suri key => rfl
  | reopen created password =>
    dsimp only [World.run]
    cases hcreate : KeystoreInner.create created w.inner.path password with
    | error e => rfl
    | ok inner => exact (create_ok hcreate).2.1

/-- Every operation keeps the directory free of other entries. -/
theorem World.KeyFilesOnly.run (h : w.KeyFilesOnly H) (op : Op) :
    (w.run J H op).2.KeyFilesOnly H := by
  intro dir hdir name rest hsome
  rw [run_path] at hdir
  rcases run_fs w op with hfs | ⟨io, k, file, data, hfile, hfs⟩
  · rw [hfs] at hsome
    exact h dir hdir name rest hsome
  · rw [hfs] at hsome
    by_cases hpath : dir ++ name :: rest = file
    · obtain ⟨dir', hdir', rfl⟩ := Option.map_eq_some_iff.mp hfile
      rw [hdir] at hdir'
      cases hdir'
      obtain ⟨rfl, rfl⟩ := List.cons.inj (List.append_cancel_left hpath)
      exact ⟨rfl, k, rfl⟩
    · rw [writeToFile_get hpath] at hsome
      exact h dir hdir name rest hsome

/-- **A directory that was empty holds nothing but files of keys**, whatever failed on the way. -/
theorem World.KeyFilesOnly.after (h : w.KeyFilesOnly H) (ops : List Op) :
    (w.after J H ops).KeyFilesOnly H := by
  induction ops generalizing w with
  | nil => exact h
  | cons op ops ih => exact ih (h.run op)

/-- Operations that all succeed, one after the other. -/
theorem after_eq_of_runAll {ops : List Op} : ∀ {w₀ : World}, w₀.runAll J H ops = .ok w →
    w = w₀.after J H ops := by
  induction ops with
  | nil =>
    intro w₀ h
    cases h
    rfl
  | cons op ops ih =>
    intro w₀ h
    unfold World.runAll at h
    split at h
    · cases h
    · rename_i w₁ hop
      rw [ih h]
      unfold World.after
      rw [List.foldl_cons, hop]

end Files

/-! ## How often a key is listed -/

section Count

variable {J : Serde} {H : Hex} {w w₀ : World} {l : Layers Key String String}

/-- A file name lists the key behind the digits of its key type, unless it is empty. -/
theorem publicOfName_eq_some {id : KeyTypeId} {name : String} {key : Bytes} :
    publicOfName H id name = some key ↔ H.decode name = .ok (id.bytes ++ key) ∧ key ≠ [] := by
  unfold publicOfName
  cases H.decode name with
  | error e => simp
  | ok hex =>
    dsimp only
    constructor
    · intro h
      split_ifs at h with hlen hid
      cases h
      refine ⟨congrArg _ (hid ▸ (List.take_append_drop 4 hex).symm), fun hnil => ?_⟩
      have := List.drop_eq_nil_iff.mp hnil
      omega
    · rintro ⟨hhex, hkey⟩
      cases hhex
      have hlen : (id.bytes ++ key).length > 4 := by
        have := List.length_pos_iff.mpr hkey
        rw [List.length_append, id.size]
        omega
      rw [if_pos hlen, List.take_left' id.size, if_pos rfl, List.drop_left' id.size]

/-- The file of a key lists that key. -/
theorem publicOfName_encode (hH : H.Lawful) (hX : H.Exact) {id : KeyTypeId} {k : Key}
    {key : Bytes} (hkey : key ≠ []) :
    publicOfName H id (H.encode k.1.bytes ++ H.encode k.2) = some key ↔ k = (id, key) := by
  rw [publicOfName_eq_some, decode_append hH hX, Except.ok.injEq, and_iff_left hkey]
  constructor
  · intro h
    obtain ⟨hid, hkey⟩ := List.append_inj h (by rw [k.1.size, id.size])
    obtain ⟨⟨bytes, size⟩, key'⟩ := k
    cases id
    cases hid
    cases hkey
    rfl
  · rintro rfl
    rfl

/-- A key in memory is listed once. -/
theorem count_memory (id : KeyTypeId) (key : Bytes) :
    (w.inner.additional.keys.filterMap fun k => if k.1 = id then some k.2 else none).count key =
      if (w.inner.additional.get (id, key)).isSome = true then 1 else 0 := by
  refine count_filterMap_of_nodup (AList.keys_nodup _) (fun k _ => ?_) HashMap.mem_keys
  obtain ⟨id', key'⟩ := k
  by_cases hid : id' = id
  · simp [hid]
  · simp [hid]

/-- A key with a file is listed once for it. -/
theorem count_files (hH : H.Lawful) (hX : H.Exact) (hfiles : w.KeyFilesOnly H) {dir : PathBuf}
    (hdir : w.inner.path = some dir) (id : KeyTypeId) {key : Bytes} (hkey : key ≠ []) :
    ((readDir w.fs dir).filterMap fun entry =>
        entry.getLast?.bind (publicOfName H id)).count key =
      if (w.fs.get (dir ++ [H.encode id.bytes ++ H.encode key])).isSome = true then 1 else 0 := by
  have hfile : ∀ name, dir ++ [name] ∈ readDir w.fs dir ↔
      (w.fs.get (dir ++ [name])).isSome = true := by
    intro name
    rw [mem_readDir]
    constructor
    · rintro ⟨name', rest, hname, hget⟩
      obtain ⟨rfl, -⟩ := List.cons.inj (List.append_cancel_left hname)
      obtain ⟨rfl, -⟩ := hfiles dir hdir name rest hget
      exact hget
    · exact fun hget => ⟨name, [], rfl, hget⟩
  refine count_filterMap_of_nodup (List.nodup_dedup _) (fun entry hentry => ?_) (hfile _)
  obtain ⟨name, rest, rfl, hget⟩ := mem_readDir.mp hentry
  obtain ⟨-, k, rfl⟩ := hfiles dir hdir name rest hget
  rw [List.getLast?_concat, Option.bind_some, publicOfName_encode hH hX hkey,
    List.append_cancel_left_eq, List.singleton_inj]
  constructor
  · rintro rfl
    rfl
  · intro hname
    have hk : w.inner.keyFilePath H k.2 k.1 = _ := KeystoreInner.keyFilePath_eq_some hdir
    rw [hname] at hk
    exact KeystoreInner.keyFilePath_inj hH hX hk (KeystoreInner.keyFilePath_eq_some hdir)

/-- No file lists the empty key. -/
theorem count_files_nil (dir : PathBuf) (id : KeyTypeId) :
    ((readDir w.fs dir).filterMap fun entry =>
      entry.getLast?.bind (publicOfName H id)).count [] = 0 := by
  rw [List.count_eq_zero, List.mem_filterMap]
  rintro ⟨entry, -, hentry⟩
  obtain ⟨name, -, hname⟩ := Option.bind_eq_some_iff.mp hentry
  exact (publicOfName_eq_some.mp hname).2 rfl

/-- A directory that can be read is listed. -/
theorem rawPublicKeys_ok (id : KeyTypeId) : ∃ keys, w.rawPublicKeys H id = .ok keys := by
  unfold World.rawPublicKeys KeystoreInner.rawPublicKeys
  cases w.inner.path with
  | none => exact ⟨_, rfl⟩
  | some dir => exact ⟨_, rfl⟩

/-- **A key is listed once for each layer it is in**, and not at all if it is in none. The empty key
has no file name. -/
theorem count_rawPublicKeys (hH : H.Lawful) (hX : H.Exact) (hfiles : w.KeyFilesOnly H)
    {id : KeyTypeId} {keys : List Bytes} (hkeys : w.rawPublicKeys H id = .ok keys) (key : Bytes) :
    keys.count key = (w.inner.additional.get (id, key)).toList.length +
      if key = [] then 0 else (w.keyFile H (id, key)).toList.length := by
  have hone : ∀ {α : Type} (x : Option α),
      (if x.isSome = true then 1 else 0) = x.toList.length := by
    rintro α (_ | x) <;> rfl
  have hmemory := count_memory (w := w) id key
  rw [hone] at hmemory
  unfold World.rawPublicKeys KeystoreInner.rawPublicKeys at hkeys
  cases hdir : w.inner.path with
  | none =>
    have hnone : w.keyFile H (id, key) = none := by
      unfold World.keyFile
      rw [KeystoreInner.keyFilePath_eq_none.mpr hdir]
      rfl
    rw [hdir] at hkeys
    cases hkeys
    rw [hmemory, hnone]
    split_ifs <;> rfl
  | some dir =>
    rw [hdir] at hkeys
    cases hkeys
    rw [List.count_append, hmemory]
    congr 1
    by_cases hnil : key = []
    · subst hnil
      rw [count_files_nil, if_pos rfl]
    · rw [count_files hH hX hfiles hdir id hnil, if_neg hnil, hone]
      unfold World.keyFile
      rw [KeystoreInner.keyFilePath_eq_some hdir]
      rfl

/-- The file of a key holds what the layers hold on disk. -/
theorem Refines.keyFile_eq (h : Refines J H w l) (k : Key) :
    w.keyFile H k = (l.disk k).map fun phrase => asBytes (J.toString (.str phrase)) := by
  unfold World.keyFile
  cases hfile : w.inner.keyFilePath H k.2 k.1 with
  | none =>
    rw [h.noDisk (KeystoreInner.keyFilePath_eq_none.mp hfile)]
    rfl
  | some file => exact h.disk k file hfile

/-! ## Every key once -/

/-- The listing is what lookup finds: every key with a phrase once, and no other key. -/
structure ListsOnce (J : Serde) (H : Hex) (w : World) (id : KeyTypeId) (keys : List Bytes) :
    Prop where
  once : ∀ key phrase, w.keyPhraseByType J H key id = .ok (some phrase) → keys.count key = 1
  others : ∀ key ∈ keys, ∃ phrase, w.keyPhraseByType J H key id = .ok (some phrase)

/-- The public keys the operation writes are not empty. -/
def Op.KeysNonempty : Op → Prop
  | .generateByType P _ _ _ => ∀ key : P.Public, P.asSlice key ≠ []
  | .insertUnknown _ _ _ key => key ≠ []
  | .insertEphemeralFromSeedByType .. | .reopen .. => True

/-- In such a run nothing is written for the empty key. -/
theorem lastWritten_nil {onDisk : Bool} (id : KeyTypeId) {ops : List Op}
    (hops : ∀ op ∈ ops, op.KeysNonempty) (password : Option String) :
    lastWritten (history onDisk password ops) (id, []) = none := by
  have hop : ∀ {op : Op} {password : Option String}, op.KeysNonempty →
      ∀ e ∈ op.events onDisk password, e.writtenAt (id, []) = none := by
    intro op password hne e he
    cases op with
    | generateByType P entropy io keyType =>
      dsimp only [Op.events] at he
      split_ifs at he
      · rw [List.mem_singleton.mp he]
        exact if_neg fun h => hne _ (Prod.ext_iff.mp h).2
      · rw [List.mem_singleton.mp he]
        rfl
    | insertEphemeralFromSeedByType P seed keyType =>
      dsimp only [Op.events] at he
      split at he
      · rw [List.mem_singleton.mp he]
        rfl
      · cases he
    | insertUnknown io keyType suri key =>
      dsimp only [Op.events] at he
      split_ifs at he
      · rw [List.mem_singleton.mp he]
        exact if_neg fun h => hne (Prod.ext_iff.mp h).2
      · cases he
    | reopen created password =>
      rw [List.mem_singleton.mp he]
      rfl
  refine lastWritten_eq_none fun e he => ?_
  induction ops generalizing password with
  | nil => cases he
  | cons op ops ih =>
    obtain ⟨hhead, htail⟩ := List.forall_mem_cons.mp hops
    rcases List.mem_append.mp he with he | he
    · exact hop hhead e he
    · exact ih htail _ he

/-- A key is listed once for each of the layers. -/
theorem Refines.count_eq (hH : H.Lawful) (hX : H.Exact) (hfiles : w.KeyFilesOnly H)
    (h : Refines J H w l) {id : KeyTypeId} (hnil : l.disk (id, []) = none) {keys : List Bytes}
    (hkeys : w.rawPublicKeys H id = .ok keys) (key : Bytes) :
    keys.count key = (l.memory (id, key)).toList.length + (l.disk (id, key)).toList.length := by
  rw [count_rawPublicKeys hH hX hfiles hkeys, h.memory, h.keyFile_eq]
  by_cases hkey : key = []
  · rw [if_pos hkey, hkey, hnil]
    rfl
  · rw [if_neg hkey]
    cases l.disk (id, key) <;> rfl

/-- A key has a phrase when it is in one of the layers. -/
theorem Refines.found_iff (hJ : J.ReadsStrings) (h : Refines J H w l) (id : KeyTypeId)
    (key : Bytes) : (∃ phrase, w.keyPhraseByType J H key id = .ok (some phrase)) ↔
      l.memory (id, key) ≠ none ∨ l.disk (id, key) ≠ none := by
  simp only [h.keyPhrase_eq hJ, Layers.find, Except.ok.injEq]
  cases l.memory (id, key) <;> cases l.disk (id, key) <;> simp

/-- **What is listed is what lookup finds.** -/
theorem Refines.mem_rawPublicKeys (hJ : J.ReadsStrings) (hH : H.Lawful) (hX : H.Exact)
    (hfiles : w.KeyFilesOnly H) (h : Refines J H w l) {id : KeyTypeId}
    (hnil : l.disk (id, []) = none) {keys : List Bytes} (hkeys : w.rawPublicKeys H id = .ok keys)
    (key : Bytes) :
    key ∈ keys ↔ ∃ phrase, w.keyPhraseByType J H key id = .ok (some phrase) := by
  rw [h.found_iff hJ, ← List.count_pos_iff, h.count_eq hH hX hfiles hnil hkeys]
  cases l.memory (id, key) <;> cases l.disk (id, key) <;> simp

/-- The listing is what lookup finds, each key once, when no key is in both layers. -/
theorem Refines.lists_layers (hJ : J.ReadsStrings) (hH : H.Lawful) (hX : H.Exact)
    (hfiles : w.KeyFilesOnly H) (h : Refines J H w l) {id : KeyTypeId}
    (hnil : l.disk (id, []) = none) {keys : List Bytes} (hkeys : w.rawPublicKeys H id = .ok keys) :
    ListsOnce J H w id keys ↔ ∀ key, l.memory (id, key) = none ∨ l.disk (id, key) = none := by
  have hcount := h.count_eq hH hX hfiles hnil hkeys
  have hfound := h.found_iff hJ id
  constructor
  · intro honce key
    by_contra hboth
    push Not at hboth
    obtain ⟨phrase, hphrase⟩ := (hfound key).mpr (Or.inl hboth.1)
    have htwice := honce.once key phrase hphrase
    obtain ⟨m, hm⟩ := Option.ne_none_iff_exists'.mp hboth.1
    obtain ⟨d, hd⟩ := Option.ne_none_iff_exists'.mp hboth.2
    rw [hcount, hm, hd] at htwice
    cases htwice
  · intro hone
    constructor
    · intro key phrase hphrase
      have hsome := (hfound key).mp ⟨phrase, hphrase⟩
      rw [hcount]
      rcases hone key with hnone | hnone
      · obtain ⟨d, hd⟩ := Option.ne_none_iff_exists'.mp (hsome.resolve_left fun h => h hnone)
        rw [hnone, hd]
        rfl
      · obtain ⟨m, hm⟩ := Option.ne_none_iff_exists'.mp (hsome.resolve_right fun h => h hnone)
        rw [hnone, hm]
        rfl
    · exact fun key => (h.mem_rawPublicKeys hJ hH hX hfiles hnil hkeys key).mp

/-- **Every key is listed once, and no other key,** after exactly the runs in which no key of the
type was placed in memory, since the store was opened, and also written to disk. -/
theorem listsOnce_iff (hJ : J.ReadsStrings) (hH : H.Lawful) (hX : H.Exact) (hempty : w₀.Empty)
    {ops : List Op} (hops : ∀ op ∈ ops, op.KeysNonempty) (hrun : w₀.runAll J H ops = .ok w)
    (id : KeyTypeId) :
    (∃ keys, w.rawPublicKeys H id = .ok keys ∧ ListsOnce J H w id keys) ↔
      ∀ key, lastPlaced (history w₀.inner.path.isSome w₀.inner.password ops) (id, key) = none ∨
        lastWritten (history w₀.inner.path.isSome w₀.inner.password ops) (id, key) = none := by
  have h := runAll_refines hH hX (fresh_refines hempty.fresh) hrun
  have hfiles : w.KeyFilesOnly H := after_eq_of_runAll hrun ▸ hempty.keyFilesOnly.after ops
  have hnil : lastWritten (history w₀.inner.path.isSome w₀.inner.password ops) (id, []) = none :=
    lastWritten_nil id hops w₀.inner.password
  rw [← Layers.disk_run] at hnil
  obtain ⟨keys, hkeys⟩ := rawPublicKeys_ok (H := H) (w := w) id
  have hiff := h.lists_layers hJ hH hX hfiles hnil hkeys
  simp only [Layers.memory_run, Layers.disk_run] at hiff
  rw [← hiff]
  constructor
  · rintro ⟨keys', hkeys', honce⟩
    rw [hkeys] at hkeys'
    cases hkeys'
    exact honce
  · exact fun honce => ⟨keys, hkeys, honce⟩

end Count

/-! ## A key in both layers -/

/-- A store without a password that has just been opened. -/
def plainWorld : World := ⟨⟨some ["keystore"], ∅, none⟩, ∅⟩

/-- A key is generated, and another made from a seed. -/
def generateAndSeed : List Op :=
  [.generateByType echoPair "caution juice atom" .ok testKeyType,
    .insertEphemeralFromSeedByType echoPair "//Alice" testKeyType]

/-- The key of `//Alice` is inserted as an unknown key, and then made from its seed. -/
def aliceTwice : List Op :=
  [.insertUnknown .ok testKeyType "//Alice" (echoKey "//Alice" none).bytes,
    .insertEphemeralFromSeedByType echoPair "//Alice" testKeyType]

theorem plainWorld_empty : plainWorld.Empty := ⟨rfl, fun _ _ => rfl⟩

theorem echoPair_nonempty (key : H256) : key.bytes ≠ [] := by
  intro h
  have hsize := key.size
  rw [h] at hsize
  cases hsize

/-- Two keys, one in each layer, are listed once each. -/
theorem listsOnce_iff_generateAndSeed : ∃ w keys,
    plainWorld.runAll Serde.ofStrings Hex.reference generateAndSeed = .ok w ∧
    w.rawPublicKeys Hex.reference testKeyType = .ok keys ∧
    ListsOnce Serde.ofStrings Hex.reference w testKeyType keys := by
  obtain ⟨w, hrun⟩ : ∃ w,
      plainWorld.runAll Serde.ofStrings Hex.reference generateAndSeed = .ok w := ⟨_, rfl⟩
  have hops : ∀ op ∈ generateAndSeed, op.KeysNonempty := by
    simp [generateAndSeed, Op.KeysNonempty, echoPair, echoPair_nonempty]
  have hplaced : ∀ key, key ≠ (echoKey "//Alice" none).bytes →
      lastPlaced (history true none generateAndSeed) (testKeyType, key) = none := by
    intro key hkey
    show lastPlaced ([.wrote _ _] ++ [.placed (testKeyType, (echoKey "//Alice" none).bytes) _]) _ =
      none
    rw [lastPlaced_concat, StoreEvent.placedAt, if_neg fun h => hkey (Prod.ext_iff.mp h).2.symm]
    rfl
  obtain ⟨keys, hkeys, honce⟩ := (listsOnce_iff Serde.ofStrings_readsStrings Hex.reference_lawful
      Hex.reference_exact plainWorld_empty hops hrun testKeyType).mpr fun key => by
    by_cases hkey : key = (echoKey "//Alice" none).bytes
    · subst hkey
      exact Or.inr (by decide)
    · exact Or.inl (hplaced key hkey)
  exact ⟨w, keys, hrun, hkeys, honce⟩

/-- **`//Alice` is listed twice.** -/
theorem not_listsOnce_alice : ∃ w keys,
    plainWorld.runAll Serde.ofStrings Hex.reference aliceTwice = .ok w ∧
    w.rawPublicKeys Hex.reference testKeyType = .ok keys ∧
    keys.count (echoKey "//Alice" none).bytes = 2 ∧
    ¬ ListsOnce Serde.ofStrings Hex.reference w testKeyType keys := by
  obtain ⟨w, hrun⟩ : ∃ w,
      plainWorld.runAll Serde.ofStrings Hex.reference aliceTwice = .ok w := ⟨_, rfl⟩
  have h := runAll_refines Hex.reference_lawful Hex.reference_exact
    (fresh_refines plainWorld_empty.fresh) hrun
  have hfiles : w.KeyFilesOnly Hex.reference :=
    after_eq_of_runAll hrun ▸ plainWorld_empty.keyFilesOnly.after aliceTwice
  obtain ⟨keys, hkeys⟩ := rawPublicKeys_ok (H := Hex.reference) (w := w) testKeyType
  have hcount := count_rawPublicKeys Hex.reference_lawful Hex.reference_exact hfiles hkeys
    (echoKey "//Alice" none).bytes
  have hphrase : w.keyPhraseByType Serde.ofStrings Hex.reference (echoKey "//Alice" none).bytes
      testKeyType = .ok (some "//Alice") := by
    rw [h.keyPhrase_eq Serde.ofStrings_readsStrings, Layers.find_run]
    decide
  rw [h.memory, h.keyFile_eq, Layers.memory_run, Layers.disk_run,
    if_neg (echoPair_nonempty (echoKey "//Alice" none))] at hcount
  have htwice : keys.count (echoKey "//Alice" none).bytes = 2 := hcount.trans (by decide)
  refine ⟨w, keys, hrun, hkeys, htwice, fun honce => ?_⟩
  have hone := honce.once _ _ hphrase
  rw [htwice] at hone
  cases hone


end SubstrateClient.Keystore
