import Mathlib.Data.List.Chain
import SubstrateClient.Keystore.Traits

/-!
# How long a key lives

A key that is created goes to the directory or to memory, and what is in memory is gone when the
store is opened again. `has_keys` takes the lock of the store anew for each key it is asked for, so
other calls may come in between.

* `created_lives`: until when a created key is listed, held and signed with.
* `hasKeys_between`: whatever calls succeed while `has_keys` runs, it answers what it would have
  answered before them or after them.
-/

namespace SubstrateClient.Keystore

open Lib Utils Rpc

/-! ## A key that was created -/

/-- What has become of a key that was created with a phrase: `alive` says whether it is still there.
-/
structure Lives (J : Serde) (H : Hex) (C : Scheme → PairT) (P : PairT) (w : World)
    (key : P.Public) (keyType : KeyTypeId) (phrase : String) (alive : Prop) : Prop where
  listed : key ∈ w.publicKeysOf H P .ok keyType ↔ alive
  held : w.hasKeys J H [(P.asSlice key, keyType)] = true ↔ alive
  signs : Retrieved J H C P w key keyType ↔ alive ∧ P.Derives phrase w.inner.password key

section Lifetime

variable {J : Serde} {H : Hex} {C : Scheme → PairT} {P : PairT} {w w₀ w₁ : World} {key : P.Public}
  {keyType : KeyTypeId}

/-- The operation of a `*_generate_new`. -/
def Op.generateNew (P : PairT) (entropy : P.Entropy) (io : WriteIo) (id : KeyTypeId) :
    Option String → Op
  | some seed => .insertEphemeralFromSeedByType P seed id
  | none => .generateByType P entropy io id

/-- Each call that changes the store is an operation of a run. -/
theorem generateNewBy_run (w : World) (entropy : P.Entropy) (io : WriteIo) (id : KeyTypeId)
    (seed : Option String) : (w.generateNewBy J H P entropy io id seed).2 =
      (w.run J H (.generateNew P entropy io id seed)).2 := by
  unfold World.generateNewBy
  cases seed with
  | some seed =>
    dsimp only [Creation.run, Op.generateNew, World.run]
    rcases w.inner.insertEphemeralFromSeedByType P seed id with ⟨_ | pair, inner⟩ <;> rfl
  | none =>
    dsimp only [Creation.run, Op.generateNew, World.run]
    rcases w.inner.generateByType J H P entropy io w.fs id with ⟨_ | pair, inner, fs⟩ <;> rfl

theorem generate_run (w : World) (A : AppPair) (entropy : A.generic.Entropy) (io : WriteIo) :
    (w.generate J H A entropy io).2 = (w.run J H (.generateByType A.generic entropy io A.id)).2 :=
  rfl

theorem insertUnknown_run (w : World) (io : WriteIo) (keyType : KeyTypeId) (suri : String)
    (key : Bytes) : (w.insertUnknown J H io keyType suri key).2 =
      (w.run J H (.insertUnknown io keyType suri key)).2 :=
  rfl

/-- The phrase that a `*_generate_new` keeps. -/
def PairT.newPhrase (P : PairT) (password : Option String) (entropy : P.Entropy)
    (seed : Option String) : String :=
  seed.getD (P.generateWithPhrase entropy password).2

/-- What a `*_generate_new` does when it succeeds: a generated phrase is written to the directory,
and every other phrase is placed in memory. -/
theorem generateNewBy_ok {entropy : P.Entropy} {io : WriteIo} {seed : Option String}
    (h : w.generateNewBy J H P entropy io keyType seed = (.ok key, w₁)) :
    w₁ = (w.run J H (.generateNew P entropy io keyType seed)).2 ∧
      w.effects J (.generateNew P entropy io keyType seed) =
        [if seed = none ∧ w.inner.path.isSome = true then
            .wrote (keyType, P.asSlice key)
              (asBytes (J.toString (.str (P.newPhrase w.inner.password entropy seed))))
          else .placed (keyType, P.asSlice key) (P.newPhrase w.inner.password entropy seed)] ∧
      (seed = none → P.publicKey (P.generateWithPhrase entropy w.inner.password).1 = key) := by
  have hworld := generateNewBy_run (J := J) (H := H) w entropy io keyType seed
  rw [h] at hworld
  refine ⟨hworld, ?_⟩
  unfold World.generateNewBy at h
  cases seed with
  | some seed =>
    dsimp only [Creation.run] at h
    rcases hres : w.inner.insertEphemeralFromSeedByType P seed keyType with ⟨_ | pair, inner⟩
    · simp [hres] at h
    · simp only [hres, Prod.mk.injEq, Except.ok.injEq] at h
      obtain ⟨rfl, rfl⟩ := h
      obtain ⟨hpair, -⟩ := KeystoreInner.insertEphemeralFromSeedByType_ok hres
      exact ⟨by simp [Op.generateNew, World.effects, hpair, PairT.newPhrase], by simp⟩
  | none =>
    dsimp only [Creation.run] at h
    rcases hgen : P.generateWithPhrase entropy w.inner.password with ⟨pair, phrase⟩
    rcases hres : w.inner.generateByType J H P entropy io w.fs keyType with ⟨_ | made, inner, fs⟩
    · simp [hres] at h
    · simp only [hres, Prod.mk.injEq, Except.ok.injEq] at h
      obtain ⟨rfl, rfl⟩ := h
      obtain ⟨rfl, hstored⟩ := KeystoreInner.generateByType_ok hgen hres
      refine ⟨?_, fun _ => rfl⟩
      dsimp only [Op.generateNew]
      rw [effects_generateByType hgen]
      simp only [PairT.newPhrase, hgen, Option.getD_none, true_and]
      rcases hstored with ⟨file, hfile, hfs, rfl⟩ | ⟨hnone, -, -⟩
      · rw [KeystoreInner.generateByType_file hgen hfile] at hres
        have hwrite : (writeToFile J io file phrase w.fs).1 = .ok () := by
          cases hw : (writeToFile J io file phrase w.fs).1 with
          | ok _ => rfl
          | error e => simp [hw, Except.map] at hres
        simp [KeystoreInner.isSome_of_keyFilePath hfile, left_of_ok hwrite]
      · simp [hnone]

theorem after_path (w : World) (ops : List Op) :
    (w.after J H ops).inner.path = w.inner.path := by
  induction ops generalizing w with
  | nil => rfl
  | cons op ops ih => exact (ih _).trans (run_path w op)

/-- The phrase of a key that nothing else happened to: in its file it stays, and in memory it stays
until the store is opened again. -/
theorem hasPhrase_created (hJ : J.ReadsStrings) {es fs : List (StoreEvent Key String Bytes)}
    {k : Key} {phrase : String} (hes : ∀ e ∈ es, e.Leaves k) (hfs : ∀ e ∈ fs, e.Leaves k)
    (onDisk : Prop) [Decidable onDisk] {all : List (StoreEvent Key String Bytes)}
    (hall : all = es ++ (if onDisk then .wrote k (asBytes (J.toString (.str phrase)))
      else .placed k phrase) :: fs) :
    (∀ p, HasPhrase J all k p ↔ (onDisk ∨ ∀ e ∈ fs, e.isReopened = false) ∧ phrase = p) ∧
      (0 < (lastPlaced all k).toList.length + (lastWritten all k).toList.length ↔
        onDisk ∨ ∀ e ∈ fs, e.isReopened = false) := by
  subst hall
  unfold HasPhrase
  by_cases hdisk : onDisk
  · have hplaced :
        lastPlaced (es ++ .wrote k (asBytes (J.toString (.str phrase))) :: fs) k = none := by
      refine lastPlaced_eq_none fun e he => ?_
      rcases List.mem_append.mp he with he | he
      · exact (hes e he).1
      · rcases List.mem_cons.mp he with rfl | he
        · rfl
        · exact (hfs e he).1
    rw [if_pos hdisk, hplaced, lastWritten_wrote _ _ hfs]
    simp [hdisk, readString_toString hJ]
  · have hwritten : lastWritten (es ++ .placed k phrase :: fs) k = none := by
      refine lastWritten_eq_none fun e he => ?_
      rcases List.mem_append.mp he with he | he
      · exact (hes e he).2
      · rcases List.mem_cons.mp he with rfl | he
        · rfl
        · exact (hfs e he).2
    rw [if_neg hdisk, hwritten, lastPlaced_placed _ _ hfs]
    by_cases hopen : ∀ e ∈ fs, e.isReopened = false
    · have hany : fs.any StoreEvent.isReopened = false := by simpa using hopen
      rw [hany]
      simpa [hdisk] using hopen
    · have hany : fs.any StoreEvent.isReopened = true := by simpa using hopen
      simp [hdisk, hany, hopen]

/-- A key whose one phrase is known. -/
theorem World.Contents.lives (hH : H.Lawful) (hX : H.Exact) (hP : P.Lawful) (hB : P.ReadsBytes)
    {es : List (StoreEvent Key String Bytes)} (h : w.Contents H (Layers.empty.run es))
    (hfiles : w.KeyFilesOnly H) {phrase : String} {alive : Prop}
    (hphrase : ∀ p, HasPhrase J es (keyType, P.asSlice key) p ↔ alive ∧ phrase = p)
    (hlisted : 0 < (lastPlaced es (keyType, P.asSlice key)).toList.length +
      (lastWritten es (keyType, P.asSlice key)).toList.length ↔ alive) :
    Lives J H C P w key keyType phrase alive where
  listed := by
    rw [← List.count_pos_iff, h.count_publicKeysOf hH hX hP hB hfiles, Layers.memory_run,
      Layers.disk_run, hlisted]
  held := by simp [hasKeys_iff, hasKey_iff, h.phrase_iff, hphrase]
  signs := by
    constructor
    · intro hget
      obtain ⟨⟨pair, hpair, -⟩, -⟩ := id hget
      obtain ⟨p, hp⟩ := phrase_of_keyPair hpair
      obtain ⟨halive, rfl⟩ := (hphrase p).mp ((h.phrase_iff _ _ _).mp hp)
      exact ⟨halive, (retrieved_iff_derives hP hp).mp hget⟩
    · rintro ⟨halive, hderives⟩
      have hp := (h.phrase_iff _ _ _).mpr ((hphrase phrase).mpr ⟨halive, rfl⟩)
      exact (retrieved_iff_derives hP hp).mpr hderives

/-- **How long a key lives that was created,** when nothing else happens to it: as long as the store
if it was generated into a directory, and until the store is opened again otherwise. As long as it
lives it is listed and held, and it signs if its phrase derives it under the password of that time;
a generated phrase does so under the password it was generated with. -/
theorem created_lives (hJ : J.ReadsStrings) (hH : H.Lawful) (hX : H.Exact) (hP : P.Lawful)
    (hB : P.ReadsBytes) (hempty : w₀.Empty) {before later : List Op} {entropy : P.Entropy}
    {io : WriteIo} {seed : Option String}
    (hnew : (w₀.after J H before).generateNewBy J H P entropy io keyType seed = (.ok key, w₁))
    (hbefore : ∀ e ∈ w₀.trace J H before, e.Leaves (keyType, P.asSlice key))
    (hlater : ∀ e ∈ w₁.trace J H later, e.Leaves (keyType, P.asSlice key)) :
    Lives J H C P (w₁.after J H later) key keyType
      (P.newPhrase (w₀.after J H before).inner.password entropy seed)
      ((seed = none ∧ w₀.inner.path.isSome = true) ∨
        ∀ e ∈ w₁.trace J H later, e.isReopened = false) ∧
    (seed = none →
      (w₁.after J H later).inner.password = (w₀.after J H before).inner.password →
      P.Derives (P.newPhrase (w₀.after J H before).inner.password entropy seed)
        (w₁.after J H later).inner.password key) := by
  obtain ⟨rfl, heffects, hkey⟩ := generateNewBy_ok hnew
  have h := ((hempty.contents.after (J := J) hH hX before).run (J := J) hH hX
    (.generateNew P entropy io keyType seed)).after (J := J) hH hX later
  have hfiles := ((hempty.keyFilesOnly (H := H).after (J := J) before).run (J := J)
    (.generateNew P entropy io keyType seed)).after (J := J) later
  rw [← Layers.run_append, ← Layers.run_append, heffects, List.singleton_append, after_path] at h
  obtain ⟨hphrase, hlisted⟩ := hasPhrase_created hJ hbefore hlater
    (seed = none ∧ w₀.inner.path.isSome = true) rfl
  refine ⟨h.lives hH hX hP hB hfiles hphrase hlisted, ?_⟩
  rintro rfl hpassword
  refine ⟨_, ?_, hkey rfl⟩
  rw [hpassword]
  exact hP.fromString_generate entropy (w₀.after J H before).inner.password

end Lifetime

/-- `//Alice` is made from its seed, and the store is opened again. -/
def seedAndReopen : List Op :=
  [.insertEphemeralFromSeedByType (taggedPair "sr") "//Alice" testKeyType, .reopen (.ok ()) none]

/-- A key that was generated into the directory outlives the memory, and signs. -/
theorem created_lives_generated : ∃ w,
    plainWorld.sr25519GenerateNew Serde.ofStrings Hex.reference taggedSchemes "caution juice atom"
      .ok testKeyType none = (.ok (echoKey "srcaution juice atom" none), w) ∧
    (w.after Serde.ofStrings Hex.reference seedAndReopen).hasKeys Serde.ofStrings Hex.reference
      [((echoKey "srcaution juice atom" none).bytes, testKeyType)] = true ∧
    Retrieved Serde.ofStrings Hex.reference taggedSchemes (taggedPair "sr")
      (w.after Serde.ofStrings Hex.reference seedAndReopen)
      (echoKey "srcaution juice atom" none) testKeyType := by
  obtain ⟨w, hnew⟩ : ∃ w, (plainWorld.after Serde.ofStrings Hex.reference []).generateNewBy
      Serde.ofStrings Hex.reference (taggedPair "sr") "caution juice atom" .ok testKeyType none =
        (.ok (echoKey "srcaution juice atom" none), w) := ⟨_, rfl⟩
  have hlater : ∀ e ∈ w.trace Serde.ofStrings Hex.reference seedAndReopen,
      e.Leaves (testKeyType, (echoKey "srcaution juice atom" none).bytes) := by
    obtain ⟨rfl, -, -⟩ := generateNewBy_ok hnew
    show ∀ e ∈ [StoreEvent.placed (testKeyType, (echoKey "sr//Alice" none).bytes) "//Alice",
      .reopened], e.Leaves (testKeyType, (echoKey "srcaution juice atom" none).bytes)
    intro e he
    simp only [List.mem_cons, List.not_mem_nil, or_false] at he
    rcases he with rfl | rfl
    · exact ⟨by decide, rfl⟩
    · exact ⟨rfl, rfl⟩
  obtain ⟨hlives, hderives⟩ := created_lives (C := taggedSchemes) Serde.ofStrings_readsStrings
    Hex.reference_lawful Hex.reference_exact (taggedPair_lawful "sr") (taggedPair_readsBytes "sr")
    plainWorld_empty hnew (by simp [World.trace]) hlater
  have hpassword : (w.after Serde.ofStrings Hex.reference seedAndReopen).inner.password = none := by
    obtain ⟨rfl, -, -⟩ := generateNewBy_ok hnew
    rfl
  refine ⟨w, hnew, hlives.held.mpr (Or.inl ⟨rfl, rfl⟩), hlives.signs.mpr ⟨Or.inl ⟨rfl, rfl⟩, ?_⟩⟩
  exact hderives rfl hpassword

/-! ## Calls in between -/

/-- The operation does not open the store again. -/
def Op.Stays : Op → Prop
  | .reopen .. => False
  | .generateByType .. | .insertEphemeralFromSeedByType .. | .insertUnknown .. => True

/-- Other calls have succeeded in between. -/
def Later (J : Serde) (H : Hex) (w w' : World) : Prop :=
  ∃ ops, (∀ op ∈ ops, op.Stays) ∧ w.runAll J H ops = .ok w'

/-- `has_keys`, where the lock is taken for each key in the state it finds. -/
def hasKeysAt (J : Serde) (H : Hex) (readings : List (World × Bytes × KeyTypeId)) : Bool :=
  readings.all fun (w, p, t) => w.hasKey J H p t

/-- The layers hold a phrase of the key. -/
def Held (J : Serde) (l : Layers Key String Bytes) (k : Key) : Prop :=
  l.memory k ≠ none ∨ ∃ bytes phrase, l.disk k = some bytes ∧ readString J bytes = .ok phrase

section Between

variable {J : Serde} {H : Hex} {w w' : World} {l : Layers Key String Bytes}

theorem World.Contents.hasKey_iff (h : w.Contents H l) (key : Bytes) (keyType : KeyTypeId) :
    w.hasKey J H key keyType = true ↔ Held J l (keyType, key) := by
  unfold World.hasKey Held
  rw [keyPhraseByType_eq, h.memory, h.files]
  cases l.memory (keyType, key) with
  | some phrase => simp [Except.toOption]
  | none =>
    cases l.disk (keyType, key) with
    | none => simp [Except.toOption]
    | some bytes => cases hread : readString J bytes <;> simp [hread, Except.map, Except.toOption]

/-- What is held stays held when something is placed, or left that can be read. -/
theorem Held.run {k : Key} {es : List (StoreEvent Key String Bytes)}
    (hopen : ∀ e ∈ es, e.isReopened = false)
    (hread : ∀ k bytes, .wrote k bytes ∈ es → ∃ phrase, readString J bytes = .ok phrase)
    (h : Held J l k) : Held J (l.run es) k := by
  induction es generalizing l with
  | nil => exact h
  | cons e es ih =>
    rw [Layers.run_cons]
    refine ih (fun e' he' => hopen e' (List.mem_cons_of_mem _ he'))
      (fun k' bytes he' => hread k' bytes (List.mem_cons_of_mem _ he')) ?_
    unfold Held
    rw [Layers.memory_step, Layers.disk_step, hopen e List.mem_cons_self, if_neg Bool.false_ne_true]
    rcases h with hmem | ⟨bytes, phrase, hdisk, hbytes⟩
    · left
      cases e.placedAt k <;> simp [hmem]
    · right
      cases hat : e.writtenAt k with
      | none => exact ⟨bytes, phrase, by simp [hdisk], hbytes⟩
      | some bytes' =>
        have he : e = .wrote k bytes' := by
          cases e with
          | wrote k' v =>
            simp only [StoreEvent.writtenAt, Option.ite_none_right_eq_some, Option.some.injEq] at hat
            rw [hat.1, hat.2]
          | placed k' v => simp [StoreEvent.writtenAt] at hat
          | reopened => simp [StoreEvent.writtenAt] at hat
        obtain ⟨phrase', hphrase'⟩ := hread k bytes' (he ▸ List.mem_cons_self)
        exact ⟨bytes', phrase', by simp, hphrase'⟩

theorem isReopened_effects {op : Op} (hop : op.Stays) :
    ∀ e ∈ w.effects J op, e.isReopened = false := by
  intro e he
  cases op with
  | generateByType P entropy io keyType =>
    rcases hgen : P.generateWithPhrase entropy w.inner.password with ⟨pair, phrase⟩
    rw [effects_generateByType hgen] at he
    cases hleft : io.left J phrase <;> cases hpath : w.inner.path.isSome <;>
      simp [hleft, hpath] at he <;> simp [he, StoreEvent.isReopened]
  | insertEphemeralFromSeedByType P seed keyType =>
    dsimp only [World.effects] at he
    cases hpair : P.fromString seed none <;> simp [hpair] at he
    simp [he, StoreEvent.isReopened]
  | insertUnknown io keyType suri key =>
    dsimp only [World.effects] at he
    cases hleft : io.left J suri <;> cases hpath : w.inner.path.isSome <;>
      simp [hleft, hpath] at he
    simp [he, StoreEvent.isReopened]
  | reopen created password => exact hop.elim

/-- **A key that is held stays held** while calls succeed. -/
theorem hasKey_later (hJ : J.ReadsStrings) (hH : H.Lawful) (hX : H.Exact) (h : Later J H w w')
    {key : Bytes} {keyType : KeyTypeId} (hheld : w.hasKey J H key keyType = true) :
    w'.hasKey J H key keyType = true := by
  obtain ⟨ops, hstays, hrun⟩ := h
  induction ops generalizing w with
  | nil =>
    cases hrun
    exact hheld
  | cons op ops ih =>
    obtain ⟨hop, hops⟩ := List.forall_mem_cons.mp hstays
    unfold World.runAll at hrun
    split at hrun
    · cases hrun
    · rename_i w₁ hstep
      refine ih ?_ hops hrun
      have hsame : w.Contents H ⟨w.inner.additional.get, w.keyFile H⟩ := ⟨fun _ => rfl, fun _ => rfl⟩
      have hnext := hsame.run (J := J) hH hX op
      rw [hstep] at hnext
      rw [hnext.hasKey_iff]
      have hbefore := (hsame.hasKey_iff key keyType).mp hheld
      refine Held.run (isReopened_effects hop) (fun k bytes he => ?_) hbefore
      exact reads_of_wrote hJ (by rw [hstep]) he

theorem hasKey_chain (hJ : J.ReadsStrings) (hH : H.Lawful) (hX : H.Exact) {ws : List World}
    (hchain : (w :: (ws ++ [w'])).IsChain (Later J H)) {key : Bytes} {keyType : KeyTypeId}
    (hheld : w.hasKey J H key keyType = true) : w'.hasKey J H key keyType = true := by
  induction ws generalizing w with
  | nil => exact hasKey_later hJ hH hX (List.isChain_cons_cons.mp hchain).1 hheld
  | cons v ws ih =>
    rw [List.cons_append, List.isChain_cons_cons] at hchain
    exact ih hchain.2 (hasKey_later hJ hH hX hchain.1 hheld)

/-- **Whatever calls succeed while `has_keys` runs**, it answers what it would have answered before
them or after them: no less than before, and no more than after. -/
theorem hasKeys_between (hJ : J.ReadsStrings) (hH : H.Lawful) (hX : H.Exact)
    {readings : List (World × Bytes × KeyTypeId)}
    (hchain : (w :: (readings.map Prod.fst ++ [w'])).IsChain (Later J H)) :
    (w.hasKeys J H (readings.map Prod.snd) = true → hasKeysAt J H readings = true) ∧
      (hasKeysAt J H readings = true → w'.hasKeys J H (readings.map Prod.snd) = true) := by
  induction readings generalizing w with
  | nil => simp [World.hasKeys, hasKeysAt]
  | cons reading readings ih =>
    obtain ⟨v, p, t⟩ := reading
    rw [List.map_cons, List.cons_append, List.isChain_cons_cons] at hchain
    obtain ⟨hlater, hrest⟩ := hchain
    obtain ⟨hbefore, hafter⟩ := ih hrest
    have hall : hasKeysAt J H ((v, p, t) :: readings) = true ↔
        v.hasKey J H p t = true ∧ hasKeysAt J H readings = true := by
      simp [hasKeysAt]
    rw [hall]
    constructor
    · intro hkeys
      obtain ⟨hkey, hkeys⟩ := List.forall_mem_cons.mp (hasKeys_iff.mp hkeys)
      refine ⟨hasKey_later hJ hH hX hlater hkey, hbefore (hasKeys_iff.mpr fun k hk => ?_)⟩
      exact hasKey_later hJ hH hX hlater (hkeys k hk)
    · rintro ⟨hkey, hkeys⟩
      refine hasKeys_iff.mpr (List.forall_mem_cons.mpr ⟨?_, hasKeys_iff.mp (hafter hkeys)⟩)
      exact hasKey_chain hJ hH hX hrest hkey

end Between

/-- A key is generated between two calls of `has_keys`. -/
theorem hasKeys_between_generate : ∃ w w',
    plainWorld.runAll Serde.ofStrings Hex.reference [insertAlice .ok] = .ok w ∧
    w.runAll Serde.ofStrings Hex.reference generateEd25519 = .ok w' ∧
    hasKeysAt Serde.ofStrings Hex.reference
      [(w', (echoKey "//Alice" none).bytes, testKeyType)] = true := by
  obtain ⟨w, hrun⟩ : ∃ w,
      plainWorld.runAll Serde.ofStrings Hex.reference [insertAlice .ok] = .ok w := ⟨_, rfl⟩
  obtain ⟨w', hrun'⟩ : ∃ w',
      w.runAll Serde.ofStrings Hex.reference generateEd25519 = .ok w' := by
    cases hrun
    exact ⟨_, rfl⟩
  have h := runAll_refines Hex.reference_lawful Hex.reference_exact
    (fresh_refines plainWorld_empty.fresh) hrun
  have hphrase : w.keyPhraseByType Serde.ofStrings Hex.reference (echoKey "//Alice" none).bytes
      testKeyType = .ok (some "//Alice") := by
    rw [h.keyPhrase_eq Serde.ofStrings_readsStrings, Layers.find_run]
    decide
  have hheld : w.hasKeys Serde.ofStrings Hex.reference
      [((echoKey "//Alice" none).bytes, testKeyType)] = true := by
    rw [hasKeys_iff, List.forall_mem_singleton]
    exact (hasKey_iff _ _).mpr ⟨_, hphrase⟩
  have hlater : Later Serde.ofStrings Hex.reference w w' :=
    ⟨generateEd25519, by simp [generateEd25519, Op.Stays], hrun'⟩
  have hsame : Later Serde.ofStrings Hex.reference w' w' := ⟨[], by simp, rfl⟩
  have hchain : (w :: ([(w', (echoKey "//Alice" none).bytes, testKeyType)].map Prod.fst ++
      [w'])).IsChain (Later Serde.ofStrings Hex.reference) := by
    simp [hlater, hsame]
  exact ⟨w, w', hrun, hrun', (hasKeys_between Serde.ofStrings_readsStrings Hex.reference_lawful
    Hex.reference_exact hchain).1 hheld⟩

end SubstrateClient.Keystore
