import SubstrateClient.Keystore.FailedWrites
import SubstrateClient.Keystore.Retrieval

/-!
# Which keys are supported

A store keeps phrases and public keys, and not the crypto scheme a key was generated with. `keys`
lists every public key under each of the three crypto ids, and `supported_keys` returns the
candidates that are listed; `sign_with` derives the pair again, by the scheme the candidate names.

* `supportedKeys_spec`: the returned candidates are those whose public key was generated, under any
  of the three crypto ids. Among them are all that `sign_with` can sign with, and it can sign with
  one exactly when the stored phrase derives the key by the scheme that is named.
* `not_canSign_sr25519`: an `ed25519` key, asked for as an `sr25519` key.
-/

namespace SubstrateClient.Keystore

open Lib Utils Rpc

namespace World

section Queries

variable (H : Hex) (w : World)

/-- `keys`. -/
def keys (io : ReadIo) (id : KeyTypeId) : Except TraitError (List CryptoTypePublicPair) :=
  match w.inner.rawPublicKeys H io w.fs id with
  | .error e => .error (.ofError e)
  | .ok rawKeys => .ok (rawKeys.foldl (fun v k => v ++ [⟨Scheme.sr25519.cryptoId, k⟩,
      ⟨Scheme.ed25519.cryptoId, k⟩, ⟨Scheme.ecdsa.cryptoId, k⟩]) [])

/-- `supported_keys`. -/
def supportedKeys (io : ReadIo) (id : KeyTypeId) (keys : List CryptoTypePublicPair) :
    Except TraitError (List CryptoTypePublicPair) :=
  match w.keys H io id with
  | .error e => .error e
  | .ok allKeys => .ok (keys.filter (· ∈ allKeys))

end Queries

end World

/-- `from_slice` reads the bytes of a key and keeps them; no key is empty. -/
structure PairT.ReadsBytes (P : PairT) : Prop where
  asSlice_fromSlice : ∀ {bs key}, P.fromSlice bs = some key → P.asSlice key = bs
  nonempty : ∀ key, P.asSlice key ≠ []

/-- The operations that generate a key by one of the three schemes, at random or from a seed. -/
inductive Op.Generates (C : Scheme → PairT) : Op → Prop where
  | random (s : Scheme) (entropy : (C s).Entropy) (io : WriteIo) (keyType : KeyTypeId) :
      Generates C (.generateByType (C s) entropy io keyType)
  | seeded (s : Scheme) (seed : String) (keyType : KeyTypeId) :
      Generates C (.insertEphemeralFromSeedByType (C s) seed keyType)

/-- The key that an operation generates. -/
def Op.generated (password : Option String) : Op → Option Key
  | .generateByType P entropy _ keyType =>
    some (keyType, P.asSlice (P.publicKey (P.generateWithPhrase entropy password).1))
  | .insertEphemeralFromSeedByType P seed keyType =>
    (P.fromString seed none).map fun pair => (keyType, P.asSlice (P.publicKey pair))
  | .insertUnknown .. | .reopen .. => none

/-- The key comes from a seed. -/
def Op.isSeeded : Op → Bool
  | .insertEphemeralFromSeedByType .. => true
  | .generateByType .. | .insertUnknown .. | .reopen .. => false

/-- The key was generated at random by the scheme, and not generated again since; no seed of it was
placed in memory before. -/
def GeneratedFrom (C : Scheme → PairT) (password : Option String) (ops : List Op) (k : Key)
    (s : Scheme) (entropy : (C s).Entropy) : Prop :=
  ∃ pre io post, ops = pre ++ .generateByType (C s) entropy io k.1 :: post ∧
    (C s).asSlice ((C s).publicKey ((C s).generateWithPhrase entropy password).1) = k.2 ∧
    (∀ op ∈ pre, op.isSeeded = true → op.generated password ≠ some k) ∧
    ∀ op ∈ post, op.generated password ≠ some k

/-- `sign_with` signs, by the pair that has the public key. -/
def CanSign (J : Serde) (H : Hex) (C : Scheme → PairT) (w : World) (id : KeyTypeId)
    (k : CryptoTypePublicPair) (msg : Bytes) : Prop :=
  ∃ (s : Scheme) (pair : (C s).Pair), k.cryptoId = s.cryptoId ∧
    (C s).asSlice ((C s).publicKey pair) = k.key ∧
    w.signWith J H C id k msg = .ok (some ((C s).sign pair msg))

/-- The phrase of a key derives it by the scheme. -/
def DerivesBy (J : Serde) (H : Hex) (C : Scheme → PairT) (w : World) (id : KeyTypeId) (s : Scheme)
    (bs : Bytes) : Prop :=
  ∃ key phrase, (C s).fromSlice bs = some key ∧
    w.keyPhraseByType J H bs id = .ok (some phrase) ∧
    (C s).Derives phrase w.inner.password key

/-- What `supported_keys` returns, and what of it `sign_with` can sign with. -/
structure SupportedKeys (J : Serde) (H : Hex) (C : Scheme → PairT) (w : World)
    (password : Option String) (ops : List Op) (id : KeyTypeId) (msg : Bytes)
    (keys returned : List CryptoTypePublicPair) : Prop where
  /-- A candidate is returned when its public key was generated and its crypto id is known. -/
  returned_iff : ∀ k, k ∈ returned ↔ k ∈ keys ∧ (∃ s : Scheme, k.cryptoId = s.cryptoId) ∧
    ∃ op ∈ ops, op.generated password = some (id, k.key)
  /-- It can be signed with when the stored phrase derives it by its own scheme. -/
  signs_iff : ∀ k ∈ returned, CanSign J H C w id k msg ↔
    ∃ s : Scheme, k.cryptoId = s.cryptoId ∧ DerivesBy J H C w id s k.key
  /-- So it is with the scheme the key was generated by. -/
  signs : ∀ k ∈ returned, ∀ (s : Scheme) entropy, k.cryptoId = s.cryptoId →
    GeneratedFrom C password ops (id, k.key) s entropy → CanSign J H C w id k msg
  /-- No candidate that can be signed with is left out. -/
  complete : ∀ k ∈ keys, CanSign J H C w id k msg → k ∈ returned

section Listed

variable {H : Hex} {w : World} {id : KeyTypeId}

/-- `keys` lists every public key under each of the three crypto ids. -/
theorem mem_keys {raw : List Bytes} (hraw : w.rawPublicKeys H id = .ok raw) : ∃ all,
    w.keys H .ok id = .ok all ∧
    ∀ k, k ∈ all ↔ k.key ∈ raw ∧ ∃ s : Scheme, k.cryptoId = s.cryptoId := by
  unfold World.rawPublicKeys at hraw
  unfold World.keys
  rw [hraw]
  refine ⟨_, rfl, fun k => ?_⟩
  obtain ⟨cryptoId, key⟩ := k
  rw [← List.flatMap_eq_foldl]
  simp only [List.mem_flatMap, List.mem_cons, List.not_mem_nil, or_false,
    CryptoTypePublicPair.mk.injEq]
  constructor
  · rintro ⟨x, hx, ⟨rfl, rfl⟩ | ⟨rfl, rfl⟩ | ⟨rfl, rfl⟩⟩
    · exact ⟨hx, .sr25519, rfl⟩
    · exact ⟨hx, .ed25519, rfl⟩
    · exact ⟨hx, .ecdsa, rfl⟩
  · rintro ⟨hx, s, rfl⟩
    refine ⟨key, hx, ?_⟩
    cases s with
    | ed25519 => exact Or.inr (Or.inl ⟨rfl, rfl⟩)
    | sr25519 => exact Or.inl ⟨rfl, rfl⟩
    | ecdsa => exact Or.inr (Or.inr ⟨rfl, rfl⟩)

/-- A candidate is returned when its public key is listed and its crypto id is known. -/
theorem mem_supportedKeys {raw : List Bytes} (hraw : w.rawPublicKeys H id = .ok raw)
    (keys : List CryptoTypePublicPair) : ∃ returned,
    w.supportedKeys H .ok id keys = .ok returned ∧
    ∀ k, k ∈ returned ↔ k ∈ keys ∧ k.key ∈ raw ∧ ∃ s : Scheme, k.cryptoId = s.cryptoId := by
  obtain ⟨all, hall, hmem⟩ := mem_keys hraw
  unfold World.supportedKeys
  rw [hall]
  refine ⟨_, rfl, fun k => ?_⟩
  rw [List.mem_filter, decide_eq_true_iff, hmem]

end Listed

/-! ## Signing with a key -/

section Signing

variable {J : Serde} {H : Hex} {C : Scheme → PairT} {w : World} {id : KeyTypeId}

/-- A pair is given back for the sake of a phrase. -/
theorem phrase_of_keyPair {P : PairT} {key : P.Public} {pair : P.Pair}
    (h : w.keyPairByType J H P key id = .ok (some pair)) :
    ∃ phrase, w.keyPhraseByType J H (P.asSlice key) id = .ok (some phrase) := by
  unfold World.keyPairByType KeystoreInner.keyPairByType at h
  unfold World.keyPhraseByType
  cases hphrase : w.inner.keyPhraseByType J H w.fs (P.asSlice key) id with
  | error e =>
    rw [hphrase] at h
    cases h
  | ok found =>
    cases found with
    | none =>
      rw [hphrase] at h
      cases h
    | some phrase => exact ⟨phrase, rfl⟩

/-- A phrase that derives another key is a mismatch. -/
theorem keyPairByType_mismatch {P : PairT} {key : P.Public} {phrase : String} {pair : P.Pair}
    (hphrase : w.keyPhraseByType J H (P.asSlice key) id = .ok (some phrase))
    (hpair : P.fromString phrase w.inner.password = some pair) (hne : P.publicKey pair ≠ key) :
    w.keyPairByType J H P key id = .error .publicKeyMismatch := by
  unfold World.keyPhraseByType at hphrase
  unfold World.keyPairByType KeystoreInner.keyPairByType
  rw [hphrase]
  dsimp only
  rw [hpair]
  exact if_neg hne

/-- A branch of `sign_with` signs with the pair that `key_pair_by_type` gives. -/
theorem signWithPair_eq_some {P : PairT} {bs msg signature : Bytes} :
    w.signWithPair J H P id bs msg = .ok (some signature) ↔
      ∃ key pair, P.fromSlice bs = some key ∧ w.keyPairByType J H P key id = .ok (some pair) ∧
        P.sign pair msg = signature := by
  unfold World.signWithPair
  cases P.fromSlice bs with
  | none => simp
  | some key =>
    dsimp only
    cases hget : w.keyPairByType J H P key id with
    | error e => simp [hget]
    | ok found => cases found <;> simp [hget]

/-- **A candidate can be signed with when the stored phrase derives its key by its own scheme.** -/
theorem canSign_iff (hB : ∀ s, (C s).ReadsBytes)
    (k : CryptoTypePublicPair) (msg : Bytes) : CanSign J H C w id k msg ↔
      ∃ s : Scheme, k.cryptoId = s.cryptoId ∧ DerivesBy J H C w id s k.key := by
  obtain ⟨cryptoId, bs⟩ := k
  constructor
  · rintro ⟨s, pair, rfl, hkey, hsign⟩
    rw [signWith_scheme] at hsign
    obtain ⟨key, pair', hfrom, hpair, -⟩ := signWithPair_eq_some.mp hsign
    obtain ⟨phrase, hphrase⟩ := phrase_of_keyPair hpair
    have hderives := (keyPairByType_eq_some hphrase pair').mp hpair
    rw [(hB s).asSlice_fromSlice hfrom] at hphrase
    exact ⟨s, rfl, key, phrase, hfrom, hphrase, pair', hderives⟩
  · rintro ⟨s, rfl, key, phrase, hfrom, hphrase, pair, hpair, rfl⟩
    have hbs := (hB s).asSlice_fromSlice hfrom
    dsimp only at hbs hphrase
    rw [← hbs] at hphrase
    have hget := (keyPairByType_eq_some hphrase pair).mpr ⟨hpair, rfl⟩
    refine ⟨s, pair, rfl, hbs, ?_⟩
    rw [signWith_scheme]
    exact signWithPair_eq_some.mpr ⟨_, pair, hfrom, hget, rfl⟩

end Signing

/-! ## The phrase of a generated key -/

section Generated

variable {J : Serde} {H : Hex} {C : Scheme → PairT} {w w₀ : World} {password : Option String}
  {onDisk : Bool}

/-- The event of a generated key: its phrase is written or placed, and a seed is placed. -/
theorem Op.Generates.events_cases {op : Op} (h : op.Generates C) (password : Option String)
    (onDisk : Bool) :
    op.generated password = none ∧ op.events onDisk password = [] ∨
      ∃ k v, op.generated password = some k ∧ (op.events onDisk password = [.wrote k v] ∨
        op.events onDisk password = [.placed k v] ∧ (op.isSeeded = true ∨ onDisk = false)) := by
  cases h with
  | random s entropy io keyType =>
    rcases hgen : (C s).generateWithPhrase entropy password with ⟨pair, phrase⟩
    refine Or.inr ⟨(keyType, (C s).asSlice ((C s).publicKey pair)), phrase, ?_, ?_⟩
    · simp [Op.generated, hgen]
    · cases onDisk <;> simp [Op.events, hgen]
  | seeded s seed keyType =>
    dsimp only [Op.generated, Op.events]
    cases (C s).fromString seed none with
    | none => exact Or.inl ⟨rfl, rfl⟩
    | some pair => exact Or.inr ⟨_, seed, rfl, Or.inr ⟨rfl, Or.inl rfl⟩⟩

/-- The event of an operation is that of the key it generates. -/
theorem Op.Generates.of_mem_events {op : Op} (h : op.Generates C) {e : StoreEvent Key String String}
    (he : e ∈ op.events onDisk password) : ∃ k v, op.generated password = some k ∧
      (e = .wrote k v ∨ e = .placed k v ∧ (op.isSeeded = true ∨ onDisk = false)) := by
  obtain ⟨-, hnone⟩ | ⟨k, v, hk, hevents | ⟨hevents, hmemory⟩⟩ := h.events_cases password onDisk
  · rw [hnone] at he
    cases he
  · rw [hevents, List.mem_singleton] at he
    exact ⟨k, v, hk, Or.inl he⟩
  · rw [hevents, List.mem_singleton] at he
    exact ⟨k, v, hk, Or.inr ⟨he, hmemory⟩⟩

/-- A key that is generated is written or placed. -/
theorem Op.Generates.exists_event {op : Op} (h : op.Generates C) {k : Key}
    (hk : op.generated password = some k) : ∃ e ∈ op.events onDisk password,
      e.placedAt k ≠ none ∨ e.writtenAt k ≠ none := by
  obtain ⟨hnone, -⟩ | ⟨k', v, hk', hevents⟩ := h.events_cases password onDisk
  · rw [hk] at hnone
    cases hnone
  · rw [hk] at hk'
    cases hk'
    rcases hevents with hevents | ⟨hevents, -⟩
    · exact ⟨_, hevents ▸ List.mem_cons_self, Or.inr (by simp [StoreEvent.writtenAt])⟩
    · exact ⟨_, hevents ▸ List.mem_cons_self, Or.inl (by simp [StoreEvent.placedAt])⟩

/-- Where every operation generates, the password stays. -/
theorem history_of_generates {ops : List Op} (h : ∀ op ∈ ops, op.Generates C) :
    history onDisk password ops = ops.flatMap (·.events onDisk password) := by
  induction ops with
  | nil => rfl
  | cons op ops ih =>
    obtain ⟨hop, htail⟩ := List.forall_mem_cons.mp h
    have hpassword : op.password onDisk password = password := by
      cases hop <;> rfl
    rw [history, hpassword, ih htail, List.flatMap_cons]

theorem run_password {op : Op} (h : op.Generates C) (w : World) :
    (w.run J H op).2.inner.password = w.inner.password := by
  cases h with
  | random s entropy io keyType => exact (run_generateByType w (C s) entropy io keyType).2
  | seeded s seed keyType =>
    dsimp only [World.run]
    unfold KeystoreInner.insertEphemeralFromSeedByType
    cases (C s).fromString seed none <;> rfl

theorem after_password {ops : List Op} (h : ∀ op ∈ ops, op.Generates C) (w : World) :
    (w.after J H ops).inner.password = w.inner.password := by
  induction ops generalizing w with
  | nil => rfl
  | cons op ops ih =>
    obtain ⟨hop, htail⟩ := List.forall_mem_cons.mp h
    exact (ih htail _).trans (run_password hop w)

/-- A key has a phrase when it was generated. -/
theorem find_ne_none_iff {ops : List Op} (h : ∀ op ∈ ops, op.Generates C) (k : Key) :
    (Layers.empty.run (history onDisk password ops)).find k ≠ none ↔
      ∃ op ∈ ops, op.generated password = some k := by
  have hopen : ∀ e ∈ ops.flatMap (·.events onDisk password), e.isReopened = false := by
    intro e he
    obtain ⟨op, hop, he⟩ := List.mem_flatMap.mp he
    obtain ⟨k', v, -, rfl | ⟨rfl, -⟩⟩ := (h op hop).of_mem_events he <;> rfl
  rw [history_of_generates h, Layers.find_run_ne_none hopen]
  simp only [List.mem_flatMap]
  constructor
  · rintro ⟨e, ⟨op, hop, he⟩, hat⟩
    refine ⟨op, hop, ?_⟩
    obtain ⟨k', v, hk', he⟩ := (h op hop).of_mem_events he
    have hk : k' = k := by
      rcases he with rfl | ⟨rfl, -⟩ <;>
        simpa [StoreEvent.placedAt, StoreEvent.writtenAt] using hat
    rw [hk', hk]
  · rintro ⟨op, hop, hk⟩
    obtain ⟨e, he, hat⟩ := (h op hop).exists_event hk
    exact ⟨e, ⟨op, hop, he⟩, hat⟩

/-- The phrase of a key generated at random is the one it was generated with. -/
theorem find_generated {ops : List Op} (h : ∀ op ∈ ops, op.Generates C) {k : Key} {s : Scheme}
    {entropy : (C s).Entropy} (hgen : GeneratedFrom C password ops k s entropy) :
    (Layers.empty.run (history onDisk password ops)).find k =
      some ((C s).generateWithPhrase entropy password).2 := by
  obtain ⟨pre, io, post, rfl, hkey, hpre, hpost⟩ := hgen
  have hmemory : onDisk = true →
      (Layers.empty.run (pre.flatMap (·.events onDisk password))).memory k = none := by
    rintro rfl
    rw [Layers.memory_run]
    refine lastPlaced_eq_none fun e he => ?_
    obtain ⟨op, hop, he⟩ := List.mem_flatMap.mp he
    obtain ⟨k', v, hk', rfl | ⟨rfl, hseeded | hdisk⟩⟩ :=
      (h op (List.mem_append_left _ hop)).of_mem_events he
    · rfl
    · exact if_neg fun hk : k' = k => hpre op hop hseeded (hk ▸ hk')
    · cases hdisk
  have hspares : ∀ e ∈ post.flatMap (·.events onDisk password), e.Spares k := by
    intro e he
    obtain ⟨op, hop, he⟩ := List.mem_flatMap.mp he
    obtain ⟨k', v, hk', he⟩ :=
      (h op (List.mem_append_right _ (List.mem_cons_of_mem _ hop))).of_mem_events he
    have hne : k' ≠ k := fun hk => hpost op hop (hk ▸ hk')
    rcases he with rfl | ⟨rfl, -⟩
    · exact hne
    · exact hne
  obtain ⟨keyType, bs⟩ := k
  rcases hpair : (C s).generateWithPhrase entropy password with ⟨pair, phrase⟩
  rw [hpair] at hkey
  dsimp only at hkey
  subst hkey
  have hevents : (Op.generateByType (C s) entropy io keyType).events onDisk password =
      [if onDisk then .wrote (keyType, (C s).asSlice ((C s).publicKey pair)) phrase
        else .placed (keyType, (C s).asSlice ((C s).publicKey pair)) phrase] := by
    cases onDisk <;> simp [Op.events, hpair]
  rw [history_of_generates h, List.flatMap_append, List.flatMap_cons, hevents, Layers.run_append,
    Layers.run_append, Layers.find_run_of_spares hspares]
  unfold Layers.find
  cases onDisk with
  | true =>
    rw [Layers.run_cons, Layers.run_nil, Layers.memory_step, Layers.disk_step, hmemory rfl]
    simp [StoreEvent.isReopened, StoreEvent.placedAt, StoreEvent.writtenAt]
  | false =>
    rw [Layers.run_cons, Layers.run_nil, Layers.memory_step]
    simp [StoreEvent.isReopened, StoreEvent.placedAt]

/-- **What `supported_keys` returns**: the candidates whose public key was generated, under any of
the crypto ids. The store keeps no scheme, so `sign_with` decides by the phrase. -/
theorem supportedKeys_spec (hJ : J.ReadsStrings) (hH : H.Lawful) (hX : H.Exact)
    (hC : ∀ s, (C s).Lawful) (hB : ∀ s, (C s).ReadsBytes) (hempty : w₀.Empty) {ops : List Op}
    (hops : ∀ op ∈ ops, op.Generates C) (hrun : w₀.runAll J H ops = .ok w) (id : KeyTypeId)
    (keys : List CryptoTypePublicPair) (msg : Bytes) :
    ∃ returned, w.supportedKeys H .ok id keys = .ok returned ∧
      SupportedKeys J H C w w₀.inner.password ops id msg keys returned := by
  have h := runAll_refines hH hX (fresh_refines hempty.fresh) hrun
  have hfiles : w.KeyFilesOnly H := after_eq_of_runAll hrun ▸ hempty.keyFilesOnly.after ops
  obtain ⟨raw, hraw⟩ := rawPublicKeys_ok (H := H) (w := w) id
  obtain ⟨returned, hreturned, hmem⟩ := mem_supportedKeys hraw keys
  have hnonempty : ∀ op ∈ ops, op.KeysNonempty := by
    intro op hop
    cases hops op hop with
    | random s entropy io keyType => exact (hB s).nonempty
    | seeded s seed keyType => trivial
  have hnil : lastWritten (history w₀.inner.path.isSome w₀.inner.password ops) (id, []) = none :=
    lastWritten_nil id hnonempty w₀.inner.password
  rw [← Layers.disk_run] at hnil
  have hlisted := h.mem_rawPublicKeys hJ hH hX hfiles hnil hraw
  have hpassword : w.inner.password = w₀.inner.password := by
    rw [after_eq_of_runAll hrun]
    exact after_password hops w₀
  have hphrase : ∀ (s : Scheme) entropy bs,
      GeneratedFrom C w₀.inner.password ops (id, bs) s entropy →
      w.keyPhraseByType J H bs id =
        .ok (some ((C s).generateWithPhrase entropy w₀.inner.password).2) := by
    intro s entropy bs hgen
    rw [h.keyPhrase_eq hJ, find_generated hops hgen]
  refine ⟨returned, hreturned, ?_, fun k _ => canSign_iff hB k msg, ?_, ?_⟩
  · intro k
    rw [hmem, hlisted]
    refine and_congr_right fun _ => ?_
    rw [and_comm]
    refine and_congr_right fun _ => ?_
    simp only [h.keyPhrase_eq hJ, Except.ok.injEq]
    rw [← Option.ne_none_iff_exists']
    exact find_ne_none_iff hops (id, k.key)
  · intro k _ s entropy hid hgen
    have hfound := hphrase s entropy k.key hgen
    obtain ⟨pre, io, post, -, hbs, -, -⟩ := hgen
    have hfrom := (hC s).fromSlice_asSlice
      ((C s).publicKey ((C s).generateWithPhrase entropy w₀.inner.password).1)
    rw [hbs] at hfrom
    refine (canSign_iff hB k msg).mpr ⟨s, hid, _, _, hfrom, hfound, _, ?_, rfl⟩
    rw [hpassword]
    exact (hC s).fromString_generate entropy w₀.inner.password
  · intro k hk hsigns
    obtain ⟨s, hid, key, phrase, -, hfound, -⟩ := (canSign_iff hB k msg).mp hsigns
    exact (hmem k).mpr ⟨hk, (hlisted k.key).mpr ⟨phrase, hfound⟩, s, hid⟩

end Generated

/-! ## An `ed25519` key -/

/-- Pairs like those of `echoPair`, of a scheme with a tag of its own. -/
def taggedPair (tag : String) : PairT where
  Pair := H256
  Public := H256
  Entropy := String
  generateWithPhrase phrase password := (echoKey (tag ++ phrase) password, phrase)
  fromString phrase password := some (echoKey (tag ++ phrase) password)
  publicKey pair := pair
  asSlice key := key.bytes
  fromSlice bs := if h : bs.length = 32 then some ⟨bs, h⟩ else none
  sign pair msg := pair.bytes ++ msg

/-- Three schemes with keys of their own. -/
def taggedSchemes : Scheme → PairT
  | .ed25519 => taggedPair "ed"
  | .sr25519 => taggedPair "sr"
  | .ecdsa => taggedPair "ec"

theorem taggedPair_lawful (tag : String) : (taggedPair tag).Lawful where
  fromString_generate _ _ := rfl
  fromSlice_asSlice key := dif_pos key.size

theorem taggedPair_readsBytes (tag : String) : (taggedPair tag).ReadsBytes where
  asSlice_fromSlice := by
    intro bs key h
    have hread : (if h : bs.length = 32 then some (⟨bs, h⟩ : H256) else none) = some key := h
    split_ifs at hread
    cases hread
    rfl
  nonempty := echoPair_nonempty

theorem taggedSchemes_lawful (s : Scheme) : (taggedSchemes s).Lawful := by
  cases s <;> exact taggedPair_lawful _

theorem taggedSchemes_readsBytes (s : Scheme) : (taggedSchemes s).ReadsBytes := by
  cases s <;> exact taggedPair_readsBytes _

/-- An `ed25519` key is generated. -/
def generateEd25519 : List Op :=
  [.generateByType (taggedSchemes .ed25519) "caution juice atom" .ok testKeyType]

/-- Its bytes. -/
def ed25519Key : Bytes := (echoKey "edcaution juice atom" none).bytes

theorem generateEd25519_generates : ∀ op ∈ generateEd25519, op.Generates taggedSchemes := by
  intro op hop
  rw [List.mem_singleton.mp hop]
  exact .random .ed25519 _ _ _

/-- Asked for as an `ed25519` key, it is supported and signs. -/
theorem supportedKeys_spec_ed25519 : ∃ w returned,
    plainWorld.runAll Serde.ofStrings Hex.reference generateEd25519 = .ok w ∧
    w.supportedKeys Hex.reference .ok testKeyType [⟨Scheme.ed25519.cryptoId, ed25519Key⟩] =
      .ok returned ∧
    ⟨Scheme.ed25519.cryptoId, ed25519Key⟩ ∈ returned ∧
    CanSign Serde.ofStrings Hex.reference taggedSchemes w testKeyType
      ⟨Scheme.ed25519.cryptoId, ed25519Key⟩ [1, 2] := by
  obtain ⟨w, hrun⟩ : ∃ w,
      plainWorld.runAll Serde.ofStrings Hex.reference generateEd25519 = .ok w := ⟨_, rfl⟩
  obtain ⟨returned, hreturned, h⟩ := supportedKeys_spec Serde.ofStrings_readsStrings
    Hex.reference_lawful Hex.reference_exact taggedSchemes_lawful taggedSchemes_readsBytes
    plainWorld_empty generateEd25519_generates hrun testKeyType
    [⟨Scheme.ed25519.cryptoId, ed25519Key⟩] [1, 2]
  have hgen : GeneratedFrom taggedSchemes plainWorld.inner.password generateEd25519
      (testKeyType, ed25519Key) .ed25519 "caution juice atom" :=
    ⟨[], .ok, [], rfl, rfl, by simp, by simp⟩
  have hmem := (h.returned_iff ⟨Scheme.ed25519.cryptoId, ed25519Key⟩).mpr
    ⟨List.mem_cons_self, ⟨.ed25519, rfl⟩, _, List.mem_cons_self, rfl⟩
  exact ⟨w, returned, hrun, hreturned, hmem, h.signs _ hmem _ _ rfl hgen⟩

/-- **Asked for as an `sr25519` key, it is returned as supported, and cannot be signed with**: the
phrase derives another key by that scheme. -/
theorem not_canSign_sr25519 : ∃ w returned,
    plainWorld.runAll Serde.ofStrings Hex.reference generateEd25519 = .ok w ∧
    w.supportedKeys Hex.reference .ok testKeyType [⟨Scheme.sr25519.cryptoId, ed25519Key⟩] =
      .ok returned ∧
    ⟨Scheme.sr25519.cryptoId, ed25519Key⟩ ∈ returned ∧
    w.signWith Serde.ofStrings Hex.reference taggedSchemes testKeyType
      ⟨Scheme.sr25519.cryptoId, ed25519Key⟩ [1, 2] = .error (.ofError .publicKeyMismatch) ∧
    ¬ CanSign Serde.ofStrings Hex.reference taggedSchemes w testKeyType
      ⟨Scheme.sr25519.cryptoId, ed25519Key⟩ [1, 2] := by
  obtain ⟨w, hrun⟩ : ∃ w,
      plainWorld.runAll Serde.ofStrings Hex.reference generateEd25519 = .ok w := ⟨_, rfl⟩
  have h := runAll_refines Hex.reference_lawful Hex.reference_exact
    (fresh_refines plainWorld_empty.fresh) hrun
  have hfiles : w.KeyFilesOnly Hex.reference :=
    after_eq_of_runAll hrun ▸ plainWorld_empty.keyFilesOnly.after generateEd25519
  have hphrase : w.keyPhraseByType Serde.ofStrings Hex.reference ed25519Key testKeyType =
      .ok (some "caution juice atom") := by
    rw [h.keyPhrase_eq Serde.ofStrings_readsStrings, Layers.find_run]
    decide
  have hpassword : w.inner.password = none := by
    rw [after_eq_of_runAll hrun]
    exact after_password generateEd25519_generates plainWorld
  obtain ⟨raw, hraw⟩ := rawPublicKeys_ok (H := Hex.reference) (w := w) testKeyType
  have hlisted := h.mem_rawPublicKeys Serde.ofStrings_readsStrings Hex.reference_lawful
    Hex.reference_exact hfiles (by rw [Layers.disk_run]; decide) hraw
  obtain ⟨returned, hreturned, hmem⟩ := mem_supportedKeys hraw
    [⟨Scheme.sr25519.cryptoId, ed25519Key⟩]
  have hfails : w.signWith Serde.ofStrings Hex.reference taggedSchemes testKeyType
      ⟨Scheme.sr25519.cryptoId, ed25519Key⟩ [1, 2] = .error (.ofError .publicKeyMismatch) := by
    have hfrom : (taggedSchemes .sr25519).fromSlice ed25519Key = some _ :=
      (taggedSchemes_lawful .sr25519).fromSlice_asSlice (echoKey "edcaution juice atom" none)
    have hother : echoKey "srcaution juice atom" none ≠ echoKey "edcaution juice atom" none := by
      decide
    have hpair : w.keyPairByType Serde.ofStrings Hex.reference (taggedSchemes .sr25519)
        (echoKey "edcaution juice atom" none) testKeyType = .error .publicKeyMismatch := by
      refine keyPairByType_mismatch (P := taggedSchemes .sr25519) hphrase ?_ hother
      rw [hpassword]
      rfl
    rw [signWith_scheme]
    unfold World.signWithPair
    rw [hfrom]
    dsimp only
    rw [hpair]
  refine ⟨w, returned, hrun, hreturned, (hmem _).mpr ⟨List.mem_cons_self,
    (hlisted ed25519Key).mpr ⟨_, hphrase⟩, .sr25519, rfl⟩, hfails, ?_⟩
  rintro ⟨s, pair, -, -, hsigns⟩
  rw [hfails] at hsigns
  cases hsigns

end SubstrateClient.Keystore
