import SubstrateClient.Api.Methods
import SubstrateClient.Lib.Region

/-!
# Reading the storage of a node (`src/std/mod.rs`)

The client reads single entries, the keys that begin with a prefix, the pairs of them and their
values, and proofs of entries. Each call builds a key, sends one request and reads the text of the
`result`.

* `StorageNode` is a node that answers these requests from the storage of its blocks, and
  `ServesStorage` says that the client passes the answers on.
* `getOpaqueStorageByKeyHash_eq`, `getKeys_eq`, `getOpaqueStoragePairsByKeyHash_eq` and
  `getStorageProofByKeys_eq`: what the calls return is what is stored.
* `storageReads_agree`: the keys, the pairs and the single entries of a block are of one storage.
-/

namespace SubstrateClient

open Lib Node Rpc Utils

/-- `ReadProof`. -/
structure ReadProof where
  at_ : H256
  proof : List Bytes
  deriving DecidableEq

/-- How a node writes a proof, and how `serde_json` reads it. -/
structure ProofFormat where
  toJson : ReadProof → Json
  fromStr : String → Except String ReadProof

/-- A list of strings. -/
def vecString : Json → Option (List String)
  | .arr elems => elems.mapM Json.asStr
  | _ => none

/-- A pair of strings. -/
def pairString : Json → Option (String × String)
  | .arr [.str a, .str b] => some (a, b)
  | _ => none

/-- A list of pairs of strings. -/
def vecPairString : Json → Option (List (String × String))
  | .arr elems => elems.mapM pairString
  | _ => none

/-- `serde_json::from_str` of a type that is read off a value. -/
def deserialize {α : Type} (J : Serde) (read : Json → Option α) (text : String) : ApiResult α :=
  match J.fromStr text with
  | .error e => .error (.deserializing e)
  | .ok v =>
    match read v with
    | some x => .ok x
    | none => .error (.deserializing "invalid type")

/-- `Vec::from_hex(..)?`. -/
def vecFromHex (H : Hex) (hex : String) : ApiResult Bytes :=
  match fromHex H hex with
  | .error e => .error (.invalidHexString e)
  | .ok bytes => .ok bytes

/-- The key and the value of a pair, the key first. -/
def pairFromHex (H : Hex) (kv : String × String) : ApiResult (Bytes × Bytes) := do
  let k ← vecFromHex H kv.1
  let v ← vecFromHex H kv.2
  return (k, v)

namespace Api

section Calls

variable (J : Serde) (H : Hex) (N : Hashing) (F : ProofFormat) {P : Type} (api : Api P)

/-- `Api::get_storage_value`. -/
def getStorageValue {V : Type} (value : Codec V) (storagePrefix storageKeyName : String)
    (atBlock : Option H256) : ApiResult (Option V) :=
  match api.metadata.storageValueKey N storagePrefix storageKeyName with
  | .error e => .error (.metadata e)
  | .ok storagekey => api.getStorageByKeyHash H value storagekey atBlock

/-- `Api::get_storage_map`. -/
def getStorageMap {K V : Type} (encode : K → Bytes) (value : Codec V)
    (storagePrefix storageKeyName : String) (mapKey : K) (atBlock : Option H256) :
    ApiResult (Option V) :=
  match api.metadata.storageMapKey N storagePrefix storageKeyName encode mapKey with
  | .error e => .error (.metadata e)
  | .ok storagekey => api.getStorageByKeyHash H value storagekey atBlock

/-- `Api::get_storage_map_key_prefix`. -/
def getStorageMapKeyPrefix (storagePrefix storageKeyName : String) : ApiResult StorageKey :=
  match api.metadata.storageMapKeyPrefix N storagePrefix storageKeyName with
  | .error e => .error (.metadata e)
  | .ok storagekey => .ok storagekey

/-- `Api::get_storage_double_map_partial_prefix`. -/
def getStorageDoubleMapPartialPrefix {K : Type} (encode : K → Bytes)
    (storagePrefix storageKeyName : String) (first : K) : ApiResult StorageKey :=
  match api.metadata.storageDoubleMapPartialKey N storagePrefix storageKeyName encode first with
  | .error e => .error (.metadata e)
  | .ok storagekey => .ok storagekey

/-- `Api::get_storage_double_map`. -/
def getStorageDoubleMap {K Q V : Type} (encode : K → Bytes) (encode2 : Q → Bytes) (value : Codec V)
    (storagePrefix storageKeyName : String) (first : K) (second : Q) (atBlock : Option H256) :
    ApiResult (Option V) :=
  match api.metadata.storageDoubleMapKey N storagePrefix storageKeyName encode encode2 first
      second with
  | .error e => .error (.metadata e)
  | .ok storagekey => api.getStorageByKeyHash H value storagekey atBlock

/-- `Api::get_opaque_storage_pairs_by_key_hash`. -/
def getOpaqueStoragePairsByKeyHash (key : StorageKey) (atBlock : Option H256) :
    ApiResult (Option (List (Bytes × Bytes))) := do
  match ← api.getRequest (stateGetPairs H key atBlock) with
  | some storage =>
    let deser ← deserialize J vecPairString storage
    let kv ← tryCollect (pairFromHex H) deser
    return some kv
  | none => return none

/-- `Api::get_keys`. -/
def getKeys (key : StorageKey) (atBlock : Option H256) : ApiResult (Option (List Bytes)) := do
  match ← api.getRequest (stateGetKeys H key atBlock) with
  | some keys =>
    let deser ← deserialize J vecString keys
    let keys ← tryCollect (vecFromHex H) deser
    return some keys
  | none => return none

/-- `Api::get_storage_proof_by_keys`. -/
def getStorageProofByKeys (keys : List StorageKey) (atBlock : Option H256) :
    ApiResult (Option ReadProof) :=
  match api.getRequest (stateGetReadProof H keys atBlock) with
  | .error e => .error e
  | .ok (some proof) =>
    match F.fromStr proof with
    | .error e => .error (.deserializing e)
    | .ok p => .ok (some p)
  | .ok none => .ok none

/-- `Api::get_storage_value_proof`. -/
def getStorageValueProof (storagePrefix storageKeyName : String) (atBlock : Option H256) :
    ApiResult (Option ReadProof) :=
  match api.metadata.storageValueKey N storagePrefix storageKeyName with
  | .error e => .error (.metadata e)
  | .ok storagekey => api.getStorageProofByKeys H F [storagekey] atBlock

/-- `Api::get_storage_map_proof`. -/
def getStorageMapProof {K : Type} (encode : K → Bytes) (storagePrefix storageKeyName : String)
    (mapKey : K) (atBlock : Option H256) : ApiResult (Option ReadProof) :=
  match api.metadata.storageMapKey N storagePrefix storageKeyName encode mapKey with
  | .error e => .error (.metadata e)
  | .ok storagekey => api.getStorageProofByKeys H F [storagekey] atBlock

/-- `Api::get_storage_double_map_proof`. -/
def getStorageDoubleMapProof {K Q : Type} (encode : K → Bytes) (encode2 : Q → Bytes)
    (storagePrefix storageKeyName : String) (first : K) (second : Q) (atBlock : Option H256) :
    ApiResult (Option ReadProof) :=
  match api.metadata.storageDoubleMapKey N storagePrefix storageKeyName encode encode2 first
      second with
  | .error e => .error (.metadata e)
  | .ok storagekey => api.getStorageProofByKeys H F [storagekey] atBlock

end Calls

end Api

/-! ## The node -/

/-- A node that keeps the storage of its blocks; `none` asks for the latest one. It lists keys in an
order of its own. -/
structure StorageNode where
  storageAt : Option H256 → Option (HashMap StorageKey Bytes)
  list : HashMap StorageKey Bytes → List StorageKey
  list_perm : ∀ storage, (list storage).Perm storage.keys
  prove : List StorageKey → HashMap StorageKey Bytes → ReadProof

namespace StorageNode

variable (node : StorageNode) (F : ProofFormat) (H : Hex)

/-- The keys of a storage that begin with a prefix. -/
def keysUnder (pre : StorageKey) (storage : HashMap StorageKey Bytes) : List StorageKey :=
  (node.list storage).filter (pre.isPrefixOf ·)

/-- The keys that begin with a prefix, and their values. -/
def pairsUnder (pre : StorageKey) (storage : HashMap StorageKey Bytes) : List (Bytes × Bytes) :=
  (node.keysUnder pre storage).filterMap fun key => (storage.get key).map fun v => (key, v)

/-- What the node answers from the storage of a block it knows. -/
def answer : Request → Option Json
  | .storage key atBlock => (node.storageAt atBlock).map fun storage =>
      ((storage.get key).map (hexValue H)).getD .null
  | .keys pre atBlock => (node.storageAt atBlock).map fun storage =>
      keysValue H (node.keysUnder pre storage)
  | .pairs pre atBlock => (node.storageAt atBlock).map fun storage =>
      .arr ((node.pairsUnder pre storage).map fun kv => .arr [hexValue H kv.1, hexValue H kv.2])
  | .readProof keys atBlock => (node.storageAt atBlock).map fun storage =>
      F.toJson (node.prove keys storage)
  | _ => none

end StorageNode

/-- The client passes on what the node answers to the text of a request, and proofs are read as the
node writes them. -/
structure ServesStorage (J : Serde) (H : Hex) (F : ProofFormat) (node : StorageNode)
    (client : RpcClientTrait) : Prop where
  answers : ∀ jsonreq answer,
    ((Request.ofText J H (J.toString jsonreq)).bind (node.answer F H)) = some answer →
      client.getRequest jsonreq = .ok (J.toString answer)
  reads : ∀ p, F.fromStr (J.toString (F.toJson p)) = .ok p ∧ F.toJson p ≠ .null

/-- What the client relies on of the crates it reads texts with. -/
structure TextLaws (J : Serde) (H : Hex) : Prop where
  hex : H.Lawful
  null : J.Lawful
  texts : J.Texts
  readsBack : J.ReadsBack

/-! ## What the calls return -/

/-- Items that are written each are collected. -/
theorem tryCollect_map {ε α β γ : Type} {f : β → Except ε γ} {g : α → β} {h : α → γ} {l : List α}
    (hf : ∀ x ∈ l, f (g x) = .ok (h x)) : tryCollect f (l.map g) = .ok (l.map h) := by
  rw [tryCollect_eq_ok, List.forall₂_map_left_iff, List.forall₂_map_right_iff]
  exact List.forall₂_same.mpr hf

section Spec

variable {J : Serde} {H : Hex} {F : ProofFormat} {P : Type} {api : Api P} {node : StorageNode}

/-- The node takes the request off the text, and its answer is the result. -/
theorem getRequest_answer (hL : TextLaws J H) {client : RpcClientTrait}
    {answers : Request → Option Json}
    (hs : ∀ jsonreq answer,
      ((Request.ofText J H (J.toString jsonreq)).bind answers) = some answer →
        client.getRequest jsonreq = .ok (J.toString answer))
    {r : Request} {answer : Json} (h : answers r = some answer) :
    (answer ≠ .null → Api._getRequest client (r.toJson H) = .ok (some (J.toString answer))) ∧
      (answer = .null → Api._getRequest client (r.toJson H) = .ok none) := by
  have hanswer : client.getRequest (r.toJson H) = .ok (J.toString answer) := by
    refine hs _ _ ?_
    rw [ofText_toJson hL.hex hL.readsBack, Option.bind_some, h]
  unfold Api._getRequest
  rw [hanswer]
  refine ⟨fun hne => ?_, fun hnull => ?_⟩
  · simp only [mt (hL.null _).mp hne, if_false]
  · simp only [(hL.null _).mpr hnull, if_true]

/-- A value, or `null`, is the result of a request. -/
theorem getRequest_optional (hL : TextLaws J H) {client : RpcClientTrait}
    {answers : Request → Option Json}
    (hs : ∀ jsonreq answer,
      ((Request.ofText J H (J.toString jsonreq)).bind answers) = some answer →
        client.getRequest jsonreq = .ok (J.toString answer))
    {r : Request} {α : Type} {x : Option α} (write : α → Json) (hne : ∀ a, write a ≠ .null)
    (h : answers r = some ((x.map write).getD .null)) :
    Api._getRequest client (r.toJson H) = .ok (x.map fun a => J.toString (write a)) := by
  obtain ⟨hsome, hnone⟩ := getRequest_answer hL hs h
  cases x with
  | none => exact hnone rfl
  | some a => exact hsome (hne a)

theorem vecFromHex_hexValue (hL : TextLaws J H) (bs : Bytes) :
    vecFromHex H ("0x" ++ H.encode bs) = .ok bs := by
  unfold vecFromHex
  rw [zeroX_append, fromHex_wrapped hL.hex]

variable {storage : HashMap StorageKey Bytes} {atBlock : Option H256}

/-- **A single entry.** -/
theorem getOpaqueStorageByKeyHash_eq (hL : TextLaws J H)
    (hs : ServesStorage J H F node api.client) (hat : node.storageAt atBlock = some storage)
    (key : StorageKey) :
    api.getOpaqueStorageByKeyHash H key atBlock = .ok (storage.get key) := by
  have hanswer : node.answer F H (.storage key atBlock) =
      some (((storage.get key).map (hexValue H)).getD .null) := by
    rw [StorageNode.answer, hat, Option.map_some]
  obtain ⟨hsome, hnone⟩ := getRequest_answer hL hs.answers hanswer
  unfold Api.getOpaqueStorageByKeyHash
  cases hget : storage.get key with
  | none =>
    have hreq : api.getRequest (stateGetStorage H key atBlock) = .ok none :=
      hnone (by rw [hget]; rfl)
    rw [hreq]
  | some value =>
    rw [hget] at hsome
    have hreq : api.getRequest (stateGetStorage H key atBlock) =
        .ok (some (J.toString (hexValue H value))) := hsome Json.noConfusion
    rw [hreq]
    simp only [toString_hexValue hL.hex hL.texts, fromHex_wrapped hL.hex]

/-- **The keys under a prefix.** -/
theorem getKeys_eq (hL : TextLaws J H) (hs : ServesStorage J H F node api.client)
    (hat : node.storageAt atBlock = some storage) (pre : StorageKey) :
    api.getKeys J H pre atBlock = .ok (some (node.keysUnder pre storage)) := by
  have hanswer : node.answer F H (.keys pre atBlock) =
      some (keysValue H (node.keysUnder pre storage)) := by
    rw [StorageNode.answer, hat, Option.map_some]
  have hreq : api.getRequest (stateGetKeys H pre atBlock) =
      .ok (some (J.toString (keysValue H (node.keysUnder pre storage)))) :=
    (getRequest_answer hL hs.answers hanswer).1 Json.noConfusion
  have hvec : vecString (keysValue H (node.keysUnder pre storage)) =
      some ((node.keysUnder pre storage).map fun key => "0x" ++ H.encode key) :=
    mapM_map fun key _ => rfl
  have hcollect : tryCollect (vecFromHex H)
      ((node.keysUnder pre storage).map fun key => "0x" ++ H.encode key) =
        .ok ((node.keysUnder pre storage).map fun key => key) :=
    tryCollect_map fun key _ => vecFromHex_hexValue hL key
  unfold Api.getKeys deserialize
  rw [hreq]
  simp only [bind, Except.bind, hL.readsBack _ (keysValue_plain _), hvec, hcollect, List.map_id']
  rfl

theorem pairs_plain (pairs : List (Bytes × Bytes)) :
    (Json.arr (pairs.map fun kv => .arr [hexValue H kv.1, hexValue H kv.2])).Plain := by
  refine .arr fun v hv => ?_
  obtain ⟨kv, -, rfl⟩ := List.mem_map.mp hv
  exact arr_plain_two (.str _) (.str _)

/-- Pairs are read off their texts. -/
theorem tryCollect_pairs (hL : TextLaws J H) (pairs : List (Bytes × Bytes)) :
    (vecPairString (.arr (pairs.map fun kv => .arr [hexValue H kv.1, hexValue H kv.2]))).map
      (tryCollect (pairFromHex H)) = some (.ok pairs) := by
  have hvec : vecPairString (.arr (pairs.map fun kv => .arr [hexValue H kv.1, hexValue H kv.2])) =
      some (pairs.map fun kv => ("0x" ++ H.encode kv.1, "0x" ++ H.encode kv.2)) :=
    mapM_map fun kv _ => rfl
  have hpair : ∀ kv : Bytes × Bytes,
      pairFromHex H ("0x" ++ H.encode kv.1, "0x" ++ H.encode kv.2) = .ok kv := by
    intro kv
    unfold pairFromHex
    rw [vecFromHex_hexValue hL, vecFromHex_hexValue hL]
    rfl
  have hcollect : tryCollect (pairFromHex H) (pairs.map
      fun kv => ("0x" ++ H.encode kv.1, "0x" ++ H.encode kv.2)) = .ok (pairs.map fun kv => kv) :=
    tryCollect_map fun kv _ => hpair kv
  rw [hvec, Option.map_some, hcollect, List.map_id']

/-- **The pairs under a prefix.** -/
theorem getOpaqueStoragePairsByKeyHash_eq (hL : TextLaws J H)
    (hs : ServesStorage J H F node api.client) (hat : node.storageAt atBlock = some storage)
    (pre : StorageKey) : api.getOpaqueStoragePairsByKeyHash J H pre atBlock =
      .ok (some (node.pairsUnder pre storage)) := by
  have hanswer : node.answer F H (.pairs pre atBlock) =
      some (.arr ((node.pairsUnder pre storage).map
        fun kv => .arr [hexValue H kv.1, hexValue H kv.2])) := by
    rw [StorageNode.answer, hat, Option.map_some]
  have hreq := (getRequest_answer hL hs.answers hanswer).1 Json.noConfusion
  obtain ⟨texts, htexts, hcollect⟩ :=
    Option.map_eq_some_iff.mp (tryCollect_pairs hL (node.pairsUnder pre storage))
  unfold Api.getOpaqueStoragePairsByKeyHash deserialize
  rw [show api.getRequest (stateGetPairs H pre atBlock) = _ from hreq]
  simp only [bind, Except.bind, hL.readsBack _ (pairs_plain _), htexts, hcollect]
  rfl

/-- **A proof of keys.** -/
theorem getStorageProofByKeys_eq (hL : TextLaws J H) (hs : ServesStorage J H F node api.client)
    (hat : node.storageAt atBlock = some storage) (keys : List StorageKey) :
    api.getStorageProofByKeys H F keys atBlock = .ok (some (node.prove keys storage)) := by
  have hanswer : node.answer F H (.readProof keys atBlock) =
      some (F.toJson (node.prove keys storage)) := by
    rw [StorageNode.answer, hat, Option.map_some]
  obtain ⟨hreads, hne⟩ := hs.reads (node.prove keys storage)
  have hreq : api.getRequest (stateGetReadProof H keys atBlock) =
      .ok (some (J.toString (F.toJson (node.prove keys storage)))) :=
    (getRequest_answer hL hs.answers hanswer).1 hne
  unfold Api.getStorageProofByKeys
  simp only [hreq, hreads]

/-! ## One storage -/

theorem StorageNode.mem_keysUnder {pre key : StorageKey} :
    key ∈ node.keysUnder pre storage ↔ pre <+: key ∧ (storage.get key).isSome = true := by
  rw [StorageNode.keysUnder, List.mem_filter, List.isPrefixOf_iff_prefix,
    (node.list_perm storage).mem_iff, HashMap.mem_keys, and_comm]

theorem StorageNode.keysUnder_nodup (pre : StorageKey) : (node.keysUnder pre storage).Nodup :=
  ((node.list_perm storage).nodup_iff.mpr storage.keys_nodup).filter _

/-- The pairs are of the keys, in their order. -/
theorem StorageNode.map_fst_pairsUnder (pre : StorageKey) :
    (node.pairsUnder pre storage).map Prod.fst = node.keysUnder pre storage := by
  unfold StorageNode.pairsUnder
  have hall : ∀ key ∈ node.keysUnder pre storage, (storage.get key).isSome = true := fun key hkey =>
    (StorageNode.mem_keysUnder.mp hkey).2
  generalize node.keysUnder pre storage = keys at hall ⊢
  induction keys with
  | nil => rfl
  | cons key keys ih =>
    obtain ⟨hkey, hkeys⟩ := List.forall_mem_cons.mp hall
    obtain ⟨v, hv⟩ := Option.isSome_iff_exists.mp hkey
    rw [List.filterMap_cons, hv, Option.map_some, List.map_cons, ih hkeys]

/-- **The lists and the single entries of a block are of one storage**: the keys under a prefix
are, once each, those that begin with it and have an entry, and the pairs have their entries. -/
theorem storageReads_agree (hL : TextLaws J H) (hs : ServesStorage J H F node api.client)
    (hat : node.storageAt atBlock = some storage) (pre : StorageKey) :
    ∃ keys pairs, api.getKeys J H pre atBlock = .ok (some keys) ∧
      api.getOpaqueStoragePairsByKeyHash J H pre atBlock = .ok (some pairs) ∧
      keys.Nodup ∧ pairs.map Prod.fst = keys ∧
      (∀ key, key ∈ keys ↔ pre <+: key ∧
        ∃ v, api.getOpaqueStorageByKeyHash H key atBlock = .ok (some v)) ∧
      ∀ kv ∈ pairs, api.getOpaqueStorageByKeyHash H kv.1 atBlock = .ok (some kv.2) := by
  refine ⟨_, _, getKeys_eq hL hs hat pre, getOpaqueStoragePairsByKeyHash_eq hL hs hat pre,
    StorageNode.keysUnder_nodup pre, StorageNode.map_fst_pairsUnder pre, fun key => ?_, ?_⟩
  · rw [StorageNode.mem_keysUnder, getOpaqueStorageByKeyHash_eq hL hs hat,
      Option.isSome_iff_exists]
    simp only [Except.ok.injEq]
  · intro kv hkv
    obtain ⟨key, -, hpair⟩ := List.mem_filterMap.mp hkv
    obtain ⟨v, hv, rfl⟩ := Option.map_eq_some_iff.mp hpair
    rw [getOpaqueStorageByKeyHash_eq hL hs hat, hv]

end Spec

/-! ## A node with three entries -/

theorem textLaws_reference : TextLaws Serde.reference Hex.reference :=
  ⟨Hex.reference_lawful, Serde.reference_lawful, Serde.reference_texts, Serde.reference_readsBack⟩

/-- Proofs as objects of a hash and a list of byte strings. -/
def ProofFormat.reference : ProofFormat where
  toJson p := .obj [("at", hexValue Hex.reference p.at_.bytes),
    ("proof", keysValue Hex.reference p.proof)]
  fromStr text :=
    match Serde.reference.fromStr text with
    | .error e => .error e
    | .ok v =>
      match hashParam Hex.reference (v.index "at"), keysParam Hex.reference (v.index "proof") with
      | some hash, some proof => .ok ⟨hash, proof⟩
      | _, _ => .error "invalid type"

theorem ProofFormat.reference_reads (p : ReadProof) : ProofFormat.reference.fromStr
    (Serde.reference.toString (ProofFormat.reference.toJson p)) = .ok p ∧
      ProofFormat.reference.toJson p ≠ .null := by
  have hplain : (ProofFormat.reference.toJson p).Plain := by
    refine .obj (show ["at", "proof"].Pairwise (· < ·) by decide) ?_
    simp only [List.forall_mem_cons, List.not_mem_nil, false_imp_iff, implies_true, and_true]
    exact ⟨.str _, keysValue_plain _⟩
  have hproof : keysParam Hex.reference ((ProofFormat.reference.toJson p).index "proof") =
      some p.proof := keysParam_keysValue Hex.reference_lawful p.proof
  have hat : hashParam Hex.reference ((ProofFormat.reference.toJson p).index "at") = some p.at_ :=
    hashParam_hexValue Hex.reference_lawful p.at_
  refine ⟨?_, Json.noConfusion⟩
  unfold ProofFormat.reference at hplain hproof hat ⊢
  simp only [Serde.reference_readsBack _ hplain, hproof, hat]

/-- A client that asks a node directly. -/
def directClient (answers : Request → Option Json) : RpcClientTrait where
  getRequest jsonreq :=
    match (Request.ofText Serde.reference Hex.reference (Serde.reference.toString jsonreq)).bind
        answers with
    | some answer => .ok (Serde.reference.toString answer)
    | none => .error .disconnected
  sendExtrinsic _ _ := .error .disconnected

theorem directClient_answers {answers : Request → Option Json} (jsonreq answer : Json)
    (h : (Request.ofText Serde.reference Hex.reference (Serde.reference.toString jsonreq)).bind
      answers = some answer) :
    (directClient answers).getRequest jsonreq = .ok (Serde.reference.toString answer) := by
  unfold directClient
  simp only [h]

/-- A client of the node. -/
def StorageNode.client (node : StorageNode) : RpcClientTrait :=
  directClient (node.answer ProofFormat.reference Hex.reference)

theorem StorageNode.serves_client (node : StorageNode) :
    ServesStorage Serde.reference Hex.reference ProofFormat.reference node node.client where
  answers := directClient_answers
  reads := ProofFormat.reference_reads

/-- The node of one storage, whatever the block is. -/
def StorageNode.of (storage : HashMap StorageKey Bytes) : StorageNode where
  storageAt _ := some storage
  list storage := storage.keys
  list_perm storage := List.Perm.refl storage.keys
  prove _ _ := ⟨genesisHash, []⟩

/-- An entry beside two that share a prefix, one of them empty. -/
def threeEntries : HashMap StorageKey Bytes := .collect [([1, 2], [7]), ([2], [9]), ([1, 3], [])]

/-- `storageReads_agree` on the entries that share a prefix. -/
theorem storageReads_agree_threeEntries : ∃ keys,
    (⟨none, accountMetadata, (StorageNode.of threeEntries).client⟩ : Api Unit).getKeys
      Serde.reference Hex.reference [1] none = .ok (some keys) ∧
    ([1, 3] : Bytes) ∈ keys ∧ ([2] : Bytes) ∉ keys := by
  let api : Api Unit := ⟨none, accountMetadata, (StorageNode.of threeEntries).client⟩
  have hat : (StorageNode.of threeEntries).storageAt none = some threeEntries := rfl
  have hs : ServesStorage Serde.reference Hex.reference ProofFormat.reference
      (StorageNode.of threeEntries) api.client := StorageNode.serves_client _
  obtain ⟨keys, -, hkeys, -, -, -, hmem, -⟩ :=
    storageReads_agree textLaws_reference hs hat [1]
  refine ⟨keys, hkeys, (hmem _).mpr ⟨by decide, [], ?_⟩, fun h => ?_⟩
  · rw [getOpaqueStorageByKeyHash_eq textLaws_reference hs hat]
    rfl
  · exact absurd ((hmem _).mp h).1 (by decide)

end SubstrateClient
