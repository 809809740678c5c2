import SubstrateClient.Api.Storage

/-!
# Connecting to a node (`src/std/mod.rs`)

`Api::new` asks a node for the hash of its first block, for its metadata and for the version of its
runtime, in this order, and keeps all three. The metadata goes through `Metadata::try_from`. What
`null` stands for, the first three variants of the client's error, is told apart by the request.

* `RuntimeNode` is a node that may have each of the three, and the storage of its blocks;
  `ServesRuntime` says that the client passes its answers on.
* `getGenesisHash_eq`, `getMetadata_eq`, `getRuntimeVersion_eq`: what the three requests return.
* `new_eq_ok`: a connection holds what the node has, and there is none to a node that lacks one of
  the three.
-/

namespace SubstrateClient

open Lib Node Rpc Utils

/-- `sp_version::RuntimeVersion`: the fields the client reads. -/
structure RuntimeVersion where
  specVersion : UInt32
  transactionVersion : UInt32
  deriving DecidableEq

/-- How a node writes its version, and how `serde_json` reads it. -/
structure VersionFormat where
  toJson : RuntimeVersion → Json
  fromStr : String → Except String RuntimeVersion

/-- `RuntimeMetadataPrefixed::decode`. -/
abbrev MetadataDecoder := Bytes → Except String (RuntimeMetadataPrefixed × Bytes)

/-- `ApiClientError`: the variants of a connection, besides those of the other calls. -/
inductive ConnectError where
  | genesis
  | runtimeVersion
  | metadataFetch
  | invalidMetadata (e : InvalidMetadataError)
  | call (e : ApiError)
  deriving DecidableEq

/-- `Api`, with what it keeps of the node. -/
structure ConnectedApi (P : Type) extends Api P where
  genesisHash : H256
  runtimeVersion : RuntimeVersion

namespace ConnectedApi

section Requests

variable (H : Hex) (V : VersionFormat) (M : MetadataDecoder) (client : RpcClientTrait)

/-- `Api::_get_genesis_hash`. -/
def _getGenesisHash : Except ConnectError H256 :=
  match Api._getRequest client chainGetGenesisHash with
  | .error e => .error (.call e)
  | .ok (some g) =>
    match hashFromHex H g with
    | .error e => .error (.call (.invalidHexString e))
    | .ok hash => .ok hash
  | .ok none => .error .genesis

/-- `Api::_get_runtime_version`. -/
def _getRuntimeVersion : Except ConnectError RuntimeVersion :=
  match Api._getRequest client stateGetRuntimeVersion with
  | .error e => .error (.call e)
  | .ok (some v) =>
    match V.fromStr v with
    | .error e => .error (.call (.deserializing e))
    | .ok version => .ok version
  | .ok none => .error .runtimeVersion

/-- `Api::_get_metadata`. -/
def _getMetadata : Except ConnectError RuntimeMetadataPrefixed :=
  match Api._getRequest client stateGetMetadata with
  | .error e => .error (.call e)
  | .ok none => .error .metadataFetch
  | .ok (some hex) =>
    match fromHex H hex with
    | .error e => .error (.call (.invalidHexString e))
    | .ok metadata =>
      match M metadata with
      | .error e => .error (.call (.storageValueDecode e))
      | .ok (md, _) => .ok md

/-- `map(Metadata::try_from)??`. -/
def tryMetadata (md : RuntimeMetadataPrefixed) : Except ConnectError Metadata :=
  match Metadata.tryFrom md with
  | .error e => .error (.invalidMetadata e)
  | .ok metadata => .ok metadata

/-- `Api::new`. -/
def new {P : Type} : Except ConnectError (ConnectedApi P) := do
  let genesisHash ← _getGenesisHash H client
  let md ← _getMetadata H M client
  let metadata ← tryMetadata md
  let runtimeVersion ← _getRuntimeVersion V client
  return { signer := none, genesisHash, metadata, runtimeVersion, client }

end Requests

section Calls

variable (S : Scale) (H : Hex) (N : Hashing) (V : VersionFormat) (M : MetadataDecoder) {P : Type}
  (api : ConnectedApi P)

/-- `Api::set_signer`. -/
def setSigner (signer : P) : ConnectedApi P := { api with signer := some signer }

/-- `Api::get_metadata`. -/
def getMetadata : Except ConnectError RuntimeMetadataPrefixed := _getMetadata H M api.client

/-- `Api::get_spec_version`. -/
def getSpecVersion : Except ConnectError UInt32 :=
  (_getRuntimeVersion V api.client).map RuntimeVersion.specVersion

/-- `Api::get_genesis_hash`. -/
def getGenesisHash : Except ConnectError H256 := _getGenesisHash H api.client

/-- `Api::get_account_data`. -/
def getAccountData (address : Primitives.AccountId) :
    ApiResult (Option Primitives.AccountData) :=
  (api.getAccountInfo S H N address).map fun info => info.map Primitives.AccountInfo.data

/-- `Api::get_finalized_head`. -/
def getFinalizedHead : ApiResult (Option H256) :=
  match api.getRequest chainGetFinalizedHead with
  | .error e => .error e
  | .ok (some hash) =>
    match hashFromHex H hash with
    | .error e => .error (.invalidHexString e)
    | .ok h => .ok (some h)
  | .ok none => .ok none

/-- `Api::get_header`, of a type that `fromStr` reads. -/
def getHeader {Head : Type} (fromStr : String → Except String Head) (hash : Option H256) :
    ApiResult (Option Head) :=
  match api.getRequest (chainGetHeader H hash) with
  | .error e => .error e
  | .ok (some head) =>
    match fromStr head with
    | .error e => .error (.deserializing e)
    | .ok h => .ok (some h)
  | .ok none => .ok none

/-- `Api::send_extrinsic`. -/
def sendExtrinsic (xthexPrefixed : String) (exitOn : XtStatus) : ApiResult (Option H256) :=
  api.client.sendExtrinsic xthexPrefixed exitOn

end Calls

end ConnectedApi

/-! ## The node -/

/-- A node of one runtime. -/
structure RuntimeNode where
  genesis : Option H256
  metadata : Option Bytes
  version : Option RuntimeVersion
  state : StorageNode

/-- What the node answers about its runtime, and from its storage. -/
def RuntimeNode.answer (node : RuntimeNode) (V : VersionFormat) (F : ProofFormat) (H : Hex) :
    Request → Option Json
  | .blockHash (some 0) => some (hashValue H node.genesis)
  | .metadata => some ((node.metadata.map (hexValue H)).getD .null)
  | .runtimeVersion => some ((node.version.map V.toJson).getD .null)
  | r => node.state.answer F H r

/-- The client passes on what the node answers to the text of a request, and versions and proofs are
read as the node writes them. -/
structure ServesRuntime (J : Serde) (H : Hex) (V : VersionFormat) (F : ProofFormat)
    (node : RuntimeNode) (client : RpcClientTrait) : Prop where
  answers : ∀ jsonreq answer,
    ((Request.ofText J H (J.toString jsonreq)).bind (node.answer V F H)) = some answer →
      client.getRequest jsonreq = .ok (J.toString answer)
  proofs : ∀ p, F.fromStr (J.toString (F.toJson p)) = .ok p ∧ F.toJson p ≠ .null
  versions : ∀ v, V.fromStr (J.toString (V.toJson v)) = .ok v ∧ V.toJson v ≠ .null

section Spec

variable {J : Serde} {H : Hex} {V : VersionFormat} {F : ProofFormat} {M : MetadataDecoder}
  {node : RuntimeNode} {client : RpcClientTrait}

/-- What the node keeps, it answers for. -/
theorem RuntimeNode.answer_of_state {r : Request} {answer : Json}
    (h : node.state.answer F H r = some answer) : node.answer V F H r = some answer := by
  cases r with
  | storage key atBlock => exact h
  | keys key atBlock => exact h
  | pairs key atBlock => exact h
  | readProof keys atBlock => exact h
  | _ => cases h

/-- The node's storage is served. -/
theorem ServesRuntime.storage (hs : ServesRuntime J H V F node client) :
    ServesStorage J H F node.state client where
  answers jsonreq answer h := by
    obtain ⟨r, hr, hanswer⟩ := Option.bind_eq_some_iff.mp h
    refine hs.answers jsonreq answer ?_
    rw [hr, Option.bind_some]
    exact RuntimeNode.answer_of_state hanswer
  reads := hs.proofs

/-- **The genesis hash is the hash of block 0.** -/
theorem getGenesisHash_eq (hL : TextLaws J H) (hs : ServesRuntime J H V F node client) :
    ConnectedApi._getGenesisHash H client =
      match node.genesis with
      | some g => .ok g
      | none => .error .genesis := by
  have hreq : Api._getRequest client chainGetGenesisHash =
      .ok (node.genesis.map fun g => J.toString (hexValue H g.bytes)) := by
    refine getRequest_optional (r := .blockHash (some 0)) hL hs.answers
      (fun g : H256 => hexValue H g.bytes) (fun _ => Json.noConfusion) ?_
    cases hg : node.genesis <;> simp [RuntimeNode.answer, hg, hashValue]
  unfold ConnectedApi._getGenesisHash
  rw [hreq]
  cases node.genesis with
  | none => rfl
  | some g => simp only [Option.map_some, hashFromHex_hexValue hL.hex hL.texts]

/-- **The metadata is what the node's bytes decode to.** -/
theorem getMetadata_eq (hL : TextLaws J H) (hs : ServesRuntime J H V F node client) :
    ConnectedApi._getMetadata H M client =
      match node.metadata with
      | some bytes =>
        match M bytes with
        | .error e => .error (.call (.storageValueDecode e))
        | .ok (md, _) => .ok md
      | none => .error .metadataFetch := by
  have hreq : Api._getRequest client stateGetMetadata =
      .ok (node.metadata.map fun bytes => J.toString (hexValue H bytes)) :=
    getRequest_optional (r := .metadata) hL hs.answers (hexValue H) (fun _ => Json.noConfusion) rfl
  unfold ConnectedApi._getMetadata
  rw [hreq]
  cases node.metadata with
  | none => rfl
  | some bytes => simp only [Option.map_some, toString_hexValue hL.hex hL.texts,
      fromHex_wrapped hL.hex]

/-- **The version is the node's.** -/
theorem getRuntimeVersion_eq (hL : TextLaws J H) (hs : ServesRuntime J H V F node client) :
    ConnectedApi._getRuntimeVersion V client =
      match node.version with
      | some v => .ok v
      | none => .error .runtimeVersion := by
  have hreq : Api._getRequest client stateGetRuntimeVersion =
      .ok (node.version.map fun v => J.toString (V.toJson v)) :=
    getRequest_optional (r := .runtimeVersion) hL hs.answers V.toJson (fun v => (hs.versions v).2) rfl
  unfold ConnectedApi._getRuntimeVersion
  rw [hreq]
  cases node.version with
  | none => rfl
  | some v => simp only [Option.map_some, (hs.versions v).1]

theorem getGenesisHash_eq_ok (hL : TextLaws J H) (hs : ServesRuntime J H V F node client)
    {g : H256} : ConnectedApi._getGenesisHash H client = .ok g ↔ node.genesis = some g := by
  rw [getGenesisHash_eq hL hs]
  cases node.genesis <;> simp

theorem getMetadata_eq_ok (hL : TextLaws J H) (hs : ServesRuntime J H V F node client)
    {md : RuntimeMetadataPrefixed} : ConnectedApi._getMetadata H M client = .ok md ↔
      ∃ bytes rest, node.metadata = some bytes ∧ M bytes = .ok (md, rest) := by
  rw [getMetadata_eq hL hs]
  cases node.metadata with
  | none => simp
  | some bytes => cases hdec : M bytes <;> simp [hdec, Prod.ext_iff]

theorem getRuntimeVersion_eq_ok (hL : TextLaws J H) (hs : ServesRuntime J H V F node client)
    {v : RuntimeVersion} :
    ConnectedApi._getRuntimeVersion V client = .ok v ↔ node.version = some v := by
  rw [getRuntimeVersion_eq hL hs]
  cases node.version <;> simp

/-- The three answers, and what is made of the metadata. -/
structure Connected {P : Type} (M : MetadataDecoder) (node : RuntimeNode) (client : RpcClientTrait)
    (api : ConnectedApi P) : Prop where
  genesis : node.genesis = some api.genesisHash
  metadata : ∃ bytes md rest, node.metadata = some bytes ∧ M bytes = .ok (md, rest) ∧
    Metadata.tryFrom md = .ok api.metadata
  version : node.version = some api.runtimeVersion
  signer : api.signer = none
  client : api.client = client

theorem tryMetadata_eq_ok {md : RuntimeMetadataPrefixed} {m : Metadata} :
    ConnectedApi.tryMetadata md = .ok m ↔ Metadata.tryFrom md = .ok m := by
  unfold ConnectedApi.tryMetadata
  cases Metadata.tryFrom md <;> simp

/-- **A connection holds what the node has**, and there is one when the node has all three and its
metadata is accepted. -/
theorem new_eq_ok (hL : TextLaws J H) (hs : ServesRuntime J H V F node client) {P : Type}
    {api : ConnectedApi P} :
    ConnectedApi.new H V M client = .ok api ↔ Connected M node client api := by
  simp only [ConnectedApi.new, Outcome.except_bind_eq_ok, getGenesisHash_eq_ok hL hs,
    getMetadata_eq_ok hL hs, getRuntimeVersion_eq_ok hL hs, tryMetadata_eq_ok]
  constructor
  · rintro ⟨g, hg, md, ⟨bytes, rest, hbytes, hdec⟩, m, hm, v, hv, hapi⟩
    cases hapi
    exact ⟨hg, ⟨bytes, md, rest, hbytes, hdec, hm⟩, hv, rfl, rfl⟩
  · rintro ⟨hg, ⟨bytes, md, rest, hbytes, hdec, hm⟩, hv, hsigner, hclient⟩
    obtain ⟨⟨signer, metadata, client'⟩, g, v⟩ := api
    cases hsigner
    cases hclient
    exact ⟨g, hg, md, ⟨bytes, rest, hbytes, hdec⟩, metadata, hm, v, hv, rfl⟩

end Spec

/-! ## A node to connect to -/

/-- A version as the two fields. -/
def VersionFormat.reference : VersionFormat where
  toJson v := .obj [("specVersion", .num (.posInt v.specVersion.toUInt64)),
    ("transactionVersion", .num (.posInt v.transactionVersion.toUInt64))]
  fromStr text :=
    match Serde.reference.fromStr text with
    | .error e => .error e
    | .ok v =>
      match numberParam (v.index "specVersion"), numberParam (v.index "transactionVersion") with
      | some spec, some tx => .ok ⟨spec, tx⟩
      | _, _ => .error "invalid type"

theorem VersionFormat.reference_reads (v : RuntimeVersion) : VersionFormat.reference.fromStr
    (Serde.reference.toString (VersionFormat.reference.toJson v)) = .ok v ∧
      VersionFormat.reference.toJson v ≠ .null := by
  have hplain : (VersionFormat.reference.toJson v).Plain := by
    refine .obj (show ["specVersion", "transactionVersion"].Pairwise (· < ·) by decide) ?_
    simp only [List.forall_mem_cons, List.not_mem_nil, false_imp_iff, implies_true, and_true]
    exact ⟨.posInt _, .posInt _⟩
  have hspec : numberParam ((VersionFormat.reference.toJson v).index "specVersion") =
      some v.specVersion := numberParam_posInt v.specVersion
  have htx : numberParam ((VersionFormat.reference.toJson v).index "transactionVersion") =
      some v.transactionVersion := numberParam_posInt v.transactionVersion
  refine ⟨?_, Json.noConfusion⟩
  unfold VersionFormat.reference at hplain hspec htx ⊢
  simp only [Serde.reference_readsBack _ hplain, hspec, htx]

/-- A client of the node. -/
def RuntimeNode.client (node : RuntimeNode) : RpcClientTrait :=
  directClient (node.answer VersionFormat.reference ProofFormat.reference Hex.reference)

theorem RuntimeNode.serves_client (node : RuntimeNode) :
    ServesRuntime Serde.reference Hex.reference VersionFormat.reference ProofFormat.reference node
      node.client where
  answers := directClient_answers
  proofs := ProofFormat.reference_reads
  versions := VersionFormat.reference_reads

end SubstrateClient
