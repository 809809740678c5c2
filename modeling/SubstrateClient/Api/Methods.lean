import SubstrateClient.Api.Blocks
import SubstrateClient.Rpc.Texts

/-!
# The methods of a node (`src/std/rpc/json_req.rs`)

A request is the name of a method and a list of parameters. The client writes it as a text, and a
node takes the text apart again: the name says how many parameters there are, and what each stands
for.

* `Request` is a method with its arguments, `Request.toJson` and `Request.toJsonWithId` the values
  the client builds of it and `Request.ofJson` how a node reads a value.
* `requests_read`: a node reads from the text of a request the method and the arguments the client
  meant, whatever its id is, and no two requests have one text. The request for the genesis hash is
  that for block 0.
-/

namespace SubstrateClient

open Lib Rpc Utils

/-- The methods the client calls. -/
inductive Request where
  | header (hash : Option H256)
  | blockHash (number : Option UInt32)
  | block (hash : Option H256)
  | finalizedHead
  | subscribeFinalizedHeads
  | feeDetails (xthexPrefixed : String) (atBlock : Option H256)
  | feeInfo (xthexPrefixed : String) (atBlock : Option H256)
  | metadata
  | runtimeVersion
  | subscribeStorage (keys : List Bytes)
  | storage (key : Bytes) (atBlock : Option H256)
  | readProof (keys : List Bytes) (atBlock : Option H256)
  | keys (key : Bytes) (atBlock : Option H256)
  | pairs (key : Bytes) (atBlock : Option H256)
  | submitExtrinsic (xthexPrefixed : String)
  | submitAndWatchExtrinsic (xthexPrefixed : String)
  deriving DecidableEq

/-- The value the client builds. -/
def Request.toJson (H : Hex) : Request → Json
  | .header hash => chainGetHeader H hash
  | .blockHash number => chainGetBlockHash number
  | .block hash => chainGetBlock H hash
  | .finalizedHead => chainGetFinalizedHead
  | .subscribeFinalizedHeads => chainSubscribeFinalizedHeads
  | .feeDetails xthexPrefixed atBlock => paymentQueryFeeDetails H xthexPrefixed atBlock
  | .feeInfo xthexPrefixed atBlock => paymentQueryInfo H xthexPrefixed atBlock
  | .metadata => stateGetMetadata
  | .runtimeVersion => stateGetRuntimeVersion
  | .subscribeStorage keyList => stateSubscribeStorage H keyList
  | .storage key atBlock => stateGetStorage H key atBlock
  | .readProof keyList atBlock => stateGetReadProof H keyList atBlock
  | .keys key atBlock => stateGetKeys H key atBlock
  | .pairs key atBlock => stateGetPairs H key atBlock
  | .submitExtrinsic xthexPrefixed => authorSubmitExtrinsic xthexPrefixed
  | .submitAndWatchExtrinsic xthexPrefixed => authorSubmitAndWatchExtrinsic xthexPrefixed

/-- The value under an id of the caller's, where there is a function for it. -/
def Request.toJsonWithId (H : Hex) (id : UInt32) : Request → Option Json
  | .blockHash number => some (chainGetBlockHashWithId number id)
  | .metadata => some (stateGetMetadataWithId id)
  | .runtimeVersion => some (stateGetRuntimeVersionWithId id)
  | .subscribeStorage keyList => some (stateSubscribeStorageWithId H keyList id)
  | .storage key atBlock => some (stateGetStorageWithId H key atBlock id)
  | .submitExtrinsic xthexPrefixed => some (authorSubmitExtrinsicWithId xthexPrefixed id)
  | .submitAndWatchExtrinsic xthexPrefixed =>
    some (authorSubmitAndWatchExtrinsicWithId xthexPrefixed id)
  | _ => none

/-- The client builds the value of the request. -/
def Request.Builds (H : Hex) (r : Request) (jsonreq : Json) : Prop :=
  jsonreq = r.toJson H ∨ ∃ id, r.toJsonWithId H id = some jsonreq

/-- The name of the method. -/
def Request.method : Request → String
  | .header _ => "chain_getHeader"
  | .blockHash _ => "chain_getBlockHash"
  | .block _ => "chain_getBlock"
  | .finalizedHead => "chain_getFinalizedHead"
  | .subscribeFinalizedHeads => "chain_subscribeFinalizedHeads"
  | .feeDetails _ _ => "payment_queryFeeDetails"
  | .feeInfo _ _ => "payment_queryInfo"
  | .metadata => "state_getMetadata"
  | .runtimeVersion => "state_getRuntimeVersion"
  | .subscribeStorage _ => "state_subscribeStorage"
  | .storage _ _ => "state_getStorage"
  | .readProof _ _ => "state_getReadProof"
  | .keys _ _ => "state_getKeys"
  | .pairs _ _ => "state_getPairs"
  | .submitExtrinsic _ => "author_submitExtrinsic"
  | .submitAndWatchExtrinsic _ => "author_submitAndWatchExtrinsic"

/-- The parameters. -/
def Request.params (H : Hex) : Request → Json
  | .header hash | .block hash => .arr [hashValue H hash]
  | .blockHash number => .arr [numberValue number]
  | .finalizedHead | .subscribeFinalizedHeads => .null
  | .feeDetails xthexPrefixed atBlock | .feeInfo xthexPrefixed atBlock =>
    .arr [.str xthexPrefixed, hashValue H atBlock]
  | .metadata | .runtimeVersion => .arr [.null]
  | .subscribeStorage keyList => .arr [keysValue H keyList]
  | .storage key atBlock | .keys key atBlock | .pairs key atBlock =>
    .arr [hexValue H key, hashValue H atBlock]
  | .readProof keyList atBlock => .arr [keysValue H keyList, hashValue H atBlock]
  | .submitExtrinsic xthexPrefixed | .submitAndWatchExtrinsic xthexPrefixed =>
    .arr [.str xthexPrefixed]

/-! ## How a node reads it -/

/-- A byte string. -/
def hexParam (H : Hex) : Json → Option Bytes
  | .str s => (fromHex H s).toOption
  | _ => none

/-- A list of byte strings. -/
def keysParam (H : Hex) : Json → Option (List Bytes)
  | .arr elems => elems.mapM (hexParam H)
  | _ => none

/-- No parameters. -/
def noParams (request : Request) : Json → Option Request
  | .null => some request
  | _ => none

/-- One parameter. -/
def oneParam {α : Type} (first : Json → Option α) (request : α → Request) : Json → Option Request
  | .arr [p] => (first p).map request
  | _ => none

/-- Two parameters. -/
def twoParams {α β : Type} (first : Json → Option α) (second : Json → Option β)
    (request : α → β → Request) : Json → Option Request
  | .arr [p, q] => do
    let a ← first p
    let b ← second q
    some (request a b)
  | _ => none

/-- A parameter that is left open. -/
def nullParam : Json → Option Unit
  | .null => some ()
  | _ => none

/-- The methods by their names, with the parameters of each. -/
def methods (H : Hex) : List (String × (Json → Option Request)) :=
  let hash := optParam (hashParam H)
  [("chain_getHeader", oneParam hash .header),
    ("chain_getBlockHash", oneParam (optParam numberParam) .blockHash),
    ("chain_getBlock", oneParam hash .block),
    ("chain_getFinalizedHead", noParams .finalizedHead),
    ("chain_subscribeFinalizedHeads", noParams .subscribeFinalizedHeads),
    ("payment_queryFeeDetails", twoParams Json.asStr hash .feeDetails),
    ("payment_queryInfo", twoParams Json.asStr hash .feeInfo),
    ("state_getMetadata", oneParam nullParam fun _ => .metadata),
    ("state_getRuntimeVersion", oneParam nullParam fun _ => .runtimeVersion),
    ("state_subscribeStorage", oneParam (keysParam H) .subscribeStorage),
    ("state_getStorage", twoParams (hexParam H) hash .storage),
    ("state_getReadProof", twoParams (keysParam H) hash .readProof),
    ("state_getKeys", twoParams (hexParam H) hash .keys),
    ("state_getPairs", twoParams (hexParam H) hash .pairs),
    ("author_submitExtrinsic", oneParam Json.asStr .submitExtrinsic),
    ("author_submitAndWatchExtrinsic", oneParam Json.asStr .submitAndWatchExtrinsic)]

/-- The request a node reads. -/
def Request.ofJson (H : Hex) (jsonreq : Json) : Option Request := do
  let method ← (jsonreq.index "method").asStr
  let read ← (methods H).lookup method
  read (jsonreq.index "params")

/-- The request a node reads off a text. -/
def Request.ofText (J : Serde) (H : Hex) (text : String) : Option Request :=
  match J.fromStr text with
  | .ok jsonreq => Request.ofJson H jsonreq
  | .error _ => none

section Read

variable {J : Serde} {H : Hex}

/-- A method is found by its name, whatever the request's id is. -/
theorem ofJson_jsonReq {method : String} {read : Json → Option Request}
    (h : (methods H).lookup method = some read) (params : Json) (id : UInt32) :
    Request.ofJson H (jsonReq method params id) = read params := by
  show ((methods H).lookup method).bind (fun read => read params) = _
  rw [h, Option.bind_some]

theorem oneParam_eq {α : Type} {first : Json → Option α} {request : α → Request} {p : Json} {a : α}
    (h : first p = some a) : oneParam first request (.arr [p]) = some (request a) := by
  rw [oneParam, h, Option.map_some]

theorem twoParams_eq {α β : Type} {first : Json → Option α} {second : Json → Option β}
    {request : α → β → Request} {p q : Json} {a : α} {b : β} (hp : first p = some a)
    (hq : second q = some b) :
    twoParams first second request (.arr [p, q]) = some (request a b) := by
  simp only [twoParams, hp, hq, Option.bind_eq_bind, Option.bind_some]

theorem hexParam_hexValue (hH : H.Lawful) (bs : Bytes) : hexParam H (hexValue H bs) = some bs := by
  show (fromHex H ("0x" ++ H.encode bs)).toOption = some bs
  rw [zeroX_append, fromHex_wrapped hH]
  rfl

/-- What is written of every element is read off every element. -/
theorem mapM_map {α β γ : Type} {f : β → Option γ} {g : α → β} {h : α → γ} :
    ∀ {l : List α}, (∀ x ∈ l, f (g x) = some (h x)) → (l.map g).mapM f = some (l.map h)
  | [], _ => rfl
  | x :: xs, hf => by
    obtain ⟨hx, hxs⟩ := List.forall_mem_cons.mp hf
    rw [List.map_cons, List.mapM_cons, hx, mapM_map hxs]
    rfl

theorem keysParam_keysValue (hH : H.Lawful) (keys : List Bytes) :
    keysParam H (keysValue H keys) = some keys := by
  refine (mapM_map fun key _ => hexParam_hexValue hH key).trans ?_
  rw [List.map_id']

theorem optParam_hashValue (hH : H.Lawful) (hash : Option H256) :
    optParam (hashParam H) (hashValue H hash) = some hash := by
  cases hash with
  | none => rfl
  | some h =>
    have hhash := hashParam_hexValue hH h
    unfold hashValue hexValue at *
    unfold optParam
    simp only [hhash, Option.map_some]

theorem numberParam_posInt (n : UInt32) : numberParam (.num (.posInt n.toUInt64)) = some n := by
  have hlt : n.toUInt64.toNat < 2 ^ 32 := by
    have := n.toNat_lt
    simpa using this
  unfold numberParam
  simp only [if_pos hlt, UInt32.toUInt32_toUInt64]

theorem optParam_numberValue (number : Option UInt32) :
    optParam numberParam (numberValue number) = some number := by
  cases number with
  | none => rfl
  | some n =>
    unfold numberValue optParam
    simp only [numberParam_posInt, Option.map_some]

/-- What is built of a request names its method and has its parameters. -/
theorem Request.toJson_eq (r : Request) : ∃ id, r.toJson H = jsonReq r.method (r.params H) id := by
  cases r with
  | _ => exact ⟨_, rfl⟩

theorem Request.Builds.eq_jsonReq {r : Request} {jsonreq : Json} (h : r.Builds H jsonreq) :
    ∃ id, jsonreq = jsonReq r.method (r.params H) id := by
  rcases h with rfl | ⟨id, h⟩
  · exact r.toJson_eq
  · refine ⟨id, ?_⟩
    cases r with
    | blockHash _ | metadata | runtimeVersion | subscribeStorage _ | storage _ _
    | submitExtrinsic _ | submitAndWatchExtrinsic _ => exact (Option.some.inj h).symm
    | _ => cases h

/-- **A request is read as it was meant**, under any id. -/
theorem ofJson_request (hH : H.Lawful) (r : Request) (id : UInt32) :
    Request.ofJson H (jsonReq r.method (r.params H) id) = some r := by
  have hhash := optParam_hashValue hH
  have hkey := hexParam_hexValue hH
  have hkeys := keysParam_keysValue hH
  cases r with
  | header hash => exact (ofJson_jsonReq rfl _ _).trans (oneParam_eq (hhash hash))
  | blockHash number =>
    exact (ofJson_jsonReq rfl _ _).trans (oneParam_eq (optParam_numberValue number))
  | block hash => exact (ofJson_jsonReq rfl _ _).trans (oneParam_eq (hhash hash))
  | finalizedHead => exact (ofJson_jsonReq rfl _ _).trans rfl
  | subscribeFinalizedHeads => exact (ofJson_jsonReq rfl _ _).trans rfl
  | feeDetails xt hash => exact (ofJson_jsonReq rfl _ _).trans (twoParams_eq rfl (hhash hash))
  | feeInfo xt hash => exact (ofJson_jsonReq rfl _ _).trans (twoParams_eq rfl (hhash hash))
  | metadata => exact (ofJson_jsonReq rfl _ _).trans rfl
  | runtimeVersion => exact (ofJson_jsonReq rfl _ _).trans rfl
  | subscribeStorage keys => exact (ofJson_jsonReq rfl _ _).trans (oneParam_eq (hkeys keys))
  | storage key hash =>
    exact (ofJson_jsonReq rfl _ _).trans (twoParams_eq (hkey key) (hhash hash))
  | readProof keys hash =>
    exact (ofJson_jsonReq rfl _ _).trans (twoParams_eq (hkeys keys) (hhash hash))
  | keys key hash => exact (ofJson_jsonReq rfl _ _).trans (twoParams_eq (hkey key) (hhash hash))
  | pairs key hash => exact (ofJson_jsonReq rfl _ _).trans (twoParams_eq (hkey key) (hhash hash))
  | submitExtrinsic xt => exact (ofJson_jsonReq rfl _ _).trans (oneParam_eq rfl)
  | submitAndWatchExtrinsic xt => exact (ofJson_jsonReq rfl _ _).trans (oneParam_eq rfl)

/-! ## Texts of requests -/

theorem jsonReq_plain {params : Json} (h : params.Plain) (method : String) (id : UInt32) :
    (jsonReq method params id).Plain := by
  refine .obj (show ["id", "jsonrpc", "method", "params"].Pairwise (· < ·) by decide) ?_
  simp only [List.forall_mem_cons, List.not_mem_nil, false_imp_iff, implies_true, and_true]
  exact ⟨.str _, .str _, .str _, h⟩

theorem hashValue_plain (hash : Option H256) : (hashValue H hash).Plain := by
  cases hash with
  | none => exact .null
  | some h => exact .str _

theorem keysValue_plain (keys : List Bytes) : (keysValue H keys).Plain := by
  refine .arr fun v hv => ?_
  obtain ⟨key, -, rfl⟩ := List.mem_map.mp hv
  exact .str _

theorem arr_plain_one {v : Json} (h : v.Plain) : (Json.arr [v]).Plain := by
  refine .arr fun w hw => ?_
  rwa [List.mem_singleton.mp hw]

theorem arr_plain_two {v w : Json} (hv : v.Plain) (hw : w.Plain) : (Json.arr [v, w]).Plain := by
  refine .arr ?_
  simp only [List.forall_mem_cons, List.not_mem_nil, false_imp_iff, implies_true, and_true]
  exact ⟨hv, hw⟩

theorem numberValue_plain (number : Option UInt32) : (numberValue number).Plain := by
  cases number with
  | none => exact .null
  | some n => exact .posInt _

theorem Request.params_plain (r : Request) : (r.params H).Plain := by
  cases r with
  | header hash | block hash => exact arr_plain_one (hashValue_plain hash)
  | blockHash number => exact arr_plain_one (numberValue_plain number)
  | finalizedHead | subscribeFinalizedHeads => exact .null
  | feeDetails xt hash | feeInfo xt hash => exact arr_plain_two (.str _) (hashValue_plain hash)
  | metadata | runtimeVersion => exact arr_plain_one .null
  | subscribeStorage keys => exact arr_plain_one (keysValue_plain keys)
  | storage key hash | keys key hash | pairs key hash =>
    exact arr_plain_two (.str _) (hashValue_plain hash)
  | readProof keys hash => exact arr_plain_two (keysValue_plain keys) (hashValue_plain hash)
  | submitExtrinsic xt | submitAndWatchExtrinsic xt => exact arr_plain_one (.str _)

/-- The text of a request is read as it was meant, and as the value that was built. -/
theorem Request.Builds.ofText (hH : H.Lawful) (hJ : J.ReadsBack) {r : Request} {jsonreq : Json}
    (h : r.Builds H jsonreq) : Request.ofText J H (J.toString jsonreq) = some r ∧
      J.fromStr (J.toString jsonreq) = .ok jsonreq := by
  obtain ⟨id, rfl⟩ := h.eq_jsonReq
  have hback := hJ _ (jsonReq_plain (r.params_plain (H := H)) r.method id)
  refine ⟨?_, hback⟩
  unfold Request.ofText
  rw [hback]
  exact ofJson_request hH r id

theorem ofText_toJson (hH : H.Lawful) (hJ : J.ReadsBack) (r : Request) :
    Request.ofText J H (J.toString (r.toJson H)) = some r :=
  (Request.Builds.ofText hH hJ (Or.inl rfl)).1

/-- **A node reads the requests as the client meant them**, under whatever id, and no two of them
have one text. -/
theorem requests_read (hH : H.Lawful) (hJ : J.ReadsBack) {r : Request} {jsonreq : Json}
    (h : r.Builds H jsonreq) :
    Request.ofText J H (J.toString jsonreq) = some r ∧
    ∀ r' jsonreq', Request.Builds H r' jsonreq' → J.toString jsonreq' = J.toString jsonreq →
      r' = r ∧ jsonreq' = jsonreq := by
  obtain ⟨hread, hback⟩ := h.ofText hH hJ
  refine ⟨hread, fun r' jsonreq' h' htext => ?_⟩
  obtain ⟨hread', hback'⟩ := h'.ofText hH hJ
  rw [htext] at hread' hback'
  exact ⟨Option.some.inj (hread'.symm.trans hread), Except.ok.inj (hback'.symm.trans hback)⟩

/-- `requests_read` on a request for two keys of the latest block, and on one for an entry under the
id 7. -/
theorem requests_read_readProof :
    Request.ofText Serde.reference Hex.reference
      (Serde.reference.toString (stateGetReadProof Hex.reference [[1, 255], []] none)) =
        some (.readProof [[1, 255], []] none) ∧
    Request.ofText Serde.reference Hex.reference
      (Serde.reference.toString (stateGetStorageWithId Hex.reference [1, 255] none 7)) =
        some (.storage [1, 255] none) := by
  have hproof : (Request.readProof [[1, 255], []] none).Builds Hex.reference
      (stateGetReadProof Hex.reference [[1, 255], []] none) := Or.inl rfl
  have hstorage : (Request.storage [1, 255] none).Builds Hex.reference
      (stateGetStorageWithId Hex.reference [1, 255] none 7) := Or.inr ⟨7, rfl⟩
  exact ⟨(requests_read Hex.reference_lawful Serde.reference_readsBack hproof).1,
    (requests_read Hex.reference_lawful Serde.reference_readsBack hstorage).1⟩

end Read

end SubstrateClient
