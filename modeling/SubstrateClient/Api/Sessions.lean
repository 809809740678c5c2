import SubstrateClient.Api.Blocks
import SubstrateClient.Api.Compose
import SubstrateClient.Lib.Session

/-!
# Calls request by request (`src/std/mod.rs`, `compose-macros/src/lib.rs`)

The calls that send more than one request, and the macro, as sessions: between two requests the node
goes on, and what it answers may change.

* `newSession_eval`, `getSignedBlockByNumSession_eval`, `composeSession_eval`: when all answers are
  of one moment, they are the calls of `Api/Connect.lean`, `Api/Blocks.lean` and `Api/Compose.lean`.
* `composeSession_runs`: the macro ends with what it returns over the last client.
-/

namespace SubstrateClient

open Lib Node Primitives Rpc Utils

/-- A client of which one answer is known. -/
def answered (res : ApiResult String) : RpcClientTrait where
  getRequest _ := res
  sendExtrinsic _ _ := .error .disconnected

/-- A call that sends one request. -/
def oneRequest {α : Type} (q : Json) (call : RpcClientTrait → α) :
    Session Json (ApiResult String) α :=
  .call q fun res => call (answered res)

namespace ConnectedApi

/-- `Api::new`, request by request. -/
def newSession (H : Hex) (V : VersionFormat) (M : MetadataDecoder) {P : Type}
    (client : RpcClientTrait) :
    Session Json (ApiResult String) (Except ConnectError (ConnectedApi P)) :=
  (oneRequest chainGetGenesisHash (_getGenesisHash H)).andThen fun genesisHash =>
  (oneRequest stateGetMetadata (_getMetadata H M)).andThen fun md =>
  (Session.done (tryMetadata md)).andThen fun metadata =>
  (oneRequest stateGetRuntimeVersion (_getRuntimeVersion V)).andThen fun runtimeVersion =>
  .done (.ok { signer := none, genesisHash, metadata, runtimeVersion, client })

/-- The connection, over another client. -/
def withClient {P : Type} (api : ConnectedApi P) (client : RpcClientTrait) : ConnectedApi P :=
  { api with client }

/-- `Api::get_signed_block_by_num`, request by request. -/
def getSignedBlockByNumSession {B P : Type} (H : Hex) (F : BlockFormat B) (api : ConnectedApi P)
    (number : Option UInt32) :
    Session Json (ApiResult String) (ApiResult (Option (SignedBlock B))) :=
  (oneRequest (chainGetBlockHash number) fun client =>
    (api.withClient client).getBlockHash H number).andThen fun hash =>
  oneRequest (chainGetBlock H hash) fun client => (api.withClient client).getSignedBlock H F hash

/-- `Api::get_block_by_num`, request by request. -/
def getBlockByNumSession {B P : Type} (H : Hex) (F : BlockFormat B) (api : ConnectedApi P)
    (number : Option UInt32) : Session Json (ApiResult String) (ApiResult (Option B)) :=
  (api.getSignedBlockByNumSession H F number).bind fun res =>
  .done (res.map fun sb => sb.map SignedBlock.block)

section Compose

variable (S : Scale) (R : Runtime) (H : Hex) (N : Hashing) (K : Keys) (blake2_256 : Bytes → Bytes)
  {E : EncodeTrait} (D : (n : E.Name) → Bytes → Except String (E.Ty n × Bytes))

/-- `compose_extrinsic!`, with its request for the nonce if it sends one. -/
def composeSession (api : ConnectedApi K.Pair) (module call : String) (args : List (Arg E)) :
    Session Json (ApiResult String) (Outcome Empty (UncheckedExtrinsicV4 (ComposedCall E))) :=
  let compose := fun client =>
    (api.withClient client).composeExtrinsic S R H N K blake2_256 D module call args
  match composeCall api.metadata module call args, api.signerAccount K with
  | .ok _, some account =>
    match api.metadata.storageMapKey N "System" "Account" (Codec.raw 32).encode account with
    | .ok key => oneRequest (stateGetStorage H key none) compose
    | .error _ => .done (compose api.client)
  | _, _ => .done (compose api.client)

end Compose

end ConnectedApi

section Sessions

variable {S : Scale} {R : Runtime} {H : Hex} {N : Hashing} {V : VersionFormat} {M : MetadataDecoder}
  {K : Keys} {blake2_256 : Bytes → Bytes} {E : EncodeTrait}
  {D : (n : E.Name) → Bytes → Except String (E.Ty n × Bytes)} {api : ConnectedApi K.Pair}
  {module call : String} {args : List (Arg E)}

/-- **Request by request, `Api::new` is what it is at once.** -/
theorem newSession_eval {P : Type} (client : RpcClientTrait) :
    (ConnectedApi.newSession H V M client).eval client.getRequest =
      ConnectedApi.new (P := P) H V M client := by
  unfold ConnectedApi.newSession ConnectedApi.new
  simp only [Session.eval_andThen]
  rfl

/-- **Request by request, a block is fetched by its number as it is at once.** -/
theorem getSignedBlockByNumSession_eval {B P : Type} (F : BlockFormat B) (api : ConnectedApi P)
    (number : Option UInt32) :
    (api.getSignedBlockByNumSession H F number).eval api.client.getRequest =
      api.getSignedBlockByNum H F number := by
  have hfirst : (oneRequest (chainGetBlockHash number) fun client =>
      (api.withClient client).getBlockHash H number).eval api.client.getRequest =
        api.getBlockHash H number := rfl
  unfold ConnectedApi.getSignedBlockByNumSession Api.getSignedBlockByNum
  rw [Session.eval_andThen, hfirst]
  cases api.getBlockHash H number with
  | error e => rfl
  | ok hash => rfl

theorem getBlockByNumSession_eval {B P : Type} (F : BlockFormat B) (api : ConnectedApi P)
    (number : Option UInt32) :
    (api.getBlockByNumSession H F number).eval api.client.getRequest =
      api.getBlockByNum H F number := by
  unfold ConnectedApi.getBlockByNumSession Api.getBlockByNum
  rw [Session.eval_bind, getSignedBlockByNumSession_eval]
  rfl

/-- Two clients give one nonce when they agree about its key. -/
theorem getNonce_withClient {client client' : RpcClientTrait}
    (h : ∀ account key, api.signerAccount K = some account →
      api.metadata.storageMapKey N "System" "Account" (Codec.raw 32).encode account = .ok key →
      client.getRequest (stateGetStorage H key none) =
        client'.getRequest (stateGetStorage H key none)) :
    (api.withClient client).getNonce S H N K = (api.withClient client').getNonce S H N K := by
  have haccount : ∀ c, (api.withClient c).signerAccount K = api.signerAccount K := fun _ => rfl
  have hmetadata : ∀ c, (api.withClient c).metadata = api.metadata := fun _ => rfl
  unfold Api.getNonce Api.getAccountInfo
  simp only [haccount, hmetadata]
  cases hacc : api.signerAccount K with
  | none => rfl
  | some account =>
    cases hkey : api.metadata.storageMapKey N "System" "Account" (Codec.raw 32).encode account with
    | error e => simp only [hkey]
    | ok key =>
      have hreq : (api.withClient client).getRequest (stateGetStorage H key none) =
          (api.withClient client').getRequest (stateGetStorage H key none) := by
        unfold Api.getRequest Api._getRequest
        rw [show (api.withClient client).client = client from rfl,
          show (api.withClient client').client = client' from rfl, h account key hacc hkey]
      unfold Api.getStorageByKeyHash Api.getOpaqueStorageByKeyHash
      simp only [hkey, hreq]

/-- Of the client, the macro looks at the nonce, and only for a call it knows. -/
theorem composeExtrinsic_withClient {client client' : RpcClientTrait}
    (h : ∀ c, composeCall api.metadata module call args = .ok c →
      (api.withClient client).getNonce S H N K = (api.withClient client').getNonce S H N K) :
    (api.withClient client).composeExtrinsic S R H N K blake2_256 D module call args =
      (api.withClient client').composeExtrinsic S R H N K blake2_256 D module call args := by
  have hcall : ∀ c, composeCall (api.withClient c).metadata module call args =
      composeCall api.metadata module call args := fun _ => rfl
  unfold ConnectedApi.composeExtrinsic
  simp only [hcall]
  cases hc : composeCall api.metadata module call args with
  | ok c =>
    rw [Outcome.ok_bind, Outcome.ok_bind, h c hc]
    rfl
  | err e => rfl
  | panic m => rfl
  | outOfFuel => rfl

/-- **The macro as a session** has the nonce of the state in which it ends, and no other answer. -/
theorem composeSession_runs {σ : Type} (clients : σ → RpcClientTrait) {step : σ → σ → Prop}
    {s u : σ} {b : Outcome Empty (UncheckedExtrinsicV4 (ComposedCall E))}
    (h : (api.composeSession S R H N K blake2_256 D module call args).Runs step
      (fun s => (clients s).getRequest) s u b) :
    Relation.ReflTransGen step s u ∧
      b = (api.withClient (clients u)).composeExtrinsic S R H N K blake2_256 D module call args := by
  unfold ConnectedApi.composeSession at h
  split at h
  · rename_i c account hc hacc
    split at h
    · rename_i key hkey
      obtain ⟨hmoves, rfl⟩ := Session.runs_call_iff.mp h
      refine ⟨hmoves, composeExtrinsic_withClient fun _ _ => getNonce_withClient ?_⟩
      intro account' key' hacc' hkey'
      rw [hacc] at hacc'
      cases hacc'
      rw [hkey] at hkey'
      cases hkey'
      rfl
    · rename_i e he
      obtain ⟨rfl, rfl⟩ := Session.runs_done_iff.mp h
      refine ⟨.refl, composeExtrinsic_withClient fun _ _ => getNonce_withClient ?_⟩
      intro account' key hacc' hkey
      rw [hacc] at hacc'
      cases hacc'
      rw [he] at hkey
      cases hkey
  · rename_i hno
    obtain ⟨rfl, rfl⟩ := Session.runs_done_iff.mp h
    refine ⟨.refl, composeExtrinsic_withClient fun c hc => getNonce_withClient ?_⟩
    intro account key hacc hkey
    exact (hno c account hc hacc).elim

/-- While the service stays, it ends with what the macro returns. -/
theorem composeSession_still {σ : Type} (clients : σ → RpcClientTrait) (step : σ → σ → Prop)
    {s : σ} (hs : clients s = api.client) :
    (api.composeSession S R H N K blake2_256 D module call args).Runs step
      (fun s => (clients s).getRequest) s s
      (api.composeExtrinsic S R H N K blake2_256 D module call args) := by
  have h : (api.composeSession S R H N K blake2_256 D module call args).Runs step
      (fun s => (clients s).getRequest) s s _ := Session.runs_eval _ s
  rwa [(composeSession_runs clients h).2, hs] at h

/-- **Request by request, the macro is what it is at once.** -/
theorem composeSession_eval : (api.composeSession S R H N K blake2_256 D module call args).eval
    api.client.getRequest = api.composeExtrinsic S R H N K blake2_256 D module call args := by
  have h : (api.composeSession S R H N K blake2_256 D module call args).Runs
      (fun _ _ => False) (fun _ : Unit => api.client.getRequest) () () _ := Session.runs_eval _ ()
  exact (composeSession_runs (fun _ => api.client) h).2

end Sessions

end SubstrateClient
