import SubstrateClient.Node.Storage
import SubstrateClient.Primitives.Account
import SubstrateClient.Primitives.Compose
import SubstrateClient.Rpc.Client

/-!
# Requests to a node (`src/std/mod.rs`)

`get_request` takes the text of a response's `result` from the client, and the text `null` for
"nothing there". The calls above it read storage entries this way, and `get_nonce` the nonce of the
signer, which is `0` for an account the chain does not know.

A response without `result` also arrives as `null`, so a request the node refused looks like an
entry that is not there. `reported_iff` says on exactly which responses the answers of `get_request`
and `get_nonce` are those the node gave: the ones with a `result`.
-/

namespace SubstrateClient

open Lib Node Primitives Rpc Utils

/-- `RpcClient`, the trait. -/
structure RpcClientTrait where
  getRequest : Json → ApiResult String
  sendExtrinsic : String → XtStatus → ApiResult (Option H256)

/-- `Api`. -/
structure Api (P : Type) where
  signer : Option P
  metadata : Metadata
  client : RpcClientTrait

namespace Api

/-- `Api::_get_request`. -/
def _getRequest (client : RpcClientTrait) (jsonreq : Json) : ApiResult (Option String) :=
  match client.getRequest jsonreq with
  | .error e => .error e
  | .ok str => .ok (if str = "null" then none else some str)

section Calls

variable (S : Scale) (H : Hex) (N : Hashing) {P : Type} (api : Api P)

/-- `Api::get_request`. -/
def getRequest (jsonreq : Json) : ApiResult (Option String) := _getRequest api.client jsonreq

/-- `Api::get_opaque_storage_by_key_hash`. -/
def getOpaqueStorageByKeyHash (key : StorageKey) (atBlock : Option H256) :
    ApiResult (Option Bytes) :=
  match api.getRequest (stateGetStorage H key atBlock) with
  | .error e => .error e
  | .ok none => .ok none
  | .ok (some storage) =>
    match fromHex H storage with
    | .error e => .error (.invalidHexString e)
    | .ok bytes => .ok (some bytes)

/-- `Api::get_storage_by_key_hash`. -/
def getStorageByKeyHash {V : Type} (value : Codec V) (key : StorageKey) (atBlock : Option H256) :
    ApiResult (Option V) :=
  match api.getOpaqueStorageByKeyHash H key atBlock with
  | .error e => .error e
  | .ok none => .ok none
  | .ok (some storage) =>
    match value.decode storage with
    | .error e => .error (.storageValueDecode e)
    | .ok (v, _) => .ok (some v)

/-- `Api::get_account_info`. -/
def getAccountInfo (address : AccountId) : ApiResult (Option AccountInfo) :=
  match api.metadata.storageMapKey N "System" "Account" (Codec.raw 32).encode address with
  | .error e => .error (.metadata e)
  | .ok storagekey => api.getStorageByKeyHash H (AccountInfo.codec S) storagekey none

end Calls

section Signer

variable (S : Scale) (H : Hex) (N : Hashing) (K : Keys) (api : Api K.Pair)

/-- `Api::signer_account`. -/
def signerAccount : Option AccountId :=
  api.signer.map fun pair => K.intoAccount (K.multiSigner (K.publicKey pair))

/-- `Api::get_nonce`. -/
def getNonce : ApiResult UInt32 :=
  match api.signerAccount K with
  | none => .error .noSigner
  | some account =>
    match api.getAccountInfo S H N account with
    | .error e => .error e
    | .ok none => .ok 0
    | .ok (some acc) => .ok acc.nonce

end Signer

end Api

/-! ## What the calls return -/

section Spec

variable {S : Scale} {H : Hex} {N : Hashing} {P : Type} {api : Api P}

/-- Without an entry there is no value; with one, the bytes its text stands for. -/
theorem getOpaqueStorageByKeyHash_cases {key : StorageKey} {atBlock : Option H256}
    {r : Option Bytes} (h : api.getOpaqueStorageByKeyHash H key atBlock = .ok r) :
    (r = none ∧ api.getRequest (stateGetStorage H key atBlock) = .ok none) ∨
    ∃ storage bytes, r = some bytes ∧
      api.getRequest (stateGetStorage H key atBlock) = .ok (some storage) ∧
      fromHex H storage = .ok bytes := by
  unfold Api.getOpaqueStorageByKeyHash at h
  split at h
  · cases h
  · cases h
    exact Or.inl ⟨rfl, ‹_›⟩
  · rename_i storage hreq
    split at h
    · cases h
    · rename_i bytes hbytes
      cases h
      exact Or.inr ⟨storage, bytes, rfl, hreq, hbytes⟩

/-- Without an entry there is no value; with one, what it begins with. -/
theorem getStorageByKeyHash_cases {V : Type} {value : Codec V} {key : StorageKey}
    {atBlock : Option H256} {r : Option V}
    (h : api.getStorageByKeyHash H value key atBlock = .ok r) :
    (r = none ∧ api.getOpaqueStorageByKeyHash H key atBlock = .ok none) ∨
    ∃ storage v rest, r = some v ∧
      api.getOpaqueStorageByKeyHash H key atBlock = .ok (some storage) ∧
      value.decode storage = .ok (v, rest) := by
  unfold Api.getStorageByKeyHash at h
  split at h
  · cases h
  · cases h
    exact Or.inl ⟨rfl, ‹_›⟩
  · rename_i storage hopaque
    split at h
    · cases h
    · rename_i v rest hdec
      cases h
      exact Or.inr ⟨storage, v, rest, rfl, hopaque, hdec⟩

/-- The record of an account is read under its key. -/
theorem getAccountInfo_cases {address : AccountId} {r : Option AccountInfo}
    (h : api.getAccountInfo S H N address = .ok r) :
    ∃ key, api.metadata.storageMapKey N "System" "Account" (Codec.raw 32).encode address =
        .ok key ∧ api.getStorageByKeyHash H (AccountInfo.codec S) key none = .ok r := by
  unfold Api.getAccountInfo at h
  split at h
  · cases h
  · rename_i key hkey
    exact ⟨key, hkey, h⟩

/-- The nonce is that of the signer's record, or zero. -/
theorem getNonce_cases {K : Keys} {api : Api K.Pair} {n : UInt32}
    (h : api.getNonce S H N K = .ok n) :
    ∃ account r, api.signerAccount K = some account ∧
      api.getAccountInfo S H N account = .ok r ∧
      ((r = none ∧ n = 0) ∨ ∃ acc, r = some acc ∧ n = acc.nonce) := by
  unfold Api.getNonce at h
  split at h
  · cases h
  · rename_i account haccount
    split at h
    · cases h
    · cases h
      exact ⟨account, none, haccount, ‹_›, Or.inl ⟨rfl, rfl⟩⟩
    · rename_i acc hacc
      cases h
      exact ⟨account, some acc, haccount, hacc, Or.inr ⟨acc, rfl, rfl⟩⟩

end Spec

/-! ## What a response says -/

section Reports

variable (J : Serde) (S : Scale) (H : Hex) (N : Hashing) (K : Keys)

/-- The client's requests are answered with `text`. -/
def Answers (text : String) (client : RpcClientTrait) : Prop :=
  ∀ jsonreq, GetRequestReturns J jsonreq [text] (client.getRequest jsonreq)

/-- The response has the `result`. -/
def HasResult (text : String) (result : Json) : Prop :=
  ∃ v, J.fromStr text = .ok v ∧ v.get "result" = some result

/-- A response has a `result` or an `error`, and not both. -/
def Json.IsResponse (v : Json) : Prop := (v.get "error").isSome = true → v.get "result" = none

/-- The node has no entry for the account, or one with nonce 0. -/
def NonceZero (result : Json) : Prop :=
  result = .null ∨ ∃ info rest, info.nonce = 0 ∧
    fromHex H (J.toString result) = .ok ((AccountInfo.codec S).encode info ++ rest)

/-- `get_request` and `get_nonce` answer what the node reported. -/
structure Reported (text : String) : Prop where
  nothing : ∀ (api : Api K.Pair) jsonreq, Answers J text api.client →
    api.getRequest jsonreq = .ok none → HasResult J text .null
  something : ∀ (api : Api K.Pair) jsonreq s, Answers J text api.client →
    api.getRequest jsonreq = .ok (some s) → ∃ result, HasResult J text result ∧
      s = J.toString result
  refused : ∀ (api : Api K.Pair) jsonreq v, Answers J text api.client →
    J.fromStr text = .ok v → (v.get "error").isSome = true → v.get "result" = none →
      ∃ e, api.getRequest jsonreq = .error e
  nonce : ∀ api : Api K.Pair, Answers J text api.client → api.getNonce S H N K = .ok 0 →
    ∃ result, HasResult J text result ∧ NonceZero J S H result
  failed : ∀ (api : Api K.Pair) v, Answers J text api.client → J.fromStr text = .ok v →
    Json.IsResponse v → (v.get "error").isSome = true → api.getNonce S H N K ≠ .ok 0

end Reports

variable {J : Serde} {S : Scale} {H : Hex} {N : Hashing} {K : Keys} {text : String}

/-- The handler sends the text of the `result`, or nothing. -/
theorem onGetRequestMsg_sends (msg s : String) :
    ((onGetRequestMsg J).worker true msg).sends = some s ↔
      ∃ v, J.fromStr msg = .ok v ∧ s = J.toString (v.index "result") := by
  unfold OnMessageFn.worker onGetRequestMsg
  cases J.fromStr msg with
  | error e => simp
  | ok v => simp [sendResult, eq_comm]

/-- A get request returns the text of the response's `result`. -/
theorem getRequestReturns_ok_iff {jsonreq : Json} {s : String} :
    GetRequestReturns J jsonreq [text] (.ok s) ↔
      ∃ v, J.fromStr text = .ok v ∧ s = J.toString (v.index "result") := by
  rw [← onGetRequestMsg_sends]
  constructor
  · rintro ⟨taken, htaken, hr⟩
    cases taken with
    | none => cases hr
    | some t =>
      cases hr
      obtain ⟨m, hm, hsend⟩ := Mailbox.takes_iff.mp htaken
      have hmem := List.mem_of_find?_eq_some hm
      rw [List.mem_singleton] at hmem
      rwa [hmem] at hsend
  · intro hsend
    have hfirst : Mailbox.firstEnding (onGetRequestMsg J).worker [text] = some text :=
      List.find?_cons_of_pos (Mailbox.ends_of_sends hsend)
    exact ⟨some s, Mailbox.takes_iff.mpr ⟨text, hfirst, hsend⟩, rfl⟩

/-- What `get_request` returns, by the response. -/
theorem getRequest_eq_ok {P : Type} {api : Api P} (ha : Answers J text api.client)
    {jsonreq : Json} {r : Option String} (h : api.getRequest jsonreq = .ok r) :
    ∃ v, J.fromStr text = .ok v ∧
      r = if J.toString (v.index "result") = "null" then none
        else some (J.toString (v.index "result")) := by
  unfold Api.getRequest Api._getRequest at h
  have hret := ha jsonreq
  cases hs : api.client.getRequest jsonreq with
  | error e => rw [hs] at h; cases h
  | ok s =>
    rw [hs] at h hret
    obtain ⟨v, hv, rfl⟩ := getRequestReturns_ok_iff.mp hret
    exact ⟨v, hv, (Except.ok.inj h).symm⟩

/-- An answer to `get_request` is the `result`, if there is one. -/
theorem getRequest_reports {P : Type} {api : Api P} (hJ : J.Lawful)
    (hres : ∀ v, J.fromStr text = .ok v → (v.get "result").isSome = true)
    (ha : Answers J text api.client) {jsonreq : Json} {r : Option String}
    (h : api.getRequest jsonreq = .ok r) :
    ∃ result, HasResult J text result ∧
      ((r = none ∧ result = .null) ∨ r = some (J.toString result)) := by
  obtain ⟨v, hv, rfl⟩ := getRequest_eq_ok ha h
  obtain ⟨result, hresult⟩ := Option.isSome_iff_exists.mp (hres v hv)
  rw [Json.index_of_get hresult]
  refine ⟨result, ⟨v, hv, hresult⟩, ?_⟩
  by_cases hnull : J.toString result = "null"
  · rw [if_pos hnull]
    exact Or.inl ⟨rfl, (hJ result).mp hnull⟩
  · rw [if_neg hnull]
    exact Or.inr rfl

/-- A storage entry that was read is the one the `result` encodes. -/
theorem getStorageByKeyHash_reports {P : Type} {api : Api P} {V : Type} {value : Codec V}
    (hc : value.Canonical) (hJ : J.Lawful)
    (hres : ∀ v, J.fromStr text = .ok v → (v.get "result").isSome = true)
    (ha : Answers J text api.client) {key : StorageKey} {atBlock : Option H256} {r : Option V}
    (h : api.getStorageByKeyHash H value key atBlock = .ok r) :
    ∃ result, HasResult J text result ∧
      ((r = none ∧ result = .null) ∨ ∃ v rest, r = some v ∧
        fromHex H (J.toString result) = .ok (value.encode v ++ rest)) := by
  rcases getStorageByKeyHash_cases h with ⟨rfl, hopaque⟩ | ⟨storage, v, rest, rfl, hopaque, hdec⟩
  · rcases getOpaqueStorageByKeyHash_cases hopaque with ⟨-, hreq⟩ | ⟨_, _, hsome, -⟩
    · obtain ⟨result, hresult, ⟨-, hnull⟩ | hsome⟩ := getRequest_reports hJ hres ha hreq
      · exact ⟨result, hresult, Or.inl ⟨rfl, hnull⟩⟩
      · cases hsome
    · cases hsome
  · rcases getOpaqueStorageByKeyHash_cases hopaque with ⟨hnone, -⟩ | ⟨_, _, hbytes, hreq, hhex⟩
    · cases hnone
    · cases hbytes
      obtain ⟨result, hresult, ⟨hnone, -⟩ | hsome⟩ := getRequest_reports hJ hres ha hreq
      · cases hnone
      · cases hsome
        rw [hc _ _ _ hdec] at hhex
        exact ⟨result, hresult, Or.inr ⟨v, rest, rfl, hhex⟩⟩

/-- A nonce of zero is what the node reported, if there is a `result`. -/
theorem getNonce_reports (hS : S.Lawful) {api : Api K.Pair} (hJ : J.Lawful)
    (hres : ∀ v, J.fromStr text = .ok v → (v.get "result").isSome = true)
    (ha : Answers J text api.client) (h : api.getNonce S H N K = .ok 0) :
    ∃ result, HasResult J text result ∧ NonceZero J S H result := by
  obtain ⟨account, r, -, hinfo, hnonce⟩ := getNonce_cases h
  obtain ⟨key, -, hread⟩ := getAccountInfo_cases hinfo
  obtain ⟨result, hresult, hcase⟩ :=
    getStorageByKeyHash_reports (AccountInfo.canonical hS) hJ hres ha hread
  refine ⟨result, hresult, ?_⟩
  rcases hcase with ⟨-, hnull⟩ | ⟨info, rest, rfl, hhex⟩
  · exact Or.inl hnull
  · rcases hnonce with ⟨hnone, -⟩ | ⟨acc, hacc, hzero⟩
    · cases hnone
    · cases hacc
      exact Or.inr ⟨info, rest, hzero.symm, hhex⟩

/-- The client that returns the text of the response's `result`. -/
def answering (J : Serde) (v : Json) : RpcClientTrait where
  getRequest _ := .ok (J.toString (v.index "result"))
  sendExtrinsic _ _ := .error .disconnected

theorem answers_answering {v : Json} (hv : J.fromStr text = .ok v) :
    Answers J text (answering J v) :=
  fun _ => getRequestReturns_ok_iff.mpr ⟨v, hv, rfl⟩

/-- **The answers are those the node gave on exactly the responses that have a `result`.** -/
theorem reported_iff (hJ : J.Lawful) (hS : S.Lawful) (text : String) :
    Reported J S H N K text ↔
      ∀ v, J.fromStr text = .ok v → (v.get "result").isSome = true := by
  constructor
  · intro h v hv
    cases hget : v.get "result" with
    | some result => rfl
    | none =>
      -- the missing member reads as `null`, and `null` as nothing there
      have hindex : v.index "result" = .null := Json.index_of_get_none hget
      let api : Api K.Pair := ⟨none, ⟨⟨⟨[]⟩, []⟩, ∅, ∅, ∅, ∅⟩, answering J v⟩
      have hnone : api.getRequest .null = .ok none := by
        show Except.ok (if J.toString (v.index "result") = "null" then none else _) = _
        rw [hindex, if_pos ((hJ .null).mpr rfl)]
      obtain ⟨w, hw, hresult⟩ := h.nothing api .null (answers_answering hv) hnone
      rw [hv] at hw
      cases hw
      rw [hget] at hresult
      cases hresult
  · intro hres
    refine ⟨?_, ?_, ?_, ?_, ?_⟩
    · intro api jsonreq ha hreq
      obtain ⟨result, hresult, ⟨-, rfl⟩ | hsome⟩ := getRequest_reports hJ hres ha hreq
      · exact hresult
      · cases hsome
    · intro api jsonreq s ha hreq
      obtain ⟨result, hresult, ⟨hnone, -⟩ | hsome⟩ := getRequest_reports hJ hres ha hreq
      · cases hnone
      · exact ⟨result, hresult, Option.some.inj hsome⟩
    · intro api jsonreq v ha hv herr hnone
      have := hres v hv
      rw [hnone] at this
      cases this
    · exact fun api ha hnonce => getNonce_reports hS hJ hres ha hnonce
    · intro api v ha hv hresponse herr hnonce
      obtain ⟨result, ⟨w, hw, hresult⟩, -⟩ := getNonce_reports hS hJ hres ha hnonce
      rw [hv] at hw
      cases hw
      rw [hresponse herr] at hresult
      cases hresult

/-- The response of a node that has no entry for the key. -/
def noEntry : String × Json :=
  ("\x7b\"jsonrpc\":\"2.0\",\"result\":null,\"id\":\"1\"\x7d",
    .obj [("id", .str "1"), ("jsonrpc", .str "2.0"), ("result", .null)])

/-- The response of a node on which the request failed. -/
def internalError : String × Json :=
  ("\x7b\"jsonrpc\":\"2.0\",\"error\":\x7b\"code\":-32603,\"message\":\"Internal error\"\x7d," ++
      "\"id\":\"1\"\x7d",
    .obj [("error", .obj [("code", .num (.negInt (-32603))), ("message", .str "Internal error")]),
      ("id", .str "1"), ("jsonrpc", .str "2.0")])

/-- A runtime that keeps its accounts in a map. -/
def accountMetadata : Metadata where
  metadata := ⟨⟨[]⟩, []⟩
  pallets := .collect [("System", {
    index := 0
    name := "System"
    calls := ∅
    storage := .collect [("Account", ⟨"Account", .map [.blake2_128Concat] 0 1⟩)]
    constants := ∅ })]
  calls := ∅
  events := ∅
  errors := ∅

/-- The hashes of the two names, and of the account of ones. -/
def accountHashing : Hashing where
  blake2_128 bs :=
    if bs = List.replicate 32 1 then
      ⟨[192, 53, 248, 83, 252, 208, 240, 88, 158, 48, 201, 226, 220, 26, 15, 87], rfl⟩
    else ⟨List.replicate 16 0, rfl⟩
  blake2_256 _ := ⟨List.replicate 32 0, rfl⟩
  twox_64 _ := ⟨List.replicate 8 0, rfl⟩
  twox_128 bs :=
    if bs = asBytes "System" then
      ⟨[38, 170, 57, 78, 234, 86, 48, 224, 124, 72, 174, 12, 149, 88, 206, 247], rfl⟩
    else if bs = asBytes "Account" then
      ⟨[185, 157, 136, 14, 198, 129, 121, 156, 12, 243, 14, 136, 134, 55, 29, 169], rfl⟩
    else ⟨List.replicate 16 0, rfl⟩
  twox_256 _ := ⟨List.replicate 32 0, rfl⟩

/-- `reported_iff` on a node that has no entry. -/
theorem reported_iff_noEntry :
    Reported (Serde.ofTexts [noEntry]) Scale.reference Hex.reference accountHashing echoKeys
      noEntry.1 := by
  refine (reported_iff (Serde.ofTexts_lawful _) Scale.reference_lawful _).mpr fun v hv => ?_
  cases hv
  rfl

/-- The request failed on the node, and `get_nonce` returns zero. -/
theorem not_reported_internalError :
    (∃ api : Api echoKeys.Pair, Answers (Serde.ofTexts [internalError]) internalError.1 api.client ∧
      api.getNonce Scale.reference Hex.reference accountHashing echoKeys = .ok 0) ∧
    ¬ Reported (Serde.ofTexts [internalError]) Scale.reference Hex.reference accountHashing echoKeys
      internalError.1 := by
  let J := Serde.ofTexts [internalError]
  let api : Api echoKeys.Pair :=
    ⟨some ⟨List.replicate 32 1, rfl⟩, accountMetadata, answering J internalError.2⟩
  have ha : Answers J internalError.1 api.client := answers_answering rfl
  have hnonce : api.getNonce Scale.reference Hex.reference accountHashing echoKeys = .ok 0 := by
    rfl
  refine ⟨⟨api, ha, hnonce⟩, fun h => ?_⟩
  obtain ⟨result, ⟨v, hv, hresult⟩, -⟩ := h.nonce api ha hnonce
  cases hv
  cases hresult

end SubstrateClient
