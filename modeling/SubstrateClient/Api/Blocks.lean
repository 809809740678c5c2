import SubstrateClient.Api.Requests
import SubstrateClient.Rpc.BlockHash

/-!
# Blocks by number (`src/std/mod.rs`)

A block is fetched by its number in two requests: the hash of the block, and the block with that
hash. The hash is optional on both sides, and `None` does not mean the same there: it is what
`get_block_hash` returns for a block that does not exist, and it asks `get_signed_block` for the
latest block.

* `ChainState` is a node: which hash has block `n`, which block has hash `h`, and which is the best
  block. `ChainState.answer` is what it answers, and `Serves` says that the client passes that on.
* `getSignedBlockByNum_eq`: what a call by number returns, by the state of the node.
* `byNumber_iff`: a call by number returns that block, and nothing when there is none, for exactly
  the numbers that have a block. For the others it returns the best block.
-/

namespace SubstrateClient

open Lib Rpc Utils

/-- `sp_runtime::generic::SignedBlock`: the justifications are pairs of an engine and its proof. -/
structure SignedBlock (B : Type) where
  block : B
  justifications : Option (List (Bytes × Bytes))
  deriving DecidableEq

/-- A type `B: Block + DeserializeOwned`: the number in the header, the value a node writes a signed
block as, and how `serde_json` reads it. -/
structure BlockFormat (B : Type) where
  number : B → Nat
  toJson : SignedBlock B → Json
  fromStr : String → Except String (SignedBlock B)

namespace Api

section Calls

variable (H : Hex) {B : Type} (F : BlockFormat B) {P : Type} (api : Api P)

/-- `Api::get_block_hash`. -/
def getBlockHash (number : Option UInt32) : ApiResult (Option H256) :=
  match api.getRequest (chainGetBlockHash number) with
  | .error e => .error e
  | .ok (some hash) =>
    match hashFromHex H hash with
    | .error e => .error (.invalidHexString e)
    | .ok h => .ok (some h)
  | .ok none => .ok none

/-- `Api::get_signed_block`. -/
def getSignedBlock (hash : Option H256) : ApiResult (Option (SignedBlock B)) :=
  match api.getRequest (chainGetBlock H hash) with
  | .error e => .error e
  | .ok (some block) =>
    match F.fromStr block with
    | .error e => .error (.deserializing e)
    | .ok b => .ok (some b)
  | .ok none => .ok none

/-- `Api::get_block`. -/
def getBlock (hash : Option H256) : ApiResult (Option B) :=
  (api.getSignedBlock H F hash).map fun sb => sb.map SignedBlock.block

/-- `Api::get_signed_block_by_num`. -/
def getSignedBlockByNum (number : Option UInt32) : ApiResult (Option (SignedBlock B)) :=
  match api.getBlockHash H number with
  | .error e => .error e
  | .ok h => api.getSignedBlock H F h

/-- `Api::get_block_by_num`. -/
def getBlockByNum (number : Option UInt32) : ApiResult (Option B) :=
  (api.getSignedBlockByNum H F number).map fun sb => sb.map SignedBlock.block

end Calls

end Api

/-! ## The node -/

/-- A chain, as a node knows it. -/
structure ChainState {B : Type} (F : BlockFormat B) where
  blockHash : UInt32 → Option H256
  block : H256 → Option (SignedBlock B)
  bestHash : H256
  best : SignedBlock B
  block_bestHash : block bestHash = some best
  blockHash_bestHash : ∃ n, blockHash n = some bestHash
  block_blockHash : ∀ n h, blockHash n = some h → ∃ b, block h = some b ∧ F.number b.block = n.toNat

/-- The requests for a hash by its number and for a block by its hash. -/
inductive ChainRequest where
  | blockHash (number : Option UInt32)
  | block (hash : Option H256)
  deriving DecidableEq

/-- An optional parameter. -/
def optParam {α : Type} (read : Json → Option α) : Json → Option (Option α)
  | .null => some none
  | v => (read v).map some

/-- A block number. -/
def numberParam : Json → Option UInt32
  | .num (.posInt n) => if n.toNat < 2 ^ 32 then some n.toUInt32 else none
  | _ => none

/-- A block hash. -/
def hashParam (H : Hex) : Json → Option H256
  | .str s => (hashFromHex H s).toOption
  | _ => none

/-- The request a node reads. -/
def ChainRequest.ofJson (H : Hex) (jsonreq : Json) : Option ChainRequest :=
  match jsonreq.index "params" with
  | .arr [param] =>
    if (jsonreq.index "method").asStr = some "chain_getBlockHash" then
      (optParam numberParam param).map .blockHash
    else if (jsonreq.index "method").asStr = some "chain_getBlock" then
      (optParam (hashParam H) param).map .block
    else none
  | _ => none

section Node

variable {B : Type} {F : BlockFormat B}

/-- The block of a hash, and the best block for none. -/
def ChainState.blockOrBest (chain : ChainState F) : Option H256 → Option (SignedBlock B)
  | some h => chain.block h
  | none => some chain.best

/-- The hash of a number, and that of the best block for none. -/
def ChainState.hashOrBest (chain : ChainState F) : Option UInt32 → Option H256
  | some n => chain.blockHash n
  | none => some chain.bestHash

/-- What the node answers: `null` for what does not exist. -/
def ChainState.answer (chain : ChainState F) (H : Hex) (jsonreq : Json) : Json :=
  match ChainRequest.ofJson H jsonreq with
  | some (.blockHash number) => hashValue H (chain.hashOrBest number)
  | some (.block hash) => ((chain.blockOrBest hash).map F.toJson).getD .null
  | none => .null

/-- The client passes on what the node answers, and the node's blocks are of the type that is
read. -/
structure Serves (J : Serde) (H : Hex) (chain : ChainState F) (client : RpcClientTrait) : Prop where
  answers : ∀ jsonreq, client.getRequest jsonreq = .ok (J.toString (chain.answer H jsonreq))
  reads : ∀ h b, chain.block h = some b →
    F.fromStr (J.toString (F.toJson b)) = .ok b ∧ F.toJson b ≠ .null

end Node

/-! ## Hashes on their way -/

variable {J : Serde} {H : Hex}

/-- The text of a hash has quotes and `0x` around its digits. -/
theorem toString_hexValue (hH : H.Lawful) (hJ : J.Texts) (bs : Bytes) :
    J.toString (hexValue H bs) = String.ofList (wrap true true (H.encode bs).toList) := by
  unfold hexValue
  rw [hJ.str, zeroX_append, strChars_wrap true (hH.encode_digits bs)]

theorem hashFromHex_hexValue (hH : H.Lawful) (hJ : J.Texts) (h : H256) :
    hashFromHex H (J.toString (hexValue H h.bytes)) = .ok h := by
  rw [toString_hexValue hH hJ, hashFromHex_wrapped hH]

theorem hashParam_hexValue (hH : H.Lawful) (h : H256) :
    hashParam H (hexValue H h.bytes) = some h := by
  show (hashFromHex H ("0x" ++ H.encode h.bytes)).toOption = some h
  rw [zeroX_append, hashFromHex_wrapped hH]
  rfl

/-- The node reads the number that was asked for. -/
theorem ofJson_chainGetBlockHash (number : Option UInt32) :
    ChainRequest.ofJson H (chainGetBlockHash number) = some (.blockHash number) := by
  cases number with
  | none => rfl
  | some n =>
    have hlt : n.toUInt64.toNat < 2 ^ 32 := by
      have := n.toNat_lt
      simpa using this
    have hnumber : numberParam (.num (.posInt n.toUInt64)) = some n := by
      show (if n.toUInt64.toNat < 2 ^ 32 then some n.toUInt64.toUInt32 else none) = some n
      rw [if_pos hlt]
      simp
    show (optParam numberParam (.num (.posInt n.toUInt64))).map ChainRequest.blockHash = _
    unfold optParam
    simp only [hnumber, Option.map_some]

/-- The node reads the hash that was asked for. -/
theorem ofJson_chainGetBlock (hH : H.Lawful) (hash : Option H256) :
    ChainRequest.ofJson H (chainGetBlock H hash) = some (.block hash) := by
  cases hash with
  | none => rfl
  | some h =>
    show (optParam (hashParam H) (hexValue H h.bytes)).map ChainRequest.block = _
    have hhash := hashParam_hexValue hH h
    unfold hexValue at hhash ⊢
    unfold optParam
    simp only [hhash, Option.map_some]

/-! ## What the calls return -/

section Spec

variable {B : Type} {F : BlockFormat B} {P : Type} {api : Api P} {chain : ChainState F}

/-- What the node answers is what `get_request` returns. -/
theorem getRequest_serves (hJ : J.Lawful) (hs : Serves J H chain api.client) {jsonreq : Json}
    (h : chain.answer H jsonreq ≠ .null) :
    api.getRequest jsonreq = .ok (some (J.toString (chain.answer H jsonreq))) := by
  unfold Api.getRequest Api._getRequest
  rw [hs.answers]
  simp only [mt (hJ _).mp h, if_false]

theorem getRequest_serves_null (hJ : J.Lawful) (hs : Serves J H chain api.client)
    {jsonreq : Json} (h : chain.answer H jsonreq = .null) : api.getRequest jsonreq = .ok none := by
  unfold Api.getRequest Api._getRequest
  rw [hs.answers]
  simp only [(hJ _).mpr h, if_true]

/-- A block that does not exist has no hash. -/
theorem getBlockHash_eq (hH : H.Lawful) (hJ : J.Lawful) (hT : J.Texts)
    (hs : Serves J H chain api.client) (number : Option UInt32) :
    api.getBlockHash H number = .ok (chain.hashOrBest number) := by
  have hanswer : chain.answer H (chainGetBlockHash number) =
      hashValue H (chain.hashOrBest number) := by
    unfold ChainState.answer
    rw [ofJson_chainGetBlockHash]
  unfold Api.getBlockHash
  cases hhash : chain.hashOrBest number with
  | none =>
    rw [hhash] at hanswer
    rw [getRequest_serves_null hJ hs hanswer]
  | some h =>
    rw [hhash] at hanswer
    have hne : chain.answer H (chainGetBlockHash number) ≠ .null := by
      rw [hanswer]
      exact Json.noConfusion
    rw [getRequest_serves hJ hs hne, hanswer]
    simp only [hashValue, hashFromHex_hexValue hH hT]

/-- No hash asks for the best block. -/
theorem getSignedBlock_eq (hH : H.Lawful) (hJ : J.Lawful) (hs : Serves J H chain api.client)
    (hash : Option H256) : api.getSignedBlock H F hash = .ok (chain.blockOrBest hash) := by
  have hanswer : chain.answer H (chainGetBlock H hash) =
      ((chain.blockOrBest hash).map F.toJson).getD .null := by
    unfold ChainState.answer
    rw [ofJson_chainGetBlock hH]
  unfold Api.getSignedBlock
  cases hblock : chain.blockOrBest hash with
  | none =>
    rw [hblock] at hanswer
    rw [getRequest_serves_null hJ hs hanswer]
  | some b =>
    rw [hblock] at hanswer
    have hreads : F.fromStr (J.toString (F.toJson b)) = .ok b ∧ F.toJson b ≠ .null := by
      cases hash with
      | none =>
        cases hblock
        exact hs.reads _ _ chain.block_bestHash
      | some h => exact hs.reads h b hblock
    rw [getRequest_serves hJ hs (by rw [hanswer]; exact hreads.2), hanswer]
    simp only [Option.map_some, Option.getD_some, hreads.1]

/-- **A block that does not exist is fetched without a hash**, which asks for the best block. -/
theorem getSignedBlockByNum_eq (hH : H.Lawful) (hJ : J.Lawful) (hT : J.Texts)
    (hs : Serves J H chain api.client) (number : Option UInt32) :
    api.getSignedBlockByNum H F number = .ok (chain.blockOrBest (chain.hashOrBest number)) := by
  unfold Api.getSignedBlockByNum
  rw [getBlockHash_eq hH hJ hT hs]
  exact getSignedBlock_eq hH hJ hs _

theorem getBlockByNum_eq (hH : H.Lawful) (hJ : J.Lawful) (hT : J.Texts)
    (hs : Serves J H chain api.client) (number : Option UInt32) :
    api.getBlockByNum H F number =
      .ok ((chain.blockOrBest (chain.hashOrBest number)).map SignedBlock.block) := by
  unfold Api.getBlockByNum
  rw [getSignedBlockByNum_eq hH hJ hT hs]
  rfl

/-! ## The block of a number -/

/-- The block with the number. -/
def ChainState.IsBlock (chain : ChainState F) (n : UInt32) (b : SignedBlock B) : Prop :=
  F.number b.block = n.toNat ∧ ∃ h, chain.blockHash n = some h ∧ chain.block h = some b

/-- The calls by number return the block of that number, and nothing where there is none. -/
structure ByNumber (H : Hex) (chain : ChainState F) (api : Api P) (n : UInt32) : Prop where
  signedBlock : ∀ b, api.getSignedBlockByNum H F (some n) = .ok (some b) → chain.IsBlock n b
  block : ∀ b, api.getBlockByNum H F (some n) = .ok (some b) →
    ∃ sb, chain.IsBlock n sb ∧ sb.block = b
  noSignedBlock : chain.blockHash n = none → api.getSignedBlockByNum H F (some n) = .ok none
  noBlock : chain.blockHash n = none → api.getBlockByNum H F (some n) = .ok none

/-- The best block has the number of another block. -/
theorem ChainState.number_best (chain : ChainState F) {n : UInt32} (hn : chain.blockHash n = none) :
    F.number chain.best.block ≠ n.toNat := by
  obtain ⟨m, hm⟩ := chain.blockHash_bestHash
  obtain ⟨b, hb, hnumber⟩ := chain.block_blockHash m _ hm
  rw [chain.block_bestHash] at hb
  cases hb
  intro h
  have hmn : m = n := UInt32.toNat_inj.mp (hnumber.symm.trans h)
  rw [hmn, hn] at hm
  cases hm

/-- Where there is no block, the best block is returned, which has another number. -/
theorem getSignedBlockByNum_absent (hH : H.Lawful) (hJ : J.Lawful) (hT : J.Texts)
    (hs : Serves J H chain api.client) {n : UInt32} (hn : chain.blockHash n = none) :
    api.getSignedBlockByNum H F (some n) = .ok (some chain.best) ∧
      F.number chain.best.block ≠ n.toNat := by
  refine ⟨?_, chain.number_best hn⟩
  rw [getSignedBlockByNum_eq hH hJ hT hs]
  simp only [ChainState.hashOrBest, hn, ChainState.blockOrBest]

/-- **The calls by number are right for exactly the numbers that have a block.** -/
theorem byNumber_iff (hH : H.Lawful) (hJ : J.Lawful) (hT : J.Texts)
    (hs : Serves J H chain api.client) (n : UInt32) :
    ByNumber H chain api n ↔ (chain.blockHash n).isSome = true := by
  constructor
  · intro h
    cases hn : chain.blockHash n with
    | some hash => rfl
    | none =>
      have hnone := h.noSignedBlock hn
      rw [(getSignedBlockByNum_absent hH hJ hT hs hn).1] at hnone
      cases hnone
  · intro hn
    obtain ⟨hash, hhash⟩ := Option.isSome_iff_exists.mp hn
    obtain ⟨b, hb, hnumber⟩ := chain.block_blockHash n hash hhash
    have hfetch : chain.blockOrBest (chain.hashOrBest (some n)) = some b := by
      simp only [ChainState.hashOrBest, hhash]
      exact hb
    have hisBlock : chain.IsBlock n b := ⟨hnumber, hash, hhash, hb⟩
    have hsigned := getSignedBlockByNum_eq hH hJ hT hs (some n)
    have hblock := getBlockByNum_eq hH hJ hT hs (some n)
    rw [hfetch] at hsigned hblock
    refine ⟨fun b' h => ?_, fun b' h => ?_, fun h => ?_, fun h => ?_⟩
    · rw [hsigned] at h
      cases h
      exact hisBlock
    · rw [hblock] at h
      cases h
      exact ⟨b, hisBlock, rfl⟩
    · rw [hhash] at h
      cases h
    · rw [hhash] at h
      cases h

end Spec

/-! ## A chain with one block -/

/-- `serde_json`, where no text is parsed as a value. -/
def nodeSerde : Serde := Serde.ofTexts []

theorem nodeSerde_texts : nodeSerde.Texts := Serde.ofTexts_texts (by simp)

/-- The genesis block, by its number. -/
def genesis : SignedBlock UInt32 := ⟨0, none⟩

/-- The hash of the genesis block. -/
def genesisHash : H256 := ⟨List.replicate 32 145, rfl⟩

/-- A signed block, reduced to the number in its header. -/
def headerJson (b : SignedBlock UInt32) : Json :=
  .obj [("block", .obj [("header", .obj [("number",
    .str ("0x" ++ String.ofList (Nat.toDigits 16 b.block.toNat)))])]), ("justifications", .null)]

/-- Blocks that are read if they are the genesis block. -/
def headerFormat : BlockFormat UInt32 where
  number n := n.toNat
  toJson := headerJson
  fromStr text :=
    if text = nodeSerde.toString (headerJson genesis) then .ok genesis
    else .error "invalid block"

theorem headerFormat_fromStr :
    headerFormat.fromStr (nodeSerde.toString (headerFormat.toJson genesis)) = .ok genesis := by
  simp [headerFormat]

/-- A chain that consists of the genesis block. -/
def genesisChain : ChainState headerFormat where
  blockHash n := if n = 0 then some genesisHash else none
  block h := if h = genesisHash then some genesis else none
  bestHash := genesisHash
  best := genesis
  block_bestHash := if_pos rfl
  blockHash_bestHash := ⟨0, rfl⟩
  block_blockHash n h hn := by
    by_cases h0 : n = 0
    · subst h0
      cases hn
      exact ⟨genesis, if_pos rfl, rfl⟩
    · rw [if_neg h0] at hn
      cases hn

/-- A client of the node. -/
def genesisApi : Api Unit where
  signer := none
  metadata := accountMetadata
  client := {
    getRequest := fun jsonreq =>
      .ok (nodeSerde.toString (genesisChain.answer Hex.reference jsonreq))
    sendExtrinsic := fun _ _ => .error .disconnected }

theorem genesisApi_serves : Serves nodeSerde Hex.reference genesisChain genesisApi.client where
  answers _ := rfl
  reads h b hb := by
    by_cases hh : h = genesisHash
    · simp only [genesisChain, if_pos hh, Option.some.injEq] at hb
      subst hb
      exact ⟨headerFormat_fromStr, Json.noConfusion⟩
    · simp only [genesisChain, if_neg hh, reduceCtorEq] at hb

/-- The genesis block is returned for its number. -/
theorem byNumber_iff_genesis : ByNumber Hex.reference genesisChain genesisApi 0 :=
  (byNumber_iff Hex.reference_lawful (Serde.ofTexts_lawful _) nodeSerde_texts genesisApi_serves
    0).mpr rfl

/-- **Block 1 does not exist, and the genesis block is returned for it.** -/
theorem not_byNumber_beyond_head :
    genesisChain.blockHash 1 = none ∧
    genesisApi.getSignedBlockByNum Hex.reference headerFormat (some 1) = .ok (some genesis) ∧
    headerFormat.number genesis.block = 0 ∧ ¬ ByNumber Hex.reference genesisChain genesisApi 1 := by
  obtain ⟨hret, -⟩ := getSignedBlockByNum_absent Hex.reference_lawful (Serde.ofTexts_lawful _)
    nodeSerde_texts genesisApi_serves (show genesisChain.blockHash 1 = none from rfl)
  refine ⟨rfl, hret, rfl, fun h => ?_⟩
  have hnone := h.noSignedBlock rfl
  rw [hret] at hnone
  cases hnone

end SubstrateClient
