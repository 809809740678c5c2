import SubstrateClient.Api.Sessions
import SubstrateClient.Lib.Forest

/-!
# Reading a chain that moves (`src/std/mod.rs`)

A node answers for the best chain it knows. Between two requests it learns of blocks, turns to
another branch, and finalizes blocks of the branch it is on. What is finalized stays on every chain
it turns to, and what it has learned it keeps.

* `BlockTree` is the blocks there may be, by their hashes; `ChainNode` is a node that knows some of
  them, with its best and its finalized block; `ChainNode.Moves` is what it does in the meantime.
* `getSignedBlockByNumSession_runs_iff`: what comes of the two requests of a call by number.
* `byNumber_moves`: the block of a number is of the chain that was the best at the first request,
  and is returned whether or not it still is at the second. A number without a block asks for the
  block that is the best then.
* `finalized_stays`: up to a head that was finalized, every later call returns the same, and every
  later head is above it.
-/

namespace SubstrateClient

open Lib Node Rpc Utils

/-- A type `H: Header + DeserializeOwned`: the number, the value a node writes a header as, and how
`serde_json` reads it. -/
structure HeadFormat (Head : Type) where
  number : Head → Nat
  toJson : Head → Json
  fromStr : String → Except String Head

/-- The blocks there may be. A hash stands for one block. -/
structure BlockTree {B Head : Type} (F : BlockFormat B) (G : HeadFormat Head) extends
    Forest H256 where
  block : H256 → B
  head : H256 → Head
  number_block : ∀ h, F.number (block h) = height h
  number_head : ∀ h, G.number (head h) = height h

section Chain

variable {B Head : Type} {F : BlockFormat B} {G : HeadFormat Head}

/-- A node that knows some of the blocks, with the parents of each, and has finalized one below its
best one. -/
structure ChainNode (T : BlockTree F G) where
  known : H256 → Bool
  best : H256
  finalized : H256
  justifications : H256 → Option (List (Bytes × Bytes))
  known_best : known best = true
  known_parent : ∀ h p, known h = true → T.parent h = some p → known p = true
  best_extends : T.Extends best finalized

namespace ChainNode

variable {T : BlockTree F G} (node : ChainNode T)

/-- A block with what justifies it. -/
def signed (hash : H256) : SignedBlock B := ⟨T.block hash, node.justifications hash⟩

/-- The hash asked for, and that of the best block for none. -/
def knownHash (hash : Option H256) : Option H256 :=
  if node.known (hash.getD node.best) then some (hash.getD node.best) else none

/-- The hash of a number on the best chain, and that of the best block for none. -/
def hashAt : Option UInt32 → Option H256
  | some n => T.ancestorAt node.best n.toNat
  | none => some node.best

/-- What the node answers: `null` for what it does not know. -/
def answer (H : Hex) : Request → Option Json
  | .finalizedHead => some (hexValue H node.finalized.bytes)
  | .header hash => some (((node.knownHash hash).map fun h => G.toJson (T.head h)).getD .null)
  | .blockHash number => some (((node.hashAt number).map fun h => hexValue H h.bytes).getD .null)
  | .block hash => some (((node.knownHash hash).map fun h => F.toJson (node.signed h)).getD .null)
  | _ => none

/-- What a node does: it learns of blocks and may turn to another chain, or it finalizes a block,
with its justifications. -/
inductive Step (a b : ChainNode T) : Prop
  | learn (known : ∀ h, a.known h = true → b.known h = true) (finalized : b.finalized = a.finalized)
  | finalize (known : b.known = a.known) (finalized : T.Extends b.finalized a.finalized)

/-- What a node does between two requests. -/
def Moves : ChainNode T → ChainNode T → Prop := Relation.ReflTransGen Step

end ChainNode

/-- The client passes on what the node answers to the text of a request, and blocks and headers are
read as the node writes them. -/
structure ServesChain (J : Serde) (H : Hex) {T : BlockTree F G} (node : ChainNode T)
    (client : RpcClientTrait) : Prop where
  answers : ∀ jsonreq answer,
    ((Request.ofText J H (J.toString jsonreq)).bind (node.answer H)) = some answer →
      client.getRequest jsonreq = .ok (J.toString answer)
  blocks : ∀ b, F.fromStr (J.toString (F.toJson b)) = .ok b ∧ F.toJson b ≠ .null
  heads : ∀ x, G.fromStr (J.toString (G.toJson x)) = .ok x ∧ G.toJson x ≠ .null

/-! ## What the node keeps -/

section Keeps

variable {T : BlockTree F G} {a b : ChainNode T} {h k : H256}

/-- What a known block extends is known. -/
theorem ChainNode.known_of_extends (node : ChainNode T) (hext : T.Extends h k)
    (hknown : node.known h = true) : node.known k = true := by
  induction hext with
  | refl => exact hknown
  | tail _ hstep ih => exact node.known_parent _ _ ih hstep

theorem ChainNode.Moves.known (hm : ChainNode.Moves a b) (hknown : a.known h = true) :
    b.known h = true := by
  induction hm with
  | refl => exact hknown
  | tail _ hstep ih =>
    cases hstep with
    | learn hmore _ => exact hmore _ ih
    | finalize hsame _ => rw [hsame, ih]

/-- **Finality only goes up.** -/
theorem ChainNode.Moves.finalized (hm : ChainNode.Moves a b) :
    T.Extends b.finalized a.finalized := by
  induction hm with
  | refl => exact .refl _
  | tail _ hstep ih =>
    cases hstep with
    | learn _ hsame => rwa [hsame]
    | finalize _ hup => exact hup.trans ih

/-- **What is finalized stays on the best chain.** -/
theorem ChainNode.Moves.best (hm : ChainNode.Moves a b) : T.Extends b.best a.finalized :=
  b.best_extends.trans hm.finalized

theorem ChainNode.hashAt_known (node : ChainNode T) {number : Option UInt32}
    (hat : node.hashAt number = some h) : node.known h = true := by
  cases number with
  | none =>
    cases hat
    exact node.known_best
  | some n => exact node.known_of_extends (Forest.ancestorAt_eq_some.mp hat).1 node.known_best

theorem ChainNode.knownHash_some {node : ChainNode T} (hknown : node.known h = true) :
    node.knownHash (some h) = some h := if_pos hknown

theorem ChainNode.knownHash_none (node : ChainNode T) : node.knownHash none = some node.best :=
  if_pos node.known_best

end Keeps

/-! ## What the calls return -/

section Spec

variable {J : Serde} {H : Hex} {T : BlockTree F G} {node : ChainNode T} {P : Type}
  {api : ConnectedApi P}

theorem ServesChain.getFinalizedHead (hL : TextLaws J H) (hs : ServesChain J H node api.client) :
    api.getFinalizedHead H = .ok (some node.finalized) := by
  have hreq : api.getRequest chainGetFinalizedHead =
      .ok (some (J.toString (hexValue H node.finalized.bytes))) :=
    getRequest_optional (r := .finalizedHead) (x := some node.finalized) hL hs.answers
      (fun h : H256 => hexValue H h.bytes) (fun _ => Json.noConfusion) rfl
  unfold ConnectedApi.getFinalizedHead
  simp only [hreq, hashFromHex_hexValue hL.hex hL.texts]

theorem ServesChain.getHeader (hL : TextLaws J H) (hs : ServesChain J H node api.client)
    (hash : Option H256) :
    api.getHeader H G.fromStr hash = .ok ((node.knownHash hash).map T.head) := by
  have hreq : api.getRequest (chainGetHeader H hash) =
      .ok ((node.knownHash hash).map fun h => J.toString (G.toJson (T.head h))) :=
    getRequest_optional (r := .header hash) hL hs.answers (fun h => G.toJson (T.head h))
      (fun h => (hs.heads (T.head h)).2) rfl
  unfold ConnectedApi.getHeader
  rw [hreq]
  cases node.knownHash hash with
  | none => rfl
  | some h => simp only [Option.map_some, (hs.heads (T.head h)).1]

theorem ServesChain.getBlockHash (hL : TextLaws J H) (hs : ServesChain J H node api.client)
    (number : Option UInt32) : api.getBlockHash H number = .ok (node.hashAt number) := by
  have hreq : api.getRequest (chainGetBlockHash number) =
      .ok ((node.hashAt number).map fun h => J.toString (hexValue H h.bytes)) :=
    getRequest_optional (r := .blockHash number) hL hs.answers
      (fun h : H256 => hexValue H h.bytes) (fun _ => Json.noConfusion) rfl
  unfold Api.getBlockHash
  rw [hreq]
  cases node.hashAt number with
  | none => rfl
  | some h => simp only [Option.map_some, hashFromHex_hexValue hL.hex hL.texts]

theorem ServesChain.getSignedBlock (hL : TextLaws J H) (hs : ServesChain J H node api.client)
    (hash : Option H256) :
    api.getSignedBlock H F hash = .ok ((node.knownHash hash).map node.signed) := by
  have hreq : api.getRequest (chainGetBlock H hash) =
      .ok ((node.knownHash hash).map fun h => J.toString (F.toJson (node.signed h))) :=
    getRequest_optional (r := .block hash) hL hs.answers (fun h => F.toJson (node.signed h))
      (fun h => (hs.blocks (node.signed h)).2) rfl
  unfold Api.getSignedBlock
  rw [hreq]
  cases node.knownHash hash with
  | none => rfl
  | some h => simp only [Option.map_some, (hs.blocks (node.signed h)).1]

end Spec

/-! ## While the node moves -/

/-- The runs of a session with a node that moves, over a client that passes its answers on. -/
abbrev RunsOnChain {T : BlockTree F G} {α : Type} (clients : ChainNode T → RpcClientTrait)
    (m : Session Json (ApiResult String) α) (s u : ChainNode T) (result : α) : Prop :=
  m.Runs ChainNode.Step (fun node => (clients node).getRequest) s u result

section Moving

variable {J : Serde} {H : Hex} {T : BlockTree F G} {clients : ChainNode T → RpcClientTrait}
  {P : Type} {api : ConnectedApi P} {s t u : ChainNode T}

/-- **What comes of the two requests**: the block whose hash was answered at a moment before the
last. -/
theorem getSignedBlockByNumSession_runs_iff (hL : TextLaws J H)
    (hs : ∀ node, ServesChain J H node (clients node)) {number : Option UInt32}
    {res : ApiResult (Option (SignedBlock B))} :
    RunsOnChain clients (api.getSignedBlockByNumSession H F number) s u res ↔
      ∃ t, ChainNode.Moves s t ∧ ChainNode.Moves t u ∧
        res = .ok ((u.knownHash (t.hashAt number)).map u.signed) := by
  have hhash : ∀ t : ChainNode T, (api.withClient (answered ((clients t).getRequest
      (chainGetBlockHash number)))).getBlockHash H number = .ok (t.hashAt number) := by
    intro t
    have hserves : ServesChain J H t (api.withClient (clients t)).client := hs t
    exact hserves.getBlockHash hL number
  have hblock : ∀ (u : ChainNode T) (hash : Option H256),
      (api.withClient (answered ((clients u).getRequest (chainGetBlock H hash)))).getSignedBlock
        H F hash = .ok ((u.knownHash hash).map u.signed) := by
    intro u hash
    have hserves : ServesChain J H u (api.withClient (clients u)).client := hs u
    exact hserves.getSignedBlock hL hash
  unfold ConnectedApi.getSignedBlockByNumSession Session.andThen oneRequest
  simp only [RunsOnChain, Session.runs_bind_iff, Session.runs_call_iff, hhash]
  constructor
  · rintro ⟨_, t, ⟨hst, rfl⟩, hrest⟩
    obtain ⟨htu, rfl⟩ := Session.runs_call_iff.mp hrest
    exact ⟨t, hst, htu, hblock u _⟩
  · rintro ⟨t, hst, htu, rfl⟩
    exact ⟨_, t, ⟨hst, rfl⟩, Session.runs_call_iff.mpr ⟨htu, (hblock u _).symm⟩⟩

/-- **A block by its number, in any interleaving**: it is the block of the chain that was the best
at the first request, also when the node has turned to another chain. Beyond that chain it is the
best block of the second request. -/
theorem byNumber_moves (hL : TextLaws J H) (hs : ∀ node, ServesChain J H node (clients node))
    {n : UInt32} {res : ApiResult (Option (SignedBlock B))} :
    RunsOnChain clients (api.getSignedBlockByNumSession H F (some n)) s u res ↔
      ∃ t, ChainNode.Moves s t ∧ ChainNode.Moves t u ∧
        ((∃ h, T.Extends t.best h ∧ F.number (T.block h) = n.toNat ∧
            res = .ok (some (u.signed h))) ∨
          (F.number (T.block t.best) < n.toNat ∧ res = .ok (some (u.signed u.best)))) := by
  rw [getSignedBlockByNumSession_runs_iff hL hs]
  refine exists_congr fun t => and_congr_right fun _ => and_congr_right fun htu => ?_
  simp only [T.number_block]
  cases hat : t.hashAt (some n) with
  | none =>
    have hbeyond : T.height t.best < n.toNat := Forest.ancestorAt_eq_none.mp hat
    rw [u.knownHash_none, Option.map_some]
    constructor
    · exact fun hres => Or.inr ⟨hbeyond, hres⟩
    · rintro (⟨h, hext, hheight, -⟩ | ⟨-, hres⟩)
      · have hlow := hext.height_le
        omega
      · exact hres
  | some h =>
    obtain ⟨hext, hheight⟩ := Forest.ancestorAt_eq_some.mp hat
    have hknown : u.known h = true := htu.known (t.hashAt_known hat)
    rw [ChainNode.knownHash_some hknown, Option.map_some]
    constructor
    · exact fun hres => Or.inl ⟨h, hext, hheight, hres⟩
    · rintro (⟨k, hk, hkheight, hres⟩ | ⟨hbeyond, -⟩)
      · have hkh : some k = some h :=
          (Forest.ancestorAt_eq_some.mpr ⟨hk, hkheight⟩).symm.trans hat
        cases hkh
        exact hres
      · have hlow := hext.height_le
        omega

/-- Up to what was finalized, the node has one block of each number. -/
theorem ChainNode.Moves.hashAt (hm : ChainNode.Moves s t) {n : UInt32}
    (hn : n.toNat ≤ T.height s.finalized) :
    t.hashAt (some n) = T.ancestorAt s.finalized n.toNat :=
  Forest.ancestorAt_of_extends hm.best hn

/-- **What is read under a finalized head stays**: up to its number, in any interleaving, every later
call by number returns the block the head extends, its header is read, and every later head extends
this one. -/
theorem finalized_stays (hL : TextLaws J H) (hs : ∀ node, ServesChain J H node (clients node))
    {head : H256}
    (hhead : (api.withClient (clients s)).getFinalizedHead H = .ok (some head)) {n : UInt32}
    (hn : n.toNat ≤ F.number (T.block head)) :
    ∃ h, T.Extends head h ∧ F.number (T.block h) = n.toNat ∧ ∀ t, ChainNode.Moves s t →
      (∃ later, (api.withClient (clients t)).getFinalizedHead H = .ok (some later) ∧
        T.Extends later head) ∧
      (api.withClient (clients t)).getBlockHash H (some n) = .ok (some h) ∧
      (api.withClient (clients t)).getHeader H G.fromStr (some h) = .ok (some (T.head h)) ∧
      ∀ u res, RunsOnChain clients (api.getBlockByNumSession H F (some n)) t u res →
        res = .ok (some (T.block h)) := by
  have hserves : ∀ t : ChainNode T, ServesChain J H t (api.withClient (clients t)).client := hs
  rw [(hserves s).getFinalizedHead hL] at hhead
  cases hhead
  rw [T.number_block] at hn
  obtain ⟨h, hat⟩ : ∃ h, T.ancestorAt s.finalized n.toNat = some h := by
    refine Option.ne_none_iff_exists'.mp fun hnone => ?_
    have := Forest.ancestorAt_eq_none.mp hnone
    omega
  obtain ⟨hext, hheight⟩ := Forest.ancestorAt_eq_some.mp hat
  have hlater : ∀ {t : ChainNode T}, ChainNode.Moves s t → t.hashAt (some n) = some h :=
    fun hm => (hm.hashAt hn).trans hat
  have hknown : ∀ {t : ChainNode T}, ChainNode.Moves s t → t.knownHash (some h) = some h :=
    fun hm => ChainNode.knownHash_some (ChainNode.hashAt_known _ (hlater hm))
  refine ⟨h, hext, (T.number_block h).trans hheight, fun t hst =>
    ⟨⟨_, (hserves t).getFinalizedHead hL, hst.finalized⟩, ?_, ?_, ?_⟩⟩
  · rw [(hserves t).getBlockHash hL, hlater hst]
  · rw [(hserves t).getHeader hL, hknown hst, Option.map_some]
  · intro u res hrun
    obtain ⟨signed, v, hsigned, hrest⟩ := Session.runs_bind_iff.mp hrun
    obtain ⟨rfl, rfl⟩ := Session.runs_done_iff.mp hrest
    obtain ⟨v, htv, hvu, rfl⟩ := (getSignedBlockByNumSession_runs_iff hL hs).mp hsigned
    have hsu : ChainNode.Moves s u := (hst.trans htv).trans hvu
    rw [hlater (hst.trans htv), hknown hsu]
    rfl

end Moving

end Chain

/-! ## A chain that forks -/

/-- Blocks that are a JSON number, with their justifications as pairs of texts. -/
def forkFormat : BlockFormat UInt64 where
  number b := if b = 0 then 0 else 1
  toJson sb := .obj [("block", .num (.posInt sb.block)),
    ("justifications", (sb.justifications.map fun js => Json.arr (js.map fun j =>
      .arr [hexValue Hex.reference j.1, hexValue Hex.reference j.2])).getD .null)]
  fromStr text :=
    match Serde.reference.fromStr text with
    | .error e => .error e
    | .ok v =>
      match v.index "block", v.index "justifications" with
      | .num (.posInt b), .null => .ok ⟨b, none⟩
      | .num (.posInt b), js =>
        match (vecPairString js).map (tryCollect (pairFromHex Hex.reference)) with
        | some (.ok js) => .ok ⟨b, some js⟩
        | _ => .error "invalid type"
      | _, _ => .error "invalid type"

/-- Headers that are a JSON number. -/
def forkHeads : HeadFormat UInt64 where
  number b := if b = 0 then 0 else 1
  toJson b := .obj [("number", .num (.posInt b))]
  fromStr text :=
    match Serde.reference.fromStr text with
    | .error e => .error e
    | .ok v =>
      match v.index "number" with
      | .num (.posInt b) => .ok b
      | _ => .error "invalid type"

theorem forkFormat_reads (sb : SignedBlock UInt64) :
    forkFormat.fromStr (Serde.reference.toString (forkFormat.toJson sb)) = .ok sb ∧
      forkFormat.toJson sb ≠ .null := by
  refine ⟨?_, Json.noConfusion⟩
  obtain ⟨b, js⟩ := sb
  have hplain : (forkFormat.toJson ⟨b, js⟩).Plain := by
    refine .obj (show ["block", "justifications"].Pairwise (· < ·) by decide) ?_
    simp only [List.forall_mem_cons, List.not_mem_nil, false_imp_iff, implies_true, and_true]
    refine ⟨.posInt b, ?_⟩
    cases js with
    | none => exact .null
    | some js => exact pairs_plain js
  have hread := Serde.reference_readsBack _ hplain
  unfold forkFormat at hread ⊢
  simp only [hread]
  cases js with
  | none => rfl
  | some js =>
    show (match (vecPairString (.arr (js.map fun j => .arr [hexValue Hex.reference j.1,
        hexValue Hex.reference j.2]))).map (tryCollect (pairFromHex Hex.reference)) with
      | some (.ok js) => (.ok ⟨b, some js⟩ : Except String (SignedBlock UInt64))
      | _ => .error "invalid type") = _
    rw [tryCollect_pairs textLaws_reference]

theorem forkHeads_reads (b : UInt64) :
    forkHeads.fromStr (Serde.reference.toString (forkHeads.toJson b)) = .ok b ∧
      forkHeads.toJson b ≠ .null := by
  have hplain : (forkHeads.toJson b).Plain := by
    refine .obj (List.pairwise_singleton _ _) ?_
    rw [List.forall_mem_singleton]
    exact .posInt b
  refine ⟨?_, Json.noConfusion⟩
  have hread := Serde.reference_readsBack _ hplain
  unfold forkHeads at hread ⊢
  simp only [hread]
  rfl

/-- The hash of one byte. -/
def forkHash (b : UInt8) : H256 := ⟨List.replicate 32 b, List.length_replicate⟩

/-- A block on the genesis block. -/
def leftHash : H256 := forkHash 1

/-- Another one. -/
def rightHash : H256 := forkHash 2

/-- Block 0 is the genesis block. -/
def forkBlock (h : H256) : UInt64 := if h = leftHash then 1 else if h = rightHash then 2 else 0

theorem forkBlock_number (h : H256) :
    (if forkBlock h = 0 then 0 else 1) = if h = leftHash ∨ h = rightHash then 1 else 0 := by
  unfold forkBlock
  by_cases hl : h = leftHash
  · simp [hl]
  · by_cases hr : h = rightHash
    · simp [hr, show rightHash ≠ leftHash by decide]
    · simp [hl, hr]

/-- Two blocks on the genesis block, blocks 1 and 2. -/
def forkTree : BlockTree forkFormat forkHeads where
  parent h := if h = leftHash ∨ h = rightHash then some genesisHash else none
  height h := if h = leftHash ∨ h = rightHash then 1 else 0
  height_root h hroot := by
    split_ifs at hroot with hfork
    exact if_neg hfork
  height_child h p hp := by
    split_ifs at hp with hfork
    cases hp
    rw [if_pos hfork, if_neg (by decide)]
  block := forkBlock
  head := forkBlock
  number_block := forkBlock_number
  number_head := forkBlock_number

/-- A node that knows all of it. -/
def forkNode (best finalized : H256) (h : forkTree.Extends best finalized) :
    ChainNode forkTree where
  known _ := true
  best := best
  finalized := finalized
  justifications _ := none
  known_best := rfl
  known_parent _ _ _ _ := rfl
  best_extends := h

/-- A client of the node. -/
def ChainNode.client (node : ChainNode forkTree) : RpcClientTrait :=
  directClient (node.answer Hex.reference)

theorem ChainNode.serves_client (node : ChainNode forkTree) :
    ServesChain Serde.reference Hex.reference node node.client where
  answers := directClient_answers
  blocks := forkFormat_reads
  heads := forkHeads_reads

/-- A connection to such a node. -/
def forkApi (node : ChainNode forkTree) : ConnectedApi Unit :=
  ⟨⟨none, accountMetadata, node.client⟩, genesisHash, ⟨9, 1⟩⟩

theorem left_extends : forkTree.Extends leftHash genesisHash := .single (by decide)

theorem right_extends : forkTree.Extends rightHash genesisHash := .single (by decide)

/-- `byNumber_moves` on a node that turns from block 1 to block 2 between the two requests: block 1
is returned for the number that block 2 has by then. -/
theorem byNumber_moves_fork : ∃ s u : ChainNode forkTree,
    RunsOnChain ChainNode.client ((forkApi s).getSignedBlockByNumSession Hex.reference forkFormat
      (some 1)) s u (.ok (some ⟨1, none⟩)) ∧
    forkTree.block u.best = 2 ∧ forkFormat.number 2 = 1 := by
  have hturn : ChainNode.Moves (forkNode leftHash genesisHash left_extends)
      (forkNode rightHash genesisHash right_extends) := .single (.learn (fun _ _ => rfl) rfl)
  refine ⟨_, _, (byNumber_moves textLaws_reference ChainNode.serves_client).mpr
    ⟨_, .refl, hturn, Or.inl ⟨leftHash, .refl _, by decide, rfl⟩⟩, by decide, by decide⟩

/-- `finalized_stays` on block 1: the block below it stays the genesis block. -/
theorem finalized_stays_genesis : ∃ s : ChainNode forkTree,
    ∀ t, ChainNode.Moves s t → ∀ u res, RunsOnChain ChainNode.client
      ((forkApi s).getBlockByNumSession Hex.reference forkFormat (some 0)) t u res →
        res = .ok (some 0) := by
  let s := forkNode leftHash leftHash (.refl _)
  have hserves : ServesChain Serde.reference Hex.reference s
      ((forkApi s).withClient s.client).client := s.serves_client
  obtain ⟨h, -, hnumber, hstays⟩ := finalized_stays (n := 0) textLaws_reference
    ChainNode.serves_client (hserves.getFinalizedHead textLaws_reference) (Nat.zero_le _)
  have hzero : forkTree.block h = 0 := by
    by_contra hne
    have hone : (if forkTree.block h = 0 then 0 else 1) = 0 := hnumber
    rw [if_neg hne] at hone
    cases hone
  exact ⟨s, fun t hst u res hrun => hzero ▸ (hstays t hst).2.2.2 u res hrun⟩

end SubstrateClient
