import SubstrateClient.Api.Sessions

/-!
# A connection while the runtime is upgraded (`src/std/mod.rs`, `compose-macros/src/lib.rs`)

`Api::new` sends three requests and `compose_extrinsic!` one more. A node makes blocks in between
and may upgrade its runtime, so that the answers are of different runtimes: `Api::new` asks for the
metadata before it asks for the version.

* `RuntimeNode.Moves` is what a node does in the meantime: blocks change its storage, an upgrade
  brings other metadata and a later version.
* `newSession_runs_iff`: what a connection holds, in any interleaving. Its metadata may be of an
  earlier runtime than its version.
* `composeExtrinsic_upgrades`: what is signed is what is checked as long as no upgrade comes after
  the request for the version; that the call is the one meant takes that none comes after the
  request for the metadata.
-/

namespace SubstrateClient

open Lib Node Primitives Rpc Utils

/-! ## A node that moves -/

namespace RuntimeNode

/-- Blocks change the storage. -/
def Block (a b : RuntimeNode) : Prop := ∃ state, b = { a with state }

/-- An upgrade brings other metadata and a later version. -/
def Upgrade (a b : RuntimeNode) : Prop :=
  ∃ (metadata : Bytes) (old new : RuntimeVersion) (state : StorageNode), a.version = some old ∧
    old.specVersion < new.specVersion ∧
    b = { a with metadata := some metadata, version := some new, state }

/-- What a node does between two requests. -/
def Moves : RuntimeNode → RuntimeNode → Prop :=
  Relation.ReflTransGen fun a b => Block a b ∨ Upgrade a b

variable {a b c : RuntimeNode}

theorem Block.refl (a : RuntimeNode) : Block a a := ⟨a.state, rfl⟩

theorem Block.trans (hab : Block a b) (hbc : Block b c) : Block a c := by
  obtain ⟨_, rfl⟩ := hab
  obtain ⟨state, rfl⟩ := hbc
  exact ⟨state, rfl⟩

/-- The first block stays. -/
theorem Moves.genesis (h : Moves a b) : b.genesis = a.genesis := by
  induction h with
  | refl => rfl
  | tail _ hstep ih =>
    obtain ⟨_, rfl⟩ | ⟨_, _, _, _, -, -, rfl⟩ := hstep <;> exact ih

/-- **The version grows with every upgrade**, and stays otherwise. -/
theorem Moves.version (h : Moves a b) {v : RuntimeVersion} (hv : a.version = some v) :
    Block a b ∨ ∃ w, b.version = some w ∧ v.specVersion < w.specVersion := by
  induction h with
  | refl => exact Or.inl (.refl a)
  | @tail b c _ hstep ih =>
    obtain hblock | ⟨_, old, new, _, hold, hnew, rfl⟩ := hstep
    · obtain hab | ⟨w, hw, hlt⟩ := ih
      · exact Or.inl (hab.trans hblock)
      · obtain ⟨_, rfl⟩ := hblock
        exact Or.inr ⟨w, hw, hlt⟩
    · refine Or.inr ⟨new, rfl, ?_⟩
      obtain ⟨_, rfl⟩ | ⟨w, hw, hlt⟩ := ih
      · rw [hv] at hold
        cases hold
        exact hnew
      · rw [hw] at hold
        cases hold
        exact UInt32.lt_trans hlt hnew

/-- A node has a version again only if there was no upgrade. -/
theorem Moves.version_eq_iff (h : Moves a b) {v : RuntimeVersion} (hv : a.version = some v) :
    b.version = some v ↔ Block a b := by
  constructor
  · intro hb
    obtain hblock | ⟨w, hw, hlt⟩ := h.version hv
    · exact hblock
    · rw [hb] at hw
      cases hw
      exact (UInt32.lt_irrefl _ hlt).elim
  · rintro ⟨_, rfl⟩
    exact hv

end RuntimeNode

/-- A connection to a node that has moved from `t` to `u` between the request for the metadata and
the one for the version. -/
structure ConnectedOver {P : Type} (M : MetadataDecoder) (t u : RuntimeNode)
    (client : RpcClientTrait) (api : ConnectedApi P) : Prop where
  genesis : u.genesis = some api.genesisHash
  metadata : ∃ bytes md rest, t.metadata = some bytes ∧ M bytes = .ok (md, rest) ∧
    Metadata.tryFrom md = .ok api.metadata
  version : u.version = some api.runtimeVersion
  signer : api.signer = none
  client : api.client = client

/-- The runtime of a node declares a call under two indexes. -/
def RuntimeNode.Declares (M : MetadataDecoder) (node : RuntimeNode) (module call : String)
    (index : UInt8 × UInt8) : Prop :=
  ∃ bytes md rest m pal var, node.metadata = some bytes ∧ M bytes = .ok (md, rest) ∧
    Metadata.tryFrom md = .ok m ∧ DeclaresCall m.metadata module call pal var ∧
    index = (pal.index, var.index)

theorem RuntimeNode.Declares.block {M : MetadataDecoder} {a b : RuntimeNode} {module call : String}
    {index : UInt8 × UInt8} (h : a.Declares M module call index) (hblock : a.Block b) :
    b.Declares M module call index := by
  obtain ⟨_, rfl⟩ := hblock
  exact h

/-- The runs of a session with a node that moves, over a client that passes its answers on. -/
abbrev RunsOver {α : Type} (clients : RuntimeNode → RpcClientTrait)
    (m : Session Json (ApiResult String) α) (s u : RuntimeNode) (result : α) : Prop :=
  m.Runs (fun a b => RuntimeNode.Block a b ∨ RuntimeNode.Upgrade a b)
    (fun node => (clients node).getRequest) s u result

section Moving

variable {J : Serde} {S : Scale} {R : Runtime} {H : Hex} {N : Hashing} {V : VersionFormat}
  {F : ProofFormat} {M : MetadataDecoder} {K : Keys} (blake2_256 : Bytes → Bytes)
  {E : EncodeTrait} {D : (n : E.Name) → Bytes → Except String (E.Ty n × Bytes)}
  {clients : RuntimeNode → RpcClientTrait} {client : RpcClientTrait} {s u v w z : RuntimeNode}

/-- **What a connection holds, in any interleaving**: the metadata of one moment and the version of
a later one. -/
theorem newSession_runs_iff (hL : TextLaws J H)
    (hs : ∀ node, ServesRuntime J H V F node (clients node)) {P : Type} {api : ConnectedApi P} :
    RunsOver clients (ConnectedApi.newSession H V M client) s u (.ok api) ↔
      ∃ t, RuntimeNode.Moves s t ∧ RuntimeNode.Moves t u ∧ ConnectedOver M t u client api := by
  simp only [RunsOver, ConnectedApi.newSession, Session.runs_andThen_iff, oneRequest,
    Session.runs_call_iff, Session.runs_done_iff]
  constructor
  · rintro ⟨g, t₁, ⟨h₁, hg⟩, md, t₂, ⟨h₂, hmd⟩, m, _, ⟨rfl, hm⟩, v, _, ⟨h₃, hv⟩, rfl, hapi⟩
    cases hapi
    have hg₁ : t₁.genesis = some g := (getGenesisHash_eq_ok hL (hs t₁)).mp hg.symm
    obtain ⟨bytes, rest, hbytes, hdec⟩ := (getMetadata_eq_ok hL (hs _)).mp hmd.symm
    have hmoves : RuntimeNode.Moves t₁ u := h₂.trans h₃
    exact ⟨_, h₁.trans h₂, h₃, hmoves.genesis.trans hg₁,
      ⟨bytes, md, rest, hbytes, hdec, tryMetadata_eq_ok.mp hm.symm⟩,
      (getRuntimeVersion_eq_ok hL (hs u)).mp hv.symm, rfl, rfl⟩
  · rintro ⟨t, hst, htu, hg, ⟨bytes, md, rest, hbytes, hdec, hm⟩, hv, hsigner, hclient⟩
    obtain ⟨⟨signer, metadata, client'⟩, g, v⟩ := api
    cases hsigner
    cases hclient
    have hg' : t.genesis = some g := htu.genesis.symm.trans hg
    exact ⟨g, t, ⟨hst, ((getGenesisHash_eq_ok hL (hs t)).mpr hg').symm⟩, md, t,
      ⟨.refl, ((getMetadata_eq_ok hL (hs t)).mpr ⟨bytes, rest, hbytes, hdec⟩).symm⟩, metadata, t,
      ⟨rfl, (tryMetadata_eq_ok.mpr hm).symm⟩, v, u,
      ⟨htu, ((getRuntimeVersion_eq_ok hL (hs u)).mpr hv).symm⟩, rfl, rfl⟩

/-- **Signed, sent and checked in any interleaving**: an extrinsic composed on a connection has the
indexes its call had when the metadata was asked for, and the nonce of the moment it was composed.
What the node checks is what was signed exactly when there was no upgrade since the version was asked
for. If there was none since the metadata was asked for either, the call is the one meant. -/
theorem composeExtrinsic_upgrades (hL : TextLaws J H) (hS : S.Lawful) (hK : K.Lawful)
    (hs : ∀ node, ServesRuntime J H V F node (clients node)) {conn : ConnectedApi K.Pair}
    (hnew : RunsOver clients (ConnectedApi.newSession H V M client) s u (.ok conn))
    (huv : RuntimeNode.Moves u v) (signer : K.Pair)
    {module call : String} {args : List (Arg E)} {xt : UncheckedExtrinsicV4 (ComposedCall E)}
    (hcompose : RunsOver clients ((conn.setSigner signer).composeSession S R H N K blake2_256 D
      module call args) v w (.ok xt)) (hwz : RuntimeNode.Moves w z) :
    ∃ t signature extra, RuntimeNode.Moves s t ∧ RuntimeNode.Moves t u ∧
      xt.signature = some (.id (K.account signer), signature, extra) ∧ xt.function.args = args ∧
      t.Declares M module call xt.function.index ∧
      (∀ storage key nonce, w.state.storageAt none = some storage →
        conn.metadata.storageMapKey N "System" "Account" (Codec.raw 32).encode (K.account signer) =
          .ok key → HasNonce S storage key nonce → extra = ⟨.immortal, nonce, 0⟩) ∧
      (∃ p : SignedPayload (ComposedCall E),
        p.usingEncoded S R (callCodec D (args.map Sigma.fst)) blake2_256
          (fun payload => K.verify signature payload (K.publicKey signer)) = true ∧
        (u.Block z → z.payload xt.function extra = some p) ∧
        ∀ q, z.payload xt.function extra = some q →
          (q.encode S R (callCodec D (args.map Sigma.fst)) =
            p.encode S R (callCodec D (args.map Sigma.fst)) ↔ u.Block z)) ∧
      (t.Block u → u.Block z → z.Declares M module call xt.function.index) := by
  obtain ⟨t, hst, htu, hconn⟩ := (newSession_runs_iff hL hs).mp hnew
  obtain ⟨hvw, hxt⟩ := composeSession_runs clients hcompose
  have huz : RuntimeNode.Moves u z := (huv.trans hvw).trans hwz
  obtain ⟨c, hc, ⟨hnone, -⟩ | ⟨signer', nonce, hsigner, hnonce, rfl⟩⟩ :=
    (composeExtrinsic_eq_ok blake2_256).mp hxt.symm
  · cases hnone
  cases hsigner
  obtain ⟨bytes, md, rest, hbytes, hdec, hm⟩ := hconn.metadata
  obtain ⟨pal, var, hdecl, rfl⟩ := declaresCall_of_composeCall hm hc
  have hdeclares : t.Declares M module call (pal.index, var.index) :=
    ⟨bytes, md, rest, _, pal, var, hbytes, hdec, hm, hdecl, rfl⟩
  have hgenesis : z.genesis = some conn.genesisHash := huz.genesis.trans hconn.genesis
  refine ⟨t, _, _, hst, htu, rfl, rfl, hdeclares, ?_, ⟨_, verify_usingEncoded blake2_256 hK _ signer,
    ?_, fun q hq => ?_⟩, fun htu huz => (hdeclares.block htu).block huz⟩
  · intro storage key nonce' hat hkey hnonce'
    have hstorage : ServesStorage J H F w.state
        ((conn.setSigner signer).withClient (clients w)).client := (hs w).storage
    have hread : ((conn.setSigner signer).withClient (clients w)).getNonce S H N K = .ok nonce' :=
      getNonce_of_storage hL hstorage hat rfl hkey hnonce'
    rw [hread] at hnonce
    cases hnonce
    rfl
  · rintro ⟨state, rfl⟩
    unfold RuntimeNode.payload
    rw [hgenesis, hconn.version]
    rfl
  · rw [← huz.version_eq_iff hconn.version]
    refine (payload_encode_iff hS hq).trans ?_
    exact and_iff_right hgenesis

end Moving

/-! ## An upgrade between two requests -/

/-- The runtime of the wallet, where `burn` has taken the place of `mint`. -/
def burnRuntime : RuntimeMetadataV14 :=
  { walletRuntime with types := ⟨[⟨["Call"], .variant [⟨"create", [⟨3⟩], 0, []⟩,
      ⟨"burn", [⟨3⟩, ⟨4⟩], 3, []⟩]⟩,
    ⟨["Event"], .variant [⟨"Issued", [⟨3⟩], 1, []⟩]⟩, ⟨["Error"], .variant [⟨"Frozen", [], 2, []⟩]⟩,
    ⟨[], .primitive .u8⟩, ⟨[], .primitive .u32⟩]⟩ }

/-- A decoder that knows the metadata of both. -/
def upgradeDecoder : MetadataDecoder := fun bytes =>
  .ok (⟨metaReserved, .v14 (if bytes = [] then walletRuntime else burnRuntime)⟩, [])

theorem burnRuntime_burn :
    DeclaresCall burnRuntime "Assets" "burn" assetsPallet ⟨"burn", [⟨3⟩, ⟨4⟩], 3, []⟩ :=
  ⟨List.mem_cons_of_mem _ List.mem_cons_self, rfl,
    ⟨0, _, rfl, rfl, List.mem_cons_of_mem _ List.mem_cons_self⟩, rfl⟩

/-- The node of the wallet after the upgrade. -/
def burnNode (storage : HashMap StorageKey Bytes) : RuntimeNode :=
  { walletNode storage with metadata := some [1], version := some ⟨10, 1⟩ }

theorem walletNode_moves (storage : HashMap StorageKey Bytes) :
    RuntimeNode.Moves (walletNode storage) (burnNode storage) :=
  .single (Or.inr ⟨[1], ⟨9, 1⟩, ⟨10, 1⟩, _, rfl, by decide, rfl⟩)

theorem burnNode_declares (storage : HashMap StorageKey Bytes) :
    (burnNode storage).Declares upgradeDecoder "Assets" "burn" (50, 3) := by
  obtain ⟨m, hm⟩ : ∃ m, Metadata.tryFrom ⟨metaReserved, .v14 burnRuntime⟩ = .ok m := ⟨_, rfl⟩
  have hruntime : m.metadata = burnRuntime := metadata_of_tryFrom hm
  exact ⟨[1], _, [], m, _, _, rfl, rfl, hm, hruntime ▸ burnRuntime_burn, rfl⟩

/-- `composeExtrinsic_upgrades` on an upgrade between the requests for the metadata and for the
version: a `mint` is composed, its signature verifies, and the node has `burn` in its place. -/
theorem composeExtrinsic_upgrades_torn : ∃ (s z : RuntimeNode) (conn : ConnectedApi echoKeys.Pair)
    (xt : UncheckedExtrinsicV4 (ComposedCall leafTypes)) (signature : MultiSignature)
    (extra : GenericExtra) (p : SignedPayload (ComposedCall leafTypes)),
    RunsOver RuntimeNode.client (ConnectedApi.newSession Hex.reference VersionFormat.reference
      upgradeDecoder z.client) s z (.ok conn) ∧
    RunsOver RuntimeNode.client ((conn.setSigner walletSigner).composeSession Scale.reference
      Runtime.reference Hex.reference accountHashing echoKeys id leafDecoders "Assets" "mint"
      mintArgs) z z (.ok xt) ∧
    xt.signature = some (.id (echoKeys.account walletSigner), signature, extra) ∧
    z.payload xt.function extra = some p ∧
    p.usingEncoded Scale.reference Runtime.reference (callCodec leafDecoders
      (mintArgs.map Sigma.fst)) id
        (fun payload => echoKeys.verify signature payload (echoKeys.publicKey walletSigner)) =
      true ∧
    z.Declares upgradeDecoder "Assets" "burn" xt.function.index := by
  obtain ⟨storage, wallet, key, -, hm, hkey, hnonce⟩ := exists_signer
  have hruntime : wallet.metadata.metadata = walletRuntime := metadata_of_tryFrom hm
  let z := burnNode storage
  let conn : ConnectedApi echoKeys.Pair :=
    ⟨⟨none, wallet.metadata, z.client⟩, genesisHash, ⟨10, 1⟩⟩
  have hconn : ConnectedOver upgradeDecoder (walletNode storage) z z.client conn :=
    ⟨rfl, ⟨[], _, [], rfl, rfl, hm⟩, rfl, rfl, rfl⟩
  have hnew : RunsOver RuntimeNode.client (ConnectedApi.newSession Hex.reference
      VersionFormat.reference upgradeDecoder z.client) (walletNode storage) z (.ok conn) :=
    (newSession_runs_iff textLaws_reference RuntimeNode.serves_client).mpr
      ⟨_, .refl, walletNode_moves storage, hconn⟩
  have hstorage : ServesStorage Serde.reference Hex.reference ProofFormat.reference z.state
      (conn.setSigner walletSigner).client := (RuntimeNode.serves_client z).storage
  have hget : (conn.setSigner walletSigner).getNonce Scale.reference Hex.reference accountHashing
      echoKeys = .ok 5 := getNonce_of_storage textLaws_reference hstorage rfl rfl hkey hnonce
  obtain ⟨xt, hxt, hindex⟩ : ∃ xt, (conn.setSigner walletSigner).composeExtrinsic Scale.reference
      Runtime.reference Hex.reference accountHashing echoKeys id leafDecoders "Assets" "mint"
      mintArgs = .ok xt ∧ xt.function.index = (50, 3) :=
    ⟨_, composeExtrinsic_signed id (conn.setSigner walletSigner) mintArgs hm
      (hruntime ▸ walletRuntime_names) (hruntime ▸ walletRuntime_mint) rfl hget, rfl⟩
  have hcompose : RunsOver RuntimeNode.client ((conn.setSigner walletSigner).composeSession
      Scale.reference Runtime.reference Hex.reference accountHashing echoKeys id leafDecoders
      "Assets" "mint" mintArgs) z z (.ok xt) :=
    hxt ▸ composeSession_still RuntimeNode.client _ rfl
  obtain ⟨t, signature, extra, -, -, hsigned, -, -, -, ⟨p, hverify, hpayload, -⟩, -⟩ :=
    composeExtrinsic_upgrades id (K := echoKeys) textLaws_reference Scale.reference_lawful
      echoKeys_lawful RuntimeNode.serves_client hnew .refl walletSigner hcompose .refl
  exact ⟨_, z, conn, xt, signature, extra, p, hnew, hcompose, hsigned, hpayload (.refl z), hverify,
    hindex ▸ burnNode_declares storage⟩

end SubstrateClient
