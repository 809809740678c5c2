import SubstrateClient.Api.Connect
import SubstrateClient.Node.Calls
import SubstrateClient.Primitives.SignedBytes

/-!
# Composing an extrinsic on a connection (`compose-macros/src/lib.rs`)

`compose_extrinsic!` looks the call up in the metadata of the connection, asks the node for the
nonce of the signer, and signs for the genesis hash and the versions the connection was made with.
Without a signer the extrinsic is not signed. The lookups and the nonce are unwrapped.

* `composeExtrinsic_cases`: what the macro ends with. It panics on a call the metadata does not
  declare, and when there is a signer whose nonce cannot be read.
* `composeExtrinsic_submitted`: from the connection to the node and back. The node takes the
  extrinsic off the text of the submission, with the call under its declared indexes and the nonce
  of its own storage, and the signature verifies for its own genesis hash and versions.
* `composeExtrinsic_outdated`: after a change of the runtime the payload the node rebuilds is another
  one, so what was signed is not what is checked.
-/

namespace SubstrateClient

open Lib Node Primitives Rpc Utils

/-! ## The bytes of a call -/

section CallCodec

variable {E : EncodeTrait} (D : (n : E.Name) → Bytes → Except String (E.Ty n × Bytes))

/-- The codec of an argument. -/
def argCodec (n : E.Name) : Codec (E.Ty n) := ⟨E.encode n, D n⟩

/-- `Decode::decode` of a tuple of arguments. -/
def decodeArgs : List E.Name → Bytes → Except String (List (Arg E) × Bytes)
  | [], bs => .ok ([], bs)
  | n :: ns, bs => do
    let (v, bs) ← D n bs
    let (args, bs) ← decodeArgs ns bs
    return (⟨n, v⟩ :: args, bs)

/-- The codec of the tuple `compose_call!` makes, of arguments of the types `ns`. -/
def callCodec (ns : List E.Name) : Codec (ComposedCall E) where
  encode := ComposedCall.encode
  decode bs := do
    let (pallet, bs) ← Codec.readByte bs
    let (call, bs) ← Codec.readByte bs
    let (args, bs) ← decodeArgs D ns bs
    return (⟨(pallet, call), args⟩, bs)

variable {D}

theorem decodeArgs_encodeArgs : ∀ {args : List (Arg E)},
    (∀ arg ∈ args, (argCodec D arg.1).RoundTripsAt arg.2) → ∀ rest,
      decodeArgs D (args.map Sigma.fst) (encodeArgs args ++ rest) = .ok (args, rest)
  | [], _, _ => rfl
  | arg :: args, h, rest => by
    obtain ⟨harg, hargs⟩ := List.forall_mem_cons.mp h
    have hfirst : D arg.1 (E.encode arg.1 arg.2 ++ (encodeArgs args ++ rest)) =
        .ok (arg.2, encodeArgs args ++ rest) := harg _
    have hrest := decodeArgs_encodeArgs hargs rest
    show decodeArgs D (arg.1 :: args.map Sigma.fst) (encodeArgs (arg :: args) ++ rest) = _
    rw [show encodeArgs (arg :: args) = E.encode arg.1 arg.2 ++ encodeArgs args from rfl,
      List.append_assoc, decodeArgs]
    simp only [hfirst, hrest, bind, Except.bind]
    rfl

/-- **A call whose arguments are read back is read back.** -/
theorem callCodec_roundTripsAt {c : ComposedCall E}
    (h : ∀ arg ∈ c.args, (argCodec D arg.1).RoundTripsAt arg.2) :
    (callCodec D (c.args.map Sigma.fst)).RoundTripsAt c := by
  intro rest
  have hargs := decodeArgs_encodeArgs h rest
  obtain ⟨⟨pallet, call⟩, args⟩ := c
  simp only [callCodec, ComposedCall.encode, List.cons_append, List.nil_append, Codec.readByte,
    hargs, bind, Except.bind]
  rfl

end CallCodec

/-! ## The macro -/

namespace ConnectedApi

variable (S : Scale) (R : Runtime) (H : Hex) (N : Hashing) (K : Keys) (blake2_256 : Bytes → Bytes)
  {E : EncodeTrait} (D : (n : E.Name) → Bytes → Except String (E.Ty n × Bytes))

/-- `compose_extrinsic!`. -/
def composeExtrinsic (api : ConnectedApi K.Pair) (module call : String) (args : List (Arg E)) :
    Outcome Empty (UncheckedExtrinsicV4 (ComposedCall E)) := do
  let call ← composeCall api.metadata module call args
  match api.signer with
  | some signer =>
    match api.getNonce S H N K with
    | .error _ => .panic "called `Result::unwrap()` on an `Err` value"
    | .ok nonce =>
      .ok (composeExtrinsicOffline S R (callCodec D (call.args.map Sigma.fst)) K blake2_256 signer
        call nonce .immortal api.genesisHash api.genesisHash api.runtimeVersion.specVersion
        api.runtimeVersion.transactionVersion)
  | none => .ok ⟨none, call⟩

end ConnectedApi

section Compose

variable {J : Serde} {S : Scale} {R : Runtime} {H : Hex} {N : Hashing} {K : Keys}
  (blake2_256 : Bytes → Bytes) {E : EncodeTrait}
  {D : (n : E.Name) → Bytes → Except String (E.Ty n × Bytes)} {api : ConnectedApi K.Pair}
  {module call : String} {args : List (Arg E)}

/-- A call that is not declared panics. -/
theorem composeCall_panics (args : List (Arg E)) {md : RuntimeMetadataPrefixed} {m : Metadata}
    (hm : Metadata.tryFrom md = .ok m)
    (h : ¬ ∃ pal var, DeclaresCall m.metadata module call pal var) :
    ∃ msg, composeCall m module call args = .panic msg := by
  cases hc : composeCall m module call args with
  | ok c =>
    obtain ⟨pal, var, hdecl, -⟩ := declaresCall_of_composeCall hm hc
    exact absurd ⟨pal, var, hdecl⟩ h
  | err e => cases e
  | panic msg => exact ⟨msg, rfl⟩
  | outOfFuel =>
    unfold composeCall at hc
    split at hc
    · cases hc
    · split at hc <;> cases hc

/-- A declared call is signed when there is a signer whose nonce is read. -/
theorem composeExtrinsic_signed (api : ConnectedApi K.Pair) (args : List (Arg E))
    {md : RuntimeMetadataPrefixed}
    (hm : Metadata.tryFrom md = .ok api.metadata) (hn : DistinctNames api.metadata.metadata)
    {pal : RuntimePallet} {var : Variant}
    (hdecl : DeclaresCall api.metadata.metadata module call pal var) {signer : K.Pair}
    (hsigner : api.signer = some signer) {nonce : UInt32}
    (hnonce : api.getNonce S H N K = .ok nonce) :
    api.composeExtrinsic S R H N K blake2_256 D module call args =
      .ok (composeExtrinsicOffline S R (callCodec D (args.map Sigma.fst)) K blake2_256 signer
        ⟨(pal.index, var.index), args⟩ nonce .immortal api.genesisHash api.genesisHash
        api.runtimeVersion.specVersion api.runtimeVersion.transactionVersion) := by
  have hcall : composeCall api.metadata module call args = .ok ⟨(pal.index, var.index), args⟩ :=
    (composeCall_eq_ok hm hn).mpr ⟨pal, var, hdecl, rfl⟩
  unfold ConnectedApi.composeExtrinsic
  rw [hcall, Outcome.ok_bind, hsigner, hnonce]

/-- What the macro returns, by what it looks up. -/
theorem composeExtrinsic_eq_ok {xt : UncheckedExtrinsicV4 (ComposedCall E)} :
    api.composeExtrinsic S R H N K blake2_256 D module call args = .ok xt ↔
      ∃ c, composeCall api.metadata module call args = .ok c ∧
        ((api.signer = none ∧ xt = ⟨none, c⟩) ∨
          ∃ signer nonce, api.signer = some signer ∧ api.getNonce S H N K = .ok nonce ∧
            xt = composeExtrinsicOffline S R (callCodec D (c.args.map Sigma.fst)) K blake2_256
              signer c nonce .immortal api.genesisHash api.genesisHash
              api.runtimeVersion.specVersion api.runtimeVersion.transactionVersion) := by
  unfold ConnectedApi.composeExtrinsic
  rw [Outcome.bind_eq_ok]
  refine exists_congr fun c => and_congr_right fun _ => ?_
  cases hsigner : api.signer with
  | none => simp [eq_comm]
  | some signer =>
    cases hnonce : api.getNonce S H N K with
    | error e => simp
    | ok nonce => simp [eq_comm]

/-- **What the macro ends with**: it panics on a call that is not declared, and when there is a
signer whose nonce cannot be read; else it returns the extrinsic, without a signature when there is
no signer. -/
theorem composeExtrinsic_cases {md : RuntimeMetadataPrefixed}
    (hm : Metadata.tryFrom md = .ok api.metadata) (hn : DistinctNames api.metadata.metadata) :
    ((∃ msg, api.composeExtrinsic S R H N K blake2_256 D module call args = .panic msg) ↔
      (¬ ∃ pal var, DeclaresCall api.metadata.metadata module call pal var) ∨
        api.signer.isSome = true ∧ ∃ e, api.getNonce S H N K = .error e) ∧
    ∀ xt, api.composeExtrinsic S R H N K blake2_256 D module call args = .ok xt ↔
      ∃ pal var, DeclaresCall api.metadata.metadata module call pal var ∧
        ((api.signer = none ∧ xt = ⟨none, ⟨(pal.index, var.index), args⟩⟩) ∨
          ∃ signer nonce, api.signer = some signer ∧ api.getNonce S H N K = .ok nonce ∧
            xt = composeExtrinsicOffline S R (callCodec D (args.map Sigma.fst)) K blake2_256 signer
              ⟨(pal.index, var.index), args⟩ nonce .immortal api.genesisHash api.genesisHash
              api.runtimeVersion.specVersion api.runtimeVersion.transactionVersion) := by
  refine ⟨?_, fun xt => ?_⟩
  · by_cases hdeclared : ∃ pal var, DeclaresCall api.metadata.metadata module call pal var
    · have ⟨pal, var, hdecl⟩ := hdeclared
      have hcall : composeCall api.metadata module call args =
          .ok ⟨(pal.index, var.index), args⟩ := (composeCall_eq_ok hm hn).mpr ⟨pal, var, hdecl, rfl⟩
      unfold ConnectedApi.composeExtrinsic
      rw [hcall, Outcome.ok_bind]
      cases api.signer with
      | none => simp [hdeclared]
      | some signer => cases api.getNonce S H N K <;> simp [hdeclared]
    · have ⟨msg, hcall⟩ := composeCall_panics args hm hdeclared
      unfold ConnectedApi.composeExtrinsic
      rw [hcall, Outcome.panic_bind]
      exact iff_of_true ⟨msg, rfl⟩ (Or.inl hdeclared)
  · rw [composeExtrinsic_eq_ok]
    constructor
    · rintro ⟨c, hc, hxt⟩
      obtain ⟨pal, var, hdecl, rfl⟩ := declaresCall_of_composeCall hm hc
      exact ⟨pal, var, hdecl, hxt⟩
    · rintro ⟨pal, var, hdecl, hxt⟩
      exact ⟨_, (composeCall_eq_ok hm hn).mpr ⟨pal, var, hdecl, rfl⟩, hxt⟩

/-! ## What the node takes off a submission -/

/-- The nonce a storage has under the key of an account. -/
def HasNonce (S : Scale) (storage : HashMap StorageKey Bytes) (key : StorageKey)
    (nonce : UInt32) : Prop :=
  (storage.get key = none ∧ nonce = 0) ∨ ∃ bytes info rest, storage.get key = some bytes ∧
    (AccountInfo.codec S).decode bytes = .ok (info, rest) ∧ nonce = info.nonce

/-- The account of a key pair. -/
def Primitives.Keys.account (K : Keys) (signer : K.Pair) : AccountId :=
  K.intoAccount (K.multiSigner (K.publicKey signer))

/-- What a node rebuilds of an extrinsic, from its own genesis hash and versions. -/
def RuntimeNode.payload {Call : Type} (node : RuntimeNode) (function : Call)
    (extra : GenericExtra) : Option (SignedPayload Call) :=
  match node.genesis, node.version with
  | some g, some v =>
    some (.fromRaw function extra (v.specVersion, v.transactionVersion, g, g, (), (), ()))
  | _, _ => none

variable {V : VersionFormat} {F : ProofFormat} {M : MetadataDecoder} {node : RuntimeNode}
  {client : RpcClientTrait}

/-- The nonce of the signer is read from the node's storage. -/
theorem getNonce_of_storage (hL : TextLaws J H) (hs : ServesStorage J H F node.state api.client)
    {storage : HashMap StorageKey Bytes} (hat : node.state.storageAt none = some storage)
    {signer : K.Pair} (hsigner : api.signer = some signer) {key : StorageKey}
    (hkey : api.metadata.storageMapKey N "System" "Account" (Codec.raw 32).encode
      (K.account signer) = .ok key) {nonce : UInt32} (h : HasNonce S storage key nonce) :
    api.getNonce S H N K = .ok nonce := by
  have haccount : api.signerAccount K = some (K.account signer) := by
    rw [Api.signerAccount, hsigner, Option.map_some, Keys.account]
  unfold Api.getNonce Api.getAccountInfo Api.getStorageByKeyHash
  simp only [haccount, hkey, getOpaqueStorageByKeyHash_eq hL hs hat]
  rcases h with ⟨hnone, rfl⟩ | ⟨bytes, info, rest, hsome, hdec, rfl⟩
  · rw [hnone]
  · simp only [hsome, hdec]

/-- The text of an extrinsic stands for its bytes. -/
theorem hexEncode_eq_ok (hH : H.Lawful) {Call : Type} {c : Codec Call} {size : Nat}
    {xt : UncheckedExtrinsicV4 Call} {text : String} (h : xt.hexEncode S R c H size = .ok text) :
    ∃ bytes, xt.encode S R c size = .ok bytes ∧ fromHex H text = .ok bytes := by
  obtain ⟨bytes, hbytes, htext⟩ := Outcome.bind_eq_ok.mp h
  cases htext
  refine ⟨bytes, hbytes, ?_⟩
  rw [zeroX_append, fromHex_wrapped hH]

/-- A submission is read as one, of the same text. -/
theorem ofText_sendExtrinsicClient (hL : TextLaws J H) {text : String} {exitOn : XtStatus}
    {c : RpcClient} (h : sendExtrinsicClient J text exitOn = some c) :
    Request.ofText J H c.request = some (.submitExtrinsic text) ∨
      Request.ofText J H c.request = some (.submitAndWatchExtrinsic text) := by
  have hsubmit := ofText_toJson hL.hex hL.readsBack (.submitExtrinsic text)
  have hwatch := ofText_toJson hL.hex hL.readsBack (.submitAndWatchExtrinsic text)
  cases exitOn with
  | submitOnly =>
    cases h
    exact Or.inl hsubmit
  | finalized | inBlock | broadcast | ready =>
    cases h
    exact Or.inr hwatch
  | future | error | unknown => cases h

/-- **From the connection to the node and back**: the extrinsic the macro composes has the declared
indexes of the call and the nonce of the node's storage, its signature verifies for what the node
rebuilds of it, and the node takes it, whole, off the text of the submission. -/
theorem composeExtrinsic_submitted (hL : TextLaws J H) (hS : S.Lawful) (hR : R.Lawful)
    (hK : K.Lawful) (hs : ServesRuntime J H V F node client) {conn : ConnectedApi K.Pair}
    (hnew : ConnectedApi.new H V M client = .ok conn) (signer : K.Pair)
    {storage : HashMap StorageKey Bytes} (hat : node.state.storageAt none = some storage)
    {key : StorageKey} (hkey : conn.metadata.storageMapKey N "System" "Account"
      (Codec.raw 32).encode (K.account signer) = .ok key)
    {nonce : UInt32} (hnonce : HasNonce S storage key nonce)
    (hn : DistinctNames conn.metadata.metadata) {pal : RuntimePallet} {var : Variant}
    (hdecl : DeclaresCall conn.metadata.metadata module call pal var)
    (hargs : ∀ arg ∈ args, (argCodec D arg.1).RoundTripsAt arg.2) :
    ∃ xt signature extra, (conn.setSigner signer).composeExtrinsic S R H N K blake2_256 D module
        call args = .ok xt ∧
      xt = ⟨some (.id (K.account signer), signature, extra), ⟨(pal.index, var.index), args⟩⟩ ∧
      extra = ⟨.immortal, nonce, 0⟩ ∧
      (∃ p, node.payload xt.function extra = some p ∧
        p.usingEncoded S R (callCodec D (args.map Sigma.fst)) blake2_256
          (fun payload => K.verify signature payload (K.publicKey signer)) = true) ∧
      ∀ size text exitOn c, xt.hexEncode S R (callCodec D (args.map Sigma.fst)) H size = .ok text →
        sendExtrinsicClient J text exitOn = some c →
          ∃ bytes, (Request.ofText J H c.request = some (.submitExtrinsic text) ∨
              Request.ofText J H c.request = some (.submitAndWatchExtrinsic text)) ∧
            fromHex H text = .ok bytes ∧
            UncheckedExtrinsicV4.decode S R (callCodec D (args.map Sigma.fst)) bytes =
              .ok (xt, []) := by
  obtain ⟨hgenesis, ⟨_, md, _, -, -, hm⟩, hversion, -, hclient⟩ := (new_eq_ok hL hs).mp hnew
  have hstorage : ServesStorage J H F node.state (conn.setSigner signer).client := by
    show ServesStorage J H F node.state conn.client
    rw [hclient]
    exact hs.storage
  have hget : (conn.setSigner signer).getNonce S H N K = .ok nonce :=
    getNonce_of_storage hL hstorage hat rfl hkey hnonce
  let xt := composeExtrinsicOffline S R (callCodec D (args.map Sigma.fst)) K blake2_256 signer
    ⟨(pal.index, var.index), args⟩ nonce .immortal conn.genesisHash conn.genesisHash
    conn.runtimeVersion.specVersion conn.runtimeVersion.transactionVersion
  have hxt : (conn.setSigner signer).composeExtrinsic S R H N K blake2_256 D module call args =
      .ok xt := composeExtrinsic_signed blake2_256 (conn.setSigner signer) args hm hn hdecl rfl hget
  refine ⟨xt, _, _, hxt, rfl, rfl, ⟨_, ?_, verify_usingEncoded blake2_256 hK _ signer⟩, ?_⟩
  · unfold RuntimeNode.payload
    rw [hgenesis, hversion]
    rfl
  · intro size text exitOn c htext hsend
    obtain ⟨bytes, hbytes, hhex⟩ := hexEncode_eq_ok hL.hex htext
    have hdec := UncheckedExtrinsicV4.decode_of_encode hS hR (x := xt)
      (by rintro _ ⟨⟩; exact .immortal) (callCodec_roundTripsAt hargs) hbytes []
    rw [List.append_nil] at hdec
    exact ⟨bytes, ofText_sendExtrinsicClient hL hsend, hhex, hdec⟩

/-- The macro keeps the arguments. -/
theorem composeCall_args {m : Metadata} {c : ComposedCall E}
    (h : composeCall m module call args = .ok c) : c.args = args := by
  unfold composeCall at h
  split at h
  · cases h
  · split at h <;> cases h
    rfl

/-- The payloads of one extrinsic are told apart by what is not sent. -/
theorem encode_fromRaw_iff (hS : S.Lawful) {Call : Type} {c : Codec Call} {function : Call}
    {extra : GenericExtra} {a b : AdditionalSigned} :
    (SignedPayload.fromRaw function extra a).encode S R c =
      (SignedPayload.fromRaw function extra b).encode S R c ↔ a = b := by
  refine ⟨fun h => ?_, fun h => by rw [h]⟩
  have hfields : ((True ∧ True) ∧ True) ∧ True := by simp
  exact (additionalSigned_selfDelimiting hS).eq_of_encode hfields hfields
    (List.append_cancel_left h)

/-- The payload a node rebuilds is the one of a genesis hash and a version if it has both. -/
theorem payload_encode_iff (hS : S.Lawful) {Call : Type} {c : Codec Call} {function : Call}
    {extra : GenericExtra} {g : H256} {v : RuntimeVersion} {p : SignedPayload Call}
    (hp : node.payload function extra = some p) :
    p.encode S R c = (SignedPayload.fromRaw function extra
        (v.specVersion, v.transactionVersion, g, g, (), (), ())).encode S R c ↔
      node.genesis = some g ∧ node.version = some v := by
  unfold RuntimeNode.payload at hp
  split at hp
  · rename_i g' v' hg hv
    cases hp
    rw [hg, hv]
    refine (encode_fromRaw_iff hS).trans ⟨fun h => ?_, ?_⟩
    · obtain ⟨spec, tx⟩ := v'
      obtain ⟨rfl, rfl, rfl, -⟩ : spec = _ ∧ tx = _ ∧ _ ∧ _ := by
        simpa only [Prod.mk.injEq] using h
      exact ⟨rfl, rfl⟩
    · rintro ⟨⟨⟩, ⟨⟩⟩
      rfl
  · cases hp

/-- **What is signed is what is checked as long as the runtime is the one connected to**: a node
rebuilds of an extrinsic the payload its signer signed if it has the genesis hash and the versions of
the connection, and otherwise a payload of another encoding. -/
theorem composeExtrinsic_outdated (hS : S.Lawful) {xt : UncheckedExtrinsicV4 (ComposedCall E)}
    {signed : Signed} (hsigned : xt.signature = some signed)
    (h : api.composeExtrinsic S R H N K blake2_256 D module call args = .ok xt) :
    ∃ (signer : K.Pair) (p : SignedPayload (ComposedCall E)), api.signer = some signer ∧
      signed.2.1 = K.multiSignature (p.usingEncoded S R (callCodec D (args.map Sigma.fst))
        blake2_256 fun payload => K.sign signer payload) ∧
      ∀ (node : RuntimeNode) q, node.payload xt.function signed.2.2 = some q →
        (q.encode S R (callCodec D (args.map Sigma.fst)) =
            p.encode S R (callCodec D (args.map Sigma.fst)) ↔
          node.genesis = some api.genesisHash ∧ node.version = some api.runtimeVersion) := by
  obtain ⟨c, hc, ⟨-, rfl⟩ | ⟨signer, nonce, hsigner, -, rfl⟩⟩ :=
    (composeExtrinsic_eq_ok blake2_256).mp h
  · cases hsigned
  · obtain rfl : c.args = args := composeCall_args hc
    cases hsigned
    exact ⟨signer, _, hsigner, rfl, fun node q hq => payload_encode_iff hS hq⟩

end Compose

/-! ## A wallet on a node -/

/-- A runtime that keeps accounts, with the assets pallet. -/
def walletRuntime : RuntimeMetadataV14 :=
  { assetsRuntime with pallets := [⟨"System", some ⟨"System",
    [⟨"Account", .map [.blake2_128Concat] 3 4⟩]⟩, none, none, [], none, 0⟩, assetsPallet] }

theorem walletRuntime_names : DistinctNames walletRuntime where
  pallets := by decide
  calls p hp id vs hid hvs := by
    rcases List.mem_cons.mp hp with rfl | hp
    · cases hid
    · cases List.mem_singleton.mp hp
      cases hid
      cases hvs
      decide

theorem walletRuntime_mint :
    DeclaresCall walletRuntime "Assets" "mint" assetsPallet ⟨"mint", [⟨3⟩, ⟨4⟩], 3, []⟩ :=
  ⟨List.mem_cons_of_mem _ List.mem_cons_self, rfl,
    ⟨0, _, rfl, rfl, List.mem_cons_of_mem _ List.mem_cons_self⟩, rfl⟩

/-- A decoder that knows the metadata of one runtime. -/
def walletDecoder : MetadataDecoder := fun _ => .ok (⟨metaReserved, .v14 walletRuntime⟩, [])

/-- A node of this runtime. -/
def walletNode (storage : HashMap StorageKey Bytes) : RuntimeNode :=
  ⟨some genesisHash, some [], some ⟨9, 1⟩, .of storage⟩

/-- The account of ones. -/
def walletSigner : echoKeys.Pair := (⟨List.replicate 32 1, rfl⟩ : AccountId)

/-- Its record: five extrinsics so far. -/
def walletRecord : AccountInfo := ⟨5, 0, 1, 0, ⟨100, 0, 0, 0⟩⟩

/-- A wallet is connected to the node, and knows the key of its account. -/
theorem exists_wallet : ∃ m key, Metadata.tryFrom ⟨metaReserved, .v14 walletRuntime⟩ = .ok m ∧
    m.storageMapKey accountHashing "System" "Account" (Codec.raw 32).encode
      (echoKeys.account walletSigner) = .ok key ∧
    ∀ storage, ∃ conn : ConnectedApi echoKeys.Pair, ConnectedApi.new Hex.reference
      VersionFormat.reference walletDecoder (walletNode storage).client = .ok conn ∧
        conn.metadata = m := by
  obtain ⟨m, hm, key, hkey⟩ : ∃ m, Metadata.tryFrom ⟨metaReserved, .v14 walletRuntime⟩ = .ok m ∧
      ∃ key, m.storageMapKey accountHashing "System" "Account" (Codec.raw 32).encode
        (echoKeys.account walletSigner) = .ok key := ⟨_, rfl, _, rfl⟩
  refine ⟨m, key, hm, hkey, fun storage => ?_⟩
  let conn : ConnectedApi echoKeys.Pair :=
    ⟨⟨none, m, (walletNode storage).client⟩, genesisHash, ⟨9, 1⟩⟩
  have hconn : Connected walletDecoder (walletNode storage) (walletNode storage).client conn :=
    ⟨rfl, ⟨[], _, [], rfl, rfl, hm⟩, rfl, rfl, rfl⟩
  exact ⟨conn, (new_eq_ok textLaws_reference (RuntimeNode.serves_client _)).mpr hconn, rfl⟩

/-- The decoders of the types of `parity-scale-codec`. -/
def leafDecoders (l : leafTypes.Name) : Bytes → Except String (leafTypes.Ty l × Bytes) :=
  (Scale.reference l).decode

theorem mintArgs_roundTripsAt :
    ∀ arg ∈ mintArgs, (argCodec (E := leafTypes) leafDecoders arg.1).RoundTripsAt arg.2 := by
  simp only [mintArgs, List.forall_mem_cons, List.not_mem_nil, false_imp_iff, implies_true,
    and_true]
  exact ⟨Scale.reference_roundTrips .u8 (7 : UInt8) trivial,
    Scale.reference_roundTrips .u32 (5 : UInt32) trivial⟩

/-- A wallet on a node that has the record of its account. -/
theorem exists_signer : ∃ (storage : HashMap StorageKey Bytes)
    (conn : ConnectedApi echoKeys.Pair) (key : StorageKey), ConnectedApi.new Hex.reference
      VersionFormat.reference walletDecoder (walletNode storage).client = .ok conn ∧
    Metadata.tryFrom ⟨metaReserved, .v14 walletRuntime⟩ = .ok conn.metadata ∧
    conn.metadata.storageMapKey accountHashing "System" "Account" (Codec.raw 32).encode
      (echoKeys.account walletSigner) = .ok key ∧
    HasNonce Scale.reference storage key 5 := by
  obtain ⟨m, key, hm, hkey, hconn⟩ := exists_wallet
  let storage : HashMap StorageKey Bytes :=
    .collect [(key, (AccountInfo.codec Scale.reference).encode walletRecord)]
  obtain ⟨conn, hnew, rfl⟩ := hconn storage
  have hget : storage.get key = some ((AccountInfo.codec Scale.reference).encode walletRecord) :=
    (HashMap.get_collect_iff (by simp)).mpr List.mem_cons_self
  exact ⟨storage, conn, key, hnew, hm, hkey,
    Or.inr ⟨_, walletRecord, [], hget, by decide +kernel, rfl⟩⟩

theorem echoKeys_lawful : echoKeys.Lawful := fun _ _ => beq_self_eq_true _

/-- `composeExtrinsic_submitted` on the sixth extrinsic of an account, a call of the assets
pallet. -/
theorem composeExtrinsic_submitted_mint : ∃ (node : RuntimeNode) (conn : ConnectedApi echoKeys.Pair)
    (xt : UncheckedExtrinsicV4 (ComposedCall leafTypes)) (signature : MultiSignature),
    ConnectedApi.new Hex.reference VersionFormat.reference walletDecoder node.client = .ok conn ∧
    (conn.setSigner walletSigner).composeExtrinsic Scale.reference Runtime.reference Hex.reference
      accountHashing echoKeys id leafDecoders "Assets" "mint" mintArgs = .ok xt ∧
    xt = ⟨some (.id (echoKeys.account walletSigner), signature, ⟨.immortal, 5, 0⟩),
      ⟨(50, 3), mintArgs⟩⟩ := by
  obtain ⟨storage, conn, key, hnew, hm, hkey, hnonce⟩ := exists_signer
  have hruntime : conn.metadata.metadata = walletRuntime := metadata_of_tryFrom hm
  obtain ⟨xt, signature, extra, hxt, he, rfl, -⟩ :=
    composeExtrinsic_submitted id (K := echoKeys) textLaws_reference Scale.reference_lawful
      Runtime.reference_lawful echoKeys_lawful (RuntimeNode.serves_client _) hnew walletSigner rfl
      hkey hnonce (hruntime ▸ walletRuntime_names) (hruntime ▸ walletRuntime_mint)
      mintArgs_roundTripsAt
  exact ⟨walletNode storage, conn, xt, signature, hnew, hxt, he⟩

/-- `composeExtrinsic_cases` on a wallet without signer: `mint` is not signed, and `burn`
panics. -/
theorem composeExtrinsic_cases_burn : ∃ (node : RuntimeNode) (conn : ConnectedApi echoKeys.Pair),
    ConnectedApi.new Hex.reference VersionFormat.reference walletDecoder node.client = .ok conn ∧
    conn.composeExtrinsic Scale.reference Runtime.reference Hex.reference accountHashing echoKeys id
      leafDecoders "Assets" "mint" mintArgs = .ok ⟨none, ⟨(50, 3), mintArgs⟩⟩ ∧
    ∃ msg, conn.composeExtrinsic Scale.reference Runtime.reference Hex.reference accountHashing
      echoKeys id leafDecoders "Assets" "burn" mintArgs = .panic msg := by
  obtain ⟨storage, conn, _, hnew, hm, -⟩ := exists_signer
  have hruntime : conn.metadata.metadata = walletRuntime := metadata_of_tryFrom hm
  have hnames : DistinctNames conn.metadata.metadata := hruntime ▸ walletRuntime_names
  have hsigner : conn.signer = none :=
    ((new_eq_ok textLaws_reference (RuntimeNode.serves_client _)).mp hnew).signer
  have hburn : ¬ ∃ pal var, DeclaresCall conn.metadata.metadata "Assets" "burn" pal var := by
    rw [hruntime]
    rintro ⟨pal, var, hpal, hname, ⟨id, vs, hid, hvs, hvar⟩, hvname⟩
    rcases List.mem_cons.mp hpal with rfl | hpal
    · cases hid
    · cases List.mem_singleton.mp hpal
      cases hid
      cases hvs
      revert hvname
      exact (show ∀ v ∈ ([⟨"create", [⟨3⟩], 0, []⟩, ⟨"mint", [⟨3⟩, ⟨4⟩], 3, []⟩] : List Variant),
        v.name ≠ "burn" by decide) var hvar
  refine ⟨walletNode storage, conn, hnew, ?_, ?_⟩
  · exact ((composeExtrinsic_cases id hm hnames).2 _).mpr
      ⟨_, _, hruntime ▸ walletRuntime_mint, Or.inl ⟨hsigner, rfl⟩⟩
  · exact (composeExtrinsic_cases id hm hnames).1.mpr (Or.inl hburn)

/-- The node after an upgrade. -/
def upgradedNode : RuntimeNode := { walletNode ∅ with version := some ⟨10, 1⟩ }

/-- `composeExtrinsic_outdated` on a runtime of a later version: the payload has another
encoding. -/
theorem composeExtrinsic_outdated_upgrade : ∃ (conn : ConnectedApi echoKeys.Pair)
    (xt : UncheckedExtrinsicV4 (ComposedCall leafTypes)) (signed : Signed)
    (p q : SignedPayload (ComposedCall leafTypes)),
    conn.composeExtrinsic Scale.reference Runtime.reference Hex.reference accountHashing echoKeys id
      leafDecoders "Assets" "mint" mintArgs = .ok xt ∧ xt.signature = some signed ∧
    signed.2.1 = .sr25519 (p.usingEncoded Scale.reference Runtime.reference
      (callCodec leafDecoders (mintArgs.map Sigma.fst)) id
        fun payload => echoKeys.sign walletSigner payload) ∧
    upgradedNode.payload xt.function signed.2.2 = some q ∧
    q.encode Scale.reference Runtime.reference (callCodec leafDecoders (mintArgs.map Sigma.fst)) ≠
      p.encode Scale.reference Runtime.reference
        (callCodec leafDecoders (mintArgs.map Sigma.fst)) := by
  obtain ⟨storage, conn, key, hnew, hm, hkey, hnonce⟩ := exists_signer
  have hruntime : conn.metadata.metadata = walletRuntime := metadata_of_tryFrom hm
  have hconn := (new_eq_ok textLaws_reference (RuntimeNode.serves_client _)).mp hnew
  have hstorage : ServesStorage Serde.reference Hex.reference ProofFormat.reference
      (walletNode storage).state (conn.setSigner walletSigner).client := by
    show ServesStorage _ _ _ _ conn.client
    rw [hconn.client]
    exact (RuntimeNode.serves_client _).storage
  have hget : (conn.setSigner walletSigner).getNonce Scale.reference Hex.reference accountHashing
      echoKeys = .ok 5 := getNonce_of_storage textLaws_reference hstorage rfl rfl hkey hnonce
  have hxt := composeExtrinsic_signed (S := Scale.reference) (R := Runtime.reference)
    (D := leafDecoders) (E := leafTypes) id (conn.setSigner walletSigner) mintArgs hm
    (hruntime ▸ walletRuntime_names) (hruntime ▸ walletRuntime_mint) rfl hget
  obtain ⟨signer, p, hsigner, hsigned, hiff⟩ :=
    composeExtrinsic_outdated id Scale.reference_lawful rfl hxt
  cases hsigner
  refine ⟨conn.setSigner walletSigner, _, _, p, _, hxt, rfl, hsigned, rfl, fun he => ?_⟩
  have hversion := ((hiff upgradedNode _ rfl).mp he).2
  have h9 : some (⟨9, 1⟩ : RuntimeVersion) = some conn.runtimeVersion := hconn.version
  rw [show (conn.setSigner walletSigner).runtimeVersion = conn.runtimeVersion from rfl, ← h9]
    at hversion
  exact absurd hversion (by decide)

end SubstrateClient
