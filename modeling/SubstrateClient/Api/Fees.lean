import Mathlib.Data.Nat.Digits.Defs
import SubstrateClient.Api.Compose
import SubstrateClient.Node.Listings

/-!
# Fees and constants (`src/std/mod.rs`)

A node computes the fees of an extrinsic from its bytes. It writes balances as a number or as
hexadecimal text (`NumberOrHex`), the client takes them into a `u128` and gives up on the first one
that does not fit. The tip is not part of the answer. Constants stand in the metadata as encoded
values.

* `convertFeeDetails_eq_ok`: the conversion keeps every number.
* `fees_exact`: the fees of an extrinsic are those the node computes for its encoding.
* `getConstant_eq`: a constant is decoded from the last one of its name.
-/

namespace SubstrateClient

open Lib Node Primitives Rpc Utils

/-- `Balance`. -/
abbrev Balance := BitVec 128

/-- `InclusionFee`. -/
structure InclusionFee (B : Type) where
  baseFee : B
  lenFee : B
  adjustedWeightFee : B
  deriving DecidableEq

/-- `FeeDetails`. -/
structure FeeDetails (B : Type) where
  inclusionFee : Option (InclusionFee B)
  tip : B
  deriving DecidableEq

/-- `RuntimeDispatchInfo`, with the class of the call by its name. -/
structure RuntimeDispatchInfo where
  weight : UInt64
  dispatchClass : String
  partialFee : Balance
  deriving DecidableEq

/-- `NumberOrHex`, its conversion into a `u128`, and the number that one stands for. -/
structure NumberFormat where
  Number : Type
  tryInto : Number → Option Balance
  value : Number → Nat
  default : Number

/-- The number is a balance. -/
def NumberFormat.Fits (N : NumberFormat) (n : N.Number) : Prop := N.value n < 2 ^ 128

/-- A number is taken when it fits. -/
structure NumberFormat.Lawful (N : NumberFormat) : Prop where
  tryInto_eq_some : ∀ n b, N.tryInto n = some b ↔ N.value n = b.toNat
  value_default : N.value N.default = 0

/-- How a node writes fees, and how `serde_json` reads them. -/
structure FeeFormat (N : NumberFormat) where
  detailsToJson : FeeDetails N.Number → Json
  detailsFromStr : String → Except String (FeeDetails N.Number)
  infoToJson : RuntimeDispatchInfo → Json
  infoFromStr : String → Except String RuntimeDispatchInfo

/-- What is written is read, but for the tip, which is not written. -/
structure FeeFormat.Lawful (J : Serde) {N : NumberFormat} (F : FeeFormat N) : Prop where
  details : ∀ d, F.detailsFromStr (J.toString (F.detailsToJson d)) = .ok { d with tip := N.default }
  details_ne_null : ∀ d, F.detailsToJson d ≠ .null
  info : ∀ i, F.infoFromStr (J.toString (F.infoToJson i)) = .ok i
  info_ne_null : ∀ i, F.infoToJson i ≠ .null

/-- `ApiClientError`: `TryFromIntError`, and the errors of the other calls. -/
inductive FeeError where
  | tryFromInt
  | call (e : ApiError)
  deriving DecidableEq

section Convert

variable (N : NumberFormat)

/-- `try_into().map_err(..)?`. -/
def tryIntoBalance (n : N.Number) : Except FeeError Balance :=
  match N.tryInto n with
  | some b => .ok b
  | none => .error .tryFromInt

/-- `inclusion_fee_with_balance`. -/
def inclusionFeeWithBalance (fee : InclusionFee N.Number) :
    Except FeeError (InclusionFee Balance) := do
  let baseFee ← tryIntoBalance N fee.baseFee
  let lenFee ← tryIntoBalance N fee.lenFee
  let adjustedWeightFee ← tryIntoBalance N fee.adjustedWeightFee
  return { baseFee, lenFee, adjustedWeightFee }

/-- `convert_fee_details`. -/
def convertFeeDetails (details : FeeDetails N.Number) :
    Except FeeError (FeeDetails Balance) := do
  let inclusionFee ← (
    match details.inclusionFee with
    | some fee => (inclusionFeeWithBalance N fee).map some
    | none => .ok none)
  let tip ← tryIntoBalance N details.tip
  return { inclusionFee, tip }

end Convert

namespace Api

variable {P : Type} (api : Api P)

/-- `Api::get_fee_details`. -/
def getFeeDetails (H : Hex) {N : NumberFormat} (F : FeeFormat N) (xthexPrefixed : String)
    (atBlock : Option H256) : Except FeeError (Option (FeeDetails Balance)) :=
  match api.getRequest (paymentQueryFeeDetails H xthexPrefixed atBlock) with
  | .error e => .error (.call e)
  | .ok (some details) =>
    match F.detailsFromStr details with
    | .error e => .error (.call (.deserializing e))
    | .ok details => (convertFeeDetails N details).map some
  | .ok none => .ok none

/-- `Api::get_payment_info`. -/
def getPaymentInfo (H : Hex) {N : NumberFormat} (F : FeeFormat N) (xthexPrefixed : String)
    (atBlock : Option H256) : ApiResult (Option RuntimeDispatchInfo) :=
  match api.getRequest (paymentQueryInfo H xthexPrefixed atBlock) with
  | .error e => .error e
  | .ok (some info) =>
    match F.infoFromStr info with
    | .error e => .error (.deserializing e)
    | .ok info => .ok (some info)
  | .ok none => .ok none

/-- `Api::get_constant`. -/
def getConstant {C : Type} (value : Codec C) (pallet constant : String) : ApiResult C :=
  match api.metadata.pallet pallet with
  | .error e => .error (.metadata e)
  | .ok p =>
    match p.constants.get constant with
    | none => .error (.metadata (.constantNotFound constant))
    | some c =>
      match value.decode c.value with
      | .error e => .error (.storageValueDecode e)
      | .ok (v, _) => .ok v

/-- `Api::get_existential_deposit`. -/
def getExistentialDeposit (S : Scale) : ApiResult Balance :=
  api.getConstant (S .u128) "Balances" "ExistentialDeposit"

end Api

/-! ## The conversion -/

/-- The fees as other numbers. -/
def InclusionFee.map {A B : Type} (f : A → B) (fee : InclusionFee A) : InclusionFee B :=
  ⟨f fee.baseFee, f fee.lenFee, f fee.adjustedWeightFee⟩

/-- The details as other numbers. -/
def FeeDetails.map {A B : Type} (f : A → B) (details : FeeDetails A) : FeeDetails B :=
  ⟨details.inclusionFee.map (InclusionFee.map f), f details.tip⟩

section Spec

variable {N : NumberFormat}

theorem tryIntoBalance_eq_ok (hN : N.Lawful) {n : N.Number} {b : Balance} :
    tryIntoBalance N n = .ok b ↔ N.value n = b.toNat := by
  rw [← hN.tryInto_eq_some]
  unfold tryIntoBalance
  cases N.tryInto n <;> simp

theorem inclusionFeeWithBalance_eq_ok (hN : N.Lawful) {fee : InclusionFee N.Number}
    {b : InclusionFee Balance} :
    inclusionFeeWithBalance N fee = .ok b ↔ fee.map N.value = b.map BitVec.toNat := by
  unfold inclusionFeeWithBalance
  simp only [Outcome.except_bind_eq_ok, tryIntoBalance_eq_ok hN, InclusionFee.map,
    InclusionFee.mk.injEq]
  constructor
  · rintro ⟨base, hbase, len, hlen, weight, hweight, hb⟩
    cases hb
    exact ⟨hbase, hlen, hweight⟩
  · rintro ⟨hbase, hlen, hweight⟩
    exact ⟨_, hbase, _, hlen, _, hweight, rfl⟩

/-- **The conversion keeps every number.** -/
theorem convertFeeDetails_eq_ok (hN : N.Lawful) {details : FeeDetails N.Number}
    {b : FeeDetails Balance} :
    convertFeeDetails N details = .ok b ↔ details.map N.value = b.map BitVec.toNat := by
  obtain ⟨inclusionFee, tip⟩ := details
  obtain ⟨inclusionFee', tip'⟩ := b
  unfold convertFeeDetails
  simp only [Outcome.except_bind_eq_ok, tryIntoBalance_eq_ok hN, FeeDetails.map,
    FeeDetails.mk.injEq]
  cases inclusionFee with
  | none =>
    constructor
    · rintro ⟨fee, hfee, t, ht, hb⟩
      cases hfee
      cases hb
      exact ⟨rfl, ht⟩
    · rintro ⟨hfee, ht⟩
      have hnone : inclusionFee' = none := by simpa using hfee.symm
      exact ⟨none, rfl, _, ht, by rw [hnone]; rfl⟩
  | some fee =>
    constructor
    · rintro ⟨fee', hfee, t, ht, hb⟩
      cases hb
      cases hconv : inclusionFeeWithBalance N fee with
      | error e => simp [hconv, Except.map] at hfee
      | ok b =>
        simp only [hconv, Except.map, Except.ok.injEq] at hfee
        subst hfee
        exact ⟨congrArg some ((inclusionFeeWithBalance_eq_ok hN).mp hconv), ht⟩
    · rintro ⟨hfee, ht⟩
      obtain ⟨b, rfl, hb⟩ := Option.map_eq_some_iff.mp hfee.symm
      have hconv := (inclusionFeeWithBalance_eq_ok hN).mpr hb.symm
      exact ⟨some b, by simp [hconv, Except.map], _, ht, rfl⟩

end Spec

/-! ## The node -/

/-- A node that computes fees from the bytes of an extrinsic, at a block. -/
structure PaymentNode (N : NumberFormat) where
  details : Bytes → Option H256 → Option (FeeDetails N.Number)
  info : Bytes → Option H256 → Option RuntimeDispatchInfo

/-- What the node answers. -/
def PaymentNode.answer {N : NumberFormat} (node : PaymentNode N) (F : FeeFormat N) (H : Hex) :
    Request → Option Json
  | .feeDetails xthexPrefixed atBlock => (fromHex H xthexPrefixed).toOption.map fun xt =>
      ((node.details xt atBlock).map F.detailsToJson).getD .null
  | .feeInfo xthexPrefixed atBlock => (fromHex H xthexPrefixed).toOption.map fun xt =>
      ((node.info xt atBlock).map F.infoToJson).getD .null
  | _ => none

/-- The client passes on what the node answers to the text of a request. -/
def ServesFees (J : Serde) (H : Hex) {N : NumberFormat} (F : FeeFormat N) (node : PaymentNode N)
    (client : RpcClientTrait) : Prop :=
  ∀ jsonreq answer,
    ((Request.ofText J H (J.toString jsonreq)).bind (node.answer F H)) = some answer →
      client.getRequest jsonreq = .ok (J.toString answer)

/-- Every one of the fees is a balance. -/
def InclusionFee.Fits {N : NumberFormat} (fee : InclusionFee N.Number) : Prop :=
  N.Fits fee.baseFee ∧ N.Fits fee.lenFee ∧ N.Fits fee.adjustedWeightFee

/-- What the client is told of the fees of some bytes: the numbers of the node, if every one of them
is a balance. -/
structure FeesExact (H : Hex) {N : NumberFormat} (F : FeeFormat N) (node : PaymentNode N) {P : Type}
    (api : Api P) (text : String) (xt : Bytes) (atBlock : Option H256) : Prop where
  details : ∀ fees, api.getFeeDetails H F text atBlock = .ok (some fees) ↔
    fees.tip = 0 ∧ ∃ d, node.details xt atBlock = some d ∧
      d.inclusionFee.map (InclusionFee.map N.value) =
        fees.inclusionFee.map (InclusionFee.map BitVec.toNat)
  none : api.getFeeDetails H F text atBlock = .ok none ↔ node.details xt atBlock = none
  overflow : ∀ e, api.getFeeDetails H F text atBlock = .error e ↔ e = .tryFromInt ∧
    ∃ d fee, node.details xt atBlock = some d ∧ d.inclusionFee = some fee ∧ ¬ fee.Fits
  info : api.getPaymentInfo H F text atBlock = .ok (node.info xt atBlock)

section Spec

variable {J : Serde} {H : Hex} {N : NumberFormat} {F : FeeFormat N} {node : PaymentNode N}
  {P : Type} {api : Api P} {text : String} {xt : Bytes} {atBlock : Option H256}

theorem getFeeDetails_eq (hL : TextLaws J H) (hF : F.Lawful J)
    (hs : ServesFees J H F node api.client) (htext : fromHex H text = .ok xt) :
    api.getFeeDetails H F text atBlock =
      match node.details xt atBlock with
      | some d => (convertFeeDetails N { d with tip := N.default }).map some
      | none => .ok none := by
  have hreq : api.getRequest (paymentQueryFeeDetails H text atBlock) =
      .ok ((node.details xt atBlock).map fun d => J.toString (F.detailsToJson d)) := by
    refine getRequest_optional (r := .feeDetails text atBlock) hL hs F.detailsToJson
      hF.details_ne_null ?_
    simp [PaymentNode.answer, htext, Except.toOption]
  unfold Api.getFeeDetails
  rw [hreq]
  cases node.details xt atBlock with
  | none => rfl
  | some d => simp only [Option.map_some, hF.details]

theorem getPaymentInfo_eq (hL : TextLaws J H) (hF : F.Lawful J)
    (hs : ServesFees J H F node api.client) (htext : fromHex H text = .ok xt) :
    api.getPaymentInfo H F text atBlock = .ok (node.info xt atBlock) := by
  have hreq : api.getRequest (paymentQueryInfo H text atBlock) =
      .ok ((node.info xt atBlock).map fun i => J.toString (F.infoToJson i)) := by
    refine getRequest_optional (r := .feeInfo text atBlock) hL hs F.infoToJson hF.info_ne_null ?_
    simp [PaymentNode.answer, htext, Except.toOption]
  unfold Api.getPaymentInfo
  rw [hreq]
  cases node.info xt atBlock with
  | none => rfl
  | some i => simp only [Option.map_some, hF.info]

theorem tryIntoBalance_of_fits (hN : N.Lawful) {n : N.Number} (h : N.Fits n) :
    ∃ b, tryIntoBalance N n = .ok b := by
  refine ⟨BitVec.ofNat 128 (N.value n), (tryIntoBalance_eq_ok hN).mpr ?_⟩
  rw [BitVec.toNat_ofNat]
  exact (Nat.mod_eq_of_lt h).symm

theorem tryIntoBalance_of_not_fits (hN : N.Lawful) {n : N.Number} (h : ¬ N.Fits n) :
    tryIntoBalance N n = .error .tryFromInt := by
  unfold tryIntoBalance
  cases hb : N.tryInto n with
  | none => rfl
  | some b =>
    have hvalue : N.value n = b.toNat := (hN.tryInto_eq_some n b).mp hb
    exact (h (hvalue.trans_lt b.isLt)).elim

/-- Fees are taken when all of them fit. -/
theorem inclusionFeeWithBalance_cases (hN : N.Lawful) (fee : InclusionFee N.Number) :
    (fee.Fits ∧ ∃ b, inclusionFeeWithBalance N fee = .ok b) ∨
      (¬ fee.Fits ∧ inclusionFeeWithBalance N fee = .error .tryFromInt) := by
  unfold inclusionFeeWithBalance InclusionFee.Fits
  by_cases hbase : N.Fits fee.baseFee
  · obtain ⟨base, hb⟩ := tryIntoBalance_of_fits hN hbase
    by_cases hlen : N.Fits fee.lenFee
    · obtain ⟨len, hl⟩ := tryIntoBalance_of_fits hN hlen
      by_cases hweight : N.Fits fee.adjustedWeightFee
      · obtain ⟨weight, hw⟩ := tryIntoBalance_of_fits hN hweight
        rw [hb, hl, hw]
        exact Or.inl ⟨⟨hbase, hlen, hweight⟩, _, rfl⟩
      · rw [hb, hl, tryIntoBalance_of_not_fits hN hweight]
        exact Or.inr ⟨by simp [hweight], rfl⟩
    · rw [hb, tryIntoBalance_of_not_fits hN hlen]
      exact Or.inr ⟨by simp [hlen], rfl⟩
  · rw [tryIntoBalance_of_not_fits hN hbase]
    exact Or.inr ⟨by simp [hbase], rfl⟩

/-- What comes of the fees a node sends: the tip is 0. -/
theorem convertFeeDetails_cases (hN : N.Lawful) (fee : Option (InclusionFee N.Number)) :
    ((∀ f, fee = some f → f.Fits) ∧
      ∃ b, convertFeeDetails N ⟨fee, N.default⟩ = .ok b) ∨
      (∃ f, fee = some f ∧ ¬ f.Fits) ∧
        convertFeeDetails N ⟨fee, N.default⟩ = .error .tryFromInt := by
  have hdefault : N.Fits N.default := by
    unfold NumberFormat.Fits
    rw [hN.value_default]
    decide
  obtain ⟨tip, htip⟩ := tryIntoBalance_of_fits hN hdefault
  unfold convertFeeDetails
  cases fee with
  | none =>
    rw [htip]
    exact Or.inl ⟨by simp, _, rfl⟩
  | some f =>
    dsimp only
    rcases inclusionFeeWithBalance_cases hN f with ⟨hfits, b, hb⟩ | ⟨hover, herr⟩
    · rw [hb, htip]
      exact Or.inl ⟨by simpa using hfits, _, rfl⟩
    · rw [herr]
      exact Or.inr ⟨⟨f, rfl, hover⟩, rfl⟩

theorem map_some_eq_ok {ε α : Type} {x : Except ε α} {b : α} :
    x.map some = .ok (some b) ↔ x = .ok b := by
  cases x <;> simp [Except.map]

/-- **The fees of an extrinsic are those the node computes for its encoding.** -/
theorem fees_exact (hL : TextLaws J H) (hN : N.Lawful) (hF : F.Lawful J)
    (hs : ServesFees J H F node api.client) {S : Scale} {R : Runtime} {Call : Type}
    {c : Codec Call} {size : Nat} {x : UncheckedExtrinsicV4 Call}
    (htext : x.hexEncode S R c H size = .ok text) (atBlock : Option H256) :
    ∃ bytes, x.encode S R c size = .ok bytes ∧ FeesExact H F node api text bytes atBlock := by
  obtain ⟨bytes, hbytes, hhex⟩ := hexEncode_eq_ok hL.hex htext
  have heq : api.getFeeDetails H F text atBlock = _ := getFeeDetails_eq hL hF hs hhex
  refine ⟨bytes, hbytes, ?_, ?_, ?_, getPaymentInfo_eq hL hF hs hhex⟩
  · intro fees
    rw [heq]
    cases node.details bytes atBlock with
    | none => simp
    | some d =>
      have hzero : (0 : Nat) = fees.tip.toNat ↔ fees.tip = 0 := by
        rw [eq_comm, ← BitVec.toNat_inj]
        rfl
      have hconv : convertFeeDetails N { d with tip := N.default } = .ok fees ↔ _ :=
        convertFeeDetails_eq_ok hN
      simp only [FeeDetails.map, FeeDetails.mk.injEq, hN.value_default, hzero] at hconv
      show (convertFeeDetails N { d with tip := N.default }).map some = _ ↔ _
      rw [map_some_eq_ok, hconv, and_comm]
      simp
  · rw [heq]
    cases node.details bytes atBlock with
    | none => simp
    | some d =>
      show (convertFeeDetails N { d with tip := N.default }).map some = _ ↔ _
      generalize convertFeeDetails N { d with tip := N.default } = res
      cases res <;> simp [Except.map]
  · intro e
    rw [heq]
    cases node.details bytes atBlock with
    | none => simp
    | some d =>
      rcases convertFeeDetails_cases hN d.inclusionFee with ⟨hfits, b, hb⟩ | ⟨hover, herr⟩
      · simp only [hb, Except.map, reduceCtorEq, Option.some.injEq, false_iff]
        rintro ⟨-, d', f, rfl, hf, hnot⟩
        exact hnot (hfits f hf)
      · simp only [herr, Except.map, Except.error.injEq, Option.some.injEq]
        constructor
        · rintro rfl
          obtain ⟨f, hf, hnot⟩ := hover
          exact ⟨rfl, d, f, rfl, hf, hnot⟩
        · rintro ⟨rfl, -⟩
          rfl

/-! ## Constants -/

/-- **A constant is decoded from the last one of its name,** in the last pallet of its name. -/
theorem getConstant_eq {md : RuntimeMetadataPrefixed} (hr : Metadata.tryFrom md = .ok api.metadata)
    {C : Type} (value : Codec C) (pallet constant : String) :
    api.getConstant value pallet constant =
      match api.metadata.metadata.lastConstant pallet constant with
      | .error e => .error (.metadata e)
      | .ok c =>
        match value.decode c.value with
        | .error e => .error (.storageValueDecode e)
        | .ok (v, _) => .ok v := by
  rw [← constant_eq hr]
  unfold Api.getConstant
  cases api.metadata.pallet pallet with
  | error e => rfl
  | ok p =>
    unfold Except.bind PalletMetadata.constant
    dsimp only
    cases p.constants.get constant <;> rfl

end Spec

/-! ## A node that answers for fees -/

/-- The value of a digit. -/
def digitVal (c : Char) : Option Nat := (List.range 16).find? fun d => Nat.digitChar d = c

/-- A number by its digits. -/
def numeral (base n : Nat) : List Char :=
  if n = 0 then ['0'] else (Nat.digits base n).reverse.map Nat.digitChar

/-- The number of some digits. -/
def readNumeral (base : Nat) (digits : List Char) : Option Nat :=
  (digits.mapM digitVal).map fun ds => Nat.ofDigits base ds.reverse

theorem digitVal_digitChar {d : Nat} (h : d < 16) : digitVal (Nat.digitChar d) = some d := by
  interval_cases d <;> decide

theorem readNumeral_numeral {base : Nat} (hone : 1 < base) (hbase : base ≤ 16) (n : Nat) :
    readNumeral base (numeral base n) = some n := by
  unfold readNumeral numeral
  by_cases hn : n = 0
  · subst hn
    rfl
  · have hdigits : ((Nat.digits base n).reverse.map Nat.digitChar).mapM digitVal =
        some ((Nat.digits base n).reverse.map id) := by
      refine mapM_map fun d hd => digitVal_digitChar ?_
      exact (Nat.digits_lt_base hone (List.mem_reverse.mp hd)).trans_le hbase
    rw [if_neg hn, hdigits, Option.map_some, List.map_id, List.reverse_reverse,
      Nat.ofDigits_digits]

/-- `NumberOrHex` as the two it may be. -/
inductive NumberOrHex where
  | number (n : UInt64)
  | hex (h : BitVec 256)
  deriving DecidableEq

/-- The number it stands for. -/
def NumberOrHex.value : NumberOrHex → Nat
  | .number n => n.toNat
  | .hex h => h.toNat

/-- Numbers are taken when they fit. -/
def NumberFormat.reference : NumberFormat where
  Number := NumberOrHex
  tryInto n := if n.value < 2 ^ 128 then some (BitVec.ofNat 128 n.value) else none
  value := NumberOrHex.value
  default := NumberOrHex.number 0

theorem NumberFormat.reference_lawful : NumberFormat.reference.Lawful where
  tryInto_eq_some n b := by
    show (if n.value < 2 ^ 128 then some (BitVec.ofNat 128 n.value) else none) = some b ↔
      n.value = b.toNat
    by_cases hn : n.value < 2 ^ 128
    · rw [if_pos hn, Option.some.injEq, ← BitVec.toNat_inj, BitVec.toNat_ofNat,
        Nat.mod_eq_of_lt hn]
    · rw [if_neg hn]
      refine iff_of_false nofun fun h => hn ?_
      rw [h]
      exact b.isLt
  value_default := rfl

/-- A number as JSON. -/
def NumberOrHex.toJson : NumberOrHex → Json
  | .number n => .num (.posInt n)
  | .hex h => .str (String.ofList ('0' :: 'x' :: numeral 16 h.toNat))

/-- The number of a JSON value. -/
def NumberOrHex.ofJson : Json → Option NumberOrHex
  | .num (.posInt n) => some (.number n)
  | .str s =>
    match s.toList with
    | '0' :: 'x' :: digits =>
      (readNumeral 16 digits).bind fun n =>
        if n < 2 ^ 256 then some (.hex (BitVec.ofNat 256 n)) else none
    | _ => none
  | _ => none

theorem NumberOrHex.ofJson_toJson (n : NumberOrHex) : NumberOrHex.ofJson n.toJson = some n := by
  cases n with
  | number n => rfl
  | hex h =>
    unfold NumberOrHex.toJson NumberOrHex.ofJson
    simp only [String.toList_ofList, readNumeral_numeral (by decide : 1 < 16) le_rfl,
      Option.bind_some, if_pos h.isLt, BitVec.ofNat_toNat, BitVec.setWidth_eq]

/-- Fees as their three numbers, the tip left out. -/
def feesToJson (d : FeeDetails NumberOrHex) : Json :=
  .obj [("inclusionFee",
    match d.inclusionFee with
    | none => .null
    | some fee => .obj [("adjustedWeightFee", fee.adjustedWeightFee.toJson),
        ("baseFee", fee.baseFee.toJson), ("lenFee", fee.lenFee.toJson)])]

/-- The fees of a JSON value. -/
def feesOfJson (v : Json) : Option (FeeDetails NumberOrHex) :=
  match v.index "inclusionFee" with
  | .null => some ⟨none, .number 0⟩
  | fee => do
    let baseFee ← NumberOrHex.ofJson (fee.index "baseFee")
    let lenFee ← NumberOrHex.ofJson (fee.index "lenFee")
    let adjustedWeightFee ← NumberOrHex.ofJson (fee.index "adjustedWeightFee")
    return ⟨some ⟨baseFee, lenFee, adjustedWeightFee⟩, .number 0⟩

/-- What is paid, with the fee in decimal digits. -/
def dispatchInfoToJson (i : RuntimeDispatchInfo) : Json :=
  .obj [("class", .str i.dispatchClass),
    ("partialFee", .str (String.ofList (numeral 10 i.partialFee.toNat))),
    ("weight", .num (.posInt i.weight))]

/-- What is paid, by a JSON value. -/
def dispatchInfoOfJson (v : Json) : Option RuntimeDispatchInfo :=
  match v.index "weight" with
  | .num (.posInt weight) => do
    let dispatchClass ← (v.index "class").asStr
    let partialFee ← (v.index "partialFee").asStr
    let fee ← readNumeral 10 partialFee.toList
    return ⟨weight, dispatchClass, BitVec.ofNat 128 fee⟩
  | _ => none

theorem feesOfJson_feesToJson (d : FeeDetails NumberOrHex) :
    feesOfJson (feesToJson d) = some ⟨d.inclusionFee, .number 0⟩ := by
  obtain ⟨_ | fee, tip⟩ := d
  · rfl
  · show (do
      let baseFee ← NumberOrHex.ofJson fee.baseFee.toJson
      let lenFee ← NumberOrHex.ofJson fee.lenFee.toJson
      let adjustedWeightFee ← NumberOrHex.ofJson fee.adjustedWeightFee.toJson
      return (⟨some ⟨baseFee, lenFee, adjustedWeightFee⟩, .number 0⟩ : FeeDetails NumberOrHex)) = _
    simp only [NumberOrHex.ofJson_toJson]
    rfl

theorem dispatchInfoOfJson_toJson (i : RuntimeDispatchInfo) :
    dispatchInfoOfJson (dispatchInfoToJson i) = some i := by
  have hfee : readNumeral 10 (String.ofList (numeral 10 i.partialFee.toNat)).toList =
      some i.partialFee.toNat := by
    rw [String.toList_ofList, readNumeral_numeral (by decide) (by decide)]
  show (do
    let fee ← readNumeral 10 (String.ofList (numeral 10 i.partialFee.toNat)).toList
    return (⟨i.weight, i.dispatchClass, BitVec.ofNat 128 fee⟩ : RuntimeDispatchInfo)) = _
  rw [hfee]
  show some (⟨_, _, BitVec.ofNat 128 i.partialFee.toNat⟩ : RuntimeDispatchInfo) = _
  rw [BitVec.ofNat_toNat, BitVec.setWidth_eq]

/-- A format by JSON values. -/
def FeeFormat.reference : FeeFormat NumberFormat.reference where
  detailsToJson := feesToJson
  detailsFromStr text :=
    match Serde.reference.fromStr text with
    | .error e => .error e
    | .ok v =>
      match feesOfJson v with
      | some d => .ok d
      | none => .error "invalid type"
  infoToJson := dispatchInfoToJson
  infoFromStr text :=
    match Serde.reference.fromStr text with
    | .error e => .error e
    | .ok v =>
      match dispatchInfoOfJson v with
      | some i => .ok i
      | none => .error "invalid type"

theorem NumberOrHex.toJson_plain (n : NumberOrHex) : n.toJson.Plain := by
  cases n with
  | number n => exact .posInt n
  | hex h => exact .str _

theorem feesToJson_plain (d : FeeDetails NumberOrHex) : (feesToJson d).Plain := by
  refine .obj (List.pairwise_singleton _ _) ?_
  rw [List.forall_mem_singleton]
  cases d.inclusionFee with
  | none => exact .null
  | some fee =>
    refine .obj (show ["adjustedWeightFee", "baseFee", "lenFee"].Pairwise (· < ·) by decide) ?_
    simp only [List.forall_mem_cons, List.not_mem_nil, false_imp_iff, implies_true, and_true]
    exact ⟨fee.adjustedWeightFee.toJson_plain, fee.baseFee.toJson_plain, fee.lenFee.toJson_plain⟩

theorem dispatchInfoToJson_plain (i : RuntimeDispatchInfo) : (dispatchInfoToJson i).Plain := by
  refine .obj (show ["class", "partialFee", "weight"].Pairwise (· < ·) by decide) ?_
  simp only [List.forall_mem_cons, List.not_mem_nil, false_imp_iff, implies_true, and_true]
  exact ⟨.str _, .str _, .posInt _⟩

theorem FeeFormat.reference_lawful : FeeFormat.reference.Lawful Serde.reference where
  details d := by
    have hread := feesOfJson_feesToJson d
    unfold FeeFormat.reference
    simp only [Serde.reference_readsBack _ (feesToJson_plain d), hread]
    rfl
  details_ne_null _ := Json.noConfusion
  info i := by
    have hread := dispatchInfoOfJson_toJson i
    unfold FeeFormat.reference
    simp only [Serde.reference_readsBack _ (dispatchInfoToJson_plain i), hread]
  info_ne_null _ := Json.noConfusion

/-- A client of the node. -/
def PaymentNode.client (node : PaymentNode NumberFormat.reference) : RpcClientTrait :=
  directClient (node.answer FeeFormat.reference Hex.reference)

theorem PaymentNode.serves_client (node : PaymentNode NumberFormat.reference) :
    ServesFees Serde.reference Hex.reference FeeFormat.reference node node.client :=
  directClient_answers

/-- Fees that grow with the length of the extrinsic. -/
def lengthFees : PaymentNode NumberFormat.reference where
  details xt _ := some ⟨some ⟨NumberOrHex.hex 125000000#256,
    NumberOrHex.hex (BitVec.ofNat 256 (xt.length * 2 ^ 70)), NumberOrHex.number 7⟩,
    NumberOrHex.number 0⟩
  info _ _ := none

/-- A client of that node. -/
def lengthApi : Api Unit := ⟨none, twoEvents, lengthFees.client⟩

/-- The fees of an unsigned extrinsic of three bytes, one of them beyond 64 bits. -/
theorem fees_exact_unsigned : ∃ text,
    UncheckedExtrinsicV4.hexEncode Scale.reference Runtime.reference Scale.byte Hex.reference 200
      ⟨none, 7⟩ = .ok text ∧
    lengthApi.getFeeDetails Hex.reference FeeFormat.reference text none =
        .ok (some ⟨some ⟨125000000, BitVec.ofNat 128 (3 * 2 ^ 70), 7⟩, 0⟩) := by
  have hencode : UncheckedExtrinsicV4.encode Scale.reference Runtime.reference Scale.byte 200
      ⟨none, 7⟩ = .ok [8, 4, 7] := by decide
  obtain ⟨text, htext⟩ : ∃ text, UncheckedExtrinsicV4.hexEncode Scale.reference Runtime.reference
      Scale.byte Hex.reference 200 ⟨none, 7⟩ = .ok text :=
    ⟨_, by rw [UncheckedExtrinsicV4.hexEncode, hencode, Outcome.ok_bind]⟩
  have hexact : ∃ bytes, UncheckedExtrinsicV4.encode Scale.reference Runtime.reference Scale.byte
      200 ⟨none, 7⟩ = .ok bytes ∧
      FeesExact Hex.reference FeeFormat.reference lengthFees lengthApi text bytes none :=
    fees_exact textLaws_reference NumberFormat.reference_lawful FeeFormat.reference_lawful
      lengthFees.serves_client htext none
  obtain ⟨bytes, hbytes, hfees⟩ := hexact
  rw [hencode] at hbytes
  cases hbytes
  refine ⟨text, htext, (hfees.details _).mpr ⟨rfl, _, rfl, ?_⟩⟩
  decide

end SubstrateClient
