import SubstrateClient.Lib.LittleEndian
import SubstrateClient.Lib.Transcribe
import SubstrateClient.Node.Metadata
import SubstrateClient.Scale

/-!
# The runtime decoder (`node-api/src/decoder.rs`)

`RuntimeDecoder` reads bytes whose layout the metadata describes. `decode_type` walks the type graph
and copies what it reads; `decode_raw_event` does so for the fields of an event, and turns the
dispatch errors of `System::ExtrinsicFailed` into runtime errors; `decode_events` reads a list of
event records; `decode_call` walks the arguments of a call.

* The recursion of `decode_type` follows references in a graph that may be cyclic, so it is by
  recursion on fuel: `decodeTypeBody` is the body of the Rust function with its recursive calls as
  a parameter, and `decodeType` ties the knot. `decodeType_le` is the monotonicity in the fuel, so
  an outcome other than `outOfFuel` is the outcome of the Rust function.
* `input: &mut &[u8]` and `output: &mut Vec<u8>` are the two fields of a `Cursor`. On an error the
  callers drop both, so an error carries no cursor.
* `parity-scale-codec` is the parameter `S`, and the codec of `sp_runtime::DispatchError` the
  parameter `D`. The log lines are left out.
-/

namespace SubstrateClient.Node

open SubstrateClient.Lib

/-! ## Errors (`node-api/src/error.rs`) -/

/-- `DecodingError`. -/
inductive DecodingError where
  | unsupportedPrimitive (p : TypeDefPrimitive)
  | invalidCompactPrimitive (p : TypeDefPrimitive)
  | invalidCompactType (msg : String)
  deriving DecidableEq, Repr

/-- `Error`: the variants the decoder produces. -/
inductive Error where
  | codec (e : String)
  | metadata (e : MetadataError)
  | decoding (e : DecodingError)
  | other (msg : String)
  deriving DecidableEq, Repr

/-- `PalletError`. -/
structure PalletError where
  pallet : String
  error : String
  description : List String
  deriving DecidableEq, Repr

/-- `RuntimeError`. -/
inductive RuntimeError where
  | module (e : PalletError)
  | consumerRemaining
  | tooManyConsumers
  | noProviders
  | badOrigin
  | cannotLookup
  | other (msg : String)
  deriving DecidableEq, Repr

/-- `sp_runtime::ModuleError`. -/
structure ModuleError where
  index : UInt8
  error : Vector UInt8 4
  message : Option String
  deriving DecidableEq

/-- `sp_runtime::TokenError`. -/
inductive TokenError where
  | noFunds | wouldDie | belowMinimum | cannotCreate | unknownAsset | frozen | unsupported
  deriving DecidableEq, Repr

/-- `sp_runtime::ArithmeticError`. -/
inductive ArithmeticError where
  | underflow | overflow | divisionByZero
  deriving DecidableEq, Repr

/-- `sp_runtime::TransactionalError`. -/
inductive TransactionalError where
  | limitReached | noLayer
  deriving DecidableEq, Repr

/-- `sp_runtime::DispatchError`. -/
inductive DispatchError where
  | other (msg : String)
  | cannotLookup
  | badOrigin
  | module (e : ModuleError)
  | consumerRemaining
  | noProviders
  | tooManyConsumers
  | token (e : TokenError)
  | arithmetic (e : ArithmeticError)
  | transactional (e : TransactionalError)
  deriving DecidableEq

/-- What the wire carries of a dispatch error: its texts are `#[codec(skip)]`. -/
def DispatchError.wire : DispatchError → DispatchError
  | .other _ => .other ""
  | .module e => .module { e with message := none }
  | e => e

/-- What the decoder relies on of the codec of `DispatchError`. -/
structure DispatchLawful (D : Codec DispatchError) : Prop where
  decode_encode : ∀ e rest, D.decode (D.encode e ++ rest) = .ok (e.wire, rest)
  encode_decode : D.Canonical

/-- `Result` of a metadata lookup, converted by `?`. -/
def liftMetadata {α : Type} (r : Except MetadataError α) : Outcome Error α :=
  Outcome.ofExcept .metadata r

/-- `RuntimeError::from_dispatch`. -/
def RuntimeError.fromDispatch (m : Metadata) : DispatchError → Outcome Error RuntimeError
  | .module e => do
    let error ← liftMetadata (m.error e.index e.error[0])
    return .module ⟨error.pallet, error.error, error.description⟩
  | .badOrigin => .ok .badOrigin
  | .cannotLookup => .ok .cannotLookup
  | .consumerRemaining => .ok .consumerRemaining
  | .tooManyConsumers => .ok .tooManyConsumers
  | .noProviders => .ok .noProviders
  | .arithmetic _ => .ok (.other "math_error")
  | .token _ => .ok (.other "token error")
  | .transactional _ => .ok (.other "transactional error")
  | .other msg => .ok (.other msg)

/-! ## `decode_type` -/

/-- A step of the decoder. -/
abbrev DecodeStep := Step Error UInt8

/-- `T::decode(input)?`: the value and the input left. -/
def decodeWith {α : Type} (c : Codec α) (input : Bytes) : Outcome Error (α × Bytes) :=
  Outcome.ofExcept .codec (c.decode input)

/-- `let v = T::decode(input)?; v.encode_to(output)`. -/
def copyWith {α : Type} (c : Codec α) (s : Cursor UInt8) : Outcome Error (α × Cursor UInt8) :=
  transcribe .codec c s

/-- The local function `decode_raw`. -/
def decodeRaw {α : Type} (c : Codec α) : DecodeStep := fun s => do
  let (_, s) ← copyWith c s
  .ok s

/-- `input.read_byte()?`. -/
def readByte (input : Bytes) : Outcome Error (UInt8 × Bytes) :=
  Outcome.ofExcept .codec (Codec.readByte input)

section DecodeType

variable (S : Scale) (reg : PortableRegistry)

/-- `resolve_type(type_id).ok_or(TypeNotFound(type_id))?`. -/
def resolveOr (typeId : TypeId) : Outcome Error Ty :=
  Outcome.okOr (reg.resolve typeId) (.metadata (.typeNotFound typeId))

/-- The branch of the primitives. -/
def decodePrimitive : TypeDefPrimitive → DecodeStep
  | .bool => decodeRaw (S .bool)
  | .char => fun _ => .err (.decoding (.unsupportedPrimitive .char))
  | .str => decodeRaw (S .str)
  | .u8 => decodeRaw (S .u8)
  | .u16 => decodeRaw (S .u16)
  | .u32 => decodeRaw (S .u32)
  | .u64 => decodeRaw (S .u64)
  | .u128 => decodeRaw (S .u128)
  | .u256 => fun _ => .err (.decoding (.unsupportedPrimitive .u256))
  | .i8 => decodeRaw (S .i8)
  | .i16 => decodeRaw (S .i16)
  | .i32 => decodeRaw (S .i32)
  | .i64 => decodeRaw (S .i64)
  | .i128 => decodeRaw (S .i128)
  | .i256 => fun _ => .err (.decoding (.unsupportedPrimitive .i256))

/-- The closure `decode_compact_primitive`. -/
def decodeCompactPrimitive : TypeDefPrimitive → DecodeStep
  | .u8 => decodeRaw (S .compactU8)
  | .u16 => decodeRaw (S .compactU16)
  | .u32 => decodeRaw (S .compactU32)
  | .u64 => decodeRaw (S .compactU64)
  | .u128 => decodeRaw (S .compactU128)
  | p => fun _ => .err (.decoding (.invalidCompactPrimitive p))

/-- The branch of `TypeDef::Compact`. The type it looks into is `type_id` itself, not the parameter
of the compact type. -/
def decodeCompact (typeId : TypeId) : DecodeStep := fun s => do
  let inner ← resolveOr reg typeId
  match inner.typeDef with
  | .primitive p => decodeCompactPrimitive S p s
  | .composite [field] => do
    let fieldTy ← resolveOr reg field.ty
    match fieldTy.typeDef with
    | .primitive p => decodeCompactPrimitive S p s
    | _ => .err (.decoding (.invalidCompactType "Composite type must have a single primitive field"))
  | .composite _ =>
    .err (.decoding (.invalidCompactType "Composite type must have a single field"))
  | _ =>
    .err (.decoding (.invalidCompactType "Compact type must be a primitive or a composite type"))

/-- The branch of `TypeDef::Variant`: the variant is looked up by position. -/
def decodeVariant (rec : TypeId → DecodeStep) (variants : List Variant) : DecodeStep := fun s => do
  let (variantIndex, s) ← copyWith (S .u8) s
  let variant ← Outcome.okOr variants[variantIndex.toNat]?
    (.other s!"Variant {variantIndex} not found")
  forEach variant.fields (fun field => rec field.ty) s

/-- The branch of `TypeDef::Sequence`. -/
def decodeSequence (rec : TypeId → DecodeStep) (typeParam : TypeId) : DecodeStep := fun s => do
  let (len, s) ← copyWith (S .compactU32) s
  forEach (List.range len.toNat) (fun _ => rec typeParam) s

/-- The body of `RuntimeDecoder::decode_type`, with its recursive calls as `rec`. -/
def decodeTypeBody (rec : TypeId → DecodeStep) (typeId : TypeId) : DecodeStep := fun s => do
  let ty ← resolveOr reg typeId
  match ty.typeDef with
  | .composite fields => forEach fields (fun field => rec field.ty) s
  | .variant variants => decodeVariant S rec variants s
  | .sequence typeParam => decodeSequence S rec typeParam s
  | .array len typeParam => forEach (List.range len.toNat) (fun _ => rec typeParam) s
  | .tuple fields => forEach fields rec s
  | .primitive p => decodePrimitive S p s
  | .compact _ => decodeCompact S reg typeId s
  | .bitSequence _ _ =>
    .panic "not implemented: BitVec decoding for events not implemented yet"

/-- `RuntimeDecoder::decode_type`. -/
def decodeType : Nat → TypeId → DecodeStep
  | 0, _ => fun _ => .outOfFuel
  | fuel + 1, typeId => decodeTypeBody S reg (decodeType fuel) typeId

end DecodeType

/-! ## Events and calls -/

/-- `Phase`. -/
inductive Phase where
  | applyExtrinsic (index : UInt32)
  | finalization
  | initialization
  deriving DecidableEq, Repr

/-- `RawEvent`. -/
structure RawEvent where
  pallet : String
  palletIndex : UInt8
  variant : String
  variantIndex : UInt8
  data : Bytes
  deriving DecidableEq, Repr

/-- `Raw`. -/
inductive Raw where
  | event (e : RawEvent)
  | error (e : RuntimeError)
  deriving DecidableEq, Repr

/-- The state of the loop of `decode_raw_event`: `input` and `output`, and `errors`. -/
structure EventState where
  cursor : Cursor UInt8
  errors : List RuntimeError
  deriving DecidableEq, Repr

/-- The state of the loop of `decode_events`: `input` and `r`. -/
structure RecordState where
  input : Bytes
  records : List (Phase × Raw)
  deriving DecidableEq, Repr

section Events

variable (S : Scale) (D : Codec DispatchError) (m : Metadata) (fuel : Nat)

/-- `Phase::decode`, as derived: a variant byte, then the fields. -/
def Phase.decode (input : Bytes) : Outcome Error (Phase × Bytes) := do
  let (b, input) ← readByte input
  match b with
  | 0 => do
    let (index, input) ← decodeWith (S .u32) input
    .ok (.applyExtrinsic index, input)
  | 1 => .ok (.finalization, input)
  | 2 => .ok (.initialization, input)
  | _ => .err (.codec "Could not decode `Phase`, variant doesn't exist")

/-- The event whose dispatch errors are decoded as such. -/
def isExtrinsicFailed (em : EventMetadata) : Bool :=
  em.pallet == "System" && em.event == "ExtrinsicFailed"

/-- The type of a dispatch error, by its path. -/
def isDispatchError (ty : Ty) : Bool := ty.ident == some "DispatchError"

/-- The path of `decode_raw_event` through `sp_runtime::DispatchError`. -/
def decodeDispatchError (s : EventState) : Outcome Error EventState := do
  let (dispatchError, cursor) ← copyWith D s.cursor
  let runtimeError ← RuntimeError.fromDispatch m dispatchError
  .ok ⟨cursor, s.errors ++ [runtimeError]⟩

/-- The path of `decode_raw_event` through `decode_type`. -/
def decodeEventValue (typeId : TypeId) (s : EventState) : Outcome Error EventState := do
  let cursor ← decodeType S m.metadata.types fuel typeId s.cursor
  .ok ⟨cursor, s.errors⟩

/-- One round of the loop of `decode_raw_event`. -/
def decodeEventField (em : EventMetadata) (arg : Field) (s : EventState) :
    Outcome Error EventState :=
  if isExtrinsicFailed em then do
    let ty ← resolveOr m.metadata.types arg.ty
    if isDispatchError ty then decodeDispatchError D m s
    else decodeEventValue S m fuel arg.ty s
  else decodeEventValue S m fuel arg.ty s

/-- `RuntimeDecoder::decode_raw_event`. -/
def decodeRawEvent (em : EventMetadata) : EventState → Outcome Error EventState :=
  forEach em.variant.fields (decodeEventField S D m fuel em)

/-- What one record adds to the result: the event, or the errors of its dispatch errors. -/
def recordEntries (phase : Phase) (raw : Raw) (eventErrors : List RuntimeError) :
    List (Phase × Raw) :=
  (if eventErrors.isEmpty then [(phase, raw)] else []) ++
    eventErrors.map fun err => (phase, .error err)

/-- One round of the loop of `decode_events`. -/
def decodeEventRecord (s : RecordState) : Outcome Error RecordState := do
  let (phase, input) ← Phase.decode S s.input
  let (palletIndex, input) ← readByte input
  let (variantIndex, input) ← readByte input
  let em ← liftMetadata (m.event palletIndex variantIndex)
  let es ← decodeRawEvent S D m fuel em ⟨⟨input, []⟩, []⟩
  let event : RawEvent := ⟨em.pallet, palletIndex, em.event, variantIndex, es.cursor.output⟩
  let (_topics, input) ← decodeWith (S .vecHash) es.cursor.input
  .ok ⟨input, s.records ++ recordEntries phase (.event event) es.errors⟩

/-- `RuntimeDecoder::decode_events`: the result and the input left. -/
def decodeEvents (input : Bytes) : Outcome Error (List (Phase × Raw) × Bytes) := do
  let (len, input) ← decodeWith (S .compactU32) input
  let s ← forEach (List.range len.toNat) (fun _ => decodeEventRecord S D m fuel) ⟨input, []⟩
  .ok (s.records, s.input)

/-- `RuntimeDecoder::decode_call`: the input left. -/
def decodeCall (input : Bytes) : Outcome Error Bytes := do
  let (palletIndex, input) ← readByte input
  let (variantIndex, input) ← readByte input
  let call ← liftMetadata (m.call palletIndex variantIndex)
  let s ← forEach call.variant.fields
    (fun arg => decodeType S m.metadata.types fuel arg.ty) ⟨input, []⟩
  .ok s.input

end Events

end SubstrateClient.Node
