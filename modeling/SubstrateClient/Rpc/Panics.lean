import SubstrateClient.Rpc.Client

/-!
# Which messages make a handler panic (`rpc/ws_client/mod.rs`)

`into_extrinsic_err` writes the members of an error object into a text, and unwraps every step of
it: the error has to be an object, its `message` and `data` strings, its `code` a 64-bit integer,
each as far as it is there (`Json.FormatsError`). `parse_status` calls it on errors that are
objects; `result_from_json_response` whenever the `result` is not a string, error or none.

* `neverPanics_iff`: on exactly which texts the two parsers and the five handlers of an extrinsic
  return.
* `not_neverPanics`: a response without an error, and an error whose `data` is an object.
-/

namespace SubstrateClient.Rpc

open SubstrateClient.Lib

/-- The parsers and the handlers of an extrinsic return on the text, with a value or an error. -/
structure NeverPanics (J : Serde) (msg : String) : Prop where
  parseStatus : (parseStatus J msg).Returns
  resultFromJsonResponse : (resultFromJsonResponse J msg).Returns
  handlers : ∀ exitOn f, extrinsicHandler J exitOn = some f → ∀ alive, (f alive msg).ret.Returns

variable {J : Serde} {msg : String}

/-! ## The parsers -/

theorem parseStatus_returns : (parseStatus J msg).Returns ↔
    ∀ v, J.fromStr msg = .ok v → v.IsError → v.FormatsError := by
  rcases parseStatus_cases J msg with ⟨e, hv, hp⟩ | ⟨v, hv, herr, hform, e, hp⟩ |
    ⟨v, hv, herr, hform, m, hp⟩ | ⟨v, hv, herr, hp⟩
  · simp [hv, hp]
  · simp [hv, hp, hform]
  · simp [hv, hp, herr, hform]
  · simp [hv, hp, herr]

theorem resultFromJsonResponse_returns : (resultFromJsonResponse J msg).Returns ↔
    ∀ v, J.fromStr msg = .ok v → (v.index "result").asStr.isSome = true ∨ v.FormatsError := by
  rcases resultFromJsonResponse_cases J msg with ⟨e, hv, hp⟩ | ⟨v, s, hv, hs, hp⟩ |
    ⟨v, hv, hs, hform, e, hp⟩ | ⟨v, hv, hs, hform, m, hp⟩
  · simp [hv, hp]
  · simp [hv, hp, hs]
  · simp [hv, hp, hform]
  · simp [hv, hp, hs, hform]

/-! ## The handlers -/

theorem endProcess_returns (alive : Bool) (value : Option String) :
    (endProcess alive value).ret.Returns := by
  cases alive <;> exact trivial

theorem endProcessWith_returns (alive : Bool) (e : RpcClientError) :
    (endProcessWith alive e).ret.Returns := by
  cases alive <;> exact trivial

/-- A handler that waits for a milestone returns iff the parser does. -/
theorem onExtrinsicMsgUntil_returns {val : XtStatus → Option String → Option (Option String)}
    (alive : Bool) :
    (onExtrinsicMsgUntil J val alive msg).ret.Returns ↔ (parseStatus J msg).Returns := by
  unfold onExtrinsicMsgUntil
  cases parseStatus J msg with
  | ok r =>
    obtain ⟨s, x⟩ := r
    dsimp only
    cases val s x <;> simp [endProcess_returns]
  | err e => simp [endProcessWith_returns]
  | panic m => simp
  | outOfFuel => simp

theorem onExtrinsicMsgSubmitOnly_returns (alive : Bool) :
    (onExtrinsicMsgSubmitOnly J alive msg).ret.Returns ↔
      (resultFromJsonResponse J msg).Returns := by
  unfold onExtrinsicMsgSubmitOnly
  cases resultFromJsonResponse J msg with
  | ok value => simp [endProcess_returns]
  | err e => simp [endProcessWith_returns]
  | panic m => simp
  | outOfFuel => simp

/-- The handlers return where the parsers do. -/
theorem extrinsicHandler_returns (hparse : (parseStatus J msg).Returns)
    (hresult : (resultFromJsonResponse J msg).Returns) {exitOn : XtStatus} {f : OnMessageFn}
    (hf : extrinsicHandler J exitOn = some f) (alive : Bool) : (f alive msg).ret.Returns := by
  cases exitOn <;> cases hf
  case finalized | inBlock | broadcast | ready =>
    exact (onExtrinsicMsgUntil_returns alive).mpr hparse
  case submitOnly => exact (onExtrinsicMsgSubmitOnly_returns alive).mpr hresult

/-- **On which texts nothing panics**: those that are not JSON, and those whose error, if it is an
object, has the types that are unwrapped, and which have such an error or a `result` that is a
string. -/
theorem neverPanics_iff (J : Serde) (msg : String) : NeverPanics J msg ↔
    ∀ v, J.fromStr msg = .ok v → (v.IsError → v.FormatsError) ∧
      ((v.index "result").asStr.isSome = true ∨ v.FormatsError) := by
  constructor
  · intro h v hv
    exact ⟨parseStatus_returns.mp h.parseStatus v hv,
      resultFromJsonResponse_returns.mp h.resultFromJsonResponse v hv⟩
  · intro h
    have hparse := parseStatus_returns.mpr fun v hv => (h v hv).1
    have hresult := resultFromJsonResponse_returns.mpr fun v hv => (h v hv).2
    exact ⟨hparse, hresult, fun _ _ hf => extrinsicHandler_returns hparse hresult hf⟩

/-- A response whose `result` is a number. -/
def numberResponse : String × Json :=
  ("\x7b\"jsonrpc\":\"2.0\",\"result\":7185,\"id\":\"3\"\x7d",
    .obj [("id", .str "3"), ("jsonrpc", .str "2.0"), ("result", .num (.posInt 7185))])

/-- An error whose `data` is an object. -/
def objectData : String × Json :=
  ("\x7b\"jsonrpc\":\"2.0\",\"error\":\x7b\"code\":1010,\"message\":\"Invalid Transaction\"," ++
      "\"data\":\x7b\"reason\":\"Bad Signature\"\x7d\x7d,\"id\":\"3\"\x7d",
    .obj [("error", .obj [("code", .num (.posInt 1010)),
      ("data", .obj [("reason", .str "Bad Signature")]), ("message", .str "Invalid Transaction")]),
      ("id", .str "3"), ("jsonrpc", .str "2.0")])

/-- **Two texts that panic**: a response without an error, where its string is expected, and an
error with structured data, in both parsers. -/
theorem not_neverPanics :
    ¬ (resultFromJsonResponse (Serde.ofTexts [numberResponse]) numberResponse.1).Returns ∧
    ¬ NeverPanics (Serde.ofTexts [numberResponse]) numberResponse.1 ∧
    ¬ (parseStatus (Serde.ofTexts [objectData]) objectData.1).Returns ∧
    ¬ NeverPanics (Serde.ofTexts [objectData]) objectData.1 := by
  have hresult : ¬ (resultFromJsonResponse (Serde.ofTexts [numberResponse])
      numberResponse.1).Returns := by
    intro h
    rcases resultFromJsonResponse_returns.mp h _ (Serde.fromStr_ofTexts_self _) with hs | ⟨_, ho, -⟩
    · cases hs
    · cases ho
  have hparse : ¬ (parseStatus (Serde.ofTexts [objectData]) objectData.1).Returns := by
    intro h
    obtain ⟨obj, hobj, -, -, hdata⟩ :=
      parseStatus_returns.mp h _ (Serde.fromStr_ofTexts_self _) rfl
    cases hobj
    exact absurd (hdata _ rfl) Bool.false_ne_true
  exact ⟨hresult, fun h => hresult h.resultFromJsonResponse, hparse, fun h => hparse h.parseStatus⟩

end SubstrateClient.Rpc
