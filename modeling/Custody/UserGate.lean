import Custody.Evidence

/-!
# The user's gate

What the user checks before a response is used. Local checks need no third party;
the decision adds the third party's verdict only in strict mode.
-/

namespace UserGate

open PyValue HexBytes Commitments Statements Schemas Evidence

inductive Mode where
  | observe
  | protect
  | strict
  deriving DecidableEq

def Mode.text : Mode → String
  | .observe => "observe"
  | .protect => "protect"
  | .strict => "strict"

inductive Outcome where
  | pass
  | fail
  | na
  deriving DecidableEq

def Outcome.text : Outcome → String
  | .pass => "pass"
  | .fail => "fail"
  | .na => "not_evaluable"

/-- `CHECK_BASIS`: whether the user measured it or compared a signer's word. -/
def checkBasis : List (String × String) :=
  [("not_expired", "measured_locally"), ("receipt_present", "measured_locally"),
   ("receipt_signature", "measured_locally"), ("nonce_match", "measured_locally"),
   ("request_binding", "measured_locally"), ("response_binding", "measured_locally"),
   ("attempt_match", "measured_locally"), ("tool_policy", "measured_locally"),
   ("model_hash_reference", "signed_self_report"), ("route_allowed", "signed_self_report"),
   ("M_authority", "measured_locally"), ("R_authority", "measured_locally")]

structure Check where
  result : Outcome
  reason : String
  basis : String

/-- The checks by name, in the order they were first made. -/
abbrev Checks := List (String × Check)

def put : Checks → String → Check → Checks
  | [], name, c => [(name, c)]
  | (n, d) :: rest, name, c => if n = name then (n, c) :: rest else (n, d) :: put rest name c

/-- A check by this name with the basis listed for it. -/
def check (name : String) (result : Outcome) (reason : String) : String × Check :=
  (name, { result, reason, basis := (checkBasis.lookup name).getD "" })

def passOr (ok : Bool) : Outcome := if ok then .pass else .fail

structure Gate where
  mode : Mode
  trustedModelKeys : List (Value × Bytes)
  referenceModelHashes : Dict
  allowToolDirectives : Bool := false

variable (K : Primitives) (gate : Gate)

/-- `actual_model not in allowed_models or fallback_policy == "none"`. -/
def routeForbidden (contract : Dict) (actualModel : Value) : Py Bool := do
  if ← isIn actualModel (← getItem contract "allowed_models") then
    pure ((← getItem contract "fallback_policy").eq (.str "none"))
  else pure true

/-- The relay's own statement that it fell back. -/
def fallbackDeclared : Option SignedStatement → Bool
  | some relay => (getOr relay.payload "policy_decision").eq (.str "fallback")
  | none => false

def routeCheck (contract : Dict) (actualModel : Value) (relay : Option SignedStatement) :
    Py (String × Check) := do
  if actualModel.isNone then pure (check "route_allowed" .na "실제 모델 정보 없음")
  else if actualModel.eq (← getItem contract "requested_model") then
    pure (check "route_allowed" .pass "요청한 모델")
  else if ← routeForbidden contract actualModel then
    pure (check "route_allowed" .fail ("허용되지 않은 모델 " ++ text K actualModel))
  else
    pure (check "route_allowed" (passOr (fallbackDeclared relay))
      (if fallbackDeclared relay then "사전 승인된 폴백, 중개자 선언 확인"
       else "허용 모델이지만 폴백 선언 없음 (숨은 라우팅)"))

/-- `{c for t, c in expected.items() if t in allowed}`, whose members must be hashable. -/
def expectedCommits (allowed : Value) : Dict → Py (List Value)
  | [] => .ok []
  | (t, c) :: rest => do
    if ← isIn t allowed then
      if c.hashable then pure (c :: (← expectedCommits allowed rest)) else throw .typeError
    else expectedCommits allowed rest

/-- `{contract["req_commit"]} if "identity" in allowed else set()`. -/
def ownCommit (contract : Dict) (allowed : Value) : Py (List Value) := do
  if ← isIn (.str identity) allowed then
    let commit ← getItem contract "req_commit"
    if commit.hashable then pure [commit] else throw .typeError
  else pure []

def approvedSet (contract expected : Dict) : Py (List Value) := do
  let allowed ← getItem contract "allowed_request_transforms"
  pure ((← ownCommit contract allowed) ++ (← expectedCommits allowed expected))

/-- Some allowed transform is neither the identity nor one with an expected commitment. -/
def anyUnexpected (expected : Dict) : List Value → Py Bool
  | [] => .ok false
  | t :: rest =>
    if t.eq (.str identity) then anyUnexpected expected rest
    else if !t.hashable then .error .typeError
    else if (find expected t).isSome then anyUnexpected expected rest
    else .ok true

def requestBinding (contract expected m : Dict) : Py (String × Check) := do
  let approved ← approvedSet contract expected
  let seen := getOr m "request_commit"
  if !seen.hashable then throw .typeError
  else if memberOf seen approved then
    pure (check "request_binding" .pass "M 이 받은 요청 == 내가 보낸 요청(승인 변환 포함)")
  else if ← anyUnexpected expected
      (← (← getItem contract "allowed_request_transforms").iterate) then
    pure (check "request_binding" .na "재계산 불가한 변환을 계약이 허용함")
  else pure (check "request_binding" .fail "M 이 받은 요청 != 내가 보낸 요청 (중개자 변조 후보)")

def modelHashReference (m : Dict) : Py (String × Check) := do
  let model := (find m (.str "model_id")).getD (.str "")
  let ref := (← lookup gate.referenceModelHashes model).getD .null
  if ref.isNone then pure (check "model_hash_reference" .na "기준 해시 미등록 모델")
  else
    let same := (getOr m "model_hash").eq ref
    pure (check "model_hash_reference" (passOr same)
      (if same then "기준 해시 일치" else "기준 해시 불일치"))

/-- A receipt field that must equal a value the user holds. -/
def compared (name : String) (seen expected : Value) (same different : String) : String × Check :=
  check name (passOr (seen.eq expected)) (if seen.eq expected then same else different)

/-- The checks of a receipt whose signature was verified. -/
def signedChecks (contract expected : Dict) (receivedCommit : Value) (m : Dict)
    (relay : Option SignedStatement) : Py Checks := do
  let nonce ← getItem contract "nonce"
  let request ← requestBinding contract expected m
  let attempt ← getItem contract "attempt_id"
  let model ← modelHashReference gate m
  let route ← routeCheck K contract (getOr m "model_id") relay
  pure [compared "nonce_match" (getOr m "eat_nonce") nonce "eat_nonce == 계약 nonce"
          "eat_nonce 가 없거나 다름 (재전송·nonce 제거 후보)",
        request,
        compared "response_binding" (getOr m "response_commit") receivedCommit
          "M 이 서명한 응답 == 받은 응답" "M 이 서명한 응답 != 받은 응답 (변조 후보)",
        compared "attempt_match" (getOr m "attempt_id") attempt "attempt_id 일치"
          "다른 시도의 영수증",
        model, route]

def unchecked (names : List String) (reason : String) : Checks :=
  names.map fun name => check name .na reason

/-- A trusted key for the receipt's kid verifies its signature. -/
def signatureOk (receipt : SignedStatement) : Py Bool := do
  match ← lookup gate.trustedModelKeys receipt.kid with
  | none => pure false
  | some publicKey => receipt.verifyWith K publicKey

/-- What the receipt says is compared only once its signature holds. -/
def verifiedChecks (contract expected : Dict) (receivedCommit : Value)
    (receipt : SignedStatement) (relay : Option SignedStatement) : Bool → Py Checks
  | true => signedChecks K gate contract expected receivedCommit receipt.payload relay
  | false => .ok (unchecked ["nonce_match", "request_binding", "response_binding",
      "attempt_match", "model_hash_reference", "route_allowed"] "영수증 서명 미검증")

def receiptChecks (contract expected : Dict) (receivedCommit : Value)
    (receipt relay : Option SignedStatement) : Py Checks :=
  match receipt with
  | none => .ok (check "receipt_present" .fail
        "모델 영수증이 응답에 동봉되지 않음 (M 비협조 또는 R 이 제거)" ::
      unchecked ["receipt_signature", "nonce_match", "request_binding", "response_binding",
        "attempt_match", "model_hash_reference"] "영수증 없음")
  | some receipt => do
    let ok ← signatureOk K gate receipt
    let signature := check "receipt_signature" (passOr ok)
      (if ok then "신뢰 모델 키로 검증됨" else "신뢰 모델 키로 검증되지 않음")
    let rest ← verifiedChecks K gate contract expected receivedCommit receipt relay ok
    pure (check "receipt_present" .pass "동봉됨" :: signature :: rest)

/-- Without a receipt the relay's own word about the route is all there is. -/
def relayRoute (contract : Dict) (receipt relay : Option SignedStatement) : Py Checks :=
  match receipt, relay with
  | some _, _ => .ok []
  | none, some r => do pure [← routeCheck K contract (getOr r.payload "upstream_model") (some r)]
  | none, none => .ok [check "route_allowed" .na "경로를 보고한 진술 없음"]

/-- `response_body is not None and response_body.get("tool_call")`, read as one value. -/
def toolCall : Value → Py Value
  | .null => .ok .null
  | responseBody => responseBody.get "tool_call" .null

def toolPolicy (responseBody : Value) : Py (String × Check) := do
  let call ← toolCall responseBody
  if call.isNone then pure (check "tool_policy" .pass "도구 지시 없음")
  else if gate.allowToolDirectives then pure (check "tool_policy" .pass "도구 지시 허용 정책")
  else pure (check "tool_policy" .fail
    ("응답이 도구 실행을 지시함 (" ++ text K call ++ ") — 계약은 도구 실행을 허용하지 않음"))

/-- `local_checks(...)`; an absent `expected_request_commits` is an empty one. -/
def localChecks (contract : Dict) (receivedCommit responseBody : Value)
    (receipt relay : Option SignedStatement) (now : Int) (expected : Dict) : Py Checks := do
  let fresh ← less true (.int now) (← getItem contract "expires_at")
  let expiry := check "not_expired" (passOr fresh)
    (if fresh then "유효기간 내" else "계약 만료 후 수신")
  let ofReceipt ← receiptChecks K gate contract expected receivedCommit receipt relay
  let route ← relayRoute K contract receipt relay
  let tool ← toolPolicy K gate responseBody
  pure (expiry :: (ofReceipt ++ route ++ [tool]))

inductive Action where
  | accept
  | acceptUnverified
  | quarantine
  | reject
  | rejectTimeout
  deriving DecidableEq

def Action.text : Action → String
  | .accept => "accept"
  | .acceptUnverified => "accept_unverified"
  | .quarantine => "quarantine"
  | .reject => "reject"
  | .rejectTimeout => "reject_timeout"

def requiredLocalChecks : List String :=
  ["receipt_present", "request_binding", "response_binding", "nonce_match"]

structure GateDecision where
  mode : Mode
  action : Action
  reasons : List String
  localChecks : Checks
  verdictStatus : Value
  receivedAt : Int
  decidedAt : Int
  consumedAt : Option Int
  waitedMs : Int

def named (checks : Checks) (result : Outcome) : List String :=
  (checks.filter fun x => decide (x.2.result = result)).map Prod.fst

/-- The required checks that could not be evaluated. -/
def openRequired (checks : Checks) : List String :=
  (named checks .na).filter requiredLocalChecks.contains

def decideAction (checks : Checks) (verdictStatus : Value) (deadlineHit : Bool) :
    Action × List String :=
  let fails := named checks .fail
  let nas := openRequired checks
  match gate.mode with
  | .observe => (.acceptUnverified, "관찰 모드: 검증 결과와 무관하게 수용" ::
      (if fails.isEmpty then [] else ["로컬 검증 실패 항목: " ++ ", ".intercalate fails]))
  | mode =>
    if !fails.isEmpty then (.quarantine, ["로컬 검증 실패: " ++ ", ".intercalate fails])
    else if !nas.isEmpty then (.quarantine, ["로컬 증거 부족: " ++ ", ".intercalate nas])
    else if mode = .protect then
      (.accept, "로컬 검증 통과 (모델 영수증·nonce·응답 결합·경로)" ::
        (if verdictStatus.isNone then [] else ["T 판정(참고): " ++ text K verdictStatus]))
    else if verdictStatus.eq (.str "passed") then (.accept, ["로컬 검증 통과 + T 판정 passed"])
    else if verdictStatus.eq (.str "failed") then (.reject, ["T 판정 failed"])
    else if deadlineHit then (.rejectTimeout,
      ["기한 내 T 판정을 얻지 못함 (T 장애·지연) → 명시적 거부. 승인된 대체 경로는 미구현"])
    else (.reject, ["T 판정 " ++ K.repr verdictStatus ++ " 은 수용 근거가 아님"])

/-- `decide(...)`: in observe mode the response was used on receipt, otherwise only an
accepted one is used, now. -/
def decideGate (checks : Checks) (receivedAt now : Int) (verdictStatus : Value)
    (deadlineHit : Bool) : GateDecision :=
  let (action, reasons) := decideAction K gate checks verdictStatus deadlineHit
  { mode := gate.mode, action, reasons, localChecks := checks, verdictStatus, receivedAt,
    decidedAt := now,
    consumedAt := match action with
      | .accept => some now
      | .acceptUnverified => some receivedAt
      | _ => none,
    waitedMs := if gate.mode = .observe then 0 else now - receivedAt }

end UserGate
