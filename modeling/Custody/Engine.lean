import Custody.Discrepancies

/-!
# The reconciliation engine

Registered statements and the user's private evidence in, one verdict out. The
third party and every auditor run this same function.
-/

namespace Engine

open PyValue HexBytes CanonicalJson Commitments Statements Evidence Equations Discrepancies

def threatModelTm1 : String :=
  "TM1: U 집행 모듈과 M 입출력 관측은 정직, R 은 악성일 수 있음. R+M 공모·T 침해는 별도 실험군"

/-- `REQUIRED_FOR_PASS`. -/
def requiredForPass : List EqId := [.e1, .e4, .e5, .e8, .e9, .e10, .e11, .e12]

/-- A log entry as the engine reads it. -/
structure LogEntry where
  index : Int
  registeredAt : Int
  statement : SignedStatement

inductive Field where
  | contract
  | relay
  | receipt
  | observation
  | manifest
  deriving DecidableEq

/-- `_CT_TO_FIELD`. -/
def ctToField : List (Value × Field) :=
  [(.str ctContract, .contract), (.str ctRelay, .relay), (.str ctReceipt, .receipt),
   (.str ctObservation, .observation), (.str ctManifest, .manifest)]

/-- `setattr(ev, field_name, stmt)`: a later statement of a type replaces an earlier one. -/
def setField (ev : EvidenceSet) (s : SignedStatement) : Field → EvidenceSet
  | .contract => { ev with contract := some s }
  | .relay => { ev with relay := some s }
  | .receipt => { ev with receipt := some s }
  | .observation => { ev with observation := some s }
  | .manifest => { ev with manifest := some s }

structure ReconciliationEngine where
  /-- kid → (iss, public key) -/
  trustedKeys : List (Value × Value × Bytes)
  referenceModelHashes : Dict
  policyHash : String
  trustKeysVersion : String
  /-- iss → the content types it may issue -/
  issuerContentTypes : List (Value × List Value)
  lateThresholdMs : Int := 1000

variable (K : Primitives) (engine : ReconciliationEngine)

def authorized (iss contentType : Value) : Py Bool := do
  pure (memberOf contentType ((← lookup engine.issuerContentTypes iss).getD []))

/-- Signed with a trusted key that is bound to the issuer named. -/
def verifies (s : SignedStatement) : Py Bool := do
  match ← lookup engine.trustedKeys s.kid with
  | none => pure false
  | some (iss, publicKey) => if iss.eq s.iss then s.verifyWith K publicKey else pure false

def refOf (s : SignedStatement) (logIndex registeredAt : Option Int) (signatureValid : Bool) :
    Py StatementRef := do
  let statementHash ← s.statementHash K
  pure { contentType := s.contentType, iss := s.iss, kid := s.kid, statementHash, logIndex,
         registeredAt, signatureValid }

def gatherEntry (ev : EvidenceSet) (e : LogEntry) : Py EvidenceSet := do
  let valid ← verifies K engine e.statement
  let ref ← refOf K e.statement (some e.index) (some e.registeredAt) valid
  if !valid then
    pure { ev with invalidSignatures := ev.invalidSignatures ++ [ref] }
  else
    let permitted ← authorized engine e.statement.iss e.statement.contentType
    if !permitted then
      pure { ev with unauthorizedIssuers := ev.unauthorizedIssuers ++ [ref] }
    else
      match ← lookup ctToField e.statement.contentType with
      | none => pure ev
      | some f => pure (setField { ev with refs := ev.refs ++ [ref] } e.statement f)

/-- `except (KeyError, TypeError, ValueError)`. -/
def caught : PyErr → Bool
  | .keyError => true
  | .typeError => true
  | .valueError _ | .unicodeDecodeError | .nonAsciiKey _ _ => true
  | _ => false

def tryRead {A : Type} : Py A → Py (Option A)
  | .ok a => .ok (some a)
  | .error e => if caught e then .ok none else .error e

/-- A presented copy counts when it is a receipt its issuer was entitled to sign. -/
def acceptPresented (ev : EvidenceSet) (pr : SignedStatement) : Py EvidenceSet := do
  if !pr.contentType.eq (.str ctReceipt) then pure ev
  else
    let valid ← verifies K engine pr
    if !valid then pure ev
    else
      let permitted ← authorized engine pr.iss pr.contentType
      if !permitted then pure ev
      else
        let ref ← refOf K pr none none true
        pure { ev with receipt := some pr, receiptSource := .presentedToUser,
                       refs := ev.refs ++ [ref] }

/-- Without a registered receipt, the copy shown to the user stands in for it. -/
def addPresented (ev : EvidenceSet) : Py EvidenceSet :=
  let presented := field ev.o "presented_receipt"
  if ev.receipt.isSome || !presented.truthy then .ok ev
  else do
    match ← tryRead (SignedStatement.fromDict presented) with
    | none => pure ev
    | some pr => acceptPresented K engine ev pr

def settleSource (ev : EvidenceSet) : EvidenceSet :=
  if ev.receipt.isNone then { ev with receiptSource := .none } else ev

def startEvidence (sub : Value) (privateEvidence : Option PrivateEvidence) (now : Int) :
    EvidenceSet :=
  { sub, privateEvidence, referenceModelHashes := engine.referenceModelHashes, now }

def gather (sub : Value) (entries : List LogEntry) (privateEvidence : Option PrivateEvidence)
    (now : Int) : Py EvidenceSet := do
  let ev ← entries.foldlM (gatherEntry K engine) (startEvidence engine sub privateEvidence now)
  let ev ← addPresented K engine ev
  pure (settleSource ev)

inductive Status where
  | passed
  | failed
  | insufficientEvidence
  deriving DecidableEq

def Status.text : Status → String
  | .passed => "passed"
  | .failed => "failed"
  | .insufficientEvidence => "insufficient_evidence"

theorem Status.text_injective : ∀ a b : Status, a.text = b.text → a = b := by
  intro a b
  cases a <;> cases b <;> decide

structure Verdict where
  attemptId : Value
  status : Status
  establishedAssurance : String
  cooperationSet : String
  completeness : Completeness
  equations : Results
  discrepancies : List Discrepancy
  evidenceRefs : List StatementRef
  invalidSignatureRefs : List StatementRef
  unauthorizedIssuerRefs : List StatementRef
  policyHash : String
  trustKeysVersion : String
  transformDefinitions : Dict
  notes : List String

def Verdict.toDict (v : Verdict) : Dict :=
  fields [("profile", .str (profileVersion ++ "/verdict")), ("attempt_id", v.attemptId),
    ("verification_status", .str v.status.text),
    ("established_assurance", .str v.establishedAssurance),
    ("deployment_mode", .str deploymentMode), ("cooperation_set", .str v.cooperationSet),
    ("completeness", .str v.completeness.status),
    ("completeness_detail", v.completeness.toDict),
    ("equations", .dict (fields (EqId.all.map fun k => (k.name, (v.equations k).toDict)))),
    ("discrepancies", .list (v.discrepancies.map Discrepancy.toDict)),
    ("evidence_refs", .list (v.evidenceRefs.map StatementRef.toDict)),
    ("invalid_signature_refs", .list (v.invalidSignatureRefs.map StatementRef.toDict)),
    ("unauthorized_issuer_refs", .list (v.unauthorizedIssuerRefs.map StatementRef.toDict)),
    ("policy_hash", .str v.policyHash), ("checker_version", .str checkerVersion),
    ("trust_keys_version", .str v.trustKeysVersion),
    ("transform_definitions", .dict v.transformDefinitions),
    ("threat_model", .str threatModelTm1), ("notes", .ofStrings v.notes)]

def invalidSignature (ref : StatementRef) : Discrepancy :=
  { code := "D-SIG-INVALID", severity := .contradiction, equations := [],
    attribution := .str (text K ref.iss ++ " (kid " ++ text K ref.kid ++ ")"),
    attributionBasis :=
      "신뢰 키로 검증되지 않는 서명. 위조·키 교체·손상 중 어느 것인지는 별도 조사",
    detail := fields [("content_type", ref.contentType),
      ("statement_hash", .str ref.statementHash)] }

def issuerUnauthorized (ref : StatementRef) : Py Discrepancy := do
  let allowed := (← lookup engine.issuerContentTypes ref.iss).getD []
  pure { code := "D-ISSUER-UNAUTHORIZED", severity := .violation, equations := [],
         attribution := ref.iss,
         attributionBasis := "서명은 유효하나 이 발행자는 이 유형의 진술을 낼 권한이 없음. 다른 당사자의 " ++
           "역할을 사칭한 진술이므로 증거로 쓰지 않는다",
         detail := fields [("content_type", ref.contentType),
           ("statement_hash", .str ref.statementHash), ("allowed", .list allowed)] }

def readHash (presented : Value) : Py String := do
  (← SignedStatement.fromDict presented).statementHash K

/-- The copy shown to the user differs from the receipt that was registered. -/
def presentedDiffers (ev : EvidenceSet) : Py (List Discrepancy) :=
  let presented := field ev.o "presented_receipt"
  match ev.receipt with
  | none => .ok []
  | some receipt =>
    if !presented.truthy || ev.receiptSource ≠ .registered then .ok []
    else do
      match ← tryRead (readHash K presented) with
      | none => pure []
      | some shown =>
        let registered ← receipt.statementHash K
        if shown = registered then pure []
        else pure [{ code := "D-RECEIPT-PRESENTED-DIFFERS", severity := .contradiction,
                     equations := [], attribution := .str "R",
                     attributionBasis := "M 이 등록한 영수증과 R 이 사용자에게 보여 준 영수증이 다름",
                     detail := fields [("registered", .str registered),
                       ("presented", .str shown)] }]

def gap (completeness : Completeness) : List Discrepancy :=
  if completeness.status = "gap" then
    [{ code := "D-GAP", severity := .observation, equations := [],
       attribution := .str "관측 상태 (귀속 없음)",
       attributionBasis := "합의된 증거 미등록. 누락·회피·장애 어느 것인지 이 자료만으로는 알 수 없음",
       detail := fields [("missing", .ofStrings completeness.missing)] }]
  else []

def lateRef (clientTime : Value) (ref : StatementRef) : Py (List Value) :=
  match ref.registeredAt with
  | none => .ok []
  | some at_ => match number clientTime with
    | none => .error .typeError
    | some from_ =>
      .ok (if at_ - from_ > engine.lateThresholdMs then
        [.dict (fields [("content_type", ref.contentType), ("delay_ms", .int (at_ - from_))])]
      else [])

def lateRegistrations (ev : EvidenceSet) : Py (List Value) :=
  let clientTime := field ev.c "client_time"
  if clientTime.isNone then .ok []
  else do pure (← ev.refs.mapM (lateRef engine clientTime)).flatten

def late (items : List Value) : List Discrepancy :=
  if items.isEmpty then []
  else [{ code := "D-LATE", severity := .observation, equations := [],
          attribution := .str "관측 상태 (귀속 없음)",
          attributionBasis :=
            "등록 시각은 발생 시각의 상한이며, 지연에는 시계 차이와 자기 보고 오차가 섞여 있음",
          detail := fields [("late", .list items),
            ("threshold_ms", .int engine.lateThresholdMs)] }]

/-- `_status`. -/
def statusOf (eqs : Results) (discrepancies : List Discrepancy) : Status :=
  if discrepancies.any (fun d => d.severity.blames) then .failed
  else if EqId.all.any fun k => decide ((eqs k).result = .fail) then .failed
  else if requiredForPass.all fun k => decide ((eqs k).result = .pass) then .passed
  else .insufficientEvidence

def attemptIdOf (ev : EvidenceSet) : Value :=
  match [ev.c, ev.o, ev.m, ev.r].find? fun payload => (field payload "attempt_id").truthy with
  | some payload => field payload "attempt_id"
  | none => .str "unknown"

def notesOf (eqs : Results) (ev : EvidenceSet) : List String :=
  let open_ := EqId.all.filter fun k => decide ((eqs k).result = .na)
  (if open_.isEmpty then [] else ["평가 불가 등식: " ++
    ", ".intercalate (open_.map fun k => k.name ++ "(" ++ (eqs k).reason ++ ")")]) ++
  (if ev.receipt.isNone then
    ["추론 영수증이 없어 종단 응답 무결성(E10)을 확립할 수 없음. 진술 간 모순만 검사함"]
   else if ev.receiptSource = .presentedToUser then
    ["이 요청에 등록된 영수증이 없어, 중개자가 사용자에게 제시한 영수증 사본(서명 검증됨)을 근거로 검사함"]
   else []) ++
  (if ev.m.isSome then
    ["영수증 security_mode=evaluation, attestation=mock. TEE 출처를 주장하지 않음"] else []) ++
  ["아티팩트 해시 일치(E9)는 실행 일치가 아님. 등록 시각은 발생 시각의 상한임"]

def addDefinition (defs : Dict) (t : Value) : Py Dict := do
  match ← transformDefinitionHash K t with
  | some hash => pure (insert defs t (.str hash))
  | none => pure defs

/-- The definitions of the transforms the contract allows; an empty payload has none. -/
def transformDefinitions : Option Dict → Py Dict
  | some (x :: c) => do
    let allowed ← (← getItem (x :: c) "allowed_request_transforms").iterate
    allowed.foldlM (addDefinition K) []
  | _ => .ok []

def reconcile (ev : EvidenceSet) (expectedParties : List String) : Py Verdict := do
  let eqs ← evaluateEquations K ev
  let completeness ← assessCompleteness ev expectedParties
  let unauthorized ← ev.unauthorizedIssuers.mapM (issuerUnauthorized engine)
  let differs ← presentedDiffers K ev
  let lateItems ← lateRegistrations engine ev
  let discrepancies := classify eqs ev.presentParties ++
    ev.invalidSignatures.map (invalidSignature K) ++ unauthorized ++ differs ++
    gap completeness ++ late engine lateItems
  let status := statusOf eqs discrepancies
  let definitions ← transformDefinitions K ev.c
  pure { attemptId := attemptIdOf ev, status,
         establishedAssurance :=
           if status = .passed ∧ ev.receipt.isSome then "air-local" else "none",
         cooperationSet := ev.cooperationSet, completeness, equations := eqs, discrepancies,
         evidenceRefs := ev.refs, invalidSignatureRefs := ev.invalidSignatures,
         unauthorizedIssuerRefs := ev.unauthorizedIssuers, policyHash := engine.policyHash,
         trustKeysVersion := engine.trustKeysVersion, transformDefinitions := definitions,
         notes := notesOf eqs ev }

end Engine
