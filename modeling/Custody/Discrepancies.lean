import Custody.Equations

/-!
# Discrepancies and completeness

A failed equation becomes a coded discrepancy with an attribution and the trust
assumption that attribution rests on. Completeness only says whether the agreed
evidence was handed in.
-/

namespace Discrepancies

open PyValue Evidence Equations

inductive Severity where
  | violation
  | contradiction
  | observation
  deriving DecidableEq

def Severity.text : Severity → String
  | .violation => "violation"
  | .contradiction => "contradiction"
  | .observation => "observation"

def Severity.blames : Severity → Bool
  | .observation => false
  | _ => true

structure Discrepancy where
  code : String
  severity : Severity
  equations : List EqId
  attribution : Value
  attributionBasis : String
  detail : Dict := []

def discrepancyDocs : List (Value × String) :=
  [(.str "D-USER-SELF", "사용자 계약과 사용자 비공개 증거가 맞지 않음 (사용자 측 자료 문제)"),
   (.str "D-REQ-CONTRADICT", "요청에 대한 두 당사자의 진술이 모순"),
   (.str "D-REQ-UNAPPROVED", "M 이 받은 요청이 승인된 변환의 결과가 아님 (요청 변조)"),
   (.str "D-NONCE", "nonce 미전달·교체"),
   (.str "D-RESP-CONTRADICT", "응답에 대한 두 당사자의 진술이 모순"),
   (.str "D-RESP-UNAPPROVED", "사용자가 받은 응답이 M 이 서명한 응답과 다름 (응답 변조)"),
   (.str "D-ROUTE-UNAPPROVED", "허용되지 않은 모델·경로로 처리됨"),
   (.str "D-ROUTE-UNDECLARED", "허용 모델이지만 폴백을 선언하지 않음 (숨은 라우팅)"),
   (.str "D-MODEL-ART", "모델 아티팩트 해시가 기준값과 다름"),
   (.str "D-ATTEMPT-MISMATCH", "진술 간 attempt_id 불일치 (재전송·다른 시도의 응답 가능)"),
   (.str "D-EXPIRED", "계약 만료 후 처리"),
   (.str "D-SIG-INVALID", "서명 검증 실패 진술 존재"),
   (.str "D-ISSUER-UNAUTHORIZED", "발행자가 낼 권한이 없는 유형의 진술 (다른 당사자 역할 사칭)"),
   (.str "D-RECEIPT-PRESENTED-DIFFERS", "M 이 등록한 영수증과 R 이 사용자에게 보여 준 영수증이 다름"),
   (.str "D-GAP", "합의된 증거가 등록되지 않음 (결손)"),
   (.str "D-LATE", "등록 지연이 임계를 넘음")]

def Discrepancy.toDict (d : Discrepancy) : Value :=
  .dict (fields [("code", .str d.code), ("severity", .str d.severity.text),
    ("equations", .ofStrings (d.equations.map EqId.name)), ("attribution", d.attribution),
    ("attribution_basis", .str d.attributionBasis),
    ("description", .str ((find discrepancyDocs (.str d.code)).getD "")),
    ("detail", .dict d.detail)])

def tm1 : String := "TM1: U 집행 모듈과 M 입출력 관측은 정직, R 은 악성일 수 있음"

/-- A violation of one equation, which keeps the equation's detail. -/
def violation (code : String) (eqs : Results) (k : EqId) (attribution basis : String) :
    Discrepancy :=
  { code, severity := .violation, equations := [k], attribution := .str attribution,
    attributionBasis := basis, detail := (eqs k).detail }

/-- Two parties' statements contradict each other; which one is wrong stays open. -/
def contradiction (code : String) (k : EqId) (attribution basis : String) : Discrepancy :=
  { code, severity := .contradiction, equations := [k], attribution := .str attribution,
    attributionBasis := basis }

/-- The discrepancy of a failed equation. -/
def ofFailed (eqs : Results) (hasM : Bool) : EqId → Discrepancy
  | .e1 => contradiction "D-USER-SELF" .e1 "U (증거 묶음)" "사용자 자신의 계약과 비공개 증거 비교"
  | .e2 => contradiction "D-REQ-CONTRADICT" .e2 "U 또는 R (U→R 구간)"
      "두 서명 진술의 모순만 확인. 어느 쪽이 거짓인지는 독립 관측 필요"
  | .e3 => contradiction "D-REQ-CONTRADICT" .e3 "R 또는 M (R→M 구간)" "두 서명 진술의 모순만 확인"
  | .e4 => if (eqs .e4).trustGrade = .self then
      violation "D-REQ-UNAPPROVED" eqs .e4 "R (자기 주장 기준)" "R 스스로 승인 밖 변환을 선언·기록함"
    else
      violation "D-REQ-UNAPPROVED" eqs .e4 "R"
        (tm1 ++ " — M 의 요청 관측이 정직하다는 가정 하에 R 에 귀속")
  | .e5 => violation "D-NONCE" eqs .e5 (if hasM then "R" else "R (자기 주장 기준)")
      (tm1 ++ " — nonce 는 U 가 발급하고 R 이 전달해야 함")
  | .e6 => contradiction "D-RESP-CONTRADICT" .e6 "R 또는 M (M→R 구간)" "두 서명 진술의 모순만 확인"
  | .e7 => contradiction "D-RESP-CONTRADICT" .e7 "R 또는 U (R→U 구간)" "두 서명 진술의 모순만 확인"
  | .e8 => violation
      (if (getOr (eqs .e8).detail "route_kind").eq (.str "undeclared_fallback") then
        "D-ROUTE-UNDECLARED" else "D-ROUTE-UNAPPROVED")
      eqs .e8 "R" (tm1 ++ " — 실제 모델은 M 영수증(또는 R 선언)에서, 승인 집합은 U 계약에서")
  | .e9 => violation "D-MODEL-ART" eqs .e9 "M 또는 R"
      "M 이 다른 아티팩트를 서명했거나 R 이 다른 M 으로 보냈을 수 있음"
  | .e10 => violation "D-RESP-UNAPPROVED" eqs .e10 "R"
      (tm1 ++ " — M 이 서명한 응답과 U 가 받은 응답이 다르므로 사이의 R 에 귀속. " ++
        "R·M 이 공모해 일치하는 거짓 진술을 내면 이 등식은 위반을 보지 못함")
  | .e11 => violation "D-ATTEMPT-MISMATCH" eqs .e11 "R"
      (tm1 ++ " — 다른 시도의 응답·영수증이 이 시도에 전달됨 (재전송 후보)")
  | .e12 => violation "D-EXPIRED" eqs .e12 "R (지연) 또는 정책"
      "만료는 계약 위반이지만 원인(지연·재전송)은 별도 조사"

/-- The order in which `classify` looks at the equations: E10 before E8. -/
def classifyOrder : List EqId :=
  [.e1, .e2, .e3, .e4, .e5, .e6, .e7, .e10, .e8, .e9, .e11, .e12]

theorem mem_classifyOrder (k : EqId) : k ∈ classifyOrder := by
  cases k <;> decide

def classify (eqs : Results) (presentParties : List String) : List Discrepancy :=
  (classifyOrder.filter fun k => decide ((eqs k).result = .fail)).map
    (ofFailed eqs (presentParties.contains "M"))

theorem ofFailed_blames (eqs : Results) (hasM : Bool) (k : EqId) :
    (ofFailed eqs hasM k).severity.blames = true := by
  cases k with
  | e4 =>
    by_cases self : (eqs .e4).trustGrade = .self
    · simp [ofFailed, self, violation, Severity.blames]
    · simp [ofFailed, self, violation, Severity.blames]
  | _ => rfl

/-- A failed equation always leaves a discrepancy that blames someone. -/
theorem classify_blames (eqs : Results) (parties : List String) :
    (∃ d ∈ classify eqs parties, d.severity.blames = true) ↔ ∃ k, (eqs k).result = .fail := by
  constructor
  · rintro ⟨d, member, -⟩
    obtain ⟨k, failed, -⟩ := List.mem_map.mp member
    exact ⟨k, by simpa using (List.mem_filter.mp failed).2⟩
  · rintro ⟨k, failed⟩
    refine ⟨_, List.mem_map_of_mem (a := k) ?_, ofFailed_blames _ _ k⟩
    exact List.mem_filter.mpr ⟨mem_classifyOrder k, by simpa using failed⟩

/-- `EXPECTED_BY_PARTY`, each kind of evidence with the field it is gathered in. -/
def expectedByParty : List (String × List (String × (EvidenceSet → Bool))) :=
  [("U", [("contract", fun ev => ev.contract.isSome),
      ("observation", fun ev => ev.observation.isSome)]),
   ("R", [("relay", fun ev => ev.relay.isSome)]),
   ("M", [("receipt", fun ev => ev.receipt.isSome)])]

def missingOf (ev : EvidenceSet) : List String → Py (List String)
  | [] => .ok []
  | party :: parties => match expectedByParty.lookup party with
    | none => .error .keyError
    | some kinds => do
      let rest ← missingOf ev parties
      pure ((kinds.filter fun x => !x.2 ev).map (fun x => party ++ "." ++ x.1) ++ rest)

theorem expected_cases {party : String} {kinds : List (String × (EvidenceSet → Bool))}
    (known : expectedByParty.lookup party = some kinds) :
    (party = "U" ∧ kinds = [("contract", fun ev => ev.contract.isSome),
      ("observation", fun ev => ev.observation.isSome)]) ∨
    (party = "R" ∧ kinds = [("relay", fun ev => ev.relay.isSome)]) ∨
    (party = "M" ∧ kinds = [("receipt", fun ev => ev.receipt.isSome)]) := by
  obtain ⟨before, after, split, -⟩ := List.lookup_eq_some_iff.mp known
  have member : (party, kinds) ∈ expectedByParty := by
    rw [split]
    exact List.mem_append_right _ List.mem_cons_self
  simpa [expectedByParty] using member

/-- What is missing depends only on which statements are there. -/
theorem missingOf_congr {ev ev' : EvidenceSet}
    (contract : ev'.contract = ev.contract) (observation : ev'.observation = ev.observation)
    (relay : ev'.relay = ev.relay) (receipt : ev'.receipt = ev.receipt) (parties : List String) :
    missingOf ev' parties = missingOf ev parties := by
  induction parties with
  | nil => rfl
  | cons party parties ih =>
    rw [missingOf, missingOf, ih]
    cases known : expectedByParty.lookup party with
    | none => rfl
    | some kinds =>
      have same : kinds.filter (fun x => !x.2 ev') = kinds.filter (fun x => !x.2 ev) := by
        obtain ⟨-, rfl⟩ | ⟨-, rfl⟩ | ⟨-, rfl⟩ := expected_cases known
        · simp only [List.filter_cons, List.filter_nil, contract, observation]
        · simp only [List.filter_cons, List.filter_nil, relay]
        · simp only [List.filter_cons, List.filter_nil, receipt]
      simp only [same]

structure Completeness where
  status : String
  expectedParties : List String
  presentParties : List String
  missing : List String
  relayRefused : Bool
  modelRefused : Bool
  note : String

def Completeness.toDict (x : Completeness) : Value :=
  .dict (fields [("status", .str x.status), ("expected_parties", .ofStrings x.expectedParties),
    ("present_parties", .ofStrings x.presentParties), ("missing", .ofStrings x.missing),
    ("relay_refused", .bool x.relayRefused), ("model_refused", .bool x.modelRefused),
    ("note", .str x.note)])

/-- `payload is not None and payload[k] == "refused"`. -/
def refused : Option Dict → String → Py Bool
  | none, _ => .ok false
  | some d, k => do pure ((← getItem d k).eq (.str "refused"))

def completenessStatus (missing : List String) (relayRefused modelRefused : Bool) :
    String × String :=
  if missing.isEmpty then ("complete", "합의된 증거가 모두 등록됨")
  else if relayRefused && missing.all (["M.receipt", "U.observation"].contains ·) then
    ("not_observable", "중개자가 요청을 거부했다고 선언했으므로 상위 호출 증거 부재는 정상일 수 있음. " ++
      "단, 실제 미실행을 확인한 것은 아님")
  else if modelRefused && missing.all (["U.observation"].contains ·) then
    ("not_observable", "모델 운영자가 실행 전 검사에서 거부함. 응답 수신 진술 부재는 정상")
  else ("gap", "합의된 증거 일부가 등록되지 않음. 결손은 위반 판정이 아니라 관측 상태다")

def assessCompleteness (ev : EvidenceSet) (expectedParties : List String) : Py Completeness := do
  let missing ← missingOf ev expectedParties
  let relayRefused ← refused ev.r "policy_decision"
  let modelRefused ← refused ev.m "decision"
  let (status, note) := completenessStatus missing relayRefused modelRefused
  pure { status, expectedParties, presentParties := ev.presentParties, missing, relayRefused,
         modelRefused, note }

end Discrepancies
