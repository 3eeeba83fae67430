import Custody.Evidence

/-!
# The twelve hop equations

Each compares fields of the statements present, and passes, fails, or says why
it cannot be evaluated. Fields are read as they come, so a payload of the wrong
shape raises here.
-/

namespace Equations

open PyValue Commitments Evidence

inductive EqId where
  | e1 | e2 | e3 | e4 | e5 | e6 | e7 | e8 | e9 | e10 | e11 | e12
  deriving DecidableEq

namespace EqId

def all : List EqId := [e1, e2, e3, e4, e5, e6, e7, e8, e9, e10, e11, e12]

theorem mem_all (k : EqId) : k ∈ all := by
  cases k <;> decide

def name : EqId → String
  | e1 => "E1" | e2 => "E2" | e3 => "E3" | e4 => "E4" | e5 => "E5" | e6 => "E6"
  | e7 => "E7" | e8 => "E8" | e9 => "E9" | e10 => "E10" | e11 => "E11" | e12 => "E12"

theorem name_injective : ∀ j k : EqId, j.name = k.name → j = k := by
  intro j k
  cases j <;> cases k <;> decide

def title : EqId → String
  | e1 => "사용자 자기 정합" | e2 => "U→R 구간" | e3 => "R→M 진술 일치"
  | e4 => "승인된 요청 변환" | e5 => "nonce 전파" | e6 => "M→R 진술 일치"
  | e7 => "R→U 진술 일치" | e8 => "승인된 경로" | e9 => "모델 아티팩트"
  | e10 => "종단 응답 결합" | e11 => "시도 결합" | e12 => "계약 유효기간"

def hop : EqId → String
  | e1 => "U" | e2 => "U→R" | e3 => "R→M" | e4 => "R" | e5 => "R" | e6 => "M→R"
  | e7 => "R→U" | e8 => "R" | e9 => "M" | e10 => "M⇢U" | e11 => "all" | e12 => "U"

end EqId

inductive Res where
  | pass
  | fail
  | na
  deriving DecidableEq

def Res.text : Res → String
  | .pass => "pass"
  | .fail => "fail"
  | .na => "not_evaluable"

theorem Res.text_injective : ∀ a b : Res, a.text = b.text → a = b := by
  intro a b
  cases a <;> cases b <;> decide

/-- Whose word a result rests on. -/
inductive Grade where
  | ext
  | self
  | salt
  deriving DecidableEq

def Grade.text : Grade → String
  | .ext => "externally_corroborable"
  | .self => "self_asserted"
  | .salt => "third_party_salted"

structure EqResult where
  id : EqId
  result : Res
  reason : String
  compared : List String := []
  trustGrade : Grade := .ext
  detail : Dict := []

def EqResult.toDict (e : EqResult) : Value :=
  .dict (fields [("result", .str e.result.text), ("reason", .str e.reason),
    ("compared", .ofStrings e.compared), ("trust_grade", .str e.trustGrade.text),
    ("detail", .dict e.detail), ("title", .str e.id.title), ("hop", .str e.id.hop)])

def na (id : EqId) (reason : String) (grade : Grade) : EqResult :=
  { id, result := .na, reason, trustGrade := grade }

def passIf (ok : Bool) : Res := if ok then .pass else .fail

/-- `_cmp`: two reported values agree when neither is null and they are equal. -/
def cmp (id : EqId) (a b : Value) (label : String) (grade : Grade) (detail : Dict) : EqResult :=
  let ok := !a.isNone && !b.isNone && a.eq b
  { id, result := passIf ok, reason := if ok then "일치" else "불일치",
    compared := [label], trustGrade := grade, detail }

variable (K : Primitives)

def evalE1 (ev : EvidenceSet) : Py EqResult :=
  match ev.c, ev.privateEvidence with
  | none, _ => .ok (na .e1 "요청 계약 없음" .salt)
  | some _, none => .ok (na .e1 "사용자 비공개 증거(솔트·요청 해시) 없음" .salt)
  | some c, some p => do
    let expected ← commitHex K p.salt p.requestHash
    let req ← getItem c "req_commit"
    pure (cmp .e1 req (.str expected) "U.req_commit vs commit(salt, H(request))" .salt [])

def evalE2 (ev : EvidenceSet) : Py EqResult :=
  match ev.c, ev.r with
  | some c, some r => do
    let inCommit ← getItem r "in_commit"
    let req ← getItem c "req_commit"
    pure (cmp .e2 inCommit req "R.in_commit vs U.req_commit" .ext [])
  | _, _ => .ok (na .e2 "계약 또는 중계 진술 없음" .ext)

def evalE3 (ev : EvidenceSet) : Py EqResult :=
  match ev.r, ev.m with
  | some r, some m =>
    if (getOr m "request_commit").isNone then
      .ok (na .e3 "중계 진술 또는 추론 영수증 없음" .ext)
    else do
      let out ← getItem r "out_commit"
      let seen ← getItem m "request_commit"
      pure (cmp .e3 out seen "R.out_commit vs M.request_commit" .ext [])
  | _, _ => .ok (na .e3 "중계 진술 또는 추론 영수증 없음" .ext)

/-- `r[k] if r is not None else None`. -/
def itemOrNull : Option Dict → String → Py Value
  | some d, k => getItem d k
  | none, _ => .ok .null

/-- The request commitment the model side saw: the model's word where there is
one, else the relay's own. -/
def requestSeen (ev : EvidenceSet) : Py (Option (Value × String × Grade)) :=
  match ev.m, ev.r with
  | some m, r =>
    if (getOr m "request_commit").isNone then
      match r with
      | some r => do
        pure (some (← getItem r "out_commit", "R.out_commit (self-asserted)", .self))
      | none => .ok none
    else do pure (some (← getItem m "request_commit", "M.request_commit", .ext))
  | none, some r => do
    pure (some (← getItem r "out_commit", "R.out_commit (self-asserted)", .self))
  | none, none => .ok none

def addExpected (allowed : List Value) (approved : Dict) (x : Value × Value) : Dict :=
  if memberOf x.1 allowed then insert approved x.1 x.2 else approved

def approvedIdentity (c : Dict) (allowed : List Value) : Py Dict :=
  if memberOf (.str identity) allowed then do
    pure [(.str identity, ← getItem c "req_commit")]
  else .ok []

/-- The commitment of each allowed transform's result, by transform name. -/
def approvedRequests (c : Dict) (allowed : List Value) (p : Option PrivateEvidence) :
    Py Dict := do
  let base ← approvedIdentity c allowed
  match p with
  | none => pure base
  | some p => pure (p.expectedRequestCommits.foldl (addExpected allowed) base)

def unverifiable : List Value → Py (List Value)
  | [] => .ok []
  | t :: ts => do
    let known ← isRecomputableRequestTransform t
    let rest ← unverifiable ts
    pure (if known then rest else t :: rest)

/-- What is left of `_eval_request_transform` when no approved result matches. -/
def unmatchedTransform (allowed : List Value) (withPrivate : Bool) (source : String)
    (grade : Grade) (detail : Dict) : Py EqResult := do
  let unknown ← unverifiable allowed
  let compared := [source ++ " vs approved set"]
  if !unknown.isEmpty then
    pure { id := .e4, result := .na, compared, trustGrade := grade, detail,
           reason := "허용 변환 " ++ K.repr (.list unknown) ++
             " 은 재계산 불가 (선언 확인·관계 미검증)" }
  else if !withPrivate && allowed.any (fun t => !t.eq (.str identity)) then
    -- without the salt the expected commitments cannot be recomputed: no evidence of a violation
    pure { id := .e4, result := .na, compared, trustGrade := .salt,
           detail := detail ++
             fields [("missing", .str "user private evidence (expected_request_commits)")],
           reason := "승인 변환의 기대 커밋을 재계산할 사용자 비공개 증거가 없음" }
  else
    pure { id := .e4, result := .fail, compared, trustGrade := grade, detail,
           reason := "M 이 받은 요청이 승인된 어떤 변환의 결과와도 다름" }

def judgeTransform (c : Dict) (allowed : List Value) (p : Option PrivateEvidence)
    (declared actual : Value) (source : String) (grade : Grade) : Py EqResult := do
  let approved ← approvedRequests c allowed p
  let detail := fields [("declared_transform", declared), ("allowed", .list allowed),
    ("source", .str source)]
  let compared := [source ++ " vs approved set"]
  if !declared.isNone && !memberOf declared allowed then
    pure { id := .e4, result := .fail, compared, trustGrade := grade, detail,
           reason := "선언된 변환 " ++ K.repr declared ++ " 은 계약이 허용하지 않음" }
  else match (approved.filter fun x => x.2.eq actual).map Prod.fst with
    | first :: more =>
      let note := if !declared.isNone && !memberOf declared (first :: more) then
          fields [("note", .str ("결과는 " ++ text K first ++ " 와 일치하나 선언은 " ++
            text K declared))]
        else []
      pure { id := .e4, result := .pass, compared, trustGrade := grade,
             detail := detail ++ fields [("matched_transform", first)] ++ note,
             reason := "승인된 변환 " ++ text K first ++ " 의 재계산 결과와 일치" }
    | [] => unmatchedTransform K allowed p.isSome source grade detail

/-- `_eval_request_transform`. -/
def evalE4 (ev : EvidenceSet) : Py EqResult :=
  match ev.c with
  | none => .ok (na .e4 "요청 계약 없음" .ext)
  | some c => do
    match ← requestSeen ev with
    | none => pure (na .e4 "M 이 받은 요청을 보고한 당사자 없음" .ext)
    | some (actual, source, grade) =>
      let allowed ← (← getItem c "allowed_request_transforms").iterate
      let declared ← itemOrNull ev.r "request_transform_id"
      judgeTransform K c allowed ev.privateEvidence declared actual source grade

/-- One party's report of the nonce, and the objection if it is not the contract's. -/
def nonceReport (label objection : String) (reported nonce : Value) : String × List String :=
  (label, if reported.eq nonce then [] else [objection])

def evalE5 (ev : EvidenceSet) : Py EqResult :=
  match ev.c with
  | none => .ok (na .e5 "요청 계약 없음" .ext)
  | some c =>
    if ev.m.isNone && ev.r.isNone then .ok (na .e5 "nonce 를 보고한 당사자 없음" .ext)
    else do
      let nonce ← getItem c "nonce"
      let reports :=
        (ev.m.toList.map fun m => nonceReport "M.eat_nonce vs U.nonce"
          "M 영수증의 eat_nonce 가 없거나 다름" (getOr m "eat_nonce") nonce) ++
        (ev.r.toList.map fun r => nonceReport "R.nonce_forwarded vs U.nonce"
          "R 이 전달했다고 적은 nonce 가 없거나 다름" (getOr r "nonce_forwarded") nonce)
      let why := reports.flatMap Prod.snd
      pure { id := .e5, result := passIf why.isEmpty, compared := reports.map Prod.fst,
             reason := if why.isEmpty then "일치" else "; ".intercalate why }

def evalE6 (ev : EvidenceSet) : Py EqResult :=
  match ev.r, ev.m with
  | some r, some m =>
    if (getOr m "response_commit").isNone || (getOr r "resp_in_commit").isNone then
      .ok (na .e6 "중계 진술 또는 추론 영수증(응답) 없음" .ext)
    else do
      let signed ← getItem m "response_commit"
      let reported ← getItem r "resp_in_commit"
      pure (cmp .e6 signed reported "M.response_commit vs R.resp_in_commit" .ext [])
  | _, _ => .ok (na .e6 "중계 진술 또는 추론 영수증(응답) 없음" .ext)

def evalE7 (ev : EvidenceSet) : Py EqResult :=
  match ev.r, ev.o with
  | some r, some o =>
    if (getOr r "resp_out_commit").isNone then
      .ok (na .e7 "중계 진술 또는 사용자 수신 진술 없음" .ext)
    else do
      let sent ← getItem r "resp_out_commit"
      let received ← getItem o "resp_commit"
      pure (cmp .e7 sent received "R.resp_out_commit vs U.resp_commit" .ext [])
  | _, _ => .ok (na .e7 "중계 진술 또는 사용자 수신 진술 없음" .ext)

/-- The model that served the request, and who says so. -/
def modelSeen (ev : EvidenceSet) : Py (Option (Value × String × Grade)) :=
  match ev.m, ev.r with
  | some m, _ => do pure (some (← getItem m "model_id", "M.model_id", .ext))
  | none, some r => do
    pure (some (← getItem r "upstream_model", "R.upstream_model (self-asserted)", .self))
  | none, none => .ok none

/-- `r["policy_decision"] if r else None`, where an empty payload is false too. -/
def relayDecision : Option Dict → Py Value
  | some [] => .ok .null
  | some r => getItem r "policy_decision"
  | none => .ok .null

def routeKind (kind : String) : Dict := fields [("route_kind", .str kind)]

/-- The route of a model other than the one requested. -/
def judgeRoute (r : Option Dict) (allowed fallback actual : Value) (source : String)
    (grade : Grade) (detail : Dict) : Py EqResult := do
  let compared := [source ++ " vs U.allowed_models"]
  let fallbackDeclared := do
    match r with
    | some r => pure ((← getItem r "policy_decision").eq (.str "fallback"))
    | none => pure false
  if !(← isIn actual allowed) then
    let declared ← fallbackDeclared
    pure { id := .e8, result := .fail, compared, trustGrade := grade,
           detail := detail ++ routeKind (if declared then "declared_unapproved" else "undeclared"),
           reason := "허용되지 않은 모델 " ++ text K actual ++ " 로 처리됨 (" ++
             (if declared then "선언됨" else "미선언") ++ ")" }
  else if fallback.eq (.str "none") then
    pure { id := .e8, result := .fail, compared, trustGrade := grade,
           detail := detail ++ routeKind "fallback_forbidden",
           reason := "계약이 폴백을 허용하지 않음" }
  else if r.isNone then
    pure { id := .e8, result := .na, compared, trustGrade := grade,
           detail := detail ++ routeKind "fallback_undeclared_unknown",
           reason := "허용 모델이지만 폴백 선언(중계 진술)을 확인할 수 없음" }
  else if ← fallbackDeclared then
    pure { id := .e8, result := .pass, compared := compared ++ ["R.policy_decision"],
           trustGrade := grade, detail := detail ++ routeKind "declared_approved_fallback",
           reason := "사전 승인된 폴백이며 중개자가 선언함" }
  else
    pure { id := .e8, result := .fail, compared := compared ++ ["R.policy_decision"],
           trustGrade := grade, detail := detail ++ routeKind "undeclared_fallback",
           reason := "허용 모델이지만 중개자가 폴백을 선언하지 않음 (숨은 라우팅)" }

/-- `_eval_route`. -/
def evalE8 (ev : EvidenceSet) : Py EqResult :=
  match ev.c with
  | none => .ok (na .e8 "요청 계약 없음" .ext)
  | some c => do
    match ← modelSeen ev with
    | none => pure (na .e8 "실제 경로를 보고한 당사자 없음" .ext)
    | some (actual, source, grade) =>
      let requested ← getItem c "requested_model"
      let allowed ← getItem c "allowed_models"
      let fallback ← getItem c "fallback_policy"
      let decision ← relayDecision ev.r
      let detail := fields [("actual_model", actual), ("requested_model", requested),
        ("allowed_models", allowed), ("fallback_policy", fallback),
        ("relay_decision", decision), ("source", .str source)]
      if actual.eq requested then
        pure { id := .e8, result := .pass, compared := [source ++ " vs U.requested_model"],
               trustGrade := grade, detail, reason := "요청한 모델로 처리됨" }
      else judgeRoute K ev.r allowed fallback actual source grade detail

def evalE9 (ev : EvidenceSet) : Py EqResult :=
  match ev.m with
  | none => .ok (na .e9 "추론 영수증 없음" .ext)
  | some m => do
    let model ← getItem m "model_id"
    let ref := (← lookup ev.referenceModelHashes model).getD .null
    if ref.isNone then
      pure (na .e9 ("모델 " ++ text K model ++ " 의 기준 해시가 등록되지 않음") .ext)
    else
      let hash ← getItem m "model_hash"
      -- the source passes `detail` as a keyword, so the note is one level down
      pure (cmp .e9 hash ref ("M.model_hash vs reference(" ++ text K model ++ ")") .ext
        (fields [("detail", .dict (fields [("note",
          .str "아티팩트 식별이지 실행 계산의 일치가 아니다 (AIR-02 §11.5)")]))]))

/-- Without a contract no response transform is allowed. -/
def responseTransforms : Option Dict → Py (List Value)
  | some c => do (← getItem c "allowed_response_transforms").iterate
  | none => .ok [.str identity]

/-- `_eval_end_to_end_response`. -/
def evalE10 (ev : EvidenceSet) : Py EqResult :=
  match ev.m with
  | none => .ok (na .e10 "추론 영수증(응답 커밋) 없음 — 종단 무결성을 확립할 수 없음" .ext)
  | some m =>
    if (getOr m "response_commit").isNone then
      .ok (na .e10 "추론 영수증(응답 커밋) 없음 — 종단 무결성을 확립할 수 없음" .ext)
    else match ev.o with
      | none => .ok (na .e10 "사용자 수신 진술 없음" .ext)
      | some o => do
        let allowed ← responseTransforms ev.c
        let declared ← itemOrNull ev.r "response_transform_id"
        let detail := fields [("declared_transform", declared), ("allowed", .list allowed)]
        let compared := ["M.response_commit vs U.resp_commit"]
        if !declared.isNone && !memberOf declared allowed then
          pure { id := .e10, result := .fail, compared, detail,
                 reason := "선언된 응답 변환 " ++ K.repr declared ++ " 은 계약이 허용하지 않음" }
        else if !Value.eqList allowed [.str identity] then
          pure { id := .e10, result := .na, compared, detail,
                 reason := "첫 버전은 응답 무변환 정책만 재계산 가능" }
        else
          let signed ← getItem m "response_commit"
          let received ← getItem o "resp_commit"
          let ok := signed.eq received
          pure { id := .e10, result := passIf ok, compared, detail,
                 reason := if ok then "M 이 서명한 응답과 U 가 받은 응답이 같음"
                   else "M 이 서명한 응답과 U 가 받은 응답이 다름" }

/-- `set(xs)`: the distinct values, which must be hashable. -/
def distinct (xs : List Value) : Py (List Value) :=
  xs.foldlM (fun seen x =>
    if x.hashable then .ok (if memberOf x seen then seen else seen ++ [x])
    else .error .typeError) []

def attemptIds (ev : EvidenceSet) : List (String × Value) :=
  [("U.contract", ev.c), ("R.relay", ev.r), ("M.receipt", ev.m), ("U.observation", ev.o)].filterMap
    fun x => x.2.map fun payload => (x.1, getOr payload "attempt_id")

def evalE11 (ev : EvidenceSet) : Py EqResult :=
  let ids := attemptIds ev
  if ids.length < 2 then .ok (na .e11 "비교할 진술이 2개 미만" .ext)
  else do
    let values ← distinct (ids.map Prod.snd)
    let one := values.length == 1
    pure { id := .e11, result := passIf one, compared := [" vs ".intercalate (ids.map Prod.fst)],
           detail := fields [("attempt_ids", .dict (fields ids))],
           reason := if one then "일치"
             else "attempt_id 불일치 (재전송·다른 시도의 응답 가능)" }

def evalE12 (ev : EvidenceSet) : Py EqResult :=
  match ev.c, ev.o with
  | some c, some o => do
    let received ← getItem o "received_at"
    let expires ← getItem c "expires_at"
    let ok ← less true received expires
    pure { id := .e12, result := passIf ok, compared := ["U.received_at vs U.expires_at"],
           trustGrade := .self,
           detail := fields [("received_at", received), ("expires_at", expires)],
           reason := if ok then "유효기간 내" else "계약 만료 후 수신" }
  | _, _ => .ok (na .e12 "계약 또는 수신 진술 없음" .self)

/-- The results by equation; the source keeps them in a dictionary in this order. -/
abbrev Results := EqId → EqResult

def evaluateEquations (ev : EvidenceSet) : Py Results := do
  let r1 ← evalE1 K ev
  let r2 ← evalE2 ev
  let r3 ← evalE3 ev
  let r4 ← evalE4 K ev
  let r5 ← evalE5 ev
  let r6 ← evalE6 ev
  let r7 ← evalE7 ev
  let r8 ← evalE8 K ev
  let r9 ← evalE9 K ev
  let r10 ← evalE10 K ev
  let r11 ← evalE11 ev
  let r12 ← evalE12 ev
  pure fun
    | .e1 => r1 | .e2 => r2 | .e3 => r3 | .e4 => r4 | .e5 => r5 | .e6 => r6
    | .e7 => r7 | .e8 => r8 | .e9 => r9 | .e10 => r10 | .e11 => r11 | .e12 => r12

/-- One equation by itself. -/
def evalEq : EqId → EvidenceSet → Py EqResult
  | .e1, ev => evalE1 K ev
  | .e2, ev => evalE2 ev
  | .e3, ev => evalE3 ev
  | .e4, ev => evalE4 K ev
  | .e5, ev => evalE5 ev
  | .e6, ev => evalE6 ev
  | .e7, ev => evalE7 ev
  | .e8, ev => evalE8 K ev
  | .e9, ev => evalE9 K ev
  | .e10, ev => evalE10 K ev
  | .e11, ev => evalE11 ev
  | .e12, ev => evalE12 ev

variable {K}

theorem evaluateEquations_ok {ev : EvidenceSet} {eqs : Results} :
    evaluateEquations K ev = .ok eqs ↔ ∀ k, evalEq K k ev = .ok (eqs k) := by
  constructor
  · intro h
    simp only [evaluateEquations, bind_ok, pure_ok, Except.ok.injEq] at h
    obtain ⟨r1, h1, r2, h2, r3, h3, r4, h4, r5, h5, r6, h6, r7, h7, r8, h8, r9, h9,
      r10, h10, r11, h11, r12, h12, rfl⟩ := h
    intro k
    cases k <;> assumption
  · intro h
    have each := fun k => (h k : evalEq K k ev = .ok (eqs k))
    simp only [evaluateEquations, bind_ok, pure_ok, Except.ok.injEq]
    refine ⟨_, each .e1, _, each .e2, _, each .e3, _, each .e4, _, each .e5, _, each .e6,
      _, each .e7, _, each .e8, _, each .e9, _, each .e10, _, each .e11, _, each .e12, ?_⟩
    funext k
    cases k <;> rfl

theorem evaluateEquations_returns {ev : EvidenceSet} :
    Returns (evaluateEquations K ev) ↔ ∀ k, Returns (evalEq K k ev) := by
  constructor
  · rintro ⟨eqs, h⟩ k
    exact ⟨eqs k, evaluateEquations_ok.mp h k⟩
  · intro h
    choose eqs each using h
    exact ⟨eqs, evaluateEquations_ok.mpr each⟩

end Equations
