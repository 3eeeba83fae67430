import Custody.Backlog
import Custody.UserGate

/-!
# A request of the user's agent

The agent signs a contract, calls the relay, checks what comes back, waits for the
third party in strict mode, and only then gives the response away. The record of
the request is written several times on the way. Every answer from outside, every
reading of a clock and every access to the store is a moment that the
surroundings decide: it may raise, and the process may end there.
-/

namespace Requests

open PyValue HexBytes CanonicalJson CanonicalForm Commitments Statements Schemas TransparencyLog
  AppendOnly Identity UserGate Effects

/-- How a step is left early: by an exception, or because the process gets no further. -/
inductive Stop where
  | raised (e : PyErr)
  | ended

/-- What the surroundings do and answer at one place of the program. -/
structure Moment where
  /-- The flush loop, the third party and the network, up to this place. -/
  events : List Delivery.Event := []
  failure : Option Stop := none
  /-- A failure after what is written is on disk. -/
  late : Option Stop := none
  now : Int := 0
  monotonicNs : Int := 0
  cancelled : Bool := false
  retired : Bool := false
  /-- What a peer answers. -/
  reply : Py Value := .ok .null

structure Outside where
  moment : Nat → Moment
  /-- `str(e)` and `type(e).__name__` of an exception that does not carry its text here. -/
  shown : PyErr → String := fun _ => ""
  typeName : PyErr → String := fun _ => ""

/-- What an agent reads of its configuration beside the limits of its backlog. -/
structure Setup where
  trust : Config
  key : KeyPair
  modelId : String
  modelKind : String
  governance : String
  requireRelay : Bool := false
  strictTimeoutMs : Int := 2500

/-- What `_request` is called with, and the identifiers it draws. -/
structure Call where
  prompt : Value
  mode : Value
  scenario : String := "normal"
  token : String := ""
  sub : String
  attemptId : String
  salt : String
  nonce : String

inductive State where
  | pending
  | decided (action : Action)
  | cancelled
  | error
  deriving DecidableEq

def State.text : State → String
  | .pending => "pending"
  | .decided action => action.text
  | .cancelled => "cancelled"
  | .error => "error"

structure PrivateEvidence where
  salt : String
  requestHash : String
  responseHash : Option String := none

def PrivateEvidence.toValue (p : PrivateEvidence) : Value :=
  .dict (fields [("salt", .str p.salt), ("request_hash", .str p.requestHash),
    ("response_hash", optionText p.responseHash), ("expected_request_commits", .dict [])])

/-- A check of the gate has a basis; the one made right before the decision has none. -/
def checkValue (c : Check) : Value :=
  .dict (fields ([("result", .str c.result.text), ("reason", .str c.reason)] ++
    if c.basis = "" then [] else [("basis", .str c.basis)]))

def checksValue (checks : Checks) : Value :=
  .dict (fields (checks.map fun x => (x.1, checkValue x.2)))

def optionInt : Option Int → Value
  | some n => .int n
  | none => .null

/-- `GateDecision.to_dict`. -/
def decisionValue (d : GateDecision) : Value :=
  .dict (fields [("mode", .str d.mode.text), ("action", .str d.action.text),
    ("reasons", .ofStrings d.reasons), ("local_checks", checksValue d.localChecks),
    ("verdict_status", d.verdictStatus), ("received_at", .int d.receivedAt),
    ("decided_at", .int d.decidedAt), ("consumed_at", optionInt d.consumedAt),
    ("waited_ms", .int d.waitedMs),
    ("consumed_before_decision", .bool (d.consumedAt.any fun t => decide (t < d.decidedAt)))])

/-- The record of a request; the fields after `tVerdict` are added on the way. The maps of checks
and of private evidence are the ones that the rest of the program goes on to change. -/
structure Record where
  sub : String
  attemptId : String
  mode : Mode
  startedAt : Int
  source : String
  modelKind : String
  governance : String
  labScenario : Option String
  contract : SignedStatement
  private_ : PrivateEvidence
  timeline : List Value := []
  state : State := .pending
  response : Option String := none
  checks : Checks := []
  gate : Option GateDecision := none
  tVerdict : Option Value := none
  quarantined : Option Value := none
  observation : Option SignedStatement := none
  tError : Option String := none
  error : Option String := none
  elapsedMs : Option Int := none

/-- A field that is there only once it was set. -/
def later (name : String) : Option Value → List (String × Value)
  | some v => [(name, v)]
  | none => []

def Record.toDict (r : Record) : Dict :=
  fields ([("sub", .str r.sub), ("attempt_id", .str r.attemptId), ("mode", .str r.mode.text),
    ("started_at", .int r.startedAt), ("source", .str r.source), ("transport", .str "TLS"),
    ("model_kind", .str r.modelKind), ("governance", .str r.governance),
    ("lab_scenario", optionText r.labScenario), ("contract", r.contract.toDict),
    ("private", r.private_.toValue), ("timeline", .list r.timeline),
    ("state", .str r.state.text), ("response", optionText r.response),
    ("checks", checksValue r.checks), ("gate", (r.gate.map decisionValue).getD .null),
    ("t_verdict", r.tVerdict.getD .null)] ++
    later "quarantined_body" r.quarantined ++
    later "observation" (r.observation.map SignedStatement.toDict) ++
    later "t_error" (r.tError.map .str) ++ later "error" (r.error.map .str) ++
    later "elapsed_ms" (r.elapsedMs.map .int))

def hiddenFields : List String := ["quarantined_body", "private", "contract", "observation"]

/-- `Agent.public`. -/
def publicOf (record : Dict) : Dict :=
  record.filter fun p => !memberOf p.1 (texts hiddenFields)

/-- What was noticed on the way. -/
inductive Sight where
  | cancelled
  | retired
  | expired
  deriving DecidableEq

/-- `written` and `sights` only record what was done and noticed. -/
structure Desk where
  agent : Backlog.Agent
  tick : Nat := 0
  startNs : Int := 0
  record : Record
  written : List Record := []
  emitted : List Value := []
  sights : List Sight := []

abbrev Run := EStateM Stop Desk

def raise {A : Type} (e : PyErr) : Run A := throw (.raised e)

def ofPy {A : Type} : Py A → Run A
  | .ok a => pure a
  | .error e => raise e

/-- `if not ok: raise e`. -/
def demand (ok : Bool) (e : PyErr) : Run Unit := if ok then pure () else raise e

/-- `try: body except Exception`, which keeps what the body did. -/
def catching {A : Type} (body : Run A) (handler : PyErr → Run A) : Run A := fun s =>
  match body s with
  | .error (.raised e) s' => handler e s'
  | result => result

variable (K : Primitives) (A : Setup) (O : Outside)

/-- The next moment, once what the surroundings did until then is done. -/
def moment : Run Moment := fun s =>
  .ok (O.moment s.tick) { s with
    tick := s.tick + 1,
    agent := (O.moment s.tick).events.foldl (fun agent ev => agent.step K (.net ev)) s.agent }

/-- A moment at which something can fail. -/
def access : Run Moment := do
  let m ← moment K O
  match m.failure with
  | some stop => throw stop
  | none => pure m

def nowMs : Run Int := do pure (← moment K O).now

def monotonic : Run Int := do pure (← moment K O).monotonicNs

def noticing (sight : Sight) (seen : Bool) : Run Bool := do
  modify fun s => { s with sights := s.sights ++ if seen then [sight] else [] }
  pure seen

/-- `cancel.is_set()`. -/
def isCancelled : Run Bool := do noticing .cancelled (← moment K O).cancelled

def retiredError : PyErr :=
  .valueError "이전 배포 세대가 폐기되었습니다. 승인된 새 설정으로 전환하세요."

/-- `assert_active`. -/
def assertActive : Run Unit := do
  let retired ← noticing .retired (← access K O).retired
  demand (!retired) retiredError

/-- A call of a peer. -/
def peer : Run Value := do ofPy (← access K O).reply

/-- A write to the store. -/
def writing (f : Backlog.Agent → Py Backlog.Agent) : Run Unit := do
  let m ← access K O
  let agent ← ofPy (f (← get).agent)
  modify fun s => { s with agent }
  match m.late with
  | some stop => throw stop
  | none => pure ()

def putRecord : Run Unit := do
  let record := (← get).record
  modify fun s => { s with written := s.written ++ [record] }
  writing K O fun agent => agent.put (Backlog.requestKey record.sub) (.dict record.toDict) none

def enqueue (item : Delivery.Item) : Run Unit :=
  writing K O fun agent => agent.enqueue K item none

/-- `remember_private`. -/
def rememberPrivate : Run Unit := do
  let value := (← get).record.private_.toValue
  writing K O fun agent => do
    agent.put (Retention.versionHead ++ (← contentHash K value)) value none

def enqueuePrivate : Run Unit := do
  let record := (← get).record
  enqueue K O (.private_ (.str record.sub) record.private_.toValue)

def modifyRecord (f : Record → Record) : Run Unit :=
  modify fun s => { s with record := f s.record }

/-- `event(actor, kind)`. -/
def event (token actor kind : String) : Run Unit := do
  let t ← monotonic K O
  let s ← get
  let item := fields [("actor", .str actor), ("kind", .str kind),
    ("t_ms", .int ((t - s.startNs) / 1000000))]
  modifyRecord fun r => { r with timeline := r.timeline ++ [.dict item] }
  let _ ← access K O
  modify fun s => { s with emitted := s.emitted ++
    [.dict (fields [("token", .str token), ("sub", .str s.record.sub)] ++ item)] }

/-- `signed`. -/
def signed (ct sub : String) (payload : Dict) : Run SignedStatement := do
  let issuedAt ← nowMs K O
  ofPy (issue K A.key (.str (issOf .U)) (.str sub) (.str ct) payload issuedAt)

def modeOf (v : Value) : Option Mode :=
  [Mode.observe, .protect, .strict].find? fun m => v.eq (.str m.text)

/-- The policy on the backlog: without room for all it may have to report, no request. -/
def checkBacklog : Run Unit := do
  let config := (← get).agent.config
  if config.policy = .bounded then
    let _ ← access K O
    demand (decide (((← get).agent.pending : Int) ≤ (config.queueCapacity : Int) - 5))
      (.runtimeError ("증거 보관 한도에 도달했습니다 (정책 bounded). " ++
        "T 연결을 복구하거나 정책을 unbounded 로 바꾸세요."))
  else pure ()

/-- The checks of `_request` before it writes anything. -/
def admitRequest (q : Call) : Run Mode := do
  assertActive K O
  demand (Backlog.Agent.validPrompt q.prompt) (.valueError "1~16,000자의 요청을 입력하세요.")
  match modeOf q.mode with
  | none => raise (.valueError "unknown enforcement mode")
  | some mode =>
    let config := (← get).agent.config
    demand (q.scenario = "normal" || config.lab)
      (.valueError "연결 모드에서는 공격을 주입할 수 없습니다.")
    demand (decide ((← nowMs K O) < config.policyExpiresAt))
      (.valueError "정책과 신뢰 설정이 만료되었습니다. 새 설정을 등록하세요.")
    let _ ← access K O
    demand (decide ((← get).agent.records < config.maxRequests))
      (.valueError ("요청 보관 한도에 도달했습니다. " ++
        "감사 자료 보관 후 새 배포 세대로 전환하세요."))
    checkBacklog K O
    pure mode

def requestBody (q : Call) : Value := .dict (fields [("prompt", q.prompt)])

def contractTerms (q : Call) (mode : Mode) (reqCommit : String) (start : Int) : ContractTerms :=
  { attemptId := q.attemptId, sessionId := q.sub, sessionSeq := 1, nonce := q.nonce, reqCommit,
    requestedModel := A.modelId, allowedModels := [A.modelId], fallbackPolicy := "none",
    allowedRequestTransforms := ["identity"], allowedResponseTransforms := ["identity"],
    relayId := issOf .R, expiresAt := start + 60000, clientTime := start,
    enforcementMode := mode.text }

/-- `policy_hash`. -/
def policyHash : Py String := (Auditing.policyStatementOf A.trust).statementHash K

/-- The contract is signed and the record made; neither is written yet. -/
def prepare (q : Call) (mode : Mode) : Run Unit := do
  let startNs ← monotonic K O
  let start ← nowMs K O
  let reqCommit ← ofPy (Execution.digest K (requestBody q) (.str q.salt))
  let contract ← signed K A O ctContract q.sub
    (contractPayload (contractTerms A q mode reqCommit start))
  let requestHash ← ofPy (contentHash K (requestBody q))
  let _ ← access K O
  let _ ← ofPy (policyHash K A)
  let config := (← get).agent.config
  modify fun s => { s with
    startNs,
    record :=
      { sub := q.sub, attemptId := q.attemptId, mode, startedAt := start,
        source := if config.lab then "network_lab" else "connected_evaluation",
        modelKind := A.modelKind, governance := A.governance,
        labScenario := if config.lab then some q.scenario else none, contract,
        private_ := { salt := q.salt, requestHash } } }

/-- The first writes, and the last chance to cancel before anything is sent. -/
def announce (q : Call) : Run Unit := do
  putRecord K O
  event K O q.token "U" "계약 서명 · 전송 전 기록"
  enqueue K O (.statement (← get).record.contract)
  rememberPrivate K O
  enqueuePrivate K O
  demand (!(← isCancelled K O)) (.interruptedError "취소됨: 전송하지 않았습니다.")
  event K O q.token "U" "R로 요청 전송"

def maxResponse : Nat := 128000

/-- The text of a response that has nothing else. -/
def responseText : Value → Option String
  | .dict d => match hasExactly ["text"] d, getOr d "text" with
    | true, .str text => if text.length ≤ maxResponse then some text else none
    | _, _ => none
  | _ => none

def roleName : Role → String
  | .U => "U"
  | .R => "R"
  | .M => "M"
  | .T => "T"

/-- A statement of this role on this attempt. -/
def authenticated (role : Role) (ct sub attemptId : String) (given : Value) :
    Py SignedStatement := do
  let stmt ← authenticate K A.trust given role (.str ct) (some (.str sub))
  if (← getItem stmt.payload "attempt_id").eq (.str attemptId) then pure stmt
  else throw (.valueError "attempt mismatch")

def authorityCheck (role : Role) (result : Outcome) (reason : String) : String × Check :=
  check (roleName role ++ "_authority") result reason

/-- One turn of the loop over the two inline statements. -/
def authority (wire : Value) (sub attemptId : String) (role : Role) (name ct : String) :
    Py (Option SignedStatement × (String × Check)) := do
  let given ← wire.get name .null
  if given.isNone then
    pure (none, authorityCheck role .na (roleName role ++
      " 진술이 응답에 동봉되지 않음 (비협조 또는 R 이 제거) — 결손이며 위반 아님"))
  else match authenticated K A role ct sub attemptId given with
    | .ok stmt => pure (some stmt,
        authorityCheck role .pass "고정된 발행자·역할·유형·서명·요청 결합 확인")
    | .error e => match e with
      | .valueError _ | .unicodeDecodeError | .nonAsciiKey _ _ | .keyError | .typeError =>
        pure (none,
          authorityCheck role .fail "필수 증거가 없거나 발행자·서명·요청 결합이 올바르지 않음")
      | e => throw e

def gateFor (mode : Mode) : Py Gate := do
  let key ← fromHexValue (.str (A.trust.identities .M).publicKey)
  pure { mode, trustedModelKeys := [(.str (A.trust.identities .M).kid, key)],
         referenceModelHashes := A.trust.modelHashes }

/-- `checks.update(others)`. -/
def update (checks others : Checks) : Checks := others.foldl (fun cs x => put cs x.1 x.2) checks

/-- What the agent makes of the relay's answer before it reports it. -/
structure Examined where
  m : Option SignedStatement
  r : Option SignedStatement
  gate : Gate
  checks : Checks

def examine (record : Record) (wire response : Value) (commit : String) (receivedAt : Int) :
    Py Examined := do
  let (m, ofM) ← authority K A wire record.sub record.attemptId .M "receipt" ctReceipt
  let (r, ofR) ← authority K A wire record.sub record.attemptId .R "relay" ctRelay
  let gate ← gateFor A record.mode
  let own ← localChecks K gate record.contract.payload (.str commit) response m r receivedAt []
  let checks := update [ofM, ofR] own
  let checks := if r.isNone && A.requireRelay then
      put checks "R_authority" (authorityCheck .R .fail
        "정책 require_relay_statement 가 R 중계 진술을 필수로 요구함").2
    else checks
  pure { m, r, gate, checks }

def hashOf : Option SignedStatement → Py (Option String)
  | some stmt => do pure (some (← stmt.statementHash K))
  | none => .ok none

/-- The response as received, held back. -/
structure Received where
  response : Value
  text : String
  receivedAt : Int
  gate : Gate

/-- The call of the relay, up to the observation that reports it. -/
def exchange (q : Call) : Run Received := do
  let wire ← peer K O
  let receivedAt ← nowMs K O
  event K O q.token "U" "응답 수신 · 사용 보류"
  let response ← ofPy (wire.item "body")
  match responseText response with
  | none => raise (.valueError "unsupported or oversized response")
  | some text =>
    modifyRecord fun r => { r with quarantined := some response }
    let commit ← ofPy (Execution.digest K response (.str q.salt))
    let x ← ofPy (examine K A (← get).record wire response commit receivedAt)
    modifyRecord fun r => { r with checks := x.checks }
    let inlineReceiptHash ← ofPy (hashOf K x.m)
    let inlineRelayHash ← ofPy (hashOf K x.r)
    let observation ← signed K A O ctObservation q.sub (observationPayload
      { attemptId := q.attemptId, respCommit := commit, receivedAt, inlineReceiptHash,
        inlineRelayHash, presentedReceipt := (x.m.map SignedStatement.toDict).getD .null })
    let responseHash ← ofPy (contentHash K response)
    modifyRecord fun r => { r with
      private_ := { r.private_ with responseHash := some responseHash } }
    rememberPrivate K O
    modifyRecord fun r => { r with observation := some observation }
    putRecord K O
    enqueue K O (.statement observation)
    enqueuePrivate K O
    event K O q.token "U" "서명과 요청·응답 결합 검사 완료"
    pure { response, text, receivedAt, gate := x.gate }

/-- What `verdict` reads of a record. -/
structure Bound where
  sub : Value
  attemptId : Value
  contract : Value

/-- `now_ms() <= v["valid_until"] <= now_ms() + 60000`, for an integer. -/
def validNow (until_ : Value) : Run Bool := do
  match until_ with
  | .int t =>
    if (← nowMs K O) ≤ t then pure (decide (t ≤ (← nowMs K O) + 60000)) else pure false
  | _ => pure false

/-- The verdict is on this request, attempt and contract, under the pinned policy. -/
def verdictBound (b : Bound) (v : Dict) : Py Bool := do
  if !(← getItem v "attempt_id").eq b.attemptId then pure false
  else
    let contract ← SignedStatement.fromDict b.contract
    if !(getOr v "contract_hash").eq (.str (← contract.statementHash K)) then pure false
    else if !(← getItem v "policy_hash").eq (.str (← policyHash K A)) then pure false
    else pure ((← getItem v "checker_version").eq (.str checkerVersion))

def mismatched : PyErr := .valueError "T 판정의 정책·요청·시도·유효기간이 일치하지 않습니다."

/-- The receipt of the verdict is checked under the pinned key and kept. -/
def keepVerdictReceipt (stmt : SignedStatement) (result : Value) : Run Unit := do
  let rc ← ofPy (RegistrationReceipt.fromDict (← ofPy (result.item "receipt")))
  let publicKey ← ofPy (fromHexValue (.str (A.trust.identities .T).publicKey))
  let (ok, _) ← ofPy (verifyReceipt K rc stmt publicKey)
  demand (ok && rc.logId.eq (.str A.trust.logId))
    (.valueError "T 판정 등록 증명이 올바르지 않습니다.")
  let hash ← ofPy (stmt.statementHash K)
  writing K O fun agent => do
    let sender := agent.net.sender
    let sender ← sender.putReceipt hash (sender.remembered stmt hash rc) none
    pure { agent with net := { agent.net with sender } }

/-- `Agent.verdict`. -/
def verdict (b : Bound) : Run SignedStatement := do
  let result ← peer K O
  let given ← ofPy (result.item "statement")
  let stmt ← ofPy (authenticate K A.trust given .T (.str ctVerdict) (some b.sub))
  demand (← ofPy (verdictBound K A b stmt.payload)) mismatched
  demand (← validNow K O (getOr stmt.payload "valid_until")) mismatched
  demand (decide (stmt.issuedAt ≤ (← nowMs K O) + 5000)) mismatched
  keepVerdictReceipt K A O stmt result
  pure stmt

def Record.bound (r : Record) : Bound :=
  { sub := .str r.sub, attemptId := .str r.attemptId, contract := r.contract.toDict }

def decisive (status : Value) : Bool := memberOf status [.str "passed", .str "failed"]

/-- `str(e)`. -/
def errorText : PyErr → String
  | .valueError message | .runtimeError message | .interruptedError message => message
  | .nonAsciiKey key path => "non-ascii key " ++ K.repr (.str key) ++ " at " ++ path
  | e => O.shown e

/-- `str(e)` of a `ValueError` or a `RuntimeError`, and the name of any other type. -/
def shortError (e : PyErr) : String :=
  match e with
  | .valueError _ | .unicodeDecodeError | .nonAsciiKey _ _ | .runtimeError _ => errorText K O e
  | e => O.typeName e

/-- One turn of the polling loop: a flush and one call. An exception leaves the status. -/
def attempt (status : Value) : Run (Value × Bool) :=
  catching
    (do
      let _ ← access K O
      let _ ← monotonic K O
      let stmt ← verdict K A O (← get).record.bound
      modifyRecord fun r => { r with tVerdict := some stmt.toDict }
      let status ← ofPy (getItem stmt.payload "verification_status")
      pure (status, decisive status))
    fun e => do
      modifyRecord fun r => { r with tError := some (shortError K O e) }
      pure (status, false)

/-- The polling loop; `fuel` bounds its turns, and a loop that has not ended by then is cut off. -/
def poll : Nat → Int → Value → Run Value
  | 0, _, _ => throw .ended
  | fuel + 1, deadline, status => do
    if ← isCancelled K O then pure status
    else if (← monotonic K O) ≥ deadline then pure status
    else
      let (status, done) ← attempt K A O status
      if done then pure status
      else
        let _ ← moment K O
        poll fuel deadline status

def anyFailed (checks : Checks) : Bool := checks.any fun x => decide (x.2.result = .fail)

/-- The status of the third party's verdict, none outside strict mode or after the deadline. -/
def await (q : Call) (fuel : Nat) : Run Value := do
  let deadline := (← monotonic K O) + A.strictTimeoutMs * 1000000
  let record := (← get).record
  if record.mode = .strict && !anyFailed record.checks then
    event K O q.token "T" "유효한 T 판정 대기"
    let status ← poll K A O fuel deadline .null
    if (← monotonic K O) ≥ deadline && !status.eq (.str "failed") then pure .null else pure status
  else pure .null

/-- Whether the contract or the policy has expired by now. -/
def expiredNow : Run Bool := do
  let s ← get
  if ← ofPy (Execution.expired s.record.contract.payload (← nowMs K O)) then
    noticing .expired true
  else noticing .expired (decide ((← nowMs K O) ≥ s.agent.config.policyExpiresAt))

def lateCheck : Check :=
  { result := .fail, reason := "수용 결정 전에 계약 또는 정책이 만료됨", basis := "" }

def released (action : Action) : Bool := decide (action = .accept ∨ action = .acceptUnverified)

/-- What follows the wait; the response is given away here and nowhere else. -/
def settle (q : Call) (x : Received) (status : Value) : Run Unit := do
  demand (!(← isCancelled K O))
    (.interruptedError "취소됨: 응답을 공개하지 않았습니다. 원격 실행 여부와 별개입니다.")
  assertActive K O
  let late ← expiredNow K O
  modifyRecord fun r =>
    { r with checks := if late then put r.checks "not_expired" lateCheck else r.checks }
  let now ← nowMs K O
  let decision := decideGate K x.gate (← get).record.checks x.receivedAt now status true
  modifyRecord fun r => { r with gate := some decision, state := .decided decision.action }
  if released decision.action then
    modifyRecord fun r => { r with response := some x.text }
    let mode := (← get).record.mode
    event K O q.token "U" (if mode = .observe then "관찰 모드 · 미검증 응답 공개"
      else "검증 후 응답 공개")
  else event K O q.token "U" "응답 격리 · 공개하지 않음"

/-- The body of the `try` statement. -/
def proceed (q : Call) (fuel : Nat) : Run Unit := do
  announce K O q
  let x ← exchange K A O q
  let status ← await K A O q fuel
  settle K O q x status

def failedState : PyErr → State
  | .interruptedError _ => .cancelled
  | _ => .error

/-- The handler of the `try` statement. -/
def abandon (q : Call) (e : PyErr) : Run Unit := do
  modifyRecord fun r => { r with
    state := failedState e, error := some (errorText K O e), response := none }
  event K O q.token "U" "요청 중단 · 응답 미공개"

/-- `Agent._request`. -/
def request (q : Call) (fuel : Nat) : Run Dict := do
  modify fun s => { s with written := [], emitted := [], sights := [] }
  let mode ← admitRequest K O q
  prepare K A O q mode
  catching (proceed K A O q fuel) (abandon K O q)
  let t ← monotonic K O
  let s ← get
  modifyRecord fun r => { r with elapsedMs := some ((t - s.startNs) / 1000000) }
  putRecord K O
  pure (publicOf (← get).record.toDict)

/-- What `verdict` reads of a stored record. -/
def boundOf (record : Value) : Py Bound := do
  pure { sub := ← record.item "sub", attemptId := ← record.item "attempt_id",
         contract := ← record.item "contract" }

/-- `Agent.refresh`: the verdict of a request that is over is asked for again. -/
def refresh (sub : String) : Run Dict := do
  let _ ← access K O
  match ((← get).agent.kv.lookup (Backlog.requestKey sub)).getD .null with
  | .dict record =>
    demand (!(← ofPy (getItem record "state")).eq (.str "pending"))
      (.valueError "request is still in progress")
    let _ ← access K O
    let stmt ← verdict K A O (← ofPy (boundOf (.dict record)))
    let record := insert record (.str "t_verdict") stmt.toDict
    writing K O fun agent => agent.put (Backlog.requestKey sub) (.dict record) none
    pure (publicOf record)
  | .null => raise (.valueError "unknown request")
  | _ => raise .typeError

end Requests
