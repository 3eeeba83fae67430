import Mathlib.Data.List.AList
import Custody.Delivery
import Custody.Effects

/-!
# Executing a request

The relay and the model operator serve `infer` under one lock. What protects them
from executing a request twice is three rows written at different times: the nonce
is claimed, the execution recorded, and its result stored. Each access to the
store may fail, before or after what it writes is on disk. A process that dies at
an access leaves the same rows, since nothing is undone on the way out.
-/

namespace Execution

open PyValue HexBytes CanonicalJson CanonicalForm Commitments Statements Schemas Identity Delivery
  Effects

/-- What a party that serves `infer` reads of its configuration. -/
structure Operator where
  config : Config
  role : Role
  key : KeyPair
  modelId : String
  modelKind : String
  preExec : Bool := false
  lab : Bool := false
  maxRequests : Nat := 10000

/-- A start of `model_reply`, or of the call to the model operator. -/
structure Started where
  sub : String
  nonce : String
  /-- What the binding is the hash of. -/
  content : Bytes

/-- `kv` has the rows `execution:` and `nonce:`; the rows `receipt:` are the sender's.
`started` only records what was begun. -/
structure Machine where
  kv : AList fun _ : String => Value := ∅
  sender : Sender
  started : List Started := []

abbrev Run := EStateM PyErr Machine

/-- The places where `infer` uses the store. -/
inductive Access where
  | previous
  | count
  | claim
  | record
  | pending
  | enqueue
  | finish

/-- What may happen around an access: the flush loop runs on the sender, the access fails, or it
succeeds and the process gets no further. -/
structure Disturbance where
  flushed : Sender → Sender := id
  failure : Option PyErr := none
  late : Option PyErr := none

/-- The surroundings of a call. -/
structure Conditions where
  now : Int
  issuedAt : Int
  elapsed : Int
  cti : String
  retired : Bool := false
  /-- The model provider, or the model operator, as it answers. -/
  reply : Value → Py Value
  store : Access → Disturbance := fun _ => {}

def touch {A : Type} (d : Disturbance) (operation : Machine → Py (A × Machine)) : Run A := fun S =>
  let S := { S with sender := d.flushed S.sender }
  match d.failure with
  | some e => .error e S
  | none => match operation S with
    | .error e => .error e S
    | .ok (a, next) => match d.late with
      | some e => .error e next
      | none => .ok a next

/-- `Store.get`. -/
def get (d : Disturbance) (key : String) : Run Value :=
  touch d fun S => .ok ((S.kv.lookup key).getD .null, S)

/-- `Store.put`. -/
def put (d : Disturbance) (key : String) (value : Value) : Run Unit :=
  touch d fun S => do
    let _ ← canonicalJson value
    pure ((), { S with kv := S.kv.insert key (canon value) })

/-- `Store.claim`: whether the row is new. -/
def claim (d : Disturbance) (key : String) (value : Value) : Run Bool :=
  touch d fun S => do
    let _ ← canonicalJson value
    if key ∈ S.kv then pure (false, S)
    else pure (true, { S with kv := S.kv.insert key (canon value) })

/-- `Store.count`. -/
def count (d : Disturbance) (head : String) : Run Nat :=
  touch d fun S => .ok ((S.kv.keys.filter fun key => startsWith key head).length, S)

/-- The length of `Store.pending`. -/
def pending (d : Disturbance) : Run Nat := touch d fun S => .ok (S.sender.outbox.length, S)

variable (K : Primitives)

/-- `Service.queue`. -/
def queue (d : Disturbance) (stmt : SignedStatement) : Run Unit :=
  touch d fun S => do
    let sender ← S.sender.enqueue K (.statement stmt) 256 none
    pure ((), { S with sender })

def maxPrompt : Nat := 16000

/-- `digest`. -/
def digest (body salt : Value) : Py String :=
  match salt with
  | .str s => if s.length ≠ 64 then .error (.valueError "invalid salt") else do
    let _ ← fromHexValue salt
    commitHex K salt (.str (← contentHash K body))
  | _ => .error (.valueError "invalid salt")

/-- The prompt of a body that has nothing else. -/
def promptOf : Value → Py String
  | .dict d => match hasExactly ["prompt"] d, getOr d "prompt" with
    | true, .str prompt => .ok prompt
    | _, _ => .error (.valueError "this profile accepts a text prompt only")
  | _ => .error (.valueError "this profile accepts a text prompt only")

/-- `c["expires_at"] < now_ms()`. -/
def expired (c : Dict) (now : Int) : Py Bool := do
  less false (← getItem c "expires_at") (.int now)

def checkFresh (prompt : String) (c : Dict) (now : Int) : Py Unit :=
  if maxPrompt < prompt.length then .error (.valueError "prompt too large or expired contract")
  else do
    if ← expired c now then throw (.valueError "prompt too large or expired contract")
    else pure ()

/-- The only route and the only transforms of this profile. -/
def route (O : Operator) : List (String × Value) :=
  [("relay_id", .str (issOf .R)), ("requested_model", .str O.modelId),
    ("allowed_models", .ofStrings [O.modelId]),
    ("allowed_request_transforms", .ofStrings ["identity"]),
    ("allowed_response_transforms", .ofStrings ["identity"]), ("fallback_policy", .str "none")]

def checkRoute (O : Operator) (c : Dict) : Py Unit := do
  let differs ← (route O).anyM fun x => do pure !((← getItem c x.1).eq x.2)
  if differs then throw (.valueError "unsupported route or transform policy") else pure ()

def textOf : Value → Py String
  | .str s => .ok s
  | _ => .error .typeError

/-- A request that passed the checks before the store is read. -/
structure Request where
  contract : SignedStatement
  sub : String
  body : Value
  prompt : String
  salt : Value
  inputCommit : String
  content : Bytes

def Request.binding (q : Request) : String := contentHashHex K q.content

def executionKey (sub : String) : String := "execution:" ++ sub

def nonceKey (nonce : String) : String := "nonce:" ++ nonce

/-- `infer` up to the binding. -/
def accept (O : Operator) (p : Value) (retired : Bool) (now : Int) : Py Request :=
  if retired then
    .error (.valueError "이전 배포 세대가 폐기되었습니다. 승인된 새 설정으로 전환하세요.")
  else do
    let contract ← authenticate K O.config (← p.item "contract") .U (.str ctContract) none
    let body ← p.item "body"
    let salt ← p.item "salt"
    let prompt ← promptOf body
    checkFresh prompt contract.payload now
    checkRoute O contract.payload
    let inputCommit ← digest K body salt
    let sub ← textOf contract.sub
    let content ← canonicalJson (.dict (fields [("contract", contract.toDict), ("body", body),
      ("salt", salt)]))
    pure { contract, sub, body, prompt, salt, inputCommit, content }

def startedRecord (q : Request) : Value :=
  .dict (fields [("binding", .str (q.binding K)), ("status", .str "started")])

def completedRecord (q : Request) (result : Value) : Value :=
  .dict (fields [("binding", .str (q.binding K)), ("status", .str "completed"),
    ("result", result)])

/-- What is answered from a record that is there. -/
def recallStored (q : Request) (previous : Value) : Py Value := do
  let binding ← previous.item "binding"
  if !binding.eq (.str (q.binding K)) then
    throw (.valueError "request identifier reused with different content")
  else match previous.item "result" with
  | .ok result => pure result
  | .error .keyError =>
    throw (.valueError "execution outcome unknown after interruption; no automatic re-execution")
  | .error e => throw e

/-- The nonce is claimed and the record written. -/
def reserve (O : Operator) (q : Request) (how : Conditions) : Run String := do
  let used ← count (how.store .count) "execution:"
  if O.maxRequests ≤ used then
    throw (.valueError "execution store capacity reached; create a successor epoch")
  let nonce ← lift (getItem q.contract.payload "nonce" >>= textOf)
  let claimed ← claim (how.store .claim) (nonceKey nonce) (.str q.sub)
  if !claimed then throw (.valueError "nonce already consumed")
  put (how.store .record) (executionKey q.sub) (startedRecord K q)
  let waiting ← pending (how.store .pending)
  if 250 ≤ waiting then throw (.runtimeError "evidence queue full")
  pure nonce

/-- From here on the request counts as executed. -/
def start (q : Request) (nonce : String) : Run Unit := fun S =>
  .ok () { S with started := S.started ++ [{ sub := q.sub, nonce, content := q.content }] }

/-- `signed`. -/
def signed (O : Operator) (ct : String) (sub : String) (payload : Dict) (issuedAt : Int) :
    Py SignedStatement :=
  issue K O.key (.str (issOf O.role)) (.str sub) (.str ct) payload issuedAt

/-- `model_reply`. -/
def modelReply (O : Operator) (prompt : String) (body : Value) (ollamaReply : Value → Py Value) :
    Py Value :=
  if O.modelKind = "deterministic_mock" then
    .ok (.dict (fields [("text", .str ("모형 모델의 응답: " ++ prompt))]))
  else if O.modelKind ≠ "ollama" then .error (.valueError "unsupported model adapter")
  else ollamaReply body

/-- `content_hash_hex(b"evaluation-no-TEE")`. -/
def noTee : String := contentHashHex K "evaluation-no-TEE".toUTF8.toList

/-- The model operator's receipt for a response. -/
def modelReceipt (O : Operator) (q : Request) (how : Conditions) (response : Value) :
    Py SignedStatement := do
  let c := q.contract.payload
  let attemptId ← getItem c "attempt_id"
  let commit ← digest K response q.salt
  let modelHash ← getItem O.config.modelHashes O.modelId
  let nonce ← getItem c "nonce"
  signed K O ctReceipt q.sub (receiptPayload
    { cti := how.cti, attemptId, requestCommit := some q.inputCommit,
      responseCommit := some commit, modelId := .str O.modelId, modelVersion := .str "1",
      modelHash, eatNonce := nonce, executionTimeMs := how.elapsed,
      preExecCheck := if O.preExec then "passed" else "not_checked", decision := "served",
      attestationDocHash := noTee K }) how.issuedAt

/-- `infer` of the model operator, once the request is reserved. -/
def executeModel (O : Operator) (q : Request) (nonce : String) (how : Conditions) : Run Value := do
  let reqCommit ← lift (getItem q.contract.payload "req_commit")
  if O.preExec && !(Value.str q.inputCommit).eq reqCommit then
    throw (.valueError "model pre-execution contract check rejected the request")
  start q nonce
  let response ← lift (modelReply O q.prompt q.body how.reply)
  let stmt ← lift (modelReceipt K O q how response)
  queue K (how.store .enqueue) stmt
  pure (.dict (fields [("body", response), ("receipt", stmt.toDict),
    ("model_kind", .str O.modelKind)]))

def scenarios : List Value :=
  texts ["normal", "response_tamper", "request_tamper", "missing_receipt", "missing_relay"]

/-- The scenario a lab run asks for. -/
def scenarioOf (O : Operator) (p : Value) : Py Value := do
  let scenario ← p.get "scenario" (.str "normal")
  if !scenario.eq (.str "normal") && !O.lab then
    throw (.valueError "fault injection is available only in the local lab")
  else if !memberOf scenario scenarios then throw (.valueError "unknown lab scenario")
  else pure scenario

/-- The attempt is copied from the contract, so it need not be text. -/
def relayStatement (O : Operator) (q : Request) (nonce : String) (how : Conditions)
    (outgoing incoming response : Value) : Py SignedStatement := do
  let attemptId ← getItem q.contract.payload "attempt_id"
  let outCommit ← digest K outgoing q.salt
  let respIn ← digest K incoming q.salt
  let respOut ← digest K response q.salt
  let report : RelayReport :=
    { attemptId := "", inCommit := q.inputCommit, outCommit, requestTransformId := "identity",
      upstreamId := issOf .M, upstreamModel := O.modelId, respInCommit := some respIn,
      respOutCommit := some respOut, responseTransformId := "identity",
      policyVersion := "network-v1", policyDecision := "forwarded", nonceForwarded := some nonce,
      saltForwarded := true, relaySeq := 1 }
  signed K O ctRelay q.sub (PyValue.insert (relayPayload report) (.str "attempt_id") attemptId)
    how.issuedAt

/-- What is made of the upstream's answer. -/
def forwarded (O : Operator) (q : Request) (nonce : String) (how : Conditions)
    (scenario outgoing upstream : Value) : Py (SignedStatement × SignedStatement × Value) := do
  let m ← authenticate K O.config (← upstream.item "receipt") .M (.str ctReceipt)
    (some (.str q.sub))
  let incoming ← upstream.item "body"
  let copied ← dictOf incoming
  let response : Value := .dict (if scenario.eq (.str "response_tamper") then
    PyValue.insert copied (.str "text")
      (.str "[중개자가 바꾼 응답] 검증되지 않은 내용을 사용하세요.") else copied)
  let stmt ← relayStatement K O q nonce how outgoing incoming response
  pure (m, stmt, response)

/-- `infer` of the relay, once the request is reserved. -/
def executeRelay (O : Operator) (q : Request) (p : Value) (nonce : String) (how : Conditions) :
    Run Value := do
  let scenario ← lift (scenarioOf O p)
  let outgoing : Value := if scenario.eq (.str "request_tamper") then
    .dict (fields [("prompt", .str (q.prompt ++ " [relay changed request]"))]) else q.body
  start q nonce
  let upstream ← lift (how.reply (.dict (fields [("contract", q.contract.toDict),
    ("body", outgoing), ("salt", q.salt)])))
  let (m, stmt, response) ← lift (forwarded K O q nonce how scenario outgoing upstream)
  if !scenario.eq (.str "missing_relay") then queue K (how.store .enqueue) stmt
  let modelKind ← lift (upstream.item "model_kind")
  pure (.dict (fields [("body", response),
    ("receipt", if scenario.eq (.str "missing_receipt") then .null else m.toDict),
    ("relay", if scenario.eq (.str "missing_relay") then .null else stmt.toDict),
    ("model_kind", modelKind)]))

def execute (O : Operator) (q : Request) (p : Value) (nonce : String) (how : Conditions) :
    Run Value :=
  if O.role = .M then executeModel K O q nonce how else executeRelay K O q p nonce how

/-- `Service.infer`. -/
def infer (O : Operator) (p : Value) (how : Conditions) : Run Value := do
  let q ← lift (accept K O p how.retired how.now)
  let previous ← get (how.store .previous) (executionKey q.sub)
  if previous.truthy then lift (recallStored K q previous)
  else do
    let nonce ← reserve K O q how
    let result ← execute K O q p nonce how
    put (how.store .finish) (executionKey q.sub) (completedRecord K q result)
    pure result

inductive Event where
  | call (p : Value) (how : Conditions)
  /-- The process ends, at any time, and a new one opens the directory. -/
  | restart

/-- Only the store outlives the process. -/
def step (O : Operator) (S : Machine) : Event → Machine
  | .call p how => final (infer K O p how S)
  | .restart => { S with sender := { S.sender with phase := .idle } }

def run (O : Operator) (S : Machine) (events : List Event) : Machine :=
  events.foldl (step K O) S

end Execution
