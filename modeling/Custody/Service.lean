import Custody.Identity
import Custody.ReplayAudit

/-!
# The network third party

It registers authenticated statements, keeps one version of the private evidence
of each request, and signs a verdict on what it has registered so far. What it
stores is written as canonical JSON and read back.
-/

namespace Service

open PyValue HexBytes CanonicalJson Commitments Statements Schemas Evidence Equations Engine
  TransparencyLog ReplayAudit Identity

structure Service where
  config : Config
  key : KeyPair
  log : Log
  /-- `journal`: statement hash → the receipt stored with it; the policy has none. -/
  journal : List (String × Option Value)
  /-- The `private:` keys of the store, by request. -/
  private_ : List (Value × Value) := []

variable (K : Primitives)

namespace Service

/-- `Service.__init__` with an empty store. -/
def start (config : Config) (seed : Bytes) : Py Service := do
  let key ← keyFor K config .T seed
  let log ← openLog K config.logId key subPattern (policyFor config) config.createdAt
  pure { config, key, log, journal := [(log.policy.policyHash, none)] }

def engine (S : Service) : ReconciliationEngine := engineOf S.log S.config.modelHashes

/-- The statement is registered and its receipt stored in the journal. -/
def append (S : Service) (stmt : SignedStatement) (hash : String) (now : Int) :
    Py (Service × Value) := do
  let (log, receipt) ← S.log.register K stmt now
  pure ({ S with log, journal := S.journal ++ [(hash, some receipt.toDict)] }, receipt.toDict)

/-- `register(stmt)`. A statement registered before gets the receipt it got then. -/
def register (S : Service) (stmt : SignedStatement) (now : Int) : Py (Service × Value) := do
  let hash ← stmt.statementHash K
  match S.journal.lookup hash with
  | some (some receipt) => pure (S, receipt)
  | some none => throw .keyError
  | none =>
    if S.log.entries.length ≥ S.config.maxLogEntries then
      throw (.valueError "log capacity reached; provision a successor deployment epoch")
    else if !stmt.contentType.eq (.str ctVerdict) &&
        (S.log.statementsFor stmt.sub none).any
          (fun e => e.statement.contentType.eq stmt.contentType) then
      throw (.valueError "conflicting statement; corrections require a new protocol version")
    else S.append K stmt hash now

def authenticateAndRegister (S : Service) (actor : Role) (statement ct : Value) (now : Int) :
    Py (Service × Value) := do
  let stmt ← authenticate K S.config statement actor ct none
  let (next, receipt) ← S.register K stmt now
  pure (next, .dict (fields [("receipt", receipt)]))

/-- `assert_active`, which looks for a retirement record. -/
def submitStatement (S : Service) (actor : Role) (statement : Value) (retired : Bool) (now : Int) :
    Py (Service × Value) := do
  let ct ← statement.get "content_type" .null
  if ct.eq (.str ctContract) && retired then
    throw (.valueError "이전 배포 세대가 폐기되었습니다. 승인된 새 설정으로 전환하세요.")
  else if !memberOf ct (texts (typesOf actor)) then
    throw (.valueError "unauthorized statement type")
  else S.authenticateAndRegister K actor statement ct now

def invalidPrivate : PyErr := .valueError "invalid private evidence"

/-- `len(v) != 64 or len(bytes.fromhex(v)) != 32`. -/
def checkPrivateField : Value → Py Unit
  | .str s =>
    if s.length ≠ 64 then .error invalidPrivate
    else do
      let bytes ← fromHexValue (.str s)
      if bytes.length ≠ 32 then throw invalidPrivate else pure ()
  | .list xs => .error (if xs.length ≠ 64 then invalidPrivate else .typeError)
  | .dict kvs => .error (if kvs.length ≠ 64 then invalidPrivate else .typeError)
  | _ => .error .typeError

/-- The request evidence of a stored version may not change. -/
def rewritten (previous new : Value) : List String → Py Bool
  | [] => .ok false
  | k :: rest => do
    let before ← previous.item k
    let after ← new.item k
    if before.eq after then rewritten previous new rest else pure true

/-- `self.store.put`: the value comes back as its canonical JSON is read. -/
def stored (value : Value) : Py Value := do
  let _ ← canonicalJson value
  pure (canon value)

def putPrivate (S : Service) (sub : String) (ev : PrivateEvidence) : Py (Service × Value) := do
  let value ← stored ev.toDict
  pure ({ S with private_ := insert S.private_ (.str sub) value },
    .dict (fields [("stored", .bool true)]))

def replacePrivate (S : Service) (sub : String) (ev : PrivateEvidence) : Py (Service × Value) := do
  let previous := (find S.private_ (.str sub)).getD .null
  if !previous.truthy then S.putPrivate sub ev
  else do
    let changed ← rewritten previous ev.toDict ["salt", "request_hash", "expected_request_commits"]
    if changed then throw (.valueError "private request evidence cannot be rewritten")
    else S.putPrivate sub ev

def submitPrivate (S : Service) (sub value : Value) : Py (Service × Value) :=
  if !(S.log.statementsFor sub none).any
      (fun e => e.statement.contentType.eq (.str ctContract)) then
    .error (.valueError "contract must be registered first")
  else do
    let ev ← PrivateEvidence.fromDict value
    checkPrivateField ev.salt
    checkPrivateField ev.requestHash
    match sub with
    | .str s => S.replacePrivate s ev
    | _ => throw .typeError

/-- `third_party(actor, "submit", p)`. -/
def submit (S : Service) (actor : Role) (p : Dict) (retired : Bool) (now : Int) :
    Py (Service × Value) :=
  match find p (.str "statement") with
  | some statement => S.submitStatement K actor statement retired now
  | none =>
    if actor = .U && hasExactly ["sub", "private"] p then
      S.submitPrivate (getOr p "sub") (getOr p "private")
    else .error (.valueError "invalid submission")

/-- The clock readings of one verdict. -/
structure Readings where
  gathered : Int
  valid : Int
  issued : Int
  registered : Int
  head : Int

/-- The fields that bind a network verdict to its contract, its evidence and a lifetime. -/
def boundVerdict (verdict : Verdict) (contractHash privateHash : String) (validUntil : Int) :
    Dict :=
  insert (insert (insert verdict.toDict (.str "contract_hash") (.str contractHash))
    (.str "private_evidence_hash") (.str privateHash)) (.str "valid_until") (.int validUntil)

def parties : List String := ["U", "R", "M"]

def registerVerdict (S : Service) (sub : String) (verdict : Dict) (clock : Readings) :
    Py (Service × Value) := do
  let stmt ← issue K S.key (.str (issOf .T)) (.str sub) (.str ctVerdict) verdict clock.issued
  let (next, receipt) ← S.register K stmt clock.registered
  let head ← next.log.treeHead K clock.head
  pure (next, .dict (fields [("statement", stmt.toDict), ("receipt", receipt),
    ("head", .dict head)]))

def judgeRequest (S : Service) (sub : String) (entries : List LogEntry) (priv : Value)
    (clock : Readings) : Py (Service × Value) := do
  let ev ← gather K S.engine (.str sub) entries (← readPrivate priv) clock.gathered
  let verdict ← reconcile K S.engine ev parties
  match ev.contract with
  | none => throw (.valueError "unknown request")
  | some contract => do
    let contractHash ← contract.statementHash K
    let privateHash ← contentHash K priv
    S.registerVerdict K sub (boundVerdict verdict contractHash privateHash (clock.valid + 30000))
      clock

/-- `third_party(actor, "verdict", p)`. -/
def verdict (S : Service) (p : Dict) (clock : Readings) : Py (Service × Value) := do
  let sub ← getItem p "sub"
  let entries := (S.log.statementsFor sub none).filter fun e => !isVerdict e
  match sub with
  | .str s => match find S.private_ (.str s) with
    | none => throw (.valueError "private request evidence is not registered yet")
    | some priv => S.judgeRequest K s entries priv clock
  | _ => throw .typeError

end Service

inductive Operation where
  | submit (actor : Role) (p : Dict) (retired : Bool) (now : Int)
  | verdict (p : Dict) (clock : Service.Readings)

def perform (S : Service) : Operation → Py (Service × Value)
  | .submit actor p retired now => S.submit K actor p retired now
  | .verdict p clock => S.verdict K p clock

/-- An operation that raises leaves the state as it was. -/
def step (S : Service) (op : Operation) : Service :=
  match perform K S op with
  | .ok (next, _) => next
  | .error _ => S

def run (S : Service) (ops : List Operation) : Service := ops.foldl (step K) S

/-- Every version of private evidence that is stored at some time of the run. -/
def everStored (S : Service) : List Operation → List Value
  | [] => S.private_.map Prod.snd
  | op :: ops => S.private_.map Prod.snd ++ everStored (step K S op) ops

end Service
