import Custody.ReplayAudit

/-!
# The third party of a simulation

It registers what the others submit, with a delay, keeps the users' private
evidence, and registers verdicts. An operation that raises leaves behind what it
had already changed.
-/

namespace ThirdParty

open PyValue Commitments Statements Schemas Evidence Equations Engine TransparencyLog ReplayAudit

def subPatternText : String := "^urn:itx:(req|policy):[0-9a-zA-Z:-]+$"

inductive Role where
  | user
  | relay
  | model
  deriving DecidableEq

/-- `ROLE_CONTENT_TYPES`. -/
def roleContentTypes : Role → List String
  | .user => [ctContract, ctObservation, ctManifest]
  | .relay => [ctRelay]
  | .model => [ctReceipt]

def thirdPartyIss : String := "urn:itx:party:third-party"

def tsBaseDelayMs : Int := 15

/-- The log, the service in front of it and what was handed over in private. -/
structure ThirdParty where
  log : Log
  baseDelayMs : Int
  extraDelayMs : Int
  down : Bool
  submissions : Nat := 0
  refusals : Nat := 0
  referenceModelHashes : Dict
  private_ : List (Value × PrivateEvidence) := []
  expectedParties : List (Value × List String) := []
  misjudge : Bool

variable (K : Primitives)

/-- A role's issuer name and signing key. -/
abbrev PartyKey := Role × String × KeyPair

def trustedOf (parties : List PartyKey) : Dict :=
  parties.foldl (fun d x => insert d (.str x.2.2.kid)
    (.dict (fields [("iss", .str x.2.1), ("public_key", .str (x.2.2.publicHex K))]))) []

def rightsOf (parties : List PartyKey) : Dict :=
  parties.foldl (fun d x => insert d (.str x.2.1) (.ofStrings (roleContentTypes x.1))) []

namespace ThirdParty

/-- `ThirdParty.__init__`. -/
def create (key : KeyPair) (parties : List PartyKey) (referenceModelHashes : Dict)
    (misjudge down : Bool) (extraDelayMs now : Int) : Py ThirdParty := do
  let policy := policyPayload 1 "ts-1" thirdPartyIss allContentTypes subPatternText
    (trustedOf K parties) (rightsOf parties)
  let log ← openLog K "ts-1" key subPattern policy now
  pure { log, baseDelayMs := tsBaseDelayMs, extraDelayMs, down, referenceModelHashes, misjudge }

def totalDelayMs (T : ThirdParty) : Int := T.baseDelayMs + T.extraDelayMs

def engine (T : ThirdParty) : ReconciliationEngine := engineOf T.log T.referenceModelHashes

/-- The state an operation leaves and what it returns or raises. -/
def settle {A : Type} (T : ThirdParty) : Py (ThirdParty × A) → ThirdParty × Py A
  | .ok (next, a) => (next, .ok a)
  | .error e => (T, .error e)

def unavailable : PyErr := .serviceUnavailable "ts-1 is down"

def submit (T : ThirdParty) (stmt : SignedStatement) (now : Int) :
    ThirdParty × Py RegistrationReceipt :=
  if T.down then (T, .error unavailable)
  else match T.log.register K stmt (now + T.totalDelayMs) with
    | .ok (log, receipt) => ({ T with log, submissions := T.submissions + 1 }, .ok receipt)
    | .error e =>
      ({ T with submissions := T.submissions + 1, refusals := T.refusals + 1 }, .error e)

def receivePrivate (T : ThirdParty) (sub : String) (ev : PrivateEvidence) : ThirdParty × Py Unit :=
  if T.down then (T, .error unavailable)
  else ({ T with private_ := insert T.private_ (.str sub) ev }, .ok ())

/-- What a misjudging third party makes of a verdict. -/
def misjudged (verdict : Verdict) (ev : EvidenceSet) : Verdict :=
  { verdict with
    status := .passed
    discrepancies := []
    equations := fun k =>
      if (verdict.equations k).result = .fail then
        { verdict.equations k with result := .pass, reason := "(T 오판) 일치" }
      else verdict.equations k
    establishedAssurance := if ev.receipt.isSome then "air-local" else "none" }

def reconcile (T : ThirdParty) (sub : String) (expectedParties : List String) (now : Int) :
    Py Verdict := do
  let entries := (T.log.statementsFor (.str sub) (some now)).filter fun e => !isVerdict e
  let ev ← gather K T.engine (.str sub) entries (find T.private_ (.str sub)) now
  let verdict ← Engine.reconcile K T.engine ev expectedParties
  pure (if T.misjudge then misjudged verdict ev else verdict)

/-- `_register_verdict`. -/
def registerVerdict (T : ThirdParty) (sub : String) (verdict : Verdict) (now : Int) :
    Py (ThirdParty × SignedStatement) := do
  let stmt ← issue K T.log.policy.key (.str thirdPartyIss) (.str sub) (.str ctVerdict)
    verdict.toDict now
  let (log, _) ← T.log.register K stmt now
  pure ({ T with log }, stmt)

def asked (T : ThirdParty) (sub : String) (expectedParties : List String) : ThirdParty :=
  { T with expectedParties := insert T.expectedParties (.str sub) expectedParties }

def decisive (verdict : Verdict) : Bool :=
  decide (verdict.status = .passed ∨ verdict.status = .failed)

/-- Only a decisive verdict is registered; any other is a preview. -/
def registerDecisive (T : ThirdParty) (sub : String) (now : Int) (verdict : Verdict) :
    Py (ThirdParty × Verdict × Option SignedStatement) :=
  if decisive verdict then do
    let (next, stmt) ← T.registerVerdict K sub verdict now
    pure (next, verdict, some stmt)
  else .ok (T, verdict, none)

def requestVerdict (T : ThirdParty) (sub : String) (expectedParties : List String) (now : Int) :
    ThirdParty × Py (Verdict × Option SignedStatement) :=
  if T.down then (T, .error unavailable)
  else
    let T := T.asked sub expectedParties
    T.settle (T.reconcile K sub expectedParties now >>= T.registerDecisive K sub now)

def finalize (T : ThirdParty) (sub : String) (expectedParties : List String) (now : Int) :
    ThirdParty × Py SignedStatement :=
  let T := T.asked sub expectedParties
  T.settle (T.reconcile K sub expectedParties now >>= fun verdict =>
    T.registerVerdict K sub verdict now)

end ThirdParty

inductive Operation where
  | submit (stmt : SignedStatement) (now : Int)
  | receivePrivate (sub : String) (ev : PrivateEvidence)
  | requestVerdict (sub : String) (expectedParties : List String) (now : Int)
  | finalize (sub : String) (expectedParties : List String) (now : Int)
  | setDown (down : Bool)

/-- The state after an operation, whether it returned or raised. -/
def step (T : ThirdParty) : Operation → ThirdParty
  | .submit stmt now => (T.submit K stmt now).1
  | .receivePrivate sub ev => (T.receivePrivate sub ev).1
  | .requestVerdict sub expectedParties now => (T.requestVerdict K sub expectedParties now).1
  | .finalize sub expectedParties now => (T.finalize K sub expectedParties now).1
  | .setDown down => { T with down }

def run (T : ThirdParty) (ops : List Operation) : ThirdParty := ops.foldl (step K) T

/-- An auditor who was given everything the third party keeps. -/
def ThirdParty.auditor (T : ThirdParty) (anchorRecords heldReceipts : List Value)
    (tsa : Value → Except String Value) : Auditor :=
  { privateBySub := T.private_.map fun x => (x.1, x.2.toDict)
    expectedPartiesBySub := T.expectedParties
    referenceModelHashes := T.referenceModelHashes
    anchorRecords, heldReceipts, tsa }

end ThirdParty
