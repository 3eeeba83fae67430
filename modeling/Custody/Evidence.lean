import Custody.Schemas

/-!
# Evidence

The transforms a contract may allow, what the user hands to the third party in
private, and the statements of one request gathered for a judgment.
-/

namespace Evidence

open PyValue HexBytes CanonicalJson Commitments Statements

def identity : String := "identity"
def publicFormatterV1 : String := "public-formatter-v1"

/-- `public_formatter_v1(request)`. -/
def publicFormatter (request : Dict) : Dict :=
  insert (insert request (.str "system") (.str "You are a concise assistant. Answer in Korean."))
    (.str "formatter") (.str publicFormatterV1)

def identitySource : String :=
  "def identity(obj: Any) -> Any:\n    return obj\n"

def publicFormatterSource : String :=
  "def public_formatter_v1(request: dict[str, Any]) -> dict[str, Any]:\n" ++
  "    \"\"\"공개된 결정적 변환의 예. 고정 시스템 프롬프트를 붙인다. 누구나 재계산할 수 있다.\"\"\"\n" ++
  "    out = dict(request)\n" ++
  "    out[\"system\"] = \"You are a concise assistant. Answer in Korean.\"\n" ++
  "    out[\"formatter\"] = PUBLIC_FORMATTER_V1\n" ++
  "    return out\n"

/-- The registry, as the source text that `inspect.getsource` returns for each name.
The registry of response transforms adds no further name. -/
def requestTransforms : List (Value × String) :=
  [(.str identity, identitySource), (.str publicFormatterV1, publicFormatterSource)]

def isRecomputableRequestTransform (name : Value) : Py Bool := do
  pure (← lookup requestTransforms name).isSome

def applyTransform (name : String) (request : Dict) : Option Dict :=
  if name = identity then some request
  else if name = publicFormatterV1 then some (publicFormatter request)
  else none

variable (K : Primitives)

def transformDefinitionHash (name : Value) : Py (Option String) := do
  pure ((← lookup requestTransforms name).map fun source =>
    sha256Hex K (utf8 source.toList))

structure PrivateEvidence where
  salt : Value
  requestHash : Value
  responseHash : Value := .null
  expectedRequestCommits : Dict := []

namespace PrivateEvidence

def toDict (p : PrivateEvidence) : Value :=
  .dict (fields [("salt", p.salt), ("request_hash", p.requestHash),
    ("response_hash", p.responseHash),
    ("expected_request_commits", .dict p.expectedRequestCommits)])

def fromDict (d : Value) : Py PrivateEvidence := do
  let salt ← d.item "salt"
  let requestHash ← d.item "request_hash"
  let responseHash ← d.get "response_hash" .null
  let expectedRequestCommits ← dictOf (← d.get "expected_request_commits" (.dict []))
  pure { salt, requestHash, responseHash, expectedRequestCommits }

theorem fromDict_toDict (p : PrivateEvidence) : fromDict p.toDict = .ok p := by
  simp [fromDict, toDict, fields, Value.item, Value.get, find, dictOf]

end PrivateEvidence

/-- A fixed reference to a statement a verdict rests on. -/
structure StatementRef where
  contentType : Value
  iss : Value
  kid : Value
  statementHash : String
  logIndex : Option Int
  registeredAt : Option Int
  signatureValid : Bool

def optionInt : Option Int → Value
  | some n => .int n
  | none => .null

def StatementRef.toDict (r : StatementRef) : Value :=
  .dict (fields [("content_type", r.contentType), ("iss", r.iss), ("kid", r.kid),
    ("statement_hash", .str r.statementHash), ("log_index", optionInt r.logIndex),
    ("registered_at", optionInt r.registeredAt), ("signature_valid", .bool r.signatureValid)])

inductive ReceiptSource where
  | registered
  | presentedToUser
  | none
  deriving DecidableEq

structure EvidenceSet where
  sub : Value
  contract : Option SignedStatement := none
  relay : Option SignedStatement := none
  receipt : Option SignedStatement := none
  observation : Option SignedStatement := none
  manifest : Option SignedStatement := none
  privateEvidence : Option PrivateEvidence := none
  referenceModelHashes : Dict := []
  refs : List StatementRef := []
  invalidSignatures : List StatementRef := []
  /-- Validly signed, but by an issuer with no right to this content type. -/
  unauthorizedIssuers : List StatementRef := []
  receiptSource : ReceiptSource := .registered
  now : Int := 0

namespace EvidenceSet

def c (ev : EvidenceSet) : Option Dict := ev.contract.map SignedStatement.payload
def r (ev : EvidenceSet) : Option Dict := ev.relay.map SignedStatement.payload
def m (ev : EvidenceSet) : Option Dict := ev.receipt.map SignedStatement.payload
def o (ev : EvidenceSet) : Option Dict := ev.observation.map SignedStatement.payload

def presentParties (ev : EvidenceSet) : List String :=
  (if ev.contract.isSome || ev.observation.isSome then ["U"] else []) ++
  (if ev.relay.isSome then ["R"] else []) ++
  (if ev.receipt.isSome then ["M"] else [])

def cooperationSet (ev : EvidenceSet) : String :=
  if ev.presentParties.isEmpty then "none" else "+".intercalate ev.presentParties

end EvidenceSet

end Evidence
