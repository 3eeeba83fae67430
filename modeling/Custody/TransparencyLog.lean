import Custody.Engine
import Custody.Merkle

/-!
# The transparency log

Statements are registered under a policy that is itself entry zero, and each
registration returns a signed receipt. Entries are only ever appended.
-/

namespace TransparencyLog

open PyValue HexBytes CanonicalJson Commitments Statements Schemas Engine Merkle

/-- A receipt as it is read back from JSON; the fields keep whatever types they have. -/
structure RegistrationReceipt where
  logId : Value
  leafIndex : Value
  treeSize : Value
  rootHash : Value
  leafHash : Value
  registeredAt : Value
  tsKid : Value
  inclusionProof : Value
  signature : Value

namespace RegistrationReceipt

def body (r : RegistrationReceipt) : Dict :=
  fields [("log_id", r.logId), ("leaf_index", r.leafIndex), ("tree_size", r.treeSize),
    ("root_hash", r.rootHash), ("leaf_hash", r.leafHash), ("registered_at", r.registeredAt),
    ("ts_kid", r.tsKid)]

def signedBytes (r : RegistrationReceipt) : Py Bytes := canonicalJson (.dict r.body)

def toDict (r : RegistrationReceipt) : Value :=
  .dict (r.body ++ fields [("inclusion_proof", r.inclusionProof), ("signature", r.signature)])

def fromDict (d : Value) : Py RegistrationReceipt := do
  let logId ← d.item "log_id"
  let leafIndex ← d.item "leaf_index"
  let treeSize ← d.item "tree_size"
  let rootHash ← d.item "root_hash"
  let leafHash ← d.item "leaf_hash"
  let registeredAt ← d.item "registered_at"
  let tsKid ← d.item "ts_kid"
  let inclusionProof ← d.item "inclusion_proof"
  let signature ← d.item "signature"
  pure { logId, leafIndex, treeSize, rootHash, leafHash, registeredAt, tsKid, inclusionProof,
         signature }

theorem fromDict_toDict (r : RegistrationReceipt) : fromDict r.toDict = .ok r := by
  simp [fromDict, toDict, body, fields, Value.item, find]

end RegistrationReceipt

/-- `^urn:itx:(req|policy):[0-9a-zA-Z:-]+$`, where `$` allows one final line feed. -/
def subPattern (s : String) : Bool :=
  let inClass (c : Char) : Bool := c.isAlphanum || c == ':' || c == '-'
  let rest (head : String) : Option (List Char) :=
    if startsWith s head then some (s.toList.drop head.length) else none
  let accepts (cs : List Char) : Bool :=
    let cs := if cs.getLast? = some '\n' then cs.dropLast else cs
    !cs.isEmpty && cs.all inClass
  ((rest "urn:itx:req:").any accepts) || ((rest "urn:itx:policy:").any accepts)

/-- `TS_CONTENT_TYPES`. -/
def tsContentTypes : List Value := texts [ctPolicy, ctVerdict]

structure LogPolicy where
  logId : String
  key : KeyPair
  tsIss : Value
  /-- The compiled `sub_pattern`. -/
  subRe : String → Bool
  allowedContentTypes : List Value
  trusted : List (Value × Value × Bytes)
  issuerContentTypes : List (Value × List Value)
  trustKeysVersion : String
  policyStatement : SignedStatement
  policyHash : String

/-- The log's settings, its tree and its entries; an entry's index is its position,
and its leaf hash is the tree's leaf there. -/
structure Log where
  policy : LogPolicy
  tree : MerkleTree
  entries : List LogEntry

variable (K : Primitives)

def trustedKey (info : Value) : Py (Value × Bytes) := do
  let iss ← info.item "iss"
  let publicKey ← fromHexValue (← info.item "public_key")
  pure (iss, publicKey)

/-- `{kid: (info["iss"], bytes.fromhex(info["public_key"])) for ...}`. -/
def trustedKeys (keys : Value) : Py (List (Value × Value × Bytes)) :=
  match keys with
  | .dict kvs => kvs.mapM fun x => do pure (x.1, ← trustedKey x.2)
  | _ => .error .attributeError

/-- `{iss: tuple(cts) for iss, cts in ...items()}`. -/
def issuerRights (rights : Value) : Py (List (Value × List Value)) :=
  match rights with
  | .dict kvs => kvs.mapM fun x => do pure (x.1, ← x.2.iterate)
  | _ => .error .attributeError

def keysVersion (logId : String) (version : Value) : String :=
  logId ++ "/keys-v" ++ text K version

/-- `set(xs)` of values that are only ever tested for membership. -/
def hashed (xs : List Value) : Py (List Value) :=
  if xs.all Value.hashable then .ok xs else .error .typeError

/-- `x in xs` for a set. -/
def inSet (x : Value) (xs : List Value) : Py Bool :=
  if x.hashable then .ok (memberOf x xs) else .error .typeError

/-- `TransparencyLog.__init__`, where `subRe` is the policy's compiled `sub_pattern`. -/
def openLog (logId : String) (key : KeyPair) (subRe : String → Bool) (policy : Dict)
    (now : Int) : Py Log := do
  let tsIss ← getItem policy "ts_iss"
  let allowed ← hashed (← (← getItem policy "allowed_content_types").iterate)
  let trusted ← trustedKeys (← getItem policy "trusted_keys")
  let rights ← issuerRights (← getItem policy "issuer_content_types")
  if !tsIss.hashable then throw .typeError
  let version ← getItem policy "version"
  let policyStatement ← issue K key tsIss (.str ("urn:itx:policy:" ++ logId)) (.str ctPolicy)
    policy now
  let policyHash ← policyStatement.statementHash K
  let leaf ← policyStatement.leafBytes
  pure {
    policy := {
      logId, key, tsIss, subRe, allowedContentTypes := allowed ++ [.str ctPolicy],
      trusted := insert trusted (.str key.kid) (tsIss, key.publicKey K),
      issuerContentTypes := insert rights tsIss tsContentTypes,
      trustKeysVersion := keysVersion K logId version, policyStatement, policyHash }
    tree := MerkleTree.append K {} leaf
    entries := [{ index := 0, registeredAt := now, statement := policyStatement }] }

namespace Log

def subMatches (log : Log) : Value → Py Bool
  | .str s => .ok (log.policy.subRe s)
  | _ => .error .typeError

/-- The part of `check_policy` about the signing key. -/
def keyErrors (log : Log) (s : SignedStatement) : Py (List String) := do
  match ← lookup log.policy.trusted s.kid with
  | none => pure ["unknown kid " ++ text K s.kid]
  | some (iss, publicKey) =>
    if !iss.eq s.iss then
      pure ["kid " ++ text K s.kid ++ " is not bound to iss " ++ text K s.iss]
    else
      let valid ← s.verifyWith K publicKey
      pure (errorIf (!valid) "signature invalid")

def checkPolicy (log : Log) (s : SignedStatement) : Py (List String) := do
  let known ← inSet s.contentType log.policy.allowedContentTypes
  let matched ← log.subMatches s.sub
  let key ← log.keyErrors K s
  let rights := (← lookup log.policy.issuerContentTypes s.iss).getD []
  let schema ← validatePayload K s.contentType s.payload
  pure (errorIf (!known) ("content_type not allowed: " ++ text K s.contentType) ++
    errorIf (!matched) ("sub does not match policy pattern: " ++ text K s.sub) ++ key ++
    errorIf (!memberOf s.contentType rights)
      ("iss " ++ text K s.iss ++ " may not issue " ++ text K s.contentType) ++ schema)

/-- `_append`: the new entry takes the next index. -/
def append (log : Log) (s : SignedStatement) (registeredAt : Int) :
    Py (Log × RegistrationReceipt) := do
  let data ← s.leafBytes
  let index := log.tree.size
  let tree := log.tree.append K data
  let receipt : RegistrationReceipt :=
    { logId := .str log.policy.logId, leafIndex := .int index, treeSize := .int tree.size,
      rootHash := .str (hex (tree.root K)), leafHash := .str (hex (leafHash K data)),
      registeredAt := .int registeredAt, tsKid := .str log.policy.key.kid,
      inclusionProof := .ofStrings ((tree.inclusionProof K index).map hex),
      signature := .str "" }
  let message ← receipt.signedBytes
  pure ({ log with tree, entries := log.entries ++ [{ index, registeredAt, statement := s }] },
    { receipt with signature := .str (hex (log.policy.key.sign K message)) })

def register (log : Log) (s : SignedStatement) (registeredAt : Int) :
    Py (Log × RegistrationReceipt) := do
  let errors ← log.checkPolicy K s
  if !errors.isEmpty then throw (.registrationRefused errors)
  else log.append K s registeredAt

def treeHead (log : Log) (now : Int) : Py Dict := do
  let head := fields [("log_id", .str log.policy.logId), ("tree_size", .int log.tree.size),
    ("root_hash", .str (hex (log.tree.root K))), ("time", .int now),
    ("ts_kid", .str log.policy.key.kid)]
  let message ← canonicalJson (.dict head)
  pure (head ++ fields [("signature", .str (hex (log.policy.key.sign K message)))])

def visibleAt (e : LogEntry) : Option Int → Bool
  | none => true
  | some t => decide (e.registeredAt ≤ t)

def statementsFor (log : Log) (sub : Value) (visible : Option Int) : List LogEntry :=
  log.entries.filter fun e => e.statement.sub.eq sub && visibleAt e visible

end Log

/-- The engine a log's operator judges with. -/
def engineOf (log : Log) (referenceModelHashes : Dict) : ReconciliationEngine :=
  { trustedKeys := log.policy.trusted, referenceModelHashes, policyHash := log.policy.policyHash,
    trustKeysVersion := log.policy.trustKeysVersion,
    issuerContentTypes := log.policy.issuerContentTypes }

structure ExportEntry where
  index : Int
  registeredAt : Int
  statement : Value

/-- What the operator hands to an auditor. -/
structure Export where
  logId : String
  tsKid : String
  tsPublicKey : String
  tsIss : Value
  policyHash : Value
  entries : List ExportEntry
  head : Dict

def exportEntry (e : LogEntry) : ExportEntry :=
  { index := e.index, registeredAt := e.registeredAt, statement := e.statement.toDict }

/-- `export(now)`. -/
def Log.exportLog (log : Log) (now : Int) : Py Export := do
  let head ← log.treeHead K now
  pure { logId := log.policy.logId, tsKid := log.policy.key.kid,
         tsPublicKey := log.policy.key.publicHex K, tsIss := log.policy.tsIss,
         policyHash := .str log.policy.policyHash, entries := log.entries.map exportEntry, head }

/-- A log reached from a fresh one by accepted registrations. -/
inductive Reachable (K : Primitives) : Log → Prop where
  | opened {logId : String} {key : KeyPair} {subRe : String → Bool} {policy : Dict} {now : Int}
      {log : Log} (created : openLog K logId key subRe policy now = .ok log) : Reachable K log
  | registered {log next : Log} {s : SignedStatement} {registeredAt : Int}
      {receipt : RegistrationReceipt} (earlier : Reachable K log)
      (accepted : log.register K s registeredAt = .ok (next, receipt)) : Reachable K next

variable {K}

theorem append_ok {log next : Log} {s : SignedStatement} {registeredAt : Int}
    {receipt : RegistrationReceipt} (h : log.append K s registeredAt = .ok (next, receipt)) :
    next.policy = log.policy ∧
    next.entries = log.entries ++
      [{ index := log.tree.size, registeredAt, statement := s }] ∧
    ∃ data, s.leafBytes = .ok data ∧ next.tree = log.tree.append K data := by
  simp only [Log.append, bind_ok, pure_ok, Except.ok.injEq, Prod.mk.injEq] at h
  obtain ⟨data, bytes, -, -, rfl, -⟩ := h
  exact ⟨rfl, rfl, data, bytes, rfl⟩

theorem register_ok {log next : Log} {s : SignedStatement} {registeredAt : Int}
    {receipt : RegistrationReceipt} (h : log.register K s registeredAt = .ok (next, receipt)) :
    log.checkPolicy K s = .ok [] ∧ log.append K s registeredAt = .ok (next, receipt) := by
  obtain ⟨errors, checked, h⟩ := bind_ok.mp h
  cases errors with
  | nil => exact ⟨checked, h⟩
  | cons e rest => cases h

end TransparencyLog
