import Custody.HeldReceipts
import Mathlib.Algebra.GroupWithZero.Nat

/-!
# Replaying the audit

An auditor takes an export, rebuilds the tree and the trusted keys from it, and
runs the engine again for every request. Only a projection of each verdict is
compared, and a smaller one when the user's private evidence is not at hand.
-/

namespace ReplayAudit

open PyValue HexBytes CanonicalJson Commitments Statements Schemas Evidence Equations Engine
  Merkle TransparencyLog HeldReceipts

variable (K : Primitives)

def privateOnlyEquations : List EqId := [.e1, .e4]

def privateOnlyCodes : List Value := texts ["D-USER-SELF", "D-REQ-UNAPPROVED"]

def ignored (ignore : List EqId) (k : Value) : Bool := memberOf k (ignore.map fun e => .str e.name)

structure VerdictSignature where
  verificationStatus : Value
  completeness : Value
  codes : List Value
  equations : Dict
  policyHash : Value
  checkerVersion : Value
  trustKeysVersion : Value
  evidence : List Value

def VerdictSignature.same (a b : VerdictSignature) : Bool :=
  a.verificationStatus.eq b.verificationStatus && a.completeness.eq b.completeness &&
  Value.eq (.list a.codes) (.list b.codes) && Value.eq (.dict a.equations) (.dict b.equations) &&
  a.policyHash.eq b.policyHash && a.checkerVersion.eq b.checkerVersion &&
  a.trustKeysVersion.eq b.trustKeysVersion && Value.eq (.list a.evidence) (.list b.evidence)

def items : Value → Py Dict
  | .dict kvs => .ok kvs
  | _ => .error .attributeError

/-- `{k: e["result"] for k, e in equations.items() if k not in ignore}`. -/
def equationResults (ignore : List EqId) : Dict → Py Dict
  | [] => .ok []
  | (k, e) :: rest =>
    if ignored ignore k then equationResults ignore rest
    else do
      let result ← e.item "result"
      pure ((k, result) :: (← equationResults ignore rest))

/-- The codes kept for the comparison, in the order they appear. -/
def keptCodes (ignore : List EqId) : List Value → Py (List Value)
  | [] => .ok []
  | d :: rest => do
    let code ← d.item "code"
    let later ← keptCodes ignore rest
    pure (if !ignore.isEmpty && memberOf code privateOnlyCodes then later else code :: later)

def getAll (k : String) (xs : List Value) : Py (List Value) := xs.mapM fun x => x.get k .null

/-- The status as compared: without private evidence, passing everything else counts the
same as passing. -/
def comparedStatus (ignore : List EqId) (status : Value) (results : Dict) : Value :=
  if ignore.isEmpty then status
  else if status.eq (.str "passed") then .str "passed_excluding_private"
  else if status.eq (.str "insufficient_evidence") &&
      (requiredForPass.filter fun k => !ignore.contains k).all fun k =>
        (getOr results k.name).eq (.str "pass") then .str "passed_excluding_private"
  else status

/-- `_verdict_signature(v, ignore_equations)`. -/
def verdictSignature (v : Dict) (ignore : List EqId) : Py VerdictSignature := do
  let equations ← equationResults ignore (← items (← getItem v "equations"))
  let kept ← keptCodes ignore (← (← getItem v "discrepancies").iterate)
  let codes ← sortedBy id kept
  let status ← getItem v "verification_status"
  let completeness ← getItem v "completeness"
  let refs ← ((find v (.str "evidence_refs")).getD (.list [])).iterate
  let evidence ← sortedBy id (← getAll "statement_hash" refs)
  pure { verificationStatus := comparedStatus ignore status equations, completeness, codes,
         equations, policyHash := getOr v "policy_hash",
         checkerVersion := getOr v "checker_version",
         trustKeysVersion := getOr v "trust_keys_version", evidence }

structure Auditor where
  /-- The user's private evidence the auditor was given, by request. -/
  privateBySub : List (Value × Value)
  expectedPartiesBySub : List (Value × List String)
  referenceModelHashes : Dict
  privateByHash : List (Value × Value) := []
  heldReceipts : List Value := []
  anchorRecords : List Value := []
  /-- Verification of timestamp tokens, which an outside program does. -/
  tsa : Value → Except String Value

/-- `_verdict_envelope_problem`: why a verdict is not the log operator's, if it is not. -/
def verdictEnvelopeProblem (s : SignedStatement) (ex : Export) (tsPub : Bytes) :
    Py (Option String) := do
  if !s.iss.eq ex.tsIss then pure (some ("판정 발행자가 로그의 TS 가 아님: " ++ text K s.iss))
  else if !s.kid.eq (.str ex.tsKid) then
    pure (some ("판정 kid 가 로그의 TS 키가 아님: " ++ text K s.kid))
  else
    let valid ← s.verifyWith K tsPub
    pure (if valid then none else some "판정 서명이 TS 키로 검증되지 않음")

/-- The private evidence a verdict is replayed with. A verdict may name the content hash of
the version it was made from; evidence that does not have that hash is then left out. -/
def selectPrivate (auditor : Auditor) (sub : Value) (last : Option Dict) : Py Value := do
  let held := ((← lookup auditor.privateBySub sub).getD .null)
  let named := field last "private_evidence_hash"
  if !named.truthy then pure held
  else
    let candidate := (← lookup auditor.privateByHash named).getD held
    if !candidate.truthy then pure .null
    else
      let hash ← contentHash K candidate
      pure (if Value.eq (.str hash) named then candidate else .null)

def readPrivate (v : Value) : Py (Option PrivateEvidence) :=
  if v.truthy then do pure (some (← PrivateEvidence.fromDict v)) else .ok none

structure Comparison where
  logIndex : Option Int
  recomputed : VerdictSignature
  tVerdict : Option VerdictSignature
  comparedWithout : List EqId
  evidenceCutoffIndex : Int
  evidenceAfterVerdict : Nat
  matched : Bool

def isVerdict (e : LogEntry) : Bool := e.statement.contentType.eq (.str ctVerdict)

def evidenceEntries (entries : List LogEntry) (sub : Value) : List LogEntry :=
  entries.filter fun e => e.statement.sub.eq sub && !isVerdict e

/-- What `engine` says of the entries before `cutoff`. -/
def recompute (engine : ReconciliationEngine) (evidence : List LogEntry) (cutoff : Int)
    (sub : Value) (privateEvidence : Option PrivateEvidence) (expected : List String)
    (now : Int) : Py Verdict := do
  let snapshot := evidence.filter fun e => decide (e.index < cutoff)
  let ev ← gather K engine sub snapshot privateEvidence now
  reconcile K engine ev expected

/-- `verdict_entry.statement.payload if verdict_entry else None`; an empty payload counts as
none when it is read. -/
def payloadOf (entry : Option LogEntry) : Option Dict := entry.map fun e => e.statement.payload

def signatureOf (last : Option Dict) (ignore : List EqId) : Py (Option VerdictSignature) :=
  match last with
  | some (x :: v) => do pure (some (← verdictSignature (x :: v) ignore))
  | _ => .ok none

def sameSignature (t : Option VerdictSignature) (mine : VerdictSignature) : Bool :=
  match t with
  | some t => t.same mine
  | none => false

/-- A verdict is replayed at the time it was issued, a missing one at the time of the head. -/
def verdictTime (headTime : Py Int) : Option LogEntry → Py Int
  | some e => .ok e.statement.issuedAt
  | none => headTime

/-- The comparison of one verdict, or of the missing one, with its replay. -/
def compareVerdict (auditor : Auditor) (engine : ReconciliationEngine)
    (entries : List LogEntry) (headTime : Py Int) (sub : Value) (expected : List String)
    (entry : Option LogEntry) : Py Comparison := do
  let last := payloadOf entry
  let priv ← selectPrivate K auditor sub last
  let ignore := if priv.truthy then [] else privateOnlyEquations
  let cutoff := (entry.map LogEntry.index).getD entries.length
  let now ← verdictTime headTime entry
  let evidence := evidenceEntries entries sub
  let mine ← recompute K engine evidence cutoff sub (← readPrivate priv) expected now
  let recomputed ← verdictSignature mine.toDict ignore
  let tVerdict ← signatureOf last ignore
  pure { logIndex := entry.map LogEntry.index, recomputed, tVerdict, comparedWithout := ignore,
         evidenceCutoffIndex := cutoff,
         evidenceAfterVerdict := (evidence.filter fun e => decide (e.index > cutoff)).length,
         matched := last.isSome && sameSignature tVerdict recomputed }

structure Unauthenticated where
  sub : Value
  logIndex : Int
  iss : Value
  kid : Value
  problem : String

structure SubRecord where
  sub : String
  historicalVerdicts : List Comparison
  tVerdictCount : Nat
  matched : Bool
  note : Option String

/-- The verdicts of a request, split into those the operator signed and the others. -/
def splitVerdicts (ex : Export) (tsPub : Bytes) (sub : Value) :
    List LogEntry → Py (List LogEntry × List Unauthenticated)
  | [] => .ok ([], [])
  | e :: rest =>
    if !(e.statement.sub.eq sub) || !isVerdict e then splitVerdicts ex tsPub sub rest
    else do
      let bad ← verdictEnvelopeProblem K e.statement ex tsPub
      let (good, others) ← splitVerdicts ex tsPub sub rest
      match bad with
      | none => pure (e :: good, others)
      | some problem => pure (good, { sub, logIndex := e.index, iss := e.statement.iss,
                                      kid := e.statement.kid, problem } :: others)

/-- `t_verdicts or [None]`. -/
def orMissing (verdicts : List LogEntry) : List (Option LogEntry) :=
  if verdicts.isEmpty then [none] else verdicts.map some

def auditSub (auditor : Auditor) (engine : ReconciliationEngine) (ex : Export) (tsPub : Bytes)
    (entries : List LogEntry) (headTime : Py Int) (sub : String) :
    Py (SubRecord × List Unauthenticated) := do
  let (verdicts, others) ← splitVerdicts K ex tsPub (.str sub) entries
  let expected := (find auditor.expectedPartiesBySub (.str sub)).getD ["U", "R", "M"]
  let comparisons ← (orMissing verdicts).mapM
    (compareVerdict K auditor engine entries headTime (.str sub) expected)
  pure ({ sub, historicalVerdicts := comparisons, tVerdictCount := verdicts.length,
          matched := comparisons.all Comparison.matched,
          note := if verdicts.isEmpty then
            some "T 가 이 요청에 대한 (인증되는) 판정을 등록하지 않음" else none }, others)

def sessionHead : String := "urn:itx:req:session:"

/-- The request an entry makes the audit look at, if it does. -/
def subOfEntry (e : LogEntry) : Py (Option String) :=
  if memberOf e.statement.contentType (texts [ctVerdict, ctPolicy]) then .ok none
  else match e.statement.sub with
    | .str s => .ok (if startsWith s sessionHead then none else some s)
    | _ => .error .attributeError

def insertString (s : String) : List String → List String
  | [] => [s]
  | t :: ts =>
    if s = t then t :: ts
    else if charsLt s.toList t.toList then s :: t :: ts
    else t :: insertString s ts

/-- `sorted({...})` of the requests that have an entry other than a verdict or a policy. -/
def subsOf (entries : List LogEntry) : Py (List String) := do
  let found ← entries.mapM subOfEntry
  pure ((found.filterMap id).foldr insertString [])

def readEntry (e : ExportEntry) : Py LogEntry := do
  let statement ← SignedStatement.fromDict e.statement
  pure { index := e.index, registeredAt := e.registeredAt, statement }

def treeOf (entries : List LogEntry) : Py MerkleTree := do
  pure { leaves := ← entries.mapM fun e => do pure (leafHash K (← e.statement.leafBytes)) }

/-- The entries are numbered by their positions. -/
def inOrder : Nat → List LogEntry → Bool
  | _, [] => true
  | n, e :: rest => e.index == n && inOrder (n + 1) rest

/-- `TransparencyLog.verify_tree_head`. -/
def verifyTreeHead (head : Dict) (tsPub : Bytes) : Py Bool := do
  let message ← canonicalJson (.dict (head.filter fun x => !x.1.eq (.str "signature")))
  let signature ← fromHexValue ((find head (.str "signature")).getD (.str "00"))
  pure (K.verify tsPub message signature)

/-- What the auditor takes from entry zero. -/
structure AuditPolicy where
  trusted : List (Value × Value × Bytes)
  issuerContentTypes : List (Value × List Value)
  policyHash : String
  keysVersion : String
  problems : List String

def isPolicy (e : LogEntry) : Bool := e.statement.contentType.eq (.str ctPolicy)

def readPolicy (ex : Export) (tsPub : Bytes) (entries : List LogEntry) : Py AuditPolicy :=
  match entries.find? isPolicy with
  | none => .ok { trusted := [], issuerContentTypes := insert [] ex.tsIss tsContentTypes,
                  policyHash := "", keysVersion := "", problems := ["정책 진술(0번)이 없음"] }
  | some e => do
    let pol := e.statement.payload
    let trusted ← trustedKeys (← getItem pol "trusted_keys")
    let valid ← e.statement.verifyWith K tsPub
    let policyHash ← e.statement.statementHash K
    let version ← getItem pol "version"
    let rights ← issuerRights (← getItem pol "issuer_content_types")
    pure { trusted := insert trusted (.str ex.tsKid) (ex.tsIss, tsPub),
           issuerContentTypes := insert rights ex.tsIss tsContentTypes, policyHash,
           keysVersion := keysVersion K ex.logId version,
           problems := errorIf (!valid) "정책 진술 서명이 TS 키로 검증되지 않음" ++
             errorIf (!Value.eq (.str policyHash) ex.policyHash)
               "내보내기의 policy_hash 가 0번 진술 해시와 다름" }

def auditEngine (policy : AuditPolicy) (auditor : Auditor) : ReconciliationEngine :=
  { trustedKeys := policy.trusted, referenceModelHashes := auditor.referenceModelHashes,
    policyHash := policy.policyHash, trustKeysVersion := policy.keysVersion,
    issuerContentTypes := policy.issuerContentTypes }

structure AuditReport where
  ok : Bool
  treeRecomputedMatchesHead : Bool
  headSignatureValid : Bool
  policyProblems : List String
  anchors : List AnchorResult
  heldReceipts : HeldReport
  verdictsChecked : List SubRecord
  unauthenticatedVerdicts : List Unauthenticated

def AuditReport.verdictMismatches (r : AuditReport) : List SubRecord :=
  r.verdictsChecked.filter fun x => !x.matched

/-- `head["time"]`, read only for a request that has no verdict and never computed with. -/
def headTimeOf (head : Dict) : Py Int := do
  pure ((number (← getItem head "time")).getD 0)

/-- The recomputed tree is the one the head is about. -/
def treeMatchesHead (tree : MerkleTree) (entries : List LogEntry) (head : Dict) : Py Bool := do
  let rootHash ← getItem head "root_hash"
  if !Value.eq (.str (hex (tree.root K))) rootHash then pure false
  else
    let treeSize ← getItem head "tree_size"
    pure (Value.eq (.int tree.size) treeSize && inOrder 0 entries)

def replayAudit (auditor : Auditor) (ex : Export) : Py AuditReport := do
  let entries ← ex.entries.mapM readEntry
  let tsPub ← fromHexValue (.str ex.tsPublicKey)
  let tree ← treeOf K entries
  let treeOk ← treeMatchesHead K tree entries ex.head
  let headSigOk ← verifyTreeHead K ex.head tsPub
  let policy ← readPolicy K ex tsPub entries
  let anchors ← verifyTree K auditor.tsa tree auditor.anchorRecords
  let receipts ← verifyHeldReceipts K
    { tree, entries, tsPub, logId := .str ex.logId, headTime := getOr ex.head "time" }
    auditor.tsa auditor.heldReceipts
  let subs ← subsOf entries
  let audited ← subs.mapM
    (auditSub K auditor (auditEngine policy auditor) ex tsPub entries (headTimeOf ex.head))
  let checked := audited.map Prod.fst
  let others := audited.flatMap Prod.snd
  pure { ok := treeOk && headSigOk && policy.problems.isEmpty && anchors.all AnchorResult.ok &&
           checked.all SubRecord.matched && others.isEmpty && receipts.ok,
         treeRecomputedMatchesHead := treeOk, headSignatureValid := headSigOk,
         policyProblems := policy.problems, anchors, heldReceipts := receipts,
         verdictsChecked := checked, unauthenticatedVerdicts := others }

end ReplayAudit
