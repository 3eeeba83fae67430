import Custody.RegisteredEvidence
import Custody.ReplayMeaning

/-!
# The export of a log

An auditor who reads an export of a well formed log gets its entries back,
rebuilds its tree and its policy, and ends up with the engine of its operator.
-/

namespace LogExport

open PyValue HexBytes CanonicalJson Commitments Statements Schemas Evidence Engine EngineMeaning
  Merkle TransparencyLog HeldReceipts ReplayAudit LogInvariant RegisteredEvidence ReplayMeaning

variable {K : Primitives}

theorem readEntry_exportEntry (e : LogEntry) : readEntry (exportEntry e) = .ok e := by
  simp [readEntry, exportEntry, SignedStatement.fromDict_toDict]

theorem readEntries_export (entries : List LogEntry) :
    (entries.map exportEntry).mapM readEntry = .ok entries := by
  induction entries with
  | nil => rfl
  | cons e rest ih =>
    rw [List.map_cons, List.mapM_cons, readEntry_exportEntry, ok_bind, ih]
    rfl

/-- The tree head as it is exported. -/
theorem treeHead_ok {log : Log} {now : Int} {head : Dict} (h : log.treeHead K now = .ok head) :
    ∃ message, canonicalJson (.dict (fields [("log_id", .str log.policy.logId),
        ("tree_size", .int log.tree.size), ("root_hash", .str (hex (log.tree.root K))),
        ("time", .int now), ("ts_kid", .str log.policy.key.kid)])) = .ok message ∧
      head = fields [("log_id", .str log.policy.logId), ("tree_size", .int log.tree.size),
        ("root_hash", .str (hex (log.tree.root K))), ("time", .int now),
        ("ts_kid", .str log.policy.key.kid),
        ("signature", .str (hex (log.policy.key.sign K message)))] := by
  obtain ⟨message, written, h⟩ := bind_ok.mp h
  exact ⟨message, written, (Except.ok.inj h).symm⟩

theorem treeMatchesHead_export {log : Log} {now : Int} {head : Dict} (formed : Formed K log)
    (h : log.treeHead K now = .ok head) :
    treeMatchesHead K log.tree log.entries head = .ok true := by
  obtain ⟨message, -, rfl⟩ := treeHead_ok h
  have size : Value.eq (.int log.tree.size) (.int log.tree.size) = true := by
    simp [Value.eq, Value.scalarEq]
  simp [treeMatchesHead, getItem, fields, find, size, formed.numbered]

theorem verifyTreeHead_export {log : Log} {now : Int} {head : Dict}
    (h : log.treeHead K now = .ok head) :
    verifyTreeHead K head (log.policy.key.publicKey K) = .ok true := by
  obtain ⟨message, written, rfl⟩ := treeHead_ok h
  have signed : K.verify (log.policy.key.publicKey K) message (log.policy.key.sign K message) =
      true := K.verify_sign _ _
  simp only [fields, List.map_cons, List.map_nil] at written
  simp [verifyTreeHead, fields, find, fromHexValue, written, signed]

theorem headTimeOf_export {log : Log} {now : Int} {head : Dict}
    (h : log.treeHead K now = .ok head) : headTimeOf head = .ok now := by
  obtain ⟨message, -, rfl⟩ := treeHead_ok h
  simp [headTimeOf, getItem, fields, find, number]

/-- The policy an auditor reads when it finds the operator's own. -/
def operatorPolicy (log : Log) (valid : Bool) : AuditPolicy :=
  { trusted := log.policy.trusted, issuerContentTypes := log.policy.issuerContentTypes,
    policyHash := log.policy.policyHash, keysVersion := log.policy.trustKeysVersion,
    problems := errorIf (!valid) "정책 진술 서명이 TS 키로 검증되지 않음" }

/-- Everything an auditor derives from an export before replaying verdicts. -/
structure Faithful (K : Primitives) (log : Log) (now : Int) (ex : Export) : Prop where
  tsIss : ex.tsIss = log.policy.tsIss
  tsKid : ex.tsKid = log.policy.key.kid
  entries : ex.entries.mapM readEntry = .ok log.entries
  key : fromHexValue (.str ex.tsPublicKey) = .ok (log.policy.key.publicKey K)
  tree : treeMatchesHead K log.tree log.entries ex.head = .ok true
  head : verifyTreeHead K ex.head (log.policy.key.publicKey K) = .ok true
  time : headTimeOf ex.head = .ok now
  policy : ∃ valid, log.policy.policyStatement.verifyWith K (log.policy.key.publicKey K) =
      .ok valid ∧
    readPolicy K ex (log.policy.key.publicKey K) log.entries = .ok (operatorPolicy log valid)

theorem faithful_export {log : Log} {now : Int} {ex : Export} (formed : Formed K log)
    (h : log.exportLog K now = .ok ex) : Faithful K log now ex := by
  obtain ⟨head, made, h⟩ := bind_ok.mp h
  obtain rfl := Except.ok.inj h
  refine ⟨rfl, rfl, readEntries_export _, ?_, treeMatchesHead_export formed made,
    verifyTreeHead_export made, headTimeOf_export made, ?_⟩
  · simp [fromHexValue, KeyPair.publicHex]
  · obtain ⟨payload, founded⟩ := formed.founded
    obtain ⟨first, opened, policyFirst⟩ := formed.opened
    obtain ⟨at_, issued⟩ := founded.issued
    obtain ⟨⟨made, verified⟩, -⟩ := verifyWith_issued issued
    generalize (Value.str (hex (log.policy.key.sign K made))).truthy = valid at verified
    obtain ⟨message, -, shape⟩ := issue_ok issued
    obtain ⟨trusted, hk, keys⟩ := founded.keys
    obtain ⟨rights, hr, types⟩ := founded.rights
    obtain ⟨version, hv, keysVersion_⟩ := founded.version
    obtain ⟨keysValue, getKeys, readKeys⟩ := bind_ok.mp hk
    obtain ⟨rightsValue, getRights, readRights⟩ := bind_ok.mp hr
    have found : log.entries.find? isPolicy = some first := by
      have policyType : isPolicy first = true := by
        have type : first.statement.contentType = .str ctPolicy := by
          rw [policyFirst, shape]
          rfl
        rw [isPolicy, type]
        simp
      cases entries : log.entries with
      | nil => simp [entries] at opened
      | cons x rest =>
        rw [entries] at opened
        obtain rfl := Option.some.inj opened
        simp [policyType]
    have body : log.policy.policyStatement.payload = payload := by
      rw [shape]
      rfl
    refine ⟨valid, verified, ?_⟩
    have sameHash : Value.eq (.str log.policy.policyHash) (.str log.policy.policyHash) = true := by
      simp
    simp only [readPolicy, found, policyFirst, body, getKeys, readKeys, verified, founded.hashed,
      hv, getRights, readRights, ok_bind, sameHash, operatorPolicy, keys, types, keysVersion_]
    simp [errorIf]

/-- Without anchors and held receipts, auditing an export is replaying its requests. -/
theorem replayAudit_export {log : Log} {now : Int} {ex : Export} {auditor : Auditor}
    (faithful : Faithful K log now ex) (formed : Formed K log)
    (unanchored : auditor.anchorRecords = []) (unheld : auditor.heldReceipts = []) {valid : Bool}
    (signed : log.policy.policyStatement.verifyWith K (log.policy.key.publicKey K) = .ok valid)
    {subs : List String} (listed : subsOf log.entries = .ok subs) :
    (Returns (replayAudit K auditor ex) ↔ ∀ s ∈ subs, Returns (auditSub K auditor
      (engineOf log auditor.referenceModelHashes) ex (log.policy.key.publicKey K) log.entries
      (headTimeOf ex.head) s)) ∧
    ∀ audited, subs.mapM (auditSub K auditor (engineOf log auditor.referenceModelHashes) ex
        (log.policy.key.publicKey K) log.entries (headTimeOf ex.head)) = .ok audited →
      ∃ report, replayAudit K auditor ex = .ok report ∧
        report.verdictsChecked = audited.map Prod.fst ∧
        report.unauthenticatedVerdicts = audited.flatMap Prod.snd ∧
        report.ok = (valid && report.verdictsChecked.all SubRecord.matched &&
          report.unauthenticatedVerdicts.isEmpty) := by
  obtain ⟨valid', signed', readable⟩ := faithful.policy
  obtain rfl : valid = valid' := Except.ok.inj (signed.symm.trans signed')
  have engine : auditEngine (operatorPolicy log valid) auditor =
      engineOf log auditor.referenceModelHashes := rfl
  have anchors : verifyTree K auditor.tsa log.tree auditor.anchorRecords = .ok [] := by
    rw [unanchored]
    rfl
  have receipts : ∃ held, verifyHeldReceipts K
      { tree := log.tree, entries := log.entries, tsPub := log.policy.key.publicKey K,
        logId := .str ex.logId, headTime := getOr ex.head "time" }
      auditor.tsa auditor.heldReceipts = .ok held ∧ held.ok = true := by
    rw [unheld]
    exact ⟨_, rfl, rfl⟩
  obtain ⟨held, hh, fine⟩ := receipts
  have noProblem : (operatorPolicy log valid).problems.isEmpty = valid := by
    cases valid <;> rfl
  constructor
  · simp only [replayAudit, faithful.entries, faithful.key, formed.tree, faithful.tree,
      faithful.head, readable, anchors, hh, engine, ok_bind, listed]
    rw [← mapM_returns]
    constructor
    · rintro ⟨report, h⟩
      obtain ⟨audited, each, -⟩ := bind_ok.mp h
      exact ⟨audited, each⟩
    · rintro ⟨audited, each⟩
      simp [each]
  · intro audited each
    have made : Returns (replayAudit K auditor ex) := by
      simp [replayAudit, faithful.entries, faithful.key, formed.tree, faithful.tree,
        faithful.head, readable, anchors, hh, engine, listed, each]
    obtain ⟨report, h⟩ := made
    have shape := h
    simp only [replayAudit, faithful.entries, faithful.key, formed.tree, faithful.tree,
      faithful.head, readable, anchors, hh, engine, ok_bind, listed, each] at shape
    obtain rfl := Except.ok.inj shape
    exact ⟨_, h, rfl, rfl, by simp [noProblem, fine]⟩

/-- A report on an export is about the log's own entries, judged by its operator's engine. -/
theorem reported_export {log : Log} {now : Int} {ex : Export} {auditor : Auditor}
    {report : AuditReport} (faithful : Faithful K log now ex)
    (h : replayAudit K auditor ex = .ok report) :
    Reported K auditor ex report log.entries (log.policy.key.publicKey K)
      (engineOf log auditor.referenceModelHashes) := by
  obtain ⟨valid, -, readable⟩ := faithful.policy
  obtain ⟨entries, tsPub, policy', readable', reported⟩ := replayAudit_ok h
  have sameEntries := reported.read
  rw [faithful.entries, Except.ok.injEq] at sameEntries
  subst sameEntries
  have sameKey := reported.key
  rw [faithful.key, Except.ok.injEq] at sameKey
  subst sameKey
  rw [readable, Except.ok.injEq] at readable'
  subst readable'
  exact reported

end LogExport
