import Custody.BlockedJudgment
import Custody.LogExport

/-!
# Which verdicts an audit covers

The requests to replay are collected from entries that are not verdicts. A
verdict of any other request is neither compared nor set aside, and the report
can still be fine.
-/

namespace AuditCoverage

open PyValue HexBytes Commitments Statements Schemas Evidence Engine EngineMeaning TransparencyLog
  ReplayAudit LogInvariant ReplayMeaning LogExport PassedVerdict WithoutEvidence BlockedJudgment

variable {K : Primitives}

/-- A record of the report compares the verdict with this log index. -/
def Compared (report : AuditReport) (index : Int) : Prop :=
  ∃ record ∈ report.verdictsChecked, ∃ c ∈ record.historicalVerdicts, c.logIndex = some index

/-- The verdict with this log index is listed as unauthenticated. -/
def SetAside (report : AuditReport) (index : Int) : Prop :=
  ∃ u ∈ report.unauthenticatedVerdicts, u.logIndex = index

/-- The entry belongs to a request that is replayed. -/
def OfReplayed (entries : List LogEntry) (e : LogEntry) : Prop :=
  ∃ s, e.statement.sub = .str s ∧ Replayed entries s

/-- The verdict carries the operator's name, key and signature. -/
def Authenticated (K : Primitives) (ex : Export) (tsPub : Bytes) (e : LogEntry) : Prop :=
  verdictEnvelopeProblem K e.statement ex tsPub = .ok none

/-- A record of the verdict's own request compares it, and it matches its replay. -/
def Recomputed (report : AuditReport) (e : LogEntry) : Prop :=
  ∃ record ∈ report.verdictsChecked, e.statement.sub = .str record.sub ∧
    ∃ c ∈ record.historicalVerdicts, c.logIndex = some e.index ∧ c.matched = true

theorem inOrder_above {n : Nat} {xs : List LogEntry} (ordered : inOrder n xs = true)
    {e : LogEntry} (member : e ∈ xs) : (n : Int) ≤ e.index := by
  induction xs generalizing n with
  | nil => cases member
  | cons x xs ih =>
    simp only [inOrder, Bool.and_eq_true, beq_iff_eq] at ordered
    rcases List.mem_cons.mp member with rfl | later
    · omega
    · have := ih ordered.2 later
      omega

/-- A compared verdict belongs to the request of its record. -/
theorem ofReplayed_of_compared {auditor : Auditor} {ex : Export} {report : AuditReport}
    {entries : List LogEntry} {tsPub : Bytes} {engine : ReconciliationEngine}
    (reported : Reported K auditor ex report entries tsPub engine) {record : SubRecord}
    (listed : record ∈ report.verdictsChecked) {c : Comparison}
    (inside : c ∈ record.historicalVerdicts) {index : Int} (filed : c.logIndex = some index) :
    ∃ e ∈ entries, isVerdict e = true ∧ e.index = index ∧ OfReplayed entries e := by
  obtain ⟨replayed, others, audited⟩ := reported.sources record listed
  obtain ⟨verdicts, split, -, compared⟩ := audited.split
  obtain ⟨entry, which, made⟩ := mem_mapM_ok compared inside
  have index_ := compareVerdict_index made
  rw [filed] at index_
  rcases mem_orMissing.mp which with ⟨-, rfl⟩ | ⟨e, kept, rfl⟩
  · cases index_
  · obtain ⟨member, sub, verdict, -⟩ := ((splitVerdicts_ok split).1 e).mp kept
    exact ⟨e, member, verdict, (Option.some.inj index_).symm, record.sub,
      (eq_str_right _ _).mp sub, replayed⟩

theorem ofReplayed_of_setAside {auditor : Auditor} {ex : Export} {report : AuditReport}
    {entries : List LogEntry} {tsPub : Bytes} {engine : ReconciliationEngine}
    (reported : Reported K auditor ex report entries tsPub engine) {index : Int}
    (aside : SetAside report index) :
    ∃ e ∈ entries, isVerdict e = true ∧ e.index = index ∧ OfReplayed entries e := by
  obtain ⟨u, listed, rfl⟩ := aside
  obtain ⟨s, record, others, replayed, audited, inside⟩ := reported.setAside u listed
  obtain ⟨verdicts, split, -, -⟩ := audited.split
  obtain ⟨e, member, verdict, sub, index⟩ := (splitVerdicts_ok split).2.1 u inside
  exact ⟨e, member, verdict, index.symm, s, (eq_str_right _ _).mp sub, replayed⟩

/-- A verdict of a replayed request is compared in that request's record, or set aside. -/
theorem covered_of_replayed {auditor : Auditor} {ex : Export} {report : AuditReport}
    {entries : List LogEntry} {tsPub : Bytes} {engine : ReconciliationEngine}
    (reported : Reported K auditor ex report entries tsPub engine) {e : LogEntry}
    (member : e ∈ entries) (verdict : isVerdict e = true) (replayed : OfReplayed entries e) :
    (Authenticated K ex tsPub e ∧ ∃ record ∈ report.verdictsChecked,
      e.statement.sub = .str record.sub ∧
      ∃ c ∈ record.historicalVerdicts, c.logIndex = some e.index) ∨ SetAside report e.index := by
  obtain ⟨s, sub, replayed⟩ := replayed
  obtain ⟨record, listed, others, audited, aside⟩ := reported.records s replayed
  obtain ⟨verdicts, split, -, compared⟩ := audited.split
  rcases (splitVerdicts_ok split).2.2 e member ((eq_str_right _ _).mpr sub) verdict with
    kept | ⟨u, inside, index⟩
  · left
    obtain ⟨-, -, -, authentic⟩ := ((splitVerdicts_ok split).1 e).mp kept
    obtain ⟨c, inside, made⟩ := mapM_ok_mem compared (mem_orMissing.mpr (.inr ⟨e, kept, rfl⟩))
    refine ⟨authentic, record, listed, ?_, c, inside, compareVerdict_index made⟩
    rw [audited.named]
    exact sub
  · exact .inr ⟨u, aside u inside, index⟩

/-- Every verdict is compared or set aside exactly when each one's index is that of a verdict
of a replayed request; and of a fine report, every verdict was authenticated and recomputed
exactly when every verdict is of a replayed request. -/
theorem coverage_iff {auditor : Auditor} {ex : Export} {report : AuditReport}
    (audited : replayAudit K auditor ex = .ok report) {entries : List LogEntry}
    (read : ex.entries.mapM readEntry = .ok entries) {tsPub : Bytes}
    (key : fromHexValue (.str ex.tsPublicKey) = .ok tsPub) :
    ((∀ e ∈ entries, isVerdict e = true → Compared report e.index ∨ SetAside report e.index) ↔
      ∀ e ∈ entries, isVerdict e = true →
        ∃ e' ∈ entries, isVerdict e' = true ∧ e'.index = e.index ∧ OfReplayed entries e') ∧
    (report.ok = true →
      ((∀ e ∈ entries, isVerdict e = true → Authenticated K ex tsPub e ∧ Recomputed report e) ↔
        ∀ e ∈ entries, isVerdict e = true → OfReplayed entries e)) := by
  obtain ⟨entries', tsPub', policy, -, reported⟩ := replayAudit_ok audited
  obtain rfl := Except.ok.inj (read.symm.trans reported.read)
  obtain rfl := Except.ok.inj (key.symm.trans reported.key)
  refine ⟨⟨?_, ?_⟩, fun fine => ⟨?_, ?_⟩⟩
  · intro covered e member verdict
    rcases covered e member verdict with ⟨record, listed, c, inside, filed⟩ | aside
    · exact ofReplayed_of_compared reported listed inside filed
    · exact ofReplayed_of_setAside reported aside
  · intro replayed e member verdict
    obtain ⟨e', member', verdict', index, replayed⟩ := replayed e member verdict
    rw [← index]
    rcases covered_of_replayed reported member' verdict' replayed with
      ⟨-, record, listed, -, c, inside, filed⟩ | aside
    · exact .inl ⟨record, listed, c, inside, filed⟩
    · exact .inr aside
  · intro recomputed e member verdict
    obtain ⟨-, record, listed, sub, -⟩ := recomputed e member verdict
    exact ⟨record.sub, sub, (reported.sources record listed).1⟩
  · intro replayed e member verdict
    obtain ⟨-, matched, none_⟩ := reported.ok fine
    rcases covered_of_replayed reported member verdict (replayed e member verdict) with
      ⟨authentic, record, listed, sub, c, inside, filed⟩ | ⟨u, listed, -⟩
    · obtain ⟨-, others, part⟩ := reported.sources record listed
      have every := matched record listed
      rw [part.matched] at every
      exact ⟨authentic, record, listed, sub, c, inside, filed, List.all_eq_true.mp every c inside⟩
    · rw [none_] at listed
      cases listed

/-- A verdict on a request of which the log holds nothing else. -/
def ghostVerdict : SignedStatement :=
  signedWith logKey "t" "urn:itx:req:ghost" ctVerdict
    (fields [("profile", .str (profileVersion ++ "/verdict")), ("attempt_id", .str "att-001"),
      ("verification_status", .str "passed"), ("established_assurance", .str "none"),
      ("deployment_mode", .str deploymentMode), ("cooperation_set", .str "none"),
      ("completeness", .str "complete"), ("equations", .dict []), ("discrepancies", .list []),
      ("evidence_refs", .list []), ("policy_hash", .str ""), ("checker_version", .str "none"),
      ("trust_keys_version", .str "none"), ("threat_model", .str "none")]) 10

def ghostLog : Py Log := do registerAll (← plainLog) [(ghostVerdict, 10)]

def plainAuditor : Auditor :=
  { privateBySub := [], expectedPartiesBySub := [], referenceModelHashes := [],
    tsa := fun _ => .error "" }

def ghostFacts (log : Log) : Py (List String × List Bool × Bool) := do
  let subs ← subsOf log.entries
  let signed ← log.policy.policyStatement.verifyWith toy (log.policy.key.publicKey toy)
  let _ ← log.exportLog toy 20
  pure (subs, log.entries.map isVerdict, signed)

theorem ghostLog_facts : (ghostLog >>= ghostFacts) = .ok ([], [false, true], true) := by
  decide +kernel

theorem ghostLog_export : ∃ log ex, Formed toy log ∧ log.exportLog toy 20 = .ok ex ∧
    Faithful toy log 20 ex ∧ subsOf log.entries = .ok [] ∧
    log.entries.map isVerdict = [false, true] ∧
    log.policy.policyStatement.verifyWith toy (log.policy.key.publicKey toy) = .ok true := by
  obtain ⟨log, made, facts⟩ := bind_ok.mp ghostLog_facts
  obtain ⟨first, opened, registered⟩ := bind_ok.mp made
  obtain ⟨subs, listed, facts⟩ := bind_ok.mp facts
  obtain ⟨signed, verified, facts⟩ := bind_ok.mp facts
  obtain ⟨ex, exported, facts⟩ := bind_ok.mp facts
  simp only [pure_ok, Except.ok.injEq, Prod.mk.injEq] at facts
  obtain ⟨rfl, verdicts, rfl⟩ := facts
  have formed := (reachable_kept (registerAll_reachable (.opened opened) registered)).toFormed
  exact ⟨log, ex, formed, exported, faithful_export formed exported, listed, verdicts, verified⟩

/-- The report is fine, and the registered verdict was never looked at. -/
theorem ghost_verdict_unexamined : ∃ (ex : Export) (report : AuditReport)
    (entries : List LogEntry), ex.entries.mapM readEntry = .ok entries ∧
    replayAudit toy plainAuditor ex = .ok report ∧ report.ok = true ∧
    ∃ e ∈ entries, isVerdict e = true ∧ ¬ Compared report e.index ∧ ¬ SetAside report e.index := by
  obtain ⟨log, ex, formed, -, faithful, none_, verdicts, signed⟩ := ghostLog_export
  have unanchored : plainAuditor.anchorRecords = [] := rfl
  obtain ⟨report, made, checked, aside, fine⟩ :=
    (replayAudit_export faithful formed unanchored rfl signed none_).2 [] rfl
  have verdict : ∃ e ∈ log.entries, isVerdict e = true := by
    have : true ∈ log.entries.map isVerdict := by
      rw [verdicts]
      decide
    obtain ⟨e, member, verdict⟩ := List.mem_map.mp this
    exact ⟨e, member, verdict⟩
  obtain ⟨e, member, verdict⟩ := verdict
  refine ⟨ex, report, log.entries, faithful.entries, made, ?_, e, member, verdict, ?_, ?_⟩
  · simp [fine, checked, aside]
  · rintro ⟨record, listed, -⟩
    simp [checked] at listed
  · rintro ⟨u, listed, -⟩
    simp [aside] at listed

theorem coverage_iff_ghost : ∃ (ex : Export) (report : AuditReport) (entries : List LogEntry),
    replayAudit toy plainAuditor ex = .ok report ∧
    ((∀ e ∈ entries, isVerdict e = true → Compared report e.index ∨ SetAside report e.index) ↔
      ∀ e ∈ entries, isVerdict e = true →
        ∃ e' ∈ entries, isVerdict e' = true ∧ e'.index = e.index ∧ OfReplayed entries e') := by
  obtain ⟨log, ex, formed, -, faithful, none_, -, signed⟩ := ghostLog_export
  have unanchored : plainAuditor.anchorRecords = [] := rfl
  obtain ⟨report, made, -⟩ :=
    (replayAudit_export faithful formed unanchored rfl signed none_).2 [] rfl
  exact ⟨ex, report, log.entries, made, (coverage_iff made faithful.entries faithful.key).1⟩

end AuditCoverage
