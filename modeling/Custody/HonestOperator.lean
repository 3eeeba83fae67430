import Custody.HonestReplay

/-!
# Logs of an honest operator

Every verdict in the log is the operator's own and was made by the engine from
the entries before it. An audit with the same private evidence then finds no
mismatch for any request that was judged.
-/

namespace HonestOperator

open PyValue HexBytes Commitments Statements Schemas Evidence Engine EngineMeaning TransparencyLog
  ReplayAudit VerdictComparison LogInvariant RegisteredEvidence ReplayMeaning LogExport
  WithoutEvidence HonestReplay

variable {K : Primitives}

/-- Signed by the log's operator under its own name and key. -/
structure Own (K : Primitives) (p : LogPolicy) (s : SignedStatement) : Prop where
  iss : s.iss = p.tsIss
  kid : s.kid = .str p.key.kid
  signed : s.verifyWith K (p.key.publicKey K) = .ok true

/-- A statement the operator issued and then accepted is its own. -/
theorem own_of_accepted {p : LogPolicy} {policyPayload : Dict} (founded : Founded K p policyPayload)
    {sub contentType : Value} {payload : Dict} {issuedAt : Int} {s : SignedStatement}
    (issued : issue K p.key p.tsIss sub contentType payload issuedAt = .ok s)
    (accepted : Accepted K p s) : Own K p s := by
  obtain ⟨message, -, shape⟩ := issue_ok issued
  have kid : s.kid = .str p.key.kid := by
    rw [shape]
    rfl
  have iss : s.iss = p.tsIss := by
    rw [shape]
    rfl
  obtain ⟨keys, -, trusted⟩ := founded.keys
  obtain ⟨owner, publicKey, known, -, valid⟩ := accepted.key
  have self : find p.trusted (.str p.key.kid) = some (p.tsIss, p.key.publicKey K) := by
    rw [trusted]
    exact find_insert_self _ (by simp) _
  rw [kid, self, Option.some.injEq, Prod.mk.injEq] at known
  obtain ⟨-, rfl⟩ := known
  exact ⟨iss, kid, valid⟩

theorem envelope_own {log : Log} {now : Int} {ex : Export} (formed : Formed K log)
    (faithful : Faithful K log now ex) {s : SignedStatement} (own : Own K log.policy s) :
    verdictEnvelopeProblem K s ex (log.policy.key.publicKey K) = .ok none := by
  obtain ⟨payload, founded⟩ := formed.founded
  have issuer := (eq_self_of_hashable founded.issuer).2
  rw [verdictEnvelopeProblem, own.iss, own.kid, faithful.tsIss, faithful.tsKid, issuer]
  simp [own.signed]

theorem splitVerdicts_own {ex : Export} {tsPub : Bytes} {sub : Value} {entries : List LogEntry}
    (own : ∀ e ∈ entries, e.statement.sub.eq sub = true → isVerdict e = true →
      verdictEnvelopeProblem K e.statement ex tsPub = .ok none) :
    splitVerdicts K ex tsPub sub entries =
      .ok (entries.filter fun e => e.statement.sub.eq sub && isVerdict e, []) := by
  induction entries with
  | nil => rfl
  | cons x rest ih =>
    have later := ih fun e member => own e (List.mem_cons_of_mem _ member)
    by_cases ofSub : x.statement.sub.eq sub = true
    · by_cases verdict : isVerdict x = true
      · have first := own x List.mem_cons_self ofSub verdict
        simp [splitVerdicts, ofSub, verdict, first, later]
      · simp [splitVerdicts, verdict, later]
    · simp [splitVerdicts, ofSub, later]

/-- The entry carries the engine's verdict on the entries before it, with further fields. -/
def JudgedWith (K : Primitives) (engine : ReconciliationEngine) (before : List LogEntry)
    (e : LogEntry) (sub : String) (p : Option PrivateEvidence) (parties : List String)
    (extra : Dict) : Prop :=
  ∃ v now, e.statement.payload = v.toDict ++ extra ∧
    judge K engine (.str sub) (evidenceEntries before (.str sub)) p now parties = .ok v

/-- The auditor replays the verdict as it was made. -/
def Vouched (K : Primitives) (auditor : Auditor) (engine : ReconciliationEngine)
    (before : List LogEntry) (e : LogEntry) (sub : String) : Prop :=
  ∃ extra priv p, JudgedWith K engine before e sub p (expectedOf auditor sub) extra ∧
    selectPrivate K auditor (.str sub) (some e.statement.payload) = .ok priv ∧
    readPrivate priv = .ok p

/-- All verdicts on a request are the operator's own, and the auditor replays them as made. -/
structure HonestFor (K : Primitives) (auditor : Auditor) (log : Log) (sub : String) : Prop where
  own : ∀ e ∈ log.entries, isVerdict e = true → e.statement.sub = .str sub →
    Own K log.policy e.statement
  vouched : ∀ before e after, log.entries = before ++ e :: after → isVerdict e = true →
    e.statement.sub = .str sub →
    Vouched K auditor (engineOf log auditor.referenceModelHashes) before e sub

/-- Each verdict of an honest operator matches its replay. -/
theorem auditSub_honest {auditor : Auditor} {log : Log} {now : Int} {ex : Export} {sub : String}
    (formed : Formed K log) (faithful : Faithful K log now ex)
    (honest : HonestFor K auditor log sub)
    (judged : ∃ e ∈ log.entries, isVerdict e = true ∧ e.statement.sub = .str sub) :
    ∃ record, auditSub K auditor (engineOf log auditor.referenceModelHashes) ex
      (log.policy.key.publicKey K) log.entries (headTimeOf ex.head) sub = .ok (record, []) ∧
      record.sub = sub ∧ record.matched = true ∧
      ∀ c ∈ record.historicalVerdicts, c.matched = true := by
  have split : splitVerdicts K ex (log.policy.key.publicKey K) (.str sub) log.entries =
      .ok (log.entries.filter fun e => e.statement.sub.eq (.str sub) && isVerdict e, []) := by
    apply splitVerdicts_own
    intro e member ofSub verdict
    exact envelope_own formed faithful (honest.own e member verdict ((eq_str_right _ _).mp ofSub))
  refine auditSub_matched split ?_ ?_
  · obtain ⟨e, member, verdict, ofSub⟩ := judged
    apply List.ne_nil_of_mem (a := e)
    refine List.mem_filter.mpr ⟨member, ?_⟩
    rw [(eq_str_right _ _).mpr ofSub, verdict]
    rfl
  · intro e kept
    obtain ⟨member, facts⟩ := List.mem_filter.mp kept
    rw [Bool.and_eq_true] at facts
    obtain ⟨before, after, whole⟩ := List.append_of_mem member
    obtain ⟨extra, priv, p, ⟨v, at_, payload, made⟩, selected, readable⟩ :=
      honest.vouched before e after whole facts.2 ((eq_str_right _ _).mp facts.1)
    rw [whole]
    exact compareVerdict_honest (whole ▸ formed.numbered) facts.2 payload selected readable made

theorem subAudited_unique {auditor : Auditor} {engine : ReconciliationEngine} {ex : Export}
    {tsPub : Bytes} {entries : List LogEntry} {headTime : Py Int} {sub : String}
    {r r' : SubRecord} {others others' : List Unauthenticated}
    (h : SubAudited K auditor engine ex tsPub entries headTime sub r others)
    (h' : SubAudited K auditor engine ex tsPub entries headTime sub r' others') :
    r.historicalVerdicts = r'.historicalVerdicts ∧ r.matched = r'.matched ∧ others = others' := by
  obtain ⟨verdicts, split, -, compared⟩ := h.split
  obtain ⟨verdicts', split', -, compared'⟩ := h'.split
  obtain ⟨rfl, same⟩ := Prod.mk.inj (Except.ok.inj (split.symm.trans split'))
  have filed := Except.ok.inj (compared.symm.trans compared')
  exact ⟨filed, by rw [h.matched, h'.matched, filed], same⟩

/-- A report on an honest operator's log has no mismatch for a request that was judged. -/
theorem report_honest {auditor : Auditor} {log : Log} {now : Int} {ex : Export} {sub : String}
    {report : AuditReport} (formed : Formed K log) (faithful : Faithful K log now ex)
    (honest : HonestFor K auditor log sub)
    (judged : ∃ e ∈ log.entries, isVerdict e = true ∧ e.statement.sub = .str sub)
    (audited : replayAudit K auditor ex = .ok report) {record : SubRecord}
    (listed : record ∈ report.verdictsChecked) (named : record.sub = sub) :
    record.matched = true ∧ ∀ c ∈ record.historicalVerdicts, c.matched = true := by
  obtain ⟨-, others, part⟩ := (reported_export faithful audited).sources record listed
  rw [named] at part
  obtain ⟨own, made, -, matched, all⟩ := auditSub_honest formed faithful honest judged
  obtain ⟨filed, same, -⟩ := subAudited_unique part (auditSub_ok made)
  rw [filed, same]
  exact ⟨matched, all⟩

/-- When all verdicts are the operator's own, none is set aside. -/
theorem report_authenticated {auditor : Auditor} {log : Log} {now : Int} {ex : Export}
    {report : AuditReport} (formed : Formed K log) (faithful : Faithful K log now ex)
    (own : ∀ e ∈ log.entries, isVerdict e = true → Own K log.policy e.statement)
    (audited : replayAudit K auditor ex = .ok report) : report.unauthenticatedVerdicts = [] := by
  rw [List.eq_nil_iff_forall_not_mem]
  intro u member
  obtain ⟨s, record, others, -, part, inside⟩ :=
    (reported_export faithful audited).setAside u member
  obtain ⟨verdicts, split, -⟩ := part.split
  rw [splitVerdicts_own fun e member _ verdict =>
    envelope_own formed faithful (own e member verdict)] at split
  obtain ⟨-, rfl⟩ := Prod.mk.inj (Except.ok.inj split)
  cases inside

/-- Where an entry stands in a list with one more at its end. -/
theorem snoc_split {A : Type} {xs before after : List A} {x e : A}
    (h : xs ++ [x] = before ++ e :: after) :
    (before = xs ∧ e = x ∧ after = []) ∨
      ∃ rest, after = rest ++ [x] ∧ xs = before ++ e :: rest := by
  rcases List.eq_nil_or_concat after with rfl | ⟨rest, last, rfl⟩
  · left
    obtain ⟨same, last⟩ := List.append_inj' h rfl
    exact ⟨same.symm, (List.singleton_inj.mp last).symm, rfl⟩
  · right
    rw [List.concat_eq_append, ← List.cons_append, ← List.append_assoc] at h
    obtain ⟨same, ends⟩ := List.append_inj' h rfl
    obtain rfl := List.singleton_inj.mp ends
    exact ⟨rest, List.concat_eq_append, same⟩

/-- Every verdict in the log has a property of itself and the entries before it. -/
def AllVerdicts (log : Log) (P : List LogEntry → LogEntry → Prop) : Prop :=
  ∀ before e after, log.entries = before ++ e :: after → isVerdict e = true → P before e

theorem allVerdicts_grown {log next : Log} {x : LogEntry} {P : List LogEntry → LogEntry → Prop}
    (old : AllVerdicts log P) (grown : next.entries = log.entries ++ [x])
    (new : isVerdict x = true → P log.entries x) : AllVerdicts next P := by
  intro before e after whole verdict
  rw [grown] at whole
  rcases snoc_split whole with ⟨rfl, rfl, rfl⟩ | ⟨rest, rfl, earlier⟩
  · exact new verdict
  · exact old before e rest earlier verdict

theorem AllVerdicts.mem {log : Log} {P : List LogEntry → LogEntry → Prop} (all : AllVerdicts log P)
    {e : LogEntry} (member : e ∈ log.entries) (verdict : isVerdict e = true) :
    ∃ before after, log.entries = before ++ e :: after ∧ P before e := by
  obtain ⟨before, after, whole⟩ := List.append_of_mem member
  exact ⟨before, after, whole, all before e after whole verdict⟩

/-- A fresh log holds no verdict. -/
theorem allVerdicts_opened {logId : String} {key : KeyPair} {subRe : String → Bool} {policy : Dict}
    {now : Int} {log : Log} (created : openLog K logId key subRe policy now = .ok log)
    (P : List LogEntry → LogEntry → Prop) : AllVerdicts log P := by
  intro before e after whole verdict
  obtain ⟨-, -, -, first, only, policyFirst⟩ := opened_shape created
  obtain ⟨payload, founded⟩ := (kept_opened created).founded
  obtain ⟨at_, issued⟩ := founded.issued
  obtain ⟨message, -, signed⟩ := issue_ok issued
  have unjudged : isVerdict first = false := by
    rw [isVerdict, policyFirst, signed]
    rfl
  have member : e ∈ log.entries := by
    rw [whole]
    simp
  rw [only] at member
  obtain rfl := List.mem_singleton.mp member
  rw [unjudged] at verdict
  cases verdict

/-- What registering a statement does to a log. -/
theorem registered_entry {log next : Log} {stmt : SignedStatement} {at_ : Int}
    {receipt : RegistrationReceipt} (kept : Kept K log)
    (registered : log.register K stmt at_ = .ok (next, receipt)) :
    Kept K next ∧ next.policy = log.policy ∧ Accepted K log.policy stmt ∧
    ∃ x, next.entries = log.entries ++ [x] ∧ x.statement = stmt := by
  obtain ⟨passed, appended⟩ := register_ok registered
  obtain ⟨policy, grown, -⟩ := append_ok appended
  exact ⟨kept_register kept registered, policy, accepted_of_check passed, _, grown, rfl⟩

end HonestOperator
