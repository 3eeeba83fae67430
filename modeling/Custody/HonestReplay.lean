import Custody.AuditCoverage

/-!
# Replaying a verdict the engine made

When the operator judged exactly the entries that precede its verdict, with the
private evidence the auditor replays it with, the replay makes the same verdict
again and the comparison matches, whatever was registered later.
-/

namespace HonestReplay

open PyValue HexBytes Commitments Statements Schemas Evidence Equations Engine EngineMeaning
  TransparencyLog ReplayAudit VerdictComparison LogInvariant ReplayMeaning WithoutEvidence
  AuditCoverage

variable {K : Primitives}

theorem inOrder_below {n : Nat} {before after : List LogEntry} {e : LogEntry}
    (ordered : inOrder n (before ++ e :: after) = true) :
    (∀ x ∈ before, x.index < e.index) ∧ ∀ x ∈ after, e.index < x.index := by
  induction before generalizing n with
  | nil =>
    refine ⟨by simp, fun x member => ?_⟩
    simp only [List.nil_append, inOrder, Bool.and_eq_true, beq_iff_eq] at ordered
    have := inOrder_above ordered.2 member
    omega
  | cons y before ih =>
    simp only [List.cons_append, inOrder, Bool.and_eq_true, beq_iff_eq] at ordered
    obtain ⟨lower, upper⟩ := ih ordered.2
    refine ⟨fun x member => ?_, upper⟩
    rcases List.mem_cons.mp member with rfl | later
    · have := inOrder_above ordered.2 (List.mem_append_right before List.mem_cons_self)
      omega
    · exact lower x later

/-- Cut at a verdict's index, a later log shows what was registered before the verdict. -/
theorem snapshot_before {before after : List LogEntry} {e : LogEntry} {sub : Value}
    (ordered : inOrder 0 (before ++ e :: after) = true) (verdict : isVerdict e = true) :
    ((evidenceEntries (before ++ e :: after) sub).filter fun x => decide (x.index < e.index)) =
      evidenceEntries before sub := by
  obtain ⟨lower, upper⟩ := inOrder_below ordered
  have early : (evidenceEntries before sub).filter (fun x => decide (x.index < e.index)) =
      evidenceEntries before sub := by
    rw [List.filter_eq_self]
    intro x member
    exact decide_eq_true (lower x (List.mem_filter.mp member).1)
  have late : (evidenceEntries after sub).filter (fun x => decide (x.index < e.index)) = [] := by
    rw [List.filter_eq_nil_iff]
    intro x member small
    have := upper x (List.mem_filter.mp member).1
    have := of_decide_eq_true small
    omega
  have own : (!isVerdict e) = false := by
    rw [verdict]
    rfl
  rw [evidenceEntries, List.filter_append, List.filter_cons, own, Bool.and_false,
    if_neg Bool.false_ne_true, List.filter_append]
  rw [← evidenceEntries, ← evidenceEntries, early, late, List.append_nil]

theorem find_append {A : Type} (d e : List (Value × A)) (x : Value) :
    find (d ++ e) x = (find d x).or (find e x) := by
  induction d with
  | nil => rfl
  | cons p rest ih =>
    obtain ⟨k, v⟩ := p
    rw [List.cons_append, find, find]
    split
    · rfl
    · exact ih

/-- Fields added to an engine verdict do not change how it is compared. -/
theorem verdictSignature_append (v : Verdict) (extra : Dict) (ignore : List EqId) :
    verdictSignature (v.toDict ++ extra) ignore = verdictSignature v.toDict ignore := by
  have item : ∀ k, (find v.toDict (.str k)).isSome = true →
      find (v.toDict ++ extra) (.str k) = find v.toDict (.str k) := by
    intro k present
    obtain ⟨w, found⟩ := Option.isSome_iff_exists.mp present
    rw [find_append, found]
    rfl
  simp only [verdictSignature, getItem, getOr, item "equations" rfl, item "discrepancies" rfl,
    item "verification_status" rfl, item "completeness" rfl, item "evidence_refs" rfl,
    item "policy_hash" rfl, item "checker_version" rfl, item "trust_keys_version" rfl]

theorem same_self (v : Verdict) (ignore : List EqId) :
    ∃ a, verdictSignature v.toDict ignore = .ok a ∧ a.same a = true := by
  have status : ∃ a b, verdictSignature v.toDict ignore = .ok a ∧
      verdictSignature v.toDict ignore = .ok b ∧
      a.same b = (comparedText ignore v).eq (comparedText ignore v) :=
    same_iff_status rfl rfl rfl rfl rfl rfl
  obtain ⟨a, b, ha, hb, same⟩ := status
  obtain rfl := Except.ok.inj (ha.symm.trans hb)
  refine ⟨a, ha, same.trans ?_⟩
  have word : ∃ s, comparedText ignore v = .str s := by
    rw [comparedText, comparedStatus]
    split
    · exact ⟨_, rfl⟩
    · split
      · exact ⟨_, rfl⟩
      · split <;> exact ⟨_, rfl⟩
  obtain ⟨s, word⟩ := word
  rw [word]
  simp

/-- What a comparison of a registered verdict rests on. -/
structure ComparedWith (K : Primitives) (auditor : Auditor) (engine : ReconciliationEngine)
    (entries : List LogEntry) (sub : Value) (expected : List String) (e : LogEntry)
    (priv : Value) (v : Verdict) : Prop where
  selected : selectPrivate K auditor sub (some e.statement.payload) = .ok priv
  replayed : ∃ p, readPrivate priv = .ok p ∧ judge K engine sub
    ((evidenceEntries entries sub).filter fun x => decide (x.index < e.index)) p
    e.statement.issuedAt expected = .ok v
  same : ∃ a b, verdictSignature e.statement.payload
      (if priv.truthy then [] else privateOnlyEquations) = .ok a ∧
    verdictSignature v.toDict (if priv.truthy then [] else privateOnlyEquations) = .ok b ∧
    a.same b = true

theorem compareVerdict_matched {auditor : Auditor} {engine : ReconciliationEngine}
    {entries : List LogEntry} {headTime : Py Int} {sub : Value} {expected : List String}
    {e : LogEntry} {c : Comparison}
    (h : compareVerdict K auditor engine entries headTime sub expected (some e) = .ok c)
    (matched : c.matched = true) :
    ∃ priv v, ComparedWith K auditor engine entries sub expected e priv v := by
  obtain ⟨priv, selected, h⟩ := bind_ok.mp h
  obtain ⟨now, time, h⟩ := bind_ok.mp h
  obtain ⟨p, readable, h⟩ := bind_ok.mp h
  obtain ⟨v, replayed, h⟩ := bind_ok.mp h
  obtain ⟨mine, projected, h⟩ := bind_ok.mp h
  obtain ⟨theirs, read, h⟩ := bind_ok.mp h
  obtain rfl := Except.ok.inj h
  obtain rfl := Except.ok.inj time
  refine ⟨priv, v, selected, ⟨p, readable, replayed⟩, ?_⟩
  simp only [payloadOf, Option.map_some] at read
  cases payload : e.statement.payload with
  | nil =>
    rw [payload] at read
    obtain rfl := Except.ok.inj read
    simp [sameSignature] at matched
  | cons x rest =>
    rw [payload] at read
    obtain ⟨a, made, read⟩ := bind_ok.mp read
    obtain rfl := Except.ok.inj read
    simp only [sameSignature, Bool.and_eq_true] at matched
    exact ⟨a, mine, made, projected, matched.2⟩

/-- The comparison of a registered verdict, computed. -/
theorem compareVerdict_made {auditor : Auditor} {engine : ReconciliationEngine}
    {entries : List LogEntry} {headTime : Py Int} {sub : Value} {expected : List String}
    {e : LogEntry} {priv : Value} {p : Option PrivateEvidence} {v : Verdict}
    {a b : VerdictSignature} (nonempty : e.statement.payload ≠ [])
    (selected : selectPrivate K auditor sub (some e.statement.payload) = .ok priv)
    (readable : readPrivate priv = .ok p)
    (replay : judge K engine sub ((evidenceEntries entries sub).filter fun x =>
      decide (x.index < e.index)) p e.statement.issuedAt expected = .ok v)
    (theirs : verdictSignature e.statement.payload
      (if priv.truthy then [] else privateOnlyEquations) = .ok a)
    (mine : verdictSignature v.toDict (if priv.truthy then [] else privateOnlyEquations) = .ok b) :
    ∃ c, compareVerdict K auditor engine entries headTime sub expected (some e) = .ok c ∧
      c.matched = a.same b := by
  have replayed : recompute K engine (evidenceEntries entries sub) e.index sub p expected
      e.statement.issuedAt = .ok v := replay
  have read : signatureOf (payloadOf (some e))
      (if priv.truthy then [] else privateOnlyEquations) = .ok (some a) := by
    rw [payloadOf, Option.map_some]
    cases payload : e.statement.payload with
    | nil => exact absurd payload nonempty
    | cons x rest =>
      rw [payload] at theirs
      rw [signatureOf, theirs]
      rfl
  have chosen : selectPrivate K auditor sub (payloadOf (some e)) = .ok priv := selected
  rw [compareVerdict, chosen, ok_bind]
  simp only [verdictTime, ok_bind, readable, Option.map_some, Option.getD_some, replayed, mine,
    read, pure_ok]
  exact ⟨_, rfl, by simp [payloadOf, sameSignature]⟩

theorem compareVerdict_of {auditor : Auditor} {engine : ReconciliationEngine}
    {entries : List LogEntry} {headTime : Py Int} {sub : Value} {expected : List String}
    {e : LogEntry} {priv : Value} {v : Verdict}
    (compared : ComparedWith K auditor engine entries sub expected e priv v)
    (nonempty : e.statement.payload ≠ []) :
    ∃ c, compareVerdict K auditor engine entries headTime sub expected (some e) = .ok c ∧
      c.matched = true := by
  obtain ⟨p, readable, judged⟩ := compared.replayed
  obtain ⟨a, b, theirs, mine, same⟩ := compared.same
  rw [← same]
  exact compareVerdict_made nonempty compared.selected readable judged theirs mine

/-- The operator's verdict is the engine's on what precedes it, judged with the private
evidence that the auditor selects for it. -/
theorem compareVerdict_honest {auditor : Auditor} {engine : ReconciliationEngine}
    {before after : List LogEntry} {headTime : Py Int} {sub : Value} {expected : List String}
    {e : LogEntry} {v : Verdict} {extra : Dict} {priv : Value} {p : Option PrivateEvidence}
    {now : Int} (ordered : inOrder 0 (before ++ e :: after) = true)
    (verdict : isVerdict e = true) (payload : e.statement.payload = v.toDict ++ extra)
    (selected : selectPrivate K auditor sub (some e.statement.payload) = .ok priv)
    (readable : readPrivate priv = .ok p)
    (judged : judge K engine sub (evidenceEntries before sub) p now expected = .ok v) :
    ∃ c, compareVerdict K auditor engine (before ++ e :: after) headTime sub expected (some e) =
      .ok c ∧ c.matched = true := by
  obtain ⟨a, ha, same⟩ := same_self v (if priv.truthy then [] else privateOnlyEquations)
  have nonempty : e.statement.payload ≠ [] := by
    rw [payload]
    rintro ⟨⟩
  refine compareVerdict_of ⟨selected, ⟨p, readable, ?_⟩, a, a, ?_, ha, same⟩ nonempty
  · rw [snapshot_before ordered verdict, ← judge_time engine sub _ p now e.statement.issuedAt]
    exact judged
  · rw [payload, verdictSignature_append, ha]

/-- The parties the auditor expects to hear from. -/
def expectedOf (auditor : Auditor) (sub : String) : List String :=
  (find auditor.expectedPartiesBySub (.str sub)).getD ["U", "R", "M"]

/-- A request whose verdicts are all compared with one outcome. -/
theorem auditSub_each {auditor : Auditor} {engine : ReconciliationEngine} {ex : Export}
    {tsPub : Bytes} {entries verdicts : List LogEntry} {others : List Unauthenticated}
    {headTime : Py Int} {sub : String} {P : Comparison → Prop}
    (split : splitVerdicts K ex tsPub (.str sub) entries = .ok (verdicts, others))
    (judged : verdicts ≠ [])
    (each : ∀ e ∈ verdicts, ∃ c, compareVerdict K auditor engine entries headTime (.str sub)
      (expectedOf auditor sub) (some e) = .ok c ∧ P c) :
    ∃ record, auditSub K auditor engine ex tsPub entries headTime sub = .ok (record, others) ∧
      record.sub = sub ∧ record.matched = record.historicalVerdicts.all Comparison.matched ∧
      record.historicalVerdicts ≠ [] ∧ ∀ c ∈ record.historicalVerdicts, P c := by
  have all : ∀ x ∈ orMissing verdicts, ∃ c, compareVerdict K auditor engine entries headTime
      (.str sub) (expectedOf auditor sub) x = .ok c ∧ P c := by
    intro x member
    rcases mem_orMissing.mp member with ⟨none_, -⟩ | ⟨e, inside, rfl⟩
    · exact absurd none_ judged
    · exact each e inside
  obtain ⟨comparisons, compared, holds⟩ := mapM_each all
  rw [expectedOf] at compared
  have made : ∃ record, auditSub K auditor engine ex tsPub entries headTime sub =
      .ok (record, others) := by
    rw [auditSub, split, ok_bind]
    simp only [compared, ok_bind, pure_ok]
    exact ⟨_, rfl⟩
  obtain ⟨record, made⟩ := made
  have part := auditSub_ok made
  obtain ⟨verdicts', split', -, compared'⟩ := part.split
  obtain ⟨rfl, -⟩ := Prod.mk.inj (Except.ok.inj (split.symm.trans split'))
  have filed := Except.ok.inj (compared.symm.trans compared')
  rw [filed] at holds
  refine ⟨record, made, part.named, part.matched, ?_, holds⟩
  intro empty
  obtain ⟨e, rest, rfl⟩ := List.exists_cons_of_ne_nil judged
  obtain ⟨c, inside, -⟩ := mapM_ok_mem compared'
    (mem_orMissing.mpr (.inr ⟨e, List.mem_cons_self, rfl⟩))
  rw [empty] at inside
  cases inside

theorem auditSub_matched {auditor : Auditor} {engine : ReconciliationEngine} {ex : Export}
    {tsPub : Bytes} {entries verdicts : List LogEntry} {headTime : Py Int} {sub : String}
    (split : splitVerdicts K ex tsPub (.str sub) entries = .ok (verdicts, []))
    (judged : verdicts ≠ [])
    (each : ∀ e ∈ verdicts, ∃ c, compareVerdict K auditor engine entries headTime (.str sub)
      (expectedOf auditor sub) (some e) = .ok c ∧ c.matched = true) :
    ∃ record, auditSub K auditor engine ex tsPub entries headTime sub = .ok (record, []) ∧
      record.sub = sub ∧ record.matched = true ∧
      ∀ c ∈ record.historicalVerdicts, c.matched = true := by
  obtain ⟨record, made, named, matched, -, all⟩ := auditSub_each split judged each
  exact ⟨record, made, named, matched.trans (List.all_eq_true.mpr all), all⟩

end HonestReplay
