import Custody.LogInvariant
import Custody.VerdictComparison

/-!
# What an audit report says

Which requests are replayed, which verdicts are compared in a record and which
are set aside, read off a report; and the report of an export that was made from
a log of the right shape.
-/

namespace ReplayMeaning

open PyValue HexBytes CanonicalJson Commitments Statements Schemas Evidence Engine EngineMeaning
  Merkle TransparencyLog HeldReceipts ReplayAudit LogInvariant

variable {K : Primitives}

theorem mem_insertString (s t : String) (xs : List String) :
    s ∈ insertString t xs ↔ s = t ∨ s ∈ xs := by
  induction xs with
  | nil => simp [insertString]
  | cons x xs ih =>
    rw [insertString]
    by_cases same : t = x
    · subst same
      simp
    · rw [if_neg same]
      split
      · simp
      · rw [List.mem_cons, ih, List.mem_cons]
        constructor
        · rintro (h | h | h)
          · exact .inr (.inl h)
          · exact .inl h
          · exact .inr (.inr h)
        · rintro (h | h | h)
          · exact .inr (.inl h)
          · exact .inl h
          · exact .inr (.inr h)

theorem mem_sortedStrings (s : String) (xs : List String) :
    s ∈ xs.foldr insertString [] ↔ s ∈ xs := by
  induction xs with
  | nil => simp
  | cons x xs ih => rw [List.foldr_cons, mem_insertString, ih, List.mem_cons]

/-- The request has an entry other than a verdict or a policy, and is not a session. -/
def Replayed (entries : List LogEntry) (sub : String) : Prop :=
  startsWith sub sessionHead = false ∧ ∃ e ∈ entries, e.statement.sub = .str sub ∧
    e.statement.contentType ≠ .str ctVerdict ∧ e.statement.contentType ≠ .str ctPolicy

theorem subOfEntry_some {e : LogEntry} {s : String} :
    subOfEntry e = .ok (some s) ↔ startsWith s sessionHead = false ∧ e.statement.sub = .str s ∧
      e.statement.contentType ≠ .str ctVerdict ∧ e.statement.contentType ≠ .str ctPolicy := by
  have types : memberOf e.statement.contentType (texts [ctVerdict, ctPolicy]) = true ↔
      e.statement.contentType = .str ctVerdict ∨ e.statement.contentType = .str ctPolicy := by
    rw [memberOf_texts]
    simp
  rw [subOfEntry]
  by_cases other : memberOf e.statement.contentType (texts [ctVerdict, ctPolicy]) = true
  · rw [if_pos other]
    constructor
    · rintro ⟨⟩
    · rintro ⟨-, -, notVerdict, notPolicy⟩
      rcases types.mp other with h | h
      · exact absurd h notVerdict
      · exact absurd h notPolicy
  · rw [if_neg other]
    have evidence := mt types.mpr other
    rw [not_or] at evidence
    cases e.statement.sub with
    | str t =>
      cases session : startsWith t sessionHead with
      | true =>
        simp only [session, if_true, Except.ok.injEq, reduceCtorEq, Value.str.injEq, false_iff]
        rintro ⟨notSession, rfl, -⟩
        rw [session] at notSession
        cases notSession
      | false =>
        simp only [session, Bool.false_eq_true, if_false, Except.ok.injEq, Option.some.injEq,
          Value.str.injEq]
        constructor
        · rintro rfl
          exact ⟨session, rfl, evidence.1, evidence.2⟩
        · rintro ⟨-, rfl, -⟩
          rfl
    | _ => simp

theorem mem_subsOf {entries : List LogEntry} {subs : List String}
    (h : subsOf entries = .ok subs) (s : String) : s ∈ subs ↔ Replayed entries s := by
  obtain ⟨found, listed, h⟩ := bind_ok.mp h
  obtain rfl := Except.ok.inj h
  rw [mem_sortedStrings, List.mem_filterMap]
  constructor
  · rintro ⟨x, inside, rfl⟩
    obtain ⟨e, member, made⟩ := mem_mapM_ok listed inside
    obtain ⟨notSession, sub, types⟩ := subOfEntry_some.mp made
    exact ⟨notSession, e, member, sub, types⟩
  · rintro ⟨notSession, e, member, sub, types⟩
    obtain ⟨x, inside, made⟩ := mapM_ok_mem listed member
    rw [subOfEntry_some.mpr ⟨notSession, sub, types⟩] at made
    obtain rfl := Except.ok.inj made
    exact ⟨_, inside, rfl⟩

theorem splitVerdicts_ok {ex : Export} {tsPub : Bytes} {sub : Value} {entries good : List LogEntry}
    {others : List Unauthenticated}
    (h : splitVerdicts K ex tsPub sub entries = .ok (good, others)) :
    (∀ e, e ∈ good ↔ e ∈ entries ∧ e.statement.sub.eq sub = true ∧ isVerdict e = true ∧
      verdictEnvelopeProblem K e.statement ex tsPub = .ok none) ∧
    (∀ u ∈ others, ∃ e ∈ entries, isVerdict e = true ∧ e.statement.sub.eq sub = true ∧
      u.logIndex = e.index) ∧
    (∀ e ∈ entries, e.statement.sub.eq sub = true → isVerdict e = true → e ∈ good ∨
      ∃ u ∈ others, u.logIndex = e.index) := by
  induction entries generalizing good others with
  | nil =>
    obtain ⟨rfl, rfl⟩ := Prod.mk.inj (Except.ok.inj h)
    simp
  | cons x rest ih =>
    rw [splitVerdicts] at h
    by_cases skip : (!(x.statement.sub.eq sub) || !isVerdict x) = true
    · rw [if_pos skip] at h
      obtain ⟨kept, set, every⟩ := ih h
      have notOf : ¬ (x.statement.sub.eq sub = true ∧ isVerdict x = true) := by
        rintro ⟨same, verdict⟩
        simp [same, verdict] at skip
      refine ⟨fun e => ?_, fun u member => ?_, fun e member same verdict => ?_⟩
      · rw [kept e, List.mem_cons]
        constructor
        · rintro ⟨inside, facts⟩
          exact ⟨.inr inside, facts⟩
        · rintro ⟨rfl | inside, facts⟩
          · exact absurd ⟨facts.1, facts.2.1⟩ notOf
          · exact ⟨inside, facts⟩
      · obtain ⟨e, inside, facts⟩ := set u member
        exact ⟨e, List.mem_cons_of_mem _ inside, facts⟩
      · rcases List.mem_cons.mp member with rfl | inside
        · exact absurd ⟨same, verdict⟩ notOf
        · exact every e inside same verdict
    · rw [if_neg skip] at h
      have ofSub : x.statement.sub.eq sub = true ∧ isVerdict x = true := by
        simpa using skip
      obtain ⟨bad, checked, h⟩ := bind_ok.mp h
      obtain ⟨⟨good', others'⟩, later, h⟩ := bind_ok.mp h
      obtain ⟨kept, set, every⟩ := ih later
      cases bad with
      | none =>
        obtain ⟨rfl, rfl⟩ := Prod.mk.inj (Except.ok.inj h)
        refine ⟨fun e => ?_, fun u member => ?_, fun e member same verdict => ?_⟩
        · rw [List.mem_cons, List.mem_cons, kept e]
          constructor
          · rintro (rfl | ⟨inside, facts⟩)
            · exact ⟨.inl rfl, ofSub.1, ofSub.2, checked⟩
            · exact ⟨.inr inside, facts⟩
          · rintro ⟨rfl | inside, facts⟩
            · exact .inl rfl
            · exact .inr ⟨inside, facts⟩
        · obtain ⟨e, inside, facts⟩ := set u member
          exact ⟨e, List.mem_cons_of_mem _ inside, facts⟩
        · rcases List.mem_cons.mp member with rfl | inside
          · exact .inl List.mem_cons_self
          · rcases every e inside same verdict with kept' | set'
            · exact .inl (List.mem_cons_of_mem _ kept')
            · exact .inr set'
      | some problem =>
        obtain ⟨rfl, rfl⟩ := Prod.mk.inj (Except.ok.inj h)
        refine ⟨fun e => ?_, fun u member => ?_, fun e member same verdict => ?_⟩
        · rw [kept e, List.mem_cons]
          constructor
          · rintro ⟨inside, facts⟩
            exact ⟨.inr inside, facts⟩
          · rintro ⟨rfl | inside, facts⟩
            · rw [checked] at facts
              cases facts.2.2
            · exact ⟨inside, facts⟩
        · rcases List.mem_cons.mp member with rfl | member
          · exact ⟨x, List.mem_cons_self, ofSub.2, ofSub.1, rfl⟩
          · obtain ⟨e, inside, facts⟩ := set u member
            exact ⟨e, List.mem_cons_of_mem _ inside, facts⟩
        · rcases List.mem_cons.mp member with rfl | inside
          · exact .inr ⟨_, List.mem_cons_self, rfl⟩
          · rcases every e inside same verdict with kept' | ⟨u, set', index⟩
            · exact .inl kept'
            · exact .inr ⟨u, List.mem_cons_of_mem _ set', index⟩

/-- Where the last entry alone is a verdict, it is the only one that is compared. -/
theorem splitVerdicts_last {ex : Export} {tsPub : Bytes} {sub : Value} {older good : List LogEntry}
    {x : LogEntry} {others : List Unauthenticated}
    (h : splitVerdicts K ex tsPub sub (older ++ [x]) = .ok (good, others))
    (honest : ∀ e ∈ older, isVerdict e = false) (some_ : good ≠ []) :
    (∀ e ∈ good, e = x) ∧ x ∈ good := by
  obtain ⟨kept, -, -⟩ := splitVerdicts_ok h
  have only : ∀ e ∈ good, e = x := by
    intro e inside
    obtain ⟨member, -, verdict, -⟩ := (kept e).mp inside
    rcases List.mem_append.mp member with old | new
    · rw [honest e old] at verdict
      cases verdict
    · exact List.mem_singleton.mp new
  obtain ⟨e, rest, rfl⟩ := List.exists_cons_of_ne_nil some_
  refine ⟨only, ?_⟩
  rw [← only e List.mem_cons_self]
  exact List.mem_cons_self

theorem mem_orMissing {verdicts : List LogEntry} {x : Option LogEntry} :
    x ∈ orMissing verdicts ↔ (verdicts = [] ∧ x = none) ∨ ∃ e ∈ verdicts, x = some e := by
  cases verdicts with
  | nil => simp [orMissing]
  | cons v rest => simp [orMissing, eq_comm]

/-- A comparison is filed under the log index of its verdict. -/
theorem compareVerdict_index {auditor : Auditor} {engine : ReconciliationEngine}
    {entries : List LogEntry} {headTime : Py Int} {sub : Value} {expected : List String}
    {entry : Option LogEntry} {c : Comparison}
    (h : compareVerdict K auditor engine entries headTime sub expected entry = .ok c) :
    c.logIndex = entry.map LogEntry.index := by
  obtain ⟨priv, -, h⟩ := bind_ok.mp h
  obtain ⟨now, -, h⟩ := bind_ok.mp h
  obtain ⟨readable, -, h⟩ := bind_ok.mp h
  obtain ⟨mine, -, h⟩ := bind_ok.mp h
  obtain ⟨recomputed, -, h⟩ := bind_ok.mp h
  obtain ⟨tVerdict, -, h⟩ := bind_ok.mp h
  obtain rfl := Except.ok.inj h
  rfl

/-- One request's part of the report. -/
structure SubAudited (K : Primitives) (auditor : Auditor) (engine : ReconciliationEngine)
    (ex : Export) (tsPub : Bytes) (entries : List LogEntry) (headTime : Py Int) (sub : String)
    (record : SubRecord) (others : List Unauthenticated) : Prop where
  named : record.sub = sub
  split : ∃ verdicts, splitVerdicts K ex tsPub (.str sub) entries = .ok (verdicts, others) ∧
    record.tVerdictCount = verdicts.length ∧
    (orMissing verdicts).mapM (compareVerdict K auditor engine entries headTime (.str sub)
      ((find auditor.expectedPartiesBySub (.str sub)).getD ["U", "R", "M"])) =
        .ok record.historicalVerdicts
  matched : record.matched = record.historicalVerdicts.all Comparison.matched

theorem auditSub_ok {auditor : Auditor} {engine : ReconciliationEngine} {ex : Export}
    {tsPub : Bytes} {entries : List LogEntry} {headTime : Py Int} {sub : String}
    {record : SubRecord} {others : List Unauthenticated}
    (h : auditSub K auditor engine ex tsPub entries headTime sub = .ok (record, others)) :
    SubAudited K auditor engine ex tsPub entries headTime sub record others := by
  obtain ⟨⟨verdicts, set⟩, split, h⟩ := bind_ok.mp h
  obtain ⟨comparisons, compared, h⟩ := bind_ok.mp h
  obtain ⟨rfl, rfl⟩ := Prod.mk.inj (Except.ok.inj h)
  exact ⟨rfl, ⟨verdicts, split, rfl, compared⟩, rfl⟩

/-- What a report rests on. -/
structure Reported (K : Primitives) (auditor : Auditor) (ex : Export) (report : AuditReport)
    (entries : List LogEntry) (tsPub : Bytes) (engine : ReconciliationEngine) : Prop where
  read : ex.entries.mapM readEntry = .ok entries
  key : fromHexValue (.str ex.tsPublicKey) = .ok tsPub
  /-- Every replayed request has its record, and every record is one of a replayed request. -/
  records : ∀ s, Replayed entries s → ∃ record ∈ report.verdictsChecked, ∃ others,
    SubAudited K auditor engine ex tsPub entries (headTimeOf ex.head) s record others ∧
    ∀ u ∈ others, u ∈ report.unauthenticatedVerdicts
  sources : ∀ record ∈ report.verdictsChecked, Replayed entries record.sub ∧ ∃ others,
    SubAudited K auditor engine ex tsPub entries (headTimeOf ex.head) record.sub record others
  setAside : ∀ u ∈ report.unauthenticatedVerdicts, ∃ s record others, Replayed entries s ∧
    SubAudited K auditor engine ex tsPub entries (headTimeOf ex.head) s record others ∧ u ∈ others
  ok : report.ok = true → inOrder 0 entries = true ∧
    (∀ record ∈ report.verdictsChecked, record.matched = true) ∧
    report.unauthenticatedVerdicts = []

theorem treeMatchesHead_inOrder {tree : MerkleTree} {entries : List LogEntry} {head : Dict}
    (h : treeMatchesHead K tree entries head = .ok true) : inOrder 0 entries = true := by
  obtain ⟨rootHash, -, h⟩ := bind_ok.mp h
  by_cases different : (!Value.eq (.str (hex (tree.root K))) rootHash) = true
  · rw [if_pos different] at h
    cases h
  · rw [if_neg different] at h
    obtain ⟨size, -, h⟩ := bind_ok.mp h
    have both := Except.ok.inj h
    rw [Bool.and_eq_true] at both
    exact both.2

theorem replayAudit_ok {auditor : Auditor} {ex : Export} {report : AuditReport}
    (h : replayAudit K auditor ex = .ok report) :
    ∃ entries tsPub policy, readPolicy K ex tsPub entries = .ok policy ∧
      Reported K auditor ex report entries tsPub (auditEngine policy auditor) := by
  obtain ⟨entries, read, h⟩ := bind_ok.mp h
  obtain ⟨tsPub, key, h⟩ := bind_ok.mp h
  obtain ⟨tree, -, h⟩ := bind_ok.mp h
  obtain ⟨treeOk, ordered, h⟩ := bind_ok.mp h
  obtain ⟨headOk, -, h⟩ := bind_ok.mp h
  obtain ⟨policy, readable, h⟩ := bind_ok.mp h
  obtain ⟨anchors, -, h⟩ := bind_ok.mp h
  obtain ⟨receipts, -, h⟩ := bind_ok.mp h
  obtain ⟨subs, listed, h⟩ := bind_ok.mp h
  obtain ⟨audited, each, h⟩ := bind_ok.mp h
  obtain rfl := Except.ok.inj h
  refine ⟨entries, tsPub, policy, readable, read, key, ?_, ?_, ?_, ?_⟩
  · intro s replayed
    obtain ⟨⟨record, others⟩, inside, made⟩ := mapM_ok_mem each ((mem_subsOf listed s).mpr replayed)
    refine ⟨record, List.mem_map_of_mem inside, others, auditSub_ok made, fun u member => ?_⟩
    exact List.mem_flatMap.mpr ⟨_, inside, member⟩
  · intro record member
    obtain ⟨⟨record', others⟩, inside, rfl⟩ := List.mem_map.mp member
    obtain ⟨s, sub, made⟩ := mem_mapM_ok each inside
    have audit := auditSub_ok made
    obtain rfl : record'.sub = s := audit.named
    exact ⟨(mem_subsOf listed _).mp sub, others, audit⟩
  · intro u member
    obtain ⟨⟨record, others⟩, inside, member⟩ := List.mem_flatMap.mp member
    obtain ⟨s, sub, made⟩ := mem_mapM_ok each inside
    exact ⟨s, record, others, (mem_subsOf listed s).mp sub, auditSub_ok made, member⟩
  · intro fine
    simp only [Bool.and_eq_true] at fine
    obtain ⟨⟨⟨⟨⟨⟨tree_, -⟩, -⟩, -⟩, matched⟩, none_⟩, -⟩ := fine
    refine ⟨treeMatchesHead_inOrder (tree_ ▸ ordered), ?_, List.isEmpty_iff.mp none_⟩
    exact List.all_eq_true.mp matched

end ReplayMeaning
