import Custody.EngineMeaning
import Custody.ReplayAudit

/-!
# Comparing verdicts

The projection the auditor compares, computed for a verdict the engine made, and
what two such verdicts must share for their projections to be the same.
-/

namespace VerdictComparison

open PyValue Commitments Statements Evidence Equations EquationMeaning Discrepancies Engine
  EngineMeaning ReplayAudit

theorem less_str (s t : String) : ∃ b, less false (.str s) (.str t) = .ok b := by
  simp [less, scalarLess, number]

theorem insertSorted_strings (s : String) (xs : List String) :
    ∃ ys : List String, insertSorted id (.str s) (xs.map Value.str) = .ok (ys.map Value.str) := by
  induction xs with
  | nil => exact ⟨[s], rfl⟩
  | cons t xs ih =>
    obtain ⟨smaller, compared⟩ := less_str s t
    obtain ⟨ys, inserted⟩ := ih
    cases smaller with
    | true => exact ⟨s :: t :: xs, by simp [insertSorted, compared]⟩
    | false => exact ⟨t :: ys, by simp [insertSorted, compared, inserted]⟩

theorem sortedBy_strings (xs : List String) :
    ∃ ys : List String, sortedBy id (xs.map Value.str) = .ok (ys.map Value.str) := by
  have loop : ∀ (xs acc : List String), ∃ ys : List String,
      (xs.map Value.str).foldlM (fun acc x => insertSorted id x acc) (acc.map Value.str) =
        (.ok (ys.map Value.str) : Py (List Value)) := by
    intro xs
    induction xs with
    | nil =>
      intro acc
      exact ⟨acc, rfl⟩
    | cons x xs ih =>
      intro acc
      obtain ⟨next, inserted⟩ := insertSorted_strings x acc
      obtain ⟨ys, sorted⟩ := ih next
      refine ⟨ys, ?_⟩
      rw [List.map_cons, List.foldlM_cons, inserted]
      exact sorted
  exact loop xs []

theorem insertSorted_perm {A : Type} {key : A → Value} {x : A} {xs ys : List A}
    (h : insertSorted key x xs = .ok ys) : ys.Perm (x :: xs) := by
  induction xs generalizing ys with
  | nil =>
    obtain rfl := Except.ok.inj h
    exact .refl _
  | cons y xs ih =>
    rw [insertSorted] at h
    obtain ⟨smaller, -, h⟩ := bind_ok.mp h
    cases smaller with
    | true =>
      obtain rfl := Except.ok.inj h
      exact .refl _
    | false =>
      obtain ⟨rest, inserted, h⟩ := bind_ok.mp h
      obtain rfl := Except.ok.inj h
      exact ((ih inserted).cons y).trans (.swap x y xs)

theorem sortedBy_perm {A : Type} {key : A → Value} {xs ys : List A}
    (h : sortedBy key xs = .ok ys) : ys.Perm xs := by
  have loop : ∀ (xs acc ys : List A),
      xs.foldlM (fun acc x => insertSorted key x acc) acc = (.ok ys : Py (List A)) →
        ys.Perm (xs ++ acc) := by
    intro xs
    induction xs with
    | nil =>
      intro acc ys h
      obtain rfl := Except.ok.inj h
      exact .refl _
    | cons x xs ih =>
      intro acc ys h
      rw [List.foldlM_cons] at h
      obtain ⟨next, inserted, h⟩ := bind_ok.mp h
      refine (ih next ys h).trans ?_
      exact ((insertSorted_perm inserted).append_left xs).trans List.perm_middle
  have := loop xs [] ys h
  rwa [List.append_nil] at this

theorem ignored_name (ignore : List EqId) (k : EqId) :
    ignored ignore (.str k.name) = ignore.contains k := by
  induction ignore with
  | nil => rfl
  | cons j rest ih =>
    have same : (k.name == j.name) = (k == j) := by
      rw [Bool.eq_iff_iff, beq_iff_eq, beq_iff_eq]
      constructor
      · intro names
        exact EqId.name_injective _ _ names
      · intro equal
        rw [equal]
    simp only [ignored, memberOf, List.map_cons, List.any_cons, eq_str_str] at ih ⊢
    rw [ih, same, List.contains_cons]

def resultTexts (ignore : List EqId) (eqs : Results) (ks : List EqId) : Dict :=
  fields ((ks.filter fun k => !ignore.contains k).map fun k => (k.name, .str (eqs k).result.text))

theorem resultTexts_dropped {ignore : List EqId} {k : EqId} (dropped : ignore.contains k = true)
    (eqs : Results) (ks : List EqId) :
    resultTexts ignore eqs (k :: ks) = resultTexts ignore eqs ks := by
  simp only [resultTexts, List.filter_cons, dropped, Bool.not_true, Bool.false_eq_true, if_false]

theorem resultTexts_kept {ignore : List EqId} {k : EqId} (kept : ignore.contains k = false)
    (eqs : Results) (ks : List EqId) :
    resultTexts ignore eqs (k :: ks) =
      (.str k.name, .str (eqs k).result.text) :: resultTexts ignore eqs ks := by
  simp only [resultTexts, List.filter_cons, kept, Bool.not_false, if_true, fields, List.map_cons]

theorem equationResults_fields (ignore : List EqId) (eqs : Results) (ks : List EqId) :
    equationResults ignore (fields (ks.map fun k => (k.name, (eqs k).toDict))) =
      .ok (resultTexts ignore eqs ks) := by
  induction ks with
  | nil => rfl
  | cons k ks ih =>
    have result : (eqs k).toDict.item "result" = .ok (.str (eqs k).result.text) := rfl
    simp only [fields, List.map_cons, equationResults, ignored_name] at ih ⊢
    by_cases dropped : ignore.contains k = true
    · rw [if_pos dropped, ih, resultTexts_dropped dropped]
    · rw [if_neg dropped, result, ih, resultTexts_kept (by simpa using dropped)]
      rfl

theorem resultTexts_find {ignore : List EqId} {eqs : Results} {ks : List EqId} {k : EqId}
    (member : k ∈ ks) (kept : ignore.contains k = false) :
    getOr (resultTexts ignore eqs ks) k.name = .str (eqs k).result.text := by
  induction ks with
  | nil => cases member
  | cons j ks ih =>
    by_cases same : j = k
    · subst same
      rw [resultTexts_kept kept]
      simp [getOr, find]
    · have later := ih (by simpa [Ne.symm same] using member)
      by_cases dropped : ignore.contains j = true
      · rw [resultTexts_dropped dropped, later]
      · have names : (j.name == k.name) = false := by
          rw [beq_eq_false_iff_ne]
          exact fun equal => same (EqId.name_injective _ _ equal)
        rw [resultTexts_kept (by simpa using dropped), ← later]
        simp [getOr, find, names]

def codeDropped (ignore : List EqId) (code : String) : Bool :=
  !ignore.isEmpty && memberOf (.str code) privateOnlyCodes

/-- The codes that are compared. -/
def codeTexts (ignore : List EqId) (ds : List Discrepancy) : List String :=
  (ds.map Discrepancy.code).filter fun code => !codeDropped ignore code

theorem codeTexts_cons (ignore : List EqId) (d : Discrepancy) (ds : List Discrepancy) :
    codeTexts ignore (d :: ds) = if codeDropped ignore d.code then codeTexts ignore ds
      else d.code :: codeTexts ignore ds := by
  cases dropped : codeDropped ignore d.code with
  | true => simp only [codeTexts, List.map_cons, List.filter_cons, dropped, Bool.not_true,
      Bool.false_eq_true, if_false, if_true]
  | false => simp only [codeTexts, List.map_cons, List.filter_cons, dropped, Bool.not_false,
      Bool.false_eq_true, if_false, if_true]

theorem keptCodes_map (ignore : List EqId) (ds : List Discrepancy) :
    keptCodes ignore (ds.map Discrepancy.toDict) = .ok ((codeTexts ignore ds).map Value.str) := by
  induction ds with
  | nil => rfl
  | cons d ds ih =>
    have code : d.toDict.item "code" = .ok (.str d.code) := rfl
    rw [codeTexts_cons, List.map_cons, keptCodes, code, ok_bind, ih, ok_bind, codeDropped]
    split <;> rfl

theorem getAll_hashes (refs : List StatementRef) :
    getAll "statement_hash" (refs.map StatementRef.toDict) =
      .ok ((refs.map StatementRef.statementHash).map Value.str) := by
  induction refs with
  | nil => rfl
  | cons r refs ih =>
    have hash : r.toDict.get "statement_hash" .null = .ok (.str r.statementHash) := rfl
    simp only [getAll] at ih
    simp only [getAll, List.map_cons, List.mapM_cons, hash, ih, ok_bind, pure_ok]

/-- The status an engine verdict is compared with. -/
def comparedText (ignore : List EqId) (v : Verdict) : Value :=
  comparedStatus ignore (.str v.status.text) (resultTexts ignore v.equations EqId.all)

/-- The projection of an engine verdict always exists, field by field. -/
theorem verdictSignature_toDict (v : Verdict) (ignore : List EqId) :
    ∃ codes evidence, sortedBy id ((codeTexts ignore v.discrepancies).map Value.str) = .ok codes ∧
      sortedBy id ((v.evidenceRefs.map StatementRef.statementHash).map Value.str) = .ok evidence ∧
      verdictSignature v.toDict ignore = .ok {
        verificationStatus := comparedText ignore v
        completeness := .str v.completeness.status
        codes
        equations := resultTexts ignore v.equations EqId.all
        policyHash := .str v.policyHash
        checkerVersion := .str checkerVersion
        trustKeysVersion := .str v.trustKeysVersion
        evidence } := by
  obtain ⟨codes, sortedCodes⟩ := sortedBy_strings (codeTexts ignore v.discrepancies)
  obtain ⟨evidence, sortedEvidence⟩ :=
    sortedBy_strings (v.evidenceRefs.map StatementRef.statementHash)
  refine ⟨_, _, sortedCodes, sortedEvidence, ?_⟩
  have equations : getItem v.toDict "equations" =
      .ok (.dict (fields (EqId.all.map fun k => (k.name, (v.equations k).toDict)))) := rfl
  have discrepancies : getItem v.toDict "discrepancies" =
      .ok (.list (v.discrepancies.map Discrepancy.toDict)) := rfl
  have status : getItem v.toDict "verification_status" = .ok (.str v.status.text) := rfl
  have completeness : getItem v.toDict "completeness" = .ok (.str v.completeness.status) := rfl
  have refs : (find v.toDict (.str "evidence_refs")).getD (.list []) =
      .list (v.evidenceRefs.map StatementRef.toDict) := rfl
  simp only [verdictSignature, equations, discrepancies, status, completeness, refs, ok_bind,
    items, equationResults_fields, Value.iterate, keptCodes_map, getAll_hashes, sortedCodes,
    sortedEvidence, pure_ok]
  rfl

theorem eq_str_self (s : String) : Value.eq (.str s) (.str s) = true := by simp

theorem eqList_strings (xs : List String) :
    Value.eqList (xs.map Value.str) (xs.map Value.str) = true := by
  induction xs with
  | nil => rfl
  | cons x xs ih => simp [Value.eqList, ih]

theorem eqDict_of_find {xs ys : Dict}
    (same : ∀ x ∈ xs, ∃ y, find ys x.1 = some y ∧ x.2.eq y = true) :
    Value.eqDict xs ys = true := by
  induction xs with
  | nil => rfl
  | cons x xs ih =>
    obtain ⟨k, v⟩ := x
    obtain ⟨y, found, equal⟩ := same (k, v) (by simp)
    have later := ih fun x member => same x (by simp [member])
    simp only [Value.eqDict, found, equal, later, Bool.and_self]

theorem resultTexts_self (ignore : List EqId) (eqs : Results) (ks : List EqId) :
    Value.eq (.dict (resultTexts ignore eqs ks)) (.dict (resultTexts ignore eqs ks)) = true := by
  have equal : Value.eqDict (resultTexts ignore eqs ks) (resultTexts ignore eqs ks) = true := by
    apply eqDict_of_find
    intro x member
    obtain ⟨entry, listed, rfl⟩ := List.mem_map.mp member
    obtain ⟨k, inside, rfl⟩ := List.mem_map.mp listed
    obtain ⟨inside, kept⟩ := List.mem_filter.mp inside
    have found : getOr (resultTexts ignore eqs ks) k.name = .str (eqs k).result.text :=
      resultTexts_find inside (by simpa using kept)
    cases hit : find (resultTexts ignore eqs ks) (.str k.name) with
    | none => simp [getOr, hit] at found
    | some y =>
      simp only [getOr, hit, Option.getD_some] at found
      exact ⟨y, rfl, by simp [found]⟩
  simp [Value.eq, equal]

/-- Two engine verdicts that agree outside the status are compared by their status alone. -/
theorem same_iff_status {v w : Verdict} {ignore : List EqId}
    (completeness : v.completeness.status = w.completeness.status)
    (codes : codeTexts ignore v.discrepancies = codeTexts ignore w.discrepancies)
    (results : resultTexts ignore v.equations EqId.all = resultTexts ignore w.equations EqId.all)
    (policy : v.policyHash = w.policyHash) (keys : v.trustKeysVersion = w.trustKeysVersion)
    (refs : v.evidenceRefs = w.evidenceRefs) :
    ∃ a b, verdictSignature v.toDict ignore = .ok a ∧ verdictSignature w.toDict ignore = .ok b ∧
      a.same b = (comparedText ignore v).eq (comparedText ignore w) := by
  obtain ⟨codesV, evidenceV, sortedV, listedV, hv⟩ := verdictSignature_toDict v ignore
  obtain ⟨codesW, evidenceW, sortedW, listedW, hw⟩ := verdictSignature_toDict w ignore
  refine ⟨_, _, hv, hw, ?_⟩
  obtain ⟨cs, codesAre⟩ := sortedBy_strings (codeTexts ignore w.discrepancies)
  obtain ⟨es, evidenceAre⟩ := sortedBy_strings (w.evidenceRefs.map StatementRef.statementHash)
  rw [codes, codesAre, Except.ok.injEq] at sortedV
  rw [codesAre, Except.ok.injEq] at sortedW
  rw [refs, evidenceAre, Except.ok.injEq] at listedV
  rw [evidenceAre, Except.ok.injEq] at listedW
  subst sortedV sortedW listedV listedW
  have sameResults := resultTexts_self ignore w.equations EqId.all
  have sameCodes : Value.eq (.list (cs.map Value.str)) (.list (cs.map Value.str)) = true := by
    rw [Value.eq, eqList_strings]
  have sameEvidence : Value.eq (.list (es.map Value.str)) (.list (es.map Value.str)) = true := by
    rw [Value.eq, eqList_strings]
  simp only [VerdictSignature.same, completeness, policy, keys, eq_str_self, results, sameCodes,
    sameEvidence, sameResults, Bool.and_true]

def publicRequired : List EqId := requiredForPass.filter fun k => !privateOnlyEquations.contains k

def publicPass (eqs : Results) : Bool := publicRequired.all fun k => decide ((eqs k).result = .pass)

/-- The status word compared when private evidence is left out. -/
def publicWord : Status → Bool → String
  | .failed, _ => "failed"
  | .passed, _ => "passed_excluding_private"
  | .insufficientEvidence, true => "passed_excluding_private"
  | .insufficientEvidence, false => "insufficient_evidence"

theorem publicPass_results (eqs : Results) :
    publicPass eqs = publicRequired.all fun k =>
      (getOr (resultTexts privateOnlyEquations eqs EqId.all) k.name).eq (.str "pass") := by
  rw [publicPass, Bool.eq_iff_iff, List.all_eq_true, List.all_eq_true]
  have each : ∀ k ∈ publicRequired, (decide ((eqs k).result = .pass) = true ↔
      (getOr (resultTexts privateOnlyEquations eqs EqId.all) k.name).eq (.str "pass") = true) := by
    intro k required
    have kept : privateOnlyEquations.contains k = false := by
      simpa using (List.mem_filter.mp required).2
    rw [resultTexts_find (EqId.mem_all k) kept]
    cases (eqs k).result <;> decide
  constructor
  · intro all k required
    exact (each k required).mp (all k required)
  · intro all k required
    exact (each k required).mpr (all k required)

theorem comparedText_public (v : Verdict) :
    comparedText privateOnlyEquations v = .str (publicWord v.status (publicPass v.equations)) := by
  have words := publicPass_results v.equations
  rw [publicRequired] at words
  rw [comparedText, comparedStatus, ← words]
  cases v.status with
  | passed => rfl
  | failed => rfl
  | insufficientEvidence => cases publicPass v.equations <;> rfl

theorem comparedText_full (v : Verdict) : comparedText [] v = .str v.status.text := rfl

/-- The required equations that need no private evidence all passed, if the verdict did. -/
theorem publicPass_of_passed {engine : ReconciliationEngine} {K : Primitives} {ev : EvidenceSet}
    {parties : List String} {v : Verdict} (judged : reconcile K engine ev parties = .ok v)
    (passed : v.status = .passed) : publicPass v.equations = true := by
  obtain ⟨_, _, _, made⟩ := reconcile_ok judged
  have passing := made.passed.mp passed
  simp only [publicPass, List.all_eq_true, decide_eq_true_eq]
  intro k required
  exact (made.means k).passed.mpr (passing.required k (List.mem_filter.mp required).1)

end VerdictComparison
