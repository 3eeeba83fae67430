import Custody.HonestReplay
import Mathlib.Data.List.Nodup

/-!
# Verdicts that survive a fine audit

When a verdict is compared with all of the user's private evidence at hand, it
agrees with the engine on everything the projection keeps. The evidence is used
only as long as the verdict does not name another hash for it.
-/

namespace AuditSoundness

open PyValue Equality HexBytes Commitments Statements Schemas Evidence Equations Discrepancies
  Engine EquationMeaning EngineMeaning TransparencyLog RegisteredEvidence ReplayAudit
  VerdictComparison LogInvariant ReplayMeaning LogExport PassedVerdict WithoutEvidence
  BlockedJudgment AuditCoverage HonestReplay

variable {K : Primitives}

/-- A list that equals a list of texts is that list. -/
theorem eqList_strings_ok {xs : List Value} {ys : List String}
    (h : Value.eqList xs (ys.map Value.str) = true) : xs = ys.map Value.str := by
  induction xs generalizing ys with
  | nil =>
    cases ys with
    | nil => rfl
    | cons y ys => cases h
  | cons x xs ih =>
    cases ys with
    | nil => cases h
    | cons y ys =>
      rw [List.map_cons, Value.eqList, Bool.and_eq_true] at h
      rw [List.map_cons, ih h.2, (eq_str_right _ _).mp h.1]

theorem keptCodes_all {ds codes : List Value} (h : keptCodes [] ds = .ok codes) :
    ds.mapM (fun d => d.item "code") = .ok codes := by
  induction ds generalizing codes with
  | nil => exact h
  | cons d ds ih =>
    rw [keptCodes] at h
    obtain ⟨code, first, h⟩ := bind_ok.mp h
    obtain ⟨later, rest, h⟩ := bind_ok.mp h
    obtain rfl := Except.ok.inj h
    rw [List.mapM_cons, first, ok_bind, ih rest]
    rfl

theorem scalarEq_str_right {s : String} {v : Value} (h : v.scalarEq (.str s) = true) :
    v = .str s := by
  cases v with
  | str t =>
    rw [scalarEq_str, beq_iff_eq] at h
    rw [h]
  | _ => cases h

/-- What the kept results say of the equations they were taken from. -/
theorem equationResults_kept {ignore : List EqId} {eqs results : Dict}
    (h : equationResults ignore eqs = .ok results) :
    (results.map Prod.fst).Sublist (eqs.map Prod.fst) ∧
    ∀ s r, ignored ignore (.str s) = false → find results (.str s) = some r →
      ∃ e, find eqs (.str s) = some e ∧ e.item "result" = .ok r := by
  induction eqs generalizing results with
  | nil =>
    obtain rfl := Except.ok.inj h
    exact ⟨.slnil, fun s r _ found => by cases found⟩
  | cons x eqs ih =>
    obtain ⟨name, e⟩ := x
    rw [equationResults] at h
    by_cases dropped : ignored ignore name = true
    · rw [if_pos dropped] at h
      obtain ⟨keys, found⟩ := ih h
      refine ⟨keys.cons name, fun s r kept hit => ?_⟩
      have other : ¬ name.scalarEq (.str s) = true := by
        intro same
        rw [scalarEq_str_right same, kept] at dropped
        cases dropped
      rw [find, if_neg other]
      exact found s r kept hit
    · rw [if_neg dropped] at h
      obtain ⟨result, first, h⟩ := bind_ok.mp h
      obtain ⟨later, rest, h⟩ := bind_ok.mp h
      obtain rfl := Except.ok.inj h
      obtain ⟨keys, found⟩ := ih rest
      refine ⟨keys.cons_cons name, fun s r kept hit => ?_⟩
      rw [find] at hit ⊢
      by_cases same : name.scalarEq (.str s) = true
      · rw [if_pos same] at hit ⊢
        obtain rfl := Option.some.inj hit
        exact ⟨e, rfl, first⟩
      · rw [if_neg same] at hit ⊢
        exact found s r kept hit

theorem resultTexts_mem {ignore : List EqId} {eqs : Results} {ks : List EqId} {k r : Value}
    (found : find (resultTexts ignore eqs ks) k = some r) :
    ∃ j ∈ ks, ignore.contains j = false ∧ k = .str j.name ∧ r = .str (eqs j).result.text := by
  induction ks with
  | nil => cases found
  | cons j ks ih =>
    by_cases dropped : ignore.contains j = true
    · rw [resultTexts_dropped dropped] at found
      obtain ⟨i, member, facts⟩ := ih found
      exact ⟨i, List.mem_cons_of_mem _ member, facts⟩
    · have kept : ignore.contains j = false := by simpa using dropped
      rw [resultTexts_kept kept, find] at found
      split at found
      next same =>
        obtain rfl := Option.some.inj found
        exact ⟨j, List.mem_cons_self, kept, scalarEq_str_left same, rfl⟩
      next =>
        obtain ⟨i, member, facts⟩ := ih found
        exact ⟨i, List.mem_cons_of_mem _ member, facts⟩

theorem find_of_mem {A : Type} {d : List (Value × A)} (distinct : (d.map Prod.fst).Nodup)
    (texts : ∀ k ∈ d.map Prod.fst, ∃ s, k = .str s) {s : String} {a : A}
    (member : (.str s, a) ∈ d) : find d (.str s) = some a := by
  induction d with
  | nil => cases member
  | cons x d ih =>
    obtain ⟨k, b⟩ := x
    rw [List.map_cons, List.nodup_cons] at distinct
    obtain ⟨t, rfl⟩ := texts k List.mem_cons_self
    rw [find]
    rcases List.mem_cons.mp member with same | later
    · obtain ⟨key, rfl⟩ := Prod.mk.inj same
      rw [key, scalarEq_str, beq_self_eq_true, if_pos rfl]
    · have other : (t == s) = false := by
        rw [beq_eq_false_iff_ne]
        rintro rfl
        exact distinct.1 (List.mem_map.mpr ⟨_, later, rfl⟩)
      rw [scalarEq_str, other, if_neg Bool.false_ne_true]
      exact ih distinct.2 (fun k inside => texts k (List.mem_cons_of_mem _ inside)) later

theorem eqDict_mem {xs ys : Dict} (h : Value.eqDict xs ys = true) {x : Value × Value}
    (member : x ∈ xs) : ∃ y, find ys x.1 = some y ∧ x.2.eq y = true := by
  induction xs with
  | nil => cases member
  | cons z xs ih =>
    obtain ⟨k, v⟩ := z
    rw [Value.eqDict, Bool.and_eq_true] at h
    rcases List.mem_cons.mp member with rfl | later
    · have first := h.1
      cases found : find ys k with
      | none => simp [found] at first
      | some y => exact ⟨y, rfl, by simpa [found] using first⟩
    · exact ih h.2 later

def eqNames : List Value := EqId.all.map fun k => .str k.name

/-- The names of the equations that are compared. -/
def comparedNames (ignore : List EqId) : List Value :=
  (EqId.all.filter fun k => !ignore.contains k).map fun k => .str k.name

/-- Results equal to an engine verdict's, under distinct keys, are its results one by one. -/
theorem results_same {ignore : List EqId} {results : Dict} {eqs : Results}
    (distinct : (results.map Prod.fst).Nodup)
    (same : Value.eq (.dict results) (.dict (resultTexts ignore eqs EqId.all)) = true) {k : EqId}
    (kept : ignore.contains k = false) :
    find results (.str k.name) = some (.str (eqs k).result.text) := by
  rw [Value.eq, Bool.and_eq_true, beq_iff_eq] at same
  obtain ⟨size, same⟩ := same
  have each : ∀ x ∈ results, ∃ j : EqId, ignore.contains j = false ∧
      x = (.str j.name, .str (eqs j).result.text) := by
    rintro ⟨name, r⟩ member
    obtain ⟨y, found, equal⟩ := eqDict_mem same member
    obtain ⟨j, -, compared, rfl, rfl⟩ := resultTexts_mem found
    exact ⟨j, compared, Prod.ext rfl ((eq_str_right _ _).mp equal)⟩
  have listed : ∀ {j : EqId}, ignore.contains j = false → .str j.name ∈ comparedNames ignore := by
    intro j compared
    refine List.mem_map.mpr ⟨j, List.mem_filter.mpr ⟨EqId.mem_all j, ?_⟩, rfl⟩
    rw [compared]
    rfl
  -- distinct names, as many as are compared, are all of them
  have named : results.map Prod.fst ⊆ comparedNames ignore := by
    intro name inside
    obtain ⟨x, member, rfl⟩ := List.mem_map.mp inside
    obtain ⟨j, compared, rfl⟩ := each x member
    exact listed compared
  have count : (comparedNames ignore).length ≤ (results.map Prod.fst).length := by
    have length : (resultTexts ignore eqs EqId.all).length = (comparedNames ignore).length := by
      rw [resultTexts, fields, List.length_map, List.length_map, comparedNames, List.length_map]
    rw [← length, ← size, List.length_map]
  have all : (results.map Prod.fst).Perm (comparedNames ignore) :=
    (List.subperm_of_subset distinct named).perm_of_length_le count
  obtain ⟨⟨name, r⟩, member, at_⟩ := List.mem_map.mp (all.mem_iff.mpr (listed kept))
  obtain ⟨j, -, entry⟩ := each _ member
  rw [Prod.mk.injEq] at entry
  obtain ⟨rfl, rfl⟩ := entry
  obtain rfl : j = k := EqId.name_injective _ _ (Value.str.inj at_)
  refine find_of_mem distinct ?_ member
  intro name inside
  obtain ⟨x, member', rfl⟩ := List.mem_map.mp inside
  obtain ⟨i, -, rfl⟩ := each x member'
  exact ⟨_, rfl⟩

/-- The registered verdict says what the engine's verdict says: the same status,
completeness and result of every equation, and the same codes as often. -/
structure Agrees (payload : Dict) (v : Verdict) : Prop where
  status : getItem payload "verification_status" = .ok (.str v.status.text)
  completeness : getItem payload "completeness" = .ok (.str v.completeness.status)
  codes : ∃ ds codes, (getItem payload "discrepancies" >>= Value.iterate) = .ok ds ∧
    ds.mapM (fun d => d.item "code") = .ok codes ∧
    codes.Perm (v.discrepancies.map fun d => .str d.code)
  equations : ∃ eqs, getItem payload "equations" = .ok (.dict eqs) ∧ ∀ k : EqId,
    ∃ e, find eqs (.str k.name) = some e ∧ e.item "result" = .ok (.str (v.equations k).result.text)

/-- The keys of the equations map are distinct, as in any dictionary. -/
def DistinctKeys (payload : Dict) : Prop :=
  ∀ eqs, getItem payload "equations" = .ok (.dict eqs) → (eqs.map Prod.fst).Nodup

theorem eqNames_nodup : eqNames.Nodup :=
  List.Nodup.map (fun j k same => EqId.name_injective _ _ (Value.str.inj same)) (by decide)

theorem distinct_of_names {payload eqs : Dict}
    (found : getItem payload "equations" = .ok (.dict eqs)) (names : eqs.map Prod.fst = eqNames) :
    DistinctKeys payload := by
  intro other same
  obtain rfl := Value.dict.inj (Except.ok.inj (found.symm.trans same))
  rw [names]
  exact eqNames_nodup

theorem items_ok {v : Value} {d : Dict} (h : items v = .ok d) : v = .dict d := by
  cases v with
  | dict kvs => rw [Except.ok.inj h]
  | _ => cases h

theorem codeTexts_all (ds : List Discrepancy) : codeTexts [] ds = ds.map Discrepancy.code := by
  rw [codeTexts, List.filter_eq_self]
  intro code _
  rfl

/-- What equal projections of a payload and an engine verdict share. -/
structure SameProjection (ignore : List EqId) (payload : Dict) (v : Verdict) : Prop where
  status : ∃ status results, getItem payload "verification_status" = .ok status ∧
    (comparedStatus ignore status results).eq (comparedText ignore v) = true
  completeness : getItem payload "completeness" = .ok (.str v.completeness.status)
  codes : ∃ ds kept, (getItem payload "discrepancies" >>= Value.iterate) = .ok ds ∧
    keptCodes ignore ds = .ok kept ∧ kept.Perm ((codeTexts ignore v.discrepancies).map Value.str)
  equations : ∃ eqs, getItem payload "equations" = .ok (.dict eqs) ∧ ∀ k : EqId,
    ignore.contains k = false → ∃ e, find eqs (.str k.name) = some e ∧
      e.item "result" = .ok (.str (v.equations k).result.text)

theorem sameProjection {ignore : List EqId} {payload : Dict} {v : Verdict}
    {a b : VerdictSignature} (distinct : DistinctKeys payload)
    (theirs : verdictSignature payload ignore = .ok a)
    (mine : verdictSignature v.toDict ignore = .ok b) (same : a.same b = true) :
    SameProjection ignore payload v := by
  obtain ⟨codes, evidence, sortedCodes, -, shape⟩ := verdictSignature_toDict v ignore
  obtain rfl := Except.ok.inj (shape.symm.trans mine)
  obtain ⟨eqsValue, getEqs, theirs⟩ := bind_ok.mp theirs
  obtain ⟨eqs, readEqs, theirs⟩ := bind_ok.mp theirs
  obtain ⟨results, kept, theirs⟩ := bind_ok.mp theirs
  obtain ⟨dsValue, getDs, theirs⟩ := bind_ok.mp theirs
  obtain ⟨ds, readDs, theirs⟩ := bind_ok.mp theirs
  obtain ⟨found, codesOf, theirs⟩ := bind_ok.mp theirs
  obtain ⟨sorted, sortedTheirs, theirs⟩ := bind_ok.mp theirs
  obtain ⟨status, getStatus, theirs⟩ := bind_ok.mp theirs
  obtain ⟨completeness, getCompleteness, theirs⟩ := bind_ok.mp theirs
  obtain ⟨refs, -, theirs⟩ := bind_ok.mp theirs
  obtain ⟨hashes, -, theirs⟩ := bind_ok.mp theirs
  obtain ⟨listed, -, theirs⟩ := bind_ok.mp theirs
  obtain rfl := Except.ok.inj theirs
  obtain rfl := items_ok readEqs
  simp only [VerdictSignature.same, Bool.and_eq_true] at same
  obtain ⟨⟨⟨⟨⟨⟨⟨sameStatus, sameCompleteness⟩, sameCodes⟩, sameResults⟩, -⟩, -⟩, -⟩, -⟩ := same
  obtain ⟨keys, results_⟩ := equationResults_kept kept
  refine ⟨⟨status, results, getStatus, sameStatus⟩, ?_, ⟨ds, found, ?_, codesOf, ?_⟩,
    eqs, getEqs, fun k compared => ?_⟩
  · rw [getCompleteness, (eq_str_right _ _).mp sameCompleteness]
  · rw [getDs, ok_bind, readDs]
  · obtain ⟨texts_, sortedTexts⟩ := sortedBy_strings (codeTexts ignore v.discrepancies)
    obtain rfl := Except.ok.inj (sortedTexts.symm.trans sortedCodes)
    rw [Value.eq] at sameCodes
    have mine := sortedBy_perm sortedTexts
    rw [← eqList_strings_ok sameCodes] at mine
    exact (sortedBy_perm sortedTheirs).symm.trans mine
  · have each := results_same ((distinct eqs getEqs).sublist keys) sameResults compared
    exact results_ _ _ (by rw [ignored_name, compared]) each

/-- A payload whose whole projection is that of an engine verdict agrees with it. -/
theorem agrees_of_same {payload : Dict} {v : Verdict} {a b : VerdictSignature}
    (distinct : DistinctKeys payload) (theirs : verdictSignature payload [] = .ok a)
    (mine : verdictSignature v.toDict [] = .ok b) (same : a.same b = true) :
    Agrees payload v := by
  have projected := sameProjection distinct theirs mine same
  obtain ⟨status, results, getStatus, sameStatus⟩ := projected.status
  obtain ⟨ds, codes, found, kept, listed⟩ := projected.codes
  obtain ⟨eqs, getEqs, each⟩ := projected.equations
  have word : status = .str v.status.text := (eq_str_right _ _).mp sameStatus
  rw [codeTexts_all, List.map_map] at listed
  exact ⟨by rw [getStatus, word], projected.completeness, ⟨ds, codes, found, keptCodes_all kept,
    listed⟩, eqs, getEqs, fun k => each k rfl⟩

/-- The version the auditor holds under a name, or else the evidence it was given. -/
def versionNamed (auditor : Auditor) (p named : Value) : Value :=
  (find auditor.privateByHash named).getD p

/-- The evidence that a verdict is compared with: all that was given where it names none, the
version held under the name where that has the named hash, and otherwise none. -/
inductive LeadsTo (K : Primitives) (auditor : Auditor) (p named : Value) : Value → Prop
  | silent (unnamed : named.truthy = false) : LeadsTo K auditor p named p
  | version {h : String} (hashed : contentHash K (versionNamed auditor p named) = .ok h)
      (present : (versionNamed auditor p named).truthy = true) (spoken : named.truthy = true)
      (name : named = .str h) : LeadsTo K auditor p named (versionNamed auditor p named)
  | empty (absent : (versionNamed auditor p named).truthy = false) (spoken : named.truthy = true)
      (hashable : named.hashable = true) : LeadsTo K auditor p named .null
  | other {h : String} (hashed : contentHash K (versionNamed auditor p named) = .ok h)
      (present : (versionNamed auditor p named).truthy = true) (spoken : named.truthy = true)
      (hashable : named.hashable = true) (differs : named ≠ .str h) :
      LeadsTo K auditor p named .null

theorem selectPrivate_iff {auditor : Auditor} {sub : String} {p priv : Value} {payload : Dict}
    (supplied : find auditor.privateBySub (.str sub) = some p) :
    selectPrivate K auditor (.str sub) (some payload) = .ok priv ↔
      LeadsTo K auditor p (getOr payload "private_evidence_hash") priv := by
  rw [selectPrivate, lookup_hashable rfl, supplied, ok_bind, Option.getD_some]
  generalize named_ : getOr payload "private_evidence_hash" = named
  simp only [field, named_]
  constructor
  · intro selected
    by_cases spoken : named.truthy = true
    · simp only [spoken, Bool.not_true, Bool.false_eq_true, if_false] at selected
      obtain ⟨found, looked, selected⟩ := bind_ok.mp selected
      obtain ⟨hashable, rfl⟩ := lookup_find looked
      by_cases present : (versionNamed auditor p named).truthy = true
      · rw [versionNamed] at present
        simp only [present, Bool.not_true, Bool.false_eq_true, if_false] at selected
        obtain ⟨h, hashed, selected⟩ := bind_ok.mp selected
        obtain rfl := Except.ok.inj selected
        split
        next name => exact .version hashed present spoken ((eq_str _ _).mp name)
        next name =>
          exact .other hashed present spoken hashable fun same => name ((eq_str _ _).mpr same)
      · have absent := Bool.eq_false_iff.mpr present
        rw [versionNamed] at absent
        simp only [absent, Bool.not_false, if_true] at selected
        obtain rfl := Except.ok.inj selected
        exact .empty absent spoken hashable
    · have unnamed := Bool.eq_false_iff.mpr spoken
      simp only [unnamed, Bool.not_false, if_true] at selected
      obtain rfl := Except.ok.inj selected
      exact .silent unnamed
  · intro leads
    cases leads with
    | silent unnamed => simp only [unnamed, Bool.not_false, if_true, pure_ok]
    | version hashed present spoken name =>
      have same : Value.eq (.str _) named = true := (eq_str _ _).mpr name
      have hashable : named.hashable = true := by rw [name]; rfl
      rw [versionNamed] at hashed present
      simp only [spoken, Bool.not_true, Bool.false_eq_true, if_false, lookup_hashable hashable,
        ok_bind, present, hashed, same, if_true, pure_ok, versionNamed]
    | empty absent spoken hashable =>
      rw [versionNamed] at absent
      simp only [spoken, Bool.not_true, Bool.false_eq_true, if_false, lookup_hashable hashable,
        ok_bind, absent, Bool.not_false, if_true, pure_ok]
    | other hashed present spoken hashable differs =>
      have name : Value.eq (.str _) named = false :=
        Bool.eq_false_iff.mpr fun same => differs ((eq_str _ _).mp same)
      rw [versionNamed] at hashed present
      simp only [spoken, Bool.not_true, Bool.false_eq_true, if_false, lookup_hashable hashable,
        ok_bind, present, hashed, name, pure_ok]

/-- Two verdicts with the same status, completeness and results, and the same codes as often. -/
structure SameFindings (v v' : Verdict) : Prop where
  status : v.status = v'.status
  completeness : v.completeness.status = v'.completeness.status
  codes : (v.discrepancies.map Discrepancy.code).Perm (v'.discrepancies.map Discrepancy.code)
  equations : ∀ k, (v.equations k).result = (v'.equations k).result

theorem SameFindings.refl (v : Verdict) : SameFindings v v := ⟨rfl, rfl, .refl _, fun _ => rfl⟩

theorem Agrees.trans {payload : Dict} {v v' : Verdict} (agrees : Agrees payload v)
    (same : SameFindings v v') : Agrees payload v' := by
  obtain ⟨ds, codes, found, kept, listed⟩ := agrees.codes
  obtain ⟨eqs, getEqs, each⟩ := agrees.equations
  refine ⟨by rw [agrees.status, same.status], by rw [agrees.completeness, same.completeness],
    ⟨ds, codes, found, kept, ?_⟩, eqs, getEqs, fun k => ?_⟩
  · have texts_ := same.codes.map Value.str
    rw [List.map_map, List.map_map] at texts_
    exact listed.trans texts_
  · rw [← same.equations k]
    exact each k

/-- Which evidence precedes an entry in the export. -/
def evidenceBefore (entries : List LogEntry) (sub : Value) (index : Int) : List LogEntry :=
  (evidenceEntries entries sub).filter fun x => decide (x.index < index)

/-- The engine on what precedes an entry, at the time of its statement. -/
def judgedBefore (K : Primitives) (engine : ReconciliationEngine) (entries : List LogEntry)
    (sub : String) (expected : List String) (e : LogEntry) (q : Option PrivateEvidence) :
    Py Verdict :=
  judge K engine (.str sub) (evidenceBefore entries (.str sub) e.index) q e.statement.issuedAt
    expected

/-- The evidence that a name leads to is not none, and the engine, if it reads and judges it,
finds with it what it finds with the evidence `q` that was given as `p`. -/
def Honoured (K : Primitives) (auditor : Auditor) (p : Value) (q : PrivateEvidence)
    (judged : Option PrivateEvidence → Py Verdict) (named : Value) : Prop :=
  ∀ priv, LeadsTo K auditor p named priv → ∀ q' v', readPrivate priv = .ok q' →
    judged q' = .ok v' → priv.truthy = true ∧ ∃ v, judged (some q) = .ok v ∧ SameFindings v' v

theorem readPrivate_given {p : Value} {q : PrivateEvidence} (given : p.truthy = true)
    (opened : PrivateEvidence.fromDict p = .ok q) : readPrivate p = .ok (some q) := by
  rw [readPrivate, if_pos given, opened]
  rfl

/-- A name that leads to the evidence given, if anywhere, is honoured: no name, or the hash of
the evidence where nothing else is held under it. -/
theorem honoured_given {auditor : Auditor} {p named : Value} {q : PrivateEvidence}
    (given : p.truthy = true) (opened : PrivateEvidence.fromDict p = .ok q)
    (only : ∀ priv, LeadsTo K auditor p named priv → priv = p)
    (judged : Option PrivateEvidence → Py Verdict) : Honoured K auditor p q judged named := by
  intro priv leads q' v' readable made
  obtain rfl := only priv leads
  obtain rfl := Except.ok.inj ((readPrivate_given given opened).symm.trans readable)
  exact ⟨given, v', made, .refl v'⟩

/-- The engine's verdict with its private equations rewritten, naming other evidence. -/
def forgedPayload (w : Verdict) (status : Status) (private_ : EqId → EqResult) (named : Value) :
    Dict :=
  ({ w with
    status
    equations := fun k => if privateOnlyEquations.contains k then private_ k else w.equations k
    : Verdict }).toDict ++ fields [("private_evidence_hash", named)]

/-- Without private evidence the forged verdict is compared as the engine's own. -/
theorem forged_same {w : Verdict} {status : Status} {private_ : EqId → EqResult} {named : Value}
    (word : publicWord status (publicPass w.equations) =
      publicWord w.status (publicPass w.equations)) :
    ∃ a b, verdictSignature (forgedPayload w status private_ named) privateOnlyEquations = .ok a ∧
      verdictSignature w.toDict privateOnlyEquations = .ok b ∧ a.same b = true := by
  let forged : Verdict :=
    { w with
      status
      equations := fun k => if privateOnlyEquations.contains k then private_ k else w.equations k }
  have shared : ∀ k, k ≠ .e1 → k ≠ .e4 → forged.equations k = w.equations k := by
    intro k not1 not4
    have public_ : privateOnlyEquations.contains k = false := by
      cases k with
      | e1 => exact absurd rfl not1
      | e4 => exact absurd rfl not4
      | _ => rfl
    simp only [forged, public_, Bool.false_eq_true, if_false]
  have results := resultTexts_public shared
  have status_ : ∃ a b, verdictSignature forged.toDict privateOnlyEquations = .ok a ∧
      verdictSignature w.toDict privateOnlyEquations = .ok b ∧ a.same b =
        (comparedText privateOnlyEquations forged).eq (comparedText privateOnlyEquations w) :=
    same_iff_status rfl rfl results rfl rfl rfl
  obtain ⟨a, b, ha, hb, same⟩ := status_
  have pass : publicPass forged.equations = publicPass w.equations := by
    rw [publicPass_results, publicPass_results, results]
  refine ⟨a, b, (verdictSignature_append forged _ _).trans ha, hb, ?_⟩
  rw [same, comparedText_public, comparedText_public, pass, eq_str_str, beq_iff_eq]
  exact word

/-- A verdict whose private equations are left as they are is only given a name. -/
theorem forgedPayload_own (v : Verdict) (named : Value) :
    forgedPayload v v.status v.equations named =
      v.toDict ++ fields [("private_evidence_hash", named)] := by
  simp only [forgedPayload, ite_self]

theorem codes_written (ds : List Discrepancy) :
    (ds.map Discrepancy.toDict).mapM (fun d => d.item "code") =
      .ok (ds.map fun d => .str d.code) := by
  induction ds with
  | nil => rfl
  | cons d ds ih =>
    rw [List.map_cons, List.mapM_cons, ih]
    rfl

/-- What a verdict written by the engine agrees with has the same findings. -/
theorem agrees_own {v v' : Verdict} {extra : Dict} (agrees : Agrees (v.toDict ++ extra) v') :
    SameFindings v v' := by
  obtain ⟨ds, codes, found, kept, listed⟩ := agrees.codes
  obtain ⟨eqs, getEqs, each⟩ := agrees.equations
  refine ⟨?_, ?_, ?_, fun k => ?_⟩
  · exact Status.text_injective _ _ (Value.str.inj (Except.ok.inj agrees.status))
  · exact Value.str.inj (Except.ok.inj agrees.completeness)
  · obtain rfl := Except.ok.inj found
    have own : (v.discrepancies.map Discrepancy.toDict).mapM (fun d => d.item "code") =
        .ok (v.discrepancies.map fun d => .str d.code) :=
      codes_written v.discrepancies
    obtain rfl := Except.ok.inj (own.symm.trans kept)
    have texts_ : ∀ ds : List Discrepancy,
        (ds.map fun d => Value.str d.code) = (ds.map Discrepancy.code).map Value.str :=
      fun ds => (List.map_map ..).symm
    rw [texts_, texts_] at listed
    exact (List.map_perm_map_iff fun s t same => Value.str.inj same).mp listed
  · obtain ⟨x, hit, result⟩ := each k
    obtain rfl := Value.dict.inj (Except.ok.inj getEqs)
    have own : find (fields (EqId.all.map fun k => (k.name, (v.equations k).toDict)))
      (.str k.name) =
        some (v.equations k).toDict := by
      cases k <;> rfl
    obtain rfl := Option.some.inj (own.symm.trans hit)
    exact Res.text_injective _ _ (Value.str.inj (Except.ok.inj result))

theorem forged_distinct (w : Verdict) (status : Status) (private_ : EqId → EqResult)
    (named : Value) : DistinctKeys (forgedPayload w status private_ named) :=
  distinct_of_names rfl rfl

/-- A matched comparison under a name that is honoured means agreement. -/
theorem agrees_of_matched {auditor : Auditor} {engine : ReconciliationEngine}
    {entries : List LogEntry} {headTime : Py Int} {sub : String} {expected : List String}
    {e : LogEntry} {c : Comparison} {p : Value} {q : PrivateEvidence}
    (supplied : find auditor.privateBySub (.str sub) = some p)
    (distinct : DistinctKeys e.statement.payload)
    (honoured : Honoured K auditor p q (judgedBefore K engine entries sub expected e)
      (getOr e.statement.payload "private_evidence_hash"))
    (h : compareVerdict K auditor engine entries headTime (.str sub) expected (some e) = .ok c)
    (matched : c.matched = true) :
    ∃ v, judgedBefore K engine entries sub expected e (some q) = .ok v ∧
      Agrees e.statement.payload v := by
  obtain ⟨priv, v', compared⟩ := compareVerdict_matched h matched
  obtain ⟨q', readable, judged⟩ := compared.replayed
  obtain ⟨present, v, found, same⟩ :=
    honoured priv ((selectPrivate_iff supplied).mp compared.selected) q' v' readable judged
  obtain ⟨a, b, theirs, mine, equal⟩ := compared.same
  rw [if_pos present] at theirs mine
  exact ⟨v, found, (agrees_of_same distinct theirs mine equal).trans same⟩

/-- The result of E1 that is not the one given. -/
def otherResult (e : EqResult) : EqResult :=
  if e.result = .pass then { e with result := .fail } else { e with result := .pass }

theorem otherResult_ne (e : EqResult) : (otherResult e).result ≠ e.result := by
  rw [otherResult]
  split
  next pass =>
    rw [pass]
    rintro ⟨⟩
  next other =>
    intro same
    exact other same.symm

/-- A forged verdict matches where it says what the engine finds with the evidence that its name
leads to. -/
theorem led_matched {auditor : Auditor} {engine : ReconciliationEngine}
    {entries : List LogEntry} {headTime : Py Int} {sub : String} {expected : List String}
    {e : LogEntry} {p named priv : Value} {q : Option PrivateEvidence} {w v : Verdict}
    {status : Status} {private_ : EqId → EqResult}
    (supplied : find auditor.privateBySub (.str sub) = some p)
    (leads : LeadsTo K auditor p named priv) (readable : readPrivate priv = .ok q)
    (payload : e.statement.payload = forgedPayload w status private_ named)
    (judged : judgedBefore K engine entries sub expected e q = .ok v)
    (same : ∃ a b,
      verdictSignature (forgedPayload w status private_ named)
        (if priv.truthy then [] else privateOnlyEquations) = .ok a ∧
      verdictSignature v.toDict (if priv.truthy then [] else privateOnlyEquations) = .ok b ∧
      a.same b = true) :
    ∃ c, compareVerdict K auditor engine entries headTime (.str sub) expected (some e) = .ok c ∧
      c.matched = true := by
  have named_ : getOr e.statement.payload "private_evidence_hash" = named := by
    rw [payload]
    rfl
  have selected : selectPrivate K auditor (.str sub) (some e.statement.payload) = .ok priv :=
    (selectPrivate_iff supplied).mpr (by rw [named_]; exact leads)
  have nonempty : e.statement.payload ≠ [] := by
    rw [payload]
    rintro ⟨⟩
  rw [← payload] at same
  exact compareVerdict_of ⟨selected, ⟨q, readable, judged⟩, same⟩ nonempty

/-- Against dropped evidence, a verdict that contradicts the engine on E1 matches. -/
theorem forged_matched {auditor : Auditor} {engine : ReconciliationEngine}
    {entries : List LogEntry} {headTime : Py Int} {sub : String} {expected : List String}
    {e : LogEntry} {p named : Value} {w : Verdict} {status : Status} {private_ : EqId → EqResult}
    (supplied : find auditor.privateBySub (.str sub) = some p)
    (dropped : LeadsTo K auditor p named .null)
    (payload : e.statement.payload = forgedPayload w status private_ named)
    (without : judgedBefore K engine entries sub expected e none = .ok w)
    (word : publicWord status (publicPass w.equations) =
      publicWord w.status (publicPass w.equations)) :
    ∃ c, compareVerdict K auditor engine entries headTime (.str sub) expected (some e) = .ok c ∧
      c.matched = true :=
  led_matched supplied dropped rfl payload without (forged_same word)

/-- The engine's verdict with a version of the evidence matches under the name of the version. -/
theorem version_matched {auditor : Auditor} {engine : ReconciliationEngine}
    {entries : List LogEntry} {headTime : Py Int} {sub : String} {expected : List String}
    {e : LogEntry} {p named priv : Value} {q : Option PrivateEvidence} {v : Verdict}
    (supplied : find auditor.privateBySub (.str sub) = some p)
    (leads : LeadsTo K auditor p named priv) (present : priv.truthy = true)
    (readable : readPrivate priv = .ok q)
    (payload : e.statement.payload = forgedPayload v v.status v.equations named)
    (judged : judgedBefore K engine entries sub expected e q = .ok v) :
    ∃ c, compareVerdict K auditor engine entries headTime (.str sub) expected (some e) = .ok c ∧
      c.matched = true := by
  have own : verdictSignature (forgedPayload v v.status v.equations named) [] =
      verdictSignature v.toDict [] := by
    rw [forgedPayload_own]
    exact verdictSignature_append v _ _
  obtain ⟨a, mine, same⟩ := same_self v []
  refine led_matched supplied leads readable payload judged ⟨a, a, ?_, ?_, same⟩
  · rw [if_pos present, own, mine]
  · rw [if_pos present, mine]

/-- In a fine report the comparison of an authenticated verdict is a match. -/
theorem comparison_matched {auditor : Auditor} {ex : Export} {report : AuditReport}
    (audited : replayAudit K auditor ex = .ok report) (fine : report.ok = true)
    {entries : List LogEntry} (read : ex.entries.mapM readEntry = .ok entries) {tsPub : Bytes}
    (key : fromHexValue (.str ex.tsPublicKey) = .ok tsPub) {policy : AuditPolicy}
    (readable : readPolicy K ex tsPub entries = .ok policy) {sub : String}
    (replayed : Replayed entries sub) {e : LogEntry} (member : e ∈ entries)
    (verdict : isVerdict e = true) (ofSub : e.statement.sub = .str sub)
    (authentic : Authenticated K ex tsPub e) :
    ∃ c, compareVerdict K auditor (auditEngine policy auditor) entries (headTimeOf ex.head)
      (.str sub) (expectedOf auditor sub) (some e) = .ok c ∧ c.matched = true := by
  obtain ⟨entries', tsPub', policy', readable', reported⟩ := replayAudit_ok audited
  obtain rfl := Except.ok.inj (read.symm.trans reported.read)
  obtain rfl := Except.ok.inj (key.symm.trans reported.key)
  obtain rfl := Except.ok.inj (readable.symm.trans readable')
  obtain ⟨record, listed, others, part, aside⟩ := reported.records sub replayed
  obtain ⟨verdicts, split, -, compared⟩ := part.split
  have kept : e ∈ verdicts := by
    refine ((splitVerdicts_ok split).1 e).mpr ⟨member, ?_, verdict, authentic⟩
    exact (eq_str_right _ _).mpr ofSub
  obtain ⟨c, inside, made⟩ := mapM_ok_mem compared (mem_orMissing.mpr (.inr ⟨e, kept, rfl⟩))
  have every := (reported.ok fine).2.1 record listed
  rw [part.matched] at every
  exact ⟨c, made, List.all_eq_true.mp every c inside⟩

theorem forged_disagrees (v w : Verdict) (status : Status) (named : Value) :
    ¬ Agrees (forgedPayload w status (fun _ => otherResult (v.equations .e1)) named) v := by
  intro agrees
  obtain ⟨eqs, found, each⟩ := agrees.equations
  obtain ⟨x, hit, result⟩ := each .e1
  obtain rfl := Value.dict.inj (Except.ok.inj found)
  obtain rfl := Option.some.inj hit
  have text := Value.str.inj (Except.ok.inj result)
  exact otherResult_ne (v.equations .e1) (Res.text_injective _ _ text)

/-- Evidence that is not there was dropped, since what the auditor was given is something. -/
theorem leads_dropped {auditor : Auditor} {p named priv : Value} (given : p.truthy = true)
    (leads : LeadsTo K auditor p named priv) (absent : ¬ priv.truthy = true) :
    LeadsTo K auditor p named .null := by
  cases leads with
  | silent => exact absurd given absent
  | version _ present => exact absurd present absent
  | empty nothing spoken hashable => exact .empty nothing spoken hashable
  | other hashed present spoken hashable differs =>
    exact .other hashed present spoken hashable differs

/-- Matching means agreement, for all verdicts with a name, exactly when it is honoured. -/
theorem matched_agrees_iff {auditor : Auditor} {engine : ReconciliationEngine}
    {entries : List LogEntry} {headTime : Py Int} {sub : String} {expected : List String}
    {p : Value} {q : PrivateEvidence} (supplied : find auditor.privateBySub (.str sub) = some p)
    (given : p.truthy = true) (e : LogEntry) (named : Value) :
    (∀ payload, DistinctKeys payload → getOr payload "private_evidence_hash" = named →
      ∀ c, compareVerdict K auditor engine entries headTime (.str sub) expected
          (some { e with statement := { e.statement with payload } }) = .ok c →
        c.matched = true → ∃ v, judgedBefore K engine entries sub expected e (some q) = .ok v ∧
          Agrees payload v) ↔
      Honoured K auditor p q (judgedBefore K engine entries sub expected e) named := by
  constructor
  · intro sound priv leads q' v' readable judged
    by_cases present : priv.truthy = true
    · -- the engine's own words on the evidence it was led to
      let payload := forgedPayload v' v'.status v'.equations named
      obtain ⟨c, made, matched⟩ : ∃ c, compareVerdict K auditor engine entries headTime (.str sub)
          expected (some { e with statement := { e.statement with payload } }) = .ok c ∧
          c.matched = true :=
        version_matched supplied leads present readable rfl judged
      obtain ⟨v, found, agrees⟩ := sound payload (forged_distinct _ _ _ _) rfl c made matched
      rw [show payload = _ from forgedPayload_own v' named] at agrees
      exact ⟨present, v, found, agrees_own agrees⟩
    · -- without evidence anything is accepted for E1, also what the engine does not find
      rw [readPrivate, if_neg present] at readable
      obtain rfl := Except.ok.inj readable
      have accepted : ∀ private_, ∃ v,
          judgedBefore K engine entries sub expected e (some q) = .ok v ∧
          Agrees (forgedPayload v' v'.status private_ named) v := by
        intro private_
        let payload := forgedPayload v' v'.status private_ named
        obtain ⟨c, made, matched⟩ : ∃ c, compareVerdict K auditor engine entries headTime (.str sub)
            expected (some { e with statement := { e.statement with payload } }) = .ok c ∧
            c.matched = true :=
          forged_matched supplied (leads_dropped given leads present) rfl judged rfl
        exact sound payload (forged_distinct _ _ _ _) rfl c made matched
      obtain ⟨v, found, -⟩ := accepted v'.equations
      obtain ⟨v₂, again, agrees⟩ := accepted fun _ => otherResult (v.equations .e1)
      obtain rfl := Except.ok.inj (found.symm.trans again)
      exact absurd agrees (forged_disagrees _ _ _ _)
  · intro honoured payload distinct name c made matched
    obtain ⟨v, judged, agrees⟩ := agrees_of_matched (q := q)
      (e := { e with statement := { e.statement with payload } }) supplied distinct
      (by rw [name]; exact honoured) made matched
    exact ⟨v, judged, agrees⟩

/-- In a fine report on a request whose private evidence the auditor was given, every
authenticated verdict whose name for the evidence is honoured agrees with the engine. Whatever
name a verdict gives, matching means agreement for all verdicts with that name exactly when the
name is honoured, and a name that leads nowhere but to the evidence given is honoured. -/
theorem audit_sound_iff {auditor : Auditor} {ex : Export} {report : AuditReport}
    (audited : replayAudit K auditor ex = .ok report) {entries : List LogEntry}
    (read : ex.entries.mapM readEntry = .ok entries) {tsPub : Bytes}
    (key : fromHexValue (.str ex.tsPublicKey) = .ok tsPub) {policy : AuditPolicy}
    (readable : readPolicy K ex tsPub entries = .ok policy) {sub : String} {p : Value}
    (supplied : find auditor.privateBySub (.str sub) = some p) (given : p.truthy = true)
    {q : PrivateEvidence} (opened : PrivateEvidence.fromDict p = .ok q) :
    (report.ok = true → Replayed entries sub → ∀ e ∈ entries, isVerdict e = true →
      e.statement.sub = .str sub → Authenticated K ex tsPub e →
      DistinctKeys e.statement.payload →
      Honoured K auditor p q
        (judgedBefore K (auditEngine policy auditor) entries sub (expectedOf auditor sub) e)
        (getOr e.statement.payload "private_evidence_hash") →
      ∃ v, judge K (auditEngine policy auditor) (.str sub)
        (evidenceBefore entries (.str sub) e.index) (some q) e.statement.issuedAt
        (expectedOf auditor sub) = .ok v ∧ Agrees e.statement.payload v) ∧
    (∀ (e : LogEntry) (named : Value),
      (∀ payload, DistinctKeys payload → getOr payload "private_evidence_hash" = named →
        ∀ c, compareVerdict K auditor (auditEngine policy auditor) entries (headTimeOf ex.head)
            (.str sub) (expectedOf auditor sub)
            (some { e with statement := { e.statement with payload } }) = .ok c →
          c.matched = true → ∃ v, judge K (auditEngine policy auditor) (.str sub)
            (evidenceBefore entries (.str sub) e.index) (some q) e.statement.issuedAt
            (expectedOf auditor sub) = .ok v ∧ Agrees payload v) ↔
        Honoured K auditor p q
          (judgedBefore K (auditEngine policy auditor) entries sub (expectedOf auditor sub) e)
          named) ∧
    (∀ (e : LogEntry) (named : Value), (∀ priv, LeadsTo K auditor p named priv → priv = p) →
      Honoured K auditor p q
        (judgedBefore K (auditEngine policy auditor) entries sub (expectedOf auditor sub) e)
        named) := by
  refine ⟨?_, matched_agrees_iff supplied given,
    fun e named only => honoured_given given opened only _⟩
  · intro fine replayed e member verdict ofSub authentic distinct honoured
    obtain ⟨c, made, matched⟩ :=
      comparison_matched audited fine read key readable replayed member verdict ofSub authentic
    exact agrees_of_matched supplied distinct honoured made matched

def formatterContract : SignedStatement :=
  signedWith userKey "u" "urn:itx:req:1" ctContract
    (contractPayload { plainTerms with
      allowedRequestTransforms := [identity, publicFormatterV1] }) 0

def changedReceipt : SignedStatement :=
  signedWith modelKey "m" "urn:itx:req:1" ctReceipt
    (receiptPayload { silentReceipt with requestCommit := some (ones 64) }) 0

def plainReceived : SignedStatement :=
  signedWith userKey "u" "urn:itx:req:1" ctObservation (observationPayload plainObservation) 0

def zeroReference : Dict := fields [("model-A", .str (zeros 64))]

def changedLog : Py Log := do
  registerAll (← plainLog) [(formatterContract, 10), (changedReceipt, 20), (plainReceived, 30)]

def judgeOn (log : Log) (p : Option PrivateEvidence) : Py Verdict :=
  judge toy (engineOf log zeroReference) (.str "urn:itx:req:1")
    (evidenceEntries log.entries (.str "urn:itx:req:1")) p 40 allParties

/-- The operator found the request changed, and signs that it passed. -/
def forgedVerdict (w : Verdict) : SignedStatement :=
  signedWith logKey "t" "urn:itx:req:1" ctVerdict
    (forgedPayload w .passed (fun k => { w.equations k with result := .pass }) (.str "00")) 40

def givenAuditor : Auditor :=
  { plainAuditor with
    privateBySub := [(.str "urn:itx:req:1", changedPrivate.toDict)]
    referenceModelHashes := zeroReference }

structure ForgedFacts where
  truly : Status
  publicly : Status
  pass : Bool
  subs : List String
  verdicts : List Bool
  split : Nat × Nat
  signed : Bool
  deriving DecidableEq

def forgedFacts (base : Log) (v w : Verdict) (log : Log) (ex : Export) : Py ForgedFacts := do
  let subs ← subsOf log.entries
  let signed ← log.policy.policyStatement.verifyWith toy (log.policy.key.publicKey toy)
  let (good, others) ← splitVerdicts toy ex (log.policy.key.publicKey toy) (.str "urn:itx:req:1")
    log.entries
  pure { truly := v.status, publicly := w.status, pass := publicPass w.equations, subs, signed,
         verdicts := base.entries.map isVerdict, split := (good.length, others.length) }

def forgedRun : Py ForgedFacts := do
  let base ← changedLog
  let v ← judgeOn base (some changedPrivate)
  let w ← judgeOn base none
  let log ← registerAll base [(forgedVerdict w, 40)]
  let ex ← log.exportLog toy 50
  forgedFacts base v w log ex

/-- The operator registers a payload of its choice, knowing both of the engine's verdicts. -/
def operatorRun (payload : Verdict → Verdict → Dict) : Py ForgedFacts := do
  let base ← changedLog
  let v ← judgeOn base (some changedPrivate)
  let w ← judgeOn base none
  let log ← registerAll base
    [(signedWith logKey "t" "urn:itx:req:1" ctVerdict (payload v w) 40, 40)]
  let ex ← log.exportLog toy 50
  forgedFacts base v w log ex

theorem forgedRun_facts : forgedRun = .ok
    { truly := .failed, publicly := .insufficientEvidence, pass := true,
      subs := ["urn:itx:req:1"], verdicts := [false, false, false, false], split := (1, 0),
      signed := true } := by
  decide +kernel

/-- Two digits are no hash. -/
theorem misnamed : LeadsTo toy givenAuditor changedPrivate.toDict (.str "00") .null := by
  have hashed : Returns (contentHash toy changedPrivate.toDict) := by decide +kernel
  obtain ⟨h, hashed⟩ := hashed
  refine .other hashed rfl rfl rfl ?_
  rintro ⟨⟩
  obtain ⟨bytes, -, written⟩ := bind_ok.mp hashed
  have length := hex_length (toy.sha256 bytes)
  rw [show hex (toy.sha256 bytes) = "00" from Except.ok.inj written, toy.sha256_length] at length
  cases length

/-- What a report on such a run contains. -/
structure OperatorReport (payload : Verdict → Verdict → Dict) (facts : ForgedFacts) (base : Log)
    (ex : Export) (report : AuditReport) (entries : List LogEntry) (tsPub : Bytes)
    (policy : AuditPolicy) (e : LogEntry) (v w : Verdict) : Prop where
  built : changedLog = .ok base
  judgedV : judgeOn base (some changedPrivate) = .ok v
  audited : replayAudit toy givenAuditor ex = .ok report
  fine : report.ok = true
  read : ex.entries.mapM readEntry = .ok entries
  key : fromHexValue (.str ex.tsPublicKey) = .ok tsPub
  readable : readPolicy toy ex tsPub entries = .ok policy
  replayed : Replayed entries "urn:itx:req:1"
  member : e ∈ entries
  verdict : isVerdict e = true
  ofSub : e.statement.sub = .str "urn:itx:req:1"
  authentic : Authenticated toy ex tsPub e
  registered : e.statement.payload = payload v w
  withEvidence : judge toy (auditEngine policy givenAuditor) (.str "urn:itx:req:1")
    (evidenceBefore entries (.str "urn:itx:req:1") e.index) (some changedPrivate)
    e.statement.issuedAt (expectedOf givenAuditor "urn:itx:req:1") = .ok v
  truly : v.status = facts.truly

/-- A payload that matches the engine's verdicts is found in a fine report. -/
theorem operator_report {payload : Verdict → Verdict → Dict} {facts : ForgedFacts}
    (ran : operatorRun payload = .ok facts) (subs : facts.subs = ["urn:itx:req:1"])
    (flags : facts.verdicts = [false, false, false, false]) (split : facts.split = (1, 0))
    (signed : facts.signed = true)
    (matches_ : ∀ engine entries headTime (e : LogEntry) v w, e.statement.payload = payload v w →
      judge toy engine (.str "urn:itx:req:1")
      (evidenceBefore entries (.str "urn:itx:req:1") e.index)
        (some changedPrivate) e.statement.issuedAt allParties = .ok v →
      judge toy engine (.str "urn:itx:req:1")
      (evidenceBefore entries (.str "urn:itx:req:1") e.index)
        none e.statement.issuedAt allParties = .ok w →
      w.status = facts.publicly → publicPass w.equations = facts.pass →
      ∃ c, compareVerdict toy givenAuditor engine entries headTime (.str "urn:itx:req:1") allParties
        (some e) = .ok c ∧ c.matched = true) :
    ∃ base ex report entries tsPub policy e v w,
      OperatorReport payload facts base ex report entries tsPub policy e v w := by
  obtain ⟨base, built, ran⟩ := bind_ok.mp ran
  obtain ⟨v, judgedV, ran⟩ := bind_ok.mp ran
  obtain ⟨w, judgedW, ran⟩ := bind_ok.mp ran
  obtain ⟨log, forged, ran⟩ := bind_ok.mp ran
  obtain ⟨ex, exported, ran⟩ := bind_ok.mp ran
  obtain ⟨listedSubs, listed, ran⟩ := bind_ok.mp ran
  obtain ⟨valid_, verified, ran⟩ := bind_ok.mp ran
  obtain ⟨⟨good, others⟩, parted, ran⟩ := bind_ok.mp ran
  obtain rfl := Except.ok.inj ran
  obtain rfl : listedSubs = ["urn:itx:req:1"] := subs
  obtain rfl : valid_ = true := signed
  obtain ⟨one, none_⟩ := Prod.mk.inj split
  obtain ⟨first, opened, registered⟩ := bind_ok.mp built
  have reached := registerAll_reachable (.opened opened) registered
  have formed := (reachable_kept (registerAll_reachable reached forged)).toFormed
  have faithful := faithful_export formed exported
  obtain ⟨⟨next, receipt⟩, accepted, last⟩ := bind_ok.mp forged
  obtain rfl := Except.ok.inj last
  obtain ⟨samePolicy, grown, -⟩ := append_ok (register_ok accepted).2
  have policies : engineOf next zeroReference = engineOf base zeroReference := by
    rw [engineOf, engineOf, samePolicy]
  obtain ⟨payloadIs, typeIs, -⟩ := signedWith_parts logKey "t" "urn:itx:req:1" ctVerdict
    (payload v w) 40
  have honest : ∀ x ∈ base.entries, isVerdict x = false := by
    have plain : ∀ flag ∈ base.entries.map isVerdict, flag = false := by
      have flags : base.entries.map isVerdict = _ := flags
      rw [flags]
      decide
    exact List.forall_mem_map.mp plain
  let e : LogEntry := {
    index := base.tree.size
    registeredAt := 40
    statement := signedWith logKey "t" "urn:itx:req:1" ctVerdict (payload v w) 40 }
  have verdict : isVerdict e = true := (eq_str_right _ _).mpr typeIs
  have ordered : inOrder 0 (base.entries ++ e :: []) = true := by
    rw [← grown]
    exact formed.numbered
  have before : ∀ sub, evidenceBefore next.entries sub e.index =
      evidenceEntries base.entries sub := by
    intro sub
    rw [evidenceBefore, grown]
    exact snapshot_before ordered verdict
  have judged : ∀ {p : Option PrivateEvidence} {x : Verdict}, judgeOn base p = .ok x →
      judge toy (engineOf next zeroReference) (.str "urn:itx:req:1")
        (evidenceBefore next.entries (.str "urn:itx:req:1") e.index) p e.statement.issuedAt
        allParties = .ok x := by
    intro p x onBase
    rw [before, policies, judge_time _ _ _ _ _ 40]
    exact onBase
  have nonempty : good ≠ [] := by
    rintro rfl
    cases one
  obtain ⟨only, there⟩ := splitVerdicts_last (by rw [← grown]; exact parted) honest nonempty
  obtain rfl := List.length_eq_zero_iff.mp none_
  have each : ∀ x ∈ good, ∃ c, compareVerdict toy givenAuditor (engineOf next zeroReference)
      next.entries (headTimeOf ex.head) (.str "urn:itx:req:1") allParties (some x) = .ok c ∧
      c.matched = true := by
    intro x kept
    rw [only x kept]
    exact matches_ _ _ _ e v w payloadIs (judged judgedV) (judged judgedW) rfl rfl
  obtain ⟨record, made, -, matched, -⟩ := auditSub_matched parted nonempty each
  have audited : ["urn:itx:req:1"].mapM (auditSub toy givenAuditor (engineOf next zeroReference) ex
      (next.policy.key.publicKey toy) next.entries (headTimeOf ex.head)) =
        .ok [(record, [])] := by
    rw [List.mapM_cons, made]
    rfl
  obtain ⟨valid, policySigned, readable⟩ := faithful.policy
  obtain rfl := Except.ok.inj (verified.symm.trans policySigned)
  obtain ⟨report, reported, checked, aside, fine⟩ :=
    (replayAudit_export faithful formed rfl rfl verified listed).2 _ audited
  have replayed : Replayed next.entries "urn:itx:req:1" :=
    (mem_subsOf listed _).mp List.mem_cons_self
  obtain ⟨member, ofSub, -, authentic⟩ := ((splitVerdicts_ok parted).1 e).mp there
  refine ⟨base, ex, report, next.entries, _, _, e, v, w, built, judgedV, reported, ?_,
    faithful.entries, faithful.key, readable, replayed, member, verdict,
      (eq_str_right _ _).mp ofSub,
    authentic, payloadIs, judged judgedV, rfl⟩
  simp [fine, checked, aside, matched]

/-- The forged verdict is found in a fine report. -/
theorem forged_report : ∃ (ex : Export) (report : AuditReport) (entries : List LogEntry)
    (tsPub : Bytes) (policy : AuditPolicy),
    replayAudit toy givenAuditor ex = .ok report ∧ report.ok = true ∧
    ex.entries.mapM readEntry = .ok entries ∧ fromHexValue (.str ex.tsPublicKey) = .ok tsPub ∧
    readPolicy toy ex tsPub entries = .ok policy ∧ Replayed entries "urn:itx:req:1" ∧
    ∃ e ∈ entries, isVerdict e = true ∧ e.statement.sub = .str "urn:itx:req:1" ∧
      Authenticated toy ex tsPub e ∧ DistinctKeys e.statement.payload ∧
      getItem e.statement.payload "verification_status" = .ok (.str "passed") ∧
      ∃ v, judge toy (auditEngine policy givenAuditor) (.str "urn:itx:req:1")
        (evidenceBefore entries (.str "urn:itx:req:1") e.index) (some changedPrivate)
        e.statement.issuedAt (expectedOf givenAuditor "urn:itx:req:1") = .ok v ∧
        v.status = .failed := by
  have ran : operatorRun (fun _ w =>
      forgedPayload w .passed (fun k => { w.equations k with result := .pass }) (.str "00")) = _ :=
    forgedRun_facts
  obtain ⟨base, ex, report, entries, tsPub, policy, e, v, w, found⟩ :=
    operator_report ran rfl rfl rfl rfl (by
      intro engine entries headTime e v w payload _ without publicly pass
      refine forged_matched rfl misnamed payload without ?_
      rw [pass, publicly]
      rfl)
  refine ⟨ex, report, entries, tsPub, policy, found.audited, found.fine, found.read, found.key,
    found.readable, found.replayed, e, found.member, found.verdict, found.ofSub, found.authentic,
    ?_, ?_, v, found.withEvidence, found.truly⟩
  · rw [found.registered]
    exact forged_distinct _ _ _ _
  · rw [found.registered]
    rfl

theorem given_opened : PrivateEvidence.fromDict changedPrivate.toDict = .ok changedPrivate :=
  PrivateEvidence.fromDict_toDict _

/-- A report is fine although an authenticated verdict contradicts the engine's finding with
the private evidence that the auditor supplied. -/
theorem forged_verdict_survives : ∃ (auditor : Auditor) (ex : Export) (report : AuditReport)
    (entries : List LogEntry) (tsPub : Bytes) (policy : AuditPolicy) (p : Value)
    (q : PrivateEvidence), replayAudit toy auditor ex = .ok report ∧ report.ok = true ∧
    ex.entries.mapM readEntry = .ok entries ∧ fromHexValue (.str ex.tsPublicKey) = .ok tsPub ∧
    readPolicy toy ex tsPub entries = .ok policy ∧
    find auditor.privateBySub (.str "urn:itx:req:1") = some p ∧ p.truthy = true ∧
    PrivateEvidence.fromDict p = .ok q ∧
    ∃ e ∈ entries, isVerdict e = true ∧ e.statement.sub = .str "urn:itx:req:1" ∧
      Authenticated toy ex tsPub e ∧ DistinctKeys e.statement.payload ∧
      ∃ v, judge toy (auditEngine policy auditor) (.str "urn:itx:req:1")
        (evidenceBefore entries (.str "urn:itx:req:1") e.index) (some q) e.statement.issuedAt
        (expectedOf auditor "urn:itx:req:1") = .ok v ∧ ¬ Agrees e.statement.payload v := by
  obtain ⟨ex, report, entries, tsPub, policy, audited, fine, read, key, readable, -, e, member,
    verdict, ofSub, authentic, distinct, passed, v, judged, failed⟩ := forged_report
  refine ⟨givenAuditor, ex, report, entries, tsPub, policy, _, changedPrivate, audited, fine, read,
    key, readable, rfl, rfl, given_opened, e, member, verdict, ofSub, authentic, distinct, v,
      judged,
    ?_⟩
  intro agrees
  have status := agrees.status
  rw [passed, failed] at status
  have text := Value.str.inj (Except.ok.inj status)
  revert text
  decide

theorem audit_sound_iff_forged : ∃ (ex : Export) (report : AuditReport) (entries : List LogEntry)
    (policy : AuditPolicy), replayAudit toy givenAuditor ex = .ok report ∧ report.ok = true ∧
    ∀ (e : LogEntry) (named : Value),
      (∀ payload, DistinctKeys payload → getOr payload "private_evidence_hash" = named →
        ∀ c, compareVerdict toy givenAuditor (auditEngine policy givenAuditor) entries
            (headTimeOf ex.head) (.str "urn:itx:req:1") (expectedOf givenAuditor "urn:itx:req:1")
            (some { e with statement := { e.statement with payload } }) = .ok c →
          c.matched = true → ∃ v, judge toy (auditEngine policy givenAuditor)
            (.str "urn:itx:req:1") (evidenceBefore entries (.str "urn:itx:req:1") e.index)
            (some changedPrivate) e.statement.issuedAt (expectedOf givenAuditor "urn:itx:req:1") =
              .ok v ∧ Agrees payload v) ↔
        Honoured toy givenAuditor changedPrivate.toDict changedPrivate
          (judgedBefore toy (auditEngine policy givenAuditor) entries "urn:itx:req:1"
            (expectedOf givenAuditor "urn:itx:req:1") e) named := by
  obtain ⟨ex, report, entries, tsPub, policy, audited, fine, read, key, readable, -⟩ :=
    forged_report
  exact ⟨ex, report, entries, policy, audited, fine,
    (audit_sound_iff audited read key readable rfl rfl given_opened).2.1⟩

end AuditSoundness
