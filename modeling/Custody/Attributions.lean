import Custody.AuditSoundness

/-!
# Blame beyond the comparison

The comparison keeps the codes of a verdict's records and not whom they blame.
A matching verdict blames as the replay does exactly when its records follow, by
the engine's table, from its own results and from the evidence before it.
-/

namespace Attributions

open PyValue Equality HexBytes Commitments Statements Schemas Evidence Equations Discrepancies
  Engine EquationMeaning EngineMeaning TransparencyLog RegisteredEvidence ReplayAudit
  VerdictComparison LogInvariant ReplayMeaning LogExport PassedVerdict WithoutEvidence
  BlockedJudgment AuditCoverage HonestReplay AuditSoundness

variable {K : Primitives}

/-- The code, severity and attribution of a record. -/
abbrev Blame := Value × Value × Value

def blame (d : Discrepancy) : Blame := (.str d.code, .str d.severity.text, d.attribution)

def readBlame (d : Value) : Py Blame := do
  pure (← d.item "code", ← d.item "severity", ← d.item "attribution")

/-- Whom the records of a payload blame. -/
def blames (payload : Dict) : Py (List Blame) := do
  let ds ← (← getItem payload "discrepancies").iterate
  ds.mapM readBlame

/-- The payload blames whom the engine's verdict blames, and claims as much for it. -/
structure BlameAgrees (payload : Dict) (v : Verdict) : Prop where
  records : ∃ bs, blames payload = .ok bs ∧ bs.Perm (v.discrepancies.map blame)
  assurance : getItem payload "established_assurance" = .ok (.str v.establishedAssurance)
  cooperation : getItem payload "cooperation_set" = .ok (.str v.cooperationSet)
  attempt : getItem payload "attempt_id" = .ok v.attemptId

/-- The result that a payload gives an equation. -/
def claimedResult (payload : Dict) (k : EqId) : Value :=
  match getOr payload "equations" with
  | .dict eqs => match find eqs (.str k.name) with
    | some (.dict e) => getOr e "result"
    | _ => .null
  | _ => .null

variable (K) in
/-- The result of an equation on the evidence. -/
def Found (k : EqId) (ev : EvidenceSet) : Res → Prop
  | .pass => Decided k ev ∧ Holds K k ev
  | .fail => Decided k ev ∧ ¬ Holds K k ev
  | .na => ¬ Decided k ev

variable (K) in
/-- The payload's own word on an equation, or the evidence where that word is not compared. -/
def Taken (ignore : List EqId) (payload : Dict) (ev : EvidenceSet) (k : EqId) (r : Res) : Prop :=
  if ignore.contains k then Found K k ev r else claimedResult payload k = .str r.text

/-- What the relay itself reported is the only word on the request the model saw. -/
def relayWord (ev : EvidenceSet) : Bool := (field ev.m "request_commit").isNone

/-- Failed results that carry what the table reads of them. -/
def failing (self undeclared : Bool) : Results := fun k =>
  { id := k, result := .fail, reason := "", trustGrade := if self then .self else .ext,
    detail := if undeclared then routeKind "undeclared_fallback" else [] }

/-- The records of the failed equations, by the engine's table. -/
def tabled (ev : EvidenceSet) (undeclared : Bool) (failed : EqId → Bool) : List Blame :=
  (classifyOrder.filter failed).map fun k =>
    blame (ofFailed (failing (relayWord ev) undeclared) (ev.presentParties.contains "M") k)

/-- Records whose severity and attribution are always the same. -/
def fixedBlames : List Blame :=
  [(.str "D-RECEIPT-PRESENTED-DIFFERS", .str Severity.contradiction.text, .str "R"),
   (.str "D-GAP", .str Severity.observation.text, .str "관측 상태 (귀속 없음)"),
   (.str "D-LATE", .str Severity.observation.text, .str "관측 상태 (귀속 없음)")]

def unauthorizedBlame (ref : StatementRef) : Blame :=
  (.str "D-ISSUER-UNAUTHORIZED", .str Severity.violation.text, ref.iss)

variable (K) in
/-- The records entailed by failed equations, by the evidence and by the codes themselves. -/
def entailed (ev : EvidenceSet) (failed : EqId → Bool) (codes : List Value) : List Blame :=
  tabled ev (memberOf (.str "D-ROUTE-UNDECLARED") codes) failed ++
  ev.invalidSignatures.map (fun ref => blame (invalidSignature K ref)) ++
  ev.unauthorizedIssuers.map unauthorizedBlame ++
  fixedBlames.filter fun b => memberOf b.1 codes

variable (K) in
/-- The engine's rule for `air-local`, read off entailed records. -/
def Earned (ignore : List EqId) (payload : Dict) (ev : EvidenceSet) (records : List Blame) : Prop :=
  ev.receipt.isSome = true ∧ (∀ b ∈ records, b.2.1 = .str Severity.observation.text) ∧
    ∀ k ∈ requiredForPass, Taken K ignore payload ev k .pass

variable (K) in
/-- The payload blames as its own results and codes and the evidence entail. -/
structure Entails (ignore : List EqId) (payload : Dict) (ev : EvidenceSet) (bs : List Blame)
    (failed : EqId → Bool) : Prop where
  read : blames payload = .ok bs
  marks : ∀ k, failed k = true ↔ Taken K ignore payload ev k .fail
  records : bs.Perm (entailed K ev failed (bs.map Prod.fst))
  assurance : ∃ s, getItem payload "established_assurance" = .ok (.str s) ∧
    (Earned K ignore payload ev (entailed K ev failed (bs.map Prod.fst)) ∧ s = "air-local" ∨
      ¬ Earned K ignore payload ev (entailed K ev failed (bs.map Prod.fst)) ∧ s = "none")
  cooperation : getItem payload "cooperation_set" = .ok (.str ev.cooperationSet)
  attempt : getItem payload "attempt_id" = .ok (attemptIdOf ev)

variable (K) in
def SelfConsistent (ignore : List EqId) (payload : Dict) (ev : EvidenceSet) : Prop :=
  ∃ bs failed, Entails K ignore payload ev bs failed

/-- What was seen of a request has the lower grade where it is the relay's own word. -/
theorem requestSeen_grade {ev : EvidenceSet} {actual : Value} {source : String} {grade : Grade}
    (h : requestSeen ev = .ok (some (actual, source, grade))) :
    grade = if relayWord ev then .self else .ext := by
  unfold requestSeen at h
  cases hm : ev.m with
  | none =>
    have alone : relayWord ev = true := by
      rw [relayWord, hm]
      rfl
    cases hr : ev.r with
    | none => simp [hm, hr] at h
    | some r =>
      simp only [hm, hr, bind_ok, pure_ok, Except.ok.injEq, Option.some.injEq, Prod.mk.injEq] at h
      obtain ⟨-, -, -, -, rfl⟩ := h
      rw [alone, if_pos rfl]
  | some m =>
    have word : relayWord ev = (getOr m "request_commit").isNone := by
      rw [relayWord, hm]
      rfl
    simp only [hm] at h
    split at h
    next silent =>
      cases hr : ev.r with
      | none => simp [hr] at h
      | some r =>
        simp only [hr, bind_ok, pure_ok, Except.ok.injEq, Option.some.injEq, Prod.mk.injEq] at h
        obtain ⟨-, -, -, -, rfl⟩ := h
        rw [word, silent, if_pos rfl]
    next stated =>
      simp only [bind_ok, pure_ok, Except.ok.injEq, Option.some.injEq, Prod.mk.injEq] at h
      obtain ⟨-, -, -, -, rfl⟩ := h
      rw [word, if_neg stated]

theorem unmatchedTransform_grade {allowed : List Value} {withPrivate : Bool} {source : String}
    {grade : Grade} {detail : Dict} {e : EqResult}
    (h : unmatchedTransform K allowed withPrivate source grade detail = .ok e)
    (failed : e.result = .fail) : e.trustGrade = grade := by
  obtain ⟨unknown, -, h⟩ := bind_ok.mp h
  split at h
  · obtain rfl := Except.ok.inj h
    cases failed
  · split at h
    · obtain rfl := Except.ok.inj h
      cases failed
    · obtain rfl := Except.ok.inj h
      rfl

/-- A transform that is found wrong keeps the grade of the evidence it was judged by. -/
theorem judgeTransform_grade {c : Dict} {allowed : List Value} {p : Option PrivateEvidence}
    {declared actual : Value} {source : String} {grade : Grade} {e : EqResult}
    (h : judgeTransform K c allowed p declared actual source grade = .ok e)
    (failed : e.result = .fail) : e.trustGrade = grade := by
  obtain ⟨approved, -, h⟩ := bind_ok.mp h
  split at h
  · obtain rfl := Except.ok.inj h
    rfl
  · split at h
    · obtain rfl := Except.ok.inj h
      cases failed
    · exact unmatchedTransform_grade h failed

/-- A failed transform is the relay's own admission when nobody else reported the request. -/
theorem evalE4_grade {ev : EvidenceSet} {e : EqResult} (h : evalE4 K ev = .ok e)
    (failed : e.result = .fail) : e.trustGrade = if relayWord ev then .self else .ext := by
  unfold evalE4 at h
  cases hc : ev.c with
  | none =>
    simp only [hc, Except.ok.injEq] at h
    subst h
    cases failed
  | some c =>
    simp only [hc] at h
    obtain ⟨seen, hs, h⟩ := bind_ok.mp h
    rcases seen with _ | ⟨actual, source, grade⟩
    · obtain rfl := Except.ok.inj h
      cases failed
    · obtain ⟨raw, -, h⟩ := bind_ok.mp h
      obtain ⟨allowed, -, h⟩ := bind_ok.mp h
      obtain ⟨declared, -, h⟩ := bind_ok.mp h
      rw [judgeTransform_grade h failed]
      exact requestSeen_grade hs

/-- Of a failed equation's record, the grade of E4 and the kind of route decide whom it blames. -/
theorem blame_ofFailed {eqs : Results} {self undeclared hasM : Bool} {k : EqId}
    (grade : k = .e4 → (eqs .e4).trustGrade = if self then .self else .ext)
    (kind : k = .e8 → (getOr (eqs .e8).detail "route_kind").eq (.str "undeclared_fallback") =
      undeclared) :
    blame (ofFailed eqs hasM k) = blame (ofFailed (failing self undeclared) hasM k) := by
  cases k with
  | e4 =>
    rw [ofFailed, ofFailed, grade rfl]
    cases self <;> rfl
  | e8 =>
    rw [ofFailed, ofFailed, kind rfl]
    cases undeclared <;> rfl
  | _ => rfl

/-- Each statement that nobody authorized is blamed by its own reference. -/
theorem unauthorized_blame {engine : ReconciliationEngine} {refs : List StatementRef}
    {claimed : List Discrepancy} (h : refs.mapM (issuerUnauthorized engine) = .ok claimed) :
    claimed.map blame = refs.map unauthorizedBlame := by
  induction refs generalizing claimed with
  | nil =>
    obtain rfl := Except.ok.inj h
    rfl
  | cons ref refs ih =>
    rw [List.mapM_cons] at h
    obtain ⟨d, first, h⟩ := bind_ok.mp h
    obtain ⟨later, rest, h⟩ := bind_ok.mp h
    obtain rfl := Except.ok.inj h
    obtain ⟨allowed, -, shape⟩ := bind_ok.mp first
    obtain rfl := Except.ok.inj shape
    rw [List.map_cons, List.map_cons, ih rest]
    rfl

/-- A list that holds one given record or nothing. -/
def AtMost (ds : List Discrepancy) (code severity attribution : String) : Prop :=
  ds = [] ∨ ∃ d, ds = [d] ∧ blame d = (.str code, .str severity, .str attribution)

theorem presentedDiffers_atMost {ev : EvidenceSet} {copies : List Discrepancy}
    (h : presentedDiffers K ev = .ok copies) :
    AtMost copies "D-RECEIPT-PRESENTED-DIFFERS" Severity.contradiction.text "R" := by
  unfold presentedDiffers at h
  cases hr : ev.receipt with
  | none =>
    simp only [hr, Except.ok.injEq] at h
    exact .inl h.symm
  | some receipt =>
    simp only [hr] at h
    split at h
    · exact .inl (Except.ok.inj h).symm
    · obtain ⟨read, -, h⟩ := bind_ok.mp h
      cases read with
      | none => exact .inl (Except.ok.inj h).symm
      | some shown =>
        obtain ⟨registered, -, h⟩ := bind_ok.mp h
        split at h
        · exact .inl (Except.ok.inj h).symm
        · exact .inr ⟨_, (Except.ok.inj h).symm, rfl⟩

theorem gap_atMost (completeness : Completeness) :
    AtMost (gap completeness) "D-GAP" Severity.observation.text "관측 상태 (귀속 없음)" := by
  rw [gap]
  split
  · exact .inr ⟨_, rfl, rfl⟩
  · exact .inl rfl

theorem late_atMost (engine : ReconciliationEngine) (delays : List Value) :
    AtMost (late engine delays) "D-LATE" Severity.observation.text "관측 상태 (귀속 없음)" := by
  rw [late]
  split
  · exact .inl rfl
  · exact .inr ⟨_, rfl, rfl⟩

/-- A record that is there at most once is there exactly when its code is. -/
theorem AtMost.blames {ds : List Discrepancy} {code severity attribution : String}
    (once : AtMost ds code severity attribution) {present : Bool}
    (named : present = true ↔ ∃ d ∈ ds, d.code = code) :
    ds.map blame = [(Value.str code, Value.str severity, Value.str attribution)].filter
      fun _ => present := by
  rcases once with rfl | ⟨d, rfl, same⟩
  · have absent : present = false := by
      rw [← Bool.not_eq_true, named]
      rintro ⟨d, inside, -⟩
      cases inside
    rw [absent]
    rfl
  · have code_ : d.code = code := Value.str.inj (Prod.mk.inj same).1
    have there : present = true := named.mpr ⟨d, List.mem_singleton_self d, code_⟩
    rw [there, List.map_singleton, same]
    rfl

/-- A kind of finding made at most once carries its own code. -/
theorem AtMost.codes {ds : List Discrepancy} {code severity attribution : String}
    (once : AtMost ds code severity attribution) {d : Discrepancy} (inside : d ∈ ds) :
    d.code = code := by
  rcases once with rfl | ⟨d', rfl, same⟩
  · cases inside
  · obtain rfl := List.mem_singleton.mp inside
    exact Value.str.inj (Prod.mk.inj same).1

/-- The codes that failed equations have. -/
def tableCodes : List String :=
  ["D-USER-SELF", "D-REQ-CONTRADICT", "D-REQ-UNAPPROVED", "D-NONCE", "D-RESP-CONTRADICT",
   "D-RESP-UNAPPROVED", "D-ROUTE-UNAPPROVED", "D-ROUTE-UNDECLARED", "D-MODEL-ART",
   "D-ATTEMPT-MISMATCH", "D-EXPIRED"]

theorem ofFailed_code (eqs : Results) (hasM : Bool) (k : EqId) :
    (ofFailed eqs hasM k).code ∈ tableCodes := by
  cases k with
  | e4 =>
    rw [ofFailed]
    split
    · exact List.mem_of_elem_eq_true rfl
    · exact List.mem_of_elem_eq_true rfl
  | e8 =>
    rw [ofFailed, violation]
    split
    · exact List.mem_of_elem_eq_true rfl
    · exact List.mem_of_elem_eq_true rfl
  | _ => exact List.mem_of_elem_eq_true rfl

/-- The code of an undeclared fallback is only given by E8. -/
theorem ofFailed_undeclared {eqs : Results} {hasM : Bool} {k : EqId} :
    (ofFailed eqs hasM k).code = "D-ROUTE-UNDECLARED" ↔ k = .e8 ∧
      (getOr (eqs .e8).detail "route_kind").eq (.str "undeclared_fallback") = true := by
  cases k with
  | e4 =>
    rw [ofFailed]
    split
    · simp [violation]
    · simp [violation]
  | e8 =>
    rw [ofFailed, violation]
    split
    next kind => simp [kind]
    next kind => simp [kind]
  | _ => simp [ofFailed, violation, contradiction]

section

variable {engine : ReconciliationEngine} {ev : EvidenceSet} {parties : List String} {v : Verdict}
  {claimed copies : List Discrepancy} {delays : List Value}

/-- Where a code comes from. -/
theorem code_from (judged : Judged K engine ev parties v claimed copies delays) (c : String) :
    (∃ d ∈ v.discrepancies, d.code = c) ↔
      (∃ d ∈ classify v.equations ev.presentParties, d.code = c) ∨
      (∃ d ∈ ev.invalidSignatures.map (invalidSignature K), d.code = c) ∨
      (∃ d ∈ claimed, d.code = c) ∨ (∃ d ∈ copies, d.code = c) ∨
      (∃ d ∈ gap v.completeness, d.code = c) ∨ (∃ d ∈ late engine delays, d.code = c) := by
  rw [judged.discrepancies]
  simp only [List.mem_append, or_and_right, exists_or, or_assoc]

theorem signature_code {d : Discrepancy}
    (inside : d ∈ ev.invalidSignatures.map (invalidSignature K)) : d.code = "D-SIG-INVALID" := by
  obtain ⟨ref, -, rfl⟩ := List.mem_map.mp inside
  rfl

/-- Claims of authority have one code of their own. -/
theorem claimed_code (judged : Judged K engine ev parties v claimed copies delays)
    {d : Discrepancy} (inside : d ∈ claimed) : d.code = "D-ISSUER-UNAUTHORIZED" := by
  have listed := List.mem_map_of_mem (f := blame) inside
  rw [unauthorized_blame judged.unauthorized] at listed
  obtain ⟨ref, -, same⟩ := List.mem_map.mp listed
  exact (Value.str.inj (Prod.mk.inj same).1).symm

/-- Classification gives codes of the table and no others. -/
theorem classify_code {eqs : Results} {parties : List String} {d : Discrepancy}
    (inside : d ∈ classify eqs parties) : d.code ∈ tableCodes := by
  obtain ⟨k, -, rfl⟩ := List.mem_map.mp inside
  exact ofFailed_code _ _ _

/-- Codes outside the table that no signature or issuer accounts for. -/
theorem code_elsewhere (judged : Judged K engine ev parties v claimed copies delays) {c : String}
    (untabled : c ∉ tableCodes) (unsigned : c ≠ "D-SIG-INVALID")
    (entitled : c ≠ "D-ISSUER-UNAUTHORIZED") :
    (∃ d ∈ v.discrepancies, d.code = c) ↔ (∃ d ∈ copies, d.code = c) ∨
      (∃ d ∈ gap v.completeness, d.code = c) ∨ (∃ d ∈ late engine delays, d.code = c) := by
  rw [code_from judged]
  constructor
  · rintro (⟨d, inside, rfl⟩ | ⟨d, inside, rfl⟩ | ⟨d, inside, rfl⟩ | rest)
    · exact absurd (classify_code inside) untabled
    · exact absurd (signature_code inside) unsigned
    · exact absurd (claimed_code judged inside) entitled
    · exact rest
  · intro rest
    exact .inr (.inr (.inr rest))

/-- Whether a presented copy differs can be read off the codes of the verdict. -/
theorem copies_named (judged : Judged K engine ev parties v claimed copies delays) :
    (∃ d ∈ v.discrepancies, d.code = "D-RECEIPT-PRESENTED-DIFFERS") ↔
      ∃ d ∈ copies, d.code = "D-RECEIPT-PRESENTED-DIFFERS" := by
  rw [code_elsewhere judged (by decide) (by decide) (by decide)]
  constructor
  · rintro (there | ⟨d, inside, same⟩ | ⟨d, inside, same⟩)
    · exact there
    · exact absurd (((gap_atMost _).codes inside).symm.trans same) (by decide)
    · exact absurd (((late_atMost _ _).codes inside).symm.trans same) (by decide)
  · exact .inl

/-- Whether evidence is missing can be read off the codes of the verdict. -/
theorem gap_named (judged : Judged K engine ev parties v claimed copies delays) :
    (∃ d ∈ v.discrepancies, d.code = "D-GAP") ↔
      ∃ d ∈ gap v.completeness, d.code = "D-GAP" := by
  rw [code_elsewhere judged (by decide) (by decide) (by decide)]
  constructor
  · rintro (⟨d, inside, same⟩ | there | ⟨d, inside, same⟩)
    · exact absurd (((presentedDiffers_atMost judged.differs).codes inside).symm.trans same)
        (by decide)
    · exact there
    · exact absurd (((late_atMost _ _).codes inside).symm.trans same) (by decide)
  · intro there
    exact .inr (.inl there)

/-- Whether a registration was late can be read off the codes of the verdict. -/
theorem late_named (judged : Judged K engine ev parties v claimed copies delays) :
    (∃ d ∈ v.discrepancies, d.code = "D-LATE") ↔ ∃ d ∈ late engine delays, d.code = "D-LATE" := by
  rw [code_elsewhere judged (by decide) (by decide) (by decide)]
  constructor
  · rintro (⟨d, inside, same⟩ | ⟨d, inside, same⟩ | there)
    · exact absurd (((presentedDiffers_atMost judged.differs).codes inside).symm.trans same)
        (by decide)
    · exact absurd (((gap_atMost _).codes inside).symm.trans same) (by decide)
    · exact there
  · intro there
    exact .inr (.inr there)

/-- A failed route was undeclared when some record's code is that of an undeclared route. -/
theorem undeclared_named (judged : Judged K engine ev parties v claimed copies delays)
    (failed : (v.equations .e8).result = .fail) :
    (∃ d ∈ v.discrepancies, d.code = "D-ROUTE-UNDECLARED") ↔
      (getOr (v.equations .e8).detail "route_kind").eq (.str "undeclared_fallback") = true := by
  rw [code_from judged]
  constructor
  · rintro (⟨d, inside, same⟩ | ⟨d, inside, same⟩ | ⟨d, inside, same⟩ | ⟨d, inside, same⟩ |
      ⟨d, inside, same⟩ | ⟨d, inside, same⟩)
    · obtain ⟨k, -, rfl⟩ := List.mem_map.mp inside
      exact (ofFailed_undeclared.mp same).2
    · exact absurd ((signature_code inside).symm.trans same) (by decide)
    · exact absurd ((claimed_code judged inside).symm.trans same) (by decide)
    · exact absurd (((presentedDiffers_atMost judged.differs).codes inside).symm.trans same)
        (by decide)
    · exact absurd (((gap_atMost _).codes inside).symm.trans same) (by decide)
    · exact absurd (((late_atMost _ _).codes inside).symm.trans same) (by decide)
  · intro kind
    refine .inl ⟨_, List.mem_map_of_mem (a := .e8) ?_, ofFailed_undeclared.mpr ⟨rfl, kind⟩⟩
    exact List.mem_filter.mpr ⟨mem_classifyOrder _, decide_eq_true failed⟩

/-- The codes that the comparison keeps and that decide a record. -/
def tellingCodes : List String :=
  ["D-ROUTE-UNDECLARED", "D-RECEIPT-PRESENTED-DIFFERS", "D-GAP", "D-LATE"]

def failedOf (eqs : Results) (k : EqId) : Bool := decide ((eqs k).result = .fail)

/-- The failed equations are blamed as the table says, given the evidence. -/
theorem classify_blames_tabled (judged : Judged K engine ev parties v claimed copies delays)
    {undeclared : Bool}
    (named : undeclared = true ↔ ∃ d ∈ v.discrepancies, d.code = "D-ROUTE-UNDECLARED") :
    (classify v.equations ev.presentParties).map blame =
      tabled ev undeclared (failedOf v.equations) := by
  rw [classify, tabled, List.map_map]
  refine List.map_congr_left fun k inside => ?_
  have failed : (v.equations k).result = .fail := of_decide_eq_true (List.mem_filter.mp inside).2
  refine blame_ofFailed ?_ ?_
  · rintro rfl
    exact evalE4_grade (evaluateEquations_ok.mp judged.equations .e4) failed
  · rintro rfl
    rw [Bool.eq_iff_iff, named, undeclared_named judged failed]

/-- An engine verdict's records are entailed by its failed equations, the evidence and its
own codes. -/
theorem records_entailed (judged : Judged K engine ev parties v claimed copies delays)
    {codes : List Value} (shared : ∀ c ∈ tellingCodes,
      (memberOf (.str c) codes = true ↔ ∃ d ∈ v.discrepancies, d.code = c)) :
    v.discrepancies.map blame = entailed K ev (failedOf v.equations) codes := by
  have route := classify_blames_tabled judged (shared _ (List.mem_of_elem_eq_true rfl))
  have shown := (presentedDiffers_atMost judged.differs).blames
    ((shared _ (List.mem_of_elem_eq_true rfl)).trans (copies_named judged))
  have missing := (gap_atMost v.completeness).blames
    ((shared _ (List.mem_of_elem_eq_true rfl)).trans (gap_named judged))
  have delayed := (late_atMost engine delays).blames
    ((shared _ (List.mem_of_elem_eq_true rfl)).trans (late_named judged))
  have fixed : fixedBlames.filter (fun b => memberOf b.1 codes) =
      copies.map blame ++ (gap v.completeness).map blame ++ (late engine delays).map blame := by
    rw [shown, missing, delayed]
    simp only [fixedBlames, List.filter_cons, List.filter_nil]
    split <;> split <;> split <;> rfl
  rw [judged.discrepancies, entailed, fixed, ← unauthorized_blame judged.unauthorized, ← route]
  simp only [List.map_append, List.map_map, List.append_assoc]
  rfl

/-- The result of an equation is what the evidence entails. -/
theorem found_iff (judged : Judged K engine ev parties v claimed copies delays) (k : EqId)
    (r : Res) : Found K k ev r ↔ (v.equations k).result = r := by
  have means := judged.means k
  cases r with
  | pass => exact means.passed.symm
  | fail => exact means.failed.symm
  | na => exact means.undecided.symm

/-- The claimed result of an equation is the field the auditor reads. -/
theorem claimedResult_of {payload eqs : Dict} {k : EqId} {e r : Value}
    (equations : getItem payload "equations" = .ok (.dict eqs))
    (found : find eqs (.str k.name) = some e) (result : e.item "result" = .ok r) :
    claimedResult payload k = r := by
  rw [claimedResult, getItem_getOr equations]
  simp only [found]
  cases e with
  | dict kvs =>
    rw [Value.item] at result
    cases hit : find kvs (.str "result") with
    | none => simp [hit] at result
    | some x =>
      rw [hit] at result
      obtain rfl := Except.ok.inj result
      simp [getOr, hit]
  | _ => cases result

/-- Compared or found on the evidence, the results taken are the engine's. -/
theorem taken_iff {ignore : List EqId} {payload : Dict}
    (judged : Judged K engine ev parties v claimed copies delays)
    (projected : SameProjection ignore payload v) (k : EqId) (r : Res) :
    Taken K ignore payload ev k r ↔ (v.equations k).result = r := by
  rw [Taken]
  cases dropped : ignore.contains k with
  | true =>
    rw [if_pos rfl]
    exact found_iff judged k r
  | false =>
    obtain ⟨eqs, equations, each⟩ := projected.equations
    obtain ⟨e, found, result⟩ := each k dropped
    rw [if_neg Bool.false_ne_true, claimedResult_of equations found result, Value.str.injEq]
    constructor
    · exact Res.text_injective _ _
    · rintro rfl
      rfl

theorem readBlame_code {d : Value} {b : Blame} (h : readBlame d = .ok b) :
    d.item "code" = .ok b.1 := by
  obtain ⟨code, first, h⟩ := bind_ok.mp h
  obtain ⟨severity, -, h⟩ := bind_ok.mp h
  obtain ⟨attribution, -, h⟩ := bind_ok.mp h
  obtain rfl := Except.ok.inj h
  exact first

/-- A code that is not set aside is kept exactly if it was read. -/
theorem kept_mem {ignore : List EqId} {c : String} (public_ : codeDropped ignore c = false)
    {ds kept : List Value} {bs : List Blame} (h : keptCodes ignore ds = .ok kept)
    (read : ds.mapM readBlame = .ok bs) : .str c ∈ kept ↔ .str c ∈ bs.map Prod.fst := by
  induction ds generalizing kept bs with
  | nil =>
    obtain rfl := Except.ok.inj h
    obtain rfl := Except.ok.inj read
    rfl
  | cons d ds ih =>
    rw [List.mapM_cons] at read
    obtain ⟨b, first, read⟩ := bind_ok.mp read
    obtain ⟨rest, laterRead, read⟩ := bind_ok.mp read
    obtain rfl := Except.ok.inj read
    obtain ⟨code, coded, h⟩ := bind_ok.mp h
    obtain ⟨later, laterKept, h⟩ := bind_ok.mp h
    obtain rfl := Except.ok.inj h
    obtain rfl := Except.ok.inj (coded.symm.trans (readBlame_code first))
    have tail := ih laterKept laterRead
    rw [List.map_cons, List.mem_cons]
    split
    next dropped =>
      have other : .str c ≠ b.1 := by
        intro same
        rw [← same] at dropped
        rw [codeDropped, dropped] at public_
        cases public_
      rw [tail, or_iff_right other]
    next => rw [List.mem_cons, tail]

/-- The codes that tell whom to blame are never set aside. -/
theorem codeDropped_telling {c : String} (telling : c ∈ tellingCodes) (ignore : List EqId) :
    codeDropped ignore c = false := by
  have public_ : ∀ c ∈ tellingCodes, memberOf (.str c) privateOnlyCodes = false := by decide
  rw [codeDropped, public_ c telling, Bool.and_false]

/-- The telling codes are in the payload when they are in the engine's verdict. -/
theorem codes_shared {ignore : List EqId} {payload : Dict} {bs : List Blame}
    (projected : SameProjection ignore payload v) (read : blames payload = .ok bs) :
    ∀ c ∈ tellingCodes, (memberOf (.str c) (bs.map Prod.fst) = true ↔
      ∃ d ∈ v.discrepancies, d.code = c) := by
  intro c telling
  have public_ := codeDropped_telling telling ignore
  obtain ⟨ds, kept, found, codes, listed⟩ := projected.codes
  have read : ds.mapM readBlame = .ok bs := by
    obtain ⟨raw, got, read⟩ := bind_ok.mp read
    rw [got, ok_bind] at found
    rw [found, ok_bind] at read
    exact read
  rw [memberOf_str, ← kept_mem public_ codes read, listed.mem_iff, codeTexts]
  simp only [List.mem_map, List.mem_filter]
  constructor
  · rintro ⟨_, ⟨⟨d, inside, rfl⟩, -⟩, same⟩
    exact ⟨d, inside, Value.str.inj same⟩
  · rintro ⟨d, inside, rfl⟩
    exact ⟨_, ⟨⟨d, inside, rfl⟩, by rw [public_]; rfl⟩, rfl⟩

/-- The engine grants `air-local` when its records and results earn it. -/
theorem earned_iff {ignore : List EqId} {payload : Dict}
    (judged : Judged K engine ev parties v claimed copies delays)
    (projected : SameProjection ignore payload v) :
    Earned K ignore payload ev (v.discrepancies.map blame) ↔
      v.status = .passed ∧ ev.receipt.isSome = true := by
  have calm : (∀ b ∈ v.discrepancies.map blame, b.2.1 = .str Severity.observation.text) ↔
      ¬ ∃ d ∈ v.discrepancies, d.severity.blames = true := by
    rw [List.forall_mem_map, not_exists]
    refine forall_congr' fun d => ?_
    rw [not_and]
    refine imp_congr_right fun _ => ?_
    rw [blame]
    cases d.severity with
    | violation => simp [Severity.text, Severity.blames]
    | contradiction => simp [Severity.text, Severity.blames]
    | observation => simp [Severity.text, Severity.blames]
  have required : (∀ k ∈ requiredForPass, Taken K ignore payload ev k .pass) ↔
      ∀ k ∈ requiredForPass, Decided k ev ∧ Holds K k ev := by
    refine forall₂_congr fun k _ => ?_
    rw [taken_iff judged projected, ← found_iff judged]
    rfl
  rw [Earned, calm, required, judged.blames, judged.passed, not_or]
  constructor
  · rintro ⟨receipt, ⟨unbroken, inPlace⟩, all⟩
    exact ⟨⟨inPlace, unbroken, all⟩, receipt⟩
  · rintro ⟨passing, receipt⟩
    exact ⟨receipt, ⟨passing.unbroken, passing.inPlace⟩, passing.required⟩

/-- What a verdict says besides its records. -/
theorem reconcile_claims (h : reconcile K engine ev parties = .ok v) :
    v.attemptId = attemptIdOf ev ∧ v.cooperationSet = ev.cooperationSet ∧
    v.establishedAssurance =
      if v.status = .passed ∧ ev.receipt.isSome then "air-local" else "none" := by
  obtain ⟨eqs, -, h⟩ := bind_ok.mp h
  obtain ⟨completeness, -, h⟩ := bind_ok.mp h
  obtain ⟨unauthorized, -, h⟩ := bind_ok.mp h
  obtain ⟨differs, -, h⟩ := bind_ok.mp h
  obtain ⟨lateItems, -, h⟩ := bind_ok.mp h
  obtain ⟨definitions, -, h⟩ := bind_ok.mp h
  obtain rfl := Except.ok.inj h
  exact ⟨rfl, rfl, rfl⟩

/-- Once the projections are the same, agreement on blame is self-consistency. -/
theorem agrees_iff_consistent {ignore : List EqId} {payload : Dict}
    (made : reconcile K engine ev parties = .ok v)
    (projected : SameProjection ignore payload v) :
    BlameAgrees payload v ↔ SelfConsistent K ignore payload ev := by
  obtain ⟨claimed, copies, delays, judged⟩ := reconcile_ok made
  obtain ⟨attempt, cooperation, assurance⟩ := reconcile_claims made
  have records : ∀ bs, blames payload = .ok bs →
      v.discrepancies.map blame = entailed K ev (failedOf v.equations) (bs.map Prod.fst) :=
    fun bs read => records_entailed judged (codes_shared projected read)
  have earned := earned_iff judged projected
  have marks : ∀ k, failedOf v.equations k = true ↔ Taken K ignore payload ev k .fail := by
    intro k
    rw [taken_iff judged projected, failedOf, decide_eq_true_iff]
  constructor
  · rintro ⟨⟨bs, read, listed⟩, stated, together, named⟩
    rw [records bs read] at earned listed
    refine ⟨bs, _, read, marks, listed, ⟨_, stated, ?_⟩, ?_, ?_⟩
    · rw [assurance, earned]
      split
      next granted => exact .inl ⟨granted, rfl⟩
      next withheld => exact .inr ⟨withheld, rfl⟩
    · rw [together, cooperation]
    · rw [named, attempt]
  · rintro ⟨bs, failed, entails⟩
    obtain rfl : failed = failedOf v.equations := by
      funext k
      rw [Bool.eq_iff_iff, marks, entails.marks]
    obtain ⟨s, stated, granted⟩ := entails.assurance
    rw [← records bs entails.read, earned] at granted
    refine ⟨⟨bs, entails.read, ?_⟩, ?_, ?_, ?_⟩
    · rw [records bs entails.read]
      exact entails.records
    · rw [stated, assurance]
      rcases granted with ⟨earned_, rfl⟩ | ⟨unearned, rfl⟩
      · rw [if_pos earned_]
      · rw [if_neg unearned]
    · rw [entails.cooperation, cooperation]
    · rw [entails.attempt, attempt]

end

/-- What the audit recomputed for a registered verdict, with the private evidence it chose
and the equations it then left out of the comparison. -/
structure Recomputed (K : Primitives) (auditor : Auditor) (engine : ReconciliationEngine)
    (entries : List LogEntry) (sub : String) (e : LogEntry) (ignore : List EqId)
    (ev : EvidenceSet) (v : Verdict) : Prop where
  chosen : ∃ priv p, selectPrivate K auditor (.str sub) (some e.statement.payload) = .ok priv ∧
    readPrivate priv = .ok p ∧ ignore = (if priv.truthy then [] else privateOnlyEquations) ∧
    gather K engine (.str sub) (evidenceBefore entries (.str sub) e.index) p
      e.statement.issuedAt = .ok ev
  judged : reconcile K engine ev (expectedOf auditor sub) = .ok v

/-- In a fine report every authenticated verdict agrees with its recomputation on whom it
blames, on assurance, cooperation and attempt exactly when all of that follows from its own
results and codes and the evidence before it. -/
theorem audit_blame_iff {auditor : Auditor} {ex : Export} {report : AuditReport}
    (audited : replayAudit K auditor ex = .ok report) (fine : report.ok = true)
    {entries : List LogEntry} (read : ex.entries.mapM readEntry = .ok entries) {tsPub : Bytes}
    (key : fromHexValue (.str ex.tsPublicKey) = .ok tsPub) {policy : AuditPolicy}
    (readable : readPolicy K ex tsPub entries = .ok policy) {sub : String}
    (replayed : Replayed entries sub) {e : LogEntry} (member : e ∈ entries)
    (verdict : isVerdict e = true) (ofSub : e.statement.sub = .str sub)
    (authentic : Authenticated K ex tsPub e) (distinct : DistinctKeys e.statement.payload) :
    ∃ ignore ev v, Recomputed K auditor (auditEngine policy auditor) entries sub e ignore ev v ∧
      (BlameAgrees e.statement.payload v ↔ SelfConsistent K ignore e.statement.payload ev) := by
  obtain ⟨c, made, matched⟩ :=
    comparison_matched audited fine read key readable replayed member verdict ofSub authentic
  obtain ⟨priv, v, with_⟩ := compareVerdict_matched made matched
  obtain ⟨p, opened, judged⟩ := with_.replayed
  obtain ⟨ev, gathered, settled⟩ := bind_ok.mp judged
  obtain ⟨a, b, theirs, mine, same⟩ := with_.same
  exact ⟨_, ev, v, ⟨⟨priv, p, with_.selected, opened, rfl, gathered⟩, settled⟩,
    agrees_iff_consistent settled (sameProjection distinct theirs mine same)⟩

/-- The engine's verdict with the user blamed for everything and assurance claimed. -/
def misattributed (v : Verdict) : Verdict :=
  { v with
    establishedAssurance := "air-local"
    discrepancies := v.discrepancies.map fun d => { d with attribution := .str "U" } }

/-- Changing whom each finding blames changes no code. -/
theorem misattributed_codes (ds : List Discrepancy) (ignore : List EqId) :
    codeTexts ignore (ds.map fun d => { d with attribution := .str "U" }) =
    codeTexts ignore ds := by
  rw [codeTexts, codeTexts, List.map_map]
  rfl

/-- Neither the attributions nor the assurance enter the comparison. -/
theorem misattributed_same (v : Verdict) :
    ∃ a b, verdictSignature (misattributed v).toDict [] = .ok a ∧
      verdictSignature v.toDict [] = .ok b ∧ a.same b = true := by
  have statuses : ∃ a b, verdictSignature (misattributed v).toDict [] = .ok a ∧
      verdictSignature v.toDict [] = .ok b ∧
      a.same b = (comparedText [] (misattributed v)).eq (comparedText [] v) :=
    same_iff_status rfl (misattributed_codes _ _) rfl rfl rfl rfl
  obtain ⟨a, b, theirs, mine, same⟩ := statuses
  refine ⟨a, b, theirs, mine, ?_⟩
  rw [same, comparedText_full, comparedText_full]
  exact eq_str_self _

/-- The auditor takes the evidence it was given. -/
theorem misattributed_selected {e : LogEntry} {v : Verdict}
    (payload : e.statement.payload = (misattributed v).toDict) :
    selectPrivate toy givenAuditor (.str "urn:itx:req:1") (some e.statement.payload) =
      .ok changedPrivate.toDict := by
  rw [payload]
  rfl

theorem misattributed_matched {engine : ReconciliationEngine} {entries : List LogEntry}
    {headTime : Py Int} {e : LogEntry} {v : Verdict}
    (payload : e.statement.payload = (misattributed v).toDict)
    (judged : judge toy engine (.str "urn:itx:req:1")
      (evidenceBefore entries (.str "urn:itx:req:1") e.index) (some changedPrivate)
      e.statement.issuedAt allParties = .ok v) :
    ∃ c, compareVerdict toy givenAuditor engine entries headTime (.str "urn:itx:req:1") allParties
      (some e) = .ok c ∧ c.matched = true := by
  have selected := misattributed_selected payload
  have nonempty : e.statement.payload ≠ [] := by
    rw [payload]
    rintro ⟨⟩
  refine compareVerdict_of ⟨selected, ⟨_, readPrivate_given rfl given_opened, judged⟩, ?_⟩ nonempty
  rw [payload]
  exact misattributed_same v

def blamedOn (log : Log) : Py (List (String × String)) := do
  let v ← judgeOn log (some changedPrivate)
  pure (v.discrepancies.map fun d => (d.code, text toy d.attribution))

theorem misattributed_facts : operatorRun (fun v _ => (misattributed v).toDict) = .ok
    { truly := .failed, publicly := .insufficientEvidence, pass := true,
      subs := ["urn:itx:req:1"], verdicts := [false, false, false, false], split := (1, 0),
      signed := true } := by
  decide +kernel

theorem blamed_facts : (do blamedOn (← changedLog)) =
    .ok [("D-REQ-UNAPPROVED", "R"), ("D-GAP", "관측 상태 (귀속 없음)")] := by
  decide +kernel

/-- The altered verdict repeats no key. -/
theorem misattributed_distinct (v : Verdict) : DistinctKeys (misattributed v).toDict :=
  distinct_of_names rfl rfl

theorem misattributed_report : ∃ base ex report entries tsPub policy e v w,
    OperatorReport (fun v _ => (misattributed v).toDict)
      { truly := .failed, publicly := .insufficientEvidence, pass := true,
        subs := ["urn:itx:req:1"], verdicts := [false, false, false, false], split := (1, 0),
        signed := true } base ex report entries tsPub policy e v w := by
  refine operator_report misattributed_facts rfl rfl rfl rfl ?_
  intro engine entries headTime e v w payload judged _ _ _
  exact misattributed_matched payload judged

/-- Its findings all blame the user. -/
theorem misattributed_records (v : Verdict) : blames (misattributed v).toDict =
    .ok (v.discrepancies.map fun d => (.str d.code, .str d.severity.text, .str "U")) := by
  have read : ∀ ds : List Discrepancy, ((ds.map fun d => { d with attribution := .str "U" }).map
      Discrepancy.toDict).mapM readBlame =
        .ok (ds.map fun d => (.str d.code, .str d.severity.text, .str "U")) := by
    intro ds
    induction ds with
    | nil => rfl
    | cons d ds ih =>
      rw [List.map_cons, List.map_cons, List.mapM_cons, ih]
      rfl
  exact read v.discrepancies

/-- A report is fine although an authenticated verdict blames the user where the replay, on
the private evidence supplied, blames the relay, and claims assurance where the replay has none. -/
theorem misattributed_verdict_survives : ∃ (auditor : Auditor) (ex : Export)
    (report : AuditReport) (entries : List LogEntry) (tsPub : Bytes) (policy : AuditPolicy)
    (p : Value), replayAudit toy auditor ex = .ok report ∧ report.ok = true ∧
    ex.entries.mapM readEntry = .ok entries ∧ fromHexValue (.str ex.tsPublicKey) = .ok tsPub ∧
    readPolicy toy ex tsPub entries = .ok policy ∧
    find auditor.privateBySub (.str "urn:itx:req:1") = some p ∧ p.truthy = true ∧
    ∃ e ∈ entries, isVerdict e = true ∧ e.statement.sub = .str "urn:itx:req:1" ∧
      Authenticated toy ex tsPub e ∧ DistinctKeys e.statement.payload ∧
      selectPrivate toy auditor (.str "urn:itx:req:1") (some e.statement.payload) = .ok p ∧
      ∃ ev v, Recomputed toy auditor (auditEngine policy auditor) entries "urn:itx:req:1" e
      [] ev v ∧
        (∀ bs, blames e.statement.payload = .ok bs → ∀ b ∈ bs, b.2.2 = .str "U") ∧
        (∃ d ∈ v.discrepancies, d.code = "D-REQ-UNAPPROVED" ∧ d.attribution ≠ .str "U") ∧
        getItem e.statement.payload "established_assurance" = .ok (.str "air-local") ∧
        v.establishedAssurance = "none" ∧ ¬ BlameAgrees e.statement.payload v := by
  obtain ⟨base, ex, report, entries, tsPub, policy, e, v, w, found⟩ := misattributed_report
  have payload : e.statement.payload = (misattributed v).toDict := found.registered
  obtain ⟨ev, gathered, made⟩ := bind_ok.mp found.withEvidence
  have selected := misattributed_selected payload
  have stated : getItem e.statement.payload "established_assurance" = .ok (.str "air-local") := by
    rw [payload]
    rfl
  have unassured : v.establishedAssurance = "none" := by
    have failed : v.status = .failed := found.truly
    rw [(reconcile_claims made).2.2, failed]
    rfl
  refine ⟨givenAuditor, ex, report, entries, tsPub, policy, _, found.audited, found.fine,
    found.read, found.key, found.readable, rfl, rfl, e, found.member, found.verdict, found.ofSub,
    found.authentic, ?_, selected, ev, v,
    ⟨⟨_, _, selected, readPrivate_given rfl given_opened, rfl, gathered⟩, made⟩, ?_, ?_, stated,
    unassured, ?_⟩
  · rw [payload]
    exact misattributed_distinct v
  · intro bs read b inside
    rw [payload, misattributed_records, Except.ok.injEq] at read
    subst read
    obtain ⟨d, -, rfl⟩ := List.mem_map.mp inside
    rfl
  · have facts := blamed_facts
    rw [found.built, ok_bind, blamedOn, found.judgedV, ok_bind, pure_ok, Except.ok.injEq] at facts
    have first : ("D-REQ-UNAPPROVED", "R") ∈
        v.discrepancies.map fun d => (d.code, text toy d.attribution) := by
      rw [facts]
      exact List.mem_cons_self
    obtain ⟨d, inside, same⟩ := List.mem_map.mp first
    obtain ⟨code, word⟩ := Prod.mk.inj same
    refine ⟨d, inside, code, fun user => ?_⟩
    rw [user] at word
    revert word
    decide
  · intro agrees
    have assurance := agrees.assurance
    rw [stated, unassured] at assurance
    have same := Value.str.inj (Except.ok.inj assurance)
    revert same
    decide

theorem audit_blame_iff_misattributed : ∃ (ex : Export) (report : AuditReport)
    (entries : List LogEntry) (policy : AuditPolicy) (e : LogEntry),
    replayAudit toy givenAuditor ex = .ok report ∧ report.ok = true ∧ e ∈ entries ∧
    isVerdict e = true ∧ ∃ ignore ev v,
      Recomputed toy givenAuditor (auditEngine policy givenAuditor) entries "urn:itx:req:1" e ignore
        ev v ∧
      (BlameAgrees e.statement.payload v ↔
        SelfConsistent toy ignore e.statement.payload ev) := by
  obtain ⟨base, ex, report, entries, tsPub, policy, e, v, w, found⟩ := misattributed_report
  have distinct : DistinctKeys e.statement.payload := by
    rw [found.registered]
    exact misattributed_distinct v
  exact ⟨ex, report, entries, policy, e, found.audited, found.fine, found.member, found.verdict,
    audit_blame_iff found.audited found.fine found.read found.key found.readable found.replayed
      found.member found.verdict found.ofSub found.authentic distinct⟩

end Attributions
