import Custody.PassedVerdict
import Custody.VerdictComparison

/-!
# Judging again without the user's private evidence

The engine gathers the same statements whatever private evidence it is given, so
two verdicts on one log differ only through E1 and E4. Leaving these two out of the
comparison hides the difference unless one of them decides that the verdict failed.
-/

namespace WithoutEvidence

open PyValue HexBytes Commitments Statements Schemas Evidence Equations EquationMeaning
  Discrepancies Engine EngineMeaning ReplayAudit VerdictComparison PassedVerdict

variable {K : Primitives}

def withPrivate (p : Option PrivateEvidence) (ev : EvidenceSet) : EvidenceSet :=
  { ev with privateEvidence := p }

/-- The same statements, gathered with other private evidence and at another time. -/
def framed (p : Option PrivateEvidence) (now : Int) (ev : EvidenceSet) : EvidenceSet :=
  { ev with privateEvidence := p, now }

theorem setField_framed (p : Option PrivateEvidence) (now : Int) (ev : EvidenceSet)
    (s : SignedStatement) (f : Field) :
    setField (framed p now ev) s f = framed p now (setField ev s f) := by
  cases f <;> rfl

theorem gatherEntry_framed (engine : ReconciliationEngine) (p : Option PrivateEvidence)
    (now : Int) (ev : EvidenceSet) (e : LogEntry) :
    gatherEntry K engine (framed p now ev) e = (gatherEntry K engine ev e).map (framed p now) := by
  unfold gatherEntry
  cases verifies K engine e.statement with
  | error _ => rfl
  | ok valid =>
    simp only [ok_bind]
    cases refOf K e.statement (some e.index) (some e.registeredAt) valid with
    | error _ => rfl
    | ok ref =>
      cases valid with
      | false => rfl
      | true =>
        cases authorized engine e.statement.iss e.statement.contentType with
        | error _ => rfl
        | ok permitted =>
          cases permitted with
          | false => rfl
          | true =>
            simp only [Bool.not_true, Bool.false_eq_true, if_false, ok_bind]
            cases lookup ctToField e.statement.contentType with
            | error _ => rfl
            | ok found =>
              cases found with
              | none => rfl
              | some f =>
                exact congrArg Except.ok
                  (setField_framed p now { ev with refs := ev.refs ++ [ref] } e.statement f)

theorem gatherEntries_framed (engine : ReconciliationEngine) (p : Option PrivateEvidence)
    (now : Int) (ev : EvidenceSet) (entries : List LogEntry) :
    entries.foldlM (gatherEntry K engine) (framed p now ev) =
      (entries.foldlM (gatherEntry K engine) ev).map (framed p now) := by
  induction entries generalizing ev with
  | nil => rfl
  | cons e rest ih =>
    rw [List.foldlM_cons, List.foldlM_cons, gatherEntry_framed]
    cases gatherEntry K engine ev e with
    | error _ => rfl
    | ok next => exact ih next

theorem acceptPresented_framed (engine : ReconciliationEngine) (p : Option PrivateEvidence)
    (now : Int) (ev : EvidenceSet) (pr : SignedStatement) :
    acceptPresented K engine (framed p now ev) pr =
      (acceptPresented K engine ev pr).map (framed p now) := by
  unfold acceptPresented
  split
  next => rfl
  next =>
    cases verifies K engine pr with
    | error _ => rfl
    | ok valid =>
      cases valid with
      | false => rfl
      | true =>
        cases authorized engine pr.iss pr.contentType with
        | error _ => rfl
        | ok permitted =>
          cases permitted with
          | false => rfl
          | true => cases refOf K pr none none true <;> rfl

theorem addPresented_framed (engine : ReconciliationEngine) (p : Option PrivateEvidence)
    (now : Int) (ev : EvidenceSet) : addPresented K engine (framed p now ev) =
      (addPresented K engine ev).map (framed p now) := by
  have observed : (framed p now ev).o = ev.o := rfl
  have receipt : (framed p now ev).receipt = ev.receipt := rfl
  simp only [addPresented, observed, receipt]
  split
  next => rfl
  next =>
    cases tryRead (SignedStatement.fromDict (field ev.o "presented_receipt")) with
    | error _ => rfl
    | ok found =>
      cases found with
      | none => rfl
      | some pr => exact acceptPresented_framed engine p now ev pr

theorem settleSource_framed (p : Option PrivateEvidence) (now : Int)
    (ev : EvidenceSet) :
    settleSource (framed p now ev) = framed p now (settleSource ev) := by
  unfold settleSource
  cases hr : ev.receipt <;> simp [framed, hr]

/-- What is gathered depends on neither the private evidence nor the time. -/
theorem gather_framed (engine : ReconciliationEngine) (sub : Value) (entries : List LogEntry)
    (p q : Option PrivateEvidence) (now at_ : Int) :
    gather K engine sub entries p now =
      (gather K engine sub entries q at_).map (framed p now) := by
  have start : startEvidence engine sub p now =
      framed p now (startEvidence engine sub q at_) := rfl
  simp only [gather, start, gatherEntries_framed]
  cases entries.foldlM (gatherEntry K engine) (startEvidence engine sub q at_) with
  | error _ => rfl
  | ok ev =>
    simp only [Except.map, ok_bind, addPresented_framed]
    cases addPresented K engine ev with
    | error _ => rfl
    | ok found => exact congrArg Except.ok (settleSource_framed p now found)

theorem gather_private (engine : ReconciliationEngine) (sub : Value) (entries : List LogEntry)
    (p : Option PrivateEvidence) (now : Int) :
    gather K engine sub entries p now =
      (gather K engine sub entries none now).map (withPrivate p) := by
  have timed := gather_framed (K := K) engine sub entries none none now now
  rw [gather_framed engine sub entries p none now now]
  cases h : gather K engine sub entries none now with
  | error _ => rfl
  | ok ev =>
    rw [h] at timed
    have same : ev = framed none now ev := Except.ok.inj timed
    have now_ : ev.now = now := by
      rw [same]
      rfl
    rw [← now_]
    rfl

theorem ofFailed_local {a b : Results} {k : EqId} (same : a k = b k) (hasM : Bool) :
    ofFailed a hasM k = ofFailed b hasM k := by
  cases k with
  | _ => simp only [ofFailed, violation, contradiction, same]

theorem ofFailed_private (eqs : Results) (hasM : Bool) {k : EqId} (secret : k = .e1 ∨ k = .e4) :
    codeDropped privateOnlyEquations (ofFailed eqs hasM k).code = true := by
  rcases secret with rfl | rfl
  · rfl
  · by_cases self : (eqs .e4).trustGrade = .self
    · simp only [ofFailed, self, if_true]
      rfl
    · simp only [ofFailed, self, if_false]
      rfl

theorem codeTexts_append (ignore : List EqId) (xs ys : List Discrepancy) :
    codeTexts ignore (xs ++ ys) = codeTexts ignore xs ++ codeTexts ignore ys := by
  simp [codeTexts]

/-- Outside E1 and E4 equal results leave equal codes. -/
theorem codeTexts_classify {a b : Results} (parties : List String)
    (shared : ∀ k, k ≠ .e1 → k ≠ .e4 → a k = b k) :
    codeTexts privateOnlyEquations (classify a parties) =
      codeTexts privateOnlyEquations (classify b parties) := by
  have each : ∀ ks : List EqId,
      codeTexts privateOnlyEquations ((ks.filter fun k => decide ((a k).result = .fail)).map
        (ofFailed a (parties.contains "M"))) =
      codeTexts privateOnlyEquations ((ks.filter fun k => decide ((b k).result = .fail)).map
        (ofFailed b (parties.contains "M"))) := by
    intro ks
    induction ks with
    | nil => rfl
    | cons k ks ih =>
      by_cases secret : k = .e1 ∨ k = .e4
      · have droppedA := ofFailed_private a (parties.contains "M") secret
        have droppedB := ofFailed_private b (parties.contains "M") secret
        rw [List.filter_cons, List.filter_cons]
        split <;> split <;> simp only [List.map_cons, codeTexts_cons, droppedA, droppedB, if_true,
          ih]
      · have same : a k = b k := shared k (fun h => secret (Or.inl h)) fun h => secret (Or.inr h)
        rw [List.filter_cons, List.filter_cons, same]
        split
        next => rw [List.map_cons, List.map_cons, codeTexts_cons, codeTexts_cons, ih,
          ofFailed_local same]
        next => exact ih
  exact each classifyOrder

theorem resultTexts_public {a b : Results} (shared : ∀ k, k ≠ .e1 → k ≠ .e4 → a k = b k) :
    resultTexts privateOnlyEquations a EqId.all = resultTexts privateOnlyEquations b EqId.all := by
  simp only [resultTexts]
  congr 1
  apply List.map_congr_left
  intro k kept
  have kept := (List.mem_filter.mp kept).2
  have secret : k ≠ .e1 ∧ k ≠ .e4 := by
    refine ⟨?_, ?_⟩ <;> rintro rfl <;> cases kept
  rw [shared k secret.1 secret.2]

theorem publicWord_unfailed {s : Status} {pass : Bool} (unfailed : s ≠ .failed)
    (whole : s = .passed → pass = true) :
    publicWord s pass = if pass then "passed_excluding_private" else "insufficient_evidence" := by
  cases s with
  | passed => simp [publicWord, whole rfl]
  | failed => exact absurd rfl unfailed
  | insufficientEvidence => cases pass <;> rfl

theorem publicWord_same {s t : Status} {pass : Bool} (whole : s = .passed → pass = true)
    (whole' : t = .passed → pass = true) :
    publicWord s pass = publicWord t pass ↔ (s = .failed ↔ t = .failed) := by
  by_cases hs : s = .failed
  · by_cases ht : t = .failed
    · simp [hs, ht]
    · rw [publicWord_unfailed ht whole', hs]
      cases pass <;> simp [publicWord, ht]
  · by_cases ht : t = .failed
    · rw [publicWord_unfailed hs whole, ht]
      cases pass <;> simp [publicWord, hs]
    · rw [publicWord_unfailed hs whole, publicWord_unfailed ht whole']
      simp [hs, ht]

theorem assessCompleteness_framed (p : Option PrivateEvidence) (now : Int) (ev : EvidenceSet)
    (parties : List String) :
    assessCompleteness (framed p now ev) parties = assessCompleteness ev parties := by
  rw [assessCompleteness, assessCompleteness, @missingOf_congr ev (framed p now ev) rfl rfl rfl rfl]
  rfl

theorem assessCompleteness_private (p : Option PrivateEvidence) (ev : EvidenceSet)
    (parties : List String) :
    assessCompleteness (withPrivate p ev) parties = assessCompleteness ev parties :=
  assessCompleteness_framed p ev.now ev parties

/-- Compared without E1 and E4, two verdicts on one evidence set agree exactly when
both failed or neither did. -/
theorem same_iff_failed {engine : ReconciliationEngine} {ev : EvidenceSet}
    {p q : Option PrivateEvidence} {parties : List String} {v w : Verdict}
    (judged : reconcile K engine (withPrivate p ev) parties = .ok v)
    (judged' : reconcile K engine (withPrivate q ev) parties = .ok w) :
    ∃ a b, verdictSignature v.toDict privateOnlyEquations = .ok a ∧
      verdictSignature w.toDict privateOnlyEquations = .ok b ∧
      (a.same b = true ↔ (v.status = .failed ↔ w.status = .failed)) := by
  obtain ⟨claimed, copies, delays, made⟩ := reconcile_ok judged
  obtain ⟨claimed', copies', delays', made'⟩ := reconcile_ok judged'
  have shared : ∀ k, k ≠ .e1 → k ≠ .e4 → v.equations k = w.equations k := by
    intro k not1 not4
    have hv := evaluateEquations_ok.mp made.equations k
    have hw := evaluateEquations_ok.mp made'.equations k
    have each := evalEq_without_private (K := K) ⟨not1, not4⟩ ev
    rw [withPrivate, each] at hv hw
    rw [hv, Except.ok.injEq] at hw
    exact hw
  have completeness : v.completeness = w.completeness := by
    have hv := made.completeness
    have hw := made'.completeness
    rw [assessCompleteness_private] at hv hw
    exact Except.ok.inj (hv.symm.trans hw)
  obtain rfl : claimed = claimed' :=
    Except.ok.inj (made.unauthorized.symm.trans made'.unauthorized)
  obtain rfl : copies = copies' := Except.ok.inj (made.differs.symm.trans made'.differs)
  obtain rfl : delays = delays' := Except.ok.inj (made.late.symm.trans made'.late)
  have codes : codeTexts privateOnlyEquations v.discrepancies =
      codeTexts privateOnlyEquations w.discrepancies := by
    rw [made.discrepancies, made'.discrepancies, completeness]
    simp only [codeTexts_append]
    rw [codeTexts_classify (withPrivate p ev).presentParties shared]
    rfl
  obtain ⟨a, b, ha, hb, same⟩ := same_iff_status (by rw [completeness]) codes
    (resultTexts_public shared) (made.policyHash.trans made'.policyHash.symm)
    (made.trustKeysVersion.trans made'.trustKeysVersion.symm) (made.refs.trans made'.refs.symm)
  refine ⟨a, b, ha, hb, ?_⟩
  have pass : publicPass v.equations = publicPass w.equations := by
    rw [publicPass_results, publicPass_results, resultTexts_public shared]
  have whole' := publicPass_of_passed judged'
  rw [same, comparedText_public, comparedText_public, eq_str_str, beq_iff_eq, pass]
  exact publicWord_same (fun passed => pass ▸ publicPass_of_passed judged passed) whole'

/-- The engine's verdict on a log for one request. -/
def judge (K : Primitives) (engine : ReconciliationEngine) (sub : Value) (entries : List LogEntry)
    (p : Option PrivateEvidence) (now : Int) (parties : List String) : Py Verdict := do
  let ev ← gather K engine sub entries p now
  reconcile K engine ev parties

theorem reconcile_framed (engine : ReconciliationEngine) (now : Int) (ev : EvidenceSet)
    (parties : List String) :
    reconcile K engine (framed ev.privateEvidence now ev) parties =
      reconcile K engine ev parties := by
  have equations : evaluateEquations K (framed ev.privateEvidence now ev) =
      evaluateEquations K ev := rfl
  rw [reconcile, reconcile, equations, assessCompleteness_framed]
  rfl

/-- The engine judges the same at any time. -/
theorem judge_time (engine : ReconciliationEngine) (sub : Value) (entries : List LogEntry)
    (p : Option PrivateEvidence) (now at_ : Int) (parties : List String) :
    judge K engine sub entries p now parties = judge K engine sub entries p at_ parties := by
  have self := gather_framed (K := K) engine sub entries p p at_ at_
  rw [judge, judge, gather_framed engine sub entries p p now at_]
  cases h : gather K engine sub entries p at_ with
  | error _ => rfl
  | ok ev =>
    rw [h] at self
    have same : ev = framed p at_ ev := Except.ok.inj self
    have given : ev.privateEvidence = p := by
      rw [same]
      rfl
    have reconciled := reconcile_framed (K := K) engine now ev parties
    rw [given] at reconciled
    exact reconciled

def Fails (K : Primitives) (k : EqId) (ev : EvidenceSet) : Prop := Decided k ev ∧ ¬ Holds K k ev

/-- The log alone shows a failure: a statement is out of place, or an equation that
needs no private evidence does not hold. -/
def PublicFailure (K : Primitives) (ev : EvidenceSet) : Prop :=
  OutOfPlace K ev ∨ ∃ k, k ≠ .e1 ∧ k ≠ .e4 ∧ Fails K k ev

theorem failed_iff {engine : ReconciliationEngine} {ev : EvidenceSet} {p : Option PrivateEvidence}
    {parties : List String} {v : Verdict}
    (judged : reconcile K engine (withPrivate p ev) parties = .ok v) :
    v.status = .failed ↔ PublicFailure K ev ∨ Fails K .e1 (withPrivate p ev) ∨
      Fails K .e4 (withPrivate p ev) := by
  have outside : ∀ k, k ≠ .e1 → k ≠ .e4 → (Fails K k (withPrivate p ev) ↔ Fails K k ev) := by
    intro k not1 not4
    cases k with
    | e1 => exact absurd rfl not1
    | e4 => exact absurd rfl not4
    | _ => exact Iff.rfl
  have place : OutOfPlace K (withPrivate p ev) ↔ OutOfPlace K ev := Iff.rfl
  rw [reconcile_failed judged, place]
  constructor
  · rintro (⟨k, fails⟩ | out)
    · by_cases e1 : k = .e1
      · exact Or.inr (Or.inl (e1 ▸ fails))
      · by_cases e4 : k = .e4
        · exact Or.inr (Or.inr (e4 ▸ fails))
        · exact Or.inl (Or.inr ⟨k, e1, e4, (outside k e1 e4).mp fails⟩)
    · exact Or.inl (Or.inl out)
  · rintro ((out | ⟨k, not1, not4, fails⟩) | e1 | e4)
    · exact Or.inr out
    · exact Or.inl ⟨k, (outside k not1 not4).mpr fails⟩
    · exact Or.inl ⟨.e1, e1⟩
    · exact Or.inl ⟨.e4, e4⟩

/-- An auditor without the private evidence reproduces a verdict made with it exactly when
the log alone shows a failure, or the evidence makes E1 or E4 fail only where E4 fails
without it too. -/
theorem public_replay_iff {engine : ReconciliationEngine} {sub : Value} {entries : List LogEntry}
    {p : PrivateEvidence} {now : Int} {parties : List String} {v w : Verdict}
    (withEvidence : judge K engine sub entries (some p) now parties = .ok v)
    (without : judge K engine sub entries none now parties = .ok w) :
    (∃ a b, verdictSignature v.toDict privateOnlyEquations = .ok a ∧
      verdictSignature w.toDict privateOnlyEquations = .ok b ∧ a.same b = true) ↔
    ∃ ev, gather K engine sub entries none now = .ok ev ∧ (PublicFailure K ev ∨
      (Fails K .e1 (withPrivate (some p) ev) ∨ Fails K .e4 (withPrivate (some p) ev) ↔
        Fails K .e4 (withPrivate none ev))) := by
  obtain ⟨evV, gatheredV, judgedV⟩ := bind_ok.mp withEvidence
  obtain ⟨evW, gatheredW, judgedW⟩ := bind_ok.mp without
  rw [gather_private] at gatheredV
  rw [gather_private] at gatheredW
  cases gathered : gather K engine sub entries none now with
  | error e => simp [gathered, Except.map] at gatheredV
  | ok ev =>
    rw [gathered] at gatheredV gatheredW
    obtain rfl := Except.ok.inj gatheredV
    obtain rfl := Except.ok.inj gatheredW
    obtain ⟨a, b, ha, hb, same⟩ := same_iff_failed judgedV judgedW
    have failsV := failed_iff judgedV
    have failsW := failed_iff judgedW
    have undecided : ¬ Fails K .e1 (withPrivate none ev) := by
      rintro ⟨⟨-, given⟩, -⟩
      simp [withPrivate] at given
    rw [failsV, failsW] at same
    constructor
    · rintro ⟨a', b', ha', hb', equal⟩
      obtain rfl := Except.ok.inj (ha.symm.trans ha')
      obtain rfl := Except.ok.inj (hb.symm.trans hb')
      refine ⟨ev, rfl, ?_⟩
      have both := same.mp equal
      by_cases shown : PublicFailure K ev
      · exact Or.inl shown
      · refine Or.inr ?_
        simpa [shown, undecided] using both
    · rintro ⟨ev', found, shown | both⟩
      · obtain rfl := Except.ok.inj found
        exact ⟨a, b, ha, hb, same.mpr (by simp [shown])⟩
      · obtain rfl := Except.ok.inj found
        refine ⟨a, b, ha, hb, same.mpr ?_⟩
        rw [both]
        simp [undecided]

def userKey : KeyPair := { kid := "kid-u", seed := [1] }
def modelKey : KeyPair := { kid := "kid-m", seed := [2] }

/-- A statement signed with the evaluation scheme. -/
def signedWith (key : KeyPair) (iss sub contentType : String) (payload : Dict) (issuedAt : Int) :
    SignedStatement :=
  match issue toy key (.str iss) (.str sub) (.str contentType) payload issuedAt with
  | .ok s => s
  | .error _ => draft key (.str iss) (.str sub) (.str contentType) payload issuedAt

theorem signedWith_parts (key : KeyPair) (iss sub contentType : String) (payload : Dict)
    (issuedAt : Int) :
    (signedWith key iss sub contentType payload issuedAt).payload = payload ∧
    (signedWith key iss sub contentType payload issuedAt).contentType = .str contentType ∧
    (signedWith key iss sub contentType payload issuedAt).issuedAt = issuedAt := by
  rw [signedWith]
  cases made : issue toy key (.str iss) (.str sub) (.str contentType) payload issuedAt with
  | error e => exact ⟨rfl, rfl, rfl⟩
  | ok s =>
    obtain ⟨message, -, rfl⟩ := issue_ok made
    exact ⟨rfl, rfl, rfl⟩

def twoPartyEngine : ReconciliationEngine :=
  { trustedKeys := [(.str "kid-u", .str "u", userKey.publicKey toy),
      (.str "kid-m", .str "m", modelKey.publicKey toy)],
    referenceModelHashes := [], policyHash := "", trustKeysVersion := "",
    issuerContentTypes := [(.str "u", [.str ctContract]), (.str "m", [.str ctReceipt])] }

def ones (n : Nat) : String := String.ofList (List.replicate n '1')

/-- The contract allows the public formatter too; the model received neither result. -/
def changedRequest : List LogEntry :=
  [{ index := 1, registeredAt := 10,
     statement := signedWith userKey "u" "urn:itx:req:1" ctContract
       (contractPayload { plainTerms with
         allowedRequestTransforms := [identity, publicFormatterV1] }) 0 },
   { index := 2, registeredAt := 20,
     statement := signedWith modelKey "m" "urn:itx:req:1" ctReceipt
       (receiptPayload { silentReceipt with requestCommit := some (ones 64) }) 0 }]

def changedPrivate : PrivateEvidence :=
  { salt := .str (zeros 64), requestHash := .str (zeros 64),
    expectedRequestCommits := fields [(publicFormatterV1, .str (zeros 64))] }

def judgeChanged (p : Option PrivateEvidence) : Py Verdict :=
  judge toy twoPartyEngine (.str "urn:itx:req:1") changedRequest p 30 allParties

theorem judgeChanged_with :
    (judgeChanged (some changedPrivate)).map Verdict.status = .ok .failed := by
  decide +kernel

theorem judgeChanged_without :
    (judgeChanged none).map (fun v => (v.status, publicPass v.equations)) =
      .ok (.insufficientEvidence, false) := by
  decide +kernel

/-- The third party finds the request changed; an auditor without the user's private
evidence does not, and reports a mismatch. -/
theorem public_replay_accuses : ∃ v w, judgeChanged (some changedPrivate) = .ok v ∧
    judgeChanged none = .ok w ∧
    ¬ ∃ a b, verdictSignature v.toDict privateOnlyEquations = .ok a ∧
      verdictSignature w.toDict privateOnlyEquations = .ok b ∧ a.same b = true := by
  obtain ⟨v, judgedV, failed⟩ := map_ok judgeChanged_with
  obtain ⟨w, judgedW, open_⟩ := map_ok judgeChanged_without
  rw [Prod.mk.injEq] at open_
  refine ⟨v, w, judgedV, judgedW, ?_⟩
  rintro ⟨a, b, ha, hb, same⟩
  obtain ⟨_, _, -, -, isV⟩ := verdictSignature_toDict v privateOnlyEquations
  obtain ⟨_, _, -, -, isW⟩ := verdictSignature_toDict w privateOnlyEquations
  obtain rfl := Except.ok.inj (ha.symm.trans isV)
  obtain rfl := Except.ok.inj (hb.symm.trans isW)
  simp only [VerdictSignature.same, Bool.and_eq_true] at same
  have words := same.1.1.1.1.1.1.1
  rw [comparedText_public, comparedText_public, failed, open_.1, open_.2] at words
  simp [publicWord] at words

theorem public_replay_iff_changed : ∃ v w, judgeChanged (some changedPrivate) = .ok v ∧
    judgeChanged none = .ok w ∧
    ((∃ a b, verdictSignature v.toDict privateOnlyEquations = .ok a ∧
      verdictSignature w.toDict privateOnlyEquations = .ok b ∧ a.same b = true) ↔
    ∃ ev, gather toy twoPartyEngine (.str "urn:itx:req:1") changedRequest none 30 = .ok ev ∧
      (PublicFailure toy ev ∨
      (Fails toy .e1 (withPrivate (some changedPrivate) ev) ∨
        Fails toy .e4 (withPrivate (some changedPrivate) ev) ↔
        Fails toy .e4 (withPrivate none ev)))) := by
  obtain ⟨v, judgedV, -⟩ := map_ok judgeChanged_with
  obtain ⟨w, judgedW, -⟩ := map_ok judgeChanged_without
  exact ⟨v, w, judgedV, judgedW, public_replay_iff judgedV judgedW⟩

end WithoutEvidence
