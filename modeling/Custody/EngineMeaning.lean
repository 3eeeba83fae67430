import Custody.Engine
import Custody.EquationMeaning

/-!
# What a verdict's status means

A verdict is `failed` when some decided equation does not hold or some statement
is out of place, and `passed` when none is and every required equation holds.
-/

namespace EngineMeaning

open PyValue Commitments Statements Evidence Equations EquationMeaning Discrepancies Engine

variable (K : Primitives)

/-- The registered receipt is not the copy the user was shown. -/
def PresentedDiffers (ev : EvidenceSet) : Prop :=
  ∃ receipt shown registered, ev.receipt = some receipt ∧ ev.receiptSource = .registered ∧
    (field ev.o "presented_receipt").truthy = true ∧
    readHash K (field ev.o "presented_receipt") = .ok shown ∧
    receipt.statementHash K = .ok registered ∧ shown ≠ registered

/-- Some statement carries no valid signature, claims a role it has no right to,
or contradicts the copy shown to the user. -/
def OutOfPlace (ev : EvidenceSet) : Prop :=
  ev.invalidSignatures ≠ [] ∨ ev.unauthorizedIssuers ≠ [] ∨ PresentedDiffers K ev

def Broken (ev : EvidenceSet) : Prop := ∃ k, Decided k ev ∧ ¬ Holds K k ev

structure Passing (ev : EvidenceSet) : Prop where
  inPlace : ¬ OutOfPlace K ev
  unbroken : ¬ Broken K ev
  required : ∀ k ∈ requiredForPass, Decided k ev ∧ Holds K k ev

/-- What a returned verdict is made of. -/
structure Judged (engine : ReconciliationEngine) (ev : EvidenceSet) (parties : List String)
    (v : Verdict) (claimed copies : List Discrepancy) (delays : List Value) : Prop where
  equations : evaluateEquations K ev = .ok v.equations
  completeness : assessCompleteness ev parties = .ok v.completeness
  unauthorized : ev.unauthorizedIssuers.mapM (issuerUnauthorized engine) = .ok claimed
  differs : presentedDiffers K ev = .ok copies
  late : lateRegistrations engine ev = .ok delays
  definitions : Engine.transformDefinitions K ev.c = .ok v.transformDefinitions
  discrepancies : v.discrepancies = classify v.equations ev.presentParties ++
    ev.invalidSignatures.map (invalidSignature K) ++ claimed ++ copies ++
    gap v.completeness ++ Engine.late engine delays
  status : v.status = statusOf v.equations v.discrepancies
  refs : v.evidenceRefs = ev.refs
  policyHash : v.policyHash = engine.policyHash
  trustKeysVersion : v.trustKeysVersion = engine.trustKeysVersion

variable {K}

theorem tryRead_ok {A : Type} {x : Py A} {found : Option A} (h : tryRead x = .ok found) :
    (∃ a, x = .ok a ∧ found = some a) ∨ (∃ e, x = .error e ∧ caught e = true ∧ found = none) := by
  cases x with
  | ok a => exact Or.inl ⟨a, rfl, (Except.ok.inj h).symm⟩
  | error e =>
    by_cases known : caught e = true
    · simp only [tryRead, known, if_true, Except.ok.injEq] at h
      exact Or.inr ⟨e, rfl, known, h.symm⟩
    · simp [tryRead, known] at h

theorem presentedDiffers_ok {ev : EvidenceSet} {found : List Discrepancy}
    (h : presentedDiffers K ev = .ok found) :
    (found = [] ∧ ¬ PresentedDiffers K ev) ∨
    (∃ d, found = [d] ∧ d.severity = .contradiction ∧ d.code = "D-RECEIPT-PRESENTED-DIFFERS" ∧
      PresentedDiffers K ev) := by
  unfold presentedDiffers at h
  cases hr : ev.receipt with
  | none =>
    simp only [hr, Except.ok.injEq] at h
    refine Or.inl ⟨h.symm, ?_⟩
    rintro ⟨receipt, -, -, present, -⟩
    rw [hr] at present
    cases present
  | some receipt =>
    simp only [hr] at h
    split at h
    next absent =>
      refine Or.inl ⟨(Except.ok.inj h).symm, ?_⟩
      rintro ⟨-, -, -, -, source, shown, -⟩
      simp [source, shown] at absent
    next present =>
      have present : (field ev.o "presented_receipt").truthy = true ∧
          ev.receiptSource = .registered := by simpa using present
      obtain ⟨read, attempt, h⟩ := bind_ok.mp h
      rcases tryRead_ok attempt with ⟨shown, readable, rfl⟩ | ⟨e, unreadable, -, rfl⟩
      · obtain ⟨registered, hashed, h⟩ := bind_ok.mp h
        split at h
        next same =>
          refine Or.inl ⟨(Except.ok.inj h).symm, ?_⟩
          rintro ⟨receipt', shown', registered', hr', -, -, readable', hashed', different⟩
          rw [readable, Except.ok.injEq] at readable'
          rw [hr, Option.some.injEq] at hr'
          subst hr'
          rw [hashed, Except.ok.injEq] at hashed'
          exact different (readable' ▸ hashed' ▸ same)
        next different =>
          exact Or.inr ⟨_, (Except.ok.inj h).symm, rfl, rfl, receipt, shown, registered, hr,
            present.2, present.1, readable, hashed, different⟩
      · refine Or.inl ⟨(Except.ok.inj h).symm, ?_⟩
        rintro ⟨-, shown, -, -, -, -, readable, -⟩
        rw [unreadable] at readable
        cases readable

theorem reconcile_ok {engine : ReconciliationEngine} {ev : EvidenceSet} {parties : List String}
    {v : Verdict} (h : reconcile K engine ev parties = .ok v) :
    ∃ claimed copies delays, Judged K engine ev parties v claimed copies delays := by
  unfold reconcile at h
  obtain ⟨eqs, evaluated, h⟩ := bind_ok.mp h
  obtain ⟨completeness, assessed, h⟩ := bind_ok.mp h
  obtain ⟨unauthorized, listed, h⟩ := bind_ok.mp h
  obtain ⟨differs, compared, h⟩ := bind_ok.mp h
  obtain ⟨lateItems, timed, h⟩ := bind_ok.mp h
  obtain ⟨definitions, defined, h⟩ := bind_ok.mp h
  obtain rfl := Except.ok.inj h
  exact ⟨unauthorized, differs, lateItems, evaluated, assessed, listed, compared, timed, defined,
    rfl, rfl, rfl, rfl, rfl⟩

theorem issuerUnauthorized_violation {engine : ReconciliationEngine} {ref : StatementRef}
    {d : Discrepancy} (h : issuerUnauthorized engine ref = .ok d) :
    d.severity = .violation ∧ d.code = "D-ISSUER-UNAUTHORIZED" := by
  simp only [issuerUnauthorized, bind_ok, pure_ok, Except.ok.injEq] at h
  obtain ⟨allowed, -, rfl⟩ := h
  exact ⟨rfl, rfl⟩

section

variable {engine : ReconciliationEngine} {ev : EvidenceSet} {parties : List String} {v : Verdict}
  {claimed copies : List Discrepancy} {delays : List Value}

theorem Judged.means (judged : Judged K engine ev parties v claimed copies delays) (k : EqId) :
    Means K k ev (v.equations k) :=
  evaluateEquations_means judged.equations k

/-- Somebody is blamed exactly when an equation is broken or a statement out of place. -/
theorem Judged.blames
    (judged : Judged K engine ev parties v claimed copies delays) :
    (∃ d ∈ v.discrepancies, d.severity.blames = true) ↔ Broken K ev ∨ OutOfPlace K ev := by
  have broken : (∃ k, (v.equations k).result = .fail) ↔ Broken K ev := by
    simp only [(judged.means _).failed, Broken]
  rw [judged.discrepancies, ← broken, ← classify_blames v.equations ev.presentParties]
  constructor
  · rintro ⟨d, member, blames⟩
    simp only [List.mem_append, List.mem_map] at member
    rcases member with ((((fails | ⟨ref, invalid, rfl⟩) | notEntitled) | differ) | gapped) | delayed
    · exact Or.inl ⟨d, fails, blames⟩
    · exact Or.inr (Or.inl (List.ne_nil_of_mem invalid))
    · obtain ⟨ref, listed, -⟩ := mem_mapM_ok judged.unauthorized notEntitled
      exact Or.inr (Or.inr (Or.inl (List.ne_nil_of_mem listed)))
    · rcases presentedDiffers_ok judged.differs with ⟨rfl, -⟩ | ⟨-, -, -, -, differs⟩
      · cases differ
      · exact Or.inr (Or.inr (Or.inr differs))
    · unfold gap at gapped
      split at gapped
      next =>
        rw [List.mem_singleton] at gapped
        simp [gapped, Severity.blames] at blames
      next => cases gapped
    · unfold Engine.late at delayed
      split at delayed
      next => cases delayed
      next =>
        rw [List.mem_singleton] at delayed
        simp [delayed, Severity.blames] at blames
  · rintro (⟨d, fails, blames⟩ | invalid | notEntitled | differ)
    · exact ⟨d, by simp [fails], blames⟩
    · obtain ⟨ref, rest, listed⟩ := List.exists_cons_of_ne_nil invalid
      exact ⟨invalidSignature K ref, by simp [listed], rfl⟩
    · cases made : claimed with
      | nil =>
        have short := mapM_ok_length judged.unauthorized
        rw [made] at short
        exact absurd (List.length_eq_zero_iff.mp short.symm) notEntitled
      | cons d rest =>
        obtain ⟨ref, -, issued⟩ := mem_mapM_ok judged.unauthorized
          (y := d) (by simp [made])
        exact ⟨d, by simp, by
          simp [(issuerUnauthorized_violation issued).1, Severity.blames]⟩
    · rcases presentedDiffers_ok judged.differs with ⟨-, same⟩ | ⟨d, rfl, severity, -, -⟩
      · exact absurd differ same
      · exact ⟨d, by simp, by simp [severity, Severity.blames]⟩

theorem Judged.failed
    (judged : Judged K engine ev parties v claimed copies delays) :
    v.status = .failed ↔ Broken K ev ∨ OutOfPlace K ev := by
  rw [judged.status, ← judged.blames]
  unfold statusOf
  split
  next blamed =>
    simp only [true_iff]
    simpa using blamed
  next unblamed =>
    have unblamed : ¬ ∃ d ∈ v.discrepancies, d.severity.blames = true := by simpa using unblamed
    have noneFails : ¬ ∃ k, (v.equations k).result = .fail := by
      rintro ⟨k, fails⟩
      refine unblamed (judged.blames.mpr (Or.inl ⟨k, (judged.means k).failed.mp fails⟩))
    split
    next fails =>
      simp only [List.any_eq_true, decide_eq_true_eq] at fails
      obtain ⟨k, -, fails⟩ := fails
      exact absurd ⟨k, fails⟩ noneFails
    next =>
      simp only [unblamed, iff_false]
      split <;> simp

theorem Judged.passed
    (judged : Judged K engine ev parties v claimed copies delays) :
    v.status = .passed ↔ Passing K ev := by
  have failed := judged.failed
  constructor
  · intro passed
    have clean : ¬ (Broken K ev ∨ OutOfPlace K ev) := by
      rw [← failed, passed]
      simp
    refine ⟨fun out => clean (Or.inr out), fun broken => clean (Or.inl broken), ?_⟩
    intro k required
    rw [← (judged.means k).passed]
    rw [judged.status] at passed
    unfold statusOf at passed
    split at passed
    · cases passed
    · split at passed
      · cases passed
      · split at passed
        next all =>
          simp only [List.all_eq_true, decide_eq_true_eq] at all
          exact all k required
        next => cases passed
  · intro passing
    have clean : v.status ≠ .failed := by
      rw [ne_eq, failed]
      rintro (broken | out)
      · exact passing.unbroken broken
      · exact passing.inPlace out
    rw [judged.status] at clean ⊢
    unfold statusOf at clean ⊢
    split
    next blamed => simp [blamed] at clean
    next unblamed =>
      split
      next fails => simp [unblamed, fails] at clean
      next =>
        have all : requiredForPass.all (fun k => decide ((v.equations k).result = .pass)) =
          true := by
          simp only [List.all_eq_true, decide_eq_true_eq]
          intro k required
          exact (judged.means k).passed.mpr (passing.required k required)
        simp [all]

end

theorem reconcile_passed {engine : ReconciliationEngine} {ev : EvidenceSet}
    {parties : List String} {v : Verdict} (h : reconcile K engine ev parties = .ok v) :
    v.status = .passed ↔ Passing K ev := by
  obtain ⟨_, _, _, judged⟩ := reconcile_ok h
  exact judged.passed

theorem reconcile_failed {engine : ReconciliationEngine} {ev : EvidenceSet}
    {parties : List String} {v : Verdict} (h : reconcile K engine ev parties = .ok v) :
    v.status = .failed ↔ Broken K ev ∨ OutOfPlace K ev := by
  obtain ⟨_, _, _, judged⟩ := reconcile_ok h
  exact judged.failed

end EngineMeaning
