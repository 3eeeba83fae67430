import Custody.Interleavings
import Custody.RegisteredCompleteness

/-!
# How the entries of different types interleave

A verdict depends on the order of the log entries only through the last statement of
each type. When entries of different types change places, the verdict is the same, and
its references and discrepancies are the same up to their order. The list of late
registrations inside one discrepancy follows the log.
-/

namespace EntryOrder

open PyValue Interleavings HexBytes Commitments Statements Schemas Evidence Equations Discrepancies
  EquationMeaning Engine EngineMeaning RegisteredEvidence BlockedJudgment RegisteredCompleteness
  PassedVerdict

variable {K : Primitives} {engine : ReconciliationEngine}

/-- Both entries hold statements of one content type. -/
def SameType (e e' : LogEntry) : Prop :=
  Value.eq e.statement.contentType e'.statement.contentType = true

/-- Where an entry goes does not depend on the evidence before it. -/
inductive Added where
  | invalid (ref : StatementRef)
  | unauthorized (ref : StatementRef)
  | unused
  | used (f : Field) (ref : StatementRef)

def Added.to (ev : EvidenceSet) (s : SignedStatement) : Added → EvidenceSet
  | .invalid ref => { ev with invalidSignatures := ev.invalidSignatures ++ [ref] }
  | .unauthorized ref => { ev with unauthorizedIssuers := ev.unauthorizedIssuers ++ [ref] }
  | .unused => ev
  | .used f ref => setField { ev with refs := ev.refs ++ [ref] } s f

variable (K engine) in
def added (e : LogEntry) : Py Added := do
  let valid ← verifies K engine e.statement
  let ref ← refOf K e.statement (some e.index) (some e.registeredAt) valid
  if !valid then pure (.invalid ref)
  else
    let permitted ← authorized engine e.statement.iss e.statement.contentType
    if !permitted then pure (.unauthorized ref)
    else
      match ← lookup ctToField e.statement.contentType with
      | none => pure .unused
      | some f => pure (.used f ref)

/-- What an entry adds does not depend on what has been gathered. -/
theorem gatherEntry_added {ev next : EvidenceSet} {e : LogEntry} :
    gatherEntry K engine ev e = .ok next ↔
      ∃ x, added K engine e = .ok x ∧ next = x.to ev e.statement := by
  have same : gatherEntry K engine ev e =
      (added K engine e >>= fun x => pure (x.to ev e.statement)) := by
    rw [gatherEntry, added]
    cases verifies K engine e.statement with
    | error err => rfl
    | ok valid =>
      rw [ok_bind, ok_bind]
      cases refOf K e.statement (some e.index) (some e.registeredAt) valid with
      | error err => rfl
      | ok ref =>
        rw [ok_bind, ok_bind]
        cases valid with
        | false => rfl
        | true =>
          simp only [Bool.not_true, Bool.false_eq_true, if_false]
          cases authorized engine e.statement.iss e.statement.contentType with
          | error err => rfl
          | ok permitted =>
            cases permitted with
            | false => rfl
            | true =>
              simp only [ok_bind, Bool.not_true, Bool.false_eq_true, if_false]
              cases lookup ctToField e.statement.contentType with
              | error err => rfl
              | ok found =>
                cases found with
                | none => rfl
                | some f => rfl
  rw [same, bind_ok]
  constructor
  · rintro ⟨x, made, gathered⟩
    exact ⟨x, made, (Except.ok.inj gathered).symm⟩
  · rintro ⟨x, made, rfl⟩
    exact ⟨x, made, rfl⟩

theorem added_type {e : LogEntry} {f : Field} {ref : StatementRef}
    (made : added K engine e = .ok (.used f ref)) :
    e.statement.contentType = .str (typeOf f) := by
  obtain ⟨valid, -, made⟩ := bind_ok.mp made
  obtain ⟨ref', -, made⟩ := bind_ok.mp made
  cases valid with
  | false => cases made
  | true =>
    simp only [Bool.not_true, Bool.false_eq_true, if_false] at made
    obtain ⟨permitted, -, made⟩ := bind_ok.mp made
    cases permitted with
    | false => cases made
    | true =>
      simp only [Bool.not_true, Bool.false_eq_true, if_false] at made
      obtain ⟨found, looked, made⟩ := bind_ok.mp made
      obtain ⟨-, rfl⟩ := lookup_find looked
      cases known : find ctToField e.statement.contentType with
      | none =>
        rw [known] at made
        cases made
      | some g =>
        rw [known] at made
        obtain ⟨rfl, rfl⟩ : g = f ∧ ref' = ref := by
          have both := Except.ok.inj made
          exact ⟨(Added.used.inj both).1, (Added.used.inj both).2⟩
        exact find_ctToField.mp known

/-- The evidence without its references. -/
def bare (ev : EvidenceSet) : EvidenceSet :=
  { ev with refs := [], invalidSignatures := [], unauthorizedIssuers := [] }

/-- The same evidence, its references in any order. -/
structure Alike (ev ev' : EvidenceSet) : Prop where
  bare : bare ev = bare ev'
  refs : ev.refs.Perm ev'.refs
  invalid : ev.invalidSignatures.Perm ev'.invalidSignatures
  unauthorized : ev.unauthorizedIssuers.Perm ev'.unauthorizedIssuers

theorem Alike.refl (ev : EvidenceSet) : Alike ev ev :=
  ⟨rfl, List.Perm.refl _, List.Perm.refl _, List.Perm.refl _⟩

theorem Alike.trans {ev ev' ev'' : EvidenceSet} (first : Alike ev ev') (second : Alike ev' ev'') :
    Alike ev ev'' where
  bare := first.bare.trans second.bare
  refs := first.refs.trans second.refs
  invalid := first.invalid.trans second.invalid
  unauthorized := first.unauthorized.trans second.unauthorized

/-- Statements of two types go to two fields, in either order. -/
theorem setField_comm {f g : Field} (apart : f ≠ g) (ev : EvidenceSet) (s t : SignedStatement) :
    setField (setField ev s f) t g = setField (setField ev t g) s f := by
  cases f with
  | contract => cases g <;> first | rfl | exact absurd rfl apart
  | relay => cases g <;> first | rfl | exact absurd rfl apart
  | receipt => cases g <;> first | rfl | exact absurd rfl apart
  | observation => cases g <;> first | rfl | exact absurd rfl apart
  | manifest => cases g <;> first | rfl | exact absurd rfl apart

/-- The statements after an entry. -/
def Added.field (c : EvidenceSet) (s : SignedStatement) : Added → EvidenceSet
  | .used f _ => setField c s f
  | _ => c

def Added.refs : Added → List StatementRef
  | .used _ ref => [ref]
  | _ => []

def Added.invalidRefs : Added → List StatementRef
  | .invalid ref => [ref]
  | _ => []

def Added.unauthorizedRefs : Added → List StatementRef
  | .unauthorized ref => [ref]
  | _ => []

/-- What an entry adds, part by part. -/
theorem Added.parts (x : Added) (ev : EvidenceSet) (s : SignedStatement) :
    EntryOrder.bare (x.to ev s) = x.field (EntryOrder.bare ev) s ∧
      (x.to ev s).refs = ev.refs ++ x.refs ∧
      (x.to ev s).invalidSignatures = ev.invalidSignatures ++ x.invalidRefs ∧
      (x.to ev s).unauthorizedIssuers = ev.unauthorizedIssuers ++ x.unauthorizedRefs := by
  cases x with
  | invalid ref =>
    exact ⟨rfl, (List.append_nil _).symm, rfl, (List.append_nil _).symm⟩
  | unauthorized ref =>
    exact ⟨rfl, (List.append_nil _).symm, (List.append_nil _).symm, rfl⟩
  | unused =>
    exact ⟨rfl, (List.append_nil _).symm, (List.append_nil _).symm, (List.append_nil _).symm⟩
  | used f ref =>
    cases f <;> exact ⟨rfl, rfl, (List.append_nil _).symm, (List.append_nil _).symm⟩

/-- An entry leaves evidence that was alike alike. -/
theorem Added.respects (x : Added) {ev ev' : EvidenceSet} (s : SignedStatement)
    (alike : Alike ev ev') : Alike (x.to ev s) (x.to ev' s) := by
  obtain ⟨bare₁, refs₁, invalid₁, unauthorized₁⟩ := x.parts ev s
  obtain ⟨bare₂, refs₂, invalid₂, unauthorized₂⟩ := x.parts ev' s
  constructor
  · rw [bare₁, bare₂, alike.bare]
  · rw [refs₁, refs₂]
    exact alike.refs.append_right _
  · rw [invalid₁, invalid₂]
    exact alike.invalid.append_right _
  · rw [unauthorized₁, unauthorized₂]
    exact alike.unauthorized.append_right _

/-- The list grew by the same two parts in either order. -/
theorem perm_swapped {A : Type} (xs ys zs : List A) :
    ((xs ++ ys) ++ zs).Perm ((xs ++ zs) ++ ys) := by
  rw [List.append_assoc, List.append_assoc]
  exact List.perm_append_comm.append_left xs

/-- Entries that do not fill the same field commute. -/
theorem Added.commutes (x y : Added) (ev : EvidenceSet) (s t : SignedStatement)
    (apart : ∀ f ref ref', x = .used f ref → y ≠ .used f ref') :
    Alike (y.to (x.to ev s) t) (x.to (y.to ev t) s) := by
  obtain ⟨bare₁, refs₁, invalid₁, unauthorized₁⟩ := x.parts ev s
  obtain ⟨bare₂, refs₂, invalid₂, unauthorized₂⟩ := y.parts (x.to ev s) t
  obtain ⟨bare₃, refs₃, invalid₃, unauthorized₃⟩ := y.parts ev t
  obtain ⟨bare₄, refs₄, invalid₄, unauthorized₄⟩ := x.parts (y.to ev t) s
  constructor
  · rw [bare₂, bare₁, bare₄, bare₃]
    cases x with
    | used f ref =>
      cases y with
      | used g ref' =>
        apply setField_comm
        rintro rfl
        exact apart f ref ref' rfl rfl
      | _ => rfl
    | _ => rfl
  · rw [refs₂, refs₁, refs₄, refs₃]
    exact perm_swapped _ _ _
  · rw [invalid₂, invalid₁, invalid₄, invalid₃]
    exact perm_swapped _ _ _
  · rw [unauthorized₂, unauthorized₁, unauthorized₄, unauthorized₃]
    exact perm_swapped _ _ _

/-- One entry at a time: the order of entries of different types does not show. -/
theorem gatherEntry_commuting : Commuting SameType (gatherEntry K engine) Alike where
  refl := Alike.refl
  trans := Alike.trans
  respects := by
    intro ev ev' e next alike gathered
    obtain ⟨x, made, rfl⟩ := gatherEntry_added.mp gathered
    exact ⟨_, gatherEntry_added.mpr ⟨x, made, rfl⟩, x.respects e.statement alike⟩
  commutes := by
    intro ev e e' mid next apart gathered gathered'
    obtain ⟨x, made, rfl⟩ := gatherEntry_added.mp gathered
    obtain ⟨y, made', rfl⟩ := gatherEntry_added.mp gathered'
    refine ⟨_, _, gatherEntry_added.mpr ⟨y, made', rfl⟩, gatherEntry_added.mpr ⟨x, made, rfl⟩, ?_⟩
    apply Added.commutes
    rintro f ref ref' rfl rfl
    apply apart
    rw [SameType, added_type made, added_type made']
    exact (eq_str _ _).mpr rfl

def shownTo (ev : EvidenceSet) : Option (SignedStatement × StatementRef) → EvidenceSet
  | none => ev
  | some (s, ref) => withShown ev s ref

variable (K engine) in
/-- The copy that stands in for a registered receipt, and its reference. -/
def copyOf (ev : EvidenceSet) : Py (Option (SignedStatement × StatementRef)) := do
  let presented := field ev.o "presented_receipt"
  if ev.receipt.isSome || !presented.truthy then pure none
  else match ← tryRead (SignedStatement.fromDict presented) with
    | none => pure none
    | some pr =>
      if !pr.contentType.eq (.str ctReceipt) then pure none
      else if !(← verifies K engine pr) then pure none
      else if !(← authorized engine pr.iss pr.contentType) then pure none
      else pure (some (pr, ← refOf K pr none none true))

theorem copyOf_bare (ev : EvidenceSet) : copyOf K engine (bare ev) = copyOf K engine ev := rfl

/-- The presented copy is read from the parts that order does not change. -/
theorem addPresented_copy (ev : EvidenceSet) :
    addPresented K engine ev = (copyOf K engine ev >>= fun copy => pure (shownTo ev copy)) := by
  rw [addPresented, copyOf]
  by_cases skipped : (ev.receipt.isSome || !(field ev.o "presented_receipt").truthy) = true
  · simp only [skipped, if_true]
    rfl
  simp only [skipped]
  cases tryRead (SignedStatement.fromDict (field ev.o "presented_receipt")) with
  | error err => rfl
  | ok found =>
    cases found with
    | none => rfl
    | some pr =>
      simp only [ok_bind, acceptPresented]
      by_cases other : (!pr.contentType.eq (.str ctReceipt)) = true
      · simp only [other, if_true]
        rfl
      simp only [other]
      cases verifies K engine pr with
      | error err => rfl
      | ok valid =>
        cases valid with
        | false => rfl
        | true =>
          simp only [ok_bind, Bool.not_true, Bool.false_eq_true, if_false]
          cases authorized engine pr.iss pr.contentType with
          | error err => rfl
          | ok permitted =>
            cases permitted with
            | false => rfl
            | true =>
              simp only [ok_bind, Bool.not_true, Bool.false_eq_true, if_false]
              cases refOf K pr none none true with
              | error err => rfl
              | ok ref => rfl

/-- Alike evidence stays alike when the presented copies are added. -/
theorem addPresented_respects {ev ev' next : EvidenceSet} (alike : Alike ev ev')
    (shown : addPresented K engine ev = .ok next) :
    ∃ next', addPresented K engine ev' = .ok next' ∧ Alike next next' := by
  rw [addPresented_copy] at shown
  obtain ⟨copy, read, shown⟩ := bind_ok.mp shown
  obtain rfl := Except.ok.inj shown
  rw [← copyOf_bare, alike.bare, copyOf_bare] at read
  refine ⟨shownTo ev' copy, ?_, ?_⟩
  · rw [addPresented_copy, read]
    rfl
  · cases copy with
    | none => exact alike
    | some x =>
      obtain ⟨s, ref⟩ := x
      constructor
      · change bare (withShown (bare ev) s ref) = bare (withShown (bare ev') s ref)
        rw [alike.bare]
      · exact alike.refs.append_right [ref]
      · exact alike.invalid
      · exact alike.unauthorized

theorem settleSource_parts (ev : EvidenceSet) :
    bare (settleSource ev) = settleSource (bare ev) ∧ (settleSource ev).refs = ev.refs ∧
      (settleSource ev).invalidSignatures = ev.invalidSignatures ∧
      (settleSource ev).unauthorizedIssuers = ev.unauthorizedIssuers := by
  rw [settleSource, settleSource]
  change (bare (if ev.receipt.isNone then _ else _) = if ev.receipt.isNone then _ else _) ∧ _
  cases ev.receipt.isNone with
  | true => exact ⟨rfl, rfl, rfl, rfl⟩
  | false => exact ⟨rfl, rfl, rfl, rfl⟩

/-- Alike evidence stays alike when its source is settled. -/
theorem settleSource_respects {ev ev' : EvidenceSet} (alike : Alike ev ev') :
    Alike (settleSource ev) (settleSource ev') := by
  obtain ⟨bare₁, refs₁, invalid₁, unauthorized₁⟩ := settleSource_parts ev
  obtain ⟨bare₂, refs₂, invalid₂, unauthorized₂⟩ := settleSource_parts ev'
  constructor
  · rw [bare₁, bare₂, alike.bare]
  · rw [refs₁, refs₂]
    exact alike.refs
  · rw [invalid₁, invalid₂]
    exact alike.invalid
  · rw [unauthorized₁, unauthorized₂]
    exact alike.unauthorized

/-- Entries of different types may be gathered in any order. -/
theorem gather_interleaved {sub : Value} {entries entries' : List LogEntry}
    {p : Option PrivateEvidence} {now : Int} {ev : EvidenceSet}
    (interleaved : Interleaves SameType entries entries')
    (gathered : gather K engine sub entries p now = .ok ev) :
    ∃ ev', gather K engine sub entries' p now = .ok ev' ∧ Alike ev ev' := by
  obtain ⟨folded, collected, gathered⟩ := bind_ok.mp gathered
  obtain ⟨complete, shown, gathered⟩ := bind_ok.mp gathered
  obtain rfl := Except.ok.inj gathered
  obtain ⟨folded', collected', between⟩ :=
    gatherEntry_commuting.swapped interleaved.swaps (Alike.refl _) collected
  obtain ⟨complete', shown', alike⟩ := addPresented_respects between shown
  refine ⟨settleSource complete', ?_, settleSource_respects alike⟩
  rw [gather, collected', ok_bind, shown']
  rfl

theorem evaluateEquations_bare (ev : EvidenceSet) :
    evaluateEquations K (bare ev) = evaluateEquations K ev := rfl

theorem assessCompleteness_bare (ev : EvidenceSet) (parties : List String) :
    assessCompleteness (bare ev) parties = assessCompleteness ev parties := by
  rw [assessCompleteness, assessCompleteness, @missingOf_congr ev (bare ev) rfl rfl rfl rfl]
  rfl

/-- Whether a copy differs is read from those parts too. -/
theorem presentedDiffers_bare (ev : EvidenceSet) :
    presentedDiffers K (bare ev) = presentedDiffers K ev := rfl

theorem Alike.c {ev ev' : EvidenceSet} (alike : Alike ev ev') : ev.c = ev'.c := by
  have same : (EntryOrder.bare ev).c = (EntryOrder.bare ev').c := by rw [alike.bare]
  exact same

/-- The late registrations follow the order of the references. -/
theorem lateRegistrations_alike {ev ev' : EvidenceSet} (alike : Alike ev ev') {items : List Value}
    (listed : lateRegistrations engine ev = .ok items) :
    ∃ items', lateRegistrations engine ev' = .ok items' ∧ items.Perm items' := by
  rw [lateRegistrations] at listed
  rw [lateRegistrations, ← alike.c]
  by_cases untimed : (field ev.c "client_time").isNone = true
  · rw [if_pos untimed] at listed
    rw [if_pos untimed]
    exact ⟨items, listed, List.Perm.refl _⟩
  · rw [if_neg untimed] at listed
    rw [if_neg untimed]
    obtain ⟨delays, made, joined⟩ := bind_ok.mp listed
    obtain rfl := Except.ok.inj joined
    obtain ⟨delays', made', perm⟩ := mapM_perm alike.refs made
    refine ⟨delays'.flatten, ?_, perm.flatten⟩
    rw [made']
    rfl

/-- The two verdicts, apart from the order of their references and discrepancies. The late
registrations are listed inside one discrepancy, in the order of the log. -/
structure SameVerdict (engine : ReconciliationEngine) (v v' : Verdict) : Prop where
  status : v.status = v'.status
  assurance : v.establishedAssurance = v'.establishedAssurance
  equations : v.equations = v'.equations
  completeness : v.completeness = v'.completeness
  attempt : v.attemptId = v'.attemptId
  cooperation : v.cooperationSet = v'.cooperationSet
  definitions : v.transformDefinitions = v'.transformDefinitions
  notes : v.notes = v'.notes
  references : v.evidenceRefs.Perm v'.evidenceRefs
  invalid : v.invalidSignatureRefs.Perm v'.invalidSignatureRefs
  unauthorized : v.unauthorizedIssuerRefs.Perm v'.unauthorizedIssuerRefs
  discrepancies : ∃ others others' items items',
    v.discrepancies = others ++ late engine items ∧
    v'.discrepancies = others' ++ late engine items' ∧ others.Perm others' ∧
    items.Perm items' ∧ (v.discrepancies.Perm v'.discrepancies ↔ items = items')

theorem late_blames (items : List Value) :
    (late engine items).any (fun d => d.severity.blames) = false := by
  rw [late]
  cases items.isEmpty with
  | true => rfl
  | false => rfl

/-- Permuted delays give the same findings exactly where they come in the same order. -/
theorem late_perm {items items' : List Value} (perm : items.Perm items') :
    (late engine items).Perm (late engine items') ↔ items = items' := by
  constructor
  · intro listed
    cases items with
    | nil => exact perm.nil_eq
    | cons x xs =>
      cases items' with
      | nil => exact perm.eq_nil
      | cons y ys =>
        have same := List.singleton_perm_singleton.mp listed
        have detail := congrArg Discrepancy.detail same
        simpa [fields] using detail
  · rintro rfl
    exact List.Perm.refl _

/-- Alike evidence gives the same verdict, up to the order of its lists. -/
theorem reconcile_alike {ev ev' : EvidenceSet} {parties : List String} {v : Verdict}
    (alike : Alike ev ev') (judged : reconcile K engine ev parties = .ok v) :
    ∃ v', reconcile K engine ev' parties = .ok v' ∧ SameVerdict engine v v' := by
  obtain ⟨eqs, evaluated, judged⟩ := bind_ok.mp judged
  obtain ⟨completeness, assessed, judged⟩ := bind_ok.mp judged
  obtain ⟨claimed, blamed, judged⟩ := bind_ok.mp judged
  obtain ⟨differs, compared, judged⟩ := bind_ok.mp judged
  obtain ⟨items, listed, judged⟩ := bind_ok.mp judged
  obtain ⟨definitions, defined, judged⟩ := bind_ok.mp judged
  obtain rfl := Except.ok.inj judged
  rw [← evaluateEquations_bare, alike.bare, evaluateEquations_bare] at evaluated
  rw [← assessCompleteness_bare, alike.bare, assessCompleteness_bare] at assessed
  rw [← presentedDiffers_bare, alike.bare, presentedDiffers_bare] at compared
  rw [alike.c] at defined
  obtain ⟨claimed', blamed', claims⟩ := mapM_perm alike.unauthorized blamed
  obtain ⟨items', listed', delays⟩ := lateRegistrations_alike alike listed
  have parts : ev.presentParties = ev'.presentParties ∧ ev.cooperationSet = ev'.cooperationSet ∧
      attemptIdOf ev = attemptIdOf ev' ∧ notesOf eqs ev = notesOf eqs ev' ∧
      ev.receipt = ev'.receipt := by
    have same := alike.bare
    change (bare ev).presentParties = (bare ev').presentParties ∧
      (bare ev).cooperationSet = (bare ev').cooperationSet ∧
      attemptIdOf (bare ev) = attemptIdOf (bare ev') ∧
      notesOf eqs (bare ev) = notesOf eqs (bare ev') ∧ (bare ev).receipt = (bare ev').receipt
    rw [same]
    exact ⟨rfl, rfl, rfl, rfl, rfl⟩
  obtain ⟨present, cooperation, attempt, notes, receipt⟩ := parts
  have others : (classify eqs ev.presentParties ++ ev.invalidSignatures.map (invalidSignature K) ++
      claimed ++ differs ++ gap completeness).Perm
      (classify eqs ev'.presentParties ++ ev'.invalidSignatures.map (invalidSignature K) ++
      claimed' ++ differs ++ gap completeness) := by
    rw [present]
    apply List.Perm.append_right
    apply List.Perm.append_right
    apply List.Perm.append
    · exact (alike.invalid.map _).append_left _
    · exact claims
  have status : ∀ found found' : List Discrepancy, found.Perm found' →
      statusOf eqs (found ++ late engine items) = statusOf eqs (found' ++ late engine items') := by
    intro found found' perm
    rw [statusOf, statusOf, List.any_append, List.any_append, late_blames, late_blames,
      perm.any_eq]
  refine ⟨?_, ?_, ?_⟩
  rotate_left
  · rw [reconcile, evaluated, ok_bind, assessed, ok_bind, blamed', ok_bind, compared, ok_bind,
      listed', ok_bind, defined]
    rfl
  · constructor
    · exact status _ _ others
    · change (if statusOf eqs _ = _ ∧ _ then _ else _) = if statusOf eqs _ = _ ∧ _ then _ else _
      rw [status _ _ others, receipt]
    · rfl
    · rfl
    · exact attempt
    · exact cooperation
    · rfl
    · exact notes
    · exact alike.refs
    · exact alike.invalid
    · exact alike.unauthorized
    · refine ⟨_, _, items, items', rfl, rfl, others, delays, ?_⟩
      rw [← late_perm delays]
      constructor
      · intro both
        exact (List.perm_append_left_iff _).mp ((others.append_right _).symm.trans both)
      · intro same
        exact others.append same

/-- The verdict on a log whose entries of different types come in another order. -/
theorem interleaved_verdict {sub : Value} {entries entries' : List LogEntry}
    {p : Option PrivateEvidence} {now : Int} {ev : EvidenceSet} {parties : List String}
    {v : Verdict} (interleaved : Interleaves SameType entries entries')
    (gathered : gather K engine sub entries p now = .ok ev)
    (judged : reconcile K engine ev parties = .ok v) :
    ∃ ev' v', gather K engine sub entries' p now = .ok ev' ∧
      reconcile K engine ev' parties = .ok v' ∧ SameVerdict engine v v' := by
  obtain ⟨ev', gathered', alike⟩ := gather_interleaved interleaved gathered
  obtain ⟨v', judged', same⟩ := reconcile_alike alike judged
  exact ⟨ev', v', gathered', judged', same⟩

def lateContract : LogEntry := ⟨1, 2000, signedBy "U" 1 ctContract (contractPayload plainTerms)⟩

def lateRelay : LogEntry := ⟨2, 2500, signedBy "R" 2 ctRelay (relayPayload plainReport)⟩

theorem late_interleaves :
    Interleaves SameType [lateContract, lateRelay] [lateRelay, lateContract] := by
  refine ⟨[(lateRelay, 1), (lateContract, 0)], List.Perm.swap _ _ _, rfl, ?_⟩
  have apart : ¬ SameType lateContract lateRelay := by
    rw [SameType]
    decide
  simpa using apart

theorem interleaved_verdict_late : ∃ ev v ev' v',
    gather toy partyEngine (.str "urn:itx:req:1") [lateContract, lateRelay] none 3000 = .ok ev ∧
    reconcile toy partyEngine ev allParties = .ok v ∧
    gather toy partyEngine (.str "urn:itx:req:1") [lateRelay, lateContract] none 3000 = .ok ev' ∧
    reconcile toy partyEngine ev' allParties = .ok v' ∧ SameVerdict partyEngine v v' := by
  have returns : Returns (do
      let ev ← gather toy partyEngine (.str "urn:itx:req:1") [lateContract, lateRelay] none 3000
      reconcile toy partyEngine ev allParties) := by
    decide +kernel
  obtain ⟨v, judged⟩ := returns
  obtain ⟨ev, gathered, judged⟩ := bind_ok.mp judged
  obtain ⟨ev', v', gathered', judged', same⟩ :=
    interleaved_verdict late_interleaves gathered judged
  exact ⟨ev, v, ev', v', gathered, judged, gathered', judged', same⟩

/-- One order of the two late registrations has a discrepancy that the other one has not. -/
theorem late_order_shows : ∃ ev v ev' v',
    Interleaves SameType [lateContract, lateRelay] [lateRelay, lateContract] ∧
    gather toy partyEngine (.str "urn:itx:req:1") [lateContract, lateRelay] none 3000 = .ok ev ∧
    reconcile toy partyEngine ev allParties = .ok v ∧
    gather toy partyEngine (.str "urn:itx:req:1") [lateRelay, lateContract] none 3000 = .ok ev' ∧
    reconcile toy partyEngine ev' allParties = .ok v' ∧
    (∃ d ∈ v.discrepancies, ∀ d' ∈ v'.discrepancies, Value.eq d.toDict d'.toDict = false) ∧
    ¬ v.discrepancies.Perm v'.discrepancies := by
  have judged : (do
      let ev ← gather toy partyEngine (.str "urn:itx:req:1") [lateContract, lateRelay] none 3000
      let v ← reconcile toy partyEngine ev allParties
      let ev' ← gather toy partyEngine (.str "urn:itx:req:1") [lateRelay, lateContract] none 3000
      let v' ← reconcile toy partyEngine ev' allParties
      pure (v.discrepancies.any fun d => Value.eq d.toDict d.toDict &&
        v'.discrepancies.all fun d' => !Value.eq d.toDict d'.toDict)) =
      (.ok true : Py Bool) := by
    decide +kernel
  obtain ⟨ev, gathered, judged⟩ := bind_ok.mp judged
  obtain ⟨v, reconciled, judged⟩ := bind_ok.mp judged
  obtain ⟨ev', gathered', judged⟩ := bind_ok.mp judged
  obtain ⟨v', reconciled', judged⟩ := bind_ok.mp judged
  obtain ⟨d, inside, alone⟩ := List.any_eq_true.mp (Except.ok.inj judged)
  obtain ⟨self, others⟩ := Bool.and_eq_true_iff.mp alone
  have differs : ∀ d' ∈ v'.discrepancies, Value.eq d.toDict d'.toDict = false := by
    intro d' member
    simpa using List.all_eq_true.mp others d' member
  refine ⟨ev, v, ev', v', late_interleaves, gathered, reconciled, gathered', reconciled',
    ⟨d, inside, differs⟩, ?_⟩
  intro perm
  rw [differs d (perm.mem_iff.mp inside)] at self
  cases self

end EntryOrder
