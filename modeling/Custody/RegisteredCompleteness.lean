import Custody.BlockedJudgment

/-!
# What a complete verdict says about the log

Completeness is read off the gathered evidence, which may hold a receipt that was
only shown to the user. For an arbitrary list of entries, a verdict of complete
evidence means that all of it is registered, except when such a copy stands in for
the model's receipt.
-/

namespace RegisteredCompleteness

open PyValue HexBytes Commitments Statements Schemas Evidence Discrepancies EquationMeaning Engine
  EngineMeaning Judgeability RegisteredEvidence BlockedJudgment PassedVerdict

variable {K : Primitives} {engine : ReconciliationEngine}

/-- The checks of a statement come to one answer. -/
theorem entitled_of_verifies {s : SignedStatement} {valid : Bool}
    (checked : verifies K engine s = .ok valid) :
    (valid = false → entitled K engine s = false) ∧
    ∀ permitted, valid = true → authorized engine s.iss s.contentType = .ok permitted →
      entitled K engine s = permitted := by
  have kid : s.kid.hashable = true := by
    rw [verifies] at checked
    obtain ⟨found, looked, -⟩ := bind_ok.mp checked
    exact (lookup_find looked).1
  rw [verifies_known kid] at checked
  cases known : find engine.trustedKeys s.kid with
  | none =>
    rw [known] at checked
    obtain rfl := Except.ok.inj checked
    exact ⟨fun _ => by simp [entitled, known], fun _ wrong => absurd wrong Bool.false_ne_true⟩
  | some x =>
    obtain ⟨iss, publicKey⟩ := x
    rw [known] at checked
    by_cases bound : iss.eq s.iss = true
    · simp only [bound, if_true] at checked
      constructor
      · rintro rfl
        simp [entitled, known, checked]
      · rintro permitted rfl allowed
        obtain ⟨rights, looked, allowed⟩ := bind_ok.mp allowed
        obtain ⟨-, rfl⟩ := lookup_find looked
        simp [entitled, known, bound, checked, ← Except.ok.inj allowed]
    · simp only [bound, Bool.false_eq_true, if_false, Except.ok.injEq] at checked
      subst valid
      exact ⟨fun _ => by simp [entitled, known, bound], fun _ wrong =>
        absurd wrong Bool.false_ne_true⟩

/-- The entry holds a statement of this type with a valid signature of an authorised issuer. -/
def registers (K : Primitives) (engine : ReconciliationEngine) (f : Field) (e : LogEntry) : Bool :=
  e.statement.contentType.eq (.str (typeOf f)) && entitled K engine e.statement

theorem gatherEntry_fields {ev next : EvidenceSet} {e : LogEntry}
    (gathered : gatherEntry K engine ev e = .ok next) (f : Field) :
    fieldOf next f = if registers K engine f e then some e.statement else fieldOf ev f := by
  obtain ⟨valid, checked, gathered⟩ := bind_ok.mp gathered
  obtain ⟨ref, -, gathered⟩ := bind_ok.mp gathered
  obtain ⟨invalid, permits⟩ := entitled_of_verifies checked
  cases valid with
  | false =>
    obtain rfl := Except.ok.inj gathered
    rw [registers, invalid rfl, Bool.and_false, if_neg Bool.false_ne_true]
    cases f <;> rfl
  | true =>
    simp only [Bool.not_true, Bool.false_eq_true, if_false] at gathered
    obtain ⟨permitted, allowed, gathered⟩ := bind_ok.mp gathered
    rw [registers, permits permitted rfl allowed]
    cases permitted with
    | false =>
      obtain rfl := Except.ok.inj gathered
      rw [Bool.and_false, if_neg Bool.false_ne_true]
      cases f <;> rfl
    | true =>
      simp only [Bool.not_true, Bool.false_eq_true, if_false] at gathered
      obtain ⟨type, looked, gathered⟩ := bind_ok.mp gathered
      obtain ⟨-, rfl⟩ := lookup_find looked
      rw [Bool.and_true]
      cases found : find ctToField e.statement.contentType with
      | none =>
        rw [found] at gathered
        obtain rfl := Except.ok.inj gathered
        have other : ¬e.statement.contentType.eq (.str (typeOf f)) = true := by
          intro same
          rw [find_ctToField.mpr ((eq_str_right _ _).mp same)] at found
          cases found
        rw [if_neg other]
      | some g =>
        rw [found] at gathered
        obtain rfl := Except.ok.inj gathered
        have same : e.statement.contentType.eq (.str (typeOf f)) = true ↔ g = f := by
          rw [eq_str_right, find_ctToField.mp found, Value.str.injEq]
          exact ⟨typeOf_injective g f, fun h => h ▸ rfl⟩
        rw [fieldOf_setField]
        by_cases here : g = f
        · rw [if_pos here, if_pos (same.mpr here)]
        · rw [if_neg here, if_neg fun h => here (same.mp h)]
          cases f <;> rfl

/-- The last statement of this type that the entries register. -/
def lastRegistered (K : Primitives) (engine : ReconciliationEngine) (f : Field)
    (entries : List LogEntry) : Option SignedStatement :=
  (entries.reverse.find? (registers K engine f)).map LogEntry.statement

theorem lastRegistered_cons (f : Field) (e : LogEntry) (entries : List LogEntry) :
    lastRegistered K engine f (e :: entries) = (lastRegistered K engine f entries).or
      (if registers K engine f e then some e.statement else none) := by
  rw [lastRegistered, lastRegistered, List.reverse_cons, List.find?_append, List.find?_singleton]
  cases entries.reverse.find? (registers K engine f) with
  | some e' => rfl
  | none =>
    cases registers K engine f e with
    | true => rfl
    | false => rfl

theorem gatherEntries_fields {entries : List LogEntry} {ev next : EvidenceSet}
    (gathered : entries.foldlM (gatherEntry K engine) ev = .ok next) (f : Field) :
    fieldOf next f = (lastRegistered K engine f entries).or (fieldOf ev f) := by
  induction entries generalizing ev with
  | nil =>
    obtain rfl := Except.ok.inj gathered
    rfl
  | cons e entries ih =>
    rw [List.foldlM_cons] at gathered
    obtain ⟨first, here, rest⟩ := bind_ok.mp gathered
    rw [ih rest, gatherEntry_fields here f, lastRegistered_cons, Option.or_assoc]
    cases registers K engine f e with
    | true => rfl
    | false => rfl

/-- The receipt in the last registered observation that stands in for a registered one. -/
def shownCopy (K : Primitives) (engine : ReconciliationEngine) (entries : List LogEntry) :
    Option SignedStatement :=
  shownReceipt K engine (field ((lastRegistered K engine .observation entries).map
    SignedStatement.payload) "presented_receipt")

theorem gather_fields {sub : Value} {entries : List LogEntry} {p : Option PrivateEvidence}
    {now : Int} {ev : EvidenceSet} (gathered : gather K engine sub entries p now = .ok ev) :
    (∀ f, f ≠ .receipt → fieldOf ev f = lastRegistered K engine f entries) ∧
    fieldOf ev .receipt =
      (lastRegistered K engine .receipt entries).or (shownCopy K engine entries) := by
  obtain ⟨folded, collected, gathered⟩ := bind_ok.mp gathered
  obtain ⟨added, shown, gathered⟩ := bind_ok.mp gathered
  obtain rfl := Except.ok.inj gathered
  have settled : ∀ f, fieldOf (settleSource added) f = fieldOf added f := by
    intro f
    rw [settleSource]
    split <;> cases f <;> rfl
  have fields : ∀ f, fieldOf folded f = lastRegistered K engine f entries := by
    intro f
    rw [gatherEntries_fields collected f]
    cases f <;> exact Option.or_none
  have presented : shownReceipt K engine (field folded.o "presented_receipt") =
      shownCopy K engine entries := by
    rw [shownCopy, ← fields .observation]
    rfl
  simp only [settled]
  rcases addPresented_ok shown with ⟨rfl, unshown⟩ | ⟨s, ref, unregistered, -, rfl, copy⟩
  · refine ⟨fun f _ => fields f, ?_⟩
    rw [← fields .receipt]
    cases held : fieldOf added .receipt with
    | some r => rfl
    | none => rw [← presented, unshown held, Option.or_none]
  · constructor
    · intro f other
      rw [← fields f]
      cases f with
      | receipt => exact absurd rfl other
      | _ => rfl
    · have none_ : lastRegistered K engine .receipt entries = none := by
        rw [← fields .receipt]
        exact unregistered
      rw [none_, ← presented, copy]
      rfl

/-- The statement types each party is expected to register. -/
def expectedTypes : String → List Field
  | "U" => [.contract, .observation]
  | "R" => [.relay]
  | "M" => [.receipt]
  | _ => []

/-- Nothing is missing exactly when every expected statement was gathered. -/
theorem missingOf_nil {ev : EvidenceSet} {parties missing : List String}
    (listed : missingOf ev parties = .ok missing) : missing = [] ↔
      ∀ party ∈ parties, ∀ f ∈ expectedTypes party, (fieldOf ev f).isSome = true := by
  induction parties generalizing missing with
  | nil =>
    obtain rfl := Except.ok.inj listed
    simp
  | cons party parties ih =>
    simp only [missingOf] at listed
    cases known : expectedByParty.lookup party with
    | none =>
      rw [known] at listed
      cases listed
    | some kinds =>
      rw [known] at listed
      obtain ⟨rest, later, joined⟩ := bind_ok.mp listed
      obtain rfl := Except.ok.inj joined
      rw [List.append_eq_nil_iff, ih later, List.forall_mem_cons]
      apply and_congr_left
      intro _
      obtain ⟨rfl, rfl⟩ | ⟨rfl, rfl⟩ | ⟨rfl, rfl⟩ := expected_cases known
      · cases hc : ev.contract <;> cases ho : ev.observation <;>
          simp [expectedTypes, fieldOf, hc, ho]
      · cases hr : ev.relay <;> simp [expectedTypes, fieldOf, hr]
      · cases hm : ev.receipt <;> simp [expectedTypes, fieldOf, hm]

theorem complete_iff {ev : EvidenceSet} {parties : List String} {c : Completeness}
    (assessed : assessCompleteness ev parties = .ok c) : c.status = "complete" ↔
      ∀ party ∈ parties, ∀ f ∈ expectedTypes party, (fieldOf ev f).isSome = true := by
  obtain ⟨missing, listed, assessed⟩ := bind_ok.mp assessed
  obtain ⟨relayRefused, -, assessed⟩ := bind_ok.mp assessed
  obtain ⟨modelRefused, -, assessed⟩ := bind_ok.mp assessed
  obtain rfl := Except.ok.inj assessed
  rw [← missingOf_nil listed]
  change (completenessStatus missing relayRefused modelRefused).1 = "complete" ↔ _
  rw [completenessStatus]
  cases missing with
  | nil => simp
  | cons m ms =>
    rw [List.isEmpty_cons, if_neg Bool.false_ne_true]
    split
    · simp
    split
    · simp
    · simp

/-- Every statement expected of the parties has an entry with a valid signature of an authorised
issuer. -/
def AllRegistered (K : Primitives) (engine : ReconciliationEngine) (entries : List LogEntry)
    (parties : List String) : Prop :=
  ∀ party ∈ parties, ∀ f ∈ expectedTypes party, ∃ e ∈ entries, registers K engine f e = true

/-- Of all that is expected only the model's receipt is not registered, and a copy of it that was
shown to the user counts instead. -/
structure CopyStandsIn (K : Primitives) (engine : ReconciliationEngine) (entries : List LogEntry)
    (parties : List String) : Prop where
  expected : "M" ∈ parties
  unregistered : ∀ e ∈ entries, registers K engine .receipt e = false
  shown : (shownCopy K engine entries).isSome = true
  others : AllRegistered K engine entries (parties.filter (· ≠ "M"))

theorem lastRegistered_isSome {f : Field} {entries : List LogEntry} :
    (lastRegistered K engine f entries).isSome = true ↔
      ∃ e ∈ entries, registers K engine f e = true := by
  rw [lastRegistered, Option.isSome_map, List.find?_isSome]
  simp

/-- Only the model is expected to issue receipts. -/
theorem receipt_expected {party : String} {f : Field} (expected : f ∈ expectedTypes party) :
    f = .receipt ↔ party = "M" := by
  unfold expectedTypes at expected
  split at expected
  all_goals simp only [List.mem_cons, List.not_mem_nil, or_false] at expected
  · rcases expected with rfl | rfl <;> simp
  · subst expected
    simp
  · subst expected
    simp

/-- A verdict of complete evidence means that all of it is registered, unless a shown copy stands
in for the model's receipt. -/
theorem complete_means_registered_iff {sub : Value} {entries : List LogEntry}
    {p : Option PrivateEvidence} {now : Int} {ev : EvidenceSet} {parties : List String}
    {v : Verdict} (gathered : gather K engine sub entries p now = .ok ev)
    (judged : reconcile K engine ev parties = .ok v) :
    (v.completeness.status = "complete" → AllRegistered K engine entries parties) ↔
      ¬CopyStandsIn K engine entries parties := by
  obtain ⟨_, _, _, made⟩ := reconcile_ok judged
  obtain ⟨fields, receipt⟩ := gather_fields gathered
  rw [complete_iff made.completeness]
  have present : ∀ f, f ≠ .receipt → ((fieldOf ev f).isSome = true ↔
      ∃ e ∈ entries, registers K engine f e = true) := by
    intro f other
    rw [fields f other, lastRegistered_isSome]
  have held : (fieldOf ev .receipt).isSome = true ↔
      (∃ e ∈ entries, registers K engine .receipt e = true) ∨
        (shownCopy K engine entries).isSome = true := by
    rw [receipt, Option.isSome_or, Bool.or_eq_true, lastRegistered_isSome]
  constructor
  · rintro means copy
    obtain ⟨e, inside, registered⟩ := means (by
      intro party member f expected
      by_cases isReceipt : f = .receipt
      · subst isReceipt
        exact held.mpr (Or.inr copy.shown)
      · have other : party ≠ "M" := fun isM => isReceipt ((receipt_expected expected).mpr isM)
        exact (present f isReceipt).mpr
          (copy.others party (List.mem_filter.mpr ⟨member, by simpa using other⟩) f expected))
      "M" copy.expected .receipt List.mem_cons_self
    rw [copy.unregistered e inside] at registered
    cases registered
  · intro noCopy complete party member f expected
    by_contra missing
    apply noCopy
    have others : ∀ party ∈ parties, ∀ f ∈ expectedTypes party, f ≠ .receipt →
        ∃ e ∈ entries, registers K engine f e = true :=
      fun party member f expected other => (present f other).mp (complete party member f expected)
    have isReceipt : f = .receipt := by
      by_contra other
      exact missing (others party member f expected other)
    subst isReceipt
    have isM : party = "M" := (receipt_expected expected).mp rfl
    subst isM
    refine ⟨member, ?_, ?_, ?_⟩
    · intro e inside
      by_contra registered
      exact missing ⟨e, inside, by simpa using registered⟩
    · rcases held.mp (complete "M" member .receipt expected) with registered | shown
      · exact absurd registered missing
      · exact shown
    · intro other inside g wanted
      obtain ⟨listed, notM⟩ := List.mem_filter.mp inside
      apply others other listed g wanted
      intro isReceipt
      have isM : other = "M" := (receipt_expected wanted).mp isReceipt
      simp [isM] at notM

/-- A statement signed by the party of this name, whose key is this byte. -/
def signedBy (party : String) (seed : UInt8) (contentType : String) (payload : Dict) :
    SignedStatement :=
  { iss := .str party, sub := .str "urn:itx:req:1", contentType := .str contentType,
    kid := .str party, issuedAt := 0, payload, signature := .str (hex [seed]) }

def partyEngine : ReconciliationEngine :=
  { trustedKeys := [(.str "U", .str "U", [1]), (.str "R", .str "R", [2]),
    (.str "M", .str "M", [3])],
    referenceModelHashes := fields [("model-A", .str (zeros 64))], policyHash := "",
    trustKeysVersion := "",
    issuerContentTypes :=
      [(.str "U", [.str ctContract, .str ctObservation]),
      (.str "R", [.str ctRelay]), (.str "M", [.str ctReceipt])] }

/-- What the model signed and the relay showed to the user. -/
def shownOnly : SignedStatement :=
  signedBy "M" 3 ctReceipt (receiptPayload { silentReceipt with requestCommit := some zeroCommit })

/-- The log of a request whose receipt was never registered. -/
def withoutReceipt : List LogEntry :=
  [⟨1, 100, signedBy "U" 1 ctContract (contractPayload plainTerms)⟩,
   ⟨2, 200, signedBy "R" 2 ctRelay (relayPayload plainReport)⟩,
   ⟨3, 300, signedBy "U" 1 ctObservation
     (observationPayload { plainObservation with presentedReceipt := shownOnly.toDict })⟩]

/-- The verdict says that all agreed evidence is registered, and the log holds no receipt. -/
theorem complete_without_receipt : ∃ ev v,
    gather toy partyEngine (.str "urn:itx:req:1") withoutReceipt none 400 = .ok ev ∧
    reconcile toy partyEngine ev allParties = .ok v ∧ v.completeness.status = "complete" ∧
    v.completeness.note = "합의된 증거가 모두 등록됨" ∧
    ∀ e ∈ withoutReceipt, e.statement.contentType ≠ .str ctReceipt := by
  have judged : (do
      let ev ← gather toy partyEngine (.str "urn:itx:req:1") withoutReceipt none 400
      let v ← reconcile toy partyEngine ev allParties
      pure (v.completeness.status, v.completeness.note)) =
      (.ok ("complete", "합의된 증거가 모두 등록됨") : Py (String × String)) := by
    decide +kernel
  obtain ⟨ev, gathered, judged⟩ := bind_ok.mp judged
  obtain ⟨v, reconciled, said⟩ := bind_ok.mp judged
  obtain ⟨status, note⟩ := Prod.mk.inj (Except.ok.inj said)
  refine ⟨ev, v, gathered, reconciled, status, note, ?_⟩
  simp [withoutReceipt, signedBy, ctContract, ctRelay, ctObservation, ctReceipt]

theorem complete_means_registered_iff_sample : ∃ ev v,
    gather toy partyEngine (.str "urn:itx:req:1") withoutReceipt none 400 = .ok ev ∧
    reconcile toy partyEngine ev allParties = .ok v ∧
    ((v.completeness.status = "complete" →
        AllRegistered toy partyEngine withoutReceipt allParties) ↔
      ¬CopyStandsIn toy partyEngine withoutReceipt allParties) := by
  have returns : Returns (do
      let ev ← gather toy partyEngine (.str "urn:itx:req:1") withoutReceipt none 400
      reconcile toy partyEngine ev allParties) := by
    decide +kernel
  obtain ⟨v, judged⟩ := returns
  obtain ⟨ev, gathered, reconciled⟩ := bind_ok.mp judged
  exact ⟨ev, v, gathered, reconciled, complete_means_registered_iff gathered reconciled⟩

end RegisteredCompleteness
