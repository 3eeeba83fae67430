import Custody.EngineMeaning

/-!
# What a passed verdict rests on

E4 falls back from the model's observation of the request to the relay's own
word. A verdict that passes on that word is described exactly, and every other
passed verdict rests on a commitment the model signed.
-/

namespace PassedVerdict

open PyValue HexBytes Commitments Statements Schemas Evidence Equations EquationMeaning
  Discrepancies Engine EngineMeaning

/-- A commitment the contract approves: its own for the unchanged request, or the
user's expected one for an allowed transform. -/
def ContractApproves (ev : EvidenceSet) (v : Value) : Prop :=
  (memberOf (.str identity) (allowedRequests ev) = true ∧
    (field ev.c "req_commit").eq v = true) ∨
  ∃ x ∈ expectedOf ev.privateEvidence, memberOf x.1 (allowedRequests ev) = true ∧
    x.2.eq v = true

/-- The model signed the request commitment, and the contract approves it. -/
def RestsOnModel (ev : EvidenceSet) : Prop :=
  field ev.m "request_commit" ≠ .null ∧ ContractApproves ev (field ev.m "request_commit")

theorem mem_insert {d : Dict} {k v : Value} {x : Value × Value}
    (member : x ∈ PyValue.insert d k v) : x.2 = v ∨ x ∈ d := by
  induction d with
  | nil =>
    obtain rfl := List.mem_singleton.mp member
    exact Or.inl rfl
  | cons p rest ih =>
    obtain ⟨k', v'⟩ := p
    unfold PyValue.insert at member
    split at member
    next =>
      rcases List.mem_cons.mp member with rfl | member
      · exact Or.inl rfl
      · exact Or.inr (by simp [member])
    next =>
      rcases List.mem_cons.mp member with rfl | member
      · exact Or.inr (by simp)
      · rcases ih member with same | inside
        · exact Or.inl same
        · exact Or.inr (by simp [inside])

theorem mem_addExpected {allowed : List Value} {expected found : Dict} {x : Value × Value}
    (member : x ∈ expected.foldl (addExpected allowed) found) :
    x ∈ found ∨ ∃ y ∈ expected, memberOf y.1 allowed = true ∧ x.2 = y.2 := by
  induction expected generalizing found with
  | nil => exact Or.inl member
  | cons y rest ih =>
    rcases ih member with early | ⟨z, inside, permitted, same⟩
    · unfold addExpected at early
      split at early
      next permitted =>
        rcases mem_insert early with same | early
        · exact Or.inr ⟨y, by simp, permitted, same⟩
        · exact Or.inl early
      next => exact Or.inl early
    · exact Or.inr ⟨z, by simp [inside], permitted, same⟩

/-- A value that matches an approved commitment is one the contract approves. -/
theorem contractApproves_of_approved {ev : EvidenceSet} {v : Value} (h : Approved ev v) :
    ContractApproves ev v := by
  obtain ⟨x, member, same⟩ := h
  rcases mem_addExpected member with base | ⟨y, expected, permitted, equal⟩
  · unfold approvedBase at base
    split at base
    next permitted =>
      obtain rfl := List.mem_singleton.mp base
      exact Or.inl ⟨permitted, same⟩
    next => cases base
  · exact Or.inr ⟨y, expected, permitted, equal ▸ same⟩

variable (K : Primitives)

/-- Every check passes while the model said nothing about the request it was sent,
and only the relay's `out_commit` stands for it. -/
structure RelayWordSuffices (ev : EvidenceSet) : Prop where
  silent : field ev.m "request_commit" = .null
  contract : ev.c.isSome
  relay : ev.r.isSome
  receipt : ev.m.isSome
  observation : ev.o.isSome
  inPlace : ¬ OutOfPlace K ev
  opened : ∃ p commitment, ev.privateEvidence = some p ∧
    commitHex K p.salt p.requestHash = .ok commitment ∧
    field ev.c "req_commit" = .str commitment
  received : Agree (field ev.r "in_commit") (field ev.c "req_commit")
  declared : RequestDeclared ev
  claimed : Approved ev (field ev.r "out_commit")
  modelNonce : (field ev.m "eat_nonce").eq (field ev.c "nonce") = true
  relayNonce : (field ev.r "nonce_forwarded").eq (field ev.c "nonce") = true
  signed : field ev.m "response_commit" ≠ .null
  delivered : (field ev.m "response_commit").eq (field ev.o "resp_commit") = true
  unchanged : allowedResponses ev = [.str identity]
  responseDeclared : ResponseDeclared ev
  relayIn : field ev.r "resp_in_commit" ≠ .null →
    Agree (field ev.m "response_commit") (field ev.r "resp_in_commit")
  relayOut : field ev.r "resp_out_commit" ≠ .null →
    Agree (field ev.r "resp_out_commit") (field ev.o "resp_commit")
  routed : ServedAsRequested ev ∨ ServedAllowed ev ∧
    field ev.c "fallback_policy" ≠ .str "none" ∧ field ev.r "policy_decision" = .str "fallback"
  referenced : referenceOf ev ≠ .null
  artifact : Agree (field ev.m "model_hash") (referenceOf ev)
  attempts : SameAttempts ev
  unexpired : less true (field ev.o "received_at") (field ev.c "expires_at") = .ok true

variable {K}

/-- A decided equation of an unbroken evidence set holds. -/
theorem holds_of_unbroken {ev : EvidenceSet} (unbroken : ¬ Broken K ev) {k : EqId}
    (decided : Decided k ev) : Holds K k ev := by
  by_contra fails
  exact unbroken ⟨k, decided, fails⟩

theorem relayWordSuffices_of_passing {ev : EvidenceSet} (passing : Passing K ev)
    (silent : field ev.m "request_commit" = .null) : RelayWordSuffices K ev := by
  have required := passing.required
  have e1 := required .e1 (by decide)
  have e4 := required .e4 (by decide)
  have e5 := required .e5 (by decide)
  have e8 := required .e8 (by decide)
  have e9 := required .e9 (by decide)
  have e10 := required .e10 (by decide)
  have e11 := required .e11 (by decide)
  have e12 := required .e12 (by decide)
  obtain ⟨seen, isSeen, approvedSeen⟩ := e4.2.2
  have byRelay : ev.r.isSome ∧ field ev.r "out_commit" = seen := by
    unfold commitSeen at isSeen
    rw [silent] at isSeen
    cases hr : ev.r with
    | none => simp [hr, Value.isNone] at isSeen
    | some r => simpa [hr, Value.isNone, field] using isSeen
  have only : allowedResponses ev = [.str identity] := by
    rcases e10.1.2.2 with illegal | only
    · exact absurd e10.2.1 illegal
    · exact only
  exact {
    silent
    contract := e1.1.1
    relay := byRelay.1
    receipt := e9.1.1
    observation := e12.1.2
    inPlace := passing.inPlace
    opened := e1.2
    received := holds_of_unbroken passing.unbroken (k := .e2) ⟨e1.1.1, byRelay.1⟩
    declared := e4.2.1
    claimed := byRelay.2 ▸ approvedSeen
    modelNonce := e5.2.1 e9.1.1
    relayNonce := e5.2.2 byRelay.1
    signed := e10.1.1
    delivered := e10.2.2
    unchanged := only
    responseDeclared := e10.2.1
    relayIn := fun stated => holds_of_unbroken passing.unbroken (k := .e6) ⟨e10.1.1, stated⟩
    relayOut := fun stated => holds_of_unbroken passing.unbroken (k := .e7) ⟨e12.1.2, stated⟩
    routed := e8.2
    referenced := e9.1.2
    artifact := e9.2
    attempts := e11.2
    unexpired := e12.2 }

theorem passing_of_relayWordSuffices {ev : EvidenceSet} (h : RelayWordSuffices K ev) :
    Passing K ev := by
  have seen : commitSeen ev = some (field ev.r "out_commit") := by
    obtain ⟨r, hr⟩ := Option.isSome_iff_exists.mp h.relay
    unfold commitSeen
    rw [h.silent]
    simp [hr, field, Value.isNone]
  have two : 2 ≤ (attemptIds ev).length := by
    obtain ⟨c, hc⟩ := Option.isSome_iff_exists.mp h.contract
    obtain ⟨m, hm⟩ := Option.isSome_iff_exists.mp h.receipt
    obtain ⟨r, hr⟩ := Option.isSome_iff_exists.mp h.relay
    simp [attemptIds, hc, hm, hr]
  have isSeen : SeenApproved ev := ⟨_, seen, h.claimed⟩
  obtain ⟨p, commitment, given, opened, stated⟩ := h.opened
  have holds : ∀ k, k ≠ .e3 → Decided k ev → Holds K k ev := by
    intro k notE3 decided
    cases k with
    | e1 => exact h.opened
    | e2 => exact h.received
    | e3 => exact absurd rfl notE3
    | e4 => exact ⟨h.declared, isSeen⟩
    | e5 => exact ⟨fun _ => h.modelNonce, fun _ => h.relayNonce⟩
    | e6 => exact h.relayIn decided.2
    | e7 => exact h.relayOut decided.2
    | e8 => exact h.routed
    | e9 => exact h.artifact
    | e10 => exact ⟨h.responseDeclared, h.delivered⟩
    | e11 => exact h.attempts
    | e12 => exact h.unexpired
  refine ⟨h.inPlace, ?_, ?_⟩
  · rintro ⟨k, decided, fails⟩
    by_cases e3 : k = .e3
    · subst e3
      exact decided.2 h.silent
    · exact fails (holds k e3 decided)
  · intro k required
    have decided : k ≠ .e3 ∧ Decided k ev := by
      simp only [requiredForPass, List.mem_cons, List.not_mem_nil, or_false] at required
      rcases required with rfl | rfl | rfl | rfl | rfl | rfl | rfl | rfl
      · exact ⟨by decide, h.contract, by simp [given]⟩
      · exact ⟨by decide, h.contract, by simp [seen], Or.inr (Or.inl isSeen)⟩
      · exact ⟨by decide, h.contract, Or.inl h.receipt⟩
      · exact ⟨by decide, h.contract, Or.inl h.receipt, Or.inr (Or.inr (Or.inr h.relay))⟩
      · exact ⟨by decide, h.receipt, h.referenced⟩
      · exact ⟨by decide, h.signed, h.observation, Or.inr h.unchanged⟩
      · exact ⟨by decide, two⟩
      · exact ⟨by decide, h.contract, h.observation⟩
    exact ⟨decided.2, holds k decided.1 decided.2⟩

/-- A passed verdict rests on the model's signed request commitment exactly when
the relay's word did not suffice. -/
theorem passed_rests_on_model_iff {engine : ReconciliationEngine} {ev : EvidenceSet}
    {parties : List String} {v : Verdict} (judged : reconcile K engine ev parties = .ok v) :
    (v.status = .passed → RestsOnModel ev) ↔ ¬ RelayWordSuffices K ev := by
  rw [reconcile_passed judged]
  constructor
  · intro rests suffices_
    exact (rests (passing_of_relayWordSuffices suffices_)).1 suffices_.silent
  · intro insufficient passing
    have spoken : field ev.m "request_commit" ≠ .null := fun silent =>
      insufficient (relayWordSuffices_of_passing passing silent)
    obtain ⟨seen, isSeen, approvedSeen⟩ := (passing.required .e4 (by decide)).2.2
    have byModel : field ev.m "request_commit" = seen := by
      unfold commitSeen at isSeen
      rw [(isNone_false_iff _).mpr spoken] at isSeen
      simpa using isSeen
    exact ⟨spoken, byModel ▸ contractApproves_of_approved approvedSeen⟩

/-- Every payload gathered satisfies its schema. -/
structure WellFormed (K : Primitives) (ev : EvidenceSet) : Prop where
  contract : ∀ s ∈ ev.contract, validatePayload K (.str ctContract) s.payload = .ok []
  relay : ∀ s ∈ ev.relay, validatePayload K (.str ctRelay) s.payload = .ok []
  receipt : ∀ s ∈ ev.receipt, validatePayload K (.str ctReceipt) s.payload = .ok []
  observation : ∀ s ∈ ev.observation, validatePayload K (.str ctObservation) s.payload = .ok []

def zeros (n : Nat) : String := String.ofList (List.replicate n '0')

/-- The commitment to a zero hash under a zero salt. -/
def zeroCommit : String := hex (toyHash (List.replicate 64 0))

def unsigned (contentType : String) (payload : Dict) : SignedStatement :=
  { iss := .str "urn:itx:party", sub := .str "urn:itx:req:1", contentType := .str contentType,
    kid := .str "kid", issuedAt := 0, payload, signature := .str "" }

def plainTerms : ContractTerms :=
  { attemptId := "att-001", sessionId := "session-1", sessionSeq := 1, nonce := zeros 64,
    reqCommit := zeroCommit, requestedModel := "model-A", allowedModels := ["model-A"],
    fallbackPolicy := "none", allowedRequestTransforms := [identity],
    allowedResponseTransforms := [identity], relayId := "relay-1", expiresAt := 5000,
    clientTime := 0, enforcementMode := "strict" }

def plainReport : RelayReport :=
  { attemptId := "att-001", inCommit := zeroCommit, outCommit := zeroCommit,
    requestTransformId := identity, upstreamId := "m", upstreamModel := "model-A",
    respInCommit := some zeroCommit, respOutCommit := some zeroCommit,
    responseTransformId := identity, policyVersion := "1", policyDecision := "forwarded",
    nonceForwarded := some (zeros 64), saltForwarded := true, relaySeq := 1 }

def silentReceipt : ReceiptReport :=
  { cti := "cti-0001", attemptId := .str "att-001", requestCommit := none,
    responseCommit := some zeroCommit, modelId := .str "model-A",
    modelVersion := .str "2026.09", modelHash := .str (zeros 64), eatNonce := .str (zeros 64),
    executionTimeMs := 200, preExecCheck := "skipped", decision := "served",
    attestationDocHash := zeros 64 }

def plainObservation : ObservationReport :=
  { attemptId := "att-001", respCommit := zeroCommit, receivedAt := 300,
    inlineReceiptHash := none, inlineRelayHash := none }

def silentEvidence : EvidenceSet :=
  { sub := .str "urn:itx:req:1",
    contract := some (unsigned ctContract (contractPayload plainTerms)),
    relay := some (unsigned ctRelay (relayPayload plainReport)),
    receipt := some (unsigned ctReceipt (receiptPayload silentReceipt)),
    observation := some (unsigned ctObservation (observationPayload plainObservation)),
    privateEvidence := some { salt := .str (zeros 64), requestHash := .str (zeros 64) },
    referenceModelHashes := fields [("model-A", .str (zeros 64))] }

def plainEngine : ReconciliationEngine :=
  { trustedKeys := [], referenceModelHashes := [], policyHash := "", trustKeysVersion := "",
    issuerContentTypes := [] }

def allParties : List String := ["U", "R", "M"]

theorem silentEvidence_wellFormed : WellFormed toy silentEvidence := by
  constructor
  · rintro s ⟨⟩
    decide +kernel
  · rintro s ⟨⟩
    decide +kernel
  · rintro s ⟨⟩
    decide +kernel
  · rintro s ⟨⟩
    decide +kernel

/-- The verdict passes although the model never signed what it was sent. -/
theorem passed_on_relay_word : WellFormed toy silentEvidence ∧
    ∃ v, reconcile toy plainEngine silentEvidence allParties = .ok v ∧ v.status = .passed ∧
      ¬ RestsOnModel silentEvidence := by
  have passes : (reconcile toy plainEngine silentEvidence allParties).map Verdict.status =
      .ok .passed := by decide +kernel
  obtain ⟨v, judged, passed⟩ := map_ok passes
  refine ⟨silentEvidence_wellFormed, v, judged, passed, ?_⟩
  rintro ⟨spoken, -⟩
  exact spoken rfl

theorem passed_rests_on_model_iff_silent : ∃ v,
    reconcile toy plainEngine silentEvidence allParties = .ok v ∧
    ((v.status = .passed → RestsOnModel silentEvidence) ↔
      ¬ RelayWordSuffices toy silentEvidence) := by
  have returns : Returns (reconcile toy plainEngine silentEvidence allParties) := by
    decide +kernel
  obtain ⟨v, judged⟩ := returns
  exact ⟨v, judged, passed_rests_on_model_iff judged⟩

end PassedVerdict
