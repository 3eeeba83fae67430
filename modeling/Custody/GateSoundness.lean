import Custody.UserGate
import Custody.WithoutEvidence

/-!
# Soundness of the gate

An accepted response has passed every local check that can fail, and every
required one; a verdict can only take acceptance away.
-/

namespace GateSoundness

open PyValue HexBytes Commitments Statements Schemas Evidence UserGate PassedVerdict WithoutEvidence

variable {K : Primitives}

/-- No check failed and no required check is open. -/
structure Clean (checks : Checks) : Prop where
  unfailed : ∀ x ∈ checks, x.2.result ≠ .fail
  closed : ∀ x ∈ checks, x.1 ∈ requiredLocalChecks → x.2.result ≠ .na

theorem named_empty {checks : Checks} {result : Outcome} :
    named checks result = [] ↔ ∀ x ∈ checks, x.2.result ≠ result := by
  simp [named]

theorem openRequired_empty {checks : Checks} :
    openRequired checks = [] ↔
      ∀ x ∈ checks, x.1 ∈ requiredLocalChecks → x.2.result ≠ .na := by
  rw [openRequired, List.filter_eq_nil_iff]
  constructor
  · intro none x member required open_
    have listed : x.1 ∈ named checks .na :=
      List.mem_map_of_mem (List.mem_filter.mpr ⟨member, by simpa using open_⟩)
    exact none x.1 listed (by simpa using required)
  · intro closed name listed required
    obtain ⟨x, member, rfl⟩ := List.mem_map.mp listed
    obtain ⟨member, open_⟩ := List.mem_filter.mp member
    exact closed x member (by simpa using required) (by simpa using open_)

/-- Outside observe mode a response is accepted exactly when the checks are clean and,
in strict mode, the verdict passed. -/
theorem accept_iff {gate : Gate} (enforcing : gate.mode ≠ .observe) (checks : Checks)
    (status : Value) (deadlineHit : Bool) :
    (decideAction K gate checks status deadlineHit).1 = .accept ↔
      Clean checks ∧ (gate.mode = .protect ∨ status = .str "passed") := by
  have clean : Clean checks ↔ named checks .fail = [] ∧ openRequired checks = [] := by
    rw [named_empty, openRequired_empty]
    exact ⟨fun h => ⟨h.unfailed, h.closed⟩, fun h => ⟨h.1, h.2⟩⟩
  rw [clean, ← eq_str_right "passed" status]
  simp only [decideAction]
  cases mode : gate.mode with
  | observe => exact absurd mode enforcing
  | protect =>
    cases named checks .fail with
    | cons x xs => simp
    | nil => cases openRequired checks <;> simp
  | strict =>
    cases named checks .fail with
    | cons x xs => simp
    | nil =>
      cases openRequired checks with
      | cons x xs => simp
      | nil =>
        cases status.eq (.str "passed") with
        | true => simp
        | false =>
          cases status.eq (.str "failed") with
          | true => simp
          | false => cases deadlineHit <;> simp

theorem never_unverified {gate : Gate} (enforcing : gate.mode ≠ .observe) (checks : Checks)
    (status : Value) (deadlineHit : Bool) :
    (decideAction K gate checks status deadlineHit).1 ≠ .acceptUnverified := by
  simp only [decideAction]
  cases mode : gate.mode with
  | observe => exact absurd mode enforcing
  | _ => split_ifs <;> simp

/-- Outside observe mode a response is consumed exactly when it is accepted. -/
theorem consumed_iff {gate : Gate} (enforcing : gate.mode ≠ .observe) (checks : Checks)
    (receivedAt now : Int) (status : Value) (deadlineHit : Bool) :
    (decideGate K gate checks receivedAt now status deadlineHit).consumedAt.isSome = true ↔
      (decideGate K gate checks receivedAt now status deadlineHit).action = .accept := by
  have never := never_unverified (K := K) enforcing checks status deadlineHit
  simp only [decideGate]
  cases action : (decideAction K gate checks status deadlineHit).1 with
  | acceptUnverified => exact absurd action never
  | _ => simp

/-- The model is the one requested, or an allowed fallback that the relay declared. -/
def RouteAllowed (contract : Dict) (model : Value) (relay : Option SignedStatement) : Prop :=
  model.eq (getOr contract "requested_model") = true ∨
  isIn model (getOr contract "allowed_models") = .ok true ∧
    getOr contract "fallback_policy" ≠ .str "none" ∧
    ∃ r, relay = some r ∧ getOr r.payload "policy_decision" = .str "fallback"

/-- The contract's own commitment, or the expected one of an allowed transform. -/
def RequestApproved (contract expected : Dict) (seen : Value) : Prop :=
  (isIn (.str identity) (getOr contract "allowed_request_transforms") = .ok true ∧
    seen.eq (getOr contract "req_commit") = true) ∨
  ∃ x ∈ expected, isIn x.1 (getOr contract "allowed_request_transforms") = .ok true ∧
    seen.eq x.2 = true

structure Sound (K : Primitives) (gate : Gate) (contract expected : Dict)
    (receivedCommit responseBody : Value) (relay : Option SignedStatement) (now : Int)
    (receipt : SignedStatement) : Prop where
  signature : ∃ publicKey, find gate.trustedModelKeys receipt.kid = some publicKey ∧
    receipt.verifyWith K publicKey = .ok true
  nonce : (getOr receipt.payload "eat_nonce").eq (getOr contract "nonce") = true
  attempt : (getOr receipt.payload "attempt_id").eq (getOr contract "attempt_id") = true
  request : RequestApproved contract expected (getOr receipt.payload "request_commit")
  response : (getOr receipt.payload "response_commit").eq receivedCommit = true
  unexpired : less true (.int now) (getOr contract "expires_at") = .ok true
  artifact : ∀ ref, find gate.referenceModelHashes
    ((find receipt.payload (.str "model_id")).getD (.str "")) = some ref → ref ≠ .null →
    (getOr receipt.payload "model_hash").eq ref = true
  tool : gate.allowToolDirectives = true ∨ responseBody = .null ∨
    responseBody.get "tool_call" .null = .ok .null
  route : getOr receipt.payload "model_id" ≠ .null →
    RouteAllowed contract (getOr receipt.payload "model_id") relay

@[simp] theorem check_result (name : String) (result : Outcome) (reason : String) :
    (check name result reason).2.result = result := rfl

@[simp] theorem check_name (name : String) (result : Outcome) (reason : String) :
    (check name result reason).1 = name := rfl

theorem passOr_unfailed {ok : Bool} (h : passOr ok ≠ .fail) : ok = true := by
  cases ok with
  | true => rfl
  | false => exact absurd rfl h

theorem routeForbidden_false {contract : Dict} {model : Value}
    (made : routeForbidden contract model = .ok false) :
    isIn model (getOr contract "allowed_models") = .ok true ∧
      getOr contract "fallback_policy" ≠ .str "none" := by
  simp only [routeForbidden, bind_ok] at made
  obtain ⟨models, hm, allowed, ha, made⟩ := made
  cases allowed with
  | false => simp at made
  | true =>
    simp only [if_true, bind_ok, pure_ok, Except.ok.injEq] at made
    obtain ⟨policy, hp, made⟩ := made
    refine ⟨by rw [getItem_getOr hm]; exact ha, ?_⟩
    rw [getItem_getOr hp]
    intro none_
    simp [none_] at made

theorem routeCheck_ok {contract : Dict} {model : Value} {relay : Option SignedStatement}
    {x : String × Check} (made : routeCheck K contract model relay = .ok x)
    (unfailed : x.2.result ≠ .fail) (named : model ≠ .null) :
    RouteAllowed contract model relay := by
  have some_ : model.isNone = false := by
    cases h : model.isNone with
    | true => exact absurd ((isNone_iff _).mp h) named
    | false => rfl
  rw [routeCheck, some_, if_neg Bool.false_ne_true, bind_ok] at made
  obtain ⟨requested, hr, made⟩ := made
  by_cases same : model.eq requested = true
  · exact .inl (by rw [getItem_getOr hr]; exact same)
  · rw [if_neg same, bind_ok] at made
    obtain ⟨forbidden, hf, made⟩ := made
    cases forbidden with
    | true =>
      simp only [if_true, pure_ok, Except.ok.injEq] at made
      subst x
      exact absurd rfl unfailed
    | false =>
      simp only [Bool.false_eq_true, if_false, pure_ok, Except.ok.injEq] at made
      subst x
      have declared := passOr_unfailed unfailed
      obtain ⟨allowed, policy⟩ := routeForbidden_false hf
      refine .inr ⟨allowed, policy, ?_⟩
      cases relay with
      | none => simp [fallbackDeclared] at declared
      | some r => exact ⟨r, rfl, by simpa [fallbackDeclared] using declared⟩

theorem expectedCommits_ok {allowed : Value} {expected : Dict} {commits : List Value}
    (made : expectedCommits allowed expected = .ok commits) :
    ∀ c ∈ commits, ∃ x ∈ expected, isIn x.1 allowed = .ok true ∧ c = x.2 := by
  induction expected generalizing commits with
  | nil =>
    simp only [expectedCommits, Except.ok.injEq] at made
    subst made
    simp
  | cons x rest ih =>
    obtain ⟨t, c⟩ := x
    simp only [expectedCommits, bind_ok] at made
    obtain ⟨member, hm, made⟩ := made
    intro d hd
    cases member with
    | false =>
      obtain ⟨y, hy, found⟩ := ih made d hd
      exact ⟨y, List.mem_cons_of_mem _ hy, found⟩
    | true =>
      cases hashable : c.hashable with
      | false => simp [hashable] at made
      | true =>
        simp only [hashable, if_true, bind_ok, pure_ok, Except.ok.injEq] at made
        obtain ⟨more, made, rfl⟩ := made
        rcases List.mem_cons.mp hd with rfl | hd
        · exact ⟨(t, d), by simp, hm, rfl⟩
        · obtain ⟨y, hy, found⟩ := ih made d hd
          exact ⟨y, List.mem_cons_of_mem _ hy, found⟩

theorem ownCommit_ok {contract : Dict} {allowed : Value} {own : List Value}
    (made : ownCommit contract allowed = .ok own) :
    ∀ c ∈ own, isIn (.str identity) allowed = .ok true ∧ c = getOr contract "req_commit" := by
  rw [ownCommit, bind_ok] at made
  obtain ⟨identical, hi, made⟩ := made
  intro c hc
  cases identical with
  | false =>
    simp only [Bool.false_eq_true, if_false, pure_ok, Except.ok.injEq] at made
    simp [← made] at hc
  | true =>
    simp only [if_true, bind_ok] at made
    obtain ⟨commit, hk, made⟩ := made
    by_cases hashable : commit.hashable = true
    · rw [if_pos hashable, pure_ok, Except.ok.injEq] at made
      have : c = commit := by simpa [← made] using hc
      exact ⟨hi, by rw [getItem_getOr hk, this]⟩
    · rw [if_neg hashable] at made
      cases made

theorem approvedSet_ok {contract expected : Dict} {approved : List Value}
    (made : approvedSet contract expected = .ok approved) {seen : Value}
    (member : memberOf seen approved = true) : RequestApproved contract expected seen := by
  simp only [approvedSet, bind_ok, pure_ok, Except.ok.injEq] at made
  obtain ⟨allowed, ha, own, ho, commits, hc, rfl⟩ := made
  obtain ⟨c, hmem, same⟩ := List.any_eq_true.mp member
  rcases List.mem_append.mp hmem with hmem | hmem
  · left
    obtain ⟨hi, rfl⟩ := ownCommit_ok ho c hmem
    exact ⟨by rw [getItem_getOr ha]; exact hi, same⟩
  · right
    obtain ⟨x, hx, hin, rfl⟩ := expectedCommits_ok hc c hmem
    exact ⟨x, hx, by rw [getItem_getOr ha]; exact hin, same⟩

theorem requestBinding_ok {contract expected m : Dict} {x : String × Check}
    (made : requestBinding contract expected m = .ok x) :
    x.1 = "request_binding" ∧
      (x.2.result = .pass → RequestApproved contract expected (getOr m "request_commit")) := by
  simp only [requestBinding, bind_ok] at made
  obtain ⟨approved, happ, made⟩ := made
  by_cases hashable : (!(getOr m "request_commit").hashable) = true
  · rw [if_pos hashable] at made
    cases made
  · rw [if_neg hashable] at made
    by_cases member : memberOf (getOr m "request_commit") approved = true
    · rw [if_pos member, pure_ok, Except.ok.injEq] at made
      subst x
      exact ⟨rfl, fun _ => approvedSet_ok happ member⟩
    · rw [if_neg member] at made
      simp only [bind_ok] at made
      obtain ⟨v, -, allowed, -, unexpected, -, made⟩ := made
      cases unexpected with
      | true =>
        simp only [if_true, pure_ok, Except.ok.injEq] at made
        subst x
        exact ⟨rfl, by simp⟩
      | false =>
        simp only [Bool.false_eq_true, if_false, pure_ok, Except.ok.injEq] at made
        subst x
        exact ⟨rfl, by simp⟩

theorem modelHashReference_ok {gate : Gate} {m : Dict} {x : String × Check}
    (made : modelHashReference gate m = .ok x) (unfailed : x.2.result ≠ .fail) {ref : Value}
    (registered : find gate.referenceModelHashes
      ((find m (.str "model_id")).getD (.str "")) = some ref) (present : ref ≠ .null) :
    (getOr m "model_hash").eq ref = true := by
  simp only [modelHashReference, bind_ok] at made
  obtain ⟨found, hl, made⟩ := made
  rw [lookup] at hl
  by_cases hashable : ((find m (.str "model_id")).getD (.str "")).hashable = true
  · rw [if_pos hashable, Except.ok.injEq] at hl
    subst found
    rw [registered, Option.getD_some] at made
    by_cases none_ : ref.isNone = true
    · exact absurd ((isNone_iff _).mp none_) present
    · rw [if_neg none_, pure_ok, Except.ok.injEq] at made
      subst x
      exact passOr_unfailed unfailed
  · rw [if_neg hashable] at hl
    cases hl

theorem toolPolicy_ok {gate : Gate} {responseBody : Value} {x : String × Check}
    (made : toolPolicy K gate responseBody = .ok x) (unfailed : x.2.result ≠ .fail) :
    gate.allowToolDirectives = true ∨ toolCall responseBody = .ok .null := by
  rw [toolPolicy, bind_ok] at made
  obtain ⟨call, hc, made⟩ := made
  by_cases none_ : call.isNone = true
  · exact .inr (by rw [hc, (isNone_iff _).mp none_])
  · rw [if_neg none_] at made
    by_cases directives : gate.allowToolDirectives = true
    · exact .inl directives
    · rw [if_neg directives, pure_ok, Except.ok.injEq] at made
      subst x
      exact absurd rfl unfailed

theorem signatureOk_true {gate : Gate} {receipt : SignedStatement}
    (verified : signatureOk K gate receipt = .ok true) :
    ∃ publicKey, find gate.trustedModelKeys receipt.kid = some publicKey ∧
      receipt.verifyWith K publicKey = .ok true := by
  rw [signatureOk, bind_ok] at verified
  obtain ⟨found, hl, verified⟩ := verified
  rw [lookup] at hl
  by_cases hashable : receipt.kid.hashable = true
  · rw [if_pos hashable, Except.ok.injEq] at hl
    subst found
    cases key : find gate.trustedModelKeys receipt.kid with
    | none =>
      rw [key] at verified
      cases verified
    | some publicKey =>
      rw [key] at verified
      exact ⟨publicKey, rfl, verified⟩
  · rw [if_neg hashable] at hl
    cases hl

/-- The checks of a verified receipt, when nothing failed and nothing required is open. -/
theorem signedChecks_ok {gate : Gate} {contract expected m : Dict} {receivedCommit : Value}
    {relay : Option SignedStatement} {rest checks : Checks}
    (made : signedChecks K gate contract expected receivedCommit m relay = .ok rest)
    (clean : Clean checks) (sub : ∀ x ∈ rest, x ∈ checks) :
    (getOr m "eat_nonce").eq (getOr contract "nonce") = true ∧
    (getOr m "attempt_id").eq (getOr contract "attempt_id") = true ∧
    RequestApproved contract expected (getOr m "request_commit") ∧
    (getOr m "response_commit").eq receivedCommit = true ∧
    (∀ ref, find gate.referenceModelHashes ((find m (.str "model_id")).getD (.str "")) = some ref →
      ref ≠ .null → (getOr m "model_hash").eq ref = true) ∧
    (getOr m "model_id" ≠ .null → RouteAllowed contract (getOr m "model_id") relay) := by
  simp only [signedChecks, bind_ok, pure_ok, Except.ok.injEq] at made
  obtain ⟨nonce, hn, request, hq, attempt, ha, model, hm, route, hr, rfl⟩ := made
  simp only [List.mem_cons, List.not_mem_nil, or_false, forall_eq_or_imp, forall_eq] at sub
  obtain ⟨sn, sq, sr, sa, sm, sp⟩ := sub
  obtain ⟨name, approved⟩ := requestBinding_ok hq
  have request_pass : request.2.result = .pass := by
    have unfailed := clean.unfailed _ sq
    have closed := clean.closed _ sq (by simp [name, requiredLocalChecks])
    cases h : request.2.result with
    | pass => rfl
    | fail => exact absurd h unfailed
    | na => exact absurd h closed
  refine ⟨?_, ?_, approved request_pass, passOr_unfailed (clean.unfailed _ sr), ?_, ?_⟩
  · rw [getItem_getOr hn]
    exact passOr_unfailed (clean.unfailed _ sn)
  · rw [getItem_getOr ha]
    exact passOr_unfailed (clean.unfailed _ sa)
  · intro ref registered present
    exact modelHashReference_ok hm (clean.unfailed _ sm) registered present
  · exact routeCheck_ok hr (clean.unfailed _ sp)

/-- Clean local checks leave no way around any of the conditions on the receipt. -/
theorem sound_of_clean {gate : Gate} {contract expected : Dict} {receivedCommit : Value}
    {responseBody : Value} {receipt relay : Option SignedStatement} {now : Int} {checks : Checks}
    (made : localChecks K gate contract receivedCommit responseBody receipt relay now expected
      = .ok checks)
    (clean : Clean checks) :
    ∃ r, receipt = some r ∧
      Sound K gate contract expected receivedCommit responseBody relay now r := by
  simp only [localChecks, bind_ok, pure_ok, Except.ok.injEq] at made
  obtain ⟨limit, hl, fresh, hf, ofReceipt, ho, route, -, tool, ht, rfl⟩ := made
  have unexpired : fresh = true := passOr_unfailed (clean.unfailed _ List.mem_cons_self)
  have tools := toolPolicy_ok ht (clean.unfailed tool (by simp))
  cases receipt with
  | none =>
    simp only [receiptChecks, Except.ok.injEq] at ho
    subst ofReceipt
    exact absurd rfl (clean.unfailed _ (List.mem_cons_of_mem _ List.mem_cons_self))
  | some r =>
    refine ⟨r, rfl, ?_⟩
    simp only [receiptChecks, bind_ok, pure_ok, Except.ok.injEq] at ho
    obtain ⟨ok, hs, rest, hv, rfl⟩ := ho
    have verified : ok = true := passOr_unfailed (clean.unfailed _
      (List.mem_cons_of_mem _ (List.mem_cons_of_mem _ List.mem_cons_self)))
    subst ok
    rw [verifiedChecks] at hv
    obtain ⟨nonce, attempt, request, response, artifact, routed⟩ :=
      signedChecks_ok hv clean (by
        intro x hx
        simp [hx])
    refine ⟨signatureOk_true hs, nonce, attempt, request, response, ?_, artifact, ?_, routed⟩
    · subst fresh
      rw [getItem_getOr hl]
      exact hf
    · rcases tools with directives | none_
      · exact .inl directives
      · right
        cases responseBody with
        | null => exact .inl rfl
        | _ => exact .inr none_

/-- Accepting outside observe mode: the conditions on the receipt hold; strict accepts only
where protect does, on a passed verdict; and no verdict overrides a failed or open check. -/
theorem accepted_sound {gate : Gate} (enforcing : gate.mode ≠ .observe) {contract expected : Dict}
    {receivedCommit responseBody : Value} {receipt relay : Option SignedStatement} {now : Int}
    {checks : Checks}
    (made : localChecks K gate contract receivedCommit responseBody receipt relay now expected
      = .ok checks)
    (receivedAt decidedAt : Int) (status : Value) (deadlineHit : Bool) :
    (((decideGate K gate checks receivedAt decidedAt status deadlineHit).action = .accept ∨
        (decideGate K gate checks receivedAt decidedAt status deadlineHit).consumedAt ≠ none) →
      ∃ r, receipt = some r ∧
        Sound K gate contract expected receivedCommit responseBody relay now r) ∧
    (gate.mode = .strict →
      (decideGate K gate checks receivedAt decidedAt status deadlineHit).action = .accept →
      (decideGate K { gate with mode := .protect } checks receivedAt decidedAt status
        deadlineHit).action = .accept ∧ status = .str "passed") ∧
    ((∃ x ∈ checks, x.2.result = .fail ∨ x.1 ∈ requiredLocalChecks ∧ x.2.result = .na) →
      ∀ status' deadlineHit',
        (decideGate K gate checks receivedAt decidedAt status' deadlineHit').action ≠ .accept ∧
        (decideGate K gate checks receivedAt decidedAt status' deadlineHit').consumedAt =
          none) := by
  have accepts := accept_iff (K := K) enforcing checks
  refine ⟨?_, ?_, ?_⟩
  · intro used
    have accepted : (decideGate K gate checks receivedAt decidedAt status deadlineHit).action
        = .accept := by
      rcases used with accepted | consumed
      · exact accepted
      · exact (consumed_iff enforcing _ _ _ _ _).mp (Option.isSome_iff_ne_none.mpr consumed)
    exact sound_of_clean made ((accepts status deadlineHit).mp accepted).1
  · intro strict accepted
    obtain ⟨clean, permitted⟩ := (accepts status deadlineHit).mp accepted
    have protecting : { gate with mode := .protect }.mode ≠ .observe := by
      rintro ⟨⟩
    refine ⟨(accept_iff protecting checks status deadlineHit).mpr ⟨clean, .inl rfl⟩, ?_⟩
    rcases permitted with protect | passed
    · rw [strict] at protect
      cases protect
    · exact passed
  · rintro ⟨x, hx, blocked⟩ status' deadlineHit'
    have refused : (decideGate K gate checks receivedAt decidedAt status' deadlineHit').action
        ≠ .accept := by
      intro accepted
      have clean := ((accepts status' deadlineHit').mp accepted).1
      rcases blocked with failed | ⟨required, open_⟩
      · exact clean.unfailed x hx failed
      · exact clean.closed x hx required open_
    refine ⟨refused, ?_⟩
    by_contra consumed
    exact refused ((consumed_iff enforcing _ _ _ _ _).mp (Option.isSome_iff_ne_none.mpr consumed))

def strictGate : Gate :=
  { mode := .strict, trustedModelKeys := [(.str "kid-m", modelKey.publicKey toy)],
    referenceModelHashes := fields [("model-A", .str (zeros 64))] }

def boundReceipt : SignedStatement :=
  signedWith modelKey "m" "urn:itx:req:1" ctReceipt
    (receiptPayload { silentReceipt with requestCommit := some zeroCommit }) 200

/-- The checks of a receipt that binds the request and the response. -/
def boundChecks : Py Checks :=
  localChecks toy strictGate (contractPayload plainTerms) (.str zeroCommit) (.dict [])
    (some boundReceipt) none 300 []

theorem accepted_sound_bound : ∃ checks, boundChecks = .ok checks ∧
    (decideGate toy strictGate checks 300 310 (.str "passed") false).action = .accept ∧
    (∃ r, some boundReceipt = some r ∧
      Sound toy strictGate (contractPayload plainTerms) [] (.str zeroCommit) (.dict []) none 300
        r) ∧
    (decideGate toy { strictGate with mode := .protect } checks 300 310 (.str "passed")
      false).action = .accept := by
  have accepts : boundChecks.map (fun checks =>
      (decideGate toy strictGate checks 300 310 (.str "passed") false).action) = .ok .accept := by
    decide +kernel
  obtain ⟨checks, made, accepted⟩ := map_ok accepts
  have enforcing : strictGate.mode ≠ .observe := by decide
  obtain ⟨sound, strict, -⟩ := accepted_sound enforcing made 300 310 (.str "passed") false
  exact ⟨checks, made, accepted, sound (.inl accepted), (strict rfl accepted).1⟩

end GateSoundness
