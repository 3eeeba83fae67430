import Custody.Equality
import Custody.GateSoundness
import Custody.Judgeability

/-!
# The gate agrees with a passed verdict

The third party's equations and the user's local checks state the same rules in two
ways. Where the equations pass on a receipt that names the request it served, every
local check passes on the same statements, apart from the one on tool directives that
the equations do not know.
-/

namespace GateAgreement

open PyValue Equality HexBytes Commitments Statements Schemas Evidence Equations EquationMeaning
  Engine EngineMeaning Judgeability UserGate PassedVerdict GateSoundness

variable {K : Primitives}

/-- A dictionary from texts to texts. -/
def textFields (xs : List (String × String)) : Dict := fields (xs.map fun x => (x.1, .str x.2))

/-- The contract names its attempt, as its schema requires, and the two dictionaries have the
types declared for them. -/
structure Typed (ev : EvidenceSet) : Prop where
  attempt : ∀ s ∈ ev.contract, hasKey s.payload "attempt_id" = true
  commits : ∀ p ∈ ev.privateEvidence, ∃ xs, p.expectedRequestCommits = textFields xs
  references : ∃ xs, ev.referenceModelHashes = textFields xs

theorem isIn_text {raw : Value} {xs : List Value} (iterated : raw.iterate = .ok xs) (t : String) :
    Returns (isIn (.str t) raw) := by
  cases raw with
  | list ys => exact ⟨_, rfl⟩
  | str s => exact ⟨_, rfl⟩
  | dict kvs => exact ⟨_, rfl⟩
  | _ => cases iterated

/-- What is among the listed values is in the value they were listed from. -/
theorem isIn_of_listed {raw : Value} {xs : List Value} {t : String}
    (iterated : raw.iterate = .ok xs) (member : memberOf (.str t) xs = true) :
    isIn (.str t) raw = .ok true := by
  cases raw with
  | list ys =>
    obtain rfl := Except.ok.inj iterated
    rw [isIn, member]
  | str s =>
    obtain rfl := Except.ok.inj iterated
    obtain ⟨x, inside, same⟩ := List.any_eq_true.mp member
    obtain ⟨c, letter, rfl⟩ := List.mem_map.mp inside
    obtain rfl : String.singleton c = t := Value.str.inj ((eq_str t _).mp same)
    have part : (String.singleton c).toList <:+: s.toList := by
      obtain ⟨before, after, split⟩ := List.append_of_mem letter
      rw [split]
      exact ⟨before, after, by simp⟩
    rw [isIn, decide_eq_true part]
  | dict kvs =>
    obtain rfl := Except.ok.inj iterated
    obtain ⟨x, inside, same⟩ := List.any_eq_true.mp member
    obtain ⟨⟨k, v⟩, listed, rfl⟩ := List.mem_map.mp inside
    have there : (find kvs (.str t)).isSome = true := by
      rw [find_any, List.any_eq_true]
      refine ⟨(k, v), listed, ?_⟩
      rw [(eq_str t k).mp same, scalarEq_str, beq_self_eq_true]
    simp [isIn, there, Value.hashable]
  | _ => cases iterated

/-- The expected commitments of the transforms that are in the allowed value. -/
theorem expectedCommits_texts {raw : Value} {listed : List Value}
    (iterated : raw.iterate = .ok listed) (xs : List (String × String)) :
    ∃ commits, expectedCommits raw (textFields xs) = .ok commits ∧
      ∀ x ∈ xs, isIn (.str x.1) raw = .ok true → Value.str x.2 ∈ commits := by
  induction xs with
  | nil => exact ⟨[], rfl, fun x member => nomatch member⟩
  | cons x xs ih =>
    obtain ⟨rest, made, all⟩ := ih
    obtain ⟨member, found⟩ := isIn_text iterated x.1
    have step : expectedCommits raw (textFields (x :: xs)) = (do
        if member then pure (.str x.2 :: (← expectedCommits raw (textFields xs)))
        else expectedCommits raw (textFields xs)) := by
      rw [show textFields (x :: xs) = (.str x.1, .str x.2) :: textFields xs from rfl,
        expectedCommits, found, ok_bind]
      rfl
    rw [step, made]
    cases member with
    | false =>
      refine ⟨rest, rfl, ?_⟩
      intro y inside here
      rcases List.mem_cons.mp inside with rfl | inside
      · rw [found] at here
        cases here
      · exact all y inside here
    | true =>
      refine ⟨.str x.2 :: rest, rfl, ?_⟩
      intro y inside here
      rcases List.mem_cons.mp inside with rfl | inside
      · exact List.mem_cons_self
      · exact List.mem_cons_of_mem _ (all y inside here)

theorem ownCommit_text {c : Dict} {raw : Value} {listed : List Value} {commitment : String}
    (iterated : raw.iterate = .ok listed) (req : getItem c "req_commit" = .ok (.str commitment)) :
    ∃ own, ownCommit c raw = .ok own ∧
      (isIn (.str identity) raw = .ok true → Value.str commitment ∈ own) := by
  obtain ⟨member, found⟩ := isIn_text iterated identity
  rw [ownCommit, found, ok_bind]
  cases member with
  | false =>
    refine ⟨[], rfl, ?_⟩
    intro here
    cases here
  | true =>
    refine ⟨[.str commitment], ?_, fun _ => List.mem_singleton_self _⟩
    rw [if_pos rfl, req]
    rfl

/-- A commitment that the contract approves is bound by the gate. -/
theorem requestBinding_pass {c m : Dict} {raw : Value} {listed : List Value} {commitment : String}
    {xs : List (String × String)}
    (transforms : getItem c "allowed_request_transforms" = .ok raw)
    (iterated : raw.iterate = .ok listed) (req : getItem c "req_commit" = .ok (.str commitment))
    (approved : (memberOf (.str identity) listed = true ∧
        Value.eq (.str commitment) (getOr m "request_commit") = true) ∨
      ∃ x ∈ textFields xs, memberOf x.1 listed = true ∧ x.2.eq (getOr m "request_commit") = true) :
    ∃ reason, requestBinding c (textFields xs) m = .ok (check "request_binding" .pass reason) := by
  obtain ⟨own, hown, ownIn⟩ := ownCommit_text iterated req
  obtain ⟨commits, hcommits, expectedIn⟩ := expectedCommits_texts iterated xs
  have set : approvedSet c (textFields xs) = .ok (own ++ commits) := by
    rw [approvedSet, transforms, ok_bind, hown, ok_bind, hcommits]
    rfl
  obtain ⟨seen, spoken, inside⟩ : ∃ s, getOr m "request_commit" = .str s ∧
      Value.str s ∈ own ++ commits := by
    rcases approved with ⟨permitted, same⟩ | ⟨x, expected, permitted, same⟩
    · refine ⟨commitment, (eq_str _ _).mp same, List.mem_append_left _ (ownIn ?_)⟩
      exact isIn_of_listed iterated permitted
    · obtain ⟨y, there, rfl⟩ := List.mem_map.mp expected
      obtain ⟨z, known, rfl⟩ := List.mem_map.mp there
      refine ⟨z.2, (eq_str _ _).mp same, List.mem_append_right _ (expectedIn z known ?_)⟩
      exact isIn_of_listed iterated permitted
  have member : memberOf (.str seen) (own ++ commits) = true :=
    List.any_eq_true.mpr ⟨_, inside, (eq_str _ _).mpr rfl⟩
  rw [requestBinding, set, ok_bind, spoken]
  have usable : ¬ (!(Value.str seen).hashable) = true := Bool.false_ne_true
  rw [if_neg usable, if_pos member]
  exact ⟨_, rfl⟩

theorem find_texts_null (xs : List (String × String)) : find (textFields xs) .null = none := by
  induction xs with
  | nil => rfl
  | cons x xs ih => exact ih

theorem modelHashReference_pass {gate : Gate} {m : Dict} {model ref : Value}
    (named : getItem m "model_id" = .ok model)
    (looked : lookup gate.referenceModelHashes model = .ok (some ref)) (known : ref ≠ .null)
    (same : (getOr m "model_hash").eq ref = true) :
    ∃ reason, modelHashReference gate m = .ok (check "model_hash_reference" .pass reason) := by
  have stated : (find m (.str "model_id")).getD (.str "") = model := by
    rw [getItem] at named
    cases found : find m (.str "model_id") with
    | none =>
      rw [found] at named
      cases named
    | some v =>
      rw [found] at named
      exact Except.ok.inj named
  have spoken : ref.isNone = false := (isNone_false_iff ref).mpr known
  rw [modelHashReference, stated, looked, ok_bind, Option.getD_some]
  simp only [spoken, Bool.false_eq_true, if_false, same]
  exact ⟨_, rfl⟩

theorem routeCheck_pass {c : Dict} {model : Value} {relay : Option SignedStatement}
    (keys : ∀ k ∈ ["requested_model", "allowed_models", "fallback_policy"], hasKey c k = true)
    (named : model ≠ .null) (allowed : RouteAllowed c model relay) :
    ∃ reason, routeCheck K c model relay = .ok (check "route_allowed" .pass reason) := by
  have spoken : model.isNone = false := (isNone_false_iff model).mpr named
  rw [routeCheck, spoken, if_neg Bool.false_ne_true,
    getItem_of_hasKey (keys "requested_model" (by decide)), ok_bind]
  by_cases same : model.eq (getOr c "requested_model") = true
  · rw [if_pos same]
    exact ⟨_, rfl⟩
  · rw [if_neg same]
    obtain ⟨inside, permitted, r, rfl, declared⟩ := allowed.resolve_left same
    have forbidden : (getOr c "fallback_policy").eq (.str "none") = false := by
      rw [Bool.eq_false_iff]
      exact fun none_ => permitted ((eq_none_iff _).mp none_)
    have free : routeForbidden c model = .ok false := by
      rw [routeForbidden, getItem_of_hasKey (keys "allowed_models" (by decide)), ok_bind, inside,
        ok_bind, if_pos rfl, getItem_of_hasKey (keys "fallback_policy" (by decide)), ok_bind,
        forbidden]
      rfl
    have fallback : fallbackDeclared (some r) = true := by
      rw [fallbackDeclared, declared]
      rfl
    rw [free, ok_bind, fallback]
    exact ⟨_, rfl⟩

/-- The gate is asked about the statements that the third party judged, at the time and with
the response commitment that the user reported; the receipt's key is one it trusts. -/
structure AskedAbout (K : Primitives) (gate : Gate) (ev : EvidenceSet) (receipt : SignedStatement)
    (now : Int) : Prop where
  shown : ev.receipt = some receipt
  spoken : getOr receipt.payload "request_commit" ≠ .null
  trusted : ∃ publicKey, find gate.trustedModelKeys receipt.kid = some publicKey ∧
    receipt.verifyWith K publicKey = .ok true
  references : gate.referenceModelHashes = ev.referenceModelHashes
  received : number (field ev.o "received_at") = some now

theorem find_hashable {A : Type} {d : List (Value × A)} {x : Value} {a : A}
    (found : find d x = some a) : x.hashable = true := by
  obtain ⟨k, -, same⟩ := find_mem found
  exact hashable_of_scalarEq same

theorem signatureOk_trusted {gate : Gate} {receipt : SignedStatement} {publicKey : Bytes}
    (found : find gate.trustedModelKeys receipt.kid = some publicKey)
    (verified : receipt.verifyWith K publicKey = .ok true) :
    signatureOk K gate receipt = .ok true := by
  rw [signatureOk, lookup, if_pos (find_hashable found), ok_bind, found]
  exact verified

theorem less_received {a b : Value} {n : Int} (received : number a = some n) (orEqual : Bool) :
    less orEqual (.int n) b = less orEqual a b := by
  cases a with
  | int m =>
    obtain rfl := Option.some.inj received
    rfl
  | bool x =>
    obtain rfl := Option.some.inj received
    cases b <;> rfl
  | _ => cases received

/-- A limit that a time was compared with is there. -/
theorem limit_stated {c : Dict} {n : Int}
    (compared : less true (.int n) (getOr c "expires_at") = .ok true) :
    getItem c "expires_at" = .ok (getOr c "expires_at") := by
  refine getItem_of_hasKey (hasKey_of_getOr ?_)
  intro absent
  rw [absent] at compared
  cases compared

section

variable {gate : Gate} {ev : EvidenceSet} {receipt : SignedStatement} {now : Int}

/-- What passing says about one equation, with the result of evaluating it. -/
theorem passing_holds {engine : ReconciliationEngine} {parties : List String} {v : Verdict}
    (judged : reconcile K engine ev parties = .ok v) (passed : v.status = .passed) (k : EqId)
    (required : k ∈ requiredForPass) :
    Returns (evalEq K k ev) ∧ Decided k ev ∧ Holds K k ev := by
  obtain ⟨eqs, evaluated, -⟩ := bind_ok.mp judged
  refine ⟨evaluateEquations_returns.mp ⟨eqs, evaluated⟩ k, ?_⟩
  exact ((reconcile_passed judged).mp passed).required k required

theorem attempt_of_same {c m : Dict} (hc : ev.c = some c) (hm : ev.m = some m)
    (same : SameAttempts ev) : (getOr m "attempt_id").eq (getOr c "attempt_id") = true := by
  rw [SameAttempts, attemptIds_values, hc, hm] at same
  obtain ⟨first, head, tail⟩ := same
  obtain rfl := Option.some.inj head
  refine tail _ ?_
  cases ev.r with
  | none => exact List.mem_cons_self
  | some r => exact List.mem_cons_of_mem _ List.mem_cons_self

/-- The transforms that the contract allows, as E4 lists them. -/
theorem transforms_read {c m : Dict} (hc : ev.c = some c) (hm : ev.m = some m)
    (spoken : getOr m "request_commit" ≠ .null) (returned : Returns (evalE4 K ev)) :
    ∃ raw, getItem c "allowed_request_transforms" = .ok raw ∧
      raw.iterate = .ok (allowedRequests ev) := by
  rw [evalE4, hc] at returned
  obtain ⟨seen, heard, returned⟩ := returns_bind.mp returned
  cases seen with
  | none =>
    have said := requestSeen_commitSeen heard
    have byM : (field ev.m "request_commit").isNone = false := by
      rw [hm]
      exact (isNone_false_iff _).mpr spoken
    rw [commitSeen, byM] at said
    cases said
  | some x =>
    obtain ⟨raw, stated, returned⟩ := returns_bind.mp returned
    obtain ⟨listed, iterated, -⟩ := returns_bind.mp returned
    refine ⟨raw, stated, ?_⟩
    rw [allowedRequests, hc, field, getItem_getOr stated, elements_of_iterate iterated]
    exact iterated

/-- E9 looked the model up and found its reference. -/
theorem reference_read {m : Dict} (hm : ev.m = some m) (known : referenceOf ev ≠ .null)
    (returned : Returns (evalE9 K ev)) : ∃ model, getItem m "model_id" = .ok model ∧
      lookup ev.referenceModelHashes model = .ok (some (referenceOf ev)) := by
  rw [evalE9, hm] at returned
  obtain ⟨model, stated, returned⟩ := returns_bind.mp returned
  obtain ⟨found, looked, -⟩ := returns_bind.mp returned
  refine ⟨model, stated, ?_⟩
  obtain ⟨-, rfl⟩ := lookup_find looked
  have reference : referenceOf ev = (find ev.referenceModelHashes model).getD .null := by
    rw [referenceOf, hm, field, getItem_getOr stated]
  rw [looked]
  cases here : find ev.referenceModelHashes model with
  | none =>
    rw [here] at reference
    exact absurd reference known
  | some ref =>
    rw [here] at reference
    rw [reference]
    rfl

def signedNames : List String :=
  ["nonce_match", "request_binding", "response_binding", "attempt_match", "model_hash_reference",
   "route_allowed"]

/-- The checks of a round in which a receipt was shown. -/
def checkNames : List String :=
  ["not_expired", "receipt_present", "receipt_signature"] ++ signedNames ++ ["tool_policy"]

/-- What is compared with the receipt agrees, so each of its checks passes. -/
theorem signedChecks_agree {c expected m : Dict} {received : Value}
    {relay : Option SignedStatement} {whyRequest whyModel whyRoute : String}
    (nonceItem : getItem c "nonce" = .ok (getOr c "nonce"))
    (attemptItem : getItem c "attempt_id" = .ok (getOr c "attempt_id"))
    (request : requestBinding c expected m = .ok (check "request_binding" .pass whyRequest))
    (model : modelHashReference gate m = .ok (check "model_hash_reference" .pass whyModel))
    (route : routeCheck K c (getOr m "model_id") relay =
      .ok (check "route_allowed" .pass whyRoute))
    (nonce : (getOr m "eat_nonce").eq (getOr c "nonce") = true)
    (response : (getOr m "response_commit").eq received = true)
    (attempt : (getOr m "attempt_id").eq (getOr c "attempt_id") = true) :
    ∃ checks, signedChecks K gate c expected received m relay = .ok checks ∧
      checks.map Prod.fst = signedNames ∧ ∀ x ∈ checks, x.2.result = .pass := by
  have agrees : ∀ (name : String) (seen held : Value) (same different : String),
      seen.eq held = true → (compared name seen held same different).2.result = .pass := by
    intro name seen held same different equal
    rw [compared, check_result, equal]
    rfl
  rw [signedChecks, nonceItem, ok_bind, request, ok_bind, attemptItem, ok_bind, model, ok_bind,
    route, ok_bind]
  refine ⟨_, rfl, rfl, ?_⟩
  intro x member
  simp only [List.mem_cons, List.not_mem_nil, or_false] at member
  rcases member with rfl | rfl | rfl | rfl | rfl | rfl
  · exact agrees _ _ _ _ _ nonce
  · rfl
  · exact agrees _ _ _ _ _ response
  · exact agrees _ _ _ _ _ attempt
  · rfl
  · rfl

variable {engine : ReconciliationEngine} {parties : List String} {v : Verdict} {c : Dict}

theorem m_of_asked (asked : AskedAbout K gate ev receipt now) : ev.m = some receipt.payload := by
  rw [EvidenceSet.m, asked.shown]
  rfl

/-- The request that M signed is one the contract approves, so the gate binds it. -/
theorem request_passes {xs : List (String × String)} {p : PrivateEvidence}
    (judged : reconcile K engine ev parties = .ok v) (passed : v.status = .passed)
    (asked : AskedAbout K gate ev receipt now) (hc : ev.c = some c)
    (hp : ev.privateEvidence = some p) (expected : p.expectedRequestCommits = textFields xs) :
    ∃ why, requestBinding c (textFields xs) receipt.payload =
      .ok (check "request_binding" .pass why) := by
  have hm := m_of_asked asked
  obtain ⟨-, -, q, commitment, -, -, req⟩ := passing_holds judged passed .e1 (by decide)
  obtain ⟨read, -, -, seen, said, approved⟩ := passing_holds judged passed .e4 (by decide)
  obtain ⟨raw, transforms, iterated⟩ := transforms_read hc hm asked.spoken read
  rw [hc, field] at req
  have reqItem : getItem c "req_commit" = .ok (.str commitment) := by
    rw [← req]
    refine getItem_of_hasKey (hasKey_of_getOr ?_)
    rw [req]
    intro absent
    cases absent
  have signed : seen = getOr receipt.payload "request_commit" := by
    have byM : (field ev.m "request_commit").isNone = false := by
      rw [hm]
      exact (isNone_false_iff _).mpr asked.spoken
    rw [commitSeen, byM, hm] at said
    exact (Option.some.inj said).symm
  have bound := contractApproves_of_approved approved
  rw [ContractApproves, hc, hp, field, req, signed, expectedOf, expected] at bound
  exact requestBinding_pass transforms iterated reqItem bound

/-- The model M names has a reference, so M names one, and its hash agrees. -/
theorem artifact_passes (judged : reconcile K engine ev parties = .ok v)
    (passed : v.status = .passed) (asked : AskedAbout K gate ev receipt now)
    (named : ∃ ys, ev.referenceModelHashes = textFields ys) :
    (∃ why, modelHashReference gate receipt.payload =
      .ok (check "model_hash_reference" .pass why)) ∧
    getItem receipt.payload "model_id" = .ok (getOr receipt.payload "model_id") ∧
    getOr receipt.payload "model_id" ≠ .null := by
  have hm := m_of_asked asked
  obtain ⟨read, ⟨-, known⟩, -, -, artifact⟩ := passing_holds judged passed .e9 (by decide)
  obtain ⟨model, stated, looked⟩ := reference_read hm known read
  rw [getItem_getOr stated]
  refine ⟨?_, stated, ?_⟩
  · rw [hm, field] at artifact
    rw [← asked.references] at looked
    exact modelHashReference_pass stated looked known artifact
  · rintro rfl
    obtain ⟨ys, typed⟩ := named
    have found := (lookup_find looked).2
    rw [typed, find_texts_null] at found
    cases found

theorem route_passes (judged : reconcile K engine ev parties = .ok v)
    (passed : v.status = .passed) (asked : AskedAbout K gate ev receipt now) (hc : ev.c = some c)
    (stated : getItem receipt.payload "model_id" = .ok (getOr receipt.payload "model_id"))
    (named : getOr receipt.payload "model_id" ≠ .null) :
    ∃ why, routeCheck K c (getOr receipt.payload "model_id") ev.relay =
      .ok (check "route_allowed" .pass why) := by
  have hm := m_of_asked asked
  obtain ⟨read, -, routed⟩ := passing_holds judged passed .e8 (by decide)
  have served : modelServed ev = getOr receipt.payload "model_id" := by
    rw [modelServed, hm]
    rfl
  have seen : modelSeen ev =
      .ok (some (getOr receipt.payload "model_id", "M.model_id", .ext)) := by
    rw [modelSeen, hm]
    simp only [stated, ok_bind]
    rfl
  refine routeCheck_pass (evalE8_keys hc seen read) named ?_
  rcases routed with same | ⟨inside, permitted, fallback⟩
  · left
    rw [ServedAsRequested, served, hc] at same
    exact same
  · right
    rw [ServedAllowed, served, hc] at inside
    rw [hc] at permitted
    refine ⟨inside, permitted, ?_⟩
    cases hr : ev.relay with
    | none =>
      rw [EvidenceSet.r, hr] at fallback
      cases fallback
    | some r =>
      rw [EvidenceSet.r, hr] at fallback
      exact ⟨r, rfl, fallback⟩

/-- Every check of the verified receipt passes. -/
theorem signedChecks_pass {xs : List (String × String)} {p : PrivateEvidence}
    (judged : reconcile K engine ev parties = .ok v) (passed : v.status = .passed)
    (asked : AskedAbout K gate ev receipt now) (hc : ev.c = some c)
    (attempted : hasKey c "attempt_id" = true) (hp : ev.privateEvidence = some p)
    (expected : p.expectedRequestCommits = textFields xs)
    (named : ∃ ys, ev.referenceModelHashes = textFields ys) :
    ∃ checks, signedChecks K gate c (textFields xs) (field ev.o "resp_commit") receipt.payload
        ev.relay = .ok checks ∧ checks.map Prod.fst = signedNames ∧
          ∀ x ∈ checks, x.2.result = .pass := by
  have hm := m_of_asked asked
  obtain ⟨read, -, nonces, -⟩ := passing_holds judged passed .e5 (by decide)
  obtain ⟨-, -, -, response⟩ := passing_holds judged passed .e10 (by decide)
  obtain ⟨-, -, attempts⟩ := passing_holds judged passed .e11 (by decide)
  obtain ⟨whyRequest, request⟩ := request_passes judged passed asked hc hp expected
  obtain ⟨⟨whyModel, model⟩, stated, spoken⟩ := artifact_passes judged passed asked named
  obtain ⟨whyRoute, route⟩ := route_passes judged passed asked hc stated spoken
  have nonce := nonces (by rw [hm]; rfl)
  rw [hm, hc] at nonce
  rw [hm] at response
  exact signedChecks_agree (getItem_of_hasKey (nonce_of_receipt read hc hm))
    (getItem_of_hasKey attempted) request model route nonce response
    (attempt_of_same hc hm attempts)

end

theorem toolPolicy_returns (gate : Gate) {body : Value}
    (shaped : body = .null ∨ ∃ d, body = .dict d) :
    ∃ result why, toolPolicy K gate body = .ok (check "tool_policy" result why) := by
  have read : Returns (toolCall body) := by
    rcases shaped with rfl | ⟨d, rfl⟩
    · exact ⟨_, rfl⟩
    · exact ⟨_, rfl⟩
  obtain ⟨call, named⟩ := read
  rw [toolPolicy, named, ok_bind]
  split
  · exact ⟨_, _, rfl⟩
  · split
    · exact ⟨_, _, rfl⟩
    · exact ⟨_, _, rfl⟩

/-- The local checks, where the verified receipt's checks are known. -/
theorem localChecks_signed {gate : Gate} {c expected : Dict} {received body : Value}
    {receipt : SignedStatement} {relay : Option SignedStatement} {now : Int} {inner : Checks}
    {result : Outcome} {why : String}
    (unexpired : less true (.int now) (getOr c "expires_at") = .ok true)
    (limit : getItem c "expires_at" = .ok (getOr c "expires_at"))
    (signed : signatureOk K gate receipt = .ok true)
    (made : signedChecks K gate c expected received receipt.payload relay = .ok inner)
    (names : inner.map Prod.fst = signedNames) (passes : ∀ x ∈ inner, x.2.result = .pass)
    (tool : toolPolicy K gate body = .ok (check "tool_policy" result why)) :
    ∃ checks, localChecks K gate c received body (some receipt) relay now expected = .ok checks ∧
      checks.map Prod.fst = checkNames ∧
      ∀ x ∈ checks, x.2.result = .pass ∨ x = check "tool_policy" result why := by
  have ofReceipt : receiptChecks K gate c expected received (some receipt) relay =
      .ok (check "receipt_present" .pass "동봉됨" ::
        check "receipt_signature" .pass "신뢰 모델 키로 검증됨" :: inner) := by
    rw [receiptChecks]
    simp only [signed, ok_bind, verifiedChecks, made]
    rfl
  rw [localChecks, limit, ok_bind, unexpired, ok_bind, ofReceipt, ok_bind, relayRoute, ok_bind,
    tool, ok_bind]
  refine ⟨_, rfl, ?_, ?_⟩
  · simp only [List.map_cons, List.map_append, List.map_nil, List.append_nil, check_name, names]
    rfl
  · intro x member
    simp only [List.mem_cons, List.mem_append, List.append_nil, List.not_mem_nil,
      or_false] at member
    rcases member with rfl | (rfl | rfl | inside) | rfl
    · exact .inl rfl
    · exact .inl rfl
    · exact .inl rfl
    · exact .inl (passes x inside)
    · exact .inr rfl

theorem clean_of_passing {checks : Checks} (all : ∀ x ∈ checks, x.2.result = .pass) :
    Clean checks := by
  constructor
  · intro x member
    rw [all x member]
    exact fun bad => nomatch bad
  · intro x member _
    rw [all x member]
    exact fun bad => nomatch bad

/-- With every check passed the protecting gate accepts. -/
theorem protect_accepts {gate : Gate} {checks : Checks} (protect : gate.mode = .protect)
    (all : ∀ x ∈ checks, x.2.result = .pass) (receivedAt decidedAt : Int) (status : Value)
    (deadlineHit : Bool) :
    (decideGate K gate checks receivedAt decidedAt status deadlineHit).action = .accept := by
  have enforcing : gate.mode ≠ .observe := by
    rw [protect]
    exact fun bad => nomatch bad
  exact (accept_iff enforcing checks status deadlineHit).mpr ⟨clean_of_passing all, .inl protect⟩

/-- A passed verdict: the gate's local checks on the same statements all pass, except that the
response may still hold a tool directive, and without one both enforcing modes accept. -/
theorem passed_passes_gate {engine : ReconciliationEngine} {gate : Gate} {ev : EvidenceSet}
    {parties : List String} {v : Verdict} {receipt : SignedStatement} {now : Int} {body : Value}
    (typed : Typed ev) (judged : reconcile K engine ev parties = .ok v)
    (passed : v.status = .passed) (asked : AskedAbout K gate ev receipt now)
    (shaped : body = .null ∨ ∃ d, body = .dict d) :
    ∃ contract p checks, ev.contract = some contract ∧ ev.privateEvidence = some p ∧
      localChecks K gate contract.payload (field ev.o "resp_commit") body ev.receipt ev.relay now
        p.expectedRequestCommits = .ok checks ∧
      checks.map Prod.fst = checkNames ∧
      (∀ x ∈ checks, x.1 ≠ "tool_policy" → x.2.result = .pass) ∧
      ((∀ x ∈ checks, x.1 = "tool_policy" → x.2.result = .pass) →
        ∀ receivedAt decidedAt deadlineHit,
        (gate.mode = .protect → ∀ status,
          (decideGate K gate checks receivedAt decidedAt status deadlineHit).action = .accept) ∧
        (gate.mode = .strict → (decideGate K gate checks receivedAt decidedAt
          (.str v.status.text) deadlineHit).action = .accept)) := by
  obtain ⟨-, ⟨present, -⟩, p, -, hp, -, -⟩ := passing_holds judged passed .e1 (by decide)
  obtain ⟨contract, agreed⟩ : ∃ contract, ev.contract = some contract := by
    rw [EvidenceSet.c, Option.isSome_map] at present
    exact Option.isSome_iff_exists.mp present
  have hc : ev.c = some contract.payload := by
    rw [EvidenceSet.c, agreed]
    rfl
  have timely : Holds K .e12 ev := (passing_holds judged passed .e12 (by decide)).2.2
  have unexpired : less true (.int now) (getOr contract.payload "expires_at") = .ok true := by
    have before : less true (field ev.o "received_at") (field ev.c "expires_at") = .ok true :=
      timely
    rw [hc, ← less_received asked.received] at before
    exact before
  obtain ⟨xs, expected⟩ := typed.commits p hp
  obtain ⟨publicKey, found, verified⟩ := asked.trusted
  obtain ⟨inner, made, innerNames, innerPass⟩ := signedChecks_pass judged passed asked hc
    (typed.attempt contract agreed) hp expected typed.references
  obtain ⟨result, why, tool⟩ := toolPolicy_returns (K := K) gate shaped
  obtain ⟨checks, local_, names, each⟩ := localChecks_signed unexpired
    (limit_stated unexpired) (signatureOk_trusted found verified) made innerNames innerPass
    tool
  have passes : ∀ x ∈ checks, x.1 ≠ "tool_policy" → x.2.result = .pass := by
    intro x member other
    rcases each x member with passed | rfl
    · exact passed
    · exact absurd rfl other
  refine ⟨contract, p, checks, agreed, hp, ?_, names, passes, ?_⟩
  · rw [asked.shown, expected]
    exact local_
  · intro harmless receivedAt decidedAt deadlineHit
    have all : ∀ x ∈ checks, x.2.result = .pass := by
      intro x member
      by_cases tool : x.1 = "tool_policy"
      · exact harmless x member tool
      · exact passes x member tool
    constructor
    · intro protect status
      exact protect_accepts protect all receivedAt decidedAt status deadlineHit
    · intro strict
      have enforcing : gate.mode ≠ .observe := by
        rw [strict]
        exact fun bad => nomatch bad
      refine (accept_iff enforcing checks _ deadlineHit).mpr ⟨clean_of_passing all, .inr ?_⟩
      rw [passed]
      rfl

def spokenEvidence : EvidenceSet :=
  { silentEvidence with
    receipt := some boundReceipt
    referenceModelHashes := strictGate.referenceModelHashes }

theorem passed_passes_gate_strict : ∃ contract p checks,
    spokenEvidence.contract = some contract ∧ spokenEvidence.privateEvidence = some p ∧
      localChecks toy strictGate contract.payload (field spokenEvidence.o "resp_commit") (.dict [])
        spokenEvidence.receipt spokenEvidence.relay 300 p.expectedRequestCommits = .ok checks ∧
      checks.map Prod.fst = checkNames ∧
      ∀ x ∈ checks, x.1 ≠ "tool_policy" → x.2.result = .pass := by
  have passes : (reconcile toy plainEngine spokenEvidence allParties).map Verdict.status =
      .ok .passed := by decide +kernel
  obtain ⟨v, judged, passed⟩ := map_ok passes
  have typed : Typed spokenEvidence := by
    constructor
    · rintro s ⟨⟩
      decide +kernel
    · rintro p ⟨⟩
      exact ⟨[], rfl⟩
    · exact ⟨[("model-A", zeros 64)], rfl⟩
  have asked : AskedAbout toy strictGate spokenEvidence boundReceipt 300 := by
    constructor
    · rfl
    · exact fun silent => nomatch silent
    · exact ⟨WithoutEvidence.modelKey.publicKey toy, by decide +kernel, by decide +kernel⟩
    · rfl
    · decide +kernel
  obtain ⟨contract, p, checks, agreed, opened, made, names, passing, -⟩ :=
    passed_passes_gate typed judged passed asked (.inr ⟨[], rfl⟩)
  exact ⟨contract, p, checks, agreed, opened, made, names, passing⟩

end GateAgreement
