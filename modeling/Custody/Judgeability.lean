import Custody.EngineMeaning

/-!
# When a judgment returns

A registered payload has every field its type requires, but the fields hold any
JSON value. What the equations ask of them beyond presence is collected in
`Judgeable`; with it the engine returns a verdict, and without it it raises.
-/

namespace Judgeability

open PyValue HexBytes CanonicalJson Commitments Statements Schemas Evidence Equations
  EquationMeaning Discrepancies Engine EngineMeaning

variable {K : Primitives}

/-- The payload has every field required of its type. -/
def Complete (contentType : String) (payload : Dict) : Prop :=
  ∀ k ∈ (find requiredFields (.str contentType)).getD [], hasKey payload k = true

theorem getItem_of_hasKey {d : Dict} {k : String} (h : hasKey d k = true) :
    getItem d k = .ok (getOr d k) := by
  obtain ⟨v, found⟩ := Option.isSome_iff_exists.mp h
  simp [getItem, getOr, found]

/-- `d[k]` raises exactly where the key is absent. -/
theorem getItem_returns {d : Dict} {k : String} : Returns (getItem d k) ↔ hasKey d k = true := by
  constructor
  · rintro ⟨v, h⟩
    rw [getItem] at h
    cases found : find d (.str k) with
    | none => simp [found] at h
    | some w => simp [hasKey, found]
  · intro h
    exact ⟨_, getItem_of_hasKey h⟩

theorem hasKey_of_getOr {d : Dict} {k : String} (h : getOr d k ≠ .null) : hasKey d k = true := by
  rw [hasKey]
  cases found : find d (.str k) with
  | none => exact absurd (by simp [getOr, found]) h
  | some v => rfl

theorem Complete.item {contentType : String} {payload : Dict} (h : Complete contentType payload)
    {k : String} (required : k ∈ (find requiredFields (.str contentType)).getD []) :
    getItem payload k = .ok (getOr payload k) :=
  getItem_of_hasKey (h k required)

/-- A payload that passes its schema is complete. -/
theorem complete_of_valid {contentType : String} {payload : Dict}
    (valid : validatePayload K (.str contentType) payload = .ok []) :
    Complete contentType payload := by
  obtain ⟨required, profile, listed, complete, -⟩ := validatePayload_nil valid
  obtain ⟨-, known⟩ := lookup_find listed
  rw [Complete, ← known]
  exact complete

/-- The gathered statements are complete, except that a receipt may be a copy that was
shown to the user and never registered; the private evidence can be opened. -/
structure Keyed (K : Primitives) (ev : EvidenceSet) : Prop where
  contract : ∀ c, ev.c = some c → Complete ctContract c
  relay : ∀ r, ev.r = some r → Complete ctRelay r
  observation : ∀ o, ev.o = some o → Complete ctObservation o
  opens : ∀ p, ev.privateEvidence = some p → Returns (commitHex K p.salt p.requestHash)

/-- The model that served the request, by the receipt or else by the relay. -/
def Served (m r : Option Dict) (model : Value) : Prop :=
  (∃ d, m = some d ∧ model = getOr d "model_id") ∨
    (m = none ∧ ∃ d, r = some d ∧ model = getOr d "upstream_model")

structure Judgeable (hashes : Dict) (c r m o : Option Dict) : Prop where
  /-- The allowed request transforms can be listed and looked up. -/
  transforms : c.isSome = true → ∃ allowed,
    (field c "allowed_request_transforms").iterate = .ok allowed ∧
    ∀ t ∈ allowed, t.hashable = true
  /-- So can the response transforms, once a signed response is compared. -/
  responses : c.isSome = true → o.isSome = true → field m "response_commit" ≠ .null →
    Returns (field c "allowed_response_transforms").iterate
  /-- A model other than the one requested can be looked for among the allowed ones. -/
  served : c.isSome = true → ∀ model, Served m r model →
    model.eq (field c "requested_model") = true ∨ Returns (isIn model (field c "allowed_models"))
  /-- The receipt says which model and what it decided. -/
  receipt : ∀ d, m = some d → hasKey d "model_id" = true ∧ hasKey d "decision" = true ∧
    (getOr d "model_id").hashable = true
  artifact : ∀ d ref, m = some d → find hashes (getOr d "model_id") = some ref → ref ≠ .null →
    hasKey d "model_hash" = true
  /-- The attempt identifiers can be compared as a set. -/
  attempts : 2 ≤ ([c, r, m, o].filterMap id).length →
    ∀ d ∈ [c, r, m, o].filterMap id, (getOr d "attempt_id").hashable = true
  /-- The time of receipt can be compared with the expiry. -/
  expiry : c.isSome = true → o.isSome = true →
    Returns (less true (field o "received_at") (field c "expires_at"))
  /-- The client's clock is absent or a number. -/
  clock : field c "client_time" = .null ∨ (number (field c "client_time")).isSome = true

/-- The first equation is evaluated on any keyed evidence. -/
theorem evalE1_returns {ev : EvidenceSet} (keyed : Keyed K ev) : Returns (evalE1 K ev) := by
  rw [evalE1]
  cases hc : ev.c with
  | none => simp
  | some c =>
    cases hp : ev.privateEvidence with
    | none => simp
    | some p =>
      obtain ⟨commit, opened⟩ := keyed.opens p hp
      have req := (keyed.contract c hc).item (k := "req_commit") (by decide)
      simp [opened, req]

theorem evalE2_returns {ev : EvidenceSet} (keyed : Keyed K ev) : Returns (evalE2 ev) := by
  rw [evalE2]
  cases hc : ev.c with
  | none => simp
  | some c =>
    cases hr : ev.r with
    | none => simp
    | some r =>
      have req := (keyed.contract c hc).item (k := "req_commit") (by decide)
      have inCommit := (keyed.relay r hr).item (k := "in_commit") (by decide)
      simp [req, inCommit]

theorem present_of_spoken {d : Dict} {k : String} (spoken : (getOr d k).isNone = false) :
    getItem d k = .ok (getOr d k) := by
  refine getItem_of_hasKey (hasKey_of_getOr ?_)
  intro silent
  simp [silent, Value.isNone] at spoken

theorem evalE3_returns {ev : EvidenceSet} (keyed : Keyed K ev) : Returns (evalE3 ev) := by
  rw [evalE3]
  cases hr : ev.r with
  | none => simp
  | some r =>
    cases hm : ev.m with
    | none => simp
    | some m =>
      cases spoken : (getOr m "request_commit").isNone with
      | true => simp [spoken]
      | false =>
        have out := (keyed.relay r hr).item (k := "out_commit") (by decide)
        simp [spoken, out, present_of_spoken spoken]

theorem evalE5_returns {ev : EvidenceSet} (keyed : Keyed K ev) : Returns (evalE5 ev) := by
  rw [evalE5]
  cases hc : ev.c with
  | none => simp
  | some c =>
    have nonce := (keyed.contract c hc).item (k := "nonce") (by decide)
    cases ev.m.isNone && ev.r.isNone with
    | true => simp
    | false => simp [nonce]

/-- A receipt had its nonce compared with the contract's already. -/
theorem nonce_of_receipt {ev : EvidenceSet} (before : Returns (evalE5 ev)) {c m : Dict}
    (hc : ev.c = some c) (hm : ev.m = some m) : hasKey c "nonce" = true := by
  rw [evalE5, hc, hm] at before
  simp only [Option.isNone_some, Bool.false_and, Bool.false_eq_true, if_false] at before
  obtain ⟨nonce, stated, -⟩ := returns_bind.mp before
  exact getItem_returns.mp ⟨nonce, stated⟩

theorem evalE6_returns (ev : EvidenceSet) : Returns (evalE6 ev) := by
  rw [evalE6]
  cases ev.r with
  | none => simp
  | some r =>
    cases ev.m with
    | none => simp
    | some m =>
      cases signed : (getOr m "response_commit").isNone with
      | true => simp [signed]
      | false =>
        cases reported : (getOr r "resp_in_commit").isNone with
        | true => simp [signed, reported]
        | false => simp [signed, reported, present_of_spoken signed, present_of_spoken reported]

theorem evalE7_returns {ev : EvidenceSet} (keyed : Keyed K ev) : Returns (evalE7 ev) := by
  rw [evalE7]
  cases ev.r with
  | none => simp
  | some r =>
    cases ho : ev.o with
    | none => simp
    | some o =>
      cases sent : (getOr r "resp_out_commit").isNone with
      | true => simp [sent]
      | false =>
        have received := (keyed.observation o ho).item (k := "resp_commit") (by decide)
        simp [sent, present_of_spoken sent, received]

/-- Collecting transforms into a set needs them to be hashable. -/
theorem unverifiable_returns {ts : List Value} (named : ∀ t ∈ ts, t.hashable = true) :
    Returns (unverifiable ts) := by
  induction ts with
  | nil => simp [unverifiable]
  | cons t ts ih =>
    obtain ⟨rest, hrest⟩ := ih fun u hu => named u (List.mem_cons_of_mem _ hu)
    simp [unverifiable, isRecomputableRequestTransform, lookup, named t List.mem_cons_self, hrest]

/-- The judgement of a transform raises nowhere, given the contract's commitment and hashable
transforms. -/
theorem judgeTransform_returns {c : Dict} {allowed : List Value} {p : Option PrivateEvidence}
    {declared actual : Value} {source : String} {grade : Grade}
    (commit : hasKey c "req_commit" = true) (named : ∀ t ∈ allowed, t.hashable = true) :
    Returns (judgeTransform K c allowed p declared actual source grade) := by
  have req := getItem_of_hasKey commit
  obtain ⟨unknown, hu⟩ := unverifiable_returns named
  have base : Returns (approvedIdentity c allowed) := by
    rw [approvedIdentity]
    split
    · simp [req]
    · simp
  have listed : Returns (approvedRequests c allowed p) := by
    obtain ⟨base, hb⟩ := base
    cases p <;> simp [approvedRequests, hb]
  obtain ⟨approved, ha⟩ := listed
  rw [judgeTransform, ha, ok_bind]
  dsimp only
  split
  · simp
  · split
    · simp
    · rw [unmatchedTransform, hu, ok_bind]
      dsimp only
      split
      · simp
      · split <;> simp

theorem requestSeen_returns {ev : EvidenceSet} (relay : ∀ r, ev.r = some r → Complete ctRelay r) :
    Returns (requestSeen ev) := by
  have byRelay : ∀ r, ev.r = some r → getItem r "out_commit" = .ok (getOr r "out_commit") :=
    fun r hr => (relay r hr).item (by decide)
  rw [requestSeen]
  cases hm : ev.m with
  | none =>
    cases hr : ev.r with
    | none => simp
    | some r => simp [byRelay r hr]
  | some m =>
    cases spoken : (getOr m "request_commit").isNone with
    | true =>
      cases hr : ev.r with
      | none => simp [spoken]
      | some r => simp [spoken, byRelay r hr]
    | false => simp [spoken, present_of_spoken spoken]

theorem itemOrNull_returns {contentType : String} {d : Option Dict} {k : String}
    (complete : ∀ x, d = some x → Complete contentType x)
    (required : k ∈ (find requiredFields (.str contentType)).getD []) :
    itemOrNull d k = .ok (field d k) := by
  cases d with
  | none => rfl
  | some x => exact (complete x rfl).item required

/-- The contract's request transforms can be listed and looked up. -/
def Listed (c : Dict) : Prop :=
  ∃ allowed, (getOr c "allowed_request_transforms").iterate = .ok allowed ∧
    ∀ t ∈ allowed, t.hashable = true

theorem getItem_iterated {d : Dict} {k : String} {xs : List Value}
    (listed : (getOr d k).iterate = .ok xs) : getItem d k = .ok (getOr d k) := by
  refine getItem_of_hasKey (hasKey_of_getOr ?_)
  intro null
  rw [null] at listed
  cases listed

/-- E4 is evaluated where the contract's list of transforms is one. -/
theorem evalE4_listed {ev : EvidenceSet} (relay : ∀ r, ev.r = some r → Complete ctRelay r)
    (contract : ∀ c, ev.c = some c → hasKey c "req_commit" = true ∧ Listed c) :
    Returns (evalE4 K ev) := by
  rw [evalE4]
  cases hc : ev.c with
  | none => simp
  | some c =>
    obtain ⟨commit, allowed, iterated, named⟩ := contract c hc
    obtain ⟨seen, hs⟩ := requestSeen_returns relay
    simp only [hs, ok_bind]
    cases seen with
    | none => simp
    | some x =>
      obtain ⟨actual, source, grade⟩ := x
      have declared := itemOrNull_returns relay (k := "request_transform_id") (by decide)
      simp only [getItem_iterated iterated, iterated, ok_bind, declared]
      exact judgeTransform_returns commit named

/-- On judgeable evidence E4 is evaluated. -/
theorem evalE4_returns {ev : EvidenceSet} (keyed : Keyed K ev)
    (judgeable : Judgeable ev.referenceModelHashes ev.c ev.r ev.m ev.o) :
    Returns (evalE4 K ev) := by
  refine evalE4_listed keyed.relay fun c hc => ?_
  have listed := judgeable.transforms (by simp [hc])
  rw [hc] at listed
  exact ⟨keyed.contract c hc _ (by decide), listed⟩

/-- The route is judged exactly where membership in the list of models can be asked. -/
theorem judgeRoute_returns {r : Option Dict} {allowed fallback actual : Value} {source : String}
    {grade : Grade} {detail : Dict} (complete : ∀ x, r = some x → Complete ctRelay x) :
    Returns (judgeRoute K r allowed fallback actual source grade detail) ↔
      Returns (isIn actual allowed) := by
  have decision : ∀ x, r = some x → getItem x "policy_decision" = .ok (getOr x "policy_decision") :=
    fun x hx => (complete x hx).item (by decide)
  unfold judgeRoute
  cases found : isIn actual allowed with
  | error e => simp
  | ok member =>
    simp only [ok_bind, returns_ok, iff_true]
    cases r with
    | none =>
      cases member with
      | false => simp
      | true =>
        simp only [Bool.not_true, Bool.false_eq_true, if_false]
        split <;> simp
    | some x =>
      simp only [decision x rfl, ok_bind]
      cases member with
      | false => simp
      | true =>
        simp only [Bool.not_true, Bool.false_eq_true, if_false, Option.isNone_some, pure_ok,
          ok_bind]
        split
        · simp
        · split <;> simp

theorem relayDecision_returns {r : Option Dict} (complete : ∀ x, r = some x → Complete ctRelay x) :
    Returns (relayDecision r) := by
  cases r with
  | none => simp [relayDecision]
  | some x =>
    cases x with
    | nil => simp [relayDecision]
    | cons y ys =>
      have decision := (complete (y :: ys) rfl).item (k := "policy_decision") (by decide)
      simp [relayDecision, decision]

/-- The contract says which models it allows, and the one that served can be looked for. -/
def RouteReadable (c : Dict) (actual : Value) : Prop :=
  (∀ k ∈ ["requested_model", "allowed_models", "fallback_policy"], hasKey c k = true) ∧
  (actual.eq (getOr c "requested_model") = true ∨ Returns (isIn actual (getOr c "allowed_models")))

/-- E8 reads the three routing fields of the contract. -/
theorem evalE8_keys {ev : EvidenceSet} {c : Dict} {actual : Value} {source : String}
    {grade : Grade} (hc : ev.c = some c)
    (seen : modelSeen ev = .ok (some (actual, source, grade))) (returned : Returns (evalE8 K ev)) :
    ∀ k ∈ ["requested_model", "allowed_models", "fallback_policy"], hasKey c k = true := by
  rw [evalE8, hc] at returned
  simp only [seen, ok_bind] at returned
  obtain ⟨requested, hq, returned⟩ := returns_bind.mp returned
  obtain ⟨allowed, ha, returned⟩ := returns_bind.mp returned
  obtain ⟨fallback, hf, returned⟩ := returns_bind.mp returned
  intro k member
  simp only [List.mem_cons, List.not_mem_nil, or_false] at member
  rcases member with rfl | rfl | rfl
  · exact getItem_returns.mp ⟨_, hq⟩
  · exact getItem_returns.mp ⟨_, ha⟩
  · exact getItem_returns.mp ⟨_, hf⟩

/-- Once the served model is known, E8 raises exactly where the route cannot be read. -/
theorem evalE8_reads {ev : EvidenceSet} {c : Dict} {actual : Value} {source : String}
    {grade : Grade} (hc : ev.c = some c)
    (seen : modelSeen ev = .ok (some (actual, source, grade)))
    (relay : ∀ r, ev.r = some r → Complete ctRelay r) :
    Returns (evalE8 K ev) ↔ RouteReadable c actual := by
  obtain ⟨decision, hd⟩ := relayDecision_returns relay
  constructor
  · intro returned
    refine ⟨evalE8_keys hc seen returned, ?_⟩
    rw [evalE8, hc] at returned
    simp only [seen, ok_bind] at returned
    obtain ⟨requested, hq, returned⟩ := returns_bind.mp returned
    obtain ⟨allowed, ha, returned⟩ := returns_bind.mp returned
    obtain ⟨fallback, -, returned⟩ := returns_bind.mp returned
    obtain ⟨found, -, returned⟩ := returns_bind.mp returned
    rw [getItem_getOr hq, getItem_getOr ha]
    by_cases same : actual.eq requested = true
    · exact .inl same
    · rw [if_neg same, judgeRoute_returns relay] at returned
      exact .inr returned
  · rintro ⟨keys, readable⟩
    rw [evalE8, hc]
    simp only [seen, ok_bind]
    rw [getItem_of_hasKey (keys "requested_model" (by decide)), ok_bind,
      getItem_of_hasKey (keys "allowed_models" (by decide)), ok_bind,
      getItem_of_hasKey (keys "fallback_policy" (by decide)), ok_bind, hd, ok_bind]
    by_cases same : actual.eq (getOr c "requested_model") = true
    · rw [if_pos same]
      exact ⟨_, rfl⟩
    · rw [if_neg same, judgeRoute_returns relay]
      exact readable.resolve_left same

/-- The model that served, where the receipt or the relay names one. -/
theorem modelSeen_of_served {ev : EvidenceSet} {model : Value} (served : Served ev.m ev.r model)
    (relay : ∀ r, ev.r = some r → Complete ctRelay r)
    (named : ∀ d, ev.m = some d → hasKey d "model_id" = true) :
    ∃ source grade, modelSeen ev = .ok (some (model, source, grade)) := by
  rw [modelSeen]
  rcases served with ⟨m, hm, rfl⟩ | ⟨hm, r, hr, rfl⟩
  · rw [hm]
    simp only [getItem_of_hasKey (named m hm), ok_bind]
    exact ⟨_, _, rfl⟩
  · rw [hm, hr]
    simp only [(relay r hr).item (k := "upstream_model") (by decide), ok_bind]
    exact ⟨_, _, rfl⟩

/-- E8 is evaluated exactly where each served model is the requested one or can be looked up. -/
theorem evalE8_returns {ev : EvidenceSet} (keyed : Keyed K ev)
    (named : ∀ d, ev.m = some d → hasKey d "model_id" = true) :
    Returns (evalE8 K ev) ↔ (ev.c.isSome = true → ∀ model, Served ev.m ev.r model →
      model.eq (field ev.c "requested_model") = true ∨
        Returns (isIn model (field ev.c "allowed_models"))) := by
  cases hc : ev.c with
  | none => simp [evalE8, hc]
  | some c =>
    have keys : ∀ k ∈ ["requested_model", "allowed_models", "fallback_policy"],
        hasKey c k = true := by
      intro k member
      simp only [List.mem_cons, List.not_mem_nil, or_false] at member
      rcases member with rfl | rfl | rfl
      all_goals exact keyed.contract c hc _ (by decide)
    constructor
    · intro returned _ model served
      obtain ⟨source, grade, seen⟩ := modelSeen_of_served served keyed.relay named
      exact ((evalE8_reads hc seen keyed.relay).mp returned).2
    · intro readable
      cases unseen : (ev.m.isNone && ev.r.isNone) with
      | true =>
        have nobody : modelSeen ev = .ok none := by
          simp only [Bool.and_eq_true, Option.isNone_iff_eq_none] at unseen
          rw [modelSeen, unseen.1, unseen.2]
        simp [evalE8, hc, nobody]
      | false =>
        obtain ⟨model, served⟩ : ∃ model, Served ev.m ev.r model := by
          cases hm : ev.m with
          | some m => exact ⟨_, .inl ⟨m, rfl, rfl⟩⟩
          | none =>
            cases hr : ev.r with
            | some r => exact ⟨_, .inr ⟨rfl, r, rfl, rfl⟩⟩
            | none => simp [hm, hr] at unseen
        obtain ⟨source, grade, seen⟩ := modelSeen_of_served served keyed.relay named
        exact (evalE8_reads hc seen keyed.relay).mpr ⟨keys, readable rfl model served⟩

/-- E9 needs a model name that can be looked up, and the hash where a reference is known. -/
theorem evalE9_returns (ev : EvidenceSet) :
    Returns (evalE9 K ev) ↔ ∀ d, ev.m = some d → hasKey d "model_id" = true ∧
      (getOr d "model_id").hashable = true ∧
      ∀ ref, find ev.referenceModelHashes (getOr d "model_id") = some ref → ref ≠ .null →
        hasKey d "model_hash" = true := by
  rw [evalE9]
  cases ev.m with
  | none => simp
  | some m =>
    simp only [Option.some.injEq, forall_eq']
    by_cases named : hasKey m "model_id" = true
    · rw [getItem_of_hasKey named, ok_bind]
      by_cases hashable : (getOr m "model_id").hashable = true
      · simp only [lookup, hashable, if_true, ok_bind, named, true_and]
        cases found : find ev.referenceModelHashes (getOr m "model_id") with
        | none => simp [Value.isNone]
        | some ref =>
          simp only [Option.getD_some, Option.some.injEq, forall_eq']
          cases absent : ref.isNone with
          | true => simp [(isNone_iff ref).mp absent]
          | false =>
            have present := (isNone_false_iff ref).mp absent
            simp only [Bool.false_eq_true, if_false, returns_bind]
            constructor
            · rintro ⟨hash, hh, -⟩ -
              exact getItem_returns.mp ⟨hash, hh⟩
            · intro hashed
              exact ⟨_, getItem_of_hasKey (hashed present), by simp⟩
      · simp [lookup, hashable]
    · have absent : ¬ Returns (getItem m "model_id") := fun h => named (getItem_returns.mp h)
      simp only [named, returns_bind]
      constructor
      · rintro ⟨model, h, -⟩
        exact absurd ⟨model, h⟩ absent
      · rintro ⟨⟨⟩, -⟩

/-- The response transforms are read only of a contract that is there. -/
theorem responseTransforms_returns {c : Option Dict}
    (complete : ∀ x, c = some x → Complete ctContract x) :
    Returns (responseTransforms c) ↔
      (c.isSome = true → Returns (field c "allowed_response_transforms").iterate) := by
  cases c with
  | none => simp [responseTransforms]
  | some x =>
    rw [responseTransforms, (complete x rfl).item (by decide), ok_bind]
    simp [field]

/-- E10 needs a list of response transforms only where there are responses to compare. -/
theorem evalE10_returns {ev : EvidenceSet} (keyed : Keyed K ev) :
    Returns (evalE10 K ev) ↔ (ev.c.isSome = true → ev.o.isSome = true →
      field ev.m "response_commit" ≠ .null →
      Returns (field ev.c "allowed_response_transforms").iterate) := by
  rw [evalE10]
  cases hm : ev.m with
  | none => simp [field]
  | some m =>
    have same : field (some m) "response_commit" = getOr m "response_commit" := rfl
    rw [same]
    cases signed : (getOr m "response_commit").isNone with
    | true => simp [(isNone_iff _).mp signed, Value.isNone]
    | false =>
      have spoken := (isNone_false_iff _).mp signed
      cases ho : ev.o with
      | none => simp [signed]
      | some o =>
        have received := (keyed.observation o ho).item (k := "resp_commit") (by decide)
        have declared := itemOrNull_returns keyed.relay (k := "response_transform_id") (by decide)
        have listed : Returns (responseTransforms ev.c) ↔ (ev.c.isSome = true →
            (some o).isSome = true → getOr m "response_commit" ≠ .null →
            Returns (field ev.c "allowed_response_transforms").iterate) := by
          rw [responseTransforms_returns keyed.contract]
          exact ⟨fun h hc _ _ => h hc, fun h hc => h hc rfl spoken⟩
        rw [← listed]
        simp only [signed, Bool.false_eq_true, if_false, returns_bind, declared]
        constructor
        · rintro ⟨allowed, iterated, -⟩
          exact ⟨allowed, iterated⟩
        · rintro ⟨allowed, iterated⟩
          refine ⟨allowed, iterated, _, rfl, ?_⟩
          split
          · simp
          · split
            · simp
            · simp [present_of_spoken signed, received]

/-- A set is built exactly of hashable values. -/
theorem distinct_returns (xs : List Value) :
    Returns (distinct xs) ↔ ∀ x ∈ xs, x.hashable = true := by
  have folded : ∀ (xs seen : List Value), Returns (xs.foldlM (fun seen x =>
      if x.hashable then (.ok (if memberOf x seen then seen else seen ++ [x]) : Py (List Value))
      else .error .typeError) seen) ↔ ∀ x ∈ xs, x.hashable = true := by
    intro xs
    induction xs with
    | nil =>
      intro seen
      simp
    | cons x xs ih =>
      intro seen
      rw [List.foldlM_cons]
      by_cases named : x.hashable = true
      · rw [if_pos named, ok_bind, ih]
        simp [named]
      · rw [if_neg named]
        simp [named]
  exact folded xs []

theorem attemptIds_values (ev : EvidenceSet) : (attemptIds ev).map Prod.snd =
    ([ev.c, ev.r, ev.m, ev.o].filterMap id).map fun d => getOr d "attempt_id" := by
  rw [attemptIds]
  cases ev.c <;> cases ev.r <;> cases ev.m <;> cases ev.o <;> rfl

/-- E11 needs hashable attempts where at least two parties spoke. -/
theorem evalE11_returns (ev : EvidenceSet) :
    Returns (evalE11 ev) ↔ (2 ≤ ([ev.c, ev.r, ev.m, ev.o].filterMap id).length →
      ∀ d ∈ [ev.c, ev.r, ev.m, ev.o].filterMap id, (getOr d "attempt_id").hashable = true) := by
  have values := attemptIds_values ev
  have count : (attemptIds ev).length = ([ev.c, ev.r, ev.m, ev.o].filterMap id).length := by
    have := congrArg List.length values
    simpa only [List.length_map] using this
  rw [evalE11, ← count]
  by_cases few : (attemptIds ev).length < 2
  · simp only [few, if_true, returns_ok, true_iff]
    intro many
    omega
  · have many : 2 ≤ (attemptIds ev).length := by omega
    simp only [few, if_false, returns_bind, many, forall_true_left]
    rw [values]
    constructor
    · rintro ⟨found, h, -⟩ d member
      exact (distinct_returns _).mp ⟨found, h⟩ _ (List.mem_map_of_mem member)
    · intro named
      obtain ⟨found, h⟩ := (distinct_returns (([ev.c, ev.r, ev.m, ev.o].filterMap id).map
        fun d => getOr d "attempt_id")).mpr (by
          intro x member
          obtain ⟨d, inside, rfl⟩ := List.mem_map.mp member
          exact named d inside)
      exact ⟨found, h, by simp⟩

/-- E12 compares the two times only where both are there. -/
theorem evalE12_returns {ev : EvidenceSet} (keyed : Keyed K ev) :
    Returns (evalE12 ev) ↔ (ev.c.isSome = true → ev.o.isSome = true →
      Returns (less true (field ev.o "received_at") (field ev.c "expires_at"))) := by
  rw [evalE12]
  cases hc : ev.c with
  | none => simp
  | some c =>
    cases ho : ev.o with
    | none => simp
    | some o =>
      have received := (keyed.observation o ho).item (k := "received_at") (by decide)
      have expires := (keyed.contract c hc).item (k := "expires_at") (by decide)
      simp only [received, expires, ok_bind, Option.isSome_some, forall_true_left, field]
      cases less true (getOr o "received_at") (getOr c "expires_at") <;> simp

/-- Errors that the engine's own handlers turn into an absent value. -/
def Tame {A : Type} (x : Py A) : Prop := ∀ e, x = .error e → caught e = true

theorem tame_ok {A : Type} (a : A) : Tame (.ok a : Py A) := by
  rintro e ⟨⟩

/-- Computations that raise only what the engine catches stay so in sequence. -/
theorem tame_bind {A B : Type} {x : Py A} {f : A → Py B} (hx : Tame x) (hf : ∀ a, Tame (f a)) :
    Tame (x >>= f) := by
  cases x with
  | error e =>
    rintro e' ⟨⟩
    exact hx e rfl
  | ok a => exact hf a

theorem tryRead_returns {A : Type} {x : Py A} (tame : Tame x) : Returns (tryRead x) := by
  cases h : x with
  | ok a => simp [tryRead]
  | error e => simp [tryRead, tame e h]

/-- `int()` raises `TypeError` or `ValueError`, both of which the engine catches. -/
theorem tame_intOf (v : Value) : Tame (intOf v) := by
  intro e h
  cases v with
  | str s =>
    rw [intOf, intOfText] at h
    split at h
    all_goals
      split at h
      · cases h
      · cases h
        rfl
  | int n => cases h
  | bool b => cases h
  | _ =>
    cases h
    rfl

theorem tame_iterate (v : Value) : Tame v.iterate := by
  intro e h
  cases v with
  | list xs => cases h
  | str s => cases h
  | dict kvs => cases h
  | _ =>
    cases h
    rfl

theorem tame_foldlM {A B : Type} {f : B → A → Py B} (xs : List A) (hf : ∀ b a, Tame (f b a))
    (b : B) : Tame (xs.foldlM f b) := by
  induction xs generalizing b with
  | nil => exact tame_ok b
  | cons x xs ih =>
    rw [List.foldlM_cons]
    exact tame_bind (hf b x) fun b' => ih b'

theorem tame_dictOf (v : Value) : Tame (dictOf v) := by
  cases v with
  | dict kvs => exact tame_ok kvs
  | _ =>
    refine tame_bind (tame_iterate _) fun ps => tame_foldlM ps (fun d p => ?_) []
    refine tame_bind (tame_iterate p) fun kv => ?_
    intro e h
    split at h
    · split at h
      · cases h
      · cases h
        rfl
    · cases h
      rfl

theorem tame_item (kvs : Dict) (k : String) : Tame ((Value.dict kvs).item k) := by
  intro e h
  rw [Value.item] at h
  split at h
  · cases h
  · cases h
    rfl

/-- Reading a shown statement fails only in ways that the engine catches. -/
theorem tame_fromDict (v : Value) : Tame (SignedStatement.fromDict v) := by
  cases v with
  | dict kvs =>
    rw [SignedStatement.fromDict]
    refine tame_bind (tame_item kvs _) fun iss => tame_bind (tame_item kvs _) fun sub =>
      tame_bind (tame_item kvs _) fun contentType => tame_bind (tame_item kvs _) fun kid =>
      tame_bind (tame_item kvs _) fun at_ => tame_bind (tame_intOf at_) fun issuedAt =>
      tame_bind (tame_item kvs _) fun payload => tame_bind (tame_dictOf payload) fun d => ?_
    exact tame_ok _
  | _ =>
    intro e h
    cases h
    rfl

mutual
/-- The check before canonical writing fails only in ways that the engine catches. -/
theorem tame_check (path : String) : ∀ v : Value, Tame (CanonicalJson.check path v)
  | .list xs => by
    rw [CanonicalJson.check]
    exact tame_checkList path 0 xs
  | .dict kvs => by
    rw [CanonicalJson.check]
    exact tame_checkDict path kvs
  | .null => tame_ok ()
  | .bool _ => tame_ok ()
  | .int _ => tame_ok ()
  | .str _ => tame_ok ()

theorem tame_checkList (path : String) (i : Nat) : ∀ xs : List Value,
    Tame (CanonicalJson.checkList path i xs)
  | [] => tame_ok ()
  | x :: xs => by
    rw [CanonicalJson.checkList]
    exact tame_bind (tame_check _ x) fun _ => tame_checkList path (i + 1) xs

theorem tame_checkDict (path : String) : ∀ kvs : List (Value × Value),
    Tame (CanonicalJson.checkDict path kvs)
  | [] => tame_ok ()
  | (k, v) :: rest => by
    cases k with
    | str s =>
      simp only [CanonicalJson.checkDict]
      split
      · exact tame_bind (tame_check _ v) fun _ => tame_checkDict path rest
      · rintro e ⟨⟩
        rfl
    | _ =>
      rintro e ⟨⟩
      rfl
end

theorem tame_canonicalJson (v : Value) : Tame (canonicalJson v) := by
  rw [canonicalJson]
  exact tame_bind (tame_check _ v) fun _ => tame_ok _

theorem tame_readHash (v : Value) : Tame (readHash K v) := by
  rw [readHash]
  exact tame_bind (tame_fromDict v) fun s =>
    tame_bind (tame_canonicalJson _) fun bytes => tame_ok _

/-- What gathering leaves in place for the judgment. -/
structure Settled (K : Primitives) (ev : EvidenceSet) : Prop where
  authorized : ev.unauthorizedIssuers = []
  hashed : ∀ s, ev.receipt = some s → Returns (s.statementHash K)
  dated : ev.c.isSome = true → ∃ ref ∈ ev.refs, ref.registeredAt.isSome = true

/-- Comparing the shown copies never raises on settled evidence. -/
theorem presentedDiffers_returns {ev : EvidenceSet} (settled : Settled K ev) :
    Returns (presentedDiffers K ev) := by
  rw [presentedDiffers]
  cases hr : ev.receipt with
  | none => simp
  | some receipt =>
    dsimp only
    split
    · simp
    · obtain ⟨shown, hs⟩ := tryRead_returns
        (tame_readHash (K := K) (field ev.o "presented_receipt"))
      obtain ⟨registered, hh⟩ := settled.hashed receipt hr
      rw [hs, ok_bind]
      cases shown with
      | none => simp
      | some hash =>
        simp only [hh, ok_bind]
        split <;> simp

theorem missingOf_returns (ev : EvidenceSet) {parties : List String}
    (known : ∀ x ∈ parties, x ∈ ["U", "R", "M"]) : Returns (missingOf ev parties) := by
  induction parties with
  | nil => simp [missingOf]
  | cons party parties ih =>
    obtain ⟨rest, hr⟩ := ih fun x hx => known x (List.mem_cons_of_mem _ hx)
    have listed : (expectedByParty.lookup party).isSome = true := by
      have := known party List.mem_cons_self
      simp only [List.mem_cons, List.not_mem_nil, or_false] at this
      rcases this with rfl | rfl | rfl <;> rfl
    obtain ⟨kinds, hk⟩ := Option.isSome_iff_exists.mp listed
    simp [missingOf, hk, hr]

/-- Completeness reads the decision of M's receipt and nothing else that may be absent. -/
theorem assessCompleteness_returns {ev : EvidenceSet} {parties : List String}
    (keyed : Keyed K ev) (known : ∀ x ∈ parties, x ∈ ["U", "R", "M"]) :
    Returns (assessCompleteness ev parties) ↔
      ∀ d, ev.m = some d → hasKey d "decision" = true := by
  obtain ⟨missing, hm⟩ := missingOf_returns ev known
  have byRelay : Returns (refused ev.r "policy_decision") := by
    cases hr : ev.r with
    | none => simp [refused]
    | some r => simp [refused, (keyed.relay r hr).item (k := "policy_decision") (by decide)]
  obtain ⟨relayRefused, hr⟩ := byRelay
  have byModel : Returns (refused ev.m "decision") ↔
      ∀ d, ev.m = some d → hasKey d "decision" = true := by
    cases ev.m with
    | none => simp [refused]
    | some m =>
      rw [refused, returns_bind]
      constructor
      · rintro ⟨v, h, -⟩ d hd
        obtain rfl := Option.some.inj hd
        exact getItem_returns.mp ⟨v, h⟩
      · intro keyed
        exact ⟨_, getItem_of_hasKey (keyed m rfl), by simp⟩
  rw [← byModel, assessCompleteness, hm, ok_bind, hr, ok_bind, returns_bind]
  constructor
  · rintro ⟨modelRefused, h, -⟩
    exact ⟨modelRefused, h⟩
  · rintro ⟨modelRefused, h⟩
    exact ⟨modelRefused, h, by simp⟩

/-- Lateness is computed where the client's time is absent or a number. -/
theorem lateRegistrations_returns {engine : ReconciliationEngine} {ev : EvidenceSet}
    (settled : Settled K ev) : Returns (lateRegistrations engine ev) ↔
      (field ev.c "client_time" = .null ∨ (number (field ev.c "client_time")).isSome = true) := by
  rw [lateRegistrations]
  cases silent : (field ev.c "client_time").isNone with
  | true => simp [(isNone_iff _).mp silent]
  | false =>
    have spoken := (isNone_false_iff _).mp silent
    have there : ev.c.isSome = true := by
      cases hc : ev.c with
      | none => simp [hc, field] at spoken
      | some c => rfl
    obtain ⟨stamped, inside, at_⟩ := settled.dated there
    simp only [Bool.false_eq_true, if_false, spoken, false_or, returns_bind, pure_ok,
      returns_ok, and_true]
    have each : (∃ a, ev.refs.mapM (lateRef engine (field ev.c "client_time")) = .ok a) ↔
        ∀ ref ∈ ev.refs, Returns (lateRef engine (field ev.c "client_time") ref) := mapM_returns
    rw [each]
    cases clock : number (field ev.c "client_time") with
    | none =>
      obtain ⟨t, ht⟩ := Option.isSome_iff_exists.mp at_
      simp only [Option.isSome_none, Bool.false_eq_true, iff_false]
      intro all
      have := all stamped inside
      simp [lateRef, ht, clock] at this
    | some t =>
      simp only [Option.isSome_some, iff_true]
      intro ref _
      rw [lateRef]
      cases ref.registeredAt <;> simp [clock]

theorem addDefinition_returns (defs : Dict) (t : Value) :
    Returns (addDefinition K defs t) ↔ t.hashable = true := by
  rw [addDefinition, transformDefinitionHash, lookup]
  by_cases named : t.hashable = true
  · simp only [named, if_true, ok_bind, pure_ok, iff_true]
    cases (find requestTransforms t) <;> simp
  · simp [named]

/-- The definitions of transforms are keyed by them, so each must be hashable. -/
theorem addDefinitions_returns (ts : List Value) (defs : Dict) :
    Returns (ts.foldlM (addDefinition K) defs) ↔ ∀ t ∈ ts, t.hashable = true := by
  induction ts generalizing defs with
  | nil => simp
  | cons t ts ih =>
    rw [List.foldlM_cons, returns_bind]
    constructor
    · rintro ⟨d, hd, rest⟩ u member
      rcases List.mem_cons.mp member with rfl | member
      · exact (addDefinition_returns defs u).mp ⟨d, hd⟩
      · exact (ih d).mp rest u member
    · intro named
      obtain ⟨d, hd⟩ := (addDefinition_returns (K := K) defs t).mpr (named t List.mem_cons_self)
      exact ⟨d, hd, (ih d).mpr fun u hu => named u (List.mem_cons_of_mem _ hu)⟩

theorem transformDefinitions_returns {c : Option Dict}
    (complete : ∀ x, c = some x → Complete ctContract x) :
    Returns (transformDefinitions K c) ↔ (c.isSome = true → ∃ allowed,
      (field c "allowed_request_transforms").iterate = .ok allowed ∧
      ∀ t ∈ allowed, t.hashable = true) := by
  cases c with
  | none => simp [transformDefinitions]
  | some c =>
    have keyed := complete c rfl
    cases c with
    | nil =>
      have := keyed "profile" (by decide)
      simp [hasKey, find] at this
    | cons x xs =>
      rw [transformDefinitions, keyed.item (by decide), ok_bind, returns_bind]
      simp only [addDefinitions_returns, Option.isSome_some, forall_true_left, field]

/-- With complete statements the engine returns exactly when they are judgeable. -/
theorem reconcile_returns {engine : ReconciliationEngine} {ev : EvidenceSet}
    {parties : List String} (keyed : Keyed K ev) (settled : Settled K ev)
    (known : ∀ x ∈ parties, x ∈ ["U", "R", "M"]) :
    Returns (reconcile K engine ev parties) ↔
      Judgeable ev.referenceModelHashes ev.c ev.r ev.m ev.o := by
  have completeness := assessCompleteness_returns keyed known
  constructor
  · intro returned
    obtain ⟨eqs, evaluated, rest⟩ := returns_bind.mp returned
    obtain ⟨assessed, hc, rest⟩ := returns_bind.mp rest
    obtain ⟨unauthorized, -, rest⟩ := returns_bind.mp rest
    obtain ⟨differs, -, rest⟩ := returns_bind.mp rest
    obtain ⟨lateItems, hl, rest⟩ := returns_bind.mp rest
    obtain ⟨definitions, hd, -⟩ := returns_bind.mp rest
    have each := fun k => evaluateEquations_returns.mp ⟨eqs, evaluated⟩ k
    have artifact := (evalE9_returns ev).mp (each .e9)
    have decided := completeness.mp ⟨assessed, hc⟩
    exact {
      transforms := (transformDefinitions_returns keyed.contract).mp ⟨definitions, hd⟩
      responses := (evalE10_returns keyed).mp (each .e10)
      served := (evalE8_returns keyed fun d h => (artifact d h).1).mp (each .e8)
      receipt := fun d h => ⟨(artifact d h).1, decided d h, (artifact d h).2.1⟩
      artifact := fun d ref h => (artifact d h).2.2 ref
      attempts := (evalE11_returns ev).mp (each .e11)
      expiry := (evalE12_returns keyed).mp (each .e12)
      clock := (lateRegistrations_returns settled).mp ⟨lateItems, hl⟩ }
  · intro judgeable
    have each : ∀ k, Returns (evalEq K k ev) := by
      intro k
      cases k with
      | e1 => exact evalE1_returns keyed
      | e2 => exact evalE2_returns keyed
      | e3 => exact evalE3_returns keyed
      | e4 => exact evalE4_returns keyed judgeable
      | e5 => exact evalE5_returns keyed
      | e6 => exact evalE6_returns ev
      | e7 => exact evalE7_returns keyed
      | e8 => exact (evalE8_returns keyed fun d h => (judgeable.receipt d h).1).mpr judgeable.served
      | e9 => exact (evalE9_returns ev).mpr fun d h => ⟨(judgeable.receipt d h).1,
          (judgeable.receipt d h).2.2, fun ref => judgeable.artifact d ref h⟩
      | e10 => exact (evalE10_returns keyed).mpr judgeable.responses
      | e11 => exact (evalE11_returns ev).mpr judgeable.attempts
      | e12 => exact (evalE12_returns keyed).mpr judgeable.expiry
    obtain ⟨eqs, evaluated⟩ := evaluateEquations_returns.mpr each
    obtain ⟨assessed, hc⟩ := completeness.mpr fun d h => (judgeable.receipt d h).2.1
    obtain ⟨differs, hp⟩ := presentedDiffers_returns settled
    have timed : Returns (lateRegistrations engine ev) :=
      (lateRegistrations_returns settled).mpr judgeable.clock
    obtain ⟨lateItems, hl⟩ := timed
    obtain ⟨definitions, hd⟩ := (transformDefinitions_returns (K := K) keyed.contract).mpr
      judgeable.transforms
    simp [reconcile, evaluated, hc, settled.authorized, hp, hl, hd]

end Judgeability
