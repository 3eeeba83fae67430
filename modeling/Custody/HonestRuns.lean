import Custody.Exchange
import Custody.GateAgreement
import Custody.RegisteredCompleteness

/-!
# Honest runs pass

What an honest user, relay and model operator state of one exchange, for arbitrary
requests, responses, salts and contracts. Once the four statements are registered,
every equation holds of them and every local check passes. Nothing is assumed of
the hash: honest commitments agree because they are made of the same bytes.
-/

namespace HonestRuns

open PyValue Equality HexBytes CanonicalJson Commitments Statements Schemas Evidence Equations
  EquationMeaning Discrepancies Engine EngineMeaning Judgeability TransparencyLog
  RegisteredEvidence RegisteredCompleteness PassedVerdict UserGate GateSoundness GateAgreement
  Exchange

/-- One exchange: what was asked under which salt, what reached the model, what came back, and
what each party states of it. -/
structure Run where
  attemptId : String
  nonce : String
  salt : String
  request : Dict
  transform : String
  sent : Dict
  model : String
  reference : String
  response : Dict
  terms : ContractTerms
  private_ : PrivateEvidence
  relayed : RelayReport
  served : ReceiptReport
  observed : ObservationReport
  contract : SignedStatement
  relay : SignedStatement
  receipt : SignedStatement
  observation : SignedStatement

variable (K : Primitives)

def Commits (salt : String) (body : Dict) (commitment : String) : Prop :=
  commitOf K (some salt) (.dict body) = .ok (some commitment)

instance (salt : String) (body : Dict) (commitment : String) :
    Decidable (Commits K salt body commitment) :=
  inferInstanceAs (Decidable (_ = _))

/-- The user signs a contract over its request and observes the response in time. -/
structure HonestUser (run : Run) : Prop where
  attempt : run.terms.attemptId = run.attemptId
  nonce : run.terms.nonce = run.nonce
  request : ∃ hash, contentHash K (.dict run.request) = .ok hash ∧
    commitHex K (.str run.salt) (.str hash) = .ok run.terms.reqCommit ∧
    run.private_.requestHash = .str hash
  salt : run.private_.salt = .str run.salt
  expected : if publicFormatterV1 ∈ run.terms.allowedRequestTransforms then
      ∃ commitment, Commits K run.salt (publicFormatter run.request) commitment ∧
        run.private_.expectedRequestCommits = textFields [(publicFormatterV1, commitment)]
    else run.private_.expectedRequestCommits = []
  unchanged : run.terms.allowedResponseTransforms = [identity]
  observed : run.observed.attemptId = run.attemptId
  response : Commits K run.salt run.response run.observed.respCommit
  timely : run.observed.receivedAt ≤ run.terms.expiresAt
  shown : run.observed.presentedReceipt = run.receipt.toDict
  contract : run.contract.contentType = .str ctContract ∧
    run.contract.payload = contractPayload run.terms
  observation : run.observation.contentType = .str ctObservation ∧
    run.observation.payload = observationPayload run.observed

/-- The relay applies the transform it declares, passes the nonce and the salt on and the response
back, and declares a fallback where it routes to another model. -/
structure HonestRelay (run : Run) : Prop where
  attempt : run.relayed.attemptId = run.attemptId
  allowed : run.transform ∈ run.terms.allowedRequestTransforms
  applied : applyTransform run.transform run.request = some run.sent
  declared : run.relayed.requestTransformId = run.transform
  nonce : run.relayed.nonceForwarded = some run.nonce
  salt : run.relayed.saltForwarded = true
  route : run.model = run.terms.requestedModel ∨ run.model ∈ run.terms.allowedModels ∧
    run.terms.fallbackPolicy ≠ "none" ∧ run.relayed.policyDecision = "fallback"
  upstream : run.relayed.upstreamModel = run.model
  received : Commits K run.salt run.request run.relayed.inCommit
  forwarded : Commits K run.salt run.sent run.relayed.outCommit
  answered : ∃ commitment, Commits K run.salt run.response commitment ∧
    run.relayed.respInCommit = some commitment ∧ run.relayed.respOutCommit = some commitment
  unchanged : run.relayed.responseTransformId = identity
  statement : run.relay.contentType = .str ctRelay ∧ run.relay.payload = relayPayload run.relayed

/-- The model operator signs what it saw and what it answered. -/
structure HonestModel (run : Run) : Prop where
  attempt : run.served.attemptId = .str run.attemptId
  nonce : run.served.eatNonce = .str run.nonce
  request : ∃ commitment, Commits K run.salt run.sent commitment ∧
    run.served.requestCommit = some commitment
  response : ∃ commitment, Commits K run.salt run.response commitment ∧
    run.served.responseCommit = some commitment
  model : run.served.modelId = .str run.model
  artifact : run.served.modelHash = .str run.reference
  decision : run.served.decision = "served"
  statement : run.receipt.contentType = .str ctReceipt ∧
    run.receipt.payload = receiptPayload run.served

structure HonestRun extends Run where
  byUser : HonestUser K toRun
  byRelay : HonestRelay K toRun
  byModel : HonestModel K toRun

def Run.statements (run : Run) : List SignedStatement :=
  [run.contract, run.relay, run.receipt, run.observation]

/-- The entries are the four statements, in any order, and each passed the check of the log whose
keys and rights the engine uses. -/
structure Registered (engine : ReconciliationEngine) (log : Log) (entries : List LogEntry)
    (run : Run) : Prop where
  trusted : engine.trustedKeys = log.policy.trusted
  rights : engine.issuerContentTypes = log.policy.issuerContentTypes
  passed : ∀ e ∈ entries, log.checkPolicy K e.statement = .ok []
  only : ∀ e ∈ entries, e.statement ∈ run.statements
  all : ∀ s ∈ run.statements, ∃ e ∈ entries, e.statement = s

/-- The gate knows the model's key and its reference. -/
structure Equipped (gate : Gate) (log : Log) (run : Run) : Prop where
  key : find gate.trustedModelKeys run.receipt.kid =
    (find log.policy.trusted run.receipt.kid).map Prod.snd
  reference : find gate.referenceModelHashes (.str run.model) = some (.str run.reference)

variable {K}

/-- A salt and a body have one commitment. -/
theorem Commits.unique {salt c c' : String} {body : Dict} (first : Commits K salt body c)
    (second : Commits K salt body c') : c = c' := by
  rw [Commits, second] at first
  exact (Option.some.inj (Except.ok.inj first)).symm

/-- A commitment is computed from the hash of the body. -/
theorem commits_of_hash {salt hash c : String} {body : Dict}
    (hashed : contentHash K (.dict body) = .ok hash)
    (committed : commitHex K (.str salt) (.str hash) = .ok c) : Commits K salt body c := by
  rw [Commits, commitOf, hashed, ok_bind, committed]
  rfl

section

variable {run : HonestRun K} {engine : ReconciliationEngine} {ev : EvidenceSet}

/-- The four statements are what was gathered. -/
structure Holding (run : HonestRun K) (engine : ReconciliationEngine) (ev : EvidenceSet) :
    Prop where
  contract : ev.contract = some run.contract
  relay : ev.relay = some run.relay
  receipt : ev.receipt = some run.receipt
  observation : ev.observation = some run.observation
  private_ : ev.privateEvidence = some run.private_
  references : ev.referenceModelHashes = engine.referenceModelHashes
  invalid : ev.invalidSignatures = []
  unauthorized : ev.unauthorizedIssuers = []

/-- The evidence holds the contract of the run. -/
theorem Holding.c (holding : Holding run engine ev) : ev.c = some (contractPayload run.terms) := by
  rw [EvidenceSet.c, holding.contract, Option.map_some, run.byUser.contract.2]

/-- The evidence holds the relay's record of the run. -/
theorem Holding.r (holding : Holding run engine ev) : ev.r = some (relayPayload run.relayed) := by
  rw [EvidenceSet.r, holding.relay, Option.map_some, run.byRelay.statement.2]

/-- The evidence holds M's receipt of the run. -/
theorem Holding.m (holding : Holding run engine ev) : ev.m = some (receiptPayload run.served) := by
  rw [EvidenceSet.m, holding.receipt, Option.map_some, run.byModel.statement.2]

/-- The evidence holds the user's observation of the run. -/
theorem Holding.o (holding : Holding run engine ev) :
    ev.o = some (observationPayload run.observed) := by
  rw [EvidenceSet.o, holding.observation, Option.map_some, run.byUser.observation.2]

variable (run)

theorem reqCommit_commits : Commits K run.salt run.request run.terms.reqCommit := by
  obtain ⟨hash, hashed, committed, -⟩ := run.byUser.request
  exact commits_of_hash hashed committed

/-- M signed the request that R says it forwarded. -/
theorem requestCommit_signed : run.served.requestCommit = some run.relayed.outCommit := by
  obtain ⟨commitment, commits, signed⟩ := run.byModel.request
  rw [signed, commits.unique run.byRelay.forwarded]

/-- M signed the response that U received. -/
theorem responseCommit_signed : run.served.responseCommit = some run.observed.respCommit := by
  obtain ⟨commitment, commits, signed⟩ := run.byModel.response
  rw [signed, commits.unique run.byUser.response]

theorem responses_relayed : run.relayed.respInCommit = some run.observed.respCommit ∧
    run.relayed.respOutCommit = some run.observed.respCommit := by
  obtain ⟨commitment, commits, received, sent⟩ := run.byRelay.answered
  rw [received, sent, commits.unique run.byUser.response]
  exact ⟨rfl, rfl⟩

theorem memberOf_strings {t : String} {ts : List String} (member : t ∈ ts) :
    memberOf (.str t) (ts.map .str) = true :=
  memberOf_str.mpr (List.mem_map_of_mem member)

/-- What reached the model has the commitment that the contract, or the user's own calculation,
lists for the transform applied. -/
theorem transform_listed :
    (run.transform = identity ∧ run.relayed.outCommit = run.terms.reqCommit) ∨
    (run.transform = publicFormatterV1 ∧ run.private_.expectedRequestCommits =
      textFields [(publicFormatterV1, run.relayed.outCommit)]) := by
  have applied := run.byRelay.applied
  have forwarded := run.byRelay.forwarded
  rw [applyTransform] at applied
  split at applied
  next same =>
    rw [← Option.some.inj applied] at forwarded
    exact .inl ⟨same, forwarded.unique (reqCommit_commits run)⟩
  next =>
    split at applied
    next formatter =>
      rw [← Option.some.inj applied] at forwarded
      have expected := run.byUser.expected
      rw [if_pos (formatter ▸ run.byRelay.allowed)] at expected
      obtain ⟨commitment, commits, listed⟩ := expected
      rw [commits.unique forwarded] at listed
      exact .inr ⟨formatter, listed⟩
    next => cases applied

variable {run}

theorem agree_text (s : String) : Agree (.str s) (.str s) :=
  ⟨Value.noConfusion, Value.noConfusion, (eq_str s _).mpr rfl⟩

theorem Holding.requests (holding : Holding run engine ev) :
    allowedRequests ev = run.terms.allowedRequestTransforms.map .str := by
  rw [allowedRequests, holding.c]
  rfl

theorem Holding.responses (holding : Holding run engine ev) :
    allowedResponses ev = [.str identity] := by
  have listed : allowedResponses ev =
      run.terms.allowedResponseTransforms.map .str := by
    rw [allowedResponses, holding.c]
    rfl
  rw [listed, run.byUser.unchanged]
  rfl

/-- The commitment M has seen is the one the relay sent out. -/
theorem Holding.seen (holding : Holding run engine ev) :
    commitSeen ev = some (.str run.relayed.outCommit) := by
  have signed : field ev.m "request_commit" = .str run.relayed.outCommit := by
    rw [holding.m]
    change optionText run.served.requestCommit = _
    rw [requestCommit_signed run]
    rfl
  rw [commitSeen, signed]
  rfl

/-- The commitment of the transform applied is among the approved ones. -/
theorem Holding.seen_approved (holding : Holding run engine ev) :
    Approved ev (.str run.relayed.outCommit) := by
  have permitted := memberOf_strings run.byRelay.allowed
  have base : approvedBase ev.c (allowedRequests ev) =
      if memberOf (.str identity) (run.terms.allowedRequestTransforms.map .str) = true then
        [(.str identity, .str run.terms.reqCommit)] else [] := by
    rw [approvedBase, holding.requests, holding.c]
    rfl
  have expected : expectedOf ev.privateEvidence = run.private_.expectedRequestCommits := by
    rw [holding.private_]
    rfl
  suffices found : find (approved ev) (.str run.transform) = some (.str run.relayed.outCommit) by
    obtain ⟨k, listed, -⟩ := find_mem found
    exact ⟨_, listed, (eq_str _ _).mpr rfl⟩
  rw [approved, base, expected, holding.requests]
  rcases transform_listed run with ⟨same, commitment⟩ | ⟨formatter, listed⟩
  · rw [same] at permitted ⊢
    rw [if_pos permitted, commitment]
    have own := run.byUser.expected
    by_cases formatted : publicFormatterV1 ∈ run.terms.allowedRequestTransforms
    · rw [if_pos formatted] at own
      obtain ⟨other, -, listed⟩ := own
      rw [listed]
      change find (addExpected _ _ (.str publicFormatterV1, .str other)) _ = _
      rw [addExpected, if_pos (memberOf_strings formatted), find_insert_str_ne _ (by decide)]
      rfl
    · rw [if_neg formatted] at own
      rw [own]
      rfl
  · rw [formatter] at permitted ⊢
    rw [listed]
    change find (addExpected _ _ (.str publicFormatterV1, .str run.relayed.outCommit)) _ = _
    rw [addExpected, if_pos permitted, find_insert_self _ (beq_self_eq_true _)]

theorem Holding.served (holding : Holding run engine ev) : modelServed ev = .str run.model := by
  rw [modelServed, holding.m]
  exact run.byModel.model

/-- The model served is the one requested, or an allowed fallback that the relay declared. -/
theorem Holding.routed (holding : Holding run engine ev) :
    ServedAsRequested ev ∨ ServedAllowed ev ∧
      field ev.c "fallback_policy" ≠ .str "none" ∧
      field ev.r "policy_decision" = .str "fallback" := by
  rw [ServedAsRequested, ServedAllowed, holding.served, holding.c, holding.r]
  rcases run.byRelay.route with requested | ⟨allowed, policy, declared⟩
  · left
    rw [requested]
    exact (eq_str _ _).mpr rfl
  · right
    refine ⟨congrArg Except.ok (memberOf_strings allowed), ?_, congrArg Value.str declared⟩
    intro none_
    exact policy (Value.str.inj none_)

/-- The reference hash of the model is the one M states. -/
theorem Holding.reference (holding : Holding run engine ev)
    (referenced : find engine.referenceModelHashes (.str run.model) = some (.str run.reference)) :
    referenceOf ev = .str run.reference := by
  have named : field ev.m "model_id" = .str run.model := by
    rw [holding.m]
    exact run.byModel.model
  rw [referenceOf, named, holding.references, referenced]
  rfl

theorem Holding.attempts (holding : Holding run engine ev) :
    (attemptIds ev).map Prod.snd = List.replicate 4 (.str run.attemptId) := by
  rw [attemptIds_values, holding.c, holding.r, holding.m, holding.o]
  change [Value.str run.terms.attemptId, .str run.relayed.attemptId, run.served.attemptId,
    .str run.observed.attemptId] = _
  rw [run.byUser.attempt, run.byRelay.attempt, run.byModel.attempt, run.byUser.observed]
  rfl

/-- Each of the twelve equations holds of the evidence of an honest run. -/
theorem Holding.holds (holding : Holding run engine ev)
    (referenced : find engine.referenceModelHashes (.str run.model) = some (.str run.reference))
    (k : EqId) : Holds K k ev := by
  have signed : field ev.m "response_commit" = .str run.observed.respCommit := by
    rw [holding.m]
    exact congrArg optionText (responseCommit_signed run)
  have received : field ev.o "resp_commit" = .str run.observed.respCommit := by
    rw [holding.o]
    rfl
  have nonce : field ev.c "nonce" = .str run.nonce := by
    rw [holding.c]
    exact congrArg Value.str run.byUser.nonce
  cases k with
  | e1 =>
    obtain ⟨hash, -, committed, requested⟩ := run.byUser.request
    refine ⟨run.private_, run.terms.reqCommit, holding.private_, ?_, ?_⟩
    · rw [run.byUser.salt, requested, committed]
    · rw [holding.c]
      rfl
  | e2 =>
    have same := run.byRelay.received.unique (reqCommit_commits run)
    rw [Holds, holding.c, holding.r]
    change Agree (.str run.relayed.inCommit) (.str run.terms.reqCommit)
    rw [same]
    exact agree_text _
  | e3 =>
    rw [Holds, holding.r, holding.m]
    change Agree (.str run.relayed.outCommit) (optionText run.served.requestCommit)
    rw [requestCommit_signed run]
    exact agree_text _
  | e4 =>
    refine ⟨.inr ?_, _, holding.seen, holding.seen_approved⟩
    rw [holding.requests, holding.r]
    change memberOf (.str run.relayed.requestTransformId) _ = true
    rw [run.byRelay.declared]
    exact memberOf_strings run.byRelay.allowed
  | e5 =>
    rw [Holds, nonce, holding.m, holding.r]
    constructor
    · rintro -
      exact (eq_str_right _ _).mpr run.byModel.nonce
    · rintro -
      exact (eq_str_right _ _).mpr (congrArg optionText run.byRelay.nonce)
  | e6 =>
    rw [Holds, signed, holding.r]
    change Agree _ (optionText run.relayed.respInCommit)
    rw [(responses_relayed run).1]
    exact agree_text _
  | e7 =>
    rw [Holds, received, holding.r]
    change Agree (optionText run.relayed.respOutCommit) _
    rw [(responses_relayed run).2]
    exact agree_text _
  | e8 => exact holding.routed
  | e9 =>
    rw [Holds, holding.reference referenced, holding.m]
    change Agree run.served.modelHash _
    rw [run.byModel.artifact]
    exact agree_text _
  | e10 =>
    rw [Holds, signed, received]
    refine ⟨.inr ?_, (eq_str _ _).mpr rfl⟩
    rw [holding.responses, holding.r]
    change memberOf (.str run.relayed.responseTransformId) _ = true
    rw [run.byRelay.unchanged]
    rfl
  | e11 =>
    rw [Holds, SameAttempts, holding.attempts]
    refine ⟨_, rfl, ?_⟩
    intro x later
    exact (eq_str_right _ _).mpr (List.eq_of_mem_replicate (List.mem_of_mem_tail later))
  | e12 =>
    rw [Holds, holding.o, holding.c]
    change Except.ok (decide (run.observed.receivedAt ≤ run.terms.expiresAt)) = .ok true
    rw [decide_eq_true run.byUser.timely]

/-- Each equation that `passed` requires can be decided on it. -/
theorem Holding.decided (holding : Holding run engine ev)
    (referenced : find engine.referenceModelHashes (.str run.model) = some (.str run.reference))
    {k : EqId} (required : k ∈ requiredForPass) : Decided k ev := by
  have contract : ev.c.isSome = true := by
    rw [holding.c]
    rfl
  have receipt : ev.m.isSome = true := by
    rw [holding.m]
    rfl
  have observation : ev.o.isSome = true := by
    rw [holding.o]
    rfl
  have opened : ev.privateEvidence.isSome = true := by
    rw [holding.private_]
    rfl
  have approvedSeen : SeenApproved ev := ⟨_, holding.seen, holding.seen_approved⟩
  simp only [requiredForPass, List.mem_cons, List.not_mem_nil, or_false] at required
  rcases required with rfl | rfl | rfl | rfl | rfl | rfl | rfl | rfl
  · exact ⟨contract, opened⟩
  · exact ⟨contract, by rw [holding.seen]; rfl, .inr (.inl approvedSeen)⟩
  · exact ⟨contract, .inl receipt⟩
  · refine ⟨contract, .inl receipt, .inr (.inr (.inr ?_))⟩
    rw [holding.r]
    rfl
  · rw [Decided, holding.reference referenced]
    exact ⟨receipt, Value.noConfusion⟩
  · refine ⟨?_, observation, .inr holding.responses⟩
    have signed : field ev.m "response_commit" = .str run.observed.respCommit := by
      rw [holding.m]
      exact congrArg optionText (responseCommit_signed run)
    rw [signed]
    exact Value.noConfusion
  · have four := congrArg List.length holding.attempts
    rw [List.length_map, List.length_replicate] at four
    rw [Decided, four]
    decide
  · exact ⟨contract, observation⟩

/-- The copy that was shown to the user is the registered receipt. -/
theorem Holding.presented (holding : Holding run engine ev) : ¬PresentedDiffers K ev := by
  rintro ⟨receipt, shown, hash, held, -, -, read, hashed, different⟩
  rw [holding.receipt] at held
  obtain rfl := Option.some.inj held
  have copy : field ev.o "presented_receipt" = run.receipt.toDict := by
    rw [holding.o, ← run.byUser.shown]
    rfl
  rw [copy, readHash, SignedStatement.fromDict_toDict, ok_bind, hashed] at read
  exact different (Except.ok.inj read).symm

/-- So the evidence passes. -/
theorem Holding.passing (holding : Holding run engine ev)
    (referenced : find engine.referenceModelHashes (.str run.model) = some (.str run.reference)) :
    Passing K ev := by
  refine ⟨?_, ?_, ?_⟩
  · rintro (invalid | claimed | differs)
    · exact invalid holding.invalid
    · exact claimed holding.unauthorized
    · exact holding.presented differs
  · rintro ⟨k, -, fails⟩
    exact fails (holding.holds referenced k)
  · intro k required
    exact ⟨holding.decided referenced required, holding.holds referenced k⟩

theorem complete_of_all {contentType : String} {payload : Dict}
    (all : ((find requiredFields (.str contentType)).getD []).all (hasKey payload) = true) :
    Complete contentType payload :=
  List.all_eq_true.mp all

/-- The evidence of an honest run has every field the engine asks for. -/
theorem Holding.keyed (holding : Holding run engine ev) : Keyed K ev := by
  constructor
  · intro c stated
    rw [holding.c] at stated
    obtain rfl := Option.some.inj stated
    exact complete_of_all rfl
  · intro r stated
    rw [holding.r] at stated
    obtain rfl := Option.some.inj stated
    exact complete_of_all rfl
  · intro o stated
    rw [holding.o] at stated
    obtain rfl := Option.some.inj stated
    exact complete_of_all rfl
  · intro p given
    rw [holding.private_] at given
    obtain rfl := Option.some.inj given
    obtain ⟨hash, -, committed, requested⟩ := run.byUser.request
    rw [run.byUser.salt, requested]
    exact ⟨_, committed⟩

theorem strings_hashable {xs : List String} : ∀ t ∈ xs.map Value.str, t.hashable = true := by
  intro t member
  obtain ⟨s, -, rfl⟩ := List.mem_map.mp member
  rfl

/-- No equation raises on it. -/
theorem Holding.judgeable (holding : Holding run engine ev) :
    Judgeable ev.referenceModelHashes ev.c ev.r ev.m ev.o := by
  have model : getOr (receiptPayload run.served) "model_id" = .str run.model := run.byModel.model
  constructor
  · rintro -
    rw [holding.c]
    exact ⟨_, rfl, strings_hashable⟩
  · rintro - - -
    rw [holding.c]
    exact ⟨_, rfl⟩
  · intro _ served reported
    right
    rw [holding.c]
    rcases reported with ⟨d, there, rfl⟩ | ⟨none_, -⟩
    · rw [holding.m] at there
      obtain rfl := Option.some.inj there
      rw [model]
      exact ⟨_, rfl⟩
    · rw [holding.m] at none_
      cases none_
  · intro d there
    rw [holding.m] at there
    obtain rfl := Option.some.inj there
    refine ⟨rfl, rfl, ?_⟩
    rw [model]
    rfl
  · intro d ref there _ _
    rw [holding.m] at there
    obtain rfl := Option.some.inj there
    rfl
  · intro _ d member
    have listed := List.mem_map_of_mem (f := fun d => getOr d "attempt_id") member
    rw [← attemptIds_values, holding.attempts] at listed
    rw [List.eq_of_mem_replicate listed]
    rfl
  · rintro - -
    rw [holding.o, holding.c]
    exact ⟨_, rfl⟩
  · right
    rw [holding.c]
    rfl

/-- The verdict on the four honest statements. -/
theorem Holding.judged (holding : Holding run engine ev)
    (referenced : find engine.referenceModelHashes (.str run.model) = some (.str run.reference))
    (settled : Settled K ev) : ∃ v, reconcile K engine ev allParties = .ok v ∧
      v.status = .passed ∧ v.completeness.status = "complete" ∧
      ∀ d ∈ v.discrepancies, d.severity = .observation := by
  have known : ∀ x ∈ allParties, x ∈ ["U", "R", "M"] := fun x member => member
  obtain ⟨v, judged⟩ : Returns (reconcile K engine ev allParties) :=
    (reconcile_returns holding.keyed settled known).mpr holding.judgeable
  have passing := holding.passing referenced
  obtain ⟨_, _, _, made⟩ := reconcile_ok judged
  refine ⟨v, judged, (reconcile_passed judged).mpr passing, ?_, ?_⟩
  · refine (complete_iff made.completeness).mpr ?_
    have all : ∀ f, f ≠ .manifest → (fieldOf ev f).isSome = true := by
      intro f other
      cases f with
      | contract => exact Option.isSome_of_eq_some holding.contract
      | relay => exact Option.isSome_of_eq_some holding.relay
      | receipt => exact Option.isSome_of_eq_some holding.receipt
      | observation => exact Option.isSome_of_eq_some holding.observation
      | manifest => exact absurd rfl other
    intro party _ f expected
    refine all f ?_
    rintro rfl
    unfold expectedTypes at expected
    split at expected <;> simp at expected
  · intro d member
    have unblamed : ¬d.severity.blames = true := by
      intro blames
      rcases made.blames.mp ⟨d, member, blames⟩ with broken | out
      · exact passing.unbroken broken
      · exact passing.inPlace out
    cases severity : d.severity with
    | observation => rfl
    | violation => exact absurd (congrArg Severity.blames severity) unblamed
    | contradiction => exact absurd (congrArg Severity.blames severity) unblamed

/-- The type of each of the four statements tells it from the others. -/
def Run.statement (run : Run) : Field → Option SignedStatement
  | .contract => some run.contract
  | .relay => some run.relay
  | .receipt => some run.receipt
  | .observation => some run.observation
  | .manifest => none

theorem mem_statements {run : Run} {s : SignedStatement} :
    s ∈ run.statements ↔ ∃ f, run.statement f = some s := by
  simp only [Run.statements, List.mem_cons, List.not_mem_nil, or_false]
  constructor
  · rintro (rfl | rfl | rfl | rfl)
    · exact ⟨.contract, rfl⟩
    · exact ⟨.relay, rfl⟩
    · exact ⟨.receipt, rfl⟩
    · exact ⟨.observation, rfl⟩
  · rintro ⟨f, stated⟩
    cases f with
    | contract => exact .inl (Option.some.inj stated).symm
    | relay => exact .inr (.inl (Option.some.inj stated).symm)
    | receipt => exact .inr (.inr (.inl (Option.some.inj stated).symm))
    | observation => exact .inr (.inr (.inr (Option.some.inj stated).symm))
    | manifest => cases stated

theorem statement_type {f : Field} {s : SignedStatement} (stated : run.statement f = some s) :
    s.contentType = .str (typeOf f) := by
  cases f with
  | contract =>
    obtain rfl := Option.some.inj stated
    exact run.byUser.contract.1
  | relay =>
    obtain rfl := Option.some.inj stated
    exact run.byRelay.statement.1
  | receipt =>
    obtain rfl := Option.some.inj stated
    exact run.byModel.statement.1
  | observation =>
    obtain rfl := Option.some.inj stated
    exact run.byUser.observation.1
  | manifest => cases stated

variable {log : Log} {entries : List LogEntry}

/-- In whatever order they are registered, the latest entry of a type is the run's statement. -/
theorem latest_statement (registered : Registered K engine log entries run.toRun) {f : Field}
    {s : SignedStatement} (stated : run.statement f = some s) :
    latest entries (typeOf f) = some s := by
  obtain ⟨e, inside, rfl⟩ := registered.all s (mem_statements.mpr ⟨f, stated⟩)
  cases found : latest entries (typeOf f) with
  | none =>
    rw [latest, Option.map_eq_none_iff, List.find?_eq_none] at found
    refine absurd ?_ (found e (List.mem_reverse.mpr inside))
    exact (eq_str_right _ _).mpr (statement_type stated)
  | some t =>
    obtain ⟨e', inside', rfl, type⟩ := latest_mem found
    obtain ⟨g, stated'⟩ := mem_statements.mp (registered.only e' inside')
    rw [statement_type stated', Value.str.injEq] at type
    obtain rfl := typeOf_injective g f type
    rw [← stated', stated]

/-- An entry whose signature verifies leaves the list of invalid signatures as it is. -/
theorem gatherEntry_verified {next : EvidenceSet} {e : LogEntry}
    (verified : verifies K engine e.statement = .ok true)
    (gathered : gatherEntry K engine ev e = .ok next) :
    next.invalidSignatures = ev.invalidSignatures := by
  rw [gatherEntry, verified, ok_bind] at gathered
  obtain ⟨ref, -, gathered⟩ := bind_ok.mp gathered
  rw [if_neg (by simp)] at gathered
  obtain ⟨permitted, -, gathered⟩ := bind_ok.mp gathered
  cases permitted with
  | false =>
    obtain rfl := Except.ok.inj gathered
    rfl
  | true =>
    rw [if_neg (by simp)] at gathered
    obtain ⟨type, -, gathered⟩ := bind_ok.mp gathered
    cases type with
    | none =>
      obtain rfl := Except.ok.inj gathered
      rfl
    | some f =>
      obtain rfl := Except.ok.inj gathered
      cases f <;> rfl

/-- Entries whose signatures verify add nothing to the list of invalid ones. -/
theorem gatherEntries_verified {next : EvidenceSet}
    (verified : ∀ e ∈ entries, verifies K engine e.statement = .ok true)
    (gathered : entries.foldlM (gatherEntry K engine) ev = .ok next) :
    next.invalidSignatures = ev.invalidSignatures := by
  induction entries generalizing ev with
  | nil =>
    obtain rfl := Except.ok.inj gathered
    rfl
  | cons e entries ih =>
    rw [List.foldlM_cons] at gathered
    obtain ⟨mid, first, rest⟩ := bind_ok.mp gathered
    rw [ih (fun e' later => verified e' (List.mem_cons_of_mem _ later)) rest,
      gatherEntry_verified (verified e List.mem_cons_self) first]

/-- A registered receipt leaves no room for the copy that was shown. -/
theorem presented_ignored (held : ev.receipt.isSome = true) :
    addPresented K engine ev = .ok ev ∧ settleSource ev = ev := by
  constructor
  · rw [addPresented, held]
    rfl
  · rw [settleSource, Option.isNone_eq_false_iff.mpr held]
    rfl

/-- The registered statements of an honest run are gathered, and nothing else is. -/
theorem gather_honest (registered : Registered K engine log entries run.toRun) (sub : Value)
    (now : Int) : ∃ ev, gather K engine sub entries (some run.private_) now = .ok ev ∧
      Holding run engine ev ∧ Settled K ev := by
  have accepted : ∀ e ∈ entries, Accepted K log.policy e.statement := fun e inside =>
    accepted_of_check (registered.passed e inside)
  obtain ⟨ev, folded, gathered⟩ := gathered_all (fun e inside =>
    gathers_of_accepted registered.trusted registered.rights (accepted e inside)) sub
    (some run.private_) now
  have held : ∀ f s, run.statement f = some s → fieldOf ev f = some s := fun f s stated =>
    (gathered.fields f).trans (latest_statement registered stated)
  have receipt : ev.receipt = some run.receipt := held .receipt _ rfl
  obtain ⟨added, settled⟩ : addPresented K engine ev = .ok ev ∧ settleSource ev = ev :=
    presented_ignored (Option.isSome_of_eq_some receipt)
  refine ⟨ev, ?_, ?_, ?_⟩
  · rw [gather, folded, ok_bind, added, ok_bind, settled]
    rfl
  · constructor
    · exact held .contract _ rfl
    · exact held .relay _ rfl
    · exact receipt
    · exact held .observation _ rfl
    · exact gathered.privateEvidence
    · exact gathered.references
    · exact gatherEntries_verified (fun e inside =>
        verifies_of_accepted registered.trusted (accepted e inside)) folded
    · exact gathered.unauthorized
  · constructor
    · exact gathered.unauthorized
    · intro s isReceipt
      obtain ⟨e, inside, same⟩ := registered.all s (mem_statements.mpr ⟨.receipt, by
        rw [← isReceipt, receipt]
        rfl⟩)
      obtain ⟨_, _, -, -, verified⟩ := (accepted e inside).key
      rw [← same]
      exact statementHash_returns (toBeSigned_of_verified verified)
    · intro _
      refine gathered.dated .contract ?_
      rw [held .contract _ rfl]
      rfl

variable {gate : Gate}

/-- The receipt verifies under the key the gate has for it. -/
theorem receipt_verified (registered : Registered K engine log entries run.toRun)
    (equipped : Equipped gate log run.toRun) : signatureOk K gate run.receipt = .ok true := by
  obtain ⟨e, inside, same⟩ := registered.all run.receipt (mem_statements.mpr ⟨.receipt, rfl⟩)
  obtain ⟨_, publicKey, known, -, verified⟩ :=
    (accepted_of_check (registered.passed e inside)).key
  rw [same] at known verified
  have trusted := equipped.key
  rw [known] at trusted
  exact signatureOk_trusted trusted verified

/-- M's receipt commits to a request that the user approved. -/
theorem request_bound (run : HonestRun K) : ∃ why, requestBinding (contractPayload run.terms)
    run.private_.expectedRequestCommits (receiptPayload run.served) =
      .ok (check "request_binding" .pass why) := by
  have expected : ∃ xs, run.private_.expectedRequestCommits = textFields xs := by
    have own := run.byUser.expected
    split at own
    · obtain ⟨commitment, -, listed⟩ := own
      exact ⟨_, listed⟩
    · exact ⟨[], own⟩
  obtain ⟨xs, typed⟩ := expected
  have signed : getOr (receiptPayload run.served) "request_commit" =
      .str run.relayed.outCommit := congrArg optionText (requestCommit_signed run)
  rw [typed]
  have transforms : getItem (contractPayload run.terms) "allowed_request_transforms" =
      .ok (.ofStrings run.terms.allowedRequestTransforms) := rfl
  refine requestBinding_pass transforms rfl rfl ?_
  have permitted := memberOf_strings run.byRelay.allowed
  rw [signed]
  rcases transform_listed run with ⟨same, commitment⟩ | ⟨formatter, listed⟩
  · left
    rw [same] at permitted
    exact ⟨permitted, (eq_str _ _).mpr (congrArg Value.str commitment)⟩
  · right
    rw [formatter] at permitted
    rw [← typed, listed]
    exact ⟨_, List.mem_singleton_self _, permitted, (eq_str _ _).mpr rfl⟩

/-- The gate accepts the route of an honest run. -/
theorem route_open (run : HonestRun K) : ∃ why, routeCheck K (contractPayload run.terms)
    (getOr (receiptPayload run.served) "model_id") (some run.relay) =
      .ok (check "route_allowed" .pass why) := by
  have named : getOr (receiptPayload run.served) "model_id" = .str run.model := run.byModel.model
  rw [named]
  refine routeCheck_pass ?_ Value.noConfusion ?_
  · exact List.all_eq_true.mp (show List.all _ (hasKey _) = true from rfl)
  · rcases run.byRelay.route with requested | ⟨allowed, policy, declared⟩
    · left
      rw [requested]
      exact (eq_str _ _).mpr rfl
    · right
      refine ⟨congrArg Except.ok (memberOf_strings allowed), ?_, run.relay, rfl, ?_⟩
      · intro none_
        exact policy (Value.str.inj none_)
      · rw [run.byRelay.statement.2]
        exact congrArg Value.str declared

/-- The gate knows the hash of the model that answered. -/
theorem artifact_known (equipped : Equipped gate log run.toRun) :
    ∃ why, modelHashReference gate (receiptPayload run.served) =
      .ok (check "model_hash_reference" .pass why) := by
  have named : getItem (receiptPayload run.served) "model_id" = .ok (.str run.model) :=
    congrArg Except.ok run.byModel.model
  have looked : lookup gate.referenceModelHashes (.str run.model) =
      .ok (some (.str run.reference)) := by
    rw [lookup_hashable rfl, equipped.reference]
  exact modelHashReference_pass named looked Value.noConfusion
    ((eq_str_right _ _).mpr run.byModel.artifact)

/-- A response without a tool call passes the tool policy. -/
theorem toolPolicy_quiet (gate : Gate) {response : Dict}
    (quiet : getOr response "tool_call" = .null) :
    toolPolicy K gate (.dict response) = .ok (check "tool_policy" .pass "도구 지시 없음") := by
  have call : toolCall (.dict response) = .ok .null := congrArg Except.ok quiet
  rw [toolPolicy, call]
  rfl

/-- Every check of the gate passes, at any time before the contract expires. -/
theorem gate_honest (registered : Registered K engine log entries run.toRun)
    (equipped : Equipped gate log run.toRun) (quiet : getOr run.response "tool_call" = .null)
    {now : Int} (timely : now ≤ run.terms.expiresAt) :
    ∃ checks, localChecks K gate run.contract.payload (.str run.observed.respCommit)
      (.dict run.response) (some run.receipt) (some run.relay) now
      run.private_.expectedRequestCommits = .ok checks ∧
      checks.map Prod.fst = checkNames ∧ ∀ x ∈ checks, x.2.result = .pass := by
  have unexpired : less true (.int now) (getOr (contractPayload run.terms) "expires_at") =
      .ok true := congrArg Except.ok (decide_eq_true timely)
  have nonce : (getOr (receiptPayload run.served) "eat_nonce").eq
      (getOr (contractPayload run.terms) "nonce") = true := by
    refine (eq_str_right _ _).mpr ?_
    rw [run.byUser.nonce]
    exact run.byModel.nonce
  have response : (getOr (receiptPayload run.served) "response_commit").eq
      (.str run.observed.respCommit) = true :=
    (eq_str_right _ _).mpr (congrArg optionText (responseCommit_signed run))
  have attempt : (getOr (receiptPayload run.served) "attempt_id").eq
      (getOr (contractPayload run.terms) "attempt_id") = true := by
    refine (eq_str_right _ _).mpr ?_
    rw [run.byUser.attempt]
    exact run.byModel.attempt
  obtain ⟨_, request⟩ := request_bound run
  obtain ⟨_, model⟩ := artifact_known equipped
  obtain ⟨_, route⟩ := route_open run
  obtain ⟨inner, made, names, passes⟩ :=
    signedChecks_agree rfl rfl request model route nonce response attempt
  rw [run.byUser.contract.2]
  rw [← run.byModel.statement.2] at made
  obtain ⟨checks, local_, checked, each⟩ := localChecks_signed unexpired rfl
    (receipt_verified registered equipped) made names passes (toolPolicy_quiet gate quiet)
  refine ⟨checks, local_, checked, ?_⟩
  intro x member
  rcases each x member with passed | rfl
  · exact passed
  · rfl

/-- An honest exchange passes: the four registered statements are judged passed and complete, no
one is blamed, and the protecting gate accepts the response until the contract expires. -/
theorem honest_run_passes (run : HonestRun K) {engine : ReconciliationEngine} {gate : Gate}
    {log : Log} {entries : List LogEntry} (sub : Value) (now : Int)
    (registered : Registered K engine log entries run.toRun)
    (referenced : find engine.referenceModelHashes (.str run.model) = some (.str run.reference))
    (equipped : Equipped gate log run.toRun) (protect : gate.mode = .protect)
    (quiet : getOr run.response "tool_call" = .null) :
    (∃ ev v, gather K engine sub entries (some run.private_) now = .ok ev ∧
      reconcile K engine ev allParties = .ok v ∧ v.status = .passed ∧
      v.completeness.status = "complete" ∧
      ∀ d ∈ v.discrepancies, d.severity = .observation) ∧
    ∀ checkedAt receivedAt decidedAt status deadlineHit, checkedAt ≤ run.terms.expiresAt →
      ∃ checks, localChecks K gate run.contract.payload (.str run.observed.respCommit)
          (.dict run.response) (some run.receipt) (some run.relay) checkedAt
          run.private_.expectedRequestCommits = .ok checks ∧
        (decideGate K gate checks receivedAt decidedAt status deadlineHit).action = .accept := by
  constructor
  · obtain ⟨ev, gathered, holding, settled⟩ := gather_honest registered sub now
    obtain ⟨v, verdict⟩ := holding.judged referenced settled
    exact ⟨ev, v, gathered, verdict⟩
  · intro checkedAt receivedAt decidedAt status deadlineHit timely
    obtain ⟨checks, local_, -, all⟩ := gate_honest registered equipped quiet timely
    exact ⟨checks, local_, protect_accepts protect all receivedAt decidedAt status deadlineHit⟩

end

def question : Dict := fields [("input", .str "2 + 2")]
def answer_ : Dict := fields [("output", .str "4")]

-- The commitments under the zero salt, and the hash of the question.

def questionHash : String := "7c84b82fc84506841c712fe2b4280116903034b0db8a2e95edf78f71abb0d31d"
def questionCommit : String := "5d476f497550d9d0296966dbfbed2a6868f9caeac267eab0cf436fa94d6c0937"
def formattedCommit : String := "ecb0edb8c0ad5e186947ea95f2a07baa9bf88bb8cd8fd624e00c47cb0bf9882b"
def answerCommit : String := "bf99e41de5c927b02c71977887bccb8baf701d1bda5284188ed2c5fd388a536e"

def formattedTerms : ContractTerms :=
  { plainTerms with
    reqCommit := questionCommit, requestedModel := "model-B"
    allowedModels := ["model-B", "model-A"], fallbackPolicy := "declared_only"
    allowedRequestTransforms := [publicFormatterV1] }

def fallbackReport : RelayReport :=
  { plainReport with
    inCommit := questionCommit, outCommit := formattedCommit
    requestTransformId := publicFormatterV1, respInCommit := some answerCommit
    respOutCommit := some answerCommit, policyDecision := "fallback" }

def answerReceipt : ReceiptReport :=
  { silentReceipt with
    requestCommit := some formattedCommit
    responseCommit := some answerCommit }

def answerObservation : ObservationReport :=
  { plainObservation with
    respCommit := answerCommit
    presentedReceipt := (signedBy "M" 3 ctReceipt (receiptPayload answerReceipt)).toDict }

def formattedRun : Run :=
  { attemptId := "att-001", nonce := zeros 64, salt := zeros 64, request := question,
    transform := publicFormatterV1, sent := publicFormatter question, model := "model-A",
    reference := zeros 64, response := answer_, terms := formattedTerms,
    private_ := { salt := .str (zeros 64),
                  requestHash := .str questionHash,
                  expectedRequestCommits :=
                    textFields [(publicFormatterV1, formattedCommit)] },
    relayed := fallbackReport, served := answerReceipt, observed := answerObservation,
    contract := signedBy "U" 1 ctContract (contractPayload formattedTerms),
    relay := signedBy "R" 2 ctRelay (relayPayload fallbackReport),
    receipt := signedBy "M" 3 ctReceipt (receiptPayload answerReceipt),
    observation := signedBy "U" 1 ctObservation (observationPayload answerObservation) }

theorem question_hashed : contentHash toy (.dict question) = .ok questionHash ∧
    commitHex toy (.str (zeros 64)) (.str questionHash) = .ok questionCommit := by
  decide +kernel

theorem question_commits : Commits toy (zeros 64) question questionCommit :=
  commits_of_hash question_hashed.1 question_hashed.2

theorem formatted_commits :
    Commits toy (zeros 64) (publicFormatter question) formattedCommit := by
  decide +kernel

theorem answer_commits : Commits toy (zeros 64) answer_ answerCommit := by
  decide +kernel

theorem formattedRun_user : HonestUser toy formattedRun := by
  constructor
  · rfl
  · rfl
  · exact ⟨_, question_hashed.1, question_hashed.2, rfl⟩
  · rfl
  · have allowed : publicFormatterV1 ∈ formattedRun.terms.allowedRequestTransforms :=
      List.mem_singleton_self _
    rw [if_pos allowed]
    exact ⟨_, formatted_commits, rfl⟩
  · rfl
  · rfl
  · exact answer_commits
  · decide
  · rfl
  · exact ⟨rfl, rfl⟩
  · exact ⟨rfl, rfl⟩

theorem formattedRun_relay : HonestRelay toy formattedRun := by
  constructor
  · rfl
  · exact List.mem_singleton_self _
  · rfl
  · rfl
  · rfl
  · rfl
  · right
    exact ⟨by decide +kernel, by decide +kernel, rfl⟩
  · rfl
  · exact question_commits
  · exact formatted_commits
  · exact ⟨_, answer_commits, rfl, rfl⟩
  · rfl
  · exact ⟨rfl, rfl⟩

theorem formattedRun_model : HonestModel toy formattedRun := by
  constructor
  · rfl
  · rfl
  · exact ⟨_, formatted_commits, rfl⟩
  · exact ⟨_, answer_commits, rfl⟩
  · rfl
  · rfl
  · rfl
  · exact ⟨rfl, rfl⟩

def formattedHonest : HonestRun toy :=
  { formattedRun with
    byUser := formattedRun_user, byRelay := formattedRun_relay, byModel := formattedRun_model }

def protectGate : Gate :=
  { strictGate with mode := .protect, trustedModelKeys := [(.str "M", [3])] }

def partyLog : Log :=
  { policy := { logId := "log", key := ⟨"T", [4]⟩, tsIss := .str "T", subRe := fun _ => true,
                allowedContentTypes := texts allContentTypes, trusted := partyEngine.trustedKeys,
                issuerContentTypes := partyEngine.issuerContentTypes, trustKeysVersion := "",
                policyStatement := signedBy "T" 4 ctPolicy [], policyHash := "" },
    tree := {}, entries := [] }

/-- The user's observation came in first. -/
def formattedEntries : List LogEntry :=
  [⟨1, 100, formattedRun.observation⟩, ⟨2, 200, formattedRun.receipt⟩,
   ⟨3, 300, formattedRun.relay⟩, ⟨4, 400, formattedRun.contract⟩]

theorem formatted_registered :
    Registered toy partyEngine partyLog formattedEntries formattedRun := by
  constructor
  · rfl
  · rfl
  · intro e inside
    simp only [formattedEntries, List.mem_cons, List.not_mem_nil, or_false] at inside
    rcases inside with rfl | rfl | rfl | rfl
    · decide +kernel
    · decide +kernel
    · decide +kernel
    · decide +kernel
  · intro e inside
    simp only [formattedEntries, List.mem_cons, List.not_mem_nil, or_false] at inside
    rcases inside with rfl | rfl | rfl | rfl <;> simp [Run.statements]
  · intro s stated
    simp only [Run.statements, List.mem_cons, List.not_mem_nil, or_false] at stated
    rcases stated with rfl | rfl | rfl | rfl <;> simp [formattedEntries]

theorem honest_run_passes_fallback :
    (∃ ev v, gather toy partyEngine (.str "urn:itx:req:1") formattedEntries
        (some formattedRun.private_) 500 = .ok ev ∧
      reconcile toy partyEngine ev allParties = .ok v ∧ v.status = .passed ∧
      v.completeness.status = "complete" ∧
      ∀ d ∈ v.discrepancies, d.severity = .observation) ∧
    ∃ checks, localChecks toy protectGate formattedRun.contract.payload
        (.str answerCommit) (.dict answer_) (some formattedRun.receipt)
        (some formattedRun.relay) 5000 formattedRun.private_.expectedRequestCommits = .ok checks ∧
      (decideGate toy protectGate checks 300 310 .null false).action = .accept := by
  have referenced : find partyEngine.referenceModelHashes (.str formattedHonest.model) =
      some (.str formattedHonest.reference) := rfl
  have equipped : Equipped protectGate partyLog formattedHonest.toRun := ⟨rfl, rfl⟩
  obtain ⟨judged, accepts⟩ := honest_run_passes formattedHonest
    (.str "urn:itx:req:1") 500 formatted_registered referenced equipped rfl rfl
  exact ⟨judged, accepts 5000 300 310 .null false (by decide)⟩

end HonestRuns
