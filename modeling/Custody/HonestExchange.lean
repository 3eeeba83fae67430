import Custody.HonestRuns

/-!
# The simulation's honest exchange

With every switch of the relay off, or set to what the contract allows and the relay
declares, and an operator that signs what it did, an exchange of the simulation that
brings an answer back in time is an honest run.
-/

namespace HonestExchange

open PyValue HexBytes CanonicalJson Commitments Statements Schemas Evidence UserGate Exchange
  HonestRuns

variable {K : Primitives}

theorem commitOf_some {salt : String} {body : Dict} {c : Option String}
    (made : commitOf K (some salt) (.dict body) = .ok c) :
    ∃ commitment, c = some commitment ∧ Commits K salt body commitment := by
  obtain ⟨hash, hashed, rest⟩ := bind_ok.mp made
  obtain ⟨commitment, committed, rest⟩ := bind_ok.mp rest
  exact ⟨commitment, (Except.ok.inj rest).symm, commits_of_hash hashed committed⟩

/-- A commitment is never empty, so it is what `or` returns. -/
theorem orText_commitment {salt default_ c : String} {body : Dict}
    (commits : Commits K salt body c) : orText (some c) default_ = c := by
  obtain ⟨hash, -, rest⟩ := bind_ok.mp commits
  obtain ⟨commitment, committed, rest⟩ := bind_ok.mp rest
  obtain rfl := Option.some.inj (Except.ok.inj rest)
  obtain ⟨s, x, -, -, -, -, rfl⟩ := commitHex_ok.mp committed
  refine if_neg ?_
  intro empty
  have length := congrArg String.length empty
  rw [hex_length, K.sha256_length] at length
  cases length

theorem issued_content {key : KeyPair} {iss sub contentType : Value} {payload : Dict}
    {issuedAt : Int} {s : SignedStatement}
    (issued : issue K key iss sub contentType payload issuedAt = .ok s) :
    s.contentType = contentType ∧ s.payload = payload := by
  obtain ⟨message, -, rfl⟩ := issue_ok issued
  exact ⟨rfl, rfl⟩

/-- The operator signed an execution that it was asked for under this salt. -/
structure Executed (K : Primitives) (wire : WireRequest) (salt : String) (model : MockModel)
    (response : Dict) (report : ReceiptReport) (stmt : SignedStatement) : Prop where
  attempt : report.attemptId = .str wire.attemptId
  nonce : report.eatNonce = optionText wire.nonce
  request : ∃ commitment, Commits K salt wire.body commitment ∧
    report.requestCommit = some commitment
  response : ∃ commitment, Commits K salt response commitment ∧
    report.responseCommit = some commitment
  modelId : report.modelId = .str model.modelId
  artifact : report.modelHash = .str (model.manifestHash K)
  decision : report.decision = "served"
  statement : stmt.contentType = .str ctReceipt ∧ stmt.payload = receiptPayload report

section

variable {M : ModelOperator} {s s' : Sim} {wire : WireRequest} {salt : String}

theorem receipt_ok {cti : String} {model : MockModel} {requestCommit responseCommit : Option String}
    {execMs : Int} {preCheck decision : String} {receipt : Option SignedStatement}
    (issues : M.issueReceipts = true)
    (made : M.receipt K s wire cti model requestCommit responseCommit execMs preCheck decision =
      .ok (s', receipt)) :
    ∃ stmt report, receipt = some stmt ∧ stmt.contentType = .str ctReceipt ∧
      stmt.payload = receiptPayload report ∧ report.attemptId = .str wire.attemptId ∧
      report.eatNonce = optionText wire.nonce ∧ report.requestCommit = requestCommit ∧
      report.responseCommit = responseCommit ∧ report.modelId = .str model.modelId ∧
      report.modelHash = .str (model.manifestHash K) ∧ report.decision = decision := by
  rw [ModelOperator.receipt, issues] at made
  obtain ⟨stmt, issued, made⟩ := bind_ok.mp made
  obtain ⟨-, rfl⟩ := Prod.mk.inj (Except.ok.inj made)
  obtain ⟨type, payload⟩ := issued_content issued
  exact ⟨stmt, _, rfl, type, payload, rfl, rfl, rfl, rfl, rfl, rfl, rfl⟩

theorem execute_ok {cti : String} {model : MockModel} {preCheck decision : String}
    {response : Option Dict} {receipt : Option SignedStatement}
    (issues : M.issueReceipts = true) (sincere : M.collude = false)
    (salted : wire.salt = some salt)
    (made : M.execute K s wire cti model preCheck = .ok (s', response, receipt, decision)) :
    ∃ answer report stmt, response = some answer ∧ receipt = some stmt ∧
      Executed K wire salt model answer report stmt := by
  rw [ModelOperator.execute] at made
  obtain ⟨answer, -, made⟩ := bind_ok.mp made
  rw [sincere, salted] at made
  simp only [Bool.false_eq_true, if_false] at made
  obtain ⟨requestCommit, request, made⟩ := bind_ok.mp made
  obtain ⟨responseCommit, responded, made⟩ := bind_ok.mp made
  obtain ⟨⟨next, signed⟩, receipted, made⟩ := bind_ok.mp made
  simp only [pure_ok, Except.ok.injEq, Prod.mk.injEq] at made
  obtain ⟨-, rfl, rfl, -⟩ := made
  obtain ⟨seen, rfl, seenCommits⟩ := commitOf_some request
  obtain ⟨given, rfl, givenCommits⟩ := commitOf_some responded
  obtain ⟨stmt, report, rfl, type, payload, attempt, nonce, req, resp, id, hash, decided⟩ :=
    receipt_ok issues receipted
  exact ⟨answer, report, stmt, rfl, rfl, attempt, nonce, ⟨seen, seenCommits, req⟩,
    ⟨given, givenCommits, resp⟩, id, hash, decided, type, payload⟩

/-- An operator that answers has signed a receipt for the answer. -/
theorem serve_ok {name decision : String} {answer : Dict} {receipt : Option SignedStatement}
    (issues : M.issueReceipts = true) (sincere : M.collude = false)
    (salted : wire.salt = some salt)
    (made : M.serve K s name wire = .ok (s', some answer, receipt, decision)) :
    ∃ model report stmt, M.modelNamed name = .ok model ∧ receipt = some stmt ∧
      Executed K wire salt model answer report stmt := by
  rw [ModelOperator.serve] at made
  obtain ⟨model, known, made⟩ := bind_ok.mp made
  obtain ⟨⟨result, why⟩, -, made⟩ := bind_ok.mp made
  simp only at made
  split at made
  · obtain ⟨requestCommit, -, made⟩ := bind_ok.mp made
    obtain ⟨⟨next, signed⟩, -, made⟩ := bind_ok.mp made
    simp only [pure_ok, Except.ok.injEq, Prod.mk.injEq, reduceCtorEq, false_and, and_false] at made
  · obtain ⟨answer', report, stmt, given, rfl, executed⟩ := execute_ok issues sincere salted made
    obtain rfl := Option.some.inj given
    exact ⟨model, report, stmt, known, rfl, executed⟩

end

/-- The relay does to the request what it declares, which the contract allows, changes nothing
else, states what it did, and declares a fallback where it routes to another model. -/
structure HonestRelaying (b : RelayBehavior) (req : Request) : Prop where
  transform : ∀ body, applyTransform b.declaredRequestTransform body =
    some (Relay.editRequest b.modifyRequest body)
  allowed : b.declaredRequestTransform ∈ req.allowedRequestTransforms
  response : b.modifyResponse = none
  hashes : b.honestHashes = true
  nonce : b.dropNonce = false
  salt : b.dropSalt = false
  forwards : b.dropRequest = false
  fresh : b.replayPrevious = false
  states : b.omitStatement = false
  shows : b.stripInlineReceipt = false
  route : orText b.routeTo req.requestedModel = req.requestedModel ∨
    orText b.routeTo req.requestedModel ∈ req.allowedModels ∧ req.fallbackPolicy ≠ "none" ∧
      b.declareFallback = true

/-- The operator issues its receipts, and its models go by their identifiers. -/
structure HonestOperating (M : ModelOperator) : Prop where
  issues : M.issueReceipts = true
  sincere : M.collude = false
  named : ∀ name model, M.modelNamed name = .ok model → model.modelId = name

section

variable {R : Relay} {M : ModelOperator} {s s' : Sim} {wire : WireRequest} {salt : String}

/-- The relay's statement about an answer it passed on. -/
structure Stated (K : Primitives) (R : Relay) (wire : WireRequest) (salt : String)
    (response : Dict) (report : RelayReport) (stmt : SignedStatement) : Prop where
  statement : stmt.contentType = .str ctRelay ∧ stmt.payload = relayPayload report
  attempt : report.attemptId = wire.attemptId
  transform : report.requestTransformId = R.behavior.declaredRequestTransform
  nonce : report.nonceForwarded = (R.forwarded wire).nonce
  saltForwarded : report.saltForwarded = !R.behavior.dropSalt
  upstream : report.upstreamModel = (R.forwarded wire).requestedModel
  decision : report.policyDecision = if R.behavior.declareFallback then "fallback" else "forwarded"
  received : Commits K salt wire.body report.inCommit
  forwarded : Commits K salt (R.forwarded wire).body report.outCommit
  answered : ∃ commitment, Commits K salt response commitment ∧
    report.respInCommit = some commitment ∧ report.respOutCommit = some commitment
  unchanged : report.responseTransformId = identity

theorem statement_ok {r : Relay.Report} {stmt : SignedStatement}
    (made : R.statement K s wire r = .ok (s', stmt)) :
    stmt.contentType = .str ctRelay ∧ stmt.payload = relayPayload {
      attemptId := wire.attemptId, inCommit := r.inCommit, outCommit := r.outCommit,
      requestTransformId := r.transformId, upstreamId := "model-operator",
      upstreamModel := r.upstreamModel, respInCommit := r.respIn, respOutCommit := r.respOut,
      responseTransformId := identity, policyVersion := "relay-policy-1",
      policyDecision := r.decision, nonceForwarded := r.nonceFwd, saltForwarded := r.saltFwd,
      relaySeq := s.relaySeq } := by
  rw [Relay.statement] at made
  obtain ⟨issued, signed, made⟩ := bind_ok.mp made
  simp only [pure_ok, Except.ok.injEq, Prod.mk.injEq] at made
  obtain ⟨-, rfl⟩ := made
  exact issued_content signed

variable {req : Request}

theorem answer_ok (honest : HonestRelaying R.behavior req) {f : Relay.Forwarded} {response : Dict}
    {receipt : Option SignedStatement} {resp : WireResponse} (salted : wire.salt = some salt)
    (forwarding : f.wire = R.forwarded wire)
    (upstream : f.upstreamModel = (R.forwarded wire).requestedModel)
    (received : Commits K salt wire.body f.inCommit)
    (sent : Commits K salt (R.forwarded wire).body f.outCommit)
    (made : Relay.answer K M R s wire f response receipt = .ok (s', resp)) :
    ∃ report stmt, resp.body = some response ∧ resp.inlineReceipt = receipt ∧
      resp.inlineRelay = some stmt ∧ Stated K R wire salt response report stmt := by
  rw [Relay.answer, salted] at made
  obtain ⟨respIn, taken, made⟩ := bind_ok.mp made
  rw [honest.response] at made
  obtain ⟨responseOut, edited, made⟩ := bind_ok.mp made
  obtain rfl := Except.ok.inj edited
  obtain ⟨settled, kept, made⟩ := bind_ok.mp made
  rw [Relay.settleReceipt, honest.response] at kept
  obtain rfl := Except.ok.inj kept
  obtain ⟨respOut, given, made⟩ := bind_ok.mp made
  rw [commitIf, honest.hashes, if_pos rfl, taken] at given
  obtain rfl := Except.ok.inj given
  obtain ⟨⟨next, stated⟩, said, made⟩ := bind_ok.mp made
  rw [Relay.statementUnless, honest.states, if_neg Bool.false_ne_true] at said
  obtain ⟨⟨next', stmt⟩, signed, said⟩ := bind_ok.mp said
  simp only [pure_ok, Except.ok.injEq, Prod.mk.injEq] at said made
  obtain ⟨-, rfl⟩ := said
  obtain ⟨-, rfl⟩ := made
  obtain ⟨type, payload⟩ := statement_ok signed
  obtain ⟨commitment, rfl, commits⟩ := commitOf_some taken
  have account : ∃ report, Stated K R wire salt response report stmt :=
    ⟨_, ⟨type, payload⟩, rfl, rfl, congrArg WireRequest.nonce forwarding, rfl, upstream, rfl,
      received, sent, ⟨commitment, commits, rfl, rfl⟩, rfl⟩
  obtain ⟨report, stated⟩ := account
  refine ⟨report, stmt, rfl, ?_, rfl, stated⟩
  rw [Relay.shown, honest.shows, if_neg Bool.false_ne_true]

/-- An answer that comes back was served upstream, and the relay states how it passed it on. -/
theorem handle_ok (honest : HonestRelaying R.behavior req) (operating : HonestOperating M)
    {response : Dict} {resp : WireResponse} (salted : wire.salt = some salt)
    (made : R.handle K M s wire = .ok (s', resp)) (answered : resp.body = some response) :
    ∃ model receiptReport receipt report stmt,
      M.modelNamed (R.forwarded wire).requestedModel = .ok model ∧
      resp.inlineReceipt = some receipt ∧ resp.inlineRelay = some stmt ∧
      Executed K (R.forwarded wire) salt model response receiptReport receipt ∧
      Stated K R wire salt response report stmt := by
  rw [Relay.handle, honest.forwards, honest.fresh, salted] at made
  obtain ⟨inCommit, taken, made⟩ := bind_ok.mp made
  obtain ⟨received, rfl, receivedCommits⟩ := commitOf_some taken
  simp only [Bool.false_eq_true, if_false, orText_commitment receivedCommits] at made
  rw [Relay.forward] at made
  obtain ⟨⟨next, given, receipt, decision⟩, served, made⟩ := bind_ok.mp made
  simp only at made
  obtain ⟨outCommit, sent, made⟩ := bind_ok.mp made
  rw [commitIf, honest.hashes, if_pos rfl, salted] at sent
  obtain ⟨forwarded, rfl, sentCommits⟩ := commitOf_some sent
  rw [orText_commitment sentCommits] at made
  cases given with
  | none =>
    simp only [Relay.upstreamError] at made
    obtain ⟨⟨next', stated⟩, -, made⟩ := bind_ok.mp made
    obtain ⟨-, rfl⟩ := Prod.mk.inj (Except.ok.inj made)
    cases answered
  | some answer =>
    have upstream : (R.forwarded wire).salt = some salt := by
      rw [Relay.forwarded, honest.salt]
      exact salted
    obtain ⟨model, receiptReport, signed, known, rfl, executed⟩ :=
      serve_ok operating.issues operating.sincere upstream served
    obtain ⟨report, stmt, body, shown, told, stated⟩ :=
      answer_ok honest salted rfl rfl receivedCommits sentCommits made
    rw [answered] at body
    obtain rfl := Option.some.inj body
    exact ⟨model, receiptReport, signed, report, stmt, known, shown, told, executed, stated⟩

end

section

variable {U : User} {req : Request}

theorem expectedCommits_ok {expected : Dict} (made : User.expectedCommits K req = .ok expected) :
    if publicFormatterV1 ∈ req.allowedRequestTransforms then
      ∃ commitment, Commits K req.salt (publicFormatter req.body) commitment ∧
        expected = GateAgreement.textFields [(publicFormatterV1, commitment)]
    else expected = [] := by
  rw [User.expectedCommits] at made
  split at made
  next allowed =>
    obtain ⟨commit, taken, made⟩ := bind_ok.mp made
    obtain ⟨commitment, rfl, commits⟩ := commitOf_some taken
    rw [if_pos allowed]
    exact ⟨commitment, commits, (Except.ok.inj made).symm⟩
  next absent =>
    rw [if_neg absent]
    exact (Except.ok.inj made).symm

theorem observe_ok {commitment : String} {receivedAt : Int} {observation : SignedStatement}
    {receipt relay : Option SignedStatement}
    (made : U.observe K req commitment receivedAt receipt relay = .ok observation) :
    ∃ report, (observation.contentType = .str ctObservation ∧
      observation.payload = observationPayload report) ∧ report.attemptId = req.attemptId ∧
      report.respCommit = commitment ∧ report.receivedAt = receivedAt ∧
      report.presentedReceipt = (receipt.map SignedStatement.toDict).getD .null := by
  rw [User.observe] at made
  obtain ⟨receiptHash, -, made⟩ := bind_ok.mp made
  obtain ⟨relayHash, -, issued⟩ := bind_ok.mp made
  exact ⟨_, issued_content issued, rfl, rfl, rfl, rfl⟩

theorem receive_ok {answers : Answers} {s s' : Sim} {sentAt : Int} {contract : SignedStatement}
    {private_ : PrivateEvidence} {resp : WireResponse} {response : Dict} {result : AttemptResult}
    (made : U.receive K answers s req sentAt contract private_ resp response = .ok (s', result)) :
    ∃ observation report, result.observation = some observation ∧
      (observation.contentType = .str ctObservation ∧
        observation.payload = observationPayload report) ∧ report.attemptId = req.attemptId ∧
      Commits K req.salt response report.respCommit ∧ report.receivedAt = result.receivedAt ∧
      report.presentedReceipt = (resp.inlineReceipt.map SignedStatement.toDict).getD .null ∧
      result.contract = contract ∧
      (∃ hash, result.private_ = { private_ with responseHash := hash }) ∧
      result.responseBody = some response ∧ result.inlineReceipt = resp.inlineReceipt ∧
      result.inlineRelay = resp.inlineRelay := by
  rw [User.receive] at made
  obtain ⟨hash, hashed, made⟩ := bind_ok.mp made
  obtain ⟨commitment, committed, made⟩ := bind_ok.mp made
  obtain ⟨observation, observed, made⟩ := bind_ok.mp made
  obtain ⟨checks, -, made⟩ := bind_ok.mp made
  obtain ⟨-, rfl⟩ := Prod.mk.inj (Except.ok.inj made)
  obtain ⟨report, content, attempt, rfl, received, presented⟩ := observe_ok observed
  exact ⟨observation, report, rfl, content, attempt, commits_of_hash hashed committed, received,
    presented, rfl, ⟨_, rfl⟩, rfl, rfl, rfl⟩

end

/-- What the simulation brings about is an honest run: its statements are the run's. -/
theorem send_honest {U : User} {R : Relay} {M : ModelOperator} {answers : Answers} {s s' : Sim}
    {req : Request} {result : AttemptResult} {response : Dict}
    (relaying : HonestRelaying R.behavior req) (operating : HonestOperating M)
    (sent : U.send K R M answers s req = .ok (s', result))
    (answered : result.responseBody = some response)
    (timely : result.receivedAt ≤ s.now + req.ttlMs) :
    ∃ run : HonestRun K, run.response = response ∧ run.terms.expiresAt = s.now + req.ttlMs ∧
      result.contract = run.contract ∧ result.observation = some run.observation ∧
      result.inlineReceipt = some run.receipt ∧ result.inlineRelay = some run.relay ∧
      result.private_ = run.private_ ∧
      ∃ model, M.modelNamed run.model = .ok model ∧ run.reference = model.manifestHash K := by
  rw [User.send] at sent
  obtain ⟨requestHash, hashed, sent⟩ := bind_ok.mp sent
  obtain ⟨contract, signed, sent⟩ := bind_ok.mp sent
  obtain ⟨expected, listed, sent⟩ := bind_ok.mp sent
  obtain ⟨⟨next, resp⟩, handled, sent⟩ := bind_ok.mp sent
  simp only at sent
  cases came : resp.body with
  | none =>
    rw [came] at sent
    obtain ⟨-, rfl⟩ := Prod.mk.inj (Except.ok.inj sent)
    cases answered
  | some body =>
    rw [came] at sent
    obtain ⟨model, served, receipt, relayed, relay, known, shown, told, executed, stated⟩ :=
      handle_ok relaying operating rfl handled came
    obtain ⟨observation, observed, seen, content, attempt, commits, at_, presented, same, given,
      answered', inline, inlineRelay⟩ := receive_ok sent
    rw [shown] at presented inline
    rw [answered] at answered'
    obtain rfl := Option.some.inj answered'
    rw [User.signContract] at signed
    obtain ⟨reqCommit, committed, issued⟩ := bind_ok.mp signed
    obtain ⟨hash, private_⟩ := given
    have salt : result.private_.salt = .str req.salt := by
      rw [private_]
    have requested : result.private_.requestHash = .str requestHash := by
      rw [private_]
    have listed' := expectedCommits_ok listed
    rw [show expected = result.private_.expectedRequestCommits by rw [private_]] at listed'
    have decision := stated.decision
    let run : Run :=
      { attemptId := req.attemptId, nonce := req.nonce, salt := req.salt, request := req.body,
        transform := R.behavior.declaredRequestTransform,
        sent := Relay.editRequest R.behavior.modifyRequest req.body,
        model := orText R.behavior.routeTo req.requestedModel,
        reference := model.manifestHash K, response,
        terms := U.contractTerms req reqCommit s.now, private_ := result.private_,
        relayed, served, observed, contract, relay, receipt, observation }
    have byUser : HonestUser K run := {
      attempt := rfl, nonce := rfl, request := ⟨requestHash, hashed, committed, requested⟩,
      salt, expected := listed', unchanged := rfl, observed := attempt, response := commits,
      timely := at_ ▸ timely, shown := presented, contract := issued_content issued,
      observation := content }
    have byRelay : HonestRelay K run := {
      attempt := stated.attempt, allowed := relaying.allowed, applied := relaying.transform _,
      declared := stated.transform
      nonce := by
        rw [stated.nonce, Relay.forwarded, relaying.nonce]
        rfl
      salt := by
        rw [stated.saltForwarded, relaying.salt]
        rfl
      route := by
        refine relaying.route.imp_right ?_
        rintro ⟨allowed, policy, declares⟩
        rw [declares, if_pos rfl] at decision
        exact ⟨allowed, policy, decision⟩
      upstream := stated.upstream, received := stated.received, forwarded := stated.forwarded,
      answered := stated.answered, unchanged := stated.unchanged, statement := stated.statement }
    have byModel : HonestModel K run := {
      attempt := executed.attempt
      nonce := by
        rw [executed.nonce, Relay.forwarded, relaying.nonce]
        rfl
      request := executed.request, response := executed.response
      model := by
        rw [executed.modelId, operating.named _ _ known]
        rfl
      artifact := executed.artifact, decision := executed.decision,
      statement := executed.statement }
    exact ⟨{ run with byUser, byRelay, byModel }, rfl, rfl, same, seen, inline,
      inlineRelay.trans told, rfl, model, known, rfl⟩

end HonestExchange
