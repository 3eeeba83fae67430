import Custody.HonestExchange
import Custody.RereadStatements
import Custody.WithoutEvidence

/-!
# One execution behind a passed verdict

A relay may send the model operator what it likes, as often as it likes, state what it
likes, and choose which receipts are registered or shown. As long as the user and the
operator sign only what they did, a passed verdict speaks of one execution of an allowed
request by an allowed model, whose answer is the one the user received. Otherwise two
of the byte strings hashed on the way collide.
-/

namespace EndToEnd

open PyValue HexBytes CanonicalJson CanonicalForm Commitments Statements Schemas Evidence Equations
  EquationMeaning Engine EngineMeaning RegisteredEvidence BlockedJudgment RegisteredCompleteness
  RereadStatements WithoutEvidence PassedVerdict Exchange HonestRuns HonestExchange

/-- Two values have one canonical text. -/
def SameText (v w : Value) : Prop :=
  ∃ text, canonicalJson v = .ok text ∧ canonicalJson w = .ok text

section

variable (K : Primitives)

/-- The byte strings hashed for a commitment. -/
def hashedFor (salt : Option String) (obj : Value) : List Bytes :=
  match salt.bind fromHex, canonicalJson obj with
  | some bytes, .ok text => [text, bytes ++ K.sha256 text]
  | _, _ => []

end

variable {K : Primitives}

theorem commitOf_ok {salt : Option String} {obj : Value} {c : String}
    (made : commitOf K salt obj = .ok (some c)) : ∃ s bytes text, salt = some s ∧
      fromHex s = some bytes ∧ bytes.length = 32 ∧ canonicalJson obj = .ok text ∧
      c = hex (K.sha256 (bytes ++ K.sha256 text)) := by
  cases salt with
  | none => cases made
  | some s =>
    obtain ⟨hash, hashed, made⟩ := bind_ok.mp made
    obtain ⟨text, written, hashed⟩ := bind_ok.mp hashed
    obtain rfl := Except.ok.inj hashed
    obtain ⟨commitment, committed, made⟩ := bind_ok.mp made
    obtain rfl := Option.some.inj (Except.ok.inj made)
    obtain ⟨bytes, digest, readSalt, readHash, long, -, rfl⟩ := commitHex_ok.mp committed
    rw [fromHexValue, contentHashHex, sha256Hex, fromHex_hex] at readHash
    obtain rfl := Except.ok.inj readHash
    rw [fromHexValue] at readSalt
    cases salted : fromHex s with
    | none =>
      rw [salted] at readSalt
      cases readSalt
    | some b =>
      rw [salted] at readSalt
      obtain rfl := Except.ok.inj readSalt
      exact ⟨s, b, text, rfl, salted, long, written, rfl⟩

/-- One commitment stands for one text, whatever the salts, unless the hash collides. -/
theorem commitOf_binding {salt salt' : Option String} {obj obj' : Value} {c : String}
    (first : commitOf K salt obj = .ok (some c)) (second : commitOf K salt' obj' = .ok (some c)) :
    SameText obj obj' ∨ Collision K (hashedFor K salt obj ++ hashedFor K salt' obj') := by
  obtain ⟨s, bytes, text, rfl, salted, long, written, rfl⟩ := commitOf_ok first
  obtain ⟨s', bytes', text', rfl, salted', long', written', same⟩ := commitOf_ok second
  have hashed : hashedFor K (some s) obj = [text, bytes ++ K.sha256 text] := by
    simp [hashedFor, salted, written]
  have hashed' : hashedFor K (some s') obj' = [text', bytes' ++ K.sha256 text'] := by
    simp [hashedFor, salted', written']
  rw [hashed, hashed']
  rcases commit_binding long long' (hex_injective same) with ⟨-, digests⟩ | collides
  · rcases contentHash_binding (congrArg hex digests) with rfl | collides
    · exact .inl ⟨text, written, written'⟩
    · exact .inr (collides.mono (by simp))
  · exact .inr (collides.mono (by simp))

/-- One call of `serve`, whatever the operator was sent and whatever state it was in. -/
structure Execution (K : Primitives) where
  operator : ModelOperator
  before : Sim
  upstreamModel : String
  wire : WireRequest
  after : Sim
  response : Option Dict
  receipt : Option SignedStatement
  decision : String
  served : operator.serve K before upstreamModel wire = .ok (after, response, receipt, decision)

/-- The byte strings hashed for the commitments of its receipt. -/
def Execution.hashed (x : Execution K) : List Bytes :=
  hashedFor K x.wire.salt (.dict x.wire.body) ++
    x.response.toList.flatMap fun answer => hashedFor K x.wire.salt (.dict answer)

/-- What the receipt of an execution reports. -/
structure Reports (x : Execution K) (stmt : SignedStatement) (model : MockModel)
    (report : ReceiptReport) : Prop where
  named : x.operator.modelNamed x.upstreamModel = .ok model
  type : stmt.contentType = .str ctReceipt
  payload : stmt.payload = receiptPayload report
  model : report.modelId = .str model.modelId
  request : commitOf K x.wire.salt (.dict x.wire.body) = .ok report.requestCommit
  response : report.responseCommit = none ∨ ∃ answer, x.response = some answer ∧
    commitOf K x.wire.salt (.dict answer) = .ok report.responseCommit

theorem receipt_issued {M : ModelOperator} {s s' : Sim} {wire : WireRequest} {cti : String}
    {model : MockModel} {requestCommit responseCommit : Option String} {execMs : Int}
    {preCheck decision : String} {stmt : SignedStatement}
    (made : M.receipt K s wire cti model requestCommit responseCommit execMs preCheck decision =
      .ok (s', some stmt)) :
    ∃ report, (stmt.contentType = .str ctReceipt ∧ stmt.payload = receiptPayload report) ∧
      report.modelId = .str model.modelId ∧ report.requestCommit = requestCommit ∧
      report.responseCommit = responseCommit := by
  cases issues : M.issueReceipts with
  | false =>
    rw [ModelOperator.receipt, issues] at made
    cases (Prod.mk.inj (Except.ok.inj made)).2
  | true =>
    obtain ⟨t, report, same, type, payload, -, -, request, response, named, -⟩ :=
      receipt_ok issues made
    obtain rfl := Option.some.inj same
    exact ⟨report, ⟨type, payload⟩, named, request, response⟩

theorem receipt_reports (x : Execution K) {stmt : SignedStatement}
    (issued : x.receipt = some stmt) : ∃ model report, Reports x stmt model report := by
  have served := x.served
  rw [issued, ModelOperator.serve] at served
  obtain ⟨model, named, served⟩ := bind_ok.mp served
  obtain ⟨⟨result, why⟩, -, served⟩ := bind_ok.mp served
  simp only at served
  split at served
  · obtain ⟨requestCommit, request, served⟩ := bind_ok.mp served
    obtain ⟨⟨next, receipt⟩, made, served⟩ := bind_ok.mp served
    simp only [pure_ok, Except.ok.injEq, Prod.mk.injEq] at served
    obtain ⟨-, -, rfl, -⟩ := served
    obtain ⟨report, ⟨type, payload⟩, known, rfl, response⟩ := receipt_issued made
    exact ⟨model, report, named, type, payload, known, request, .inl response⟩
  · rw [ModelOperator.execute] at served
    obtain ⟨answer, -, served⟩ := bind_ok.mp served
    split at served
    · simp only [pure_ok, Except.ok.injEq, Prod.mk.injEq, reduceCtorEq, false_and,
        and_false] at served
    · obtain ⟨requestCommit, request, served⟩ := bind_ok.mp served
      obtain ⟨responseCommit, response, served⟩ := bind_ok.mp served
      obtain ⟨⟨next, receipt⟩, made, served⟩ := bind_ok.mp served
      simp only [pure_ok, Except.ok.injEq, Prod.mk.injEq] at served
      obtain ⟨-, answered, rfl, -⟩ := served
      obtain ⟨report, ⟨type, payload⟩, known, rfl, rfl⟩ := receipt_issued made
      exact ⟨model, report, named, type, payload, known, request,
        .inr ⟨answer, answered.symm, response⟩⟩

variable {engine : ReconciliationEngine} {entries : List LogEntry}

/-- A statement the engine reads: registered, or shown to the user and kept in what is. -/
def ReadFrom (entries : List LogEntry) (s : SignedStatement) : Prop :=
  ∃ e ∈ entries, e.statement = s ∨
    SignedStatement.fromDict (getOr e.statement.payload "presented_receipt") = .ok s

/-- Whatever is read as this type, with a valid signature of an authorised issuer, has the signed
bytes of a statement that was issued. -/
def SignedOnly (K : Primitives) (engine : ReconciliationEngine) (entries : List LogEntry)
    (f : Field) (issued : List SignedStatement) : Prop :=
  ∀ s, ReadFrom entries s → s.contentType = .str (typeOf f) → entitled K engine s = true →
    ∃ t ∈ issued, s.toBeSigned = t.toBeSigned

theorem lastRegistered_read {f : Field} {s : SignedStatement}
    (last : lastRegistered K engine f entries = some s) :
    (∃ e ∈ entries, e.statement = s) ∧ s.contentType = .str (typeOf f) ∧
      entitled K engine s = true := by
  obtain ⟨e, found, rfl⟩ := Option.map_eq_some_iff.mp last
  have registered := List.find?_some found
  rw [registers, Bool.and_eq_true, eq_str_right] at registered
  exact ⟨⟨e, List.mem_reverse.mp (List.mem_of_find?_eq_some found), rfl⟩, registered⟩

theorem shownReceipt_read {presented : Value} {s : SignedStatement}
    (shown : shownReceipt K engine presented = some s) :
    SignedStatement.fromDict presented = .ok s ∧ s.contentType = .str ctReceipt ∧
      entitled K engine s = true := by
  rw [shownReceipt] at shown
  cases read : SignedStatement.fromDict presented with
  | error e =>
    rw [read] at shown
    cases shown
  | ok t =>
    rw [read] at shown
    obtain ⟨checked, same⟩ := Option.ite_none_right_eq_some.mp shown
    obtain rfl := Option.some.inj same
    rw [Bool.and_eq_true, eq_str_right] at checked
    exact ⟨rfl, checked⟩

/-- Whatever is gathered was read, and its issuer was entitled to sign it. -/
theorem gathered_read {sub : Value} {p : Option PrivateEvidence} {now : Int} {ev : EvidenceSet}
    (gathered : gather K engine sub entries p now = .ok ev) {f : Field} {s : SignedStatement}
    (held : fieldOf ev f = some s) :
    ReadFrom entries s ∧ s.contentType = .str (typeOf f) ∧ entitled K engine s = true := by
  have registered : ∀ {g t}, lastRegistered K engine g entries = some t →
      ReadFrom entries t ∧ t.contentType = .str (typeOf g) ∧ entitled K engine t = true := by
    intro g t last
    obtain ⟨⟨e, inside, same⟩, checked⟩ := lastRegistered_read last
    exact ⟨⟨e, inside, .inl same⟩, checked⟩
  obtain ⟨others, receipt⟩ := gather_fields gathered
  by_cases kind : f = .receipt
  · subst kind
    rw [receipt] at held
    rcases Option.or_eq_some_iff.mp held with last | ⟨-, shown⟩
    · exact registered last
    · obtain ⟨read, type, right_⟩ := shownReceipt_read shown
      cases last : lastRegistered K engine .observation entries with
      | none =>
        rw [last] at read
        cases read
      | some o =>
        rw [last] at read
        obtain ⟨⟨e, inside, rfl⟩, -⟩ := lastRegistered_read last
        exact ⟨⟨e, inside, .inr read⟩, type, right_⟩
  · rw [others f kind] at held
    exact registered held

theorem toBeSigned_of_entitled {s : SignedStatement} (right_ : entitled K engine s = true) :
    Returns s.toBeSigned := by
  rw [entitled, Bool.and_eq_true] at right_
  split at right_
  next iss publicKey known =>
    have verified := (Bool.and_eq_true _ _ ▸ right_.1).2
    split at verified
    next valid checked => exact toBeSigned_of_verified (verified ▸ checked)
    next => cases verified
  next => cases right_.1

/-- What was gathered as this type says, field by field, what an issued statement says. -/
theorem gathered_issued {sub : Value} {p : Option PrivateEvidence} {now : Int} {ev : EvidenceSet}
    (gathered : gather K engine sub entries p now = .ok ev) {f : Field}
    {issued : List SignedStatement} (only : SignedOnly K engine entries f issued)
    {s : SignedStatement} (held : fieldOf ev f = some s) :
    ∃ t ∈ issued, canon (.dict s.payload) = canon (.dict t.payload) := by
  obtain ⟨read, type, right_⟩ := gathered_read gathered held
  obtain ⟨t, member, same⟩ := only s read type right_
  obtain ⟨b, signed⟩ := toBeSigned_of_entitled right_
  obtain ⟨-, -, -, -, payload⟩ := toBeSigned_fields signed (same ▸ signed)
  exact ⟨t, member, payload⟩

/-- The only value that is written like this one. -/
def Fixed (v : Value) : Prop := ∀ w, canon w = canon v → w = v

theorem fixed_text (x : Option String) : Fixed (optionText x) := by
  intro w same
  cases x with
  | none => cases w <;> simp_all [canon, optionText]
  | some s => cases w <;> simp_all [canon, optionText]

theorem fixed_str (s : String) : Fixed (.str s) := fixed_text (some s)

theorem fixed_strings (xs : List String) : Fixed (.ofStrings xs) := by
  intro w same
  rw [(settled_strings xs).2] at same
  cases w with
  | list ys =>
    rw [canon, Value.ofStrings, Value.list.injEq, canonList_map] at same
    rw [Value.ofStrings, Value.list.injEq]
    induction xs generalizing ys with
    | nil => exact List.map_eq_nil_iff.mp same
    | cons x xs ih =>
      cases ys with
      | nil => cases same
      | cons y ys =>
        rw [List.map_cons, List.map_cons, List.cons.injEq] at same
        rw [List.map_cons, ih ys same.2, fixed_str x y (same.1.trans (canon_str x).symm)]
  | _ => simp [canon, Value.ofStrings] at same

theorem getOr_kept {d e : Dict} (same : canon (.dict d) = canon (.dict e)) {k : String}
    (fixed : Fixed (getOr e k)) : getOr d k = getOr e k := by
  refine fixed _ ?_
  rw [canon_dict, canon_dict, Value.dict.injEq] at same
  rw [← getOr_canonPayload, ← getOr_canonPayload, same]

/-- One request, what came back, and what the user stated and handed over. -/
structure Attempt where
  request : Dict
  salt : String
  received : Dict
  terms : ContractTerms
  private_ : PrivateEvidence
  observed : ObservationReport
  contract : SignedStatement
  observation : SignedStatement

/-- The commitments are the user's own, of the request, of the results of transforms and of
the response. -/
structure Built (K : Primitives) (a : Attempt) : Prop where
  contract : a.contract.payload = contractPayload a.terms
  observation : a.observation.payload = observationPayload a.observed
  request : Commits K a.salt a.request a.terms.reqCommit
  response : Commits K a.salt a.received a.observed.respCommit
  expected : ∀ x ∈ a.private_.expectedRequestCommits, ∃ t body c, x = (.str t, .str c) ∧
    applyTransform t a.request = some body ∧ Commits K a.salt body c

/-- Whatever relay and operator it went through, a request of the simulation's user that was
answered is built so. -/
theorem send_built {U : User} {R : Relay} {M : ModelOperator} {answers : Answers} {s s' : Sim}
    {req : Request} {result : AttemptResult} {response : Dict}
    (sent : U.send K R M answers s req = .ok (s', result))
    (answered : result.responseBody = some response) :
    ∃ a : Attempt, Built K a ∧ a.request = req.body ∧ a.received = response ∧
      a.contract = result.contract ∧ some a.observation = result.observation ∧
      a.private_ = result.private_ := by
  rw [User.send] at sent
  obtain ⟨requestHash, hashed, sent⟩ := bind_ok.mp sent
  obtain ⟨contract, signed, sent⟩ := bind_ok.mp sent
  obtain ⟨expected, listed, sent⟩ := bind_ok.mp sent
  obtain ⟨⟨next, resp⟩, -, sent⟩ := bind_ok.mp sent
  simp only at sent
  cases came : resp.body with
  | none =>
    rw [came] at sent
    obtain ⟨-, rfl⟩ := Prod.mk.inj (Except.ok.inj sent)
    cases answered
  | some body =>
    rw [came] at sent
    obtain ⟨observation, observed, seen, content, -, commits, -, -, same, ⟨hash, private_⟩,
      answered', -, -⟩ := receive_ok sent
    rw [answered] at answered'
    obtain rfl := Option.some.inj answered'
    rw [User.signContract] at signed
    obtain ⟨reqCommit, committed, issued⟩ := bind_ok.mp signed
    let a : Attempt :=
      { request := req.body, salt := req.salt, received := response,
        terms := U.contractTerms req reqCommit s.now, private_ := result.private_, observed,
        contract, observation }
    refine ⟨a, ⟨(issued_content issued).2, content.2, commits_of_hash hashed committed, commits,
      ?_⟩, rfl, rfl, same.symm, seen.symm, rfl⟩
    have kept : a.private_.expectedRequestCommits = expected := by
      change result.private_.expectedRequestCommits = expected
      rw [private_]
    intro x member
    rw [kept] at member
    have own := expectedCommits_ok listed
    split at own
    · obtain ⟨commitment, commits', rfl⟩ := own
      obtain rfl := List.mem_singleton.mp member
      exact ⟨publicFormatterV1, _, commitment, rfl, if_neg (by decide), commits'⟩
    · rw [own] at member
      cases member

/-- The byte strings hashed for what the user may commit to. -/
def Attempt.hashed (K : Primitives) (a : Attempt) : List Bytes :=
  [a.request, publicFormatter a.request, a.received].flatMap fun body =>
    hashedFor K (some a.salt) (.dict body)

theorem applyTransform_result {t : String} {request body : Dict}
    (applied : applyTransform t request = some body) :
    body = request ∨ body = publicFormatter request := by
  rw [applyTransform] at applied
  split at applied
  · exact .inl (Option.some.inj applied).symm
  split at applied
  · exact .inr (Option.some.inj applied).symm
  · cases applied

/-- The body is written like the result of an allowed transform of the request. -/
def AllowedForm (a : Attempt) (body : Dict) : Prop :=
  ∃ t ∈ a.terms.allowedRequestTransforms, ∃ sent, applyTransform t a.request = some sent ∧
    SameText (.dict body) (.dict sent)

/-- The execution is of an allowed form of the request, by the model asked for or by an allowed
one the relay declared as a fallback, and its answer is what the user received. -/
structure Accounts (x : Execution K) (a : Attempt) (ev : EvidenceSet) : Prop where
  request : AllowedForm a x.wire.body
  model : ∃ model, x.operator.modelNamed x.upstreamModel = .ok model ∧
    (model.modelId = a.terms.requestedModel ∨ model.modelId ∈ a.terms.allowedModels ∧
      a.terms.fallbackPolicy ≠ "none" ∧ field ev.r "policy_decision" = .str "fallback")
  response : ∃ answer, x.response = some answer ∧ SameText (.dict answer) (.dict a.received)

/-- The commitment a passed verdict approves is of an allowed form of the request. -/
theorem approved_request {a : Attempt} (built : Built K a) {ev : EvidenceSet} {salt : String}
    {body : Dict} {c : String} (private_ : ev.privateEvidence = some a.private_)
    (stated : field ev.c "req_commit" = .str a.terms.reqCommit)
    (allowed : field ev.c "allowed_request_transforms" =
      .ofStrings a.terms.allowedRequestTransforms)
    (commits : Commits K salt body c) (approves : ContractApproves ev (.str c)) :
    AllowedForm a body ∨ Collision K (hashedFor K (some salt) (.dict body) ++ a.hashed K) := by
  have permitted : ∀ t, memberOf (.str t) (allowedRequests ev) = true →
      t ∈ a.terms.allowedRequestTransforms := by
    intro t member
    rw [allowedRequests, allowed, memberOf_str] at member
    obtain ⟨t', inside, same⟩ := List.mem_map.mp member
    exact Value.str.inj same ▸ inside
  have settled : ∀ t sent, t ∈ a.terms.allowedRequestTransforms →
      applyTransform t a.request = some sent → Commits K a.salt sent c → AllowedForm a body ∨
      Collision K (hashedFor K (some salt) (.dict body) ++ a.hashed K) := by
    intro t sent member applied commits'
    rcases commitOf_binding commits commits' with same | collides
    · exact .inl ⟨t, member, sent, applied, same⟩
    · refine .inr (collides.mono fun b inside => ?_)
      rcases List.mem_append.mp inside with mine | other
      · exact List.mem_append_left _ mine
      · refine List.mem_append_right _ (List.mem_flatMap.mpr ⟨sent, ?_, other⟩)
        rcases applyTransform_result applied with rfl | rfl
        · exact List.mem_cons_self
        · exact List.mem_cons_of_mem _ List.mem_cons_self
  rcases approves with ⟨member, same⟩ | ⟨x, expected, member, same⟩
  · rw [stated, eq_str_str, beq_iff_eq] at same
    exact settled identity a.request (permitted _ member) (if_pos rfl) (same ▸ built.request)
  · rw [private_] at expected
    obtain ⟨t, sent, c', rfl, applied, commits'⟩ := built.expected x expected
    rw [eq_str_str, beq_iff_eq] at same
    exact settled t sent (permitted _ member) applied (same ▸ commits')

/-- The route of a passed verdict is one the contract allows. -/
theorem routed_model {a : Attempt} {ev : EvidenceSet} {model : String}
    (served : modelServed ev = .str model)
    (requested : field ev.c "requested_model" = .str a.terms.requestedModel)
    (allowed : field ev.c "allowed_models" = .ofStrings a.terms.allowedModels)
    (policy : field ev.c "fallback_policy" = .str a.terms.fallbackPolicy)
    (holds : Holds K .e8 ev) :
    model = a.terms.requestedModel ∨ model ∈ a.terms.allowedModels ∧
      a.terms.fallbackPolicy ≠ "none" ∧ field ev.r "policy_decision" = .str "fallback" := by
  rcases holds with asked | ⟨inside, forbidden, declared⟩
  · rw [ServedAsRequested, served, requested, eq_str_str, beq_iff_eq] at asked
    exact .inl asked
  · rw [ServedAllowed, served, allowed, Value.ofStrings, isIn, Except.ok.injEq,
      memberOf_str] at inside
    obtain ⟨model', member, same⟩ := List.mem_map.mp inside
    refine .inr ⟨Value.str.inj same ▸ member, fun none_ => forbidden ?_, declared⟩
    rw [policy, none_]

/-- A gathered statement of the user has the fields of the one the user issued. -/
theorem field_issued {sub : Value} {p : Option PrivateEvidence} {now : Int} {ev : EvidenceSet}
    (gathered : gather K engine sub entries p now = .ok ev) {f : Field} {t : SignedStatement}
    (only : SignedOnly K engine entries f [t]) (present : (fieldOf ev f).isSome = true) {k : String}
    (fixed : Fixed (getOr t.payload k)) :
    field ((fieldOf ev f).map SignedStatement.payload) k = getOr t.payload k := by
  obtain ⟨s, held⟩ := Option.isSome_iff_exists.mp present
  obtain ⟨t', member, same⟩ := gathered_issued gathered only held
  obtain rfl := List.mem_singleton.mp member
  rw [held]
  exact getOr_kept same fixed

/-- What the gathered receipt says of the execution it was signed for. -/
structure SignedFor (x : Execution K) (ev : EvidenceSet) (model : MockModel) (salt : String)
    (answer : Dict) (asked answered : String) : Prop where
  named : x.operator.modelNamed x.upstreamModel = .ok model
  served : modelServed ev = .str model.modelId
  salted : x.wire.salt = some salt
  request : field ev.m "request_commit" = .str asked
  commits : Commits K salt x.wire.body asked
  response : field ev.m "response_commit" = .str answered
  given : x.response = some answer
  responds : Commits K salt answer answered

/-- A receipt with a response commitment was signed for an execution under some salt. -/
theorem receipt_signedFor {executions : List (Execution K)} {sub : Value}
    {p : Option PrivateEvidence} {now : Int} {ev : EvidenceSet}
    (gathered : gather K engine sub entries p now = .ok ev)
    (receipts : SignedOnly K engine entries .receipt (executions.filterMap Execution.receipt))
    (signed : field ev.m "response_commit" ≠ .null) :
    ∃ x ∈ executions, ∃ model salt answer asked answered,
      SignedFor x ev model salt answer asked answered := by
  obtain ⟨rc, held⟩ : ∃ rc, ev.receipt = some rc := by
    cases held : ev.receipt with
    | none =>
      rw [EvidenceSet.m, held] at signed
      exact absurd rfl signed
    | some rc => exact ⟨rc, rfl⟩
  obtain ⟨t, issued, same⟩ := gathered_issued gathered receipts (f := .receipt) held
  obtain ⟨x, member, own⟩ := List.mem_filterMap.mp issued
  obtain ⟨model, report, reports⟩ := receipt_reports x own
  rw [reports.payload] at same
  have hm : ev.m = some rc.payload := by
    rw [EvidenceSet.m, held]
    rfl
  have request : field ev.m "request_commit" = optionText report.requestCommit := by
    rw [hm]
    exact getOr_kept same (fixed_text report.requestCommit)
  have response : field ev.m "response_commit" = optionText report.responseCommit := by
    rw [hm]
    exact getOr_kept same (fixed_text report.responseCommit)
  have served : modelServed ev = .str model.modelId := by
    have named : getOr (receiptPayload report) "model_id" = .str model.modelId := reports.model
    rw [modelServed, hm, ← named]
    exact getOr_kept same (named ▸ fixed_str model.modelId)
  rw [response] at signed
  rcases reports.response with silent | ⟨answer, given, responded⟩
  · rw [silent] at signed
    exact absurd rfl signed
  · have asked := reports.request
    cases salted : x.wire.salt with
    | none =>
      rw [salted] at responded
      rw [← Except.ok.inj responded] at signed
      exact absurd rfl signed
    | some salt =>
      rw [salted] at asked responded
      obtain ⟨c, seen, commits⟩ := commitOf_some asked
      obtain ⟨c', told, responds⟩ := commitOf_some responded
      rw [seen] at request
      rw [told] at response
      exact ⟨x, member, model, salt, answer, c, c', reports.named, served, salted, request,
        commits, response, given, responds⟩

/-- Whatever the relay sent, stated, registered and showed, a passed verdict speaks of one
execution. -/
theorem passed_accounts {a : Attempt} (built : Built K a) {executions : List (Execution K)}
    {sub : Value} {now : Int} {ev : EvidenceSet} {parties : List String} {v : Verdict}
    (contracts : SignedOnly K engine entries .contract [a.contract])
    (observations : SignedOnly K engine entries .observation [a.observation])
    (receipts : SignedOnly K engine entries .receipt (executions.filterMap Execution.receipt))
    (gathered : gather K engine sub entries (some a.private_) now = .ok ev)
    (judged : reconcile K engine ev parties = .ok v) (passed : v.status = .passed) :
    ∃ x ∈ executions, Accounts x a ev ∨ Collision K (x.hashed ++ a.hashed K) := by
  have required := ((reconcile_passed judged).mp passed).required
  obtain ⟨contracted, observed⟩ := (required .e12 (by decide)).1
  obtain ⟨⟨signed, -, -⟩, -, delivered⟩ := required .e10 (by decide)
  obtain ⟨-, -, seen, said, approved⟩ := required .e4 (by decide)
  have route := (required .e8 (by decide)).2
  have private_ : ev.privateEvidence = some a.private_ := by
    rw [gather_private] at gathered
    obtain ⟨ev', -, rfl⟩ := map_ok gathered
    rfl
  -- what the user states reaches the verdict as it was stated
  have contract : ∀ k, Fixed (getOr (contractPayload a.terms) k) →
      field ev.c k = getOr (contractPayload a.terms) k := by
    rw [← built.contract]
    intro k fixed
    exact field_issued gathered contracts (Option.isSome_map.symm.trans contracted) fixed
  have received : field ev.o "resp_commit" = .str a.observed.respCommit := by
    have stated : getOr a.observation.payload "resp_commit" = .str a.observed.respCommit := by
      rw [built.observation]
      rfl
    rw [← stated]
    exact field_issued gathered observations (Option.isSome_map.symm.trans observed)
      (stated ▸ fixed_str _)
  obtain ⟨x, member, model, salt, answer, asked, answered, receipt⟩ :=
    receipt_signedFor gathered receipts signed
  refine ⟨x, member, ?_⟩
  have own : x.hashed = hashedFor K (some salt) (.dict x.wire.body) ++
      hashedFor K (some salt) (.dict answer) := by
    simp [Execution.hashed, receipt.salted, receipt.given]
  have spoken : seen = .str asked := by
    rw [commitSeen, receipt.request] at said
    exact (Option.some.inj said).symm
  rw [spoken] at approved
  rcases approved_request built private_ (contract "req_commit" (fixed_str _))
    (contract "allowed_request_transforms" (fixed_strings _)) receipt.commits
    (contractApproves_of_approved approved) with form | collides
  · rw [receipt.response, received, eq_str_str, beq_iff_eq] at delivered
    rcases commitOf_binding receipt.responds (delivered ▸ built.response) with same | collides
    · refine .inl ⟨form, ⟨model, receipt.named, ?_⟩, answer, receipt.given, same⟩
      exact routed_model receipt.served (contract "requested_model" (fixed_str _))
        (contract "allowed_models" (fixed_strings _))
        (contract "fallback_policy" (fixed_str _)) route
    · refine .inr (collides.mono fun b inside => ?_)
      rw [own]
      rcases List.mem_append.mp inside with mine | other
      · exact List.mem_append_left _ (List.mem_append_right _ mine)
      · exact List.mem_append_right _ (List.mem_flatMap.mpr ⟨a.received, by simp, other⟩)
  · refine .inr (collides.mono fun b inside => ?_)
    rw [own]
    rcases List.mem_append.mp inside with mine | other
    · exact List.mem_append_left _ (List.mem_append_left _ mine)
    · exact List.mem_append_right _ other

def sampleUser : User :=
  { key := ⟨"U", [1]⟩, gate := protectGate }

def sampleModel : MockModel :=
  { modelId := "model-A", version := "1", style := "plain", latencyMs := 0 }

def sampleOperator : ModelOperator :=
  { key := ⟨"M", [3]⟩, models := [("model-A", sampleModel)], infer := fun _ _ => .ok answer_,
    lookupContract := fun _ _ => none }

def sampleRequest : Request :=
  { sub := "urn:itx:req:1", attemptId := "att-001", sessionSeq := 1, nonce := zeros 64,
    salt := zeros 64, body := question, requestedModel := "model-A", allowedModels := ["model-A"],
    fallbackPolicy := "none", allowedRequestTransforms := [identity], ttlMs := 5000 }

def sampleEngine : ReconciliationEngine :=
  { trustedKeys := [(.str "U", .str userIss, [1]), (.str "M", .str modelIss, [3])],
    referenceModelHashes := fields [("model-A", .str (sampleModel.manifestHash toy))],
    policyHash := "", trustKeysVersion := "",
    issuerContentTypes := [(.str userIss, [.str ctContract, .str ctObservation]),
      (.str modelIss, [.str ctReceipt])] }

/-- The relay states and registers nothing, and only shows the user the receipt. -/
def sampleVerdict : Py Status := do
  let hash ← contentHash toy (.dict question)
  let contract ← sampleUser.signContract toy sampleRequest hash 0
  let (_, _, receipt, _) ← sampleOperator.serve toy {} "model-A"
    ⟨"urn:itx:req:1", "att-001", some (zeros 64), some (zeros 64), question, "model-A"⟩
  let received ← contentHash toy (.dict answer_)
  let commitment ← commitHex toy (.str (zeros 64)) (.str received)
  let observation ← sampleUser.observe toy sampleRequest commitment 10 receipt none
  let ev ← gather toy sampleEngine (.str "urn:itx:req:1")
    [⟨1, 100, contract⟩, ⟨2, 200, observation⟩]
    (some { salt := .str (zeros 64), requestHash := .str hash }) 300
  let v ← reconcile toy sampleEngine ev ["U", "R", "M"]
  pure v.status

theorem sampleVerdict_passed : sampleVerdict = .ok .passed := by
  decide +kernel

/-- Where the user's two statements are registered, they and the receipt shown are read. -/
theorem read_from_user {contract observation s : SignedStatement} {receipt : Option SignedStatement}
    {terms : ContractTerms} {report : ObservationReport} {i j at_ at_' : Int}
    (stated : contract.payload = contractPayload terms)
    (reported : observation.payload = observationPayload report)
    (shown : report.presentedReceipt = (receipt.map SignedStatement.toDict).getD .null)
    (read : ReadFrom [⟨i, at_, contract⟩, ⟨j, at_', observation⟩] s) :
    s = contract ∨ s = observation ∨ receipt = some s := by
  obtain ⟨e, inside, read⟩ := read
  rcases List.mem_cons.mp inside with rfl | inside
  · rcases read with same | read
    · exact .inl same.symm
    · rw [stated] at read
      cases read
  · obtain rfl := List.mem_singleton.mp inside
    rcases read with same | read
    · exact .inr (.inl same.symm)
    · have presented : getOr observation.payload "presented_receipt" =
          report.presentedReceipt := by
        rw [reported]
        rfl
      rw [presented, shown] at read
      cases receipt with
      | none => cases read
      | some rc =>
        rw [Option.map_some, Option.getD_some, SignedStatement.fromDict_toDict] at read
        exact .inr (.inr (congrArg some (Except.ok.inj read)))

theorem passed_accounts_shown : ∃ (x : Execution toy) (a : Attempt) (ev : EvidenceSet),
    a.request = question ∧ a.received = answer_ ∧
    (Accounts x a ev ∨ Collision toy (x.hashed ++ a.hashed toy)) := by
  obtain ⟨hash, hashed, rest⟩ := bind_ok.mp sampleVerdict_passed
  obtain ⟨contract, signed, rest⟩ := bind_ok.mp rest
  obtain ⟨⟨after, response, receipt, decision⟩, served, rest⟩ := bind_ok.mp rest
  obtain ⟨received, hashed', rest⟩ := bind_ok.mp rest
  obtain ⟨commitment, committed, rest⟩ := bind_ok.mp rest
  obtain ⟨observation, observed, rest⟩ := bind_ok.mp rest
  obtain ⟨ev, gathered, rest⟩ := bind_ok.mp rest
  obtain ⟨v, judged, passed⟩ := bind_ok.mp rest
  obtain ⟨reqCommit, asked, issued⟩ := bind_ok.mp signed
  obtain ⟨report, content, -, rfl, -, shown⟩ := observe_ok observed
  have own := issued_content issued
  let a : Attempt :=
    { request := question, salt := zeros 64, received := answer_,
      terms := sampleUser.contractTerms sampleRequest reqCommit 0,
      private_ := { salt := .str (zeros 64), requestHash := .str hash }, observed := report,
      contract, observation }
  let x : Execution toy := ⟨sampleOperator, {}, "model-A", _, after, response, receipt, decision,
    served⟩
  have built : Built toy a := ⟨own.2, content.2, commits_of_hash hashed asked,
    commits_of_hash hashed' committed, by simp [a]⟩
  have typed : ∀ rc, receipt = some rc → rc.contentType = .str ctReceipt := by
    intro rc same
    obtain ⟨model, report, reports⟩ := receipt_reports x same
    exact reports.type
  have signedOnly : ∀ {f issued}, (∀ s, (s = contract ∨ s = observation ∨ receipt = some s) →
      s.contentType = .str (typeOf f) → s ∈ issued) →
      SignedOnly toy sampleEngine [⟨1, 100, contract⟩, ⟨2, 200, observation⟩] f issued :=
    fun listed s read type _ => ⟨s, listed s (read_from_user own.2 content.2 shown read) type, rfl⟩
  have contracts : SignedOnly toy sampleEngine [⟨1, 100, contract⟩, ⟨2, 200, observation⟩] .contract
      [a.contract] := by
    refine signedOnly fun s one type => ?_
    rcases one with rfl | rfl | same
    · exact List.mem_singleton_self _
    · rw [content.1] at type
      exact absurd (Value.str.inj type) (by decide)
    · rw [typed s same] at type
      exact absurd (Value.str.inj type) (by decide)
  have observations : SignedOnly toy sampleEngine [⟨1, 100, contract⟩, ⟨2, 200, observation⟩]
    .observation
      [a.observation] := by
    refine signedOnly fun s one type => ?_
    rcases one with rfl | rfl | same
    · rw [own.1] at type
      exact absurd (Value.str.inj type) (by decide)
    · exact List.mem_singleton_self _
    · rw [typed s same] at type
      exact absurd (Value.str.inj type) (by decide)
  have receipts : SignedOnly toy sampleEngine [⟨1, 100, contract⟩, ⟨2, 200, observation⟩] .receipt
      ([x].filterMap Execution.receipt) := by
    refine signedOnly fun s one type => ?_
    rcases one with rfl | rfl | same
    · rw [own.1] at type
      exact absurd (Value.str.inj type) (by decide)
    · rw [content.1] at type
      exact absurd (Value.str.inj type) (by decide)
    · exact List.mem_filterMap.mpr ⟨x, List.mem_singleton_self _, same⟩
  obtain ⟨x', -, account⟩ := passed_accounts built contracts observations receipts gathered judged
    (Except.ok.inj passed)
  exact ⟨x', a, ev, rfl, rfl, account⟩

end EndToEnd
