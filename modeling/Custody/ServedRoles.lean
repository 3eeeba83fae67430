import Custody.AtMostOnce
import Custody.RemoteCalls
import Custody.ServiceReplay

/-!
# Services behind the network

The state of a service after any requests, whoever sent them, is the state of a run
of the operations that were admitted. So what holds of those runs holds of a
service on an open port, and what a service did goes back to a message that a
pinned role signed for it.
-/

namespace ServedRoles

open PyValue HexBytes CanonicalJson Commitments Statements Schemas Engine TransparencyLog Identity
  PagedExport Effects Rpc Execution AtMostOnce

variable (K : Primitives)

/-- What a health answer reads. -/
structure Standing where
  role : String
  key : KeyPair
  logId : String
  modelKind : String
  modelId : String
  policyExpiresAt : Int
  pending : Nat
  retired : Bool

/-- `health`, with its two readings of the clock. -/
def health (w : Standing) (p : Dict) (now later : Int) : Py Value := do
  let challenge ← getItem p "challenge"
  let body := fields [("role", .str w.role), ("log_id", .str w.logId), ("challenge", challenge),
    ("at", .int now), ("model_kind", .str w.modelKind), ("model_id", .str w.modelId),
    ("queue_depth", .int w.pending), ("profile", .str "itx-health/1"),
    ("accepting_requests", .bool (!w.retired && decide (later < w.policyExpiresAt)))]
  let message ← canonicalJson (.dict body)
  pure (.dict (fields [("body", .dict body), ("signature", .str (hex (w.key.sign K message)))]))

/-- `held_receipts`: the rows of receipts in the descending order of their keys. -/
def heldReceipts (role : String) (receipts : List (String × Value)) : Value :=
  let rows := receipts.mergeSort fun x y => !charsLt x.1.toList y.1.toList
  .dict (fields [("holder", .str role), ("receipts", .list (rows.map Prod.snd))])

def roleText : Role → String
  | .U => "U"
  | .R => "R"
  | .M => "M"
  | .T => "T"

/-- One request at a server, with the clock that checks it and what surrounds the operation. -/
structure Visit where
  post : Posted
  now : Int
  later : Int := 0
  how : Conditions

def standing (O : Operator) (S : Machine) (how : Conditions) : Standing :=
  { role := roleText O.role, key := O.key, logId := O.config.logId, modelKind := O.modelKind,
    modelId := O.modelId, policyExpiresAt := O.config.policyExpiresAt,
    pending := S.sender.outbox.length, retired := how.retired }

/-- `Service.handle` of a role that serves `infer`. -/
def operatorHandle (O : Operator) (v : Visit) : Handle Machine := fun a => do
  match a.payload with
  | .dict p =>
    let S ← MonadState.get
    if a.operation = "health" then lift (health K (standing O S v.how) p v.how.now v.later)
    else if a.operation = "held_receipts" then
      pure (heldReceipts (roleText O.role) S.sender.receipts)
    else if a.operation = "infer" then infer K O a.payload v.how
    else throw (.valueError "unsupported operation")
  | _ => throw (.valueError "payload must be an object")

inductive OperatorEvent where
  | visit (v : Visit)
  | restart

def operatorStep (P : Party) (O : Operator) (S : Machine) : OperatorEvent → Machine
  | .visit v => (doPost K P (operatorHandle K O v) v.now v.post S).2
  | .restart => Execution.step K O S .restart

def operatorRun (P : Party) (O : Operator) (S : Machine) (events : List OperatorEvent) : Machine :=
  events.foldl (operatorStep K P O) S

/-- One request at the third party, with the clock readings of its operations. -/
structure RecordVisit where
  post : Posted
  now : Int
  retired : Bool
  registered : Int
  clock : Service.Service.Readings

def roleNamed (name : String) : Option Role := [Role.U, .R, .M, .T].find? fun r => roleText r = name

/-- An operation that raises leaves the state as it was. -/
def onService (x : Py (Service.Service × Value)) : EStateM PyErr Service.Service Value := fun S =>
  match x with
  | .ok (next, answer) => .ok answer next
  | .error e => .error e S

variable (reading : String → Dict → Service.Service → Py Value)

/-- `Service.handle` of the third party; `reading` answers the operations that only read. -/
def recordHandle (v : RecordVisit) : Handle Service.Service := fun a => do
  match a.payload with
  | .dict p =>
    let S ← MonadState.get
    if a.operation = "submit" then
      match roleNamed a.actor with
      | some actor => onService (S.submit K actor p v.retired v.registered)
      | none => throw .keyError
    else if a.operation = "verdict" then onService (S.verdict K p v.clock)
    else lift (reading a.operation p S)
  | _ => throw (.valueError "payload must be an object")

def recordStep (P : Party) (S : Service.Service) (v : RecordVisit) : Service.Service :=
  (doPost K P (recordHandle K reading v) v.now v.post S).2

def recordRun (P : Party) (S : Service.Service) (visits : List RecordVisit) : Service.Service :=
  visits.foldl (recordStep K reading P) S

/-- The executions that a request asks for. -/
def executions (P : Party) : OperatorEvent → List Execution.Event
  | .restart => [.restart]
  | .visit v => match admission K P v.now v.post with
    | .ok a => match a.payload with
      | .dict _ => if a.operation = "infer" then [.call a.payload v.how] else []
      | _ => []
    | .error _ => []

/-- The operations of the third party that a request asks for. -/
def recordOperations (P : Party) (v : RecordVisit) : List Service.Operation :=
  match admission K P v.now v.post with
  | .ok a => match a.payload with
    | .dict p =>
      if a.operation = "submit" then match roleNamed a.actor with
        | some actor => [.submit actor p v.retired v.registered]
        | none => []
      else if a.operation = "verdict" then [.verdict p v.clock]
      else []
    | _ => []
  | .error _ => []

variable {K} {P : Party}

theorem final_lift {E S A : Type} (x : Except E A) (s : S) : final (lift x s) = s := by
  cases x with
  | ok a => rfl
  | error e => rfl

theorem operatorHandle_final (O : Operator) (v : Visit) {a : Admitted} {p : Dict} (S : Machine)
    (payload : a.payload = .dict p) : final (operatorHandle K O v a S) =
      if a.operation = "infer" then final (infer K O a.payload v.how S) else S := by
  have shape : operatorHandle K O v a S =
      (if a.operation = "health" then lift (health K (standing O S v.how) p v.how.now v.later)
        else if a.operation = "held_receipts" then
          pure (heldReceipts (roleText O.role) S.sender.receipts)
        else if a.operation = "infer" then infer K O a.payload v.how
        else throw (.valueError "unsupported operation")) S := by
    simp only [operatorHandle, payload]
    rfl
  rw [shape]
  by_cases checking : a.operation = "health"
  · have other : a.operation ≠ "infer" := by rw [checking]; decide
    rw [if_pos checking, if_neg other, final_lift]
  · rw [if_neg checking]
    by_cases asking : a.operation = "held_receipts"
    · have other : a.operation ≠ "infer" := by rw [asking]; decide
      rw [if_pos asking, if_neg other]
      rfl
    · rw [if_neg asking]
      by_cases executing : a.operation = "infer"
      · rw [if_pos executing, if_pos executing]
      · rw [if_neg executing, if_neg executing]
        rfl

theorem operatorStep_run (O : Operator) (S : Machine) (ev : OperatorEvent) :
    operatorStep K P O S ev = Execution.run K O S (executions K P ev) := by
  cases ev with
  | restart => rfl
  | visit v =>
    rw [operatorStep, executions]
    cases admitted : admission K P v.now v.post with
    | error e =>
      rw [RemoteCalls.doPost_refused admitted]
      rfl
    | ok a =>
      rw [RemoteCalls.doPost_admitted admitted]
      obtain ⟨actor, operation, payload⟩ := a
      cases payload with
      | dict p =>
        rw [operatorHandle_final O v S rfl]
        simp only
        split
        next => rfl
        next => rfl
      | _ => rfl

theorem operatorRun_run (O : Operator) (S : Machine) (events : List OperatorEvent) :
    operatorRun K P O S events = Execution.run K O S (events.flatMap (executions K P)) := by
  induction events generalizing S with
  | nil => rfl
  | cons ev rest ih =>
    have later := ih (Execution.run K O S (executions K P ev))
    rw [Execution.run, Execution.run, ← List.foldl_append] at later
    rw [operatorRun, List.foldl_cons, operatorStep_run, List.flatMap_cons]
    exact later

section started

variable {O : Operator} {q : Request}

/-- Whatever was started belongs to this request, or was started before. -/
def Own (before : List Started) (q : Request) (S : Machine) : Prop :=
  ∀ x ∈ S.started, x ∈ before ∨ ∃ nonce, x = startOf q nonce

variable {before : List Started}

theorem keeps_touch {A : Type} (d : Disturbance) {operation : Machine → Py (A × Machine)}
    (same : ∀ S a S', operation S = .ok (a, S') → S'.started = S.started) :
    Keeps (Own before q) (touch d operation) := by
  intro S own
  rw [Ends, touch]
  cases d.failure with
  | some e => exact own
  | none =>
    cases done : operation { S with sender := d.flushed S.sender } with
    | error e => exact own
    | ok p =>
      obtain ⟨a, S'⟩ := p
      have kept : Own before q S' := by
        intro x member
        exact own x (same _ _ _ done ▸ member)
      cases d.late with
      | some e => exact kept
      | none => exact kept

theorem keeps_lift {A : Type} (x : Py A) : Keeps (Own before q) (lift x) := by
  intro S own
  exact ends_lift (fun _ _ => own) own

theorem keeps_start (nonce : String) : Keeps (Own before q) (start q nonce) := by
  intro S own x member
  rcases List.mem_append.mp member with old | new
  · exact own x old
  · exact .inr ⟨nonce, List.mem_singleton.mp new⟩

theorem keeps_put (d : Disturbance) (key : String) (value : Value) :
    Keeps (Own before q) (put d key value) := by
  refine keeps_touch d fun S a S' done => ?_
  obtain ⟨b, -, done⟩ := bind_ok.mp done
  cases done
  rfl

theorem keeps_queue (d : Disturbance) (stmt : SignedStatement) :
    Keeps (Own before q) (queue K d stmt) := by
  refine keeps_touch d fun S a S' done => ?_
  obtain ⟨sender, -, done⟩ := bind_ok.mp done
  cases done
  rfl

theorem keeps_claim (d : Disturbance) (key : String) (value : Value) :
    Keeps (Own before q) (claim d key value) := by
  refine keeps_touch d fun S a S' done => ?_
  obtain ⟨b, -, done⟩ := bind_ok.mp done
  split at done
  next =>
    cases done
    rfl
  next =>
    cases done
    rfl

theorem keeps_read {A : Type} (d : Disturbance) (f : Machine → A) :
    Keeps (Own before q) (touch d fun S => .ok (f S, S)) := by
  refine keeps_touch d fun S a S' done => ?_
  cases done
  rfl

theorem keeps_reserve (how : Conditions) : Keeps (Own before q) (reserve K O q how) := by
  rw [reserve]
  refine Keeps.bind (keeps_read _ _) fun used => ?_
  split
  next => exact keeps_throw _
  refine Keeps.bind (keeps_lift _) fun nonce => Keeps.bind (keeps_claim _ _ _) fun claimed => ?_
  split
  next => exact keeps_throw _
  refine Keeps.bind (keeps_put _ _ _) fun _ => Keeps.bind (keeps_read _ _) fun waiting => ?_
  split
  next => exact keeps_throw _
  next => exact keeps_pure _

theorem keeps_execute (p : Value) (nonce : String) (how : Conditions) :
    Keeps (Own before q) (execute K O q p nonce how) := by
  rw [execute]
  split
  next =>
    rw [executeModel]
    refine Keeps.bind (keeps_lift _) fun commit => ?_
    split
    next => exact keeps_throw _
    refine Keeps.bind (keeps_start _) fun _ => Keeps.bind (keeps_lift _) fun response => ?_
    refine Keeps.bind (keeps_lift _) fun stmt => Keeps.bind (keeps_queue _ _) fun _ => ?_
    exact keeps_pure _
  next =>
    rw [executeRelay]
    refine Keeps.bind (keeps_lift _) fun scenario => Keeps.bind (keeps_start _) fun _ => ?_
    refine Keeps.bind (keeps_lift _) fun upstream => Keeps.bind (keeps_lift _) fun made => ?_
    obtain ⟨m, stmt, response⟩ := made
    simp only
    split
    next =>
      refine Keeps.bind (keeps_queue _ _) fun _ => Keeps.bind (keeps_lift _) fun kind => ?_
      exact keeps_pure _
    next => exact Keeps.bind (keeps_lift _) fun kind => keeps_pure _

/-- A call starts nothing but what its own payload was accepted as. -/
theorem infer_started (O : Operator) (p : Value) (how : Conditions) (S : Machine) :
    ∀ x ∈ (final (infer K O p how S)).started, x ∈ S.started ∨
      ∃ q nonce, accept K O p how.retired how.now = .ok q ∧ x = startOf q nonce := by
  cases accepted : accept K O p how.retired how.now with
  | error e =>
    have same : infer K O p how S = .error e S := by
      rw [infer, accepted]
      rfl
    rw [same]
    exact fun x member => .inl member
  | ok q =>
    have own : Own S.started q S := fun y old => .inl old
    have ends : Ends (infer K O p how) S (fun _ => Own S.started q) (Own S.started q) := by
      rw [infer]
      apply @Ends.bind _ _ _ _ _ _ _ fun q' S' => q' = q ∧ Own S.started q S'
      · refine ends_lift (fun q' again => ⟨?_, own⟩) own
        exact (Except.ok.inj (accepted.symm.trans again)).symm
      rintro q' S' ⟨rfl, own'⟩
      refine Keeps.bind (keeps_read _ _) (fun previous => ?_) S' own'
      split
      next => exact keeps_lift _
      exact Keeps.bind (keeps_reserve how) fun nonce => Keeps.bind (keeps_execute p nonce how)
        fun result => Keeps.bind (keeps_put _ _ _) fun _ => keeps_pure _
    intro x member
    have held := ends.final (fun _ _ kept => kept) fun _ kept => kept
    rcases held x member with old | ⟨nonce, rfl⟩
    · exact .inl old
    · exact .inr ⟨q, nonce, rfl, rfl⟩

end started

/-- The request was asked for by the role that may, and its contract is the user's own. -/
structure Asked (K : Primitives) (P : Party) (O : Operator) (v : Visit) (x : Started) : Prop where
  admitted : ∃ a, admission K P v.now v.post = .ok a ∧ a.operation = "infer" ∧
    (P.role, a.actor) ∈ [("R", "U"), ("M", "R")] ∧
    ∃ q nonce, accept K O a.payload v.how.retired v.how.now = .ok q ∧ x = startOf q nonce ∧
      Authentic K O.config .U (.str ctContract) none q.contract

/-- Who may ask for `infer`. -/
theorem infer_callers {role actor : String} {operations : List String}
    (listed : operationsOf role actor = .ok operations) (member : "infer" ∈ operations) :
    (role, actor) ∈ [("R", "U"), ("M", "R")] := by
  obtain ⟨actors, table, rights⟩ := RemoteCalls.operationsOf_listed listed member
  simp only [allowed, List.mem_cons, List.not_mem_nil, or_false, Prod.mk.injEq] at table
  rcases table with ⟨rfl, rfl⟩ | ⟨rfl, rfl⟩ | ⟨rfl, rfl⟩ | ⟨rfl, rfl⟩
  all_goals
    simp only [List.mem_cons, List.not_mem_nil, or_false, Prod.mk.injEq] at rights
  · rcases rights with ⟨-, rfl⟩ | ⟨-, rfl⟩ | ⟨-, rfl⟩ | ⟨-, rfl⟩
    all_goals exact absurd member (by decide)
  · obtain ⟨rfl, -⟩ := rights
    decide
  · rcases rights with ⟨rfl, -⟩ | ⟨-, rfl⟩
    · decide
    · exact absurd member (by decide)
  · obtain ⟨-, rfl⟩ := rights
    exact absurd member (by decide)

theorem accept_authentic {O : Operator} {p : Value} {retired : Bool} {now : Int} {q : Request}
    (accepted : accept K O p retired now = .ok q) :
    Authentic K O.config .U (.str ctContract) none q.contract := by
  rw [accept] at accepted
  split at accepted
  next => cases accepted
  next =>
    obtain ⟨data, -, accepted⟩ := bind_ok.mp accepted
    obtain ⟨contract, authentic, accepted⟩ := bind_ok.mp accepted
    obtain ⟨body, -, accepted⟩ := bind_ok.mp accepted
    obtain ⟨salt, -, accepted⟩ := bind_ok.mp accepted
    obtain ⟨prompt, -, accepted⟩ := bind_ok.mp accepted
    obtain ⟨-, -, accepted⟩ := bind_ok.mp accepted
    obtain ⟨-, -, accepted⟩ := bind_ok.mp accepted
    obtain ⟨commit, -, accepted⟩ := bind_ok.mp accepted
    obtain ⟨sub, -, accepted⟩ := bind_ok.mp accepted
    obtain ⟨content, -, accepted⟩ := bind_ok.mp accepted
    obtain rfl := Except.ok.inj accepted
    exact authentic_of authentic

theorem operatorStep_started (O : Operator) (S : Machine) (ev : OperatorEvent) :
    ∀ x ∈ (operatorStep K P O S ev).started, x ∈ S.started ∨
      ∃ v, ev = .visit v ∧ Asked K P O v x := by
  cases ev with
  | restart => exact fun x member => .inl member
  | visit v =>
    intro x member
    rw [operatorStep] at member
    cases admitted : admission K P v.now v.post with
    | error e =>
      rw [RemoteCalls.doPost_refused admitted] at member
      exact .inl member
    | ok a =>
      rw [RemoteCalls.doPost_admitted admitted] at member
      obtain ⟨d, valid⟩ := RemoteCalls.admission_valid admitted
      obtain ⟨operations, listed, entitled⟩ := valid.entitled
      obtain ⟨actor, operation, payload⟩ := a
      cases payload with
      | dict p =>
        rw [operatorHandle_final O v S rfl] at member
        split at member
        next executing =>
          obtain rfl : operation = "infer" := executing
          rcases infer_started O _ _ S x member with old | ⟨q, nonce, accepted, made⟩
          · exact .inl old
          · refine .inr ⟨v, rfl, ⟨_, admitted, rfl, infer_callers listed entitled, q, nonce,
              accepted, made, accept_authentic accepted⟩⟩
        next => exact .inl member
      | _ => exact .inl member

theorem operatorRun_started (O : Operator) (S : Machine) (events : List OperatorEvent) :
    ∀ x ∈ (operatorRun K P O S events).started, x ∈ S.started ∨
      ∃ v, .visit v ∈ events ∧ Asked K P O v x := by
  induction events generalizing S with
  | nil => exact fun x member => .inl member
  | cons ev rest ih =>
    intro x member
    rcases ih _ x member with old | ⟨v, inside, asked⟩
    · rcases operatorStep_started O S ev x old with older | ⟨v, rfl, asked⟩
      · exact .inl older
      · exact .inr ⟨v, List.mem_cons_self, asked⟩
    · exact .inr ⟨v, List.mem_cons_of_mem _ inside, asked⟩

/-- Whatever is sent to a relay or a model operator, and however often, each request is executed at
most once; and each that was executed has a contract of the user's and was asked for by the role
that comes before in the chain. -/
theorem served_at_most_once (P : Party) (O : Operator) (sender : Delivery.Sender)
    (events : List OperatorEvent) :
    Protected K O (operatorRun K P O { sender } events) ∧
    ∀ x ∈ (operatorRun K P O { sender } events).started, ∃ v, .visit v ∈ events ∧
      Asked K P O v x := by
  constructor
  · rw [operatorRun_run]
    exact inv_protected (run_inv O (init_inv sender) _)
  · intro x member
    rcases operatorRun_started O _ events x member with old | asked
    · cases old
    · exact asked

section records

variable {reading : String → Dict → Service.Service → Py Value}

theorem final_onService (x : Py (Service.Service × Value)) (S : Service.Service)
    (op : Service.Operation)
    (performed : Service.perform K S op = x) : final (onService x S) = Service.step K S op := by
  rw [Service.step, performed]
  cases x with
  | error e => rfl
  | ok p => rfl

theorem recordStep_run (S : Service.Service) (v : RecordVisit) :
    recordStep K reading P S v = Service.run K S (recordOperations K P v) := by
  rw [recordStep, recordOperations]
  cases admitted : admission K P v.now v.post with
  | error e =>
    rw [RemoteCalls.doPost_refused admitted]
    rfl
  | ok a =>
    rw [RemoteCalls.doPost_admitted admitted]
    obtain ⟨actor, operation, payload⟩ := a
    cases payload with
    | dict p =>
      by_cases submitting : operation = "submit"
      · subst submitting
        cases named : roleNamed actor with
        | none =>
          simp only [recordHandle, if_true, named]
          rfl
        | some role =>
          simp only [recordHandle, if_true, named]
          exact final_onService _ S (.submit role p v.retired v.registered) rfl
      · by_cases judging : operation = "verdict"
        · subst judging
          exact final_onService _ S (.verdict p v.clock) rfl
        · simp only [recordHandle, if_neg submitting, if_neg judging]
          exact final_lift (reading operation p S) S
    | _ => rfl

theorem recordRun_run (S : Service.Service) (visits : List RecordVisit) :
    recordRun K reading P S visits = Service.run K S (visits.flatMap (recordOperations K P)) := by
  induction visits generalizing S with
  | nil => rfl
  | cons v rest ih =>
    have later := ih (Service.run K S (recordOperations K P v))
    rw [Service.run, Service.run, ← List.foldl_append] at later
    rw [recordRun, List.foldl_cons, recordStep_run, List.flatMap_cons]
    exact later

/-- An entry of the log that a request led to: a verdict on what the user asked for, signed with
the key of the third party, or a statement that its own issuer handed in and signed. -/
inductive Entered (K : Primitives) (P : Party) (config : Config) (key : KeyPair) (v : RecordVisit)
    (e : LogEntry) : Prop where
  | judged {actor operation : String} {p verdict : Dict} {sub : String}
      (admitted : admission K P v.now v.post = .ok ⟨actor, operation, .dict p⟩)
      (user : actor = "U") (asked : operation = "verdict")
      (request : getItem p "sub" = .ok (.str sub))
      (own : issue K key (.str (issOf .T)) (.str sub) (.str ctVerdict) verdict v.clock.issued =
        .ok e.statement)
  | submitted {actor operation : String} {p : Dict} {role : Role} {statement ct : Value}
      (admitted : admission K P v.now v.post = .ok ⟨actor, operation, .dict p⟩)
      (issuer : actor = roleText role) (other : role ≠ .T) (asked : operation = "submit")
      (handed : find p (.str "statement") = some statement)
      (read : SignedStatement.fromDict statement = .ok e.statement)
      (own : Authentic K config role ct none e.statement)

/-- What registering a statement adds to the log, and what it leaves. -/
theorem register_entries {S next : Service.Service} {stmt : SignedStatement} {now : Int}
    {receipt : Value} (registered : S.register K stmt now = .ok (next, receipt)) :
    next.config = S.config ∧ next.key = S.key ∧
      ∀ e ∈ next.log.entries, e ∈ S.log.entries ∨ e.statement = stmt := by
  rcases ServiceReplay.register_cases registered with rfl | ⟨log, rc, journal, entered, rfl⟩
  · exact ⟨rfl, rfl, fun e inside => .inl inside⟩
  · have longer := (append_ok (register_ok entered).2).2.1
    refine ⟨rfl, rfl, fun e inside => ?_⟩
    rw [longer] at inside
    rcases List.mem_append.mp inside with old | new
    · exact .inl old
    · exact .inr (List.mem_singleton.mp new ▸ rfl)

/-- What an operation can add to the log. -/
inductive Adds (K : Primitives) (config : Config) (key : KeyPair) :
    Service.Operation → LogEntry → Prop where
  | judged {p verdict : Dict} {clock : Service.Service.Readings} {e : LogEntry} {sub : String}
      (request : getItem p "sub" = .ok (.str sub))
      (own : issue K key (.str (issOf .T)) (.str sub) (.str ctVerdict) verdict clock.issued =
        .ok e.statement) : Adds K config key (.verdict p clock) e
  | submitted {role : Role} {p : Dict} {retired : Bool} {now : Int} {e : LogEntry}
      {statement ct : Value} (handed : find p (.str "statement") = some statement)
      (read : SignedStatement.fromDict statement = .ok e.statement)
      (own : Authentic K config role ct none e.statement) :
      Adds K config key (.submit role p retired now) e

theorem step_entries (S : Service.Service) (op : Service.Operation) :
    (Service.step K S op).config = S.config ∧ (Service.step K S op).key = S.key ∧
    ∀ e ∈ (Service.step K S op).log.entries, e ∈ S.log.entries ∨ Adds K S.config S.key op e := by
  rw [Service.step]
  cases done : Service.perform K S op with
  | error err => exact ⟨rfl, rfl, fun e inside => .inl inside⟩
  | ok result =>
    obtain ⟨next, answer⟩ := result
    simp only
    cases op with
    | submit role p retired now =>
      simp only [Service.perform, Service.Service.submit] at done
      split at done
      next statement found =>
        obtain ⟨ct, -, done⟩ := bind_ok.mp done
        split at done
        next => cases done
        next =>
          split at done
          next => cases done
          next =>
            obtain ⟨stmt, authenticated, done⟩ := bind_ok.mp done
            obtain ⟨⟨after, receipt⟩, registered, done⟩ := bind_ok.mp done
            obtain ⟨rfl, -⟩ := Prod.mk.inj (Except.ok.inj done)
            obtain ⟨config, key, grown⟩ := register_entries registered
            refine ⟨config, key, fun e inside => (grown e inside).imp_right ?_⟩
            rintro rfl
            exact .submitted found (authenticate_read authenticated) (authentic_of authenticated)
      next =>
        split at done
        next =>
          obtain ⟨s, ev, -, rfl⟩ := ServiceReplay.submitPrivate_ok done
          exact ⟨rfl, rfl, fun e inside => .inl inside⟩
        next => cases done
    | verdict p clock =>
      obtain ⟨s, priv, q, ev, v, contractHash, hash, stmt, given⟩ := ServiceReplay.verdict_ok done
      obtain ⟨receipt, registered⟩ := given.registered
      obtain ⟨config, key, grown⟩ := register_entries registered
      refine ⟨config, key, fun e inside => (grown e inside).imp_right ?_⟩
      rintro rfl
      exact .judged given.asked given.issued

/-- Who may ask for what at the third party. -/
theorem record_callers {actor operation : String} {operations : List String}
    (listed : operationsOf "T" actor = .ok operations) (member : operation ∈ operations) :
    (operation = "submit" → actor ∈ ["U", "R", "M"]) ∧ (operation = "verdict" → actor = "U") := by
  obtain ⟨actors, table, rights⟩ := RemoteCalls.operationsOf_listed listed member
  simp only [allowed, List.mem_cons, List.not_mem_nil, or_false, Prod.mk.injEq] at table
  rcases table with ⟨-, rfl⟩ | ⟨other, -⟩ | ⟨other, -⟩ | ⟨other, -⟩
  · simp only [List.mem_cons, List.not_mem_nil, or_false, Prod.mk.injEq] at rights
    rcases rights with ⟨rfl, rfl⟩ | ⟨rfl, rfl⟩ | ⟨rfl, rfl⟩ | ⟨rfl, rfl⟩
    · exact ⟨fun _ => by decide, fun _ => rfl⟩
    · exact ⟨fun _ => by decide, by rintro rfl; exact absurd member (by decide)⟩
    · exact ⟨fun _ => by decide, by rintro rfl; exact absurd member (by decide)⟩
    · exact ⟨by rintro rfl; exact absurd member (by decide),
        by rintro rfl; exact absurd member (by decide)⟩
  all_goals exact absurd other (by decide)

theorem roleNamed_some {name : String} {role : Role} (named : roleNamed name = some role) :
    name = roleText role := by
  have := List.find?_some named
  simpa [eq_comm] using this

/-- The third party submits nothing to itself. -/
theorem submitted_other {now : Int} {post : Posted} {actor : String} {p : Value} {role : Role}
    (third : P.role = "T") (admitted : admission K P now post = .ok ⟨actor, "submit", p⟩)
    (named : roleNamed actor = some role) : role ≠ .T := by
  obtain ⟨d, valid⟩ := RemoteCalls.admission_valid admitted
  obtain ⟨operations, listed, entitled⟩ := valid.entitled
  rw [third] at listed
  have party : actor ∈ ["U", "R", "M"] := (record_callers listed entitled).1 rfl
  rintro rfl
  rw [roleNamed_some named] at party
  exact absurd party (by decide)

theorem recordStep_entries (third : P.role = "T") (S : Service.Service) (v : RecordVisit) :
    (recordStep K reading P S v).config = S.config ∧ (recordStep K reading P S v).key = S.key ∧
    ∀ e ∈ (recordStep K reading P S v).log.entries, e ∈ S.log.entries ∨
      Entered K P S.config S.key v e := by
  rw [recordStep_run]
  have unchanged : (Service.run K S []).config = S.config ∧ (Service.run K S []).key = S.key ∧
      ∀ e ∈ (Service.run K S []).log.entries, e ∈ S.log.entries ∨
        Entered K P S.config S.key v e :=
    ⟨rfl, rfl, fun e inside => .inl inside⟩
  rw [recordOperations]
  split
  next a admitted =>
    obtain ⟨d, valid⟩ := RemoteCalls.admission_valid admitted
    obtain ⟨operations, listed, entitled⟩ := valid.entitled
    rw [third] at listed
    have judges := (record_callers listed entitled).2
    obtain ⟨actor, operation, payload⟩ := a
    cases payload with
    | dict p =>
      simp only at judges ⊢
      split
      next submitting =>
        split
        next role named =>
          obtain ⟨config, key, grown⟩ := @step_entries K S (.submit role p v.retired v.registered)
          refine ⟨config, key, fun e inside => (grown e inside).imp_right fun adds => ?_⟩
          cases adds with
          | submitted handed read own =>
            have other := submitted_other third (submitting ▸ admitted) named
            exact .submitted admitted (roleNamed_some named) other submitting handed read own
        next => exact unchanged
      next =>
        split
        next judging =>
          obtain ⟨config, key, grown⟩ := @step_entries K S (.verdict p v.clock)
          refine ⟨config, key, fun e inside => (grown e inside).imp_right fun adds => ?_⟩
          cases adds with
          | judged request own => exact .judged admitted (judges judging) judging request own
        next => exact unchanged
    | _ => exact unchanged
  next => exact unchanged

theorem recordRun_entries (third : P.role = "T") (S : Service.Service) (visits : List RecordVisit) :
    ∀ e ∈ (recordRun K reading P S visits).log.entries, e ∈ S.log.entries ∨
      ∃ v ∈ visits, Entered K P S.config S.key v e := by
  induction visits generalizing S with
  | nil => exact fun e inside => .inl inside
  | cons v rest ih =>
    intro e inside
    obtain ⟨config, key, grown⟩ := @recordStep_entries K P reading third S v
    rcases ih _ e inside with old | ⟨v', later, entered⟩
    · exact (grown e old).imp_right fun entered => ⟨v, List.mem_cons_self, entered⟩
    · exact .inr ⟨v', List.mem_cons_of_mem _ later, config ▸ key ▸ entered⟩

theorem recordOperations_others (third : P.role = "T") {visits : List RecordVisit} {role : Role}
    {p : Dict} {retired : Bool} {now : Int}
    (member : .submit role p retired now ∈ visits.flatMap (recordOperations K P)) : role ≠ .T := by
  obtain ⟨v, -, inside⟩ := List.mem_flatMap.mp member
  rw [recordOperations] at inside
  split at inside
  next a admitted =>
    obtain ⟨actor, operation, payload⟩ := a
    split at inside
    next =>
      split at inside
      next submitting =>
        split at inside
        next role' named =>
          obtain ⟨rfl, -⟩ := Service.Operation.submit.inj (List.mem_singleton.mp inside)
          obtain rfl : operation = "submit" := submitting
          exact submitted_other third admitted named
        next => cases inside
      next =>
        split at inside
        next => cases List.mem_singleton.mp inside
        next => cases inside
    next => cases inside
  next => cases inside

/-- Whatever is sent to the third party, its state is that of a run of the submissions and the
judgments that were admitted: each entry that is new is a verdict that it signed itself, on what
the user asked for, or a statement that its issuer signed and handed in itself. -/
theorem served_third_party (reading : String → Dict → Service.Service → Py Value)
    (identities : List (String × String)) (S : Service.Service) (visits : List RecordVisit) :
    (∀ e ∈ (recordRun K reading { role := "T", identities } S visits).log.entries,
      e ∈ S.log.entries ∨ ∃ v ∈ visits,
        Entered K { role := "T", identities } S.config S.key v e) ∧
    recordRun K reading { role := "T", identities } S visits =
      Service.run K S (visits.flatMap (recordOperations K { role := "T", identities })) ∧
    ∀ V hashes, ServiceReplay.Upright K V hashes S →
      (∀ v ∈ Service.everStored K S
        (visits.flatMap (recordOperations K { role := "T", identities })), V v) →
      ServiceReplay.Upright K V hashes
        (recordRun K reading { role := "T", identities } S visits) := by
  refine ⟨recordRun_entries rfl S visits, recordRun_run S visits, ?_⟩
  intro V hashes upright held
  rw [recordRun_run]
  exact ServiceReplay.upright_run upright held fun _ _ _ _ member =>
    recordOperations_others rfl member

end records

end ServedRoles
