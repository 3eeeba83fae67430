import Custody.ClaimedOnce
import Custody.Execution

/-!
# Executed at most once

Whatever is asked, and wherever a call fails or the process dies, a request is
executed at most once for its identifier and at most once for its nonce. Seen by
either key the store is a ledger of spent keys, and each call takes it at most one
step further.
-/

namespace AtMostOnce

open PyValue HexBytes CanonicalJson CanonicalForm Commitments Statements Schemas Identity Delivery
  Effects Execution ClaimedOnce

variable {K : Primitives}

/-- The rows and the executions, whatever the sender holds. -/
structure At (kv : AList fun _ : String => Value) (started : List Started) (S : Machine) :
    Prop where
  kv : S.kv = kv
  started : S.started = started

section accesses

variable {kv : AList fun _ : String => Value} {started : List Started} {S : Machine}

/-- A store operation, disturbed or not, ends with the rows it would leave or with those it found.
-/
theorem ends_touch {A : Type} {d : Disturbance} {operation : Machine → Py (A × Machine)}
    {returned : A → Machine → Prop} {raised : Machine → Prop} (here : At kv started S)
    (done : ∀ S', At kv started S' → ∀ a next, operation S' = .ok (a, next) →
      returned a next ∧ raised next)
    (failed : ∀ S', At kv started S' → raised S') : Ends (touch d operation) S returned raised := by
  have moved : At kv started { S with sender := d.flushed S.sender } := ⟨here.kv, here.started⟩
  rw [Ends, touch]
  cases d.failure with
  | some e => exact failed _ moved
  | none =>
    simp only
    cases result : operation { S with sender := d.flushed S.sender } with
    | error e => exact failed _ moved
    | ok pair =>
      obtain ⟨a, next⟩ := pair
      obtain ⟨good, bad⟩ := done _ moved a next result
      cases d.late with
      | none => exact good
      | some e => exact bad

/-- Reading a key leaves the rows and the executions. -/
theorem ends_get (d : Disturbance) (key : String) (here : At kv started S) :
    Ends (get d key) S (fun v S' => v = (kv.lookup key).getD .null ∧ At kv started S')
      (At kv started) := by
  apply ends_touch here
  · intro S' at_ v next result
    cases result
    exact ⟨⟨by rw [at_.kv], at_⟩, at_⟩
  · exact fun _ at_ => at_

theorem ends_count (d : Disturbance) (head : String) (here : At kv started S) :
    Ends (count d head) S (fun _ => At kv started) (At kv started) := by
  apply ends_touch here
  · intro S' at_ n next result
    cases result
    exact ⟨at_, at_⟩
  · exact fun _ at_ => at_

theorem ends_pending (d : Disturbance) (here : At kv started S) :
    Ends (pending d) S (fun _ => At kv started) (At kv started) := by
  apply ends_touch here
  · intro S' at_ n next result
    cases result
    exact ⟨at_, at_⟩
  · exact fun _ at_ => at_

theorem ends_queue (d : Disturbance) (stmt : SignedStatement) (here : At kv started S) :
    Ends (queue K d stmt) S (fun _ => At kv started) (At kv started) := by
  apply ends_touch here
  · intro S' at_ u next result
    obtain ⟨sender, -, result⟩ := bind_ok.mp result
    cases result
    exact ⟨⟨at_.kv, at_.started⟩, ⟨at_.kv, at_.started⟩⟩
  · exact fun _ at_ => at_

/-- An interrupted write may or may not have happened. -/
theorem ends_put (d : Disturbance) (key : String) (value : Value) (here : At kv started S) :
    Ends (put d key value) S (fun _ => At (kv.insert key (canon value)) started)
      (fun S' => At kv started S' ∨ At (kv.insert key (canon value)) started S') := by
  apply ends_touch here
  · intro S' at_ u next result
    obtain ⟨written, -, result⟩ := bind_ok.mp result
    cases result
    have stored : At (kv.insert key (canon value)) started
        { S' with kv := S'.kv.insert key (canon value) } := ⟨by rw [at_.kv], at_.started⟩
    exact ⟨stored, Or.inr stored⟩
  · exact fun _ at_ => Or.inl at_

/-- A claim succeeds only for a key that nobody had claimed. -/
theorem ends_claim (d : Disturbance) (key : String) (value : Value) (here : At kv started S) :
    Ends (claim d key value) S
      (fun new S' => (new = false ∧ At kv started S') ∨
        new = true ∧ key ∉ kv ∧ At (kv.insert key (canon value)) started S')
      (fun S' => At kv started S' ∨
        key ∉ kv ∧ At (kv.insert key (canon value)) started S') := by
  apply ends_touch here
  · intro S' at_ new next result
    obtain ⟨written, -, result⟩ := bind_ok.mp result
    by_cases known : key ∈ S'.kv
    · rw [if_pos known] at result
      cases result
      exact ⟨Or.inl ⟨rfl, at_⟩, Or.inl at_⟩
    · rw [if_neg known] at result
      cases result
      have stored : At (kv.insert key (canon value)) started
          { S' with kv := S'.kv.insert key (canon value) } := ⟨by rw [at_.kv], at_.started⟩
      rw [at_.kv] at known
      exact ⟨Or.inr ⟨rfl, known, stored⟩, Or.inr ⟨known, stored⟩⟩
  · exact fun _ at_ => Or.inl at_

end accesses

def startOf (q : Request) (nonce : String) : Started :=
  { sub := q.sub, nonce, content := q.content }

/-- The rows once the nonce is claimed, once the execution is recorded, and at the end. -/
def claimedRows (S : Machine) (q : Request) (nonce : String) : AList fun _ : String => Value :=
  S.kv.insert (nonceKey nonce) (canon (.str q.sub))

def recordedRows (K : Primitives) (S : Machine) (q : Request) (nonce : String) :
    AList fun _ : String => Value :=
  (claimedRows S q nonce).insert (executionKey q.sub) (canon (startedRecord K q))

def finishedRows (K : Primitives) (S : Machine) (q : Request) (nonce : String) (result : Value) :
    AList fun _ : String => Value :=
  (recordedRows K S q nonce).insert (executionKey q.sub) (canon (completedRecord K q result))

/-- Nothing is recorded for the request, and its nonce is new. -/
structure Fresh (S : Machine) (q : Request) (nonce : String) : Prop where
  record : ((S.kv.lookup (executionKey q.sub)).getD .null).truthy = false
  nonce : nonceKey nonce ∉ S.kv

/-- How far a call got. -/
inductive Left (K : Primitives) (S : Machine) : Machine → Prop where
  | nothing {S' : Machine} (at_ : At S.kv S.started S') : Left K S S'
  | claimed {S' : Machine} (q : Request) (nonce : String) (fresh : Fresh S q nonce)
      (at_ : At (claimedRows S q nonce) S.started S') : Left K S S'
  | recorded {S' : Machine} (q : Request) (nonce : String) (fresh : Fresh S q nonce)
      (at_ : At (recordedRows K S q nonce) S.started S') : Left K S S'
  | started {S' : Machine} (q : Request) (nonce : String) (fresh : Fresh S q nonce)
      (at_ : At (recordedRows K S q nonce) (S.started ++ [startOf q nonce]) S') : Left K S S'
  | finished {S' : Machine} (q : Request) (nonce : String) (result : Value)
      (fresh : Fresh S q nonce)
      (at_ : At (finishedRows K S q nonce result) (S.started ++ [startOf q nonce]) S') :
      Left K S S'

/-- What a call that returns has done: it read a result, or it executed and stored one. -/
inductive Answered (K : Primitives) (S : Machine) (q : Request) (r : Value) : Machine → Prop where
  | recalled {S' : Machine} (previous : Value)
      (found : (S.kv.lookup (executionKey q.sub)).getD .null = previous)
      (truthy : previous.truthy = true) (read : recallStored K q previous = .ok r)
      (at_ : At S.kv S.started S') : Answered K S q r S'
  | executed {S' : Machine} (nonce : String) (fresh : Fresh S q nonce)
      (at_ : At (finishedRows K S q nonce r) (S.started ++ [startOf q nonce]) S') :
      Answered K S q r S'

/-- A reservation gives out a nonce that is fresh and records the request as started. -/
theorem ends_reserve {O : Operator} {q : Request} {how : Conditions} {S S' : Machine}
    (here : At S.kv S.started S')
    (unrecorded : ((S.kv.lookup (executionKey q.sub)).getD .null).truthy = false) :
    Ends (reserve K O q how) S'
      (fun nonce S'' => Fresh S q nonce ∧ At (recordedRows K S q nonce) S.started S'')
      (Left K S) := by
  rw [reserve]
  apply Ends.bind ((ends_count _ _ here).mono (fun _ _ at_ => at_) fun _ at_ => .nothing at_)
  intro used S₁ at₁
  split
  · exact ends_throw (.nothing at₁)
  apply Ends.bind (ends_lift (fun nonce _ => at₁) (.nothing at₁))
  intro nonce S₂ at₂
  have claiming := ends_claim (how.store .claim) (nonceKey nonce) (.str q.sub) at₂
  apply Ends.bind (claiming.mono (fun _ _ claimed => claimed) ?_)
  · intro new S₃ claimed
    rcases claimed with ⟨rfl, at₃⟩ | ⟨rfl, free, at₃⟩
    · exact ends_throw (.nothing at₃)
    have fresh : Fresh S q nonce := ⟨unrecorded, free⟩
    have recording := ends_put (how.store .record) (executionKey q.sub) (startedRecord K q) at₃
    apply Ends.bind (recording.mono (fun _ _ at_ => at_) ?_)
    · intro u S₄ at₄
      apply Ends.bind ((ends_pending _ at₄).mono (fun _ _ at_ => at_)
        fun _ at_ => .recorded q nonce fresh at_)
      intro waiting S₅ at₅
      split
      · exact ends_throw (.recorded q nonce fresh at₅)
      · exact ends_pure ⟨fresh, at₅⟩
    · intro S₄ left
      rcases left with at₄ | at₄
      · exact .claimed q nonce fresh at₄
      · exact .recorded q nonce fresh at₄
  · intro S₃ left
    rcases left with at₃ | ⟨free, at₃⟩
    · exact .nothing at₃
    · exact .claimed q nonce ⟨unrecorded, free⟩ at₃

section executing

variable {kv : AList fun _ : String => Value} {started : List Started} {S : Machine}

/-- Starting adds one execution and touches no row. -/
theorem ends_start (q : Request) (nonce : String) {raised : Machine → Prop}
    (here : At kv started S) :
    Ends (start q nonce) S (fun _ => At kv (started ++ [startOf q nonce])) raised := by
  rw [Ends, start]
  exact ⟨here.kv, by rw [here.started]; rfl⟩

/-- What the party checks by itself before it starts anything. -/
def Permits (O : Operator) (q : Request) (p : Value) : Prop :=
  if O.role = .M then
    ∃ commit, getItem q.contract.payload "req_commit" = .ok commit ∧
      (O.preExec && !(Value.str q.inputCommit).eq commit) = false
  else Returns (scenarioOf O p)

/-- M may start exactly if it does not check the input first, or the input commits as agreed. -/
theorem permits_model {O : Operator} {q : Request} {p commit : Value} (role : O.role = .M)
    (found : getItem q.contract.payload "req_commit" = .ok commit) :
    Permits O q p ↔ (O.preExec && !(Value.str q.inputCommit).eq commit) = false := by
  rw [Permits, if_pos role]
  constructor
  · rintro ⟨commit', found', same⟩
    rwa [Except.ok.inj (found.symm.trans found')]
  · exact fun same => ⟨commit, found, same⟩

/-- Before the start nothing changes, and after it nothing but the sender. -/
theorem ends_execute {O : Operator} {q : Request} {p : Value} {nonce : String} {how : Conditions}
    (here : At kv started S) :
    Ends (execute K O q p nonce how) S
      (fun _ S' => Permits O q p ∧ At kv (started ++ [startOf q nonce]) S')
      (fun S' => ¬ Permits O q p ∧ At kv started S' ∨
        Permits O q p ∧ At kv (started ++ [startOf q nonce]) S') := by
  rw [execute]
  split
  next role =>
    rw [executeModel]
    apply @Ends.bind _ _ _ _ _ _ _ fun commit S' =>
      getItem q.contract.payload "req_commit" = .ok commit ∧ At kv started S'
    · cases found : getItem q.contract.payload "req_commit" with
      | ok commit => exact ⟨rfl, here⟩
      | error e =>
        refine .inl ⟨?_, here⟩
        rw [Permits, if_pos role, found]
        rintro ⟨commit, absent, -⟩
        cases absent
    rintro commit S₁ ⟨found, at₁⟩
    have checks := permits_model (p := p) role found
    split
    next differs =>
      refine ends_throw (.inl ⟨?_, at₁⟩)
      rw [checks, differs]
      exact Bool.noConfusion
    next same =>
    have permits : Permits O q p := checks.mpr (Bool.not_eq_true _ ▸ same)
    apply Ends.bind (ends_start q nonce at₁)
    intro u S₂ at₂
    apply Ends.bind (ends_lift (fun response _ => at₂) (.inr ⟨permits, at₂⟩))
    intro response S₃ at₃
    apply Ends.bind (ends_lift (fun stmt _ => at₃) (.inr ⟨permits, at₃⟩))
    intro stmt S₄ at₄
    apply Ends.bind ((ends_queue _ stmt at₄).mono (fun _ _ at_ => at_)
      fun _ at_ => .inr ⟨permits, at_⟩)
    intro v S₅ at₅
    exact ends_pure ⟨permits, at₅⟩
  next role =>
    rw [executeRelay]
    apply @Ends.bind _ _ _ _ _ _ _ fun _ S' => Permits O q p ∧ At kv started S'
    · have checks : Permits O q p ↔ Returns (scenarioOf O p) := by rw [Permits, if_neg role]
      cases chosen : scenarioOf O p with
      | ok scenario => exact ⟨checks.mpr (chosen ▸ returns_ok _), here⟩
      | error e =>
        refine .inl ⟨fun permits => ?_, here⟩
        obtain ⟨scenario, returned⟩ := checks.mp permits
        cases chosen.symm.trans returned
    rintro scenario S₁ ⟨permits, at₁⟩
    apply Ends.bind (ends_start q nonce at₁)
    intro u S₂ at₂
    apply Ends.bind (ends_lift (fun upstream _ => at₂) (.inr ⟨permits, at₂⟩))
    intro upstream S₃ at₃
    apply Ends.bind (ends_lift (fun made _ => at₃) (.inr ⟨permits, at₃⟩))
    intro made S₄ at₄
    obtain ⟨m, stmt, response⟩ := made
    dsimp only
    have last : ∀ S₅, At kv (started ++ [startOf q nonce]) S₅ →
        Ends (lift (upstream.item "model_kind")) S₅
          (fun _ => At kv (started ++ [startOf q nonce]))
          (fun S' => ¬ Permits O q p ∧ At kv started S' ∨
            Permits O q p ∧ At kv (started ++ [startOf q nonce]) S') :=
      fun S₅ at₅ => ends_lift (fun kind _ => at₅) (.inr ⟨permits, at₅⟩)
    split
    · apply Ends.bind ((ends_queue _ _ at₄).mono (fun _ _ at_ => at_)
        fun _ at_ => .inr ⟨permits, at_⟩)
      intro v S₅ at₅
      apply Ends.bind (last S₅ at₅)
      intro kind S₆ at₆
      exact ends_pure ⟨permits, at₆⟩
    · apply Ends.bind (last S₄ at₄)
      intro kind S₆ at₆
      exact ends_pure ⟨permits, at₆⟩

end executing

/-- Once a request is accepted, a call leaves one of the stages and answers as they say. -/
theorem ends_infer {O : Operator} {p : Value} {how : Conditions} (S : Machine) :
    Ends (infer K O p how) S
      (fun r S' => ∃ q, accept K O p how.retired how.now = .ok q ∧ Answered K S q r S')
      (Left K S) := by
  have here : At S.kv S.started S := ⟨rfl, rfl⟩
  rw [infer]
  apply @Ends.bind _ _ _ _ _ _ _ fun q S' =>
    accept K O p how.retired how.now = .ok q ∧ At S.kv S.started S'
  · exact ends_lift (fun q accepted => ⟨accepted, here⟩) (.nothing here)
  intro q S₁ ⟨accepted, at₁⟩
  apply Ends.bind ((ends_get _ _ at₁).mono (fun _ _ read => read) fun _ at_ => .nothing at_)
  intro previous S₂ ⟨found, at₂⟩
  split
  next truthy =>
    apply ends_lift
    · intro r read
      exact ⟨q, accepted, .recalled previous found.symm truthy read at₂⟩
    · exact .nothing at₂
  next untruthy =>
    have unrecorded : ((S.kv.lookup (executionKey q.sub)).getD .null).truthy = false := by
      rw [← found]
      simpa using untruthy
    apply Ends.bind (ends_reserve at₂ unrecorded)
    intro nonce S₃ ⟨fresh, at₃⟩
    apply Ends.bind ((ends_execute at₃).mono (fun _ _ at_ => at_) ?_)
    · rintro r S₄ ⟨-, at₄⟩
      have storing := ends_put (how.store .finish) (executionKey q.sub) (completedRecord K q r) at₄
      apply Ends.bind (storing.mono (fun _ _ at_ => at_) ?_)
      · intro u S₅ at₅
        exact ends_pure ⟨q, accepted, .executed nonce fresh at₅⟩
      · intro S₅ left
        rcases left with at₅ | at₅
        · exact .started q nonce fresh at₅
        · exact .finished q nonce r fresh at₅
    · rintro S₄ (⟨-, at₄⟩ | ⟨-, at₄⟩)
      · exact .recorded q nonce fresh at₄
      · exact .started q nonce fresh at₄

/-- Requests have keys of their own. -/
theorem executionKey_inj {sub sub' : String} :
    executionKey sub = executionKey sub' ↔ sub = sub' := by
  simp [executionKey, String.ext_iff]

/-- Nonces have keys of their own. -/
theorem nonceKey_inj {nonce nonce' : String} :
    nonceKey nonce = nonceKey nonce' ↔ nonce = nonce' := by
  simp [nonceKey, String.ext_iff]

/-- No request's key is a nonce's. -/
theorem keys_differ (sub nonce : String) : executionKey sub ≠ nonceKey nonce := by
  simp [executionKey, nonceKey, String.ext_iff]

/-- Each record of an execution is a record, so that it counts as one. -/
def Truthful (S : Machine) : Prop :=
  ∀ sub v, S.kv.lookup (executionKey sub) = some v → v.truthy = true

/-- A request without a record has spent no subject. -/
theorem fresh_absent {S : Machine} {q : Request} {nonce : String} (truthful : Truthful S)
    (fresh : Fresh S q nonce) : S.kv.lookup (executionKey q.sub) = none := by
  cases found : S.kv.lookup (executionKey q.sub) with
  | none => rfl
  | some v =>
    have untruthy := fresh.record
    rw [found, Option.getD_some, truthful q.sub v found] at untruthy
    cases untruthy

/-- One record more, under a nonce that was claimed for it. -/
structure Wrote (S : Machine) (q : Request) (nonce : String) (v : Value) (S' : Machine) :
    Prop where
  written : S'.kv.lookup (executionKey q.sub) = some v
  others : ∀ sub, sub ≠ q.sub →
    S'.kv.lookup (executionKey sub) = S.kv.lookup (executionKey sub)
  nonces : ∀ n, nonceKey n ∈ S'.kv ↔ n = nonce ∨ nonceKey n ∈ S.kv

theorem lookup_claimed (S : Machine) (q : Request) (nonce sub : String) :
    (claimedRows S q nonce).lookup (executionKey sub) = S.kv.lookup (executionKey sub) := by
  apply AList.lookup_insert_ne
  exact keys_differ sub nonce

theorem mem_claimed (S : Machine) (q : Request) (nonce n : String) :
    nonceKey n ∈ claimedRows S q nonce ↔ n = nonce ∨ nonceKey n ∈ S.kv := by
  rw [claimedRows, AList.mem_insert, nonceKey_inj]

/-- The row of a started request is its record. -/
theorem wrote_recorded {S S' : Machine} {q : Request} {nonce : String} {started : List Started}
    (at_ : At (recordedRows K S q nonce) started S') :
    Wrote S q nonce (canon (startedRecord K q)) S' := by
  constructor
  · rw [at_.kv]
    exact AList.lookup_insert _
  · intro sub different
    rw [at_.kv, ← lookup_claimed S q nonce sub]
    apply AList.lookup_insert_ne
    exact fun same => different (executionKey_inj.mp same)
  · intro n
    rw [at_.kv, recordedRows, AList.mem_insert, mem_claimed]
    constructor
    · intro member
      exact member.resolve_left (keys_differ q.sub n).symm
    · exact Or.inr

/-- The row of a completed request carries its result. -/
theorem wrote_finished {S S' : Machine} {q : Request} {nonce : String} {result : Value}
    {started : List Started} (at_ : At (finishedRows K S q nonce result) started S') :
    Wrote S q nonce (canon (completedRecord K q result)) S' := by
  have before : Wrote S q nonce _ { S with kv := recordedRows K S q nonce } :=
    @wrote_recorded K S { S with kv := recordedRows K S q nonce } q nonce S.started ⟨rfl, rfl⟩
  constructor
  · rw [at_.kv]
    exact AList.lookup_insert _
  · intro sub different
    rw [at_.kv, ← before.others sub different]
    apply AList.lookup_insert_ne
    exact fun same => different (executionKey_inj.mp same)
  · intro n
    rw [at_.kv, ← before.nonces n, finishedRows, AList.mem_insert]
    constructor
    · intro member
      exact member.resolve_left (keys_differ q.sub n).symm
    · exact Or.inr

theorem canon_started (q : Request) :
    (canon (startedRecord K q)).item "binding" = .ok (.str (q.binding K)) := by
  have item : (startedRecord K q).item "binding" = .ok (.str (q.binding K)) := by
    simp [startedRecord, fields, Value.item, find]
  simpa [canon] using item_canon item

theorem canon_completed (q : Request) (result : Value) :
    (canon (completedRecord K q result)).item "binding" = .ok (.str (q.binding K)) ∧
    (canon (completedRecord K q result)).item "result" = .ok (canon result) := by
  have binding : (completedRecord K q result).item "binding" = .ok (.str (q.binding K)) := by
    simp [completedRecord, fields, Value.item, find]
  have stored : (completedRecord K q result).item "result" = .ok result := by
    simp [completedRecord, fields, Value.item, find]
  exact ⟨by simpa [canon] using item_canon binding, item_canon stored⟩

theorem item_truthy {v w : Value} {k : String} (found : v.item k = .ok w) : v.truthy = true := by
  cases v with
  | dict kvs =>
    cases kvs with
    | nil => cases found
    | cons x rest => rfl
  | _ => cases found

/-- The record of a request has this binding. -/
def Bound (S : Machine) (sub binding : String) : Prop :=
  ∃ v, S.kv.lookup (executionKey sub) = some v ∧ v.item "binding" = .ok (.str binding)

/-- The record of a request has this binding and this result. -/
def Completed (S : Machine) (sub binding : String) (result : Value) : Prop :=
  ∃ v, S.kv.lookup (executionKey sub) = some v ∧ v.item "binding" = .ok (.str binding) ∧
    v.item "result" = .ok result

def bySub (S : Machine) : Ledger String Started :=
  { spent := {sub | ∃ v, S.kv.lookup (executionKey sub) = some v}, acts := S.started }

def byNonce (S : Machine) : Ledger String Started :=
  { spent := {nonce | nonceKey nonce ∈ S.kv}, acts := S.started }

structure Inv (K : Primitives) (S : Machine) : Prop where
  truthful : Truthful S
  bound : ∀ x ∈ S.started, Bound S x.sub (contentHashHex K x.content)
  subs : Once Started.sub (bySub S)
  nonces : Once Started.nonce (byNonce S)

/-- Writing the record of a request spends its subject. -/
theorem spent_sub {S S' : Machine} {q : Request} {nonce : String} {v : Value}
    (wrote : Wrote S q nonce v S') : (bySub S').spent = insert q.sub (bySub S).spent := by
  ext sub
  by_cases same : sub = q.sub
  · subst same
    exact iff_of_true ⟨v, wrote.written⟩ (Or.inl rfl)
  · constructor
    · rintro ⟨w, found⟩
      rw [wrote.others sub same] at found
      exact Or.inr ⟨w, found⟩
    · rintro (clash | ⟨w, found⟩)
      · exact absurd clash same
      · exact ⟨w, by rw [wrote.others sub same, found]⟩

/-- Writing the record of a request spends its nonce. -/
theorem spent_nonce {S S' : Machine} {q : Request} {nonce : String} {v : Value}
    (wrote : Wrote S q nonce v S') : (byNonce S').spent = insert nonce (byNonce S).spent := by
  ext n
  exact wrote.nonces n

/-- A record that was written without an execution spends both keys. -/
theorem wrote_steps {S S' : Machine} {q : Request} {nonce : String} {v : Value}
    (wrote : Wrote S q nonce v S') (idle : S'.started = S.started) :
    Step Started.sub (bySub S) (bySub S') ∧ Step Started.nonce (byNonce S) (byNonce S') := by
  have sub : bySub S' = { bySub S with spent := insert q.sub (bySub S).spent } := by
    rw [← spent_sub wrote]
    simp only [bySub, idle]
  have nonce_ : byNonce S' = { byNonce S with spent := insert nonce (byNonce S).spent } := by
    rw [← spent_nonce wrote]
    simp only [byNonce, idle]
  rw [sub, nonce_]
  exact ⟨.spend q.sub, .spend nonce⟩

/-- An execution acts for the identifier and for the nonce, and both were new. -/
theorem started_steps {S S' : Machine} {q : Request} {nonce : String} {v : Value}
    (truthful : Truthful S) (fresh : Fresh S q nonce) (wrote : Wrote S q nonce v S')
    (acted : S'.started = S.started ++ [startOf q nonce]) :
    Step Started.sub (bySub S) (bySub S') ∧ Step Started.nonce (byNonce S) (byNonce S') := by
  have sub : bySub S' = ⟨insert q.sub (bySub S).spent, S.started ++ [startOf q nonce]⟩ := by
    rw [← spent_sub wrote]
    simp only [bySub, acted]
  have nonce_ : byNonce S' =
      ⟨insert nonce (byNonce S).spent, S.started ++ [startOf q nonce]⟩ := by
    rw [← spent_nonce wrote]
    simp only [byNonce, acted]
  rw [sub, nonce_]
  constructor
  · apply Step.act (startOf q nonce)
    rintro ⟨w, found⟩
    rw [startOf, fresh_absent truthful fresh] at found
    cases found
  · exact Step.act (startOf q nonce) fresh.nonce

/-- A row that says something keeps the store truthful. -/
theorem wrote_truthful {S S' : Machine} {q : Request} {nonce : String} {v : Value}
    (truthful : Truthful S) (wrote : Wrote S q nonce v S') (record : v.truthy = true) :
    Truthful S' := by
  intro sub w found
  by_cases same : sub = q.sub
  · subst same
    rw [wrote.written] at found
    exact Option.some.inj found ▸ record
  · rw [wrote.others sub same] at found
    exact truthful sub w found

/-- A record that is there stays as it is. -/
theorem wrote_keeps {S S' : Machine} {q : Request} {nonce : String} {v w : Value} {sub : String}
    (truthful : Truthful S) (fresh : Fresh S q nonce) (wrote : Wrote S q nonce v S')
    (found : S.kv.lookup (executionKey sub) = some w) :
    S'.kv.lookup (executionKey sub) = some w := by
  have different : sub ≠ q.sub := by
    rintro rfl
    rw [fresh_absent truthful fresh] at found
    cases found
  rw [wrote.others sub different, found]

/-- Whatever a request leaves, the records of others stay. -/
theorem left_keeps {S S' : Machine} (truthful : Truthful S) (left : Left K S S') {sub : String}
    {w : Value} (found : S.kv.lookup (executionKey sub) = some w) :
    S'.kv.lookup (executionKey sub) = some w := by
  cases left with
  | nothing at_ => rw [at_.kv, found]
  | claimed q nonce fresh at_ => rw [at_.kv, lookup_claimed, found]
  | recorded q nonce fresh at_ =>
    exact wrote_keeps truthful fresh (wrote_recorded at_) found
  | started q nonce fresh at_ =>
    exact wrote_keeps truthful fresh (wrote_recorded at_) found
  | finished q nonce result fresh at_ =>
    exact wrote_keeps truthful fresh (wrote_finished at_) found

/-- Whatever a call leaves behind, both ledgers got there by spending keys and acting on them. -/
theorem left_steps {S S' : Machine} (truthful : Truthful S) (left : Left K S S') :
    Steps Started.sub (bySub S) (bySub S') ∧ Steps Started.nonce (byNonce S) (byNonce S') := by
  cases left with
  | nothing at_ =>
    have sub : bySub S' = bySub S := by simp only [bySub, at_.kv, at_.started]
    have nonce_ : byNonce S' = byNonce S := by simp only [byNonce, at_.kv, at_.started]
    rw [sub, nonce_]
    exact ⟨.refl, .refl⟩
  | claimed q nonce fresh at_ =>
    have sub : bySub S' = bySub S := by
      simp only [bySub, at_.kv, at_.started, lookup_claimed]
    have nonce_ : byNonce S' = { byNonce S with spent := insert nonce (byNonce S).spent } := by
      simp only [byNonce, at_.kv, at_.started, mem_claimed]
      rfl
    rw [sub, nonce_]
    exact ⟨.refl, .single (.spend nonce)⟩
  | recorded q nonce fresh at_ =>
    obtain ⟨sub, nonce_⟩ := wrote_steps (wrote_recorded at_) at_.started
    exact ⟨.single sub, .single nonce_⟩
  | started q nonce fresh at_ =>
    obtain ⟨sub, nonce_⟩ := started_steps truthful fresh (wrote_recorded at_) at_.started
    exact ⟨.single sub, .single nonce_⟩
  | finished q nonce result fresh at_ =>
    obtain ⟨sub, nonce_⟩ := started_steps truthful fresh (wrote_finished at_) at_.started
    exact ⟨.single sub, .single nonce_⟩

/-- Whatever a request leaves, the store stays truthful. -/
theorem left_truthful {S S' : Machine} (truthful : Truthful S) (left : Left K S S') :
    Truthful S' := by
  cases left with
  | nothing at_ =>
    intro sub w found
    rw [at_.kv] at found
    exact truthful sub w found
  | claimed q nonce fresh at_ =>
    intro sub w found
    rw [at_.kv, lookup_claimed] at found
    exact truthful sub w found
  | recorded q nonce fresh at_ =>
    exact wrote_truthful truthful (wrote_recorded at_) (item_truthy (canon_started q))
  | started q nonce fresh at_ =>
    exact wrote_truthful truthful (wrote_recorded at_) (item_truthy (canon_started q))
  | finished q nonce result fresh at_ =>
    exact wrote_truthful truthful (wrote_finished at_) (item_truthy (canon_completed q result).1)

/-- An execution that was begun is recorded under its binding. -/
theorem executed_bound {S S' : Machine} {q : Request} {nonce : String} {v : Value} (inv : Inv K S)
    (fresh : Fresh S q nonce) (wrote : Wrote S q nonce v S')
    (binding : v.item "binding" = .ok (.str (q.binding K)))
    (acted : S'.started = S.started ++ [startOf q nonce]) :
    ∀ x ∈ S'.started, Bound S' x.sub (contentHashHex K x.content) := by
  intro x member
  rw [acted] at member
  rcases List.mem_append.mp member with old | new
  · obtain ⟨w, found, held⟩ := inv.bound x old
    exact ⟨w, wrote_keeps inv.truthful fresh wrote found, held⟩
  · obtain rfl := List.mem_singleton.mp new
    exact ⟨v, wrote.written, binding⟩

theorem left_bound {S S' : Machine} (inv : Inv K S) (left : Left K S S') :
    ∀ x ∈ S'.started, Bound S' x.sub (contentHashHex K x.content) := by
  have idle : S'.started = S.started →
      ∀ x ∈ S'.started, Bound S' x.sub (contentHashHex K x.content) := by
    intro same x member
    rw [same] at member
    obtain ⟨w, found, held⟩ := inv.bound x member
    exact ⟨w, left_keeps inv.truthful left found, held⟩
  cases left with
  | nothing at_ => exact idle at_.started
  | claimed q nonce fresh at_ => exact idle at_.started
  | recorded q nonce fresh at_ => exact idle at_.started
  | started q nonce fresh at_ =>
    exact executed_bound inv fresh (wrote_recorded at_) (canon_started q) at_.started
  | finished q nonce result fresh at_ =>
    exact executed_bound inv fresh (wrote_finished at_) (canon_completed q result).1 at_.started

/-- The invariant survives every way in which a request may end. -/
theorem left_inv {S S' : Machine} (inv : Inv K S) (left : Left K S S') : Inv K S' := by
  obtain ⟨sub, nonce_⟩ := left_steps inv.truthful left
  constructor
  · exact left_truthful inv.truthful left
  · exact left_bound inv left
  · exact steps_once inv.subs sub
  · exact steps_once inv.nonces nonce_

theorem answered_left {S S' : Machine} {q : Request} {r : Value} (answered : Answered K S q r S') :
    Left K S S' := by
  cases answered with
  | recalled previous found truthy read at_ => exact .nothing at_
  | executed nonce fresh at_ => exact .finished q nonce r fresh at_

/-- One event, a call or a disturbance, leaves the machine in one of the ways of `Left`. -/
theorem step_left (O : Operator) (S : Machine) (ev : Execution.Event) :
    Left K S (step K O S ev) := by
  cases ev with
  | restart => exact .nothing ⟨rfl, rfl⟩
  | call p how =>
    have ended := @ends_infer K O p how S
    rw [step]
    cases outcome : infer K O p how S with
    | ok r S' =>
      obtain ⟨q, -, answered⟩ := ended.returns outcome
      exact answered_left answered
    | error e S' => exact ended.raises outcome

/-- The invariant holds along every run. -/
theorem run_inv (O : Operator) {S : Machine} (inv : Inv K S) (events : List Execution.Event) :
    Inv K (run K O S events) := by
  induction events generalizing S with
  | nil => exact inv
  | cons ev rest ih => exact ih (left_inv inv (step_left O S ev))

/-- What is recorded of a request stays, over any further run. -/
theorem run_keeps (O : Operator) {S : Machine} (inv : Inv K S) {sub : String} {v : Value}
    (found : S.kv.lookup (executionKey sub) = some v) (events : List Execution.Event) :
    (run K O S events).kv.lookup (executionKey sub) = some v := by
  induction events generalizing S with
  | nil => exact found
  | cons ev rest ih =>
    have left := @step_left K O S ev
    exact ih (left_inv inv left) (left_keeps inv.truthful left found)

theorem init_inv (sender : Sender) : Inv K { sender } := by
  constructor
  · intro sub v found
    cases found
  · intro x member
    cases member
  · have sub : bySub { sender } = Ledger.empty := by simp [bySub, Ledger.empty]
    rw [sub]
    exact once_empty _
  · have nonce_ : byNonce { sender } = Ledger.empty := by simp [byNonce, Ledger.empty]
    rw [nonce_]
    exact once_empty _

/-- The clock and the retirement aside, being accepted depends on three items of the payload. -/
theorem accept_again {O : Operator} {p p' : Value} {retired retired' : Bool} {now now' : Int}
    {q : Request} (accepted : accept K O p retired now = .ok q)
    (contract : p'.item "contract" = p.item "contract") (body : p'.item "body" = p.item "body")
    (salt : p'.item "salt" = p.item "salt") :
    accept K O p' retired' now' = .ok q ↔
      retired' = false ∧ expired q.contract.payload now' = .ok false := by
  cases retired with
  | true => cases accepted
  | false =>
    obtain ⟨c, hc, accepted⟩ := bind_ok.mp accepted
    obtain ⟨s, hs, accepted⟩ := bind_ok.mp accepted
    obtain ⟨b, hb, accepted⟩ := bind_ok.mp accepted
    obtain ⟨t, ht, accepted⟩ := bind_ok.mp accepted
    obtain ⟨prompt, hp, accepted⟩ := bind_ok.mp accepted
    obtain ⟨u, fresh, accepted⟩ := bind_ok.mp accepted
    obtain ⟨u', routed, accepted⟩ := bind_ok.mp accepted
    obtain ⟨commit, hd, accepted⟩ := bind_ok.mp accepted
    obtain ⟨sub, hsub, accepted⟩ := bind_ok.mp accepted
    obtain ⟨content, hx, accepted⟩ := bind_ok.mp accepted
    obtain rfl := Except.ok.inj accepted
    have short : ¬ maxPrompt < prompt.length := by
      intro long
      rw [checkFresh, if_pos long] at fresh
      cases fresh
    cases retired' with
    | true => simp [accept]
    | false =>
      rw [accept, contract, body, salt]
      simp only [Bool.false_eq_true, if_false, hc, hs, hb, ht, hp, checkFresh, if_neg short, routed,
        hd, hsub, hx, ok_bind, true_and]
      cases old : expired s.payload now' with
      | error e => simp
      | ok b => cases b <;> simp

/-- The record alone decides what a call for a known request answers. -/
theorem ends_infer_known {O : Operator} {p : Value} {how : Conditions} {q : Request} {S : Machine}
    {v : Value} (accepted : accept K O p how.retired how.now = .ok q)
    (found : S.kv.lookup (executionKey q.sub) = some v) (truthy : v.truthy = true) :
    Ends (infer K O p how) S (fun r S' => recallStored K q v = .ok r ∧ At S.kv S.started S')
      (At S.kv S.started) := by
  have here : At S.kv S.started S := ⟨rfl, rfl⟩
  rw [infer, accepted]
  apply @Ends.bind _ _ _ _ _ _ _ fun q' S' => q' = q ∧ At S.kv S.started S'
  · exact ⟨rfl, here⟩
  rintro q' S₁ ⟨rfl, at₁⟩
  apply Ends.bind (ends_get _ _ at₁)
  rintro previous S₂ ⟨same, at₂⟩
  rw [found, Option.getD_some] at same
  subst same
  rw [if_pos truthy]
  exact ends_lift (fun r read => ⟨read, at₂⟩) at₂

/-- A completed record with the same binding gives its result again. -/
theorem recall_completed {q : Request} {v result : Value}
    (binding : v.item "binding" = .ok (.str (q.binding K)))
    (stored : v.item "result" = .ok result) : recallStored K q v = .ok result := by
  simp [recallStored, binding, stored, Value.eq, Value.scalarEq]

/-- A record with another binding refuses the request. -/
theorem recall_different {q : Request} {v : Value} {binding : String}
    (held : v.item "binding" = .ok (.str binding)) (different : binding ≠ q.binding K) :
    recallStored K q v =
      .error (.valueError "request identifier reused with different content") := by
  simp [recallStored, held, different, Value.eq, Value.scalarEq]

/-- A call for a completed request that can read the store returns what is stored. -/
theorem infer_completed {O : Operator} {p : Value} {how : Conditions} {q : Request} {S : Machine}
    {result : Value} (accepted : accept K O p how.retired how.now = .ok q)
    (completed : Completed S q.sub (q.binding K) result)
    (readable : (how.store .previous).failure = none ∧ (how.store .previous).late = none) :
    ∃ S', infer K O p how S = .ok result S' ∧ At S.kv S.started S' := by
  obtain ⟨v, found, binding, stored⟩ := completed
  refine ⟨{ S with sender := (how.store .previous).flushed S.sender }, ?_, ⟨rfl, rfl⟩⟩
  have read : get (how.store .previous) (executionKey q.sub) S =
      .ok v { S with sender := (how.store .previous).flushed S.sender } := by
    simp only [Execution.get, touch, readable.1, readable.2, found, Option.getD_some]
  have truthy : v.truthy = true := item_truthy binding
  rw [infer, accepted]
  change EStateM.bind (get (how.store .previous) (executionKey q.sub)) _ S = _
  rw [EStateM.bind, read]
  simp only [truthy, if_true]
  rw [recall_completed binding stored]
  rfl

/-- What holds of a party's store at any time. -/
structure Protected (K : Primitives) (O : Operator) (S : Machine) : Prop where
  subs : (S.started.map Started.sub).Nodup
  nonces : (S.started.map Started.nonce).Nodup
  bound : ∀ x ∈ S.started, Bound S x.sub (contentHashHex K x.content)
  /-- A call that returns has stored what it returns, or read it. -/
  returned : ∀ p how r S', infer K O p how S = .ok r S' → ∃ q, ∃ result,
    accept K O p how.retired how.now = .ok q ∧ Completed S' q.sub (q.binding K) result ∧
    (r = result ∧ S'.started = S.started ∨ canon r = result)
  kept : ∀ sub binding result, Completed S sub binding result →
    ∀ events, Completed (run K O S events) sub binding result
  /-- The stored result is returned, as long as requests of this contract are accepted. -/
  repeated : ∀ p how q result, accept K O p how.retired how.now = .ok q →
    Completed S q.sub (q.binding K) result →
    (how.store .previous).failure = none ∧ (how.store .previous).late = none →
    ∃ S', infer K O p how S = .ok result S' ∧ S'.started = S.started
  different : ∀ p how q binding, accept K O p how.retired how.now = .ok q →
    Bound S q.sub binding → binding ≠ q.binding K →
    ∃ e S', infer K O p how S = .error e S' ∧ S'.started = S.started
  refused : ∀ p how e, accept K O p how.retired how.now = .error e →
    infer K O p how S = .error e S

/-- The invariant protects the executions. -/
theorem inv_protected {O : Operator} {S : Machine} (inv : Inv K S) : Protected K O S := by
  constructor
  · exact inv.subs.nodup
  · exact inv.nonces.nodup
  · exact inv.bound
  · intro p how r S' outcome
    obtain ⟨q, accepted, answered⟩ := ends_infer S |>.returns outcome
    cases answered with
    | recalled previous found truthy read at_ =>
      cases row : S.kv.lookup (executionKey q.sub) with
      | none =>
        rw [row, Option.getD_none] at found
        subst found
        cases truthy
      | some v =>
        rw [row, Option.getD_some] at found
        subst found
        obtain ⟨binding, held, read⟩ := bind_ok.mp read
        split at read
        · cases read
        next same =>
          split at read
          next result stored =>
            have equal : binding = .str (q.binding K) := by
              apply (eq_str_right _ _).mp
              simpa using same
            have here : S'.kv.lookup (executionKey q.sub) = some v := by rw [at_.kv, row]
            refine ⟨q, result, accepted, ⟨v, here, equal ▸ held, stored⟩, Or.inl ⟨?_, at_.started⟩⟩
            exact (Except.ok.inj read).symm
          · cases read
          · cases read
    | executed nonce fresh at_ =>
      obtain ⟨binding, stored⟩ := canon_completed (K := K) q r
      exact ⟨q, canon r, accepted, ⟨_, (wrote_finished at_).written, binding, stored⟩, Or.inr rfl⟩
  · intro sub binding result completed events
    obtain ⟨v, found, rest⟩ := completed
    exact ⟨v, run_keeps O inv found events, rest⟩
  · intro p how q result accepted completed readable
    obtain ⟨S', outcome, at_⟩ := infer_completed accepted completed readable
    exact ⟨S', outcome, at_.started⟩
  · intro p how q binding accepted bound different
    obtain ⟨v, found, held⟩ := bound
    have ended := ends_infer_known accepted found (item_truthy held)
    cases outcome : infer K O p how S with
    | ok r S' =>
      have read := (ended.returns outcome).1
      rw [recall_different held different] at read
      cases read
    | error e S' => exact ⟨e, S', rfl, (ended.raises outcome).started⟩
  · intro p how e refused
    rw [infer, refused]
    rfl

/-- In every run each request is executed at most once, by its identifier and by its nonce; a
repeat returns what is stored as long as its contract is accepted, and other content under the
identifier is refused. -/
theorem executed_at_most_once (O : Operator) (sender : Sender) (events : List Execution.Event) :
    Protected K O (run K O { sender } events) ∧
    ∀ p p' retired retired' now now' q, accept K O p retired now = .ok q →
      p'.item "contract" = p.item "contract" → p'.item "body" = p.item "body" →
      p'.item "salt" = p.item "salt" →
      (accept K O p' retired' now' = .ok q ↔
        retired' = false ∧ expired q.contract.payload now' = .ok false) := by
  constructor
  · exact inv_protected (run_inv O (init_inv sender) events)
  · intro p p' retired retired' now now' q accepted contract body salt
    exact accept_again accepted contract body salt

def sampleTerms : ContractTerms :=
  { PassedVerdict.plainTerms with relayId := issOf .R }

def sampleOperator : Operator :=
  { config := { Auditing.sampleConfig with
      modelHashes := fields [("model-A", .str (PassedVerdict.zeros 64))] },
    role := .M, key := { kid := "kid-m", seed := [3] }, modelId := "model-A",
    modelKind := "deterministic_mock" }

def samplePayload : Value :=
  .dict (fields [("contract", (WithoutEvidence.signedWith { kid := "kid-u", seed := [1] }
      (issOf .U) "urn:itx:req:1" ctContract (contractPayload sampleTerms) 0).toDict),
    ("body", .dict (fields [("prompt", .str "hello")])),
    ("salt", .str (PassedVerdict.zeros 64))])

def sampleConditions (now : Int) : Conditions :=
  { now, issuedAt := now, elapsed := 0, cti := "cti-1", reply := .ok }

def sampleSender : Sender := { role := .M, logId := "log", tsPublicKey := "" }

def afterFirst : EStateM.Result PyErr Machine Value :=
  infer toy sampleOperator samplePayload (sampleConditions 10) { sender := sampleSender }

def isOk : EStateM.Result PyErr Machine Value → Bool
  | .ok _ _ => true
  | .error _ _ => false

/-- The first call returns and starts the model; its contract holds at 20 and not at 6000. -/
def shown : Nat × Bool × Py Bool × Bool :=
  ((final afterFirst).started.length, isOk afterFirst, do
    let q ← accept toy sampleOperator samplePayload false 10
    expired q.contract.payload 20,
    decide (Returns (accept toy sampleOperator samplePayload false 6000)))

theorem shown_facts : shown = (1, true, .ok false, false) := by
  decide +kernel

theorem executed_at_most_once_sample : ∃ (r : Value) (S : Machine) (q : Request) (result : Value)
    (S' : Machine), afterFirst = .ok r S ∧ Completed S q.sub (q.binding toy) result ∧
    infer toy sampleOperator samplePayload (sampleConditions 20) S = .ok result S' ∧
    S'.started.length = 1 := by
  have facts := shown_facts
  simp only [shown, Prod.mk.injEq] at facts
  obtain ⟨once, first, holds, -⟩ := facts
  obtain ⟨q, accepted, valid⟩ := bind_ok.mp holds
  obtain ⟨empty, again⟩ := executed_at_most_once (K := toy) sampleOperator sampleSender []
  obtain ⟨one, -⟩ := executed_at_most_once (K := toy) sampleOperator sampleSender
    [.call samplePayload (sampleConditions 10)]
  cases called : afterFirst with
  | error e S =>
    rw [called] at first
    cases first
  | ok r S =>
    have reached : run toy sampleOperator { sender := sampleSender }
        [.call samplePayload (sampleConditions 10)] = S := by
      rw [run, List.foldl_cons, List.foldl_nil, step]
      exact congrArg final called
    rw [called, final] at once
    rw [reached] at one
    obtain ⟨q', result, accepted', completed, -⟩ := empty.returned samplePayload _ r S called
    obtain rfl := Except.ok.inj (accepted.symm.trans accepted')
    have accepted'' := (again _ _ false false 10 20 q accepted rfl rfl rfl).mpr ⟨rfl, valid⟩
    obtain ⟨S', outcome, same⟩ := one.repeated samplePayload (sampleConditions 20) q result
      accepted'' completed ⟨rfl, rfl⟩
    exact ⟨r, S, q, result, S', rfl, completed, outcome, by rw [same, once]⟩

/-- After its contract has expired, a completed request is refused like any other. -/
theorem expired_repeat_refused : ∃ (r : Value) (S : Machine) (q : Request) (result : Value)
    (e : PyErr), afterFirst = .ok r S ∧
    accept toy sampleOperator samplePayload false 10 = .ok q ∧
    Completed S q.sub (q.binding toy) result ∧
    infer toy sampleOperator samplePayload (sampleConditions 6000) S = .error e S := by
  have facts := shown_facts
  simp only [shown, Prod.mk.injEq, decide_eq_false_iff_not] at facts
  obtain ⟨-, first, -, refused⟩ := facts
  have start : Protected toy sampleOperator { sender := sampleSender } :=
    inv_protected (init_inv sampleSender)
  cases called : afterFirst with
  | error e S =>
    rw [called] at first
    cases first
  | ok r S =>
    obtain ⟨q, result, accepted, completed, -⟩ := start.returned samplePayload _ r S called
    cases later : accept toy sampleOperator samplePayload false 6000 with
    | ok q' => exact absurd ⟨q', later⟩ refused
    | error e =>
      refine ⟨r, S, q, result, e, rfl, accepted, completed, ?_⟩
      rw [infer]
      change EStateM.bind (lift (accept toy sampleOperator samplePayload false 6000)) _ S = _
      rw [EStateM.bind, later]
      rfl

end AtMostOnce
