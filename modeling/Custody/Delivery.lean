import Custody.Journal
import Custody.RereadStatements

/-!
# Delivery of evidence

A party keeps what it has to report in an outbox and sends it to the third party
until a receipt comes back that it can check. Requests and replies may be lost or
delayed, and either process may stop between any two steps.
-/

namespace Delivery

open PyValue HexBytes CanonicalJson CanonicalForm Commitments Statements Schemas Engine Merkle
  TransparencyLog AppendOnly Identity Journal RereadStatements

inductive Item where
  | statement (s : SignedStatement)
  | private_ (sub value : Value)

def Item.toValue : Item → Value
  | .statement s => .dict (fields [("statement", s.toDict)])
  | .private_ sub value => .dict (fields [("sub", sub), ("private", value)])

/-- A row of the table `outbox`, as `pending` reads it back. -/
structure Pending where
  ident : String
  item : Value

/-- Where the flush loop stands. Only the store outlives the process. -/
inductive Phase where
  | idle
  | flushing (rest : List Pending)
  | calling (id : Nat) (current : Pending) (rest : List Pending)
  | confirmed (current : Pending) (rest : List Pending)

structure Sender where
  role : Role
  logId : String
  tsPublicKey : String
  outbox : List Pending := []
  /-- The keys `receipt:` of the store, by statement hash. -/
  receipts : List (String × Value) := []
  phase : Phase := .idle

variable (K : Primitives)

namespace Sender

/-- `Store.enqueue`. -/
def enqueue (U : Sender) (item : Item) (capacity : Nat) (failure : Option PyErr) : Py Sender := do
  let ident := contentHashHex K (← canonicalJson item.toValue)
  if U.outbox.any fun row => row.ident == ident then pure U
  else if U.outbox.length ≥ capacity then
    throw (.runtimeError "증거 큐가 가득 찼습니다. 새 요청을 보류합니다.")
  else match failure with
    | some e => throw e
    | none => pure { U with outbox := U.outbox ++ [{ ident, item := canon item.toValue }] }

/-- What is stored with a receipt; R and M add who holds it. -/
def remembered (U : Sender) (stmt : SignedStatement) (hash : String) (rc : RegistrationReceipt) :
    Value :=
  .dict (fields ([("receipt", rc.toDict), ("statement_hash", .str hash), ("sub", stmt.sub),
    ("content_type", stmt.contentType), ("iss", stmt.iss)] ++
    if U.role = .U then [] else [("holder", .str (match U.role with
      | .U => "U"
      | .R => "R"
      | .M => "M"
      | .T => "T"))]))

/-- `INSERT OR REPLACE INTO kv`. -/
def putReceipt (U : Sender) (hash : String) (record : Value) (failure : Option PyErr) :
    Py Sender := do
  let _ ← canonicalJson record
  match failure with
  | some e => throw e
  | none => pure { U with receipts :=
      (hash, canon record) :: U.receipts.filter fun x => x.1 != hash }

/-- The receipt of a statement is checked under the pinned key and stored. -/
def keepReceipt (U : Sender) (statement result : Value) (failure : Option PyErr) : Py Sender := do
  let rc ← RegistrationReceipt.fromDict (← result.item "receipt")
  let stmt ← SignedStatement.fromDict statement
  let (ok, why) ← verifyReceipt K rc stmt (← fromHexValue (.str U.tsPublicKey))
  if !ok || !rc.logId.eq (.str U.logId) then
    throw (.valueError ("invalid registration receipt: " ++ why))
  else do
    let hash ← stmt.statementHash K
    U.putReceipt hash (U.remembered stmt hash rc) failure

/-- What the flush loop does with the result of a call, up to `ack`. -/
def confirm (U : Sender) (item result : Value) (failure : Option PyErr) : Py Sender :=
  match item.item "statement" with
  | .ok statement => U.keepReceipt K statement result failure
  | .error e => if U.role = .U then .ok U else .error e

/-- `DELETE FROM outbox`. -/
def ack (U : Sender) (ident : String) : Sender :=
  { U with outbox := U.outbox.filter fun row => row.ident != ident }

end Sender

/-- The checks of `third_party` before a submitted statement is registered. -/
def admitted (T : Keeper) (actor : Role) (statement : Value) (retired : Bool) :
    Py SignedStatement := do
  let ct ← statement.get "content_type" .null
  if ct.eq (.str ctContract) && retired then
    throw (.valueError "이전 배포 세대가 폐기되었습니다. 승인된 새 설정으로 전환하세요.")
  else if !memberOf ct (texts (typesOf actor)) then
    throw (.valueError "unauthorized statement type")
  else authenticate K T.config statement actor ct none

/-- How a request is processed: the clock, whether the epoch is retired, whether the insert
fails, and what private evidence is answered with. -/
structure Processing where
  now : Int
  retired : Bool
  failure : Option PyErr
  stored : Py Value

/-- `third_party(actor, "submit", p)`; private evidence does not touch the journal. -/
def submit (T : Keeper) (actor : Role) (p : Value) (how : Processing) : Keeper × Py Value :=
  match p.item "statement" with
  | .error _ => (T, how.stored)
  | .ok statement => match admitted K T actor statement how.retired with
    | .error e => (T, .error e)
    | .ok stmt => match T.register K stmt how.now how.failure with
      | (next, .ok receipt) => (next, .ok (.dict (fields [("receipt", receipt)])))
      | (next, .error e) => (next, .error e)

/-- The parties, and what was ever sent: a message that is lost is never taken up, and one that
is late is taken up later. `enqueued` only records what was handed over. -/
structure Net where
  sender : Sender
  third : Keeper
  requests : List (Nat × Value) := []
  replies : List (Nat × Value) := []
  enqueued : List Item := []

inductive Event where
  | enqueue (item : Item) (capacity : Nat) (failure : Option PyErr)
  | flush
  | call
  | receive (result : Nat) (failure : Option PyErr)
  | ack (failure : Option PyErr)
  /-- The loop breaks, a call times out, or the sender's process dies and starts again. -/
  | stop
  | process (request : Nat) (how : Processing)
  /-- Anything else the third party registers, and its restarts. -/
  | third (ev : Journal.Event)

namespace Net

def setPhase (N : Net) (phase : Phase) : Net :=
  { N with sender := { N.sender with phase } }

/-- The next row of the snapshot is submitted. -/
def call (N : Net) : Net :=
  match N.sender.phase with
  | .flushing (current :: rest) =>
    { N.setPhase (.calling N.requests.length current rest) with
      requests := N.requests ++ [(N.requests.length, current.item)] }
  | .flushing [] => N.setPhase .idle
  | _ => N

/-- A reply to the call that the sender waits for. -/
def receive (N : Net) (result : Nat) (failure : Option PyErr) : Net :=
  match N.sender.phase, N.replies[result]? with
  | .calling id current rest, some (id', value) =>
    if id' = id then
      match N.sender.confirm K current.item value failure with
      | .ok sender => { N with sender := { sender with phase := .confirmed current rest } }
      | .error _ => N.setPhase .idle
    else N
  | _, _ => N

def ack (N : Net) (failure : Option PyErr) : Net :=
  match N.sender.phase, failure with
  | .confirmed current rest, none =>
    { N with sender := { N.sender.ack current.ident with phase := .flushing rest } }
  | .confirmed _ _, some _ => N.setPhase .idle
  | _, _ => N

/-- The third party takes up a request that was sent; it may do so more than once. -/
def process (N : Net) (request : Nat) (how : Processing) : Net :=
  match N.requests[request]? with
  | none => N
  | some (id, item) => match submit K N.third N.sender.role item how with
    | (third, .ok value) => { N with third, replies := N.replies ++ [(id, canon value)] }
    | (third, .error _) => { N with third }

def step (N : Net) : Event → Net
  | .enqueue item capacity failure => match N.sender.enqueue K item capacity failure with
    | .ok sender => { N with sender, enqueued := N.enqueued ++ [item] }
    | .error _ => N
  | .flush => match N.sender.phase with
    | .idle => N.setPhase (.flushing N.sender.outbox)
    | _ => N
  | .call => N.call
  | .receive result failure => N.receive K result failure
  | .ack failure => N.ack failure
  | .stop => N.setPhase .idle
  | .process request how => N.process K request how
  | .third ev => match Journal.step K N.third ev with
    | .ok third => { N with third }
    | .error _ => N

def run (N : Net) (events : List Event) : Net := events.foldl (step K) N

end Net

variable {K}

/-- The row of a registered statement: its receipt names its leaf. -/
structure Registered (K : Primitives) (row : Row) (t : SignedStatement) (b : Bytes)
    (rc : RegistrationReceipt) : Prop where
  statement : row.record.statement = canon t.toDict
  hash : t.statementHash K = .ok row.hash
  leaf : t.leafBytes = .ok b
  receipt : row.record.receipt = some (canon rc.toDict)
  whole : Whole rc
  named : rc.leafHash = .str (hex (leafHash K b))

/-- The hashes differ, and every receipt belongs to the row's own statement. -/
structure Rows (K : Primitives) (rows : List Row) : Prop where
  unique : (rows.map Row.hash).Nodup
  each : ∀ row ∈ rows, row.record.receipt = none ∨ ∃ t b rc, Registered K row t b rc

theorem place_perm (row : Row) (rows : List Row) : (place row rows).Perm (row :: rows) := by
  induction rows with
  | nil => exact List.Perm.refl _
  | cons r rest ih =>
    rw [place]
    split
    next => exact List.Perm.refl _
    next => exact (ih.cons r).trans (List.Perm.swap _ _ _)

theorem rows_place {rows : List Row} {row : Row} (kept : Rows K rows)
    (fresh : ∀ r ∈ rows, r.hash ≠ row.hash)
    (holds : row.record.receipt = none ∨ ∃ t b rc, Registered K row t b rc) :
    Rows K (place row rows) ∧ row ∈ place row rows ∧ ∀ r ∈ rows, r ∈ place row rows := by
  have perm := place_perm row rows
  refine ⟨⟨?_, ?_⟩, perm.mem_iff.mpr List.mem_cons_self, ?_⟩
  · rw [(perm.map Row.hash).nodup_iff, List.map_cons, List.nodup_cons]
    refine ⟨?_, kept.unique⟩
    intro clash
    obtain ⟨r, member, same⟩ := List.mem_map.mp clash
    exact fresh r member same
  · intro r member
    rcases List.mem_cons.mp (perm.mem_iff.mp member) with rfl | old
    · exact holds
    · exact kept.each r old
  · intro r member
    exact perm.mem_iff.mpr (List.mem_cons_of_mem _ member)

theorem firstRows_rows {log : Log} {failure : Option PyErr} {rows : List Row}
    (made : Keeper.firstRows K log failure = .ok rows) : Rows K rows := by
  obtain ⟨hash, -, made⟩ := bind_ok.mp made
  obtain ⟨-, -, b, -, rfl⟩ := insertRow_ok made
  refine ⟨List.pairwise_singleton _ _, ?_⟩
  intro row only
  obtain rfl := List.mem_singleton.mp only
  exact .inl rfl

/-- Rebuilding the log writes at most the first row. -/
theorem reload_rows {T : Keeper} (kept : Rows K T.rows) (failure : Option PyErr) :
    Rows K (T.reload K failure).1.rows ∧ ∀ r ∈ T.rows, r ∈ (T.reload K failure).1.rows := by
  rw [Keeper.reload]
  split
  next => exact ⟨kept, fun _ member => member⟩
  next =>
    split
    next none_ =>
      split
      next => exact ⟨kept, fun _ member => member⟩
      next rows made =>
        refine ⟨firstRows_rows made, ?_⟩
        intro r member
        rw [none_] at member
        cases member
    next => exact ⟨kept, fun _ member => member⟩

/-- What a call of `register` leaves and answers. -/
structure Submitted (K : Primitives) (T : Keeper) (stmt : SignedStatement)
    (out : Keeper × Py Value) : Prop where
  rows : Rows K out.1.rows
  grown : ∀ r ∈ T.rows, r ∈ out.1.rows
  answer : ∀ v, out.2 = .ok v → ∃ row ∈ out.1.rows, stmt.statementHash K = .ok row.hash ∧
    ∃ t b rc, Registered K row t b rc ∧ (v = rc.toDict ∨ v = canon rc.toDict)

theorem append_submitted {T : Keeper} (kept : Rows K T.rows) {stmt : SignedStatement}
    {hash : String} (hashed : stmt.statementHash K = .ok hash) (now : Int)
    (failure : Option PyErr) : Submitted K T stmt (T.append K stmt hash now failure) := by
  rw [Keeper.append]
  cases issued : registerIn K T.log stmt now with
  | mk log answer =>
    cases answer with
    | error e => exact ⟨kept, fun _ member => member, fun v bad => by cases bad⟩
    | ok rc =>
      obtain ⟨data, facts⟩ := @issued_of_accepted K T.log stmt now rc (by rw [issued])
      obtain ⟨whole, named⟩ := receiptFor_whole facts.signed
      simp only
      split
      next rows inserted =>
        obtain ⟨-, free, b, -, rfl⟩ := insertRow_ok inserted
        have registered : Registered K
            ⟨T.log.tree.size, hash, ⟨canon stmt.toDict, now, some (canon rc.toDict)⟩⟩ stmt data
              rc :=
          ⟨rfl, hashed, facts.leaf, rfl, whole, named⟩
        obtain ⟨rows_, member, grown⟩ := rows_place kept (fun r inside => (free r inside).2)
          (.inr ⟨stmt, data, rc, registered⟩)
        refine ⟨rows_, grown, ?_⟩
        intro v answered
        obtain rfl := Except.ok.inj answered
        exact ⟨_, member, hashed, stmt, data, rc, registered, .inl rfl⟩
      next e failed =>
        have reloaded := @reload_rows K { T with log } kept failure
        split
        next next_ done =>
          rw [done] at reloaded
          exact ⟨reloaded.1, reloaded.2, fun v bad => by cases bad⟩
        next next_ e' done =>
          rw [done] at reloaded
          exact ⟨reloaded.1, reloaded.2, fun v bad => by cases bad⟩

theorem register_submitted {T : Keeper} (kept : Rows K T.rows) (stmt : SignedStatement) (now : Int)
    (failure : Option PyErr) : Submitted K T stmt (T.register K stmt now failure) := by
  have unchanged : ∀ e, Submitted K T stmt (T, .error e) := by
    intro e
    exact ⟨kept, fun _ member => member, fun v bad => by cases bad⟩
  rw [Keeper.register]
  cases hashed : stmt.statementHash K with
  | error e => exact unchanged e
  | ok hash =>
    simp only
    cases known : T.find hash with
    | some row =>
      have member := List.mem_of_find?_eq_some known
      have here := List.find?_some known
      rw [beq_iff_eq] at here
      refine ⟨kept, fun _ inside => inside, ?_⟩
      intro v answered
      rcases kept.each row member with none_ | ⟨t, b, rc, registered⟩
      · simp [none_] at answered
      · simp only [registered.receipt, Except.ok.injEq] at answered
        exact ⟨row, member, by rw [hashed, here], t, b, rc, registered, .inr answered.symm⟩
    | none =>
      simp only
      split
      next => exact unchanged _
      next =>
        split
        next => exact unchanged _
        next => exact append_submitted kept hashed now failure

end Delivery
