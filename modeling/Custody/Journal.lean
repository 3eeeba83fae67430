import Custody.AppendOnly
import Custody.Auditing

/-!
# The journal

The third party appends to the log in memory first and to its journal on disk
second. When the insert fails, and when the process starts, the log is rebuilt
from the journal.
-/

namespace Journal

open PyValue HexBytes CanonicalJson Commitments Statements Schemas Engine Merkle TransparencyLog
  AppendOnly Identity

/-- What a row's sealed bytes hold; the policy's record has no receipt. -/
structure Record where
  statement : Value
  registeredAt : Int
  receipt : Option Value

namespace Record

def toDict (r : Record) : Value :=
  .dict (fields ([("statement", r.statement), ("at", .int r.registeredAt)] ++
    match r.receipt with
    | some receipt => [("receipt", receipt)]
    | none => []))

def canonical (r : Record) : Record :=
  { statement := canon r.statement, registeredAt := r.registeredAt,
    receipt := r.receipt.map canon }

/-- The record as `json_loads` reads it back from its canonical JSON. -/
def stored (r : Record) : Py Record := do
  let _ ← canonicalJson r.toDict
  pure r.canonical

end Record

/-- A row of the table `journal`. -/
structure Row where
  seq : Nat
  hash : String
  record : Record

/-- A row goes to its place in the order of `seq`. -/
def place (row : Row) : List Row → List Row
  | [] => [row]
  | r :: rest => if row.seq < r.seq then row :: r :: rest else r :: place row rest

/-- `seq` is the primary key and `hash` is unique. -/
def uniqueViolated : PyErr := .runtimeError "UNIQUE constraint failed"

/-- `INSERT INTO journal`, which may also fail for a reason of its own. -/
def insertRow (rows : List Row) (seq : Nat) (hash : String) (record : Record)
    (failure : Option PyErr) : Py (List Row) := do
  let record ← record.stored
  if rows.any (fun row => row.seq == seq || row.hash == hash) then throw uniqueViolated
  else match failure with
    | some e => throw e
    | none => pure (place { seq, hash, record } rows)

variable (K : Primitives)

/-- One row of the journal, with the receipt that registering it once more issues. -/
def replayRow (log : Log) (row : Row) : Py (Log × Option Value) := do
  let stmt ← SignedStatement.fromDict row.record.statement
  if row.seq = 0 then
    if !stmt.toDict.eq log.policy.policyStatement.toDict then
      throw (.valueError "stored policy differs from pinned policy")
    else pure (log, none)
  else if row.seq ≠ log.entries.length then throw (.valueError "log sequence gap")
  else do
    let (next, receipt) ← log.register K stmt row.record.registeredAt
    pure (next, some receipt.toDict)

/-- The rows in order, with the log as it is left when a row raises. -/
def replay (log : Log) : List Row → Log × Py (List (Option Value))
  | [] => (log, .ok [])
  | row :: rows => match replayRow K log row with
    | .error e => (log, .error e)
    | .ok (next, receipt) =>
      let (last, receipts) := replay next rows
      (last, receipts.map (receipt :: ·))

/-- The service of the third party, as far as its log and its journal go. -/
structure Keeper where
  config : Config
  key : KeyPair
  log : Log
  rows : List Row

namespace Keeper

/-- The log before anything is registered. -/
def freshLog (config : Config) (key : KeyPair) : Py Log :=
  openLog K config.logId key subPattern (policyFor config) config.createdAt

/-- The row of the policy, in an empty journal. -/
def firstRows (log : Log) (failure : Option PyErr) : Py (List Row) := do
  let first := log.policy.policyStatement
  let hash ← first.statementHash K
  let at_ := (log.entries.head?.map LogEntry.registeredAt).getD 0
  insertRow [] 0 hash { statement := first.toDict, registeredAt := at_, receipt := none } failure

/-- `_reload_log`, with what is left when it raises. -/
def reload (S : Keeper) (failure : Option PyErr) : Keeper × Py Unit :=
  match freshLog K S.config S.key with
  | .error e => (S, .error e)
  | .ok log => match S.rows with
    | [] => match firstRows K log failure with
      | .error e => ({ S with log }, .error e)
      | .ok rows => ({ S with log, rows }, .ok ())
    | rows =>
      let (last, receipts) := replay K log rows
      ({ S with log := last }, receipts.map fun _ => ())

/-- A new process over the same directory. -/
def restart (S : Keeper) (failure : Option PyErr) : Py Keeper :=
  match S.reload K failure with
  | (next, .ok ()) => .ok next
  | (_, .error e) => .error e

/-- `Service.__init__` in an empty directory. -/
def start (config : Config) (seed : Bytes) (failure : Option PyErr) : Py Keeper := do
  let key ← keyFor K config .T seed
  let log ← freshLog K config key
  restart K { config, key, log, rows := [] } failure

def find (S : Keeper) (hash : String) : Option Row := S.rows.find? fun row => row.hash == hash

/-- The log is appended to, then the journal. The receipt names the entry's index and time. -/
def append (S : Keeper) (stmt : SignedStatement) (hash : String) (now : Int)
    (failure : Option PyErr) : Keeper × Py Value :=
  match registerIn K S.log stmt now with
  | (log, .error e) => ({ S with log }, .error e)
  | (log, .ok receipt) =>
    let record : Record :=
      { statement := stmt.toDict, registeredAt := now, receipt := some receipt.toDict }
    match insertRow S.rows S.log.tree.size hash record failure with
    | .ok rows => ({ S with log, rows }, .ok receipt.toDict)
    | .error e => match reload K { S with log } failure with
      | (next, .ok ()) => (next, .error e)
      | (next, .error e') => (next, .error e')

def conflicting (S : Keeper) (stmt : SignedStatement) : Bool :=
  !stmt.contentType.eq (.str ctVerdict) &&
    (S.log.statementsFor stmt.sub none).any fun e =>
      e.statement.contentType.eq stmt.contentType

/-- `register(stmt)`, where `failure` is what the insert raises, if it does. -/
def register (S : Keeper) (stmt : SignedStatement) (now : Int) (failure : Option PyErr) :
    Keeper × Py Value :=
  match stmt.statementHash K with
  | .error e => (S, .error e)
  | .ok hash => match S.find hash with
    | some row => (S, match row.record.receipt with
      | some receipt => .ok receipt
      | none => .error .keyError)
    | none =>
      if S.log.entries.length ≥ S.config.maxLogEntries then
        (S, .error (.valueError "log capacity reached; provision a successor deployment epoch"))
      else if S.conflicting stmt then
        (S, .error
          (.valueError "conflicting statement; corrections require a new protocol version"))
      else S.append K stmt hash now failure

end Keeper

/-- A call of `register`, or a restart of the process. A process that dies inside a call leaves
the journal of before the insert or of after it, so it is a call followed by a restart. -/
inductive Event where
  | register (stmt : SignedStatement) (now : Int) (failure : Option PyErr)
  | restart (failure : Option PyErr)

def step (S : Keeper) : Event → Py Keeper
  | .register stmt now failure => .ok (S.register K stmt now failure).1
  | .restart failure => S.restart K failure

/-- The state after some events; an error is a process that does not start. -/
def run (S : Keeper) (events : List Event) : Py Keeper := events.foldlM (step K) S

variable {K}

theorem place_last {row : Row} {rows : List Row} (last : ∀ r ∈ rows, r.seq < row.seq) :
    place row rows = rows ++ [row] := by
  induction rows with
  | nil => rfl
  | cons r rest ih =>
    have smaller := last r List.mem_cons_self
    have order : ¬ row.seq < r.seq := by omega
    rw [place, if_neg order, ih fun r' later => last r' (List.mem_cons_of_mem _ later)]
    rfl

/-- An insert that succeeds puts the record, as it is read back, where its number says. -/
theorem insertRow_ok {rows next : List Row} {seq : Nat} {hash : String} {record : Record}
    {failure : Option PyErr} (inserted : insertRow rows seq hash record failure = .ok next) :
    failure = none ∧ (∀ row ∈ rows, row.seq ≠ seq ∧ row.hash ≠ hash) ∧
    ∃ b, canonicalJson record.toDict = .ok b ∧
      next = place { seq, hash, record := record.canonical } rows := by
  obtain ⟨stored, read, inserted⟩ := bind_ok.mp inserted
  obtain ⟨b, written, read⟩ := bind_ok.mp read
  obtain rfl := Except.ok.inj read
  split at inserted
  next => cases inserted
  next free =>
    cases failure with
    | some e => cases inserted
    | none =>
      refine ⟨rfl, ?_, b, written, (Except.ok.inj inserted).symm⟩
      intro row member
      have different : ¬ (row.seq == seq || row.hash == hash) = true := by
        intro clash
        exact free (List.any_eq_true.mpr ⟨row, member, clash⟩)
      rw [Bool.or_eq_true, beq_iff_eq, beq_iff_eq] at different
      exact not_or.mp different

/-- Replaying takes the rows one by one. -/
theorem replay_cons {log last : Log} {row : Row} {rows : List Row} {receipts : List (Option Value)}
    (done : replay K log (row :: rows) = (last, .ok receipts)) :
    ∃ next receipt later, replayRow K log row = .ok (next, receipt) ∧
      replay K next rows = (last, .ok later) ∧ receipts = receipt :: later := by
  rw [replay] at done
  cases outcome : replayRow K log row with
  | error e =>
    rw [outcome] at done
    cases (Prod.mk.inj done).2
  | ok result =>
    obtain ⟨next, receipt⟩ := result
    rw [outcome] at done
    obtain ⟨same, made⟩ := Prod.mk.inj done
    obtain ⟨later, rest, rfl⟩ := map_ok made
    exact ⟨next, receipt, later, rfl, Prod.ext same rest, rfl⟩

theorem replay_append {log mid next : Log} {rows : List Row} {row : Row}
    {receipts : List (Option Value)} {receipt : Option Value}
    (before : replay K log rows = (mid, .ok receipts))
    (last : replayRow K mid row = .ok (next, receipt)) :
    replay K log (rows ++ [row]) = (next, .ok (receipts ++ [receipt])) := by
  induction rows generalizing log receipts with
  | nil =>
    rw [replay] at before
    obtain ⟨rfl, none_⟩ := Prod.mk.inj before
    obtain rfl := Except.ok.inj none_
    rw [List.nil_append, replay, last]
    rfl
  | cons r rest ih =>
    obtain ⟨after, first, later, outcome, rest_, rfl⟩ := replay_cons before
    rw [List.cons_append, replay, outcome]
    simp only
    rw [ih rest_]
    rfl

/-- A contract for the small deployment. -/
def sampleContract : SignedStatement :=
  WithoutEvidence.signedWith { kid := "kid-u", seed := [1] } (issOf .U) "urn:itx:req:1" ctContract
    (contractPayload PassedVerdict.plainTerms) 0

end Journal
