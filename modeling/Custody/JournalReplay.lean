import Custody.Journal
import Custody.RereadStatements
import Mathlib.Data.List.Nodup

/-!
# The log and its journal agree

After every call and every restart the log in memory is the log that the journal
replays to: the same entries at the same times under the same root, with the
receipts that the journal holds. Whatever a call raises, it has changed neither.
-/

namespace JournalReplay

open PyValue HexBytes CanonicalJson CanonicalForm Commitments Statements Schemas Engine
  EngineMeaning Merkle TransparencyLog LogInvariant ReplayAudit AppendOnly Identity
  Auditing Journal RereadStatements

variable {K : Primitives}

/-- Keys are texts and differ, and every value equals itself. -/
structure SelfEqual (d : Dict) : Prop where
  texts : ∀ p ∈ d, textKey p.1 = true
  distinct : d.Pairwise fun p q => p.1.scalarEq q.1 = false
  each : ∀ p ∈ d, Value.eq p.2 p.2 = true

theorem SelfEqual.eq {d : Dict} (self : SelfEqual d) : Value.eq (.dict d) (.dict d) = true := by
  simp [Value.eq, eqDict_self self.texts self.distinct self.each]

/-- The keys after an insertion are the old ones and the new one. -/
theorem insert_key {A : Type} {d : List (Value × A)} {k : Value} {v : A} {p : Value × A}
    (member : p ∈ PyValue.insert d k v) : (∃ q ∈ d, p.1 = q.1) ∨ p.1 = k := by
  induction d with
  | nil =>
    obtain rfl := List.mem_singleton.mp member
    exact .inr rfl
  | cons q rest ih =>
    obtain ⟨k', v'⟩ := q
    rw [PyValue.insert] at member
    split at member
    next =>
      rcases List.mem_cons.mp member with rfl | later
      · exact .inl ⟨_, List.mem_cons_self, rfl⟩
      · exact .inl ⟨p, List.mem_cons_of_mem _ later, rfl⟩
    next =>
      rcases List.mem_cons.mp member with rfl | later
      · exact .inl ⟨_, List.mem_cons_self, rfl⟩
      · rcases ih later with ⟨r, inside, same⟩ | same
        · exact .inl ⟨r, List.mem_cons_of_mem _ inside, same⟩
        · exact .inr same

theorem SelfEqual.nil : SelfEqual [] := ⟨by simp, List.Pairwise.nil, by simp⟩

/-- Inserting a field that equals itself keeps a record equal to itself. -/
theorem SelfEqual.insert {d : Dict} (self : SelfEqual d) (s : String) {v : Value}
    (equal : Value.eq v v = true) : SelfEqual (PyValue.insert d (.str s) v) := by
  obtain ⟨texts, distinct, each⟩ := self
  induction d with
  | nil =>
    refine ⟨?_, List.pairwise_singleton _ _, ?_⟩
    · intro p member
      obtain rfl := List.mem_singleton.mp member
      rfl
    · intro p member
      obtain rfl := List.mem_singleton.mp member
      exact equal
  | cons q rest ih =>
    obtain ⟨k, w⟩ := q
    obtain ⟨front, back⟩ := List.pairwise_cons.mp distinct
    have first := texts (k, w) List.mem_cons_self
    rw [PyValue.insert]
    split
    next same =>
      refine ⟨?_, List.pairwise_cons.mpr ⟨front, back⟩, ?_⟩
      · intro p member
        rcases List.mem_cons.mp member with rfl | later
        · exact first
        · exact texts p (List.mem_cons_of_mem _ later)
      · intro p member
        rcases List.mem_cons.mp member with rfl | later
        · exact equal
        · exact each p (List.mem_cons_of_mem _ later)
    next other =>
      have rest_ := ih (fun p later => texts p (List.mem_cons_of_mem _ later)) back
        (fun p later => each p (List.mem_cons_of_mem _ later))
      refine ⟨?_, List.pairwise_cons.mpr ⟨?_, rest_.distinct⟩, ?_⟩
      · intro p member
        rcases List.mem_cons.mp member with rfl | later
        · exact first
        · exact rest_.texts p later
      · intro p later
        rcases insert_key later with ⟨r, inside, same⟩ | same
        · rw [same]
          exact front r inside
        · rw [same]
          simpa using other
      · intro p member
        rcases List.mem_cons.mp member with rfl | later
        · exact each (k, w) List.mem_cons_self
        · exact rest_.each p later

theorem SelfEqual.fields {xs : List (String × Value)} (names : (xs.map Prod.fst).Nodup)
    (each : ∀ x ∈ xs, Value.eq x.2 x.2 = true) : SelfEqual (PyValue.fields xs) := by
  refine ⟨?_, ?_, ?_⟩
  · intro p member
    obtain ⟨x, -, rfl⟩ := List.mem_map.mp member
    rfl
  · rw [PyValue.fields, List.pairwise_map]
    rw [List.Nodup, List.pairwise_map] at names
    refine names.imp ?_
    intro a b different
    simpa using different
  · intro p member
    obtain ⟨x, inside, rfl⟩ := List.mem_map.mp member
    exact each x inside

theorem eq_ofStrings (xs : List String) :
    Value.eq (Value.ofStrings xs) (Value.ofStrings xs) = true := by
  rw [Value.ofStrings, Value.eq]
  induction xs with
  | nil => rfl
  | cons x xs ih => simp [Value.eqList, ih]

/-- So does a loop over the roles that inserts one field for each. -/
theorem SelfEqual.foldl {roles : List Role} {key : Role → String} {value : Role → Value}
    (each : ∀ r, Value.eq (value r) (value r) = true) {d : Dict} (self : SelfEqual d) :
    SelfEqual (roles.foldl (fun d r => PyValue.insert d (.str (key r)) (value r)) d) := by
  induction roles generalizing d with
  | nil => exact self
  | cons r rest ih => exact ih (self.insert (key r) (each r))

theorem SelfEqual.getItem {d : Dict} (self : SelfEqual d) {k : String} {v : Value}
    (found : PyValue.getItem d k = .ok v) : Value.eq v v = true := by
  rw [PyValue.getItem] at found
  cases here : find d (.str k) with
  | none => simp [here] at found
  | some w =>
    simp only [here] at found
    obtain rfl := Except.ok.inj found
    obtain ⟨key, member, -⟩ := Equality.find_mem here
    exact self.each _ member

/-- The policy made from a configuration equals itself, as Python compares it. -/
theorem policyFor_selfEqual (config : Config) : SelfEqual (policyFor config) := by
  have names : ["profile", "version", "ts_id", "ts_iss", "allowed_content_types", "sub_pattern",
      "trusted_keys", "issuer_content_types"].Nodup := by decide
  have policy : SelfEqual (policyPayload config.epoch config.logId (issOf .T) allContentTypes
      subPatternText
      (otherRoles.foldl (fun d r => PyValue.insert d (.str (config.identities r).kid)
        (.dict (PyValue.fields [("iss", .str (config.identities r).iss),
          ("public_key", .str (config.identities r).publicKey)]))) [])
      (otherRoles.foldl (fun d r =>
        PyValue.insert d (.str (issOf r)) (.ofStrings (typesOf r))) [])) := by
    refine SelfEqual.fields names ?_
    intro x member
    simp only [List.mem_cons, List.not_mem_nil, or_false] at member
    rcases member with rfl | rfl | rfl | rfl | rfl | rfl | rfl | rfl
    · simp
    · simp [Value.eq, Value.scalarEq]
    · simp
    · simp
    · exact eq_ofStrings _
    · simp
    · refine (SelfEqual.foldl ?_ SelfEqual.nil).eq
      intro r
      exact (SelfEqual.fields (by simp) (by simp)).eq
    · exact (SelfEqual.foldl (fun r => eq_ofStrings (typesOf r)) SelfEqual.nil).eq
  rw [policyFor]
  cases config.deploymentHash with
  | none => exact policy
  | some hash =>
    simp only
    split
    next => exact policy
    next => exact policy.insert _ (by simp)

/-- Both entries hold the same statement, with the same leaf, at the same place and time; only
the order of the keys in memory may differ. -/
structure SameEntry (e e' : LogEntry) : Prop where
  index : e'.index = e.index
  registeredAt : e'.registeredAt = e.registeredAt
  statement : canon e'.statement.toDict = canon e.statement.toDict
  leaf : ∃ b, e.statement.leafBytes = .ok b ∧ e'.statement.leafBytes = .ok b

structure SameLog (log log' : Log) : Prop where
  policy : log'.policy = log.policy
  tree : log'.tree = log.tree
  entries : List.Forall₂ SameEntry log.entries log'.entries

theorem SameEntry.symm {e e' : LogEntry} (same : SameEntry e e') : SameEntry e' e := by
  obtain ⟨b, first, second⟩ := same.leaf
  exact ⟨same.index.symm, same.registeredAt.symm, same.statement.symm, b, second, first⟩

theorem SameEntry.trans {e f g : LogEntry} (first : SameEntry e f) (second : SameEntry f g) :
    SameEntry e g := by
  obtain ⟨b, here, middle⟩ := first.leaf
  obtain ⟨b', middle', there⟩ := second.leaf
  rw [middle] at middle'
  obtain rfl := Except.ok.inj middle'
  exact ⟨second.index.trans first.index, second.registeredAt.trans first.registeredAt,
    second.statement.trans first.statement, b, here, there⟩

/-- Every entry of a kept log has a leaf. -/
theorem entry_leaf {log : Log} (kept : Kept K log) {e : LogEntry} (member : e ∈ log.entries) :
    ∃ b, e.statement.leafBytes = .ok b := by
  obtain ⟨leaves, hashed, -⟩ := bind_ok.mp kept.tree
  obtain ⟨leaf, -, made⟩ := mapM_ok_mem hashed member
  obtain ⟨b, written, -⟩ := bind_ok.mp made
  exact ⟨b, written⟩

theorem SameLog.refl {log : Log} (kept : Kept K log) : SameLog log log := by
  refine ⟨rfl, rfl, List.forall₂_same.mpr ?_⟩
  intro e member
  obtain ⟨b, written⟩ := entry_leaf kept member
  exact ⟨rfl, rfl, rfl, b, written, written⟩

theorem SameLog.symm {log log' : Log} (same : SameLog log log') : SameLog log' log :=
  ⟨same.policy.symm, same.tree.symm,
    (List.Forall₂.imp (fun _ _ => SameEntry.symm) same.entries).flip.imp fun _ _ h => h⟩

theorem SameLog.trans {a b c : Log} (first : SameLog a b) (second : SameLog b c) : SameLog a c := by
  refine ⟨second.policy.trans first.policy, second.tree.trans first.tree, ?_⟩
  have middle := first.entries
  have last := second.entries
  generalize a.entries = xs at middle
  generalize b.entries = ys at middle last
  generalize c.entries = zs at last
  induction middle generalizing zs with
  | nil =>
    cases last
    exact .nil
  | cons head rest ih =>
    cases last with
    | cons head' rest' => exact .cons (head.trans head') (ih _ rest')

/-- Registering the statement as the journal stores it has the same effect as the original. -/
theorem register_reread (bracketed : Bracketed K) {log log' next : Log} {s : SignedStatement}
    {at_ : Int} {rc : RegistrationReceipt} (same : SameLog log log')
    (registered : log.register K s at_ = .ok (next, rc)) :
    ∃ next', log'.register K (reread s) at_ = .ok (next', rc) ∧ SameLog next next' := by
  obtain ⟨passed, appended⟩ := register_ok registered
  rw [Log.append] at appended
  obtain ⟨data, leaf, appended⟩ := bind_ok.mp appended
  obtain ⟨message, signed, appended⟩ := bind_ok.mp appended
  obtain ⟨rfl, rfl⟩ := Prod.mk.inj (Except.ok.inj appended)
  have keyed_ := leaf_keyed leaf
  have admitted : log'.checkPolicy K (reread s) = .ok [] := by
    rw [checkPolicy_congr same.policy]
    exact checkPolicy_reread bracketed (toDict_keyed keyed_).2.2.2.2.1 passed
  refine ⟨{ log' with
    tree := log.tree.append K data
    entries := log'.entries ++
      [{ index := log.tree.size, registeredAt := at_, statement := reread s }] }, ?_, ?_⟩
  · rw [Log.register, admitted, ok_bind]
    simp only [List.isEmpty_nil, Bool.not_true, Bool.false_eq_true, if_false]
    rw [Log.append, leafBytes_reread leaf, ok_bind, same.tree, same.policy]
    exact bind_ok.mpr ⟨message, signed, rfl⟩
  · refine ⟨same.policy, rfl, List.rel_append same.entries ?_⟩
    exact .cons ⟨rfl, rfl, canon_reread keyed_, data, leaf, leafBytes_reread leaf⟩ .nil

/-- The row of an entry. -/
structure Holds (K : Primitives) (row : Row) (e : LogEntry) : Prop where
  index : e.index = row.seq
  registeredAt : row.record.registeredAt = e.registeredAt
  statement : row.record.statement = canon e.statement.toDict
  hash : e.statement.statementHash K = .ok row.hash

/-- Of two entries about one request, the later is a verdict or of another type. -/
def OneEach (e f : LogEntry) : Prop :=
  f.statement.contentType.eq (.str ctVerdict) = true ∨
  ¬ (e.statement.sub.eq f.statement.sub = true ∧
    e.statement.contentType.eq f.statement.contentType = true)

/-- The journal replays to the log and to the receipts it holds. -/
structure Replays (K : Primitives) (S : Keeper) : Prop where
  kept : Kept K S.log
  replayed : ∃ fresh log receipts, Keeper.freshLog K S.config S.key = .ok fresh ∧
    replay K fresh S.rows = (log, .ok receipts) ∧ SameLog S.log log ∧
    S.rows.map (fun row => row.record.receipt) = receipts.map (Option.map canon)
  held : List.Forall₂ (Holds K) S.rows S.log.entries
  numbered : S.rows.map Row.seq = List.range S.rows.length
  receipts : ∀ row ∈ S.rows, row.record.receipt = none ↔ row.seq = 0
  unique : (S.rows.map Row.hash).Nodup
  oneEach : S.log.entries.Pairwise OneEach

theorem sameEntry_fields {e e' : LogEntry} (same : SameEntry e e') :
    canon e'.statement.sub = canon e.statement.sub ∧
    canon e'.statement.contentType = canon e.statement.contentType ∧
    reread e'.statement = reread e.statement := by
  have each := find_of_canon same.statement
  have iss := each "iss"
  have sub := each "sub"
  have contentType := each "content_type"
  have kid := each "kid"
  have issuedAt := each "issued_at"
  have payload := each "payload"
  have signature := each "signature"
  simp [SignedStatement.header, fields, find] at iss sub contentType kid issuedAt
  simp [SignedStatement.header, fields, find, canon_dict] at payload signature
  have number_ : e'.statement.issuedAt = e.statement.issuedAt := by
    simpa [canon] using issuedAt
  refine ⟨sub, contentType, ?_⟩
  simp [reread, iss, sub, contentType, kid, number_, payload, signature]

/-- A row that holds an entry holds any copy of it. -/
theorem holds_same {row : Row} {e e' : LogEntry} (holds : Holds K row e)
    (same : SameEntry e e') : Holds K row e' := by
  obtain ⟨-, -, rereads⟩ := sameEntry_fields same
  refine ⟨same.index.trans holds.index, holds.registeredAt.trans same.registeredAt.symm,
    holds.statement.trans same.statement.symm, ?_⟩
  obtain ⟨b, -, written⟩ := same.leaf
  obtain ⟨hash, hashed⟩ := leaf_hashed (K := K) written
  have again := statementHash_reread hashed
  rw [rereads, statementHash_reread holds.hash] at again
  rw [hashed, Except.ok.inj again]

theorem oneEach_same {e e' f f' : LogEntry} (first : SameEntry e e') (second : SameEntry f f')
    (oneEach : OneEach e f) : OneEach e' f' := by
  obtain ⟨b, left, left'⟩ := first.leaf
  obtain ⟨c, right, right'⟩ := second.leaf
  obtain ⟨-, sub, contentType, -⟩ := toDict_keyed (leaf_keyed left)
  obtain ⟨-, sub', contentType', -⟩ := toDict_keyed (leaf_keyed left')
  obtain ⟨-, fsub, fcontentType, -⟩ := toDict_keyed (leaf_keyed right)
  obtain ⟨-, fsub', fcontentType', -⟩ := toDict_keyed (leaf_keyed right')
  obtain ⟨sameSub, sameType, -⟩ := sameEntry_fields first
  obtain ⟨fSub, fType, -⟩ := sameEntry_fields second
  rw [OneEach] at oneEach ⊢
  rw [← eq_canon _ _ sub' fsub', ← eq_canon _ _ contentType' fcontentType', sameSub, sameType, fSub,
    fType, eq_canon _ _ sub fsub, eq_canon _ _ contentType fcontentType, ← eq_str_canon, fType,
    eq_str_canon]
  exact oneEach

/-- Every entry of a copied log is a copy of an entry. -/
theorem mem_same {xs ys : List LogEntry} (same : List.Forall₂ SameEntry xs ys) {f' : LogEntry}
    (member : f' ∈ ys) : ∃ f ∈ xs, SameEntry f f' := by
  induction same with
  | nil => cases member
  | cons head tail ih =>
    rcases List.mem_cons.mp member with rfl | later
    · exact ⟨_, List.mem_cons_self, head⟩
    · obtain ⟨f, inside, pair⟩ := ih later
      exact ⟨f, List.mem_cons_of_mem _ inside, pair⟩

theorem pairwise_same {xs ys : List LogEntry} (same : List.Forall₂ SameEntry xs ys)
    (oneEach : xs.Pairwise OneEach) : ys.Pairwise OneEach := by
  induction same with
  | nil => exact List.Pairwise.nil
  | @cons e e' rest rest' head tail ih =>
    obtain ⟨front, back⟩ := List.pairwise_cons.mp oneEach
    refine List.pairwise_cons.mpr ⟨?_, ih back⟩
    intro f' member
    obtain ⟨f, inside, pair⟩ := mem_same tail member
    exact oneEach_same head pair (front f inside)

theorem forall₂_same {rows : List Row} {xs ys : List LogEntry}
    (held : List.Forall₂ (Holds K) rows xs) (same : List.Forall₂ SameEntry xs ys) :
    List.Forall₂ (Holds K) rows ys := by
  induction held generalizing ys with
  | nil =>
    cases same
    exact .nil
  | cons head tail ih =>
    cases same with
    | cons head' tail' => exact .cons (holds_same head head') (ih tail')

/-- What holds of one log in memory holds of any other that is the same. -/
theorem replays_same {S : Keeper} {log : Log} (replays : Replays K S) (kept : Kept K log)
    (same : SameLog S.log log) : Replays K { S with log } := by
  obtain ⟨fresh, last, receipts, opened, replayed, lastSame, stored⟩ := replays.replayed
  exact ⟨kept, ⟨fresh, last, receipts, opened, replayed, same.symm.trans lastSame, stored⟩,
    forall₂_same replays.held same.entries, replays.numbered, replays.receipts, replays.unique,
    pairwise_same same.entries replays.oneEach⟩

/-- Replaying one row keeps the log's invariant. -/
theorem replayRow_kept {log next : Log} {row : Row} {receipt : Option Value} (kept : Kept K log)
    (done : replayRow K log row = .ok (next, receipt)) : Kept K next := by
  obtain ⟨stmt, -, done⟩ := bind_ok.mp done
  split at done
  next =>
    split at done
    next => cases done
    next =>
      obtain ⟨rfl, -⟩ := Prod.mk.inj (Except.ok.inj done)
      exact kept
  next =>
    split at done
    next => cases done
    next =>
      obtain ⟨result, registered, done⟩ := bind_ok.mp done
      obtain ⟨rfl, -⟩ := Prod.mk.inj (Except.ok.inj done)
      exact kept_register kept registered

/-- Replaying all rows keeps the log's invariant. -/
theorem replay_kept {log last : Log} {rows : List Row} {receipts : List (Option Value)}
    (kept : Kept K log) (done : replay K log rows = (last, .ok receipts)) : Kept K last := by
  induction rows generalizing log receipts with
  | nil =>
    rw [replay] at done
    obtain ⟨rfl, -⟩ := Prod.mk.inj done
    exact kept
  | cons row rest ih =>
    obtain ⟨next, receipt, later, outcome, rest_, -⟩ := replay_cons done
    exact ih (replayRow_kept kept outcome) rest_

theorem rows_nonempty {S : Keeper} (replays : Replays K S) : S.rows ≠ [] := by
  intro none_
  obtain ⟨first, opened, -⟩ := replays.kept.opened
  have held := replays.held
  rw [none_, List.forall₂_nil_left_iff] at held
  rw [held] at opened
  cases opened

/-- Whatever is in memory, the journal brings back the log it belongs to. -/
theorem reload_ok {S : Keeper} (replays : Replays K S) (log : Log) (failure : Option PyErr) :
    ∃ last, Keeper.reload K { S with log } failure = ({ S with log := last }, .ok ()) ∧
      Kept K last ∧ SameLog S.log last := by
  obtain ⟨fresh, last, receipts, opened, replayed, same, -⟩ := replays.replayed
  refine ⟨last, ?_, replay_kept (kept_opened opened) replayed, same⟩
  rw [Keeper.reload]
  simp only [opened]
  split
  next none_ => exact absurd none_ (rows_nonempty replays)
  next => rw [replayed]; rfl

/-- What a call of `register` can do: answer with a receipt it holds, raise and leave all as it
was, or append one entry and its row. -/
inductive Outcome (K : Primitives) (S : Keeper) (stmt : SignedStatement) :
    Keeper × Py Value → Prop where
  | again {row : Row} {receipt : Value} (stored : row ∈ S.rows)
      (hash : stmt.statementHash K = .ok row.hash) (held : row.record.receipt = some receipt) :
      Outcome K S stmt (S, .ok receipt)
  | raised {log : Log} (e : PyErr) (kept : Kept K log) (same : SameLog S.log log) :
      Outcome K S stmt ({ S with log }, .error e)
  | appended {log : Log} {row : Row} {receipt : Value} (hash : stmt.statementHash K = .ok row.hash)
      (held : row.record.receipt = some (canon receipt))
      (replays : Replays K { S with log, rows := S.rows ++ [row] }) :
      Outcome K S stmt ({ S with log, rows := S.rows ++ [row] }, .ok receipt)

/-- There are as many rows as entries and leaves. -/
theorem rows_length {S : Keeper} (replays : Replays K S) :
    S.rows.length = S.log.tree.size ∧ S.log.entries.length = S.log.tree.size :=
  ⟨replays.held.length_eq.trans (treeOf_size replays.kept.tree).symm,
    (treeOf_size replays.kept.tree).symm⟩

/-- Every row's number is below the size of the tree. -/
theorem rows_before {S : Keeper} (replays : Replays K S) {row : Row} (member : row ∈ S.rows) :
    row.seq < S.log.tree.size := by
  have listed : row.seq ∈ S.rows.map Row.seq := List.mem_map_of_mem member
  rw [replays.numbered, List.mem_range, (rows_length replays).1] at listed
  exact listed

/-- An entry and its row that are appended together replay together. -/
theorem replays_append (bracketed : Bracketed K) {S : Keeper} (replays : Replays K S)
    {stmt : SignedStatement} {hash : String} {now : Int} {log : Log} {rc : RegistrationReceipt}
    (hashed : stmt.statementHash K = .ok hash)
    (registered : S.log.register K stmt now = .ok (log, rc))
    (absent : ∀ row ∈ S.rows, row.hash ≠ hash) (alone : S.conflicting stmt = false) :
    Replays K { S with log, rows := S.rows ++ [{
      seq := S.log.tree.size, hash
      record := { statement := canon stmt.toDict, registeredAt := now,
                  receipt := some (canon rc.toDict) } }] } := by
  obtain ⟨fresh, last, receipts, opened, replayed, same, stored⟩ := replays.replayed
  obtain ⟨last', again, sameNext⟩ := register_reread bracketed same registered
  obtain ⟨-, entries, -⟩ := append_ok (register_ok registered).2
  have count : S.log.tree.size = last.entries.length := by
    rw [← (rows_length replays).2]
    exact same.entries.length_eq
  have positive : last.entries.length ≠ 0 := by
    rw [← count, ← (rows_length replays).1]
    exact fun zero => rows_nonempty replays (List.length_eq_zero_iff.mp zero)
  refine ⟨kept_register replays.kept registered, ⟨fresh, last', receipts ++ [some rc.toDict],
    opened, replay_append replayed ?_, sameNext, ?_⟩, ?_, ?_, ?_, ?_, ?_⟩
  · rw [replayRow, fromDict_canon, ok_bind]
    simp only [count, if_neg positive, ne_eq, not_true_eq_false, if_false]
    rw [again]
    rfl
  · rw [List.map_append, stored, List.map_append]
    rfl
  · rw [entries]
    exact List.rel_append replays.held (.cons ⟨rfl, rfl, rfl, hashed⟩ .nil)
  · rw [List.map_append, replays.numbered, List.length_append, List.length_singleton,
      List.range_succ, (rows_length replays).1]
    rfl
  · intro row member
    rcases List.mem_append.mp member with old | new
    · exact replays.receipts row old
    · obtain rfl := List.mem_singleton.mp new
      simp [count, positive]
  · rw [List.map_append, List.map_singleton, List.nodup_append]
    refine ⟨replays.unique, List.pairwise_singleton _ _, ?_⟩
    intro h member h' last_
    obtain rfl := List.mem_singleton.mp last_
    obtain ⟨row, inside, rfl⟩ := List.mem_map.mp member
    exact absent row inside
  · rw [entries, List.pairwise_append]
    refine ⟨replays.oneEach, List.pairwise_singleton _ _, ?_⟩
    intro e member f last_
    obtain rfl := List.mem_singleton.mp last_
    by_cases verdict : stmt.contentType.eq (.str ctVerdict) = true
    · exact .inl verdict
    · refine .inr ?_
      rintro ⟨sub, type⟩
      have found : S.conflicting stmt = true := by
        rw [Keeper.conflicting, Bool.and_eq_true, List.any_eq_true]
        refine ⟨by rw [Bool.not_eq_true'] ; exact Bool.eq_false_iff.mpr verdict, e, ?_, type⟩
        rw [Log.statementsFor, List.mem_filter]
        exact ⟨member, by simp [sub, Log.visibleAt]⟩
      rw [alone] at found
      cases found

/-- Registration either appends to rows and log together, or changes neither. -/
theorem register_outcome (bracketed : Bracketed K) {S : Keeper} (replays : Replays K S)
    (stmt : SignedStatement) (now : Int) (failure : Option PyErr) :
    Outcome K S stmt (S.register K stmt now failure) := by
  have unchanged : ∀ e, Outcome K S stmt (S, .error e) := by
    intro e
    exact .raised e replays.kept (SameLog.refl replays.kept)
  rw [Keeper.register]
  cases hashed : stmt.statementHash K with
  | error e => exact unchanged e
  | ok hash =>
    simp only
    cases known : S.find hash with
    | some row =>
      have stored := List.mem_of_find?_eq_some known
      have here := List.find?_some known
      rw [beq_iff_eq] at here
      cases held : row.record.receipt with
      | none => simpa [held] using unchanged _
      | some receipt =>
        simp only [held]
        exact .again stored (by rw [hashed, here]) held
    | none =>
      simp only
      split
      next => exact unchanged _
      next =>
        cases conflict : S.conflicting stmt with
        | true => exact unchanged _
        | false =>
          simp only [Bool.false_eq_true, if_false]
          rw [Keeper.append]
          cases issued : registerIn K S.log stmt now with
          | mk log answer =>
            cases answer with
            | error e =>
              have same : log = S.log := by
                have left := @refused_unchanged K S.log stmt now e (by rw [issued])
                rw [issued] at left
                exact left
              rw [same]
              exact unchanged e
            | ok rc =>
              have registered := @accepted_registered K S.log stmt now rc (by rw [issued])
              rw [issued] at registered
              have absent : ∀ row ∈ S.rows, row.hash ≠ hash := by
                intro row member
                have other := List.find?_eq_none.mp known row member
                simpa using other
              simp only
              split
              next rows inserted =>
                obtain ⟨-, -, b, -, placed⟩ := insertRow_ok inserted
                rw [place_last fun row member => rows_before replays member] at placed
                subst placed
                exact .appended hashed rfl
                  (replays_append bracketed replays hashed registered absent conflict)
              next e failed =>
                obtain ⟨last, reloaded, kept, same⟩ := reload_ok replays log failure
                rw [reloaded]
                exact .raised e kept same

/-- The first entry of a fresh log is the policy, issued under the log's key. -/
theorem opened_policy {logId : String} {key : KeyPair} {subRe : String → Bool} {policy : Dict}
    {now : Int} {log : Log} (created : openLog K logId key subRe policy now = .ok log) :
    issue K key log.policy.tsIss (.str ("urn:itx:policy:" ++ logId)) (.str ctPolicy) policy now =
      .ok log.policy.policyStatement ∧
    log.policy.policyStatement.statementHash K = .ok log.policy.policyHash := by
  have opened := openLog_ok created
  exact ⟨opened.issued, opened.founded.hashed⟩

/-- The stored policy, as it is read back, equals the pinned one. -/
theorem policy_reread {config : Config} {key : KeyPair} {fresh : Log} {b : Bytes}
    (opened : Keeper.freshLog K config key = .ok fresh)
    (written : fresh.policy.policyStatement.leafBytes = .ok b) :
    (reread fresh.policy.policyStatement).toDict.eq fresh.policy.policyStatement.toDict = true := by
  have keyed_ := leaf_keyed written
  have again : keyed (reread fresh.policy.policyStatement).toDict = true :=
    leaf_keyed (leafBytes_reread written)
  rw [← eq_canon _ _ again keyed_, canon_reread keyed_, eq_canon _ _ keyed_ keyed_]
  obtain ⟨message, -, issued⟩ := issue_ok (opened_policy opened).1
  have issuer := (policyFor_selfEqual config).getItem (opened_shape opened).1
  have self : SelfEqual (PyValue.fields [("iss", fresh.policy.tsIss),
      ("sub", .str ("urn:itx:policy:" ++ config.logId)), ("content_type", .str ctPolicy),
      ("kid", .str key.kid), ("issued_at", .int config.createdAt),
      ("payload", .dict (policyFor config)),
      ("signature", .str (hex (key.sign K message)))]) := by
    refine SelfEqual.fields (by simp) ?_
    intro x member
    simp only [List.mem_cons, List.not_mem_nil, or_false] at member
    rcases member with rfl | rfl | rfl | rfl | rfl | rfl | rfl
    · exact issuer
    · simp
    · simp
    · simp
    · simp [Value.eq, Value.scalarEq]
    · exact (policyFor_selfEqual config).eq
    · simp
  rw [issued]
  exact self.eq

/-- A keeper that started follows its journal. -/
theorem start_replays {config : Config} {seed : Bytes} {failure : Option PyErr} {S : Keeper}
    (started : Keeper.start K config seed failure = .ok S) : Replays K S := by
  obtain ⟨key, -, started⟩ := bind_ok.mp started
  obtain ⟨fresh, opened, started⟩ := bind_ok.mp started
  have kept : Kept K fresh := kept_opened opened
  obtain ⟨-, -, -, first, entries, statement⟩ := opened_shape opened
  have index : first.index = 0 := by
    have order := kept.numbered
    rw [entries, inOrder, Bool.and_eq_true, beq_iff_eq] at order
    exact order.1
  rw [Keeper.restart, Keeper.reload] at started
  simp only [opened] at started
  cases made : Keeper.firstRows K fresh failure with
  | error e =>
    rw [made] at started
    cases started
  | ok rows =>
    rw [made] at started
    obtain rfl := Except.ok.inj started
    obtain ⟨hash, hashed, made⟩ := bind_ok.mp made
    obtain ⟨-, -, b, -, placed⟩ := insertRow_ok made
    subst placed
    have member : first ∈ fresh.entries := by simp [entries]
    obtain ⟨b, leaf⟩ := entry_leaf kept member
    rw [statement] at leaf
    have replayed : ∀ row : Row, row.seq = 0 →
        row.record.statement = canon fresh.policy.policyStatement.toDict →
        replayRow K fresh row = .ok (fresh, none) := by
      intro row zero policy
      rw [replayRow, policy, fromDict_canon, ok_bind, if_pos zero, policy_reread opened leaf]
      rfl
    refine ⟨kept, ⟨fresh, fresh, [none], opened, ?_, SameLog.refl kept, rfl⟩, ?_, rfl, ?_,
      List.pairwise_singleton _ _, ?_⟩
    · rw [place, replay, replayed _ rfl rfl]
      rfl
    · simp only [entries]
      exact .cons ⟨index, rfl, by rw [statement]; rfl, by rw [statement]; exact hashed⟩ .nil
    · intro row only
      obtain rfl := List.mem_singleton.mp only
      exact ⟨fun _ => rfl, fun _ => rfl⟩
    · simp only [entries]
      exact List.pairwise_singleton _ _

/-- Restarting gives a log with the same entries. -/
theorem restart_ok {S : Keeper} (replays : Replays K S) (failure : Option PyErr) :
    ∃ last, S.restart K failure = .ok { S with log := last } ∧ Kept K last ∧
      SameLog S.log last := by
  obtain ⟨last, reloaded, kept, same⟩ := reload_ok replays S.log failure
  exact ⟨last, by rw [Keeper.restart, reloaded], kept, same⟩

/-- Whatever a registration comes to, the log follows the journal and no row is lost. -/
theorem outcome_replays {S : Keeper} {stmt : SignedStatement} {out : Keeper × Py Value}
    (replays : Replays K S) (outcome : Outcome K S stmt out) :
    Replays K out.1 ∧ S.rows <+: out.1.rows := by
  cases outcome with
  | again => exact ⟨replays, List.prefix_refl _⟩
  | raised e kept same => exact ⟨replays_same replays kept same, List.prefix_refl _⟩
  | appended hash held replays => exact ⟨replays, List.prefix_append _ _⟩

/-- One event keeps the log following the journal. -/
theorem step_replays (bracketed : Bracketed K) {S : Keeper} (replays : Replays K S) (ev : Event) :
    ∃ next, step K S ev = .ok next ∧ Replays K next ∧ S.rows <+: next.rows := by
  cases ev with
  | register stmt now failure =>
    exact ⟨_, rfl, outcome_replays replays (register_outcome bracketed replays stmt now failure)⟩
  | restart failure =>
    obtain ⟨last, restarted, kept, same⟩ := restart_ok replays failure
    exact ⟨_, restarted, replays_same replays kept same, List.prefix_refl _⟩

theorem run_replays (bracketed : Bracketed K) {S : Keeper} (replays : Replays K S)
    (events : List Event) :
    ∃ last, run K S events = .ok last ∧ Replays K last ∧ S.rows <+: last.rows := by
  induction events generalizing S with
  | nil => exact ⟨S, rfl, replays, List.prefix_refl _⟩
  | cons ev rest ih =>
    obtain ⟨next, stepped, kept, grown⟩ := step_replays bracketed replays ev
    obtain ⟨last, done, holds, more⟩ := ih kept
    refine ⟨last, ?_, holds, grown.trans more⟩
    rw [run, List.foldlM_cons, stepped]
    exact done

/-- What one more call does, whatever is registered and whether or not the insert fails. -/
structure Answers (K : Primitives) (S : Keeper) (stmt : SignedStatement) (now : Int)
    (failure : Option PyErr) : Prop where
  again : ∀ row ∈ S.rows, stmt.statementHash K = .ok row.hash →
    if row.seq = 0 then S.register K stmt now failure = (S, .error .keyError)
    else ∃ receipt, row.record.receipt = some receipt ∧
      S.register K stmt now failure = (S, .ok receipt)
  stored : ∀ next receipt, S.register K stmt now failure = (next, .ok receipt) →
    ∃ row ∈ next.rows, stmt.statementHash K = .ok row.hash ∧
      (next = S ∧ row.record.receipt = some receipt ∨
        next.rows = S.rows ++ [row] ∧ row.record.receipt = some (canon receipt))
  raised : ∀ next e, S.register K stmt now failure = (next, .error e) →
    next.rows = S.rows ∧ SameLog S.log next.log

theorem find_row {S : Keeper} (unique : (S.rows.map Row.hash).Nodup) {row : Row}
    (member : row ∈ S.rows) : S.find row.hash = some row := by
  rw [Keeper.find]
  cases found : S.rows.find? fun r => r.hash == row.hash with
  | none =>
    have absent := List.find?_eq_none.mp found row member
    simp at absent
  | some r =>
    have same := List.find?_some found
    rw [beq_iff_eq] at same
    rw [List.inj_on_of_nodup_map unique (List.mem_of_find?_eq_some found) member same]

theorem answers (bracketed : Bracketed K) {S : Keeper} (replays : Replays K S)
    (stmt : SignedStatement) (now : Int) (failure : Option PyErr) :
    Answers K S stmt now failure := by
  have outcome := register_outcome bracketed replays stmt now failure
  refine ⟨?_, ?_, ?_⟩
  · intro row member hashed
    have found := find_row replays.unique member
    split
    next first =>
      have none_ := (replays.receipts row member).mpr first
      simp only [Keeper.register, hashed, found, none_]
    next later =>
      cases held : row.record.receipt with
      | none => exact absurd ((replays.receipts row member).mp held) later
      | some receipt => exact ⟨receipt, rfl, by simp only [Keeper.register, hashed, found, held]⟩
  · intro next receipt called
    rw [called] at outcome
    cases outcome with
    | again stored hash held => exact ⟨_, stored, hash, .inl ⟨rfl, held⟩⟩
    | appended hash held replays =>
      exact ⟨_, List.mem_append_right _ List.mem_cons_self, hash, .inr ⟨rfl, held⟩⟩
  · intro next e called
    rw [called] at outcome
    cases outcome with
    | raised e kept same => exact ⟨rfl, same⟩

/-- Whatever is registered, whichever inserts fail and whenever the process restarts, the log in
memory is the one the journal replays to. -/
theorem log_follows_journal (bracketed : Bracketed K) {config : Config} {seed : Bytes}
    {failure : Option PyErr} {S : Keeper} (started : Keeper.start K config seed failure = .ok S)
    (events : List Event) :
    ∃ last, run K S events = .ok last ∧ Replays K last ∧ S.rows <+: last.rows ∧
      (∀ stmt now failure, Answers K last stmt now failure) ∧
      ∀ failure, ∃ log, last.restart K failure = .ok { last with log } ∧ SameLog last.log log := by
  obtain ⟨last, done, replays, grown⟩ := run_replays bracketed (start_replays started) events
  refine ⟨last, done, replays, grown, answers bracketed replays, ?_⟩
  intro failure
  obtain ⟨log, restarted, -, same⟩ := restart_ok replays failure
  exact ⟨log, restarted, same⟩

theorem bracketed_toy : Bracketed toy := by
  refine ⟨?_, ?_⟩
  · intro xs
    have plain : startsWith "[...]" profileVersion = false := by decide
    exact plain
  · intro kvs
    have plain : startsWith "(...)" profileVersion = false := by decide
    exact plain

/-- A contract is registered, the insert of another call fails, and the process restarts. -/
def sampleEvents : List Event :=
  [.register { sampleContract with sub := .str "urn:itx:req:2" } 9 none,
    .register sampleContract 10 (some (.runtimeError "disk full")), .restart none,
    .register sampleContract 20 none]

/-- The rows after these events, and whether the policy of row zero is answered. -/
def sampleRun : Py (Nat × Bool) := do
  let S ← Keeper.start toy sampleConfig [4] none
  let last ← run toy S sampleEvents
  let policy := S.log.policy.policyStatement
  let hash ← policy.statementHash toy
  let unanswered := match (S.register toy policy 30 none).2 with
    | .ok _ => false
    | .error _ => true
  pure (last.rows.length, S.rows.any (fun row => row.hash == hash) && unanswered)

theorem sampleRun_facts : sampleRun = .ok (3, true) := by
  decide +kernel

theorem log_follows_journal_sample : ∃ S last, Keeper.start toy sampleConfig [4] none = .ok S ∧
    run toy S sampleEvents = .ok last ∧ last.rows.length = 3 ∧ Replays toy last := by
  obtain ⟨S, started, rest⟩ := bind_ok.mp sampleRun_facts
  obtain ⟨last, done, replays, -⟩ := log_follows_journal bracketed_toy started sampleEvents
  obtain ⟨last', done', rest⟩ := bind_ok.mp rest
  rw [done] at done'
  obtain rfl := Except.ok.inj done'
  obtain ⟨hash, -, rest⟩ := bind_ok.mp rest
  exact ⟨S, last, started, done, congrArg Prod.fst (Except.ok.inj rest), replays⟩

/-- The policy is in the journal, and registering it once more returns no receipt. -/
theorem policy_unanswered : ∃ S row, Keeper.start toy sampleConfig [4] none = .ok S ∧
    row ∈ S.rows ∧ S.log.policy.policyStatement.statementHash toy = .ok row.hash ∧
    ∀ receipt, (S.register toy S.log.policy.policyStatement 30 none).2 ≠ .ok receipt := by
  obtain ⟨S, started, rest⟩ := bind_ok.mp sampleRun_facts
  obtain ⟨last, -, rest⟩ := bind_ok.mp rest
  obtain ⟨hash, hashed, rest⟩ := bind_ok.mp rest
  have both := congrArg Prod.snd (Except.ok.inj rest)
  rw [Bool.and_eq_true, List.any_eq_true] at both
  obtain ⟨⟨row, member, same⟩, unanswered⟩ := both
  rw [beq_iff_eq] at same
  refine ⟨S, row, started, member, by rw [hashed, same], ?_⟩
  intro receipt answered
  rw [answered] at unanswered
  cases unanswered

end JournalReplay
