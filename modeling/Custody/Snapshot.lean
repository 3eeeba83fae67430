import Custody.JournalReplay
import Custody.LogExport
import Custody.PagedExport

/-!
# The export is a snapshot

Whatever is registered between two pages, the entries that an auditor collects
are those of the log under the head it was shown, each once and in order, and
every receipt among them is the one of its place.
-/

namespace Snapshot

open PyValue HexBytes CanonicalJson CanonicalForm Commitments Statements Schemas Engine Merkle
  MerkleProofs TransparencyLog LogInvariant ReplayAudit LogExport AppendOnly Identity Auditing
  ExportCheck Journal RereadStatements JournalReplay PagedExport

variable {K : Primitives}

/-- A receipt is the one of its place in the log. -/
def IssuedAt (K : Primitives) (log : Log) (i : Nat) (data : Bytes) (at_ : Int)
    (rc : RegistrationReceipt) : Prop :=
  receiptFor K log.policy { leaves := log.tree.leaves.take (i + 1) } i (leafHash K data) at_ =
    .ok rc

/-- What a replayed row issued, seen from a later log. -/
def Reissued (K : Primitives) (last : Log) (row : Row) (receipt : Option Value) : Prop :=
  row.seq = 0 ∧ receipt = none ∨ ∃ stmt data rc,
    SignedStatement.fromDict row.record.statement = .ok stmt ∧ stmt.leafBytes = .ok data ∧
    IssuedAt K last row.seq data row.record.registeredAt rc ∧ receipt = some rc.toDict

theorem replayRow_reissued {log next last : Log} {row : Row} {receipt : Option Value}
    (kept : Kept K log) (done : replayRow K log row = .ok (next, receipt))
    (grown : Extends next last) : Extends log next ∧ Reissued K last row receipt := by
  obtain ⟨stmt, read, done⟩ := bind_ok.mp done
  split at done
  next first =>
    split at done
    next => cases done
    next =>
      obtain ⟨rfl, rfl⟩ := Prod.mk.inj (Except.ok.inj done)
      exact ⟨Extends.refl log, .inl ⟨first, rfl⟩⟩
  next =>
    split at done
    next => cases done
    next here =>
      obtain ⟨⟨next', rc⟩, registered, done⟩ := bind_ok.mp done
      obtain ⟨rfl, rfl⟩ := Prod.mk.inj (Except.ok.inj done)
      have inPlace : registerIn K log stmt row.record.registeredAt = (next', .ok rc) := by
        rw [registerIn_register, registered]
      obtain ⟨data, issued⟩ := @issued_of_accepted K log stmt row.record.registeredAt rc
        (by rw [inPlace])
      rw [inPlace] at issued
      have more := append_extends (register_ok registered).2
      refine ⟨more, .inr ⟨stmt, data, rc, read, issued.leaf, ?_, rfl⟩⟩
      have size : row.seq = log.tree.size := by
        rw [treeOf_size kept.tree]
        simpa using here
      have front : last.tree.leaves.take (row.seq + 1) = next'.tree.leaves := by
        obtain ⟨rest, leaves⟩ := grown.leaves
        have count : next'.tree.leaves.length = row.seq + 1 := by
          rw [issued.tree, size]
          simp [MerkleTree.append, MerkleTree.size]
        rw [← leaves, ← count]
        exact List.take_left
      rw [IssuedAt, front, grown.policy, more.policy, size]
      exact issued.signed

/-- Replaying the rows issues each receipt again, for the log as it stands at last. -/
theorem replay_reissued {log last : Log} {rows : List Row} {receipts : List (Option Value)}
    (kept : Kept K log) (done : replay K log rows = (last, .ok receipts)) :
    Extends log last ∧ List.Forall₂ (Reissued K last) rows receipts := by
  induction rows generalizing log receipts with
  | nil =>
    rw [replay] at done
    obtain ⟨rfl, none_⟩ := Prod.mk.inj done
    obtain rfl := Except.ok.inj none_
    exact ⟨Extends.refl log, .nil⟩
  | cons row rest ih =>
    obtain ⟨next, receipt, later, outcome, rest_, rfl⟩ := replay_cons done
    obtain ⟨grown, each⟩ := ih (replayRow_kept kept outcome) rest_
    obtain ⟨first, reissued⟩ := replayRow_reissued kept outcome grown
    exact ⟨first.trans grown, .cons reissued each⟩

/-- Row, entry and leaf of one index. -/
structure Placed (K : Primitives) (T : Keeper) (i : Nat) (row : Row) (e : LogEntry)
    (data : Bytes) : Prop where
  listed : T.rows[i]? = some row
  entry : T.log.entries[i]? = some e
  seq : row.seq = i
  holds : Holds K row e
  leaf : e.statement.leafBytes = .ok data
  stored : T.log.tree.leaves[i]? = some (leafHash K data)

theorem row_seq {T : Keeper} (replays : Replays K T) {i : Nat} {row : Row}
    (found : T.rows[i]? = some row) : row.seq = i := by
  have inside := (List.getElem?_eq_some_iff.mp found).1
  have mapped : (T.rows.map Row.seq)[i]? = some row.seq := by simp [found]
  rw [replays.numbered, List.getElem?_range inside] at mapped
  exact (Option.some.inj mapped).symm

theorem forall₂_get {A B : Type} {R : A → B → Prop} {xs : List A} {ys : List B}
    (each : List.Forall₂ R xs ys) {i : Nat} {x : A} (found : xs[i]? = some x) :
    ∃ y, ys[i]? = some y ∧ R x y := by
  induction each generalizing i with
  | nil => cases found
  | cons head tail ih =>
    cases i with
    | zero =>
      obtain rfl := Option.some.inj found
      exact ⟨_, rfl, head⟩
    | succ i => exact ih found

/-- Each row has its entry and its leaf. -/
theorem placed_row {T : Keeper} (replays : Replays K T) {i : Nat} {row : Row}
    (found : T.rows[i]? = some row) : ∃ e data, Placed K T i row e data := by
  obtain ⟨e, entry, holds⟩ := forall₂_get replays.held found
  obtain ⟨leaves, hashed, same⟩ := bind_ok.mp replays.kept.tree
  obtain ⟨leafHash_, stored, one⟩ := mapM_ok_get hashed entry
  obtain ⟨data, leaf, made⟩ := bind_ok.mp one
  obtain rfl := Except.ok.inj made
  refine ⟨e, data, found, entry, row_seq replays found, holds, leaf, ?_⟩
  rw [← Except.ok.inj same]
  exact stored

/-- A stored receipt is the one of its place. -/
theorem row_receipt {T : Keeper} (replays : Replays K T) {i : Nat} {row : Row} {e : LogEntry}
    {data : Bytes} (placed : Placed K T i row e data) (later : i ≠ 0) :
    ∃ rc, IssuedAt K T.log i data e.registeredAt rc ∧
      row.record.receipt = some (canon rc.toDict) := by
  obtain ⟨fresh, last, receipts, opened, replayed, same, stored⟩ := replays.replayed
  obtain ⟨-, each⟩ := replay_reissued (kept_opened opened) replayed
  obtain ⟨receipt, listed, reissued⟩ := forall₂_get each placed.listed
  have held : row.record.receipt = receipt.map canon := by
    have mapped : (T.rows.map fun row => row.record.receipt)[i]? = some row.record.receipt := by
      simp [placed.listed]
    rw [stored, List.getElem?_map, listed] at mapped
    exact (Option.some.inj mapped).symm
  rcases reissued with ⟨first, -⟩ | ⟨stmt, data', rc, read, leaf, issued, rfl⟩
  · exact absurd (placed.seq.symm.trans first) later
  · rw [placed.holds.statement, fromDict_canon] at read
    obtain rfl := Except.ok.inj read
    rw [leafBytes_reread placed.leaf] at leaf
    obtain rfl := Except.ok.inj leaf
    refine ⟨rc, ?_, held⟩
    rw [IssuedAt, same.policy, same.tree, placed.seq, placed.holds.registeredAt] at issued
    exact issued

/-- The entry at an index, with the receipt of its place, as it arrives. -/
def Shown (K : Primitives) (T : Keeper) (i : Nat) (v : Value) : Prop :=
  ∃ row e data rc, Placed K T i row e data ∧ IssuedAt K T.log i data e.registeredAt rc ∧
    v = canon (entryValue e rc.toDict)

/-- Each entry knows its place. -/
theorem entry_index {T : Keeper} (replays : Replays K T) {i : Nat} {e : LogEntry}
    (found : T.log.entries[i]? = some e) : e.index = i := by
  obtain ⟨row, listed, holds⟩ := forall₂_get replays.held.flip found
  rw [holds.index, row_seq replays listed]

theorem canon_entryValue (e : LogEntry) (receipt : Value) : canon (entryValue e receipt) =
    .dict (sortKeys (fields [("index", .int e.index), ("registered_at", .int e.registeredAt),
      ("statement", canon e.statement.toDict), ("receipt", canon receipt)])) := by
  simp [entryValue, fields, canon, canonDict]

/-- Looking up a number finds the row in that place. -/
theorem find_seq {T : Keeper} (replays : Replays K T) {i : Nat} {row : Row}
    (listed : T.rows[i]? = some row) :
    T.rows.find? (fun r => (r.seq : Int) == (i : Int)) = some row := by
  cases found : T.rows.find? fun r => (r.seq : Int) == (i : Int) with
  | none =>
    have absent := List.find?_eq_none.mp found row (List.mem_of_getElem? listed)
    rw [row_seq replays listed] at absent
    simp at absent
  | some r =>
    have here := List.find?_some found
    obtain ⟨j, at_⟩ := List.getElem?_of_mem (List.mem_of_find?_eq_some found)
    have equal : (r.seq : Int) = (i : Int) := by simpa using here
    have number_ : r.seq = i := by exact_mod_cast equal
    rw [row_seq replays at_] at number_
    rw [← at_, number_, listed]

/-- The log that follows a journal has the configured policy and key. -/
theorem replays_key {T : Keeper} (replays : Replays K T) : ∃ fresh,
    Keeper.freshLog K T.config T.key = .ok fresh ∧ T.log.policy = fresh.policy ∧
    T.log.policy.key = T.key := by
  obtain ⟨fresh, last, receipts, opened, replayed, same, -⟩ := replays.replayed
  obtain ⟨grown, -⟩ := replay_reissued (kept_opened opened) replayed
  have policy : T.log.policy = fresh.policy := by rw [← same.policy, grown.policy]
  exact ⟨fresh, opened, policy, by rw [policy]; exact (opened_shape opened).2.1⟩

/-- The receipt made on demand is the one of the entry's place. -/
theorem madeReceipt_issued {T : Keeper} (replays : Replays K T) {i : Nat} {row : Row}
    {e : LogEntry} {data : Bytes} (placed : Placed K T i row e data) {rc : RegistrationReceipt}
    (made : madeReceipt K T e = .ok rc) : IssuedAt K T.log i data e.registeredAt rc := by
  obtain ⟨fresh, -, -, key⟩ := replays_key replays
  have inside : i < T.log.tree.leaves.length := (List.getElem?_eq_some_iff.mp placed.stored).1
  have size : i + 1 ≤ T.log.tree.size := inside
  have index := entry_index replays placed.entry
  have natural : ((i : Int) + 1) = ((i + 1 : Nat) : Int) := by omega
  have leaf : T.log.tree.leaves.getD i [] = leafHash K data := by
    rw [List.getD_eq_getElem?_getD, placed.stored]
    rfl
  have count : (T.log.tree.leaves.take (i + 1)).length = i + 1 := List.length_take_of_le size
  rw [madeReceipt, index, natural, rootAt_nat size, ok_bind] at made
  simp only [Int.toNat_natCast, leaf, ← key] at made
  rw [IssuedAt, receiptFor, unsigned]
  simp only [MerkleTree.size, count]
  exact made

/-- An entry handed out is the one in its place, with its receipt. -/
theorem auditEntry_shown {T : Keeper} (replays : Replays K T) {i : Nat} {e : LogEntry} {v : Value}
    (found : T.log.entries[i]? = some e) (made : auditEntry K T e = .ok v) :
    Shown K T i (canon v) := by
  obtain ⟨row, listed, -⟩ := forall₂_get replays.held.flip found
  obtain ⟨e', data, placed⟩ := placed_row replays listed
  have same := placed.entry
  rw [found] at same
  obtain rfl := Option.some.inj same
  rw [auditEntry, entry_index replays found, find_seq replays listed] at made
  cases stored : row.record.receipt with
  | some receipt =>
    simp only [stored] at made
    obtain rfl := Except.ok.inj made
    have later : i ≠ 0 := by
      intro first
      have none_ := (replays.receipts row (List.mem_of_getElem? listed)).mpr
        (placed.seq.trans first)
      rw [stored] at none_
      cases none_
    obtain ⟨rc, issued, held⟩ := row_receipt replays placed later
    rw [stored] at held
    obtain rfl := Option.some.inj held
    refine ⟨row, e, data, rc, placed, issued, ?_⟩
    rw [canon_entryValue, canon_entryValue,
      canon_canon _ (whole_keyed (receiptFor_whole issued).1)]
  | none =>
    simp only [stored] at made
    obtain ⟨rc, receipt, made⟩ := bind_ok.mp made
    obtain rfl := Except.ok.inj made
    exact ⟨row, e, data, rc, placed, madeReceipt_issued replays placed receipt, rfl⟩

/-- A page shows the entries from its start on. -/
theorem auditEntries_shown {T : Keeper} (replays : Replays K T) {start stop : Nat}
    {listed : List Value} (made : auditEntries K T start stop = .ok listed) {j : Nat} {v : Value}
    (found : listed[j]? = some v) : Shown K T (start + j) (canon v) := by
  have inside : j < ((T.log.entries.take stop).drop start).length := by
    rw [← mapM_ok_length made]
    exact (List.getElem?_eq_some_iff.mp found).1
  obtain ⟨e, here⟩ : ∃ e, ((T.log.entries.take stop).drop start)[j]? = some e :=
    ⟨_, List.getElem?_eq_getElem inside⟩
  obtain ⟨v', listed', one⟩ := mapM_ok_get made here
  rw [found] at listed'
  obtain rfl := Option.some.inj listed'
  rw [List.getElem?_drop, List.getElem?_take] at here
  split at here
  next => exact auditEntry_shown replays here one
  next => cases here

/-- A later state of the same process or of one after it. -/
structure Later (T next : Keeper) : Prop where
  config : next.config = T.config
  key : next.key = T.key
  rows : T.rows <+: next.rows

/-- Statements that agree up to order have one leaf. -/
theorem leaf_of_canon {s t : SignedStatement} {b c : Bytes} (left : s.leafBytes = .ok b)
    (right : t.leafBytes = .ok c) (same : canon s.toDict = canon t.toDict) : b = c := by
  obtain ⟨u, -, made⟩ := bind_ok.mp left
  obtain ⟨v, -, made'⟩ := bind_ok.mp right
  rw [same] at made
  exact Except.ok.inj (made.symm.trans made')

/-- The same rows up to an index show the same entry there. -/
theorem shown_same {T T' : Keeper} (replays : Replays K T) (replays' : Replays K T')
    (config : T'.config = T.config) (key : T'.key = T.key) {i : Nat}
    (rows : ∀ j ≤ i, T'.rows[j]? = T.rows[j]?) {v : Value} (shown : Shown K T' i v) :
    Shown K T i v := by
  obtain ⟨row, e', data', rc, placed', issued, rfl⟩ := shown
  obtain ⟨fresh, opened, policy, -⟩ := replays_key replays
  obtain ⟨fresh', opened', policy', -⟩ := replays_key replays'
  rw [config, key, opened] at opened'
  obtain rfl := Except.ok.inj opened'
  have at_ : ∀ {j : Nat} {r : Row} {f' : LogEntry} {d : Bytes}, j ≤ i →
      Placed K T' j r f' d → ∃ f, Placed K T j r f d ∧
        f.registeredAt = f'.registeredAt ∧ canon f.statement.toDict =
          canon f'.statement.toDict := by
    intro j r f' d inside there
    have listed := there.listed
    rw [rows j inside] at listed
    obtain ⟨f, d', here⟩ := placed_row replays listed
    have statement := here.holds.statement.symm.trans there.holds.statement
    have same := leaf_of_canon here.leaf there.leaf statement
    subst same
    exact ⟨f, here, here.holds.registeredAt.symm.trans there.holds.registeredAt, statement⟩
  obtain ⟨e, placed, time, statement⟩ := at_ (le_refl i) placed'
  have leaves : T'.log.tree.leaves.take (i + 1) = T.log.tree.leaves.take (i + 1) := by
    apply List.ext_getElem?
    intro j
    rw [List.getElem?_take, List.getElem?_take]
    split
    next below =>
      have inside : j < T'.rows.length := by
        have bound := (List.getElem?_eq_some_iff.mp placed'.listed).1
        omega
      obtain ⟨f', d, there⟩ := placed_row replays' (List.getElem?_eq_getElem inside)
      obtain ⟨f, here, -, -⟩ := at_ (by omega) there
      rw [there.stored, here.stored]
    next => rfl
  refine ⟨row, e, data', rc, placed, ?_, ?_⟩
  · rw [IssuedAt, policy, ← policy', ← leaves, time]
    exact issued
  · rw [canon_entryValue, canon_entryValue, statement, time,
      entry_index replays placed.entry, entry_index replays' placed'.entry]

/-- Rows that were there stay the first ones. -/
theorem later_rows {T next : Keeper} (later : Later T next) {i : Nat} (inside : i < T.rows.length) :
    ∀ j ≤ i, next.rows[j]? = T.rows[j]? := by
  intro j below
  obtain ⟨rest, whole⟩ := later.rows
  rw [← whole, List.getElem?_append_left (by omega)]

/-- One event extends the log. -/
theorem step_later (bracketed : Bracketed K) {T next : Keeper} (replays : Replays K T) {ev : Event}
    (stepped : step K T ev = .ok next) : Replays K next ∧ Later T next := by
  obtain ⟨next', stepped', kept, rows⟩ := step_replays bracketed replays ev
  rw [stepped] at stepped'
  obtain rfl := Except.ok.inj stepped'
  cases ev with
  | register stmt now failure =>
    have outcome := register_outcome bracketed replays stmt now failure
    obtain rfl := Except.ok.inj stepped
    generalize T.register K stmt now failure = out at outcome kept rows
    cases outcome with
    | again => exact ⟨kept, rfl, rfl, rows⟩
    | raised => exact ⟨kept, rfl, rfl, rows⟩
    | appended => exact ⟨kept, rfl, rfl, rows⟩
  | restart failure =>
    obtain ⟨last, restarted, -, -⟩ := restart_ok replays failure
    rw [step, restarted] at stepped
    obtain rfl := Except.ok.inj stepped
    exact ⟨kept, rfl, rfl, rows⟩

theorem Later.trans {a b c : Keeper} (first : Later a b) (second : Later b c) : Later a c :=
  ⟨second.config.trans first.config, second.key.trans first.key, first.rows.trans second.rows⟩

/-- A run extends the log. -/
theorem run_later (bracketed : Bracketed K) {T last : Keeper} (replays : Replays K T)
    {events : List Event} (done : run K T events = .ok last) : Replays K last ∧ Later T last := by
  induction events generalizing T with
  | nil =>
    obtain rfl := Except.ok.inj done
    exact ⟨replays, rfl, rfl, List.prefix_refl _⟩
  | cons ev rest ih =>
    rw [run, List.foldlM_cons] at done
    obtain ⟨next, stepped, done⟩ := bind_ok.mp done
    obtain ⟨kept, later⟩ := step_later bracketed replays stepped
    obtain ⟨kept', later'⟩ := ih kept done
    exact ⟨kept', later.trans later'⟩

/-- The states of an honest third party at the calls of one export: it starts from a journal, and
anything is registered between two calls. -/
structure History (K : Primitives) (T : Nat → Keeper) : Prop where
  started : ∃ config seed failure S events, Keeper.start K config seed failure = .ok S ∧
    run K S events = .ok (T 0)
  goesOn : ∀ n, ∃ events, run K (T n) events = .ok (T (n + 1))

/-- Every keeper of a history extends the first. -/
theorem history_later (bracketed : Bracketed K) {T : Nat → Keeper} (history : History K T)
    (n : Nat) : Replays K (T n) ∧ Later (T 0) (T n) := by
  induction n with
  | zero =>
    obtain ⟨config, seed, failure, S, events, started, done⟩ := history.started
    exact ⟨(run_later bracketed (start_replays started) done).1, rfl, rfl, List.prefix_refl _⟩
  | succ n ih =>
    obtain ⟨events, done⟩ := history.goesOn n
    obtain ⟨replays, later⟩ := run_later bracketed ih.1 done
    exact ⟨replays, ih.2.trans later⟩

/-- Every call sees the same entries below the size of the first. -/
theorem history_shown (bracketed : Bracketed K) {T : Nat → Keeper} (history : History K T)
    {n i : Nat} (inside : i < (T 0).rows.length) (v : Value) :
    Shown K (T n) i v ↔ Shown K (T 0) i v := by
  obtain ⟨replays, -⟩ := history_later bracketed history 0
  obtain ⟨replays', later⟩ := history_later bracketed history n
  have rows := later_rows later inside
  constructor
  · exact shown_same replays replays' later.config later.key rows
  · exact shown_same replays' replays later.config.symm later.key.symm
      fun j below => (rows j below).symm

theorem sent_ok {v w : Value} (done : sent v = .ok w) : w = canon v := by
  obtain ⟨b, -, done⟩ := bind_ok.mp done
  exact (Except.ok.inj done).symm

/-- The entries of one page continue those that were read. -/
theorem page_shown (bracketed : Bracketed K) {T : Nat → Keeper} (history : History K T) {now : Int}
    {lost : Nat → Option PyErr} {n read size : Nat} {head page : Value} {values : List Value}
    (answered : (reached K T now lost).auditPage n (pageRequest head read) = .ok page)
    (taken : readPage page read size = .ok values) {j : Nat} {v : Value}
    (found : values[j]? = some v) : Shown K (T (n + 1)) (read + j) v := by
  simp only [reached] at answered
  split at answered
  next => cases answered
  next =>
    obtain ⟨p, asked, rest⟩ := bind_ok.mp answered
    obtain ⟨q, made, travelled⟩ := bind_ok.mp rest
    obtain rfl := sent_ok asked
    obtain rfl := sent_ok travelled
    obtain ⟨start, stop, listed, shown, begin_, -, -, list_, front, -, rfl⟩ :=
      (auditPage_ok made).cut
    obtain ⟨given, item_, iterated, -, -⟩ := readPage_ok taken
    have first : (pageRequest head read).item "start" = .ok (.int read) := rfl
    have number_ : canon (.int read) = .int read := by simp [canon]
    rw [item_canon first, number_] at begin_
    have same : start = read := by
      have equal := Value.int.inj (Except.ok.inj begin_)
      omega
    subst same
    have entries : Value.item (.dict (fields [("entries", .list shown),
        ("next", .int (start + shown.length))])) "entries" = .ok (.list shown) := rfl
    rw [item_canon entries] at item_
    obtain rfl := Except.ok.inj item_
    rw [canon] at iterated
    obtain rfl := Except.ok.inj iterated
    rw [canonList_map, List.getElem?_map] at found
    obtain ⟨w, here, rfl⟩ := Option.map_eq_some_iff.mp found
    obtain ⟨rest, whole⟩ := front
    have inside : j < shown.length := (List.getElem?_eq_some_iff.mp here).1
    refine auditEntries_shown (history_later bracketed history (n + 1)).1 list_ ?_
    rw [← whole, List.getElem?_append_left inside, here]

/-- The pages under a head are the entries of the state it was made in. -/
theorem fetchPages_shown (bracketed : Bracketed K) {T : Nat → Keeper} (history : History K T)
    {now : Int} {lost : Nat → Option PyErr} {head : Value} {size : Nat}
    (sized : size = (T 0).rows.length) {fuel n total : Nat} {entries export_ : List Value}
    (short : entries.length ≤ size)
    (shown : ∀ j v, entries[j]? = some v → Shown K (T 0) j v)
    (fetched : fetchPages (reached K T now lost) head size fuel n total entries =
      some (.ok export_)) :
    export_.length = size ∧ ∀ j v, export_[j]? = some v → Shown K (T 0) j v := by
  induction fuel generalizing n total entries with
  | zero =>
    rw [fetchPages] at fetched
    split at fetched
    next long =>
      obtain rfl := Except.ok.inj (Option.some.inj fetched)
      exact ⟨by omega, shown⟩
    next => cases fetched
  | succ fuel ih =>
    rw [fetchPages] at fetched
    split at fetched
    next long =>
      obtain rfl := Except.ok.inj (Option.some.inj fetched)
      exact ⟨by omega, shown⟩
    next =>
      simp only at fetched
      split at fetched
      next => cases Option.some.inj fetched
      next values total' done =>
        obtain ⟨page, answered, done⟩ := bind_ok.mp done
        obtain ⟨read, taken, done⟩ := bind_ok.mp done
        obtain ⟨text, -, done⟩ := bind_ok.mp done
        split at done
        next => cases done
        next =>
          obtain ⟨rfl, -⟩ := Prod.mk.inj (Except.ok.inj done)
          obtain ⟨-, -, -, -, fits⟩ := readPage_ok taken
          refine ih (by rw [List.length_append]; exact fits) ?_ fetched
          intro j v found
          rcases Nat.lt_or_ge j entries.length with before | after
          · rw [List.getElem?_append_left before] at found
            exact shown j v found
          · rw [List.getElem?_append_right after] at found
            have here := page_shown bracketed history answered taken found
            have inside := (List.getElem?_eq_some_iff.mp found).1
            rw [show entries.length + (j - entries.length) = j by omega] at here
            exact (history_shown bracketed history (by omega) v).mp here

/-- The head that an auditor was shown, and what its metadata pins. -/
structure HeadShown (K : Primitives) (T : Keeper) (trust : Trust) (export_ head : Dict) : Prop where
  pinned : ∀ x ∈ pinnedMetadata trust, getOr export_ x.1 = .str x.2
  found : getItem export_ "head" = .ok (.dict head)
  verified : verifyHead K trust (.dict head) = .ok ()
  size : getOr head "tree_size" = .int T.log.tree.size
  root : getOr head "root_hash" = .str (hex (T.log.tree.root K))
  logId : trust.logId = T.log.policy.logId
  policyHash : trust.policyHash = T.log.policy.policyHash
  publicKey : (trust.identities .T).publicKey = T.key.publicHex K
  kid : (trust.identities .T).kid = T.key.kid

/-- The head that was fetched is the log's at that moment. -/
theorem fetchHead_ok {T : Nat → Keeper} {now : Int} {lost : Nat → Option PyErr} {trust : Trust}
    {export_ : Dict} {shown : Value} {size : Nat}
    (fetched : fetchHead K (reached K T now lost) trust = .ok (export_, shown, size)) :
    ∃ head, shown = .dict head ∧ size = (T 0).log.tree.size ∧
      HeadShown K (T 0) trust export_ head := by
  obtain ⟨v, answered, fetched⟩ := bind_ok.mp fetched
  obtain ⟨d, read, fetched⟩ := bind_ok.mp fetched
  simp only [reached] at answered
  split at answered
  next => cases answered
  next =>
    obtain ⟨w, made, travelled⟩ := bind_ok.mp answered
    obtain rfl := sent_ok travelled
    obtain ⟨head, signed, made⟩ := bind_ok.mp made
    obtain ⟨message, -, headIs⟩ := treeHead_ok signed
    obtain rfl := Except.ok.inj made
    generalize stated : fields [("log_id", .str (T 0).log.policy.logId),
      ("ts_kid", .str (T 0).key.kid), ("ts_public_key", .str ((T 0).key.publicHex K)),
      ("ts_iss", (T 0).log.policy.tsIss), ("policy_hash", .str (T 0).log.policy.policyHash),
      ("trust_keys_version", .str (T 0).log.policy.trustKeysVersion),
      ("receipt_profile", .int 1), ("head", .dict head)] = metadata at read
    rw [canon_dict] at read
    obtain rfl := Except.ok.inj read
    split at fetched
    next => cases fetched
    next agreed =>
      obtain ⟨shown', found, fetched⟩ := bind_ok.mp fetched
      obtain ⟨u, verified, fetched⟩ := bind_ok.mp fetched
      obtain ⟨n, sized, fetched⟩ := bind_ok.mp fetched
      have given : getItem (canonPayload metadata) "head" = .ok (canon (.dict head)) := by
        rw [← stated]
        exact getItem_canonPayload rfl
      rw [given, canon_dict] at found
      obtain rfl := Except.ok.inj found
      have pinned : ∀ x ∈ pinnedMetadata trust,
          getOr (canonPayload metadata) x.1 = .str x.2 := by
        intro x member
        by_contra other
        refine agreed (List.any_eq_true.mpr ⟨x, member, ?_⟩)
        rw [Bool.not_eq_true', Bool.eq_false_iff]
        exact fun same => other ((eq_str_right _ _).mp same)
      have rootIs : getOr (canonPayload head) "root_hash" =
          .str (hex ((T 0).log.tree.root K)) := by
        rw [getOr_canonPayload, headIs]
        simp [getOr, fields, find]
      have sizeIs : getOr (canonPayload head) "tree_size" = .int (T 0).log.tree.size := by
        rw [getOr_canonPayload, headIs]
        simp [getOr, fields, find, canon]
      have tree : Value.item (.dict (canonPayload head)) "tree_size" =
          .ok (.int (T 0).log.tree.size) := by
        have inside : hasKey (canonPayload head) "tree_size" = true := by
          rw [hasKey_canonPayload, headIs]
          simp [hasKey, fields, find]
        rw [hasKey_item inside, sizeIs]
      rw [tree] at sized
      obtain rfl := Except.ok.inj sized
      obtain ⟨rfl, rest⟩ := Prod.mk.inj (Except.ok.inj fetched)
      obtain ⟨rfl, rfl⟩ := Prod.mk.inj rest
      have text : ∀ x ∈ pinnedMetadata trust, canon (getOr metadata x.1) = .str x.2 := by
        intro x member
        rw [← getOr_canonPayload, pinned x member]
      have logId := text ("log_id", trust.logId) (by simp [pinnedMetadata])
      have policyHash := text ("policy_hash", trust.policyHash) (by simp [pinnedMetadata])
      have publicKey := text ("ts_public_key", (trust.identities .T).publicKey)
        (by simp [pinnedMetadata])
      have kid := text ("ts_kid", (trust.identities .T).kid) (by simp [pinnedMetadata])
      simp [← stated, getOr, fields, find] at logId policyHash publicKey kid
      exact ⟨_, rfl, by omega, pinned, given.trans (by rw [canon_dict]), verified, sizeIs, rootIs,
        logId.symm, policyHash.symm, publicKey.symm, kid.symm⟩

/-- The fields of an issued receipt. -/
theorem issuedAt_fields {log : Log} {i : Nat} {data : Bytes} {at_ : Int}
    {rc : RegistrationReceipt} (issued : IssuedAt K log i data at_ rc)
    (inside : i + 1 ≤ log.tree.leaves.length) :
    rc.logId = .str log.policy.logId ∧ rc.tsKid = .str log.policy.key.kid ∧
    rc.leafIndex = .int i ∧ rc.treeSize = .int ((i : Int) + 1) ∧ rc.registeredAt = .int at_ ∧
    rc.rootHash = .str (hex (mth K (log.tree.leaves.take (i + 1)))) := by
  obtain ⟨message, -, signed⟩ := receiptFor_ok (K := K) log.policy
    { leaves := log.tree.leaves.take (i + 1) } i (leafHash K data) at_
  rw [IssuedAt, signed] at issued
  obtain rfl := Except.ok.inj issued
  have count : (log.tree.leaves.take (i + 1)).length = i + 1 := List.length_take_of_le inside
  refine ⟨rfl, rfl, rfl, ?_, rfl, rfl⟩
  simp only [unsigned, MerkleTree.size, count]
  norm_cast

theorem eq_int_self (n : Int) : Value.eq (.int n) (.int n) = true := by
  simp [Value.eq, Value.scalarEq]

/-- The entry at an index passes, with the tree grown up to it. -/
theorem receiptFits_shown {T : Keeper} (replays : Replays K T)
    (signs : ∀ message, T.key.sign K message ≠ []) {trust : Trust}
    {export_ head : Dict} (shownHead : HeadShown K T trust export_ head) {i : Nat} {row : Row}
    {e : LogEntry} {data : Bytes} {rc : RegistrationReceipt} (placed : Placed K T i row e data)
    (issued : IssuedAt K T.log i data e.registeredAt rc) :
    receiptFits K trust i (canon (entryValue e rc.toDict)) (reread e.statement)
      { leaves := T.log.tree.leaves.take (i + 1) } = .ok true := by
  obtain ⟨-, -, -, key⟩ := replays_key replays
  obtain ⟨inside, here⟩ := List.getElem?_eq_some_iff.mp placed.stored
  obtain ⟨logId, tsKid, leafIndex, treeSize, registeredAt, rootHash⟩ :=
    issuedAt_fields issued (by omega)
  have receipt : (entryValue e rc.toDict).item "receipt" = .ok rc.toDict := rfl
  have time : (entryValue e rc.toDict).item "registered_at" = .ok (.int e.registeredAt) := rfl
  have number_ : canon (.int e.registeredAt) = .int e.registeredAt := by simp [canon]
  have verified : verifyReceipt K rc (reread e.statement) (T.key.publicKey K) =
      .ok (true, "ok") := by
    rw [verifyReceipt_leaf (leafBytes_reread placed.leaf) placed.leaf, ← key]
    have grown : ({ leaves := T.log.tree.leaves.take (i + 1) } : MerkleTree) =
        MerkleTree.append K { leaves := T.log.tree.leaves.take i } data := by
      rw [MerkleTree.append, List.take_add_one, placed.stored]
      rfl
    have size : ({ leaves := T.log.tree.leaves.take i } : MerkleTree).size = i :=
      List.length_take_of_le (Nat.le_of_lt inside)
    refine @receiptFor_verified K T.log.policy { leaves := T.log.tree.leaves.take i } e.statement
      data e.registeredAt rc (by rw [key]; exact signs) placed.leaf ?_
    rw [size, ← grown]
    exact issued
  rw [receiptFits, item_canon receipt, ok_bind, whole_read (receiptFor_whole issued).1, ok_bind,
    shownHead.publicKey, fromHexValue, KeyPair.publicHex, fromHex_hex]
  simp only [ok_bind]
  rw [verified, ok_bind]
  simp only [logId, shownHead.logId, tsKid, key, shownHead.kid, leafIndex, treeSize, eq_int_self,
    eq_str_str, beq_self_eq_true, Bool.and_true, Bool.not_true, Bool.false_eq_true, if_false]
  rw [item_canon time, ok_bind, number_, registeredAt, eq_int_self, rootHash]
  simp [MerkleTree.root]

/-- The loop over the entries finds nothing. -/
theorem checkEntries_shown {T : Keeper} (replays : Replays K T)
    (signs : ∀ message, T.key.sign K message ≠ []) {trust : Trust}
    {export_ head : Dict} (shownHead : HeadShown K T trust export_ head) {rest : List Value}
    {i : Nat} (shown : ∀ j v, rest[j]? = some v → Shown K T (i + j) v)
    (whole : i + rest.length = T.log.tree.leaves.length) :
    checkEntries K trust i { leaves := T.log.tree.leaves.take i } rest =
      .ok (T.log.tree, []) := by
  induction rest generalizing i with
  | nil =>
    rw [List.length_nil, Nat.add_zero] at whole
    rw [checkEntries, whole, List.take_length]
  | cons v rest ih =>
    obtain ⟨row, e, data, rc, placed, issued, rfl⟩ := shown 0 v rfl
    rw [Nat.add_zero] at placed issued
    have statement : (entryValue e rc.toDict).item "statement" = .ok e.statement.toDict := rfl
    have index : (entryValue e rc.toDict).item "index" = .ok (.int e.index) := rfl
    have number_ : canon (.int e.index) = .int i := by
      rw [entry_index replays placed.entry]
      simp [canon]
    have grown : MerkleTree.append K { leaves := T.log.tree.leaves.take i } data =
        { leaves := T.log.tree.leaves.take (i + 1) } := by
      rw [MerkleTree.append, List.take_add_one, placed.stored]
      rfl
    have later := ih (i := i + 1) (by
      intro j v found
      have here := shown (j + 1) v found
      rw [show i + (j + 1) = i + 1 + j by omega] at here
      exact here) (by
      rw [List.length_cons] at whole
      omega)
    rw [checkEntries, item_canon statement, ok_bind, fromDict_canon, ok_bind,
      leafBytes_reread placed.leaf, ok_bind, grown, item_canon index, ok_bind, number_,
      eq_int_self]
    simp only [Bool.not_true, Bool.false_eq_true, if_false]
    rw [receiptFits_shown replays signs shownHead placed issued]
    simp only [receiptFails, ok_bind, Bool.not_true, later]
    rfl

/-- The first entry shown is the policy the trust pins. -/
theorem checkFirst_shown {T : Keeper} (replays : Replays K T) {trust : Trust}
    {export_ head : Dict} (shownHead : HeadShown K T trust export_ head) {v : Value}
    {rest : List Value} (shown : Shown K T 0 v) : checkFirst K trust (v :: rest) = .ok () := by
  obtain ⟨row, e, data, rc, placed, -, rfl⟩ := shown
  obtain ⟨fresh, opened, policy, -⟩ := replays_key replays
  obtain ⟨first, at_, isPolicy⟩ := replays.kept.opened
  have same : e = first := by
    have here := placed.entry
    rw [← List.head?_eq_getElem?, at_] at here
    exact (Option.some.inj here).symm
  obtain ⟨issued, hashed⟩ := opened_policy opened
  obtain ⟨message, -, made⟩ := issue_ok issued
  have statement : (entryValue e rc.toDict).item "statement" = .ok e.statement.toDict := rfl
  subst same
  rw [isPolicy, policy] at statement
  have type : (reread fresh.policy.policyStatement).contentType = .str ctPolicy := by
    rw [reread, made]
    simp [draft]
  rw [checkFirst]
  simp only [List.head?_cons]
  rw [item_canon statement, ok_bind, fromDict_canon, ok_bind, type]
  simp only [eq_str_str, beq_self_eq_true, Bool.not_true, Bool.false_eq_true, if_false]
  rw [statementHash_reread hashed, ok_bind, shownHead.policyHash, policy]
  simp

theorem fieldsAre_texts {export_ : Value} {xs : List (String × String)}
    (each : ∀ x ∈ xs, export_.item x.1 = .ok (.str x.2)) : fieldsAre export_ xs = .ok true := by
  induction xs with
  | nil => rfl
  | cons x xs ih =>
    have rest := ih fun y later => each y (List.mem_cons_of_mem _ later)
    obtain ⟨k, v⟩ := x
    rw [fieldsAre, each (k, v) List.mem_cons_self, ok_bind, eq_str_str]
    simpa using rest

theorem getOr_item {d : Dict} {k t : String} (found : getOr d k = .str t) :
    find d (.str k) = some (.str t) := by
  rw [getOr] at found
  cases here : find d (.str k) with
  | none => simp [here] at found
  | some v =>
    rw [here] at found
    exact congrArg some found

/-- The export that was put together passes the structural check. -/
theorem checkStructure_shown {T : Keeper} (replays : Replays K T)
    (signs : ∀ message, T.key.sign K message ≠ []) {A : Config} {trust : Trust}
    (pinned : trustFromConfig K A = .ok trust) {export_ head : Dict}
    (shownHead : HeadShown K T trust export_ head) {entries : List Value}
    (whole : entries.length = T.log.tree.size)
    (shown : ∀ j v, entries[j]? = some v → Shown K T j v) :
    ∃ s, checkStructure K trust
        (.dict (PyValue.insert export_ (.str "entries") (.list entries))) = .ok s ∧
      s.receiptErrors = [] ∧ s.entries = entries ∧ s.head = head ∧ s.tree = T.log.tree := by
  obtain ⟨hash, -, made⟩ := bind_ok.mp pinned
  have profile : trust.checkerVersion = .str checkerVersion ∧ trust.receiptProfile = .int 1 := by
    rw [← Except.ok.inj made]
    exact ⟨rfl, rfl⟩
  have other : ∀ k, "entries" ≠ k →
      Value.item (.dict (PyValue.insert export_ (.str "entries") (.list entries))) k =
        getItem export_ k := by
    intro k different
    rw [Value.item, find_insert_str_ne _ different, getItem]
  have fields_ : fieldsAre (.dict (PyValue.insert export_ (.str "entries") (.list entries)))
      (pinnedFields trust) = .ok true := by
    refine fieldsAre_texts ?_
    intro x member
    have same : x ∈ pinnedMetadata trust := by
      simp only [pinnedFields, pinnedMetadata, List.mem_cons, List.not_mem_nil, or_false] at *
      tauto
    have different : "entries" ≠ x.1 := by
      simp only [pinnedFields, List.mem_cons, List.not_mem_nil, or_false] at member
      rcases member with rfl | rfl | rfl | rfl | rfl <;> simp
    rw [other x.1 different, getItem, getOr_item (shownHead.pinned x same)]
  have shownItem : Value.item (.dict (PyValue.insert export_ (.str "entries") (.list entries)))
      "head" = .ok (.dict head) := (other "head" (by decide)).trans shownHead.found
  have given : Value.item (.dict (PyValue.insert export_ (.str "entries") (.list entries)))
      "entries" = .ok (.list entries) := by
    rw [Value.item, find_insert_self _ (by simp)]
  have positive : T.log.tree.size ≠ 0 := by
    rw [← (rows_length replays).1]
    exact fun zero => rows_nonempty replays (List.length_eq_zero_iff.mp zero)
  cases entries with
  | nil => exact absurd whole.symm positive
  | cons v rest =>
    have loop : checkEntries K trust 0 {} (v :: rest) = .ok (T.log.tree, []) := by
      have done := @checkEntries_shown K T replays signs trust export_ head shownHead (v :: rest) 0
        (by simpa using shown) (by rw [Nat.zero_add]; exact whole)
      rw [List.take_zero] at done
      exact done
    have first : checkFirst K trust (v :: rest) = .ok () :=
      checkFirst_shown replays shownHead (shown 0 v rfl)
    refine ⟨{ head, entries := v :: rest, tree := T.log.tree, receiptErrors := [] }, ?_, rfl, rfl,
      rfl, rfl⟩
    rw [checkStructure, profile.1, profile.2]
    simp only [eq_str_str, beq_self_eq_true, eq_int_self, Bool.and_true, Bool.not_true,
      Bool.false_eq_true, if_false]
    rw [fields_, ok_bind]
    simp only [Bool.not_true, Bool.false_eq_true, if_false]
    rw [shownItem, ok_bind, shownHead.verified, ok_bind, dictOf, ok_bind, given, ok_bind]
    simp only [Value.truthy, List.isEmpty_cons, Bool.not_false, Bool.not_true, Bool.false_eq_true,
      if_false, Value.iterate, ok_bind]
    rw [shownHead.size, ← whole, eq_int_self]
    simp only [Bool.not_true, Bool.false_eq_true, if_false]
    rw [loop, ok_bind]
    simp only [first, ok_bind, pure_ok]

/-- What a fetched export is: the entries of the log under the head, and an export that passes. -/
structure Exported (K : Primitives) (T : Nat → Keeper) (trust : Trust) (export_ : Value)
    (entries : List Value) (s : Structure) : Prop where
  listed : export_.item "entries" = .ok (.list entries)
  length : entries.length = (T 0).log.entries.length
  each : ∀ n i, i < entries.length → ∃ e receipt, (T n).log.entries[i]? = some e ∧
    entries[i]? = some (canon (entryValue e receipt))
  checked : checkStructure K trust export_ = .ok s
  receiptErrors : s.receiptErrors = []
  same : s.entries = entries
  size : getOr s.head "tree_size" = .int entries.length
  root : getOr s.head "root_hash" = .str (hex (s.tree.root K))

/-- Whatever is registered between its calls, an export that is fetched is a snapshot, and the
fetching ends. -/
theorem export_is_snapshot (bracketed : Bracketed K) {T : Nat → Keeper} (history : History K T)
    (signs : ∀ message, (T 0).key.sign K message ≠ []) {A : Config} {trust : Trust}
    (pinned : trustFromConfig K A = .ok trust) (now : Int) (lost : Nat → Option PyErr) :
    (∃ outcome, fetchExport K (reached K T now lost) trust = some outcome) ∧
    (∀ n p page, auditPage K (T n) p = .ok page → ∃ values next, values ≠ [] ∧
      page = .dict (fields [("entries", .list values), ("next", next)])) ∧
    ∀ export_, fetchExport K (reached K T now lost) trust = some (.ok export_) →
      ∃ entries s, Exported K T trust export_ entries s := by
  refine ⟨fetchExport_ends _ _, ?_, ?_⟩
  · intro n p page answered
    obtain ⟨start, stop, listed, values, -, -, -, -, -, some_, rfl⟩ := (auditPage_ok answered).cut
    exact ⟨values, _, some_, rfl⟩
  · intro export_ fetched
    obtain ⟨replays, -⟩ := history_later bracketed history 0
    rw [fetchExport] at fetched
    split at fetched
    next => cases Option.some.inj fetched
    next base shown size headed =>
      obtain ⟨head, rfl, sized, shownHead⟩ := fetchHead_ok headed
      obtain ⟨outcome, ended, done⟩ := Option.map_eq_some_iff.mp fetched
      obtain ⟨entries, rfl, rfl⟩ := map_ok done
      have count : size = (T 0).rows.length := by rw [sized, (rows_length replays).1]
      obtain ⟨length, each⟩ := fetchPages_shown bracketed history count (by simp)
        (by simp) ended
      have whole : entries.length = (T 0).log.tree.size := by rw [length, sized]
      obtain ⟨s, checked, none_, same, headIs, tree⟩ :=
        checkStructure_shown replays signs pinned shownHead whole each
      refine ⟨entries, s, ⟨?_, ?_, ?_, checked, none_, same, ?_, ?_⟩⟩
      · rw [Value.item, find_insert_self _ (by simp)]
      · rw [whole, (rows_length replays).2]
      · intro n i inside
        have here := List.getElem?_eq_getElem inside
        have bound : i < (T 0).rows.length := by omega
        obtain ⟨row, e, data, rc, placed, -, value⟩ :=
          (history_shown bracketed history (n := n) bound _).mpr (each i _ here)
        exact ⟨e, rc.toDict, placed.entry, by rw [here, value]⟩
      · rw [headIs, shownHead.size, whole]
      · rw [headIs, shownHead.root, tree]

/-- Another contract is registered between the head and the first page. -/
def sampleHistory (first later : Keeper) : Nat → Keeper
  | 0 => first
  | _ => later

def sampleFetch : Py (Bytes × Nat × Nat) := do
  let S ← Keeper.start toy sampleConfig [4] none
  let first ← run toy S [.register sampleContract 10 none]
  let later ← run toy first
    [.register { sampleContract with sub := .str "urn:itx:req:2" } 20 none]
  let trust ← trustFromConfig toy sampleConfig
  match fetchExport toy (reached toy (sampleHistory first later) 30 fun _ => none) trust with
  | some (.ok export_) => do
    let entries ← (← export_.item "entries").iterate
    pure (first.key.seed, entries.length, later.log.entries.length)
  | _ => throw .recursionError

theorem sampleFetch_facts : sampleFetch = .ok ([4], 2, 3) := by
  decide +kernel

theorem export_is_snapshot_sample : ∃ T trust export_ entries s,
    fetchExport toy (reached toy T 30 fun _ => none) trust = some (.ok export_) ∧
    Exported toy T trust export_ entries s ∧ (T 1).log.entries.length = 3 := by
  obtain ⟨S, started, rest⟩ := bind_ok.mp sampleFetch_facts
  obtain ⟨first, registered, rest⟩ := bind_ok.mp rest
  obtain ⟨later, more, rest⟩ := bind_ok.mp rest
  obtain ⟨trust, pinned, rest⟩ := bind_ok.mp rest
  have history : History toy (sampleHistory first later) := by
    refine ⟨⟨_, _, _, S, _, started, registered⟩, ?_⟩
    intro n
    cases n with
    | zero => exact ⟨_, more⟩
    | succ n => exact ⟨[], rfl⟩
  split at rest
  next export_ fetched =>
    obtain ⟨given, -, rest⟩ := bind_ok.mp rest
    obtain ⟨listed, -, rest⟩ := bind_ok.mp rest
    have shown := Except.ok.inj rest
    have key : first.key.seed = [4] := congrArg Prod.fst shown
    obtain ⟨-, -, snapshot⟩ := export_is_snapshot bracketed_toy history
      (by simp [KeyPair.sign, toy, sampleHistory, key]) pinned 30 (fun _ => none)
    obtain ⟨entries, s, exported⟩ := snapshot export_ fetched
    exact ⟨_, trust, export_, entries, s, fetched, exported,
      congrArg (fun facts => facts.2.2) shown⟩
  next => cases rest

end Snapshot
