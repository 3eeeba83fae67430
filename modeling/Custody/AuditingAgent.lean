import Custody.ExportCheck

/-!
# The checkpoint of the auditing agent

The agent keeps the head of the last export it accepted and holds the next export
against it. Only the last one is kept, so that no earlier one is ever rewritten
is an induction over the audits.
-/

namespace AuditingAgent

open PyValue HexBytes CanonicalJson CanonicalForm Commitments Statements Engine Merkle
  MerkleProofs TransparencyLog HeldReceipts HeldMeaning ReplayAudit AppendOnly Identity Auditing
  ExportCheck

variable (K : Primitives)

/-- What the peers and the store answer during an audit. -/
structure Attempt where
  /-- What `fetch_export` returns. -/
  exported : Py Value
  /-- Reading the private evidence and collecting the held receipts. -/
  collected : Py Unit
  /-- What the replay finds besides the tree, the head and the checkpoints. -/
  rest : Py Findings
  storedCheckpoint : Py Unit
  storedReport : Py Unit

/-- The record that the kept checkpoint is checked as. -/
def anchorsOf : Option Value → Py (List Value)
  | none => .ok []
  | some old => do
    let size ← old.item "tree_size"
    let root ← old.item "root_hash"
    let time ← old.item "time"
    pure [.dict (fields [("tree_size", size), ("root_hash", root), ("anchored_at", time)])]

structure AuditOutcome where
  report : ExportReport
  export_ : Value
  head : Value

/-- `audit()` up to its first write. -/
def examine (tsa : Value → Except String Value) (config : Config) (checkpoint : Option Value)
    (a : Attempt) : Py AuditOutcome := do
  let export_ ← a.exported
  let head ← export_.item "head"
  let anchors ← anchorsOf checkpoint
  a.collected
  let trust ← trustFromConfig K config
  let report ← verifyExport K tsa trust export_ anchors a.rest
  pure { report, export_, head }

/-- `store.put`, which may fail. -/
def put (value : Value) (written : Py Unit) : Py Value := do
  let _ ← canonicalJson value
  written
  pure (canon value)

/-- The stored checkpoint, with the exports that one was stored for. -/
structure State where
  checkpoint : Option Value := none
  history : List (Value × Value) := []

/-- `audit()`, with the store as it is left when the call returns or raises. -/
def audit (tsa : Value → Except String Value) (config : Config) (s : State) (a : Attempt) :
    State × Py ExportReport :=
  match examine K tsa config s.checkpoint a with
  | .error e => (s, .error e)
  | .ok outcome =>
    if outcome.report.ok then
      match put outcome.head a.storedCheckpoint with
      | .error e => (s, .error e)
      | .ok kept =>
        ({ checkpoint := some kept, history := s.history ++ [(outcome.head, outcome.export_)] },
          a.storedReport.map fun _ => outcome.report)
    else (s, a.storedReport.map fun _ => outcome.report)

def run (tsa : Value → Except String Value) (config : Config) : State → List Attempt → State :=
  List.foldl fun s a => (audit K tsa config s a).1

def SizeIs (head : Value) (n : Nat) : Prop := head.item "tree_size" = .ok (.int n)

def RootIs (head : Value) (root : Bytes) : Prop := head.item "root_hash" = .ok (.str (hex root))

/-- The bytes that are hashed for the trees of the exports. -/
def historyInputs (history : List (Value × Value)) : List Bytes :=
  history.flatMap fun x => match exportLeaves K x.2 with
    | .ok leaves => prefixesInputs K leaves
    | .error _ => []

/-- The later checkpoint is of the export it came with, and the earlier one is of a prefix. -/
def Extends (inputs : List Bytes) (earlier later : Value × Value) : Prop :=
  ∃ (m n : Nat) (leaves : List Bytes), SizeIs earlier.1 m ∧ SizeIs later.1 n ∧ m ≤ n ∧
    exportLeaves K later.2 = .ok leaves ∧ leaves.length = n ∧ RootIs later.1 (mth K leaves) ∧
    (RootIs earlier.1 (mth K (leaves.take m)) ∨ Collision K inputs)

/-- No stored checkpoint is a fork or a rollback of an earlier one. -/
def NoRewrite (history : List (Value × Value)) : Prop :=
  history.Pairwise (Extends K (historyInputs K history))

/-- What a failed audit leaves: the stored checkpoint, unless it was the last write that failed. -/
def FailureKeeps (tsa : Value → Except String Value) (config : Config) (s : State) (a : Attempt) :
    Prop :=
  (∀ report, (audit K tsa config s a).2 = .ok report → report.ok = false →
    (audit K tsa config s a).1 = s) ∧
  ∀ e, (audit K tsa config s a).2 = .error e → (audit K tsa config s a).1 = s ∨
    a.storedReport = .error e ∧ ∃ outcome, examine K tsa config s.checkpoint a = .ok outcome ∧
      outcome.report.ok = true

variable {K}
variable {tsa : Value → Except String Value} {config : Config}

theorem audit_failure (s : State) (a : Attempt) : FailureKeeps K tsa config s a := by
  unfold FailureKeeps audit
  cases examined : examine K tsa config s.checkpoint a with
  | error e =>
    simp only
    exact ⟨fun _ _ _ => trivial, fun _ _ => .inl trivial⟩
  | ok outcome =>
    simp only
    by_cases said : outcome.report.ok = true
    · simp only [said, if_true]
      cases written : put outcome.head a.storedCheckpoint with
      | error e =>
        simp only
        exact ⟨fun _ _ _ => trivial, fun _ _ => .inl trivial⟩
      | ok kept =>
        simp only
        cases stored : a.storedReport with
        | error e' =>
          refine ⟨?_, ?_⟩
          · intro report bad
            cases bad
          · intro e raised
            obtain rfl := Except.error.inj raised
            exact .inr ⟨rfl, outcome, rfl, said⟩
        | ok u =>
          refine ⟨?_, ?_⟩
          · intro report answered refused
            obtain rfl := Except.ok.inj answered
            rw [said] at refused
            cases refused
          · intro e bad
            cases bad
    · simp only [said, Bool.false_eq_true, if_false]
      exact ⟨fun _ _ _ => trivial, fun _ _ => .inl trivial⟩

/-- What is stored together with the leaves it stands for. -/
structure Stands (K : Primitives) (x : Value × Value) (leaves : List Bytes) : Prop where
  read : exportLeaves K x.2 = .ok leaves
  size : SizeIs x.1 leaves.length
  root : RootIs x.1 (mth K leaves)
  time : ∃ t, x.1.item "time" = .ok t

structure Kept (K : Primitives) (s : State) : Prop where
  last : s.checkpoint = s.history.getLast?.map fun x => canon x.1
  each : ∀ x ∈ s.history, ∃ leaves, Stands K x leaves
  pairs : NoRewrite K s.history

theorem exportLeaves_sized {export_ : Value} {leaves : List Bytes}
    (read : exportLeaves K export_ = .ok leaves) : ∀ x ∈ leaves, Sized x := by
  obtain ⟨given, -, read⟩ := bind_ok.mp read
  obtain ⟨entries, -, read⟩ := bind_ok.mp read
  intro x member
  obtain ⟨entry, -, made⟩ := mem_mapM_ok read member
  obtain ⟨inner, -, made⟩ := bind_ok.mp made
  obtain ⟨stmt, -, made⟩ := bind_ok.mp made
  obtain ⟨data, -, made⟩ := bind_ok.mp made
  obtain rfl := Except.ok.inj made
  exact leafHash_sized data

theorem accepted_stands {trust : Trust} {export_ : Value} {anchors : List Value} {head : Dict}
    {leaves : List Bytes} (accepted : Accepted K tsa trust export_ anchors head leaves) :
    Stands K (.dict head, export_) leaves := by
  have field : ∀ k ∈ headKeys, (Value.dict head).item k = .ok (getOr head k) :=
    fun k member => hasKey_item (accepted.known.complete k member)
  refine ⟨accepted.read, ?_, ?_, ?_⟩
  · rw [SizeIs, field "tree_size" (by decide), accepted.known.size]
  · rw [RootIs, field "root_hash" (by decide), accepted.root]
  · exact ⟨_, field "time" (by decide)⟩

theorem historyInputs_mem {history : List (Value × Value)} {x : Value × Value}
    {leaves : List Bytes} (member : x ∈ history) (read : exportLeaves K x.2 = .ok leaves) :
    ∀ b ∈ prefixesInputs K leaves, b ∈ historyInputs K history := by
  intro b inside
  refine List.mem_flatMap.mpr ⟨x, member, ?_⟩
  rw [read]
  exact inside

theorem historyInputs_grow {history : List (Value × Value)} (x : Value × Value) :
    ∀ b ∈ historyInputs K history, b ∈ historyInputs K (history ++ [x]) := by
  intro b member
  rw [historyInputs, List.flatMap_append]
  exact List.mem_append_left _ member

theorem Extends.mono {inputs inputs' : List Bytes} {x y : Value × Value}
    (sub : ∀ b ∈ inputs, b ∈ inputs') (extends_ : Extends K inputs x y) :
    Extends K inputs' x y := by
  obtain ⟨m, n, leaves, size, size', order, read, length, root, result⟩ := extends_
  exact ⟨m, n, leaves, size, size', order, read, length, root,
    result.imp_right fun clash => clash.mono sub⟩

/-- The kept checkpoint has the root of the first leaves of an export that is accepted after it. -/
theorem anchored_root {trust : Trust} {export_ old : Value} {anchors : List Value} {head : Dict}
    {leaves before : List Bytes} {x : Value × Value}
    (accepted : Accepted K tsa trust export_ anchors head leaves) (stands : Stands K x before)
    (stored : old = canon x.1) (asked : anchorsOf (some old) = .ok anchors) :
    before.length ≤ leaves.length ∧ mth K before = mth K (leaves.take before.length) := by
  obtain ⟨t, time⟩ := stands.time
  have size : old.item "tree_size" = .ok (.int before.length) := by
    rw [stored, item_canon stands.size]
    rfl
  have root : old.item "root_hash" = .ok (.str (hex (mth K before))) := by
    rw [stored, item_canon stands.root]
    simp
  have at_ : old.item "time" = .ok (canon t) := by
    rw [stored, item_canon time]
  rw [anchorsOf, size, ok_bind, root, ok_bind, at_, ok_bind] at asked
  obtain rfl := Except.ok.inj asked
  obtain ⟨out, result, good⟩ := accepted.anchored _ List.mem_cons_self
  let rc : RegistrationReceipt :=
    { logId := .null, leafIndex := .null, treeSize := .int before.length,
      rootHash := .str (hex (mth K before)), leafHash := .null, registeredAt := canon t,
      tsKid := .null, inclusionProof := .null, signature := .null }
  have same : checkAnchor K tsa { leaves } (checkpointOf rc) = .ok out := result
  obtain ⟨n, sized, inside, equal⟩ := (checkAnchor_agrees same).mp good
  obtain rfl : before.length = n := by
    have := Option.some.inj sized
    omega
  exact ⟨inside, hex_injective (Value.str.inj equal)⟩

/-- A new accepted checkpoint extends every stored one. -/
theorem extends_new {trust : Trust} {anchors : List Value} {s : State} {export_ : Value}
    {head : Dict} {leaves : List Bytes} (kept : Kept K s)
    (accepted : Accepted K tsa trust export_ anchors head leaves)
    (asked : anchorsOf s.checkpoint = .ok anchors) :
    ∀ x ∈ s.history, Extends K (historyInputs K (s.history ++ [(.dict head, export_)])) x
      (.dict head, export_) := by
  intro x member
  have new := accepted_stands accepted
  have leaves_ := historyInputs_mem
    (List.mem_append_right s.history (List.mem_singleton_self (Value.dict head, export_))) new.read
  obtain ⟨front, last, split⟩ : ∃ front last, s.history = front ++ [last] := by
    rcases List.eq_nil_or_concat s.history with none_ | ⟨front, last, same⟩
    · rw [none_] at member
      cases member
    · exact ⟨front, last, by rw [same, List.concat_eq_append]⟩
  have inside : last ∈ s.history := by
    rw [split]
    exact List.mem_append_right _ List.mem_cons_self
  obtain ⟨before, stands⟩ := kept.each last inside
  have stored : s.checkpoint = some (canon last.1) := by
    rw [kept.last, split, List.getLast?_concat]
    rfl
  rw [stored] at asked
  obtain ⟨order, same⟩ := anchored_root accepted stands rfl asked
  have beforeInputs := historyInputs_mem (K := K)
    (List.mem_append_left [(Value.dict head, export_)] inside) stands.read
  have shorter : before.length = (leaves.take before.length).length := by
    rw [List.length_take]
    omega
  have sized := exportLeaves_sized new.read
  -- the leaves that the last checkpoint stands for are the first leaves of the new export
  have leavesAgree : before = leaves.take before.length ∨
      Collision K (historyInputs K (s.history ++ [(.dict head, export_)])) := by
    rcases mth_injective shorter (exportLeaves_sized stands.read)
      (fun y inside => sized y (List.mem_of_mem_take inside)) same with equal | clash
    · exact .inl equal
    · right
      refine clash.mono ?_
      intro b member
      rcases List.mem_append.mp member with first | second
      · exact beforeInputs b (treeInputs_prefixes before b first)
      · exact leaves_ b (prefixesInputs_take before.length b (treeInputs_prefixes _ b second))
  rw [split] at member
  rcases List.mem_append.mp member with earlier | here
  · have pairs := kept.pairs
    rw [NoRewrite, split] at pairs
    have between := (List.pairwise_append.mp pairs).2.2 x earlier last List.mem_cons_self
    rw [← split] at between
    obtain ⟨m, n, leaves', size, size', order', read, length, root, result⟩ := between
    obtain rfl := Except.ok.inj (stands.read.symm.trans read)
    refine ⟨m, leaves.length, leaves, size, new.size, by omega, new.read, rfl, new.root, ?_⟩
    rcases result with carried | clash
    · rcases leavesAgree with equal | clash
      · left
        rw [equal, List.take_take, Nat.min_eq_left (by omega)] at carried
        exact carried
      · exact .inr clash
    · exact .inr (clash.mono (historyInputs_grow _))
  · obtain rfl := List.mem_singleton.mp here
    refine ⟨before.length, leaves.length, leaves, stands.size, new.size, order, new.read, rfl,
      new.root, .inl ?_⟩
    rw [← same]
    exact stands.root

/-- One audit keeps the checkpoints in order. -/
theorem audit_kept {s : State} (kept : Kept K s) (a : Attempt) :
    Kept K (audit K tsa config s a).1 := by
  rw [audit]
  cases examined : examine K tsa config s.checkpoint a with
  | error e => exact kept
  | ok outcome =>
    simp only
    split
    next said =>
      cases written : put outcome.head a.storedCheckpoint with
      | error e => exact kept
      | ok stored =>
        obtain ⟨export_, given, examined⟩ := bind_ok.mp examined
        obtain ⟨shown, here, examined⟩ := bind_ok.mp examined
        obtain ⟨anchors, asked, examined⟩ := bind_ok.mp examined
        obtain ⟨u, -, examined⟩ := bind_ok.mp examined
        obtain ⟨trust, -, examined⟩ := bind_ok.mp examined
        obtain ⟨report, verified, examined⟩ := bind_ok.mp examined
        obtain rfl := Except.ok.inj examined
        obtain ⟨head, leaves, accepted⟩ := verifyExport_accepted verified said
        obtain rfl := Except.ok.inj (here.symm.trans accepted.shown)
        obtain ⟨b, -, written⟩ := bind_ok.mp written
        obtain ⟨u, -, written⟩ := bind_ok.mp written
        obtain rfl := Except.ok.inj written
        refine ⟨?_, ?_, ?_⟩
        · simp only [List.getLast?_concat]
          rfl
        · intro x member
          rcases List.mem_append.mp member with earlier | new
          · exact kept.each x earlier
          · rw [List.mem_singleton.mp new]
            exact ⟨leaves, accepted_stands accepted⟩
        · refine List.pairwise_append.mpr ⟨?_, List.pairwise_singleton _ _, ?_⟩
          · exact kept.pairs.imp fun extends_ => extends_.mono (historyInputs_grow _)
          · intro x member y new
            rw [List.mem_singleton.mp new]
            exact extends_new kept accepted asked x member
    next => exact kept

theorem run_kept {s : State} (kept : Kept K s) (attempts : List Attempt) :
    Kept K (run K tsa config s attempts) := by
  induction attempts generalizing s with
  | nil => exact kept
  | cons a attempts ih => exact ih (audit_kept kept a)

/-- Over any run of audits no stored checkpoint is a fork or a rollback of an earlier one, and a
failed audit keeps the stored one unless it was the report that could not be written. -/
theorem checkpoints_extend (tsa : Value → Except String Value) (config : Config)
    (attempts : List Attempt) : NoRewrite K (run K tsa config {} attempts).history ∧
      (run K tsa config {} attempts).checkpoint =
        (run K tsa config {} attempts).history.getLast?.map (fun x => canon x.1) ∧
      ∀ a, FailureKeeps K tsa config (run K tsa config {} attempts) a := by
  have start : Kept K {} := by
    refine ⟨rfl, ?_, List.Pairwise.nil⟩
    intro x none_
    cases none_
  have kept := @run_kept K tsa config {} start attempts
  exact ⟨kept.pairs, kept.last, audit_failure _⟩

/-- The export of a log that holds nothing but its policy. -/
def policyExport : Py Value := do
  let log ← openLog toy sampleConfig.logId { kid := "kid-t", seed := [4] } subPattern
    (policyFor sampleConfig) sampleConfig.createdAt
  let head ← log.treeHead toy 5
  let entries ← log.entries.mapM fun e => do
    let rc ← receiptFor toy log.policy log.tree 0 (leafHash toy (← e.statement.leafBytes))
      e.registeredAt
    pure (.dict (fields [("index", .int e.index), ("registered_at", .int e.registeredAt),
      ("statement", e.statement.toDict), ("receipt", rc.toDict)]))
  pure (.dict (fields [("log_id", .str sampleConfig.logId), ("ts_kid", .str "kid-t"),
    ("ts_public_key", .str (hex [4])), ("ts_iss", .str (issOf .T)),
    ("policy_hash", .str log.policy.policyHash), ("head", .dict head), ("entries", .list entries)]))

/-- Everything goes well up to the last write, which fails. -/
def lastWriteFails (export_ : Value) : Attempt :=
  { exported := .ok export_, collected := .ok (),
    rest := .ok { ok := true, comparedWithout := false }, storedCheckpoint := .ok (),
    storedReport := .error (.runtimeError "disk full") }

def checkpointAfter : Py Bool := do
  let export_ ← policyExport
  pure (audit toy (fun _ => .error "") sampleConfig {} (lastWriteFails export_)).1.checkpoint.isSome

theorem checkpointAfter_stored : checkpointAfter = .ok true := by
  decide +kernel

theorem failed_report_moves : ∃ export_, policyExport = .ok export_ ∧
    (∃ e, (audit toy (fun _ => .error "") sampleConfig {} (lastWriteFails export_)).2 = .error e) ∧
    (audit toy (fun _ => .error "") sampleConfig {} (lastWriteFails export_)).1.checkpoint ≠
      ({} : State).checkpoint := by
  obtain ⟨export_, made, after⟩ := bind_ok.mp checkpointAfter_stored
  have stored := Except.ok.inj after
  refine ⟨export_, made, ?_, ?_⟩
  · cases outcome : (audit toy (fun _ => .error "") sampleConfig {} (lastWriteFails export_)).2 with
    | error e => exact ⟨e, rfl⟩
    | ok report =>
      rw [audit] at outcome
      split at outcome
      next => cases outcome
      next =>
        split at outcome
        next =>
          split at outcome
          next => cases outcome
          next => cases outcome
        next => cases outcome
  · intro none_
    rw [none_] at stored
    cases stored

end AuditingAgent
