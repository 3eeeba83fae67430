import Custody.LogExport
import Custody.Omissions
import Custody.TreeProofs

/-!
# Checkpoints pin the past

A witness outside the log keeps the tree heads that it was shown. A record agrees with
a later tree exactly if the tree still starts with the leaves of that time. A size below
zero is the one size that the comparison does not survive.
-/

namespace Checkpoints

open PyValue HexBytes CanonicalJson Commitments Statements Engine Merkle TransparencyLog
  HeldReceipts LogInvariant MerkleProofs HeldMeaning AppendOnly Omissions LogExport TreeProofs
  ReplayAudit RegisteredEvidence BlockedJudgment

variable {K : Primitives}

/-- A record with an integer size, a root of 32 bytes in hexadecimal and a time. -/
def Checkpoint (record : Value) (n : Int) : Prop :=
  ∃ d size rootHash anchoredAt root, record = .dict d ∧
    Recorded record size rootHash anchoredAt ∧ number size = some n ∧
    fromHexValue rootHash = .ok root ∧ root.length = 32

/-- One result for each record, and none of a size outside the tree passes. -/
def Answered (tree : MerkleTree) (sizes : List Int) (results : List AnchorResult) : Prop :=
  List.Forall₂ (fun n out => n < 0 ∨ (tree.size : Int) < n → out.ok = false) sizes results

theorem confirmToken_returns (tsa : Value → Except String Value) (d : Dict) (out : AnchorResult) :
    Returns (confirmToken tsa (.dict d) out) := by
  have token : isIn (.str "tsr_file") (.dict d) = .ok (find d (.str "tsr_file")).isSome := rfl
  have witness : (Value.dict d).get "witness" .null =
      .ok ((find d (.str "witness")).getD .null) := rfl
  rw [confirmToken, witness, ok_bind, token, ok_bind]
  split
  next =>
    cases tsa (.dict d) with
    | ok time => exact ⟨_, rfl⟩
    | error reason => exact ⟨_, rfl⟩
  next => exact ⟨_, rfl⟩

theorem checkAnchor_returns_iff (tsa : Value → Except String Value) {tree : MerkleTree}
    {record : Value} {n : Int} (checkpoint : Checkpoint record n) :
    Returns (checkAnchor K tsa tree record) ↔ 0 ≤ n := by
  obtain ⟨d, size, rootHash, anchoredAt, root, rfl, recorded, numbered, read, -⟩ := checkpoint
  constructor
  · rintro ⟨out, checked⟩
    by_contra below
    have negative : n < 0 := by omega
    rw [checkAnchor_within recorded numbered (by omega)] at checked
    obtain ⟨found, compared, -⟩ := bind_ok.mp checked
    exact compareAnchor_negative numbered negative ⟨found, compared⟩
  · intro natural
    by_cases long : (tree.size : Int) < n
    · exact ⟨_, checkAnchor_beyond recorded numbered long⟩
    · obtain ⟨m, rfl⟩ : ∃ m : Nat, n = (m : Int) := ⟨n.toNat, by omega⟩
      obtain ⟨out, compared, -⟩ := @compareAnchor_nat K tree _ _ anchoredAt _ _ numbered
        (by omega) read
      rw [checkAnchor_within recorded numbered (by omega), compared, ok_bind]
      exact confirmToken_returns tsa d out

theorem checkAnchor_outside {tsa : Value → Except String Value} {tree : MerkleTree}
    {record : Value} {n : Int} {out : AnchorResult} (checkpoint : Checkpoint record n)
    (natural : 0 ≤ n) (checked : checkAnchor K tsa tree record = .ok out)
    (outside : n < 0 ∨ (tree.size : Int) < n) : out.ok = false := by
  obtain ⟨d, size, rootHash, anchoredAt, root, rfl, recorded, numbered, -, -⟩ := checkpoint
  rw [checkAnchor_beyond recorded numbered (by omega)] at checked
  obtain rfl := Except.ok.inj checked
  rfl

/-- Checkpoints are all answered exactly if none has a negative size. -/
theorem verify_tree_ends_iff (tsa : Value → Except String Value) (tree : MerkleTree)
    {records : List Value} {sizes : List Int}
    (checkpoints : List.Forall₂ Checkpoint records sizes) :
    (∃ results, verifyTree K tsa tree records = .ok results ∧ Answered tree sizes results) ↔
      ∀ n ∈ sizes, 0 ≤ n := by
  induction checkpoints with
  | nil =>
    constructor
    · intro _ n member
      cases member
    · intro _
      exact ⟨[], rfl, .nil⟩
  | @cons record n records sizes checkpoint rest ih =>
    rw [verifyTree, List.mapM_cons]
    constructor
    · rintro ⟨results, verified, answered⟩
      obtain ⟨out, checked, verified⟩ := bind_ok.mp verified
      obtain ⟨others, later, verified⟩ := bind_ok.mp verified
      obtain rfl := Except.ok.inj verified
      cases answered with
      | cons _ answeredRest =>
        intro k member
        rcases List.mem_cons.mp member with rfl | member
        · exact (checkAnchor_returns_iff _ checkpoint).mp ⟨out, checked⟩
        · exact ih.mp ⟨others, later, answeredRest⟩ k member
    · intro natural
      have first : 0 ≤ n := natural n List.mem_cons_self
      obtain ⟨out, checked⟩ := (checkAnchor_returns_iff (K := K) tsa checkpoint).mpr first
      obtain ⟨others, later, answered⟩ := ih.mpr fun k member =>
        natural k (List.mem_cons_of_mem _ member)
      have later' : records.mapM (checkAnchor K tsa tree) = .ok others := later
      refine ⟨out :: others, ?_, .cons ?_ answered⟩
      · rw [checked, ok_bind, later']
        rfl
      · exact checkAnchor_outside checkpoint first checked

/-- A record as a package may carry it. -/
def sampleRecord (size : Int) (leaves : List Bytes) : Value :=
  .dict (fields [("tree_size", .int size), ("root_hash", .str (hex (mth toy leaves))),
    ("anchored_at", .int 0)])

theorem sampleRecord_checkpoint (size : Int) {leaves : List Bytes}
    (sized : (mth toy leaves).length = 32) : Checkpoint (sampleRecord size leaves) size := by
  refine ⟨_, .int size, .str (hex (mth toy leaves)), .int 0, mth toy leaves, rfl,
    ⟨rfl, rfl, rfl⟩, rfl, ?_, sized⟩
  rw [fromHexValue, fromHex_hex]

theorem verify_tree_ends_iff_two :
    (∃ results, verifyTree toy (fun _ => .error "") { leaves := sampleLeaves }
      [sampleRecord 2 (sampleLeaves.take 2), sampleRecord 4 sampleLeaves] = .ok results ∧
      Answered { leaves := sampleLeaves } [2, 4] results) ↔ ∀ n ∈ [(2 : Int), 4], 0 ≤ n :=
  verify_tree_ends_iff (K := toy) _ _
    (.cons (sampleRecord_checkpoint 2 (by decide +kernel))
      (.cons (sampleRecord_checkpoint 4 (by decide +kernel)) .nil))

/-- A size of -1 passes the bound from above, and its proof is never finished. -/
theorem negative_size_unanswered :
    Checkpoint (sampleRecord (-1) sampleLeaves) (-1) ∧
    ¬ ∃ results, verifyTree toy (fun _ => .error "") { leaves := sampleLeaves }
      [sampleRecord (-1) sampleLeaves] = .ok results := by
  have checkpoint : Checkpoint (sampleRecord (-1) sampleLeaves) (-1) :=
    sampleRecord_checkpoint (-1) (by decide +kernel)
  refine ⟨checkpoint, ?_⟩
  rintro ⟨results, verified⟩
  obtain ⟨out, -, checked⟩ := mapM_ok_mem verified List.mem_cons_self
  have natural := (checkAnchor_returns_iff _ checkpoint).mp ⟨out, checked⟩
  omega

/-- The records that the file witness keeps. -/
structure CheckpointAnchor where
  records : List Value := []

def CheckpointAnchor.anchor (a : CheckpointAnchor) (treeHead : Value) (now : Int) :
    Py (CheckpointAnchor × Value) := do
  let logId ← treeHead.item "log_id"
  let size ← treeHead.item "tree_size"
  let rootHash ← treeHead.item "root_hash"
  let headTime ← treeHead.item "time"
  let tsKid ← treeHead.item "ts_kid"
  let signature ← treeHead.item "signature"
  let record := .dict (fields [("log_id", logId), ("tree_size", size), ("root_hash", rootHash),
    ("head_time", headTime), ("ts_kid", tsKid), ("head_signature", signature),
    ("anchored_at", .int now), ("witness", .str "mock-file-witness")])
  pure ({ records := a.records ++ [record] }, record)

/-- A witness that was shown heads of logs with these leaves, in this order. -/
inductive Anchored (K : Primitives) : CheckpointAnchor → List (List Bytes) → Prop
  | fresh : Anchored K {} []
  | shown {a next : CheckpointAnchor} {past : List (List Bytes)} {log : Log} {headTime now : Int}
      {head : Dict} {record : Value} (earlier : Anchored K a past)
      (signed : log.treeHead K headTime = .ok head)
      (taken : a.anchor (.dict head) now = .ok (next, record)) :
      Anchored K next (past ++ [log.tree.leaves])

/-- The record of a log with these leaves. -/
structure RecordOf (K : Primitives) (leaves : List Bytes) (record : Value) : Prop where
  recorded : ∃ now, Recorded record (.int leaves.length) (.str (hex (mth K leaves))) (.int now)
  witness : record.get "witness" .null = .ok (.str "mock-file-witness")
  token : isIn (.str "tsr_file") record = .ok false

theorem anchor_record {a next : CheckpointAnchor} {log : Log} {headTime now : Int} {head : Dict}
    {record : Value} (signed : log.treeHead K headTime = .ok head)
    (taken : a.anchor (.dict head) now = .ok (next, record)) :
    RecordOf K log.tree.leaves record ∧ next.records = a.records ++ [record] := by
  obtain ⟨message, -, rfl⟩ := treeHead_ok signed
  obtain ⟨rfl, rfl⟩ := Prod.mk.inj (Except.ok.inj taken)
  refine ⟨⟨⟨now, ?_, ?_, ?_⟩, ?_, ?_⟩, rfl⟩
  all_goals rfl

theorem anchored_records {a : CheckpointAnchor} {past : List (List Bytes)}
    (anchored : Anchored K a past) : List.Forall₂ (RecordOf K) past a.records := by
  induction anchored with
  | fresh => exact .nil
  | shown earlier signed taken ih =>
    obtain ⟨record, grown⟩ := anchor_record signed taken
    rw [grown]
    exact List.rel_append ih (.cons record .nil)

/-- A record is answered, and passes exactly if the tree has the old root at the old size. -/
theorem checkAnchor_record (tsa : Value → Except String Value) {A : List Bytes} {record : Value}
    (B : List Bytes) (taken : RecordOf K A record) :
    ∃ out, checkAnchor K tsa { leaves := B } record = .ok out ∧
      (out.ok = true ↔ A.length ≤ B.length ∧ mth K (B.take A.length) = mth K A) := by
  obtain ⟨now, recorded⟩ := taken.recorded
  have size : ({ leaves := B } : MerkleTree).size = B.length := rfl
  have numbered : number (.int A.length) = some (A.length : Int) := rfl
  by_cases long : B.length < A.length
  · refine ⟨_, checkAnchor_beyond recorded numbered (by omega), ?_⟩
    · constructor
      · intro bad
        cases bad
      · rintro ⟨short, -⟩
        omega
  · have short : A.length ≤ B.length := by omega
    have read : fromHexValue (.str (hex (mth K A))) = .ok (mth K A) := by
      rw [fromHexValue, fromHex_hex]
    obtain ⟨out, compared, agrees⟩ := @compareAnchor_nat K { leaves := B } _ _
      (.int now) _ _ numbered short read
    refine ⟨out, ?_, ?_⟩
    · rw [checkAnchor_within recorded numbered (by omega), compared, ok_bind]
      exact confirmToken_plain taken.witness rfl taken.token out
    · rw [agrees]
      constructor
      · intro same
        exact ⟨short, (hex_injective (Value.str.inj same)).symm⟩
      · rintro ⟨-, same⟩
        rw [same]

/-- A record of `A` compared with `B`: a continuation passes, and only a continuation does
unless the hash inputs of the two trees collide. -/
def Pins (K : Primitives) (A B : List Bytes) (out : AnchorResult) : Prop :=
  (A <+: B → out.ok = true) ∧
  (out.ok = true → A <+: B ∨ Collision K (treeInputs K A ++ treeInputs K (B.take A.length)))

theorem checkAnchor_pins (tsa : Value → Except String Value) {A B : List Bytes} {record : Value}
    (taken : RecordOf K A record) (before : ∀ x ∈ A, x.length = 32)
    (later : ∀ x ∈ B, x.length = 32) :
    ∃ out, checkAnchor K tsa { leaves := B } record = .ok out ∧ Pins K A B out := by
  obtain ⟨out, checked, passes⟩ := checkAnchor_record tsa B taken
  refine ⟨out, checked, ?_, ?_⟩
  · intro continued
    refine passes.mpr ⟨continued.length_le, ?_⟩
    rw [← List.prefix_iff_eq_take.mp continued]
  · intro good
    obtain ⟨short, same⟩ := passes.mp good
    have length : A.length = (B.take A.length).length := by
      rw [List.length_take]
      omega
    rcases mth_injective length before (fun x member => later x (List.mem_of_mem_take member))
      same.symm with equal | collision
    · exact .inl (List.prefix_iff_eq_take.mpr equal)
    · exact .inr collision

theorem verifyTree_pins (tsa : Value → Except String Value) {past : List (List Bytes)}
    {records : List Value} {B : List Bytes} (taken : List.Forall₂ (RecordOf K) past records)
    (before : ∀ A ∈ past, ∀ x ∈ A, x.length = 32) (later : ∀ x ∈ B, x.length = 32) :
    ∃ results, verifyTree K tsa { leaves := B } records = .ok results ∧
      List.Forall₂ (fun A out => Pins K A B out) past results := by
  induction taken with
  | nil => exact ⟨[], rfl, .nil⟩
  | @cons A record past records first rest ih =>
    obtain ⟨out, checked, pins⟩ := checkAnchor_pins tsa first (before A List.mem_cons_self) later
    obtain ⟨results, verified, pinned⟩ := ih fun A member =>
      before A (List.mem_cons_of_mem _ member)
    refine ⟨out :: results, ?_, .cons pins pinned⟩
    rw [verifyTree] at verified
    rw [verifyTree, List.mapM_cons, checked, ok_bind, verified]
    rfl

/-- The record fails on the tree, or the inputs collide. -/
def Reported (K : Primitives) (tsa : Value → Except String Value) (tree : MerkleTree)
    (record : Value) (inputs : List Bytes) : Prop :=
  ∃ out, checkAnchor K tsa tree record = .ok out ∧ (out.ok = false ∨ Collision K inputs)

/-- The inputs that are hashed when a record of `A` is compared with `B`. -/
def comparedInputs (K : Primitives) (A B : List Bytes) : List Bytes :=
  treeInputs K A ++ treeInputs K (B.take A.length)

theorem leaf_at {entries : List LogEntry} {tree : MerkleTree} {e : LogEntry} {i : Nat}
    {data : Bytes} (recomputed : treeOf K entries = .ok tree) (found : entries[i]? = some e)
    (leaf : e.statement.leafBytes = .ok data) : tree.leaves[i]? = some (leafHash K data) := by
  obtain ⟨leaves, hashed, made⟩ := bind_ok.mp recomputed
  obtain rfl := Except.ok.inj made
  obtain ⟨x, there, hash⟩ := mapM_ok_get hashed found
  rw [leaf] at hash
  obtain rfl := Except.ok.inj hash
  exact there

theorem leaf_of_continued {A B : List Bytes} {x : Bytes} {i : Nat} (continued : A <+: B)
    (below : i < A.length) (there : B[i]? = some x) : A[i]? = some x := by
  obtain ⟨rest, rfl⟩ := continued
  rw [List.getElem?_append_left below] at there
  exact there

theorem leaves_sized {entries : List LogEntry} {tree : MerkleTree}
    (recomputed : treeOf K entries = .ok tree) : ∀ x ∈ tree.leaves, x.length = 32 := by
  obtain ⟨leaves, hashed, made⟩ := bind_ok.mp recomputed
  obtain rfl := Except.ok.inj made
  intro x member
  obtain ⟨e, -, hash⟩ := mem_mapM_ok hashed member
  obtain ⟨data, -, hash⟩ := bind_ok.mp hash
  obtain rfl := Except.ok.inj hash
  exact leafHash_sized data

/-- A tree that is no continuation is reported. -/
theorem reported_of_rewritten (tsa : Value → Except String Value) {A B inputs : List Bytes}
    {record : Value} (taken : RecordOf K A record) (before : ∀ x ∈ A, x.length = 32)
    (later : ∀ x ∈ B, x.length = 32) (rewritten : A <+: B → Collision K inputs) :
    Reported K tsa { leaves := B } record (comparedInputs K A B ++ inputs) := by
  obtain ⟨out, checked, -, only⟩ := checkAnchor_pins tsa taken before later
  refine ⟨out, checked, ?_⟩
  cases good : out.ok with
  | false => exact .inl rfl
  | true =>
    right
    rcases only good with continued | collision
    · exact (rewritten continued).mono fun b member => List.mem_append_right _ member
    · exact collision.mono fun b member => List.mem_append_left _ member

/-- A shorter tree is reported. -/
theorem truncation_reported (tsa : Value → Except String Value) {A B : List Bytes}
    {record : Value} (taken : RecordOf K A record) (short : B.length < A.length) :
    ∃ out, checkAnchor K tsa { leaves := B } record = .ok out ∧ out.ok = false := by
  obtain ⟨out, checked, passes⟩ := checkAnchor_record tsa B taken
  refine ⟨out, checked, ?_⟩
  rw [Bool.eq_false_iff]
  intro good
  have := (passes.mp good).1
  omega

/-- A rewritten entry below the recorded size is reported. -/
theorem tampering_reported (tsa : Value → Except String Value) {A : List Bytes} {log : Log}
    {record : Value} {index : Fin log.entries.length} {s : SignedStatement} {data data' : Bytes}
    (taken : RecordOf K A record) (kept : Kept K log) (grown : A <+: log.tree.leaves)
    (below : index.val < A.length)
    (leaf : (log.entries[index]).statement.leafBytes = .ok data) (leaf' : s.leafBytes = .ok data')
    (different : data' ≠ data) : ∃ changed, tamperEntry K log index s = .ok changed ∧
      Reported K tsa changed.tree record
        (comparedInputs K A changed.tree.leaves ++ [0 :: data, 0 :: data']) := by
  obtain ⟨changed, made, -, tree, e, there, same⟩ := @tamperEntry_kept K _ index _ _ kept leaf'
  refine ⟨changed, made, ?_⟩
  have sized := leaves_sized kept.tree
  refine reported_of_rewritten tsa taken (fun x member => sized x (grown.subset member))
    (leaves_sized tree) ?_
  intro continued
  have old : A[index.val]? = some (leafHash K data) :=
    leaf_of_continued grown below (leaf_at kept.tree (List.getElem?_eq_getElem index.isLt) leaf)
  have new : A[index.val]? = some (leafHash K data') :=
    leaf_of_continued continued below (leaf_at tree there (by rw [same]; exact leaf'))
  rw [old] at new
  rcases leafHash_binding (Option.some.inj new) with equal | clash
  · exact absurd equal.symm different
  · exact clash

/-- Every entry of a kept log names its request by a text. -/
theorem entry_text {log : Log} {e : LogEntry} (kept : Kept K log) (member : e ∈ log.entries) :
    ∃ name, e.statement.sub = .str name := by
  obtain ⟨first, head, policy⟩ := kept.opened
  cases entries : log.entries with
  | nil =>
    rw [entries] at member
    cases member
  | cons x rest =>
    rw [entries] at member head
    obtain rfl := Option.some.inj head
    rcases List.mem_cons.mp member with rfl | later
    · obtain ⟨payload, founded⟩ := kept.founded
      obtain ⟨at_, issued⟩ := founded.issued
      obtain ⟨message, -, drafted⟩ := issue_ok issued
      rw [policy, drafted]
      exact ⟨_, rfl⟩
    · have checked := kept.checked e
      rw [entries] at checked
      exact sub_text (checked later)

/-- A dropped request with an entry below the recorded size is reported. -/
theorem dropping_reported (tsa : Value → Except String Value) {A : List Bytes} {log : Log}
    {record sub : Value} {index : Fin log.entries.length} (taken : RecordOf K A record)
    (kept : Kept K log) (grown : A <+: log.tree.leaves) (below : index.val < A.length)
    (concerns : (log.entries[index]).statement.sub.eq sub = true) :
    ∃ changed, dropSub K log sub = .ok changed ∧ Reported K tsa changed.tree record
      (comparedInputs K A changed.tree.leaves ++ leafInputs log.entries) := by
  obtain ⟨changed, made, -, tree, left⟩ := @dropSub_kept K _ sub kept
  refine ⟨changed, made, ?_⟩
  have sized := leaves_sized kept.tree
  refine reported_of_rewritten tsa taken (fun x member => sized x (grown.subset member))
    (leaves_sized tree) ?_
  intro continued
  have found : log.entries[index.val]? = some log.entries[index] :=
    List.getElem?_eq_getElem index.isLt
  obtain ⟨data, leaf⟩ := readable_of_tree kept.tree _ (List.mem_of_getElem? found)
  have old : A[index.val]? = some (leafHash K data) :=
    leaf_of_continued grown below (leaf_at kept.tree found leaf)
  obtain ⟨e, inside, data', leaf', hash⟩ : ∃ e ∈ changed.entries, ∃ data',
      e.statement.leafBytes = .ok data' ∧ leafHash K data' = leafHash K data := by
    have member := continued.subset (List.mem_of_getElem? old)
    obtain ⟨leaves, hashed, built⟩ := bind_ok.mp tree
    have there : leafHash K data ∈ leaves := by
      have same : leaves = changed.tree.leaves := congrArg MerkleTree.leaves (Except.ok.inj built)
      rw [same]
      exact member
    obtain ⟨e, inside, hash⟩ := mem_mapM_ok hashed there
    obtain ⟨data', leaf', hash⟩ := bind_ok.mp hash
    exact ⟨e, inside, data', leaf', Except.ok.inj hash⟩
  obtain ⟨previous, before, same, other⟩ := left e inside
  rcases leafHash_binding hash with equal | clash
  · obtain ⟨name, subject⟩ := entry_text kept (List.mem_of_getElem? found)
    rw [equal] at leaf'
    rw [leafBytes_sub leaf leaf' subject, ← subject, concerns] at other
    cases other
  · refine clash.mono ?_
    have first : 0 :: data' ∈ leafInputs log.entries :=
      mem_leafInputs before (by rw [same]; exact leaf')
    have second : 0 :: data ∈ leafInputs log.entries :=
      mem_leafInputs (List.mem_of_getElem? found) leaf
    intro b member
    rcases List.mem_cons.mp member with rfl | member
    · exact first
    · rcases List.mem_singleton.mp member
      exact second

/-- What a record of the old log says of the log that grew from it, and of what an operator
makes of that log. -/
structure Guarded (K : Primitives) (tsa : Value → Except String Value) (old grown : Log)
    (record : Value) : Prop where
  growth : ∃ out, checkAnchor K tsa grown.tree record = .ok out ∧ out.ok = true
  truncated : ∀ n < old.tree.size, ∃ out,
    checkAnchor K tsa { leaves := grown.tree.leaves.take n } record = .ok out ∧ out.ok = false
  tampered : ∀ (index : Fin grown.entries.length) (s : SignedStatement) (data data' : Bytes),
    index.val < old.tree.size → (grown.entries[index]).statement.leafBytes = .ok data →
    s.leafBytes = .ok data' → data' ≠ data → ∃ changed, tamperEntry K grown index s = .ok changed ∧
      Reported K tsa changed.tree record
        (comparedInputs K old.tree.leaves changed.tree.leaves ++ [0 :: data, 0 :: data'])
  dropped : ∀ (index : Fin grown.entries.length) (sub : Value), index.val < old.tree.size →
    (grown.entries[index]).statement.sub.eq sub = true →
    ∃ changed, dropSub K grown sub = .ok changed ∧ Reported K tsa changed.tree record
      (comparedInputs K old.tree.leaves changed.tree.leaves ++ leafInputs grown.entries)

theorem guarded_of_record (tsa : Value → Except String Value) {old grown : Log} {record : Value}
    (taken : RecordOf K old.tree.leaves record) (kept : Kept K grown)
    (extends_ : Extends old grown) : Guarded K tsa old grown record where
  growth := by
    have sized := leaves_sized kept.tree
    obtain ⟨out, checked, continued, -⟩ := checkAnchor_pins tsa taken
      (fun x member => sized x (extends_.leaves.subset member)) sized
    exact ⟨out, checked, continued extends_.leaves⟩
  truncated := by
    intro n short
    refine truncation_reported tsa taken ?_
    have : n < old.tree.leaves.length := short
    rw [List.length_take]
    omega
  tampered := by
    intro index s data data' below leaf leaf' different
    exact tampering_reported tsa taken kept extends_.leaves below leaf leaf' different
  dropped := by
    intro index sub below concerns
    exact dropping_reported tsa taken kept extends_.leaves below concerns

/-- Anchor records pass on a later tree exactly if it continues the leaves they were taken of,
or hash inputs collide. So honest growth of a log is accepted, and truncating it, rewriting one
of the recorded entries or dropping their requests is reported. -/
theorem anchors_pin_past (tsa : Value → Except String Value) :
    (∀ (a : CheckpointAnchor) (past : List (List Bytes)) (B : List Bytes), Anchored K a past →
      (∀ A ∈ past, ∀ x ∈ A, x.length = 32) → (∀ x ∈ B, x.length = 32) →
      ∃ results, verifyTree K tsa { leaves := B } a.records = .ok results ∧
        List.Forall₂ (fun A out => Pins K A B out) past results) ∧
    ∀ (logId : String) (key : KeyPair) (subRe : String → Bool) (policy : Dict) (opened : Int)
      (log : Log) (before later : List Call) (a next : CheckpointAnchor) (headTime now : Int)
      (head : Dict) (record : Value), openLog K logId key subRe policy opened = .ok log →
      (after K log before).treeHead K headTime = .ok head →
      a.anchor (.dict head) now = .ok (next, record) →
      Guarded K tsa (after K log before) (after K log (before ++ later)) record := by
  constructor
  · intro a past B anchored before later
    exact verifyTree_pins tsa (anchored_records anchored) before later
  · intro logId key subRe policy opened log before later a next headTime now head record created
      signed taken
    have kept := after_kept (K := K) (kept_opened created) (before ++ later)
    have grown : Extends (after K log before) (after K log (before ++ later)) := by
      rw [after_append]
      exact after_extends _ later
    exact guarded_of_record tsa (anchor_record signed taken).1 kept grown

/-- A tree head can be signed at any time. -/
theorem treeHead_returns (log : Log) (now : Int) : Returns (log.treeHead K now) := by
  have names : ["log_id", "tree_size", "root_hash", "time", "ts_kid"].all isAscii = true := by
    decide
  have fine : check "$" (.dict (fields [("log_id", .str log.policy.logId),
      ("tree_size", .int log.tree.size), ("root_hash", .str (hex (log.tree.root K))),
      ("time", .int now), ("ts_kid", .str log.policy.key.kid)])) = .ok () := by
    rw [check]
    exact check_fields names rfl
  rw [Log.treeHead, canonicalJson, fine]
  exact ⟨_, rfl⟩

/-- A record taken of a fresh log, and the log after a contract was registered. -/
theorem anchors_pin_past_plain : ∃ log head next record, plainLog = .ok log ∧
    log.treeHead toy 5 = .ok head ∧ ({} : CheckpointAnchor).anchor (.dict head) 6 =
      .ok (next, record) ∧
    (∃ results, verifyTree toy (fun _ => .error "")
      { leaves := (after toy log [(plainContract, 10)]).tree.leaves } next.records = .ok results ∧
      List.Forall₂ (fun A out => Pins toy A (after toy log [(plainContract, 10)]).tree.leaves out)
        [log.tree.leaves] results) ∧
    Guarded toy (fun _ => .error "") log (after toy log [(plainContract, 10)]) record := by
  obtain ⟨rc, made⟩ := issuedReceipt_facts
  obtain ⟨log, created, -⟩ := bind_ok.mp made
  have kept : Kept toy log := kept_opened created
  obtain ⟨head, signed⟩ := treeHead_returns (K := toy) log 5
  obtain ⟨message, -, shape⟩ := treeHead_ok signed
  obtain ⟨taken, anchored⟩ : ∃ taken, ({} : CheckpointAnchor).anchor (.dict head) 6 =
    .ok taken := by
    rw [shape]
    exact ⟨_, rfl⟩
  obtain ⟨pinned, guarded⟩ := anchors_pin_past (K := toy) fun _ => .error ""
  refine ⟨log, head, taken.1, taken.2, created, signed, anchored, ?_, ?_⟩
  · refine pinned taken.1 [log.tree.leaves] _ (.shown .fresh signed anchored) ?_
      (leaves_sized (after_kept kept _).tree)
    intro A member
    rw [List.mem_singleton.mp member]
    exact leaves_sized kept.tree
  · exact guarded "log" logKey subPattern plainPolicy 0 log [] [(plainContract, 10)] {} taken.1 5 6
      head taken.2 created signed anchored

end Checkpoints
