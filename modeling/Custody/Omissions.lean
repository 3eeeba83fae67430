import Custody.GenuineReceipts
import Custody.RegisteredEvidence

/-!
# Omissions and rewrites

An operator who drops the entries of a request numbers the rest again, and one
who rewrites an entry computes its leaf again: the log is consistent with itself
in both cases. The receipts that were kept are not consistent with it.
-/

namespace Omissions

open PyValue HexBytes CanonicalJson Commitments Statements Engine Merkle TransparencyLog
  HeldReceipts LogInvariant RegisteredEvidence MerkleProofs HeldMeaning AppendOnly
  GenuineReceipts ReplayAudit BlockedJudgment

variable (K : Primitives)

def appendEntry (log : Log) (e : LogEntry) : Py Log := do
  let data ← e.statement.leafBytes
  pure { log with tree := log.tree.append K data,
                  entries := log.entries ++ [{ e with index := log.tree.size }] }

/-- `drop_sub(sub)`: a new tree over what is left. -/
def dropSub (log : Log) (sub : Value) : Py Log :=
  (log.entries.filter fun e => !e.statement.sub.eq sub).foldlM (appendEntry K)
    { log with tree := {}, entries := [] }

/-- `tamper_entry(index, new_statement)`, for an index of the log. -/
def tamperEntry (log : Log) (index : Fin log.entries.length) (s : SignedStatement) : Py Log := do
  let data ← s.leafBytes
  pure { log with tree := { leaves := log.tree.leaves.set index (leafHash K data) },
                  entries := log.entries.modify index fun e => { e with statement := s } }

/-- The context in which the audit compares receipts with a log. -/
def contextOf (log : Log) (headTime : Int) : HeldContext :=
  { tree := log.tree, entries := log.entries, tsPub := log.policy.key.publicKey K,
    logId := .str log.policy.logId, headTime := .int headTime }

variable {K}

/-- The receipt was issued for the statement by one of the calls. -/
def IssuedIn (K : Primitives) (log : Log) (calls : List Call) (s : SignedStatement)
    (rc : RegistrationReceipt) : Prop :=
  ∃ before registeredAt later, calls = before ++ (s, registeredAt) :: later ∧
    (registerIn K (after K log before) s registeredAt).2 = .ok rc

/-- What is known of a receipt of the run in the log that the run left. -/
structure Promised (K : Primitives) (log : Log) (s : SignedStatement) (rc : RegistrationReceipt)
    (i : Nat) (data : Bytes) : Prop where
  position : rc.leafIndex = .int i
  sized : rc.treeSize = .int (i + 1 : Nat)
  leaf : s.leafBytes = .ok data
  hash : rc.leafHash = .str (hex (leafHash K data))
  inside : i + 1 ≤ log.tree.size
  root : rc.rootHash = .str (hex (mth K (log.tree.leaves.take (i + 1))))
  entry : ∃ e, log.entries[i]? = some e ∧ e.statement = s
  time : ∃ t, rc.registeredAt = .int t
  verified : ∀ ctx : HeldContext, ctx.tsPub = log.policy.key.publicKey K →
    ctx.logId = .str log.policy.logId → receiptVerifies K ctx rc = .ok true
  text : ∃ sub, s.sub = .str sub

theorem sub_text {log : Log} {s : SignedStatement} (passed : log.checkPolicy K s = .ok []) :
    ∃ sub, s.sub = .str sub := by
  rw [Log.checkPolicy] at passed
  obtain ⟨known, -, passed⟩ := bind_ok.mp passed
  obtain ⟨matched, asked, -⟩ := bind_ok.mp passed
  cases subject : s.sub with
  | str sub => exact ⟨sub, rfl⟩
  | _ =>
    simp only [Log.subMatches, subject, reduceCtorEq] at asked

theorem promised_of_issued {log : Log} {calls : List Call} {s : SignedStatement}
    {rc : RegistrationReceipt} (kept : Kept K log)
    (signs : ∀ message, log.policy.key.sign K message ≠ []) (issued : IssuedIn K log calls s rc) :
    ∃ i data, Promised K (after K log calls) s rc i data := by
  obtain ⟨before, registeredAt, later, rfl, accepted⟩ := issued
  have first := after_extends (K := K) log before
  have keptBefore := after_kept kept before
  have signs' : ∀ message, (after K log before).policy.key.sign K message ≠ [] := by
    rw [first.policy]
    exact signs
  have grown := after_extends (K := K) (registerIn K (after K log before) s registeredAt).1 later
  have upheld := registered_upheld keptBefore signs' accepted grown
  have passed := (register_ok (accepted_registered accepted)).1
  have policy : (after K (registerIn K (after K log before) s registeredAt).1 later).policy =
      (after K log before).policy := grown.policy.trans (registerIn_extends _ _ _).policy
  obtain ⟨data, made⟩ := issued_of_accepted accepted
  obtain ⟨message, bytes, rfl⟩ := issued_fields made
  obtain ⟨i, n, leaf, root, index, size, hash, rooted, proves⟩ := upheld.proves
  have count : (registerIn K (after K log before) s registeredAt).1.tree.size =
      (after K log before).tree.size + 1 := by
    rw [made.tree]
    simp [MerkleTree.size, MerkleTree.append]
  obtain rfl : (after K log before).tree.size = i := by
    have := Value.int.inj index
    omega
  have inTree : (after K log before).tree.size <
      (after K (registerIn K (after K log before) s registeredAt).1 later).tree.size :=
    (List.getElem?_eq_some_iff.mp proves.stored).1
  have size' : n = (after K log before).tree.size + 1 := by
    have := Value.int.inj size
    omega
  subst size'
  have step : after K log (before ++ (s, registeredAt) :: later) =
      after K (registerIn K (after K log before) s registeredAt).1 later := by
    rw [after_append]
    rfl
  rw [step]
  refine ⟨(after K log before).tree.size, data, rfl, size, made.leaf, rfl, inTree, ?_,
    proves.entry, ⟨registeredAt, rfl⟩, ?_, sub_text passed⟩
  · have known := proves.rooted
    rw [rootAt_nat inTree] at known
    rw [rooted, ← Except.ok.inj known]
  · intro ctx pub logId
    rw [policy] at pub logId
    have same : (Value.str (after K log before).policy.logId).eq ctx.logId = true := by
      rw [logId]
      simp
    have truthy := hex_truthy (signs' message)
    have valid : K.verify ctx.tsPub message ((after K log before).policy.key.sign K message) =
        true := by
      rw [pub]
      exact K.verify_sign _ _
    rw [receiptVerifies]
    simp only [unsigned, same, Bool.not_true, Bool.false_eq_true, if_false]
    rw [RegistrationReceipt.signedBytes] at bytes ⊢
    simp only [RegistrationReceipt.body, unsigned] at bytes ⊢
    rw [bytes, ok_bind]
    simp [truthy, fromHexValue, valid]

theorem genuine_of_promised {log : Log} {s : SignedStatement} {rc : RegistrationReceipt} {i : Nat}
    {data : Bytes} {ctx : HeldContext} (promised : Promised K log s rc i data)
    (pub : ctx.tsPub = log.policy.key.publicKey K) (logId : ctx.logId = .str log.policy.logId) :
    Genuine K ctx rc where
  position := ⟨i, promised.position⟩
  sized := ⟨i + 1, promised.sized⟩
  rooted := ⟨_, promised.root⟩
  time := promised.time
  verified := promised.verified ctx pub logId

theorem readable_of_tree {entries : List LogEntry} {tree : MerkleTree}
    (recomputed : treeOf K entries = .ok tree) : Readable entries := by
  obtain ⟨leaves, hashed, -⟩ := bind_ok.mp recomputed
  intro e member
  obtain ⟨leaf, -, made⟩ := mapM_ok_mem hashed member
  obtain ⟨data, bytes, -⟩ := bind_ok.mp made
  exact ⟨data, bytes⟩

theorem in_place {log : Log} {s : SignedStatement} {rc : RegistrationReceipt} {i : Nat}
    {data : Bytes} (promised : Promised K log s rc i data) (headTime : Int) :
    InPlace K (contextOf K log headTime) rc := by
  obtain ⟨e, there, statement⟩ := promised.entry
  exact ⟨i, e, data, promised.position, there, by rw [statement]; exact promised.leaf,
    promised.hash⟩

theorem agrees_of_promised {log : Log} {s : SignedStatement} {rc : RegistrationReceipt} {i : Nat}
    {data : Bytes} (promised : Promised K log s rc i data) : Agrees K log.tree rc :=
  ⟨i + 1, by rw [promised.sized]; rfl, promised.inside, promised.root⟩

/-- Every receipt of the list is one of the run's, from before the head was taken. -/
def Keeps (K : Primitives) (log : Log) (calls : List Call) (headTime : Int) (held : List Value) :
    Prop :=
  ∀ item ∈ held, ∃ d s rc t, Holds item d rc ∧ IssuedIn K log calls s rc ∧
    rc.registeredAt = .int t ∧ t ≤ headTime

theorem included_all {log : Log} {calls : List Call} {headTime : Int} {held : List Value}
    (tsa : Value → Except String Value) (kept : Kept K log)
    (signs : ∀ message, log.policy.key.sign K message ≠ [])
    (keeps : Keeps K log calls headTime held) :
    ∃ report, verifyHeldReceipts K (contextOf K (after K log calls) headTime) tsa held =
      .ok report ∧ report.ok = true ∧ report.included = held.length ∧ report.missing = [] := by
  have readable : Readable (after K log calls).entries :=
    readable_of_tree (after_kept kept calls).tree
  have stands : ∀ item ∈ held, ∃ x,
      standing K (contextOf K (after K log calls) headTime) item = .ok x ∧
      (x.2.isIncluded = true ∧ x.2.missingRecord = none ∧
        ∀ rc ∈ x.2.counted, Agrees K (after K log calls).tree rc) := by
    intro item member
    obtain ⟨d, s, rc, t, holds, issued, time, early⟩ := keeps item member
    obtain ⟨i, data, promised⟩ := promised_of_issued kept signs issued
    have genuine : Genuine K (contextOf K (after K log calls) headTime) rc :=
      genuine_of_promised promised rfl rfl
    obtain ⟨st, stood, cases_⟩ := standing_genuine holds genuine readable (.inr ⟨headTime, rfl⟩)
    have asked : isAfterSnapshot (contextOf K (after K log calls) headTime) rc = .ok false :=
      isAfterSnapshot_before time rfl early
    refine ⟨_, stood, ?_⟩
    rcases cases_ with ⟨later, -⟩ | ⟨-, -, rfl⟩ | ⟨-, gone, -⟩
    · rw [asked] at later
      cases later
    · refine ⟨rfl, rfl, ?_⟩
      intro rc' counted
      obtain rfl := Option.some.inj counted
      exact agrees_of_promised promised
    · exact absurd (in_place promised headTime) gone
  obtain ⟨xs, stood, all⟩ := mapM_each stands
  have agree : ∀ rc ∈ firstsOf (countedOf xs), Agrees K (after K log calls).tree rc := by
    intro rc member
    obtain ⟨x, inside, same⟩ := List.mem_filterMap.mp (firstsOf_mem member)
    exact (all x inside).2.2 rc same
  have sized : ∀ rc ∈ firstsOf (countedOf xs), ∃ (n : Nat) (root : Bytes),
      number rc.treeSize = some (n : Int) ∧ rc.rootHash = .str (hex root) := by
    intro rc member
    obtain ⟨n, size, -, root⟩ := agree rc member
    exact ⟨n, _, size, root⟩
  obtain ⟨anchors, checked⟩ := @checkFirsts_returns K tsa (after K log calls).tree _ sized
  have none_ : xs.filterMap (fun x => x.2.missingRecord) = [] := by
    rw [List.filterMap_eq_nil_iff]
    exact fun x inside => (all x inside).2.1
  refine ⟨_, verifyHeld_ok.mpr ⟨xs, anchors, stood, checked, rfl⟩, ?_, ?_, none_⟩
  · simp only [reportOf, none_, List.isEmpty_nil, Bool.true_and]
    exact (checkFirsts_results checked).mpr agree
  · rw [← mapM_ok_length stood]
    exact List.countP_eq_length.mpr fun x inside => (all x inside).1

/-- The audit of a changed log fails and lists the receipt. -/
def Revealed (K : Primitives) (changed : Log) (headTime : Int)
    (tsa : Value → Except String Value) (held : List Value) (d : Dict) (rc : RegistrationReceipt) :
    Prop :=
  ∃ report, verifyHeldReceipts K (contextOf K changed headTime) tsa held = .ok report ∧
    report.ok = false ∧
    ∃ entry found, missingReason (identOf (aboutOf d) rc) entry found ∈ report.missing

theorem revealed_of_gone {log changed : Log} {calls : List Call} {headTime : Int}
    {held : List Value} {item : Value} {d : Dict} {s : SignedStatement} {rc : RegistrationReceipt}
    (tsa : Value → Except String Value) (kept : Kept K log)
    (signs : ∀ message, log.policy.key.sign K message ≠ [])
    (keeps : Keeps K log calls headTime held) (policy : changed.policy = log.policy)
    (readable : Readable changed.entries) (member : item ∈ held) (holds : Holds item d rc)
    (issued : IssuedIn K log calls s rc)
    (gone : ¬ InPlace K (contextOf K changed headTime) rc) :
    Revealed K changed headTime tsa held d rc := by
  have genuine : ∀ {s : SignedStatement} {rc : RegistrationReceipt}, IssuedIn K log calls s rc →
      Genuine K (contextOf K changed headTime) rc := by
    intro s rc issued
    obtain ⟨i, data, promised⟩ := promised_of_issued kept signs issued
    have same := (after_extends (K := K) log calls).policy
    refine genuine_of_promised promised ?_ ?_
    · rw [contextOf, policy, same]
    · rw [contextOf, policy, same]
  have each : ∀ item ∈ held, ∃ d rc, Holds item d rc ∧
      Genuine K (contextOf K changed headTime) rc := by
    intro item member
    obtain ⟨d, s, rc, t, holds, issued, -, -⟩ := keeps item member
    exact ⟨d, rc, holds, genuine issued⟩
  obtain ⟨xs, anchors, stood, checked, -⟩ :=
    @genuine_returns K (contextOf K changed headTime) tsa held readable (.inr ⟨headTime, rfl⟩) each
  obtain ⟨st, found, cases_⟩ := standing_genuine holds (genuine issued) readable
    (.inr ⟨headTime, rfl⟩)
  obtain ⟨d', s', rc', t, holds', -, time, early⟩ := keeps item member
  have same : rc' = rc := by
    have left := readReceipt_holds holds
    rw [readReceipt_holds holds'] at left
    exact Option.some.inj (Except.ok.inj left)
  rw [same] at time
  have asked : isAfterSnapshot (contextOf K changed headTime) rc = .ok false :=
    isAfterSnapshot_before time rfl early
  rcases cases_ with ⟨later, -⟩ | ⟨-, there, -⟩ | ⟨-, -, entry, where_, rfl⟩
  · rw [asked] at later
    cases later
  · exact absurd there gone
  · obtain ⟨x, inside, result⟩ := mapM_ok_mem stood member
    rw [found] at result
    obtain rfl := Except.ok.inj result
    have listed : missingReason (identOf (aboutOf d) rc) entry where_ ∈
        xs.filterMap fun x => x.2.missingRecord := List.mem_filterMap.mpr ⟨_, inside, rfl⟩
    refine ⟨_, verifyHeld_ok.mpr ⟨xs, anchors, stood, checked, rfl⟩, ?_, entry, where_, listed⟩
    have some_ : (xs.filterMap fun x => x.2.missingRecord) ≠ [] := List.ne_nil_of_mem listed
    simp [reportOf, some_]

theorem appendEntry_ok {log : Log} {e : LogEntry} {data : Bytes}
    (leaf : e.statement.leafBytes = .ok data) : appendEntry K log e = .ok { log with
      tree := log.tree.append K data
      entries := log.entries ++ [{ e with index := log.tree.size }] } := by
  rw [appendEntry, leaf]
  rfl

/-- Entries with bytes to hash can be put into a new tree. -/
theorem rebuilt {entries : List LogEntry} {log : Log} (readable : Readable entries)
    (start : treeOf K log.entries = .ok log.tree) : ∃ next,
    entries.foldlM (appendEntry K) log = .ok next ∧ next.policy = log.policy ∧
    treeOf K next.entries = .ok next.tree ∧
    next.entries.map (·.statement) = log.entries.map (·.statement) ++
    entries.map (·.statement) := by
  induction entries generalizing log with
  | nil => exact ⟨log, rfl, rfl, start, by simp⟩
  | cons e entries ih =>
    obtain ⟨data, leaf⟩ := readable e List.mem_cons_self
    have step : treeOf K (log.entries ++ [{ e with index := log.tree.size }]) =
        .ok (log.tree.append K data) := treeOf_append start leaf
    obtain ⟨next, folded, policy, tree, statements⟩ :=
      @ih { log with tree := log.tree.append K data,
                     entries := log.entries ++ [{ e with index := log.tree.size }] }
        (fun x member => readable x (List.mem_cons_of_mem _ member)) step
    refine ⟨next, ?_, policy, tree, ?_⟩
    · rw [List.foldlM_cons, appendEntry_ok leaf, ok_bind]
      exact folded
    · rw [statements]
      simp

/-- What is left of the log is a consistent log of the other statements. -/
theorem dropSub_kept {log : Log} {sub : Value} (kept : Kept K log) : ∃ next,
    dropSub K log sub = .ok next ∧ next.policy = log.policy ∧
    treeOf K next.entries = .ok next.tree ∧
    ∀ e ∈ next.entries, ∃ old ∈ log.entries, old.statement = e.statement ∧
      e.statement.sub.eq sub = false := by
  have readable := readable_of_tree kept.tree
  obtain ⟨next, made, policy, tree, statements⟩ :=
    @rebuilt K (log.entries.filter fun e => !e.statement.sub.eq sub)
      { log with tree := {}, entries := [] }
      (fun e member => readable e (List.mem_filter.mp member).1) rfl
  refine ⟨next, made, policy, tree, ?_⟩
  intro e member
  have inside : e.statement ∈ next.entries.map (·.statement) := List.mem_map_of_mem member
  rw [statements] at inside
  obtain ⟨old, kept_, same⟩ := List.mem_map.mp inside
  obtain ⟨before, other⟩ := List.mem_filter.mp kept_
  refine ⟨old, before, same, ?_⟩
  rw [← same]
  simpa using other

theorem treeOf_modify {entries : List LogEntry} {leaves : List Bytes} {i : Nat}
    {s : SignedStatement} {data : Bytes}
    (hashed : entries.mapM (fun e => do pure (leafHash K (← e.statement.leafBytes))) = .ok leaves)
    (leaf : s.leafBytes = .ok data) :
    (entries.modify i fun e => { e with statement := s }).mapM
      (fun e => do pure (leafHash K (← e.statement.leafBytes))) =
      .ok (leaves.set i (leafHash K data)) := by
  induction entries generalizing leaves i with
  | nil =>
    obtain rfl := Except.ok.inj hashed
    cases i <;> rfl
  | cons e entries ih =>
    rw [List.mapM_cons] at hashed
    obtain ⟨first, made, hashed⟩ := bind_ok.mp hashed
    obtain ⟨rest, later, hashed⟩ := bind_ok.mp hashed
    obtain rfl := Except.ok.inj hashed
    cases i with
    | zero =>
      rw [List.modify_zero_cons, List.mapM_cons, later]
      simp [leaf]
    | succ i =>
      rw [List.modify_succ_cons, List.mapM_cons, made, ok_bind, ih later]
      rfl

/-- The rewritten log is a consistent log of the rewritten entries. -/
theorem tamperEntry_kept {log : Log} {index : Fin log.entries.length} {s : SignedStatement}
    {data : Bytes} (kept : Kept K log) (leaf : s.leafBytes = .ok data) : ∃ next,
    tamperEntry K log index s = .ok next ∧ next.policy = log.policy ∧
    treeOf K next.entries = .ok next.tree ∧
    ∃ e, next.entries[index.val]? = some e ∧ e.statement = s := by
  obtain ⟨leaves, hashed, made⟩ := bind_ok.mp kept.tree
  refine ⟨{ log with
    tree := { leaves := log.tree.leaves.set index (leafHash K data) }
    entries := log.entries.modify index fun e => { e with statement := s } }, ?_, rfl, ?_, ?_⟩
  · rw [tamperEntry, leaf]
    rfl
  · simp only [treeOf]
    rw [treeOf_modify hashed leaf, ok_bind, ← Except.ok.inj made]
    rfl
  · refine ⟨{ log.entries[index] with statement := s }, ?_, rfl⟩
    simp

/-- The bytes that are hashed for the leaves. -/
def leafInputs (entries : List LogEntry) : List Bytes :=
  entries.filterMap fun e => match e.statement.leafBytes with
    | .ok data => some (0 :: data)
    | .error _ => none

theorem mem_leafInputs {entries : List LogEntry} {e : LogEntry} {data : Bytes}
    (member : e ∈ entries) (leaf : e.statement.leafBytes = .ok data) :
    0 :: data ∈ leafInputs entries := by
  refine List.mem_filterMap.mpr ⟨e, member, ?_⟩
  rw [leaf]

theorem leafHash_binding {data data' : Bytes} (same : leafHash K data = leafHash K data') :
    data = data' ∨ Collision K [0 :: data, 0 :: data'] := by
  by_cases equal : data = data'
  · exact .inl equal
  · refine .inr ⟨0 :: data, by simp, 0 :: data', by simp, ?_, same⟩
    intro inputs
    exact equal (List.cons.inj inputs).2

/-- Statements with the same leaf bytes have the same subject. -/
theorem leafBytes_sub {s t : SignedStatement} {data : Bytes} {sub : String}
    (left : s.leafBytes = .ok data) (right : t.leafBytes = .ok data) (text : s.sub = .str sub) :
    t.sub = .str sub := by
  have same := find_of_canon (canonicalJson_injective left right) "sub"
  simp [SignedStatement.header, fields, find, text] at same
  exact canon_eq_str same.symm

theorem dropped_gone {log next : Log} {s : SignedStatement} {rc : RegistrationReceipt} {i : Nat}
    {data : Bytes} {sub : Value} {headTime : Int} (promised : Promised K log s rc i data)
    (concerns : s.sub.eq sub = true)
    (left : ∀ e ∈ next.entries, ∃ old ∈ log.entries, old.statement = e.statement ∧
      e.statement.sub.eq sub = false) :
    ¬ InPlace K (contextOf K next headTime) rc ∨ Collision K (leafInputs log.entries) := by
  by_cases there : InPlace K (contextOf K next headTime) rc
  · right
    obtain ⟨j, e, data', -, found, leaf, hash⟩ := there
    obtain ⟨old, before, same, other⟩ := left e (List.mem_of_getElem? found)
    obtain ⟨own, at_, statement⟩ := promised.entry
    obtain ⟨text, subject⟩ := promised.text
    rw [promised.hash] at hash
    have hashes : leafHash K data = leafHash K data' := hex_injective (Value.str.inj hash)
    rcases leafHash_binding hashes with equal | clash
    · rw [← equal] at leaf
      rw [leafBytes_sub promised.leaf leaf subject, ← subject, concerns] at other
      cases other
    · refine clash.mono ?_
      have first : 0 :: data ∈ leafInputs log.entries :=
        mem_leafInputs (List.mem_of_getElem? at_) (by rw [statement]; exact promised.leaf)
      have second : 0 :: data' ∈ leafInputs log.entries :=
        mem_leafInputs before (by rw [same]; exact leaf)
      intro b member
      rcases List.mem_cons.mp member with rfl | member
      · exact first
      · rcases List.mem_singleton.mp member
        exact second
  · exact .inl there

theorem tampered_gone {log next : Log} {s s' : SignedStatement} {rc : RegistrationReceipt}
    {i : Nat} {data data' : Bytes} {headTime : Int} (promised : Promised K log s rc i data)
    (leaf : s'.leafBytes = .ok data') (different : data' ≠ data)
    (rewritten : ∃ e, next.entries[i]? = some e ∧ e.statement = s') :
    ¬ InPlace K (contextOf K next headTime) rc ∨ Collision K [0 :: data, 0 :: data'] := by
  by_cases there : InPlace K (contextOf K next headTime) rc
  · right
    obtain ⟨j, e, found, position, at_, leaf', hash⟩ := there
    obtain ⟨e', here, statement⟩ := rewritten
    rw [promised.position] at position
    obtain rfl : i = j := by
      have := Value.int.inj position
      omega
    rw [show (contextOf K next headTime).entries = next.entries from rfl, here] at at_
    obtain rfl := Option.some.inj at_
    rw [statement, leaf] at leaf'
    obtain rfl := Except.ok.inj leaf'
    rw [promised.hash] at hash
    have hashes : leafHash K data = leafHash K data' := hex_injective (Value.str.inj hash)
    rcases leafHash_binding hashes with equal | clash
    · exact absurd equal.symm different
    · exact clash
  · exact .inl there

/-- In a run of an honest log, receipts that are held find their leaves. After the entries of
one of their requests are dropped, or the entry of one of them is rewritten, the audit fails and
lists that receipt, unless the leaf inputs collide. -/
theorem receipts_reveal {logId : String} {key : KeyPair} {subRe : String → Bool} {policy : Dict}
    {now headTime : Int} {log : Log} {calls : List Call} {held : List Value}
    (tsa : Value → Except String Value) (signs : ∀ message, key.sign K message ≠ [])
    (created : openLog K logId key subRe policy now = .ok log)
    (keeps : Keeps K log calls headTime held) :
    (∃ report, verifyHeldReceipts K (contextOf K (after K log calls) headTime) tsa held =
      .ok report ∧ report.ok = true ∧ report.included = held.length ∧ report.missing = []) ∧
    (∀ sub item d s rc, item ∈ held → Holds item d rc → IssuedIn K log calls s rc →
      s.sub.eq sub = true → ∃ changed, dropSub K (after K log calls) sub = .ok changed ∧
        treeOf K changed.entries = .ok changed.tree ∧
        (Revealed K changed headTime tsa held d rc ∨
          Collision K (leafInputs (after K log calls).entries))) ∧
    ∀ item d s rc (index : Fin (after K log calls).entries.length) s' data data', item ∈ held →
      Holds item d rc → IssuedIn K log calls s rc → rc.leafIndex = .int index.val →
      s.leafBytes = .ok data → s'.leafBytes = .ok data' → data' ≠ data →
      ∃ changed, tamperEntry K (after K log calls) index s' = .ok changed ∧
        treeOf K changed.entries = .ok changed.tree ∧
        (Revealed K changed headTime tsa held d rc ∨ Collision K [0 :: data, 0 :: data']) := by
  have kept := kept_opened created
  have keptAfter := after_kept (K := K) kept calls
  have signs' : ∀ message, log.policy.key.sign K message ≠ [] := by
    rw [(opened_shape created).2.1]
    exact signs
  have policy := (after_extends (K := K) log calls).policy
  refine ⟨included_all tsa kept signs' keeps, ?_, ?_⟩
  · intro sub item d s rc member holds issued concerns
    obtain ⟨i, data, promised⟩ := promised_of_issued kept signs' issued
    obtain ⟨changed, made, same, tree, left⟩ := @dropSub_kept K _ sub keptAfter
    refine ⟨changed, made, tree, ?_⟩
    rcases @dropped_gone K _ _ _ _ _ _ _ headTime promised concerns left with gone | clash
    · exact .inl (revealed_of_gone tsa kept signs' keeps (same.trans policy)
        (readable_of_tree tree) member holds issued gone)
    · exact .inr clash
  · intro item d s rc index s' data data' member holds issued position leaf leaf' different
    obtain ⟨i, found, promised⟩ := promised_of_issued kept signs' issued
    obtain ⟨changed, made, same, tree, rewritten⟩ := @tamperEntry_kept K _ index _ _ keptAfter leaf'
    refine ⟨changed, made, tree, ?_⟩
    obtain rfl : data = found := Except.ok.inj (leaf.symm.trans promised.leaf)
    obtain rfl : i = index.val := by
      have := Value.int.inj (promised.position.symm.trans position)
      omega
    rcases @tampered_gone K _ _ _ _ _ _ _ _ headTime promised leaf' different rewritten with
      gone | clash
    · exact .inl (revealed_of_gone tsa kept signs' keeps (same.trans policy)
        (readable_of_tree tree) member holds issued gone)
    · exact .inr clash

def heldItem (rc : RegistrationReceipt) : Dict :=
  [(.str "receipt", rc.toDict), (.str "sub", plainContract.sub), (.str "holder", .str "M")]

/-- A contract's receipt finds its leaf, and does not once the request is dropped. -/
theorem receipts_reveal_plain : ∃ log rc, plainLog = .ok log ∧
    (registerIn toy log plainContract 10).2 = .ok rc ∧
    (∃ report, verifyHeldReceipts toy (contextOf toy (after toy log [(plainContract, 10)]) 50)
      (fun _ => .error "") [.dict (heldItem rc)] = .ok report ∧ report.ok = true ∧
      report.included = 1 ∧ report.missing = []) ∧
    ∃ changed, dropSub toy (after toy log [(plainContract, 10)]) plainContract.sub = .ok changed ∧
      (Revealed toy changed 50 (fun _ => .error "") [.dict (heldItem rc)] (heldItem rc) rc ∨
        Collision toy (leafInputs (after toy log [(plainContract, 10)]).entries)) := by
  obtain ⟨rc, made⟩ := issuedReceipt_facts
  obtain ⟨log, opened, accepted⟩ := bind_ok.mp made
  have issued : IssuedIn toy log [(plainContract, 10)] plainContract rc :=
    ⟨[], 10, [], rfl, accepted⟩
  have holds : Holds (.dict (heldItem rc)) (heldItem rc) rc :=
    ⟨rfl, ⟨_, rfl, RegistrationReceipt.fromDict_toDict rc⟩, rfl⟩
  have time : rc.registeredAt = .int 10 := by
    obtain ⟨data, given⟩ := issued_of_accepted accepted
    obtain ⟨message, -, rfl⟩ := issued_fields given
    rfl
  have keeps : Keeps toy log [(plainContract, 10)] 50 [.dict (heldItem rc)] := by
    intro item member
    rw [List.mem_singleton.mp member]
    exact ⟨heldItem rc, plainContract, rc, 10, holds, issued, time, by decide⟩
  obtain ⟨untouched, dropped, -⟩ := receipts_reveal (K := toy) (fun _ => .error "")
    (fun message => by simp [KeyPair.sign, toy, logKey]) opened keeps
  obtain ⟨changed, gone, -, revealed⟩ := dropped plainContract.sub (.dict (heldItem rc))
    (heldItem rc) plainContract rc List.mem_cons_self holds issued rfl
  exact ⟨log, rc, opened, accepted, untouched, changed, gone, revealed⟩

end Omissions
