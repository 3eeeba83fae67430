import Custody.BlockedJudgment
import Custody.LogInvariant
import Custody.MerkleProofs

/-!
# Receipts of an append-only log

A registration changes the log only once nothing can refuse it any more. What a
receipt says of its leaf and of the root at its size stays true, and can be
proved to anyone, in every later state.
-/

namespace AppendOnly

open PyValue HexBytes CanonicalJson Commitments Statements Schemas Engine Merkle TransparencyLog
  LogInvariant MerkleProofs ReplayAudit BlockedJudgment

variable (K : Primitives)

/-- `verify_inclusion` on fields as they are read from JSON. -/
def includes (leafIndex treeSize : Value) (leaf : Bytes) (proof : List Bytes) (root : Bytes) :
    Py Bool := do
  if ← less true treeSize leafIndex then pure false
  else
    match number leafIndex, number treeSize with
    | some i, some n => pure (verifyInclusion K i n leaf proof root)
    | _, _ => throw .typeError

def checkInclusion (rc : RegistrationReceipt) (leaf : Bytes) : Py (Bool × String) := do
  let proof ← (← rc.inclusionProof.iterate).mapM fromHexValue
  let root ← fromHexValue rc.rootHash
  if ← includes K rc.leafIndex rc.treeSize leaf proof root then pure (true, "ok")
  else pure (false, "inclusion proof invalid")

/-- `verify_receipt(receipt, statement, ts_public_key)`. -/
def verifyReceipt (rc : RegistrationReceipt) (s : SignedStatement) (tsPublicKey : Bytes) :
    Py (Bool × String) := do
  let message ← rc.signedBytes
  let signature ← fromHexValue (if rc.signature.truthy then rc.signature else .str "00")
  if !K.verify tsPublicKey message signature then pure (false, "receipt signature invalid")
  else
    let data ← s.leafBytes
    if !Value.eq (.str (hex (leafHash K data))) rc.leafHash then
      pure (false, "leaf hash mismatch (statement differs from registered bytes)")
    else checkInclusion K rc (leafHash K data)

def unsigned (policy : LogPolicy) (tree : MerkleTree) (index : Nat) (leaf : Bytes)
    (registeredAt : Int) : RegistrationReceipt :=
  { logId := .str policy.logId, leafIndex := .int index, treeSize := .int tree.size,
    rootHash := .str (hex (tree.root K)), leafHash := .str (hex leaf),
    registeredAt := .int registeredAt, tsKid := .str policy.key.kid,
    inclusionProof := .ofStrings ((tree.inclusionProof K index).map hex),
    signature := .str "" }

/-- The receipt of the entry that was just appended. -/
def receiptFor (policy : LogPolicy) (tree : MerkleTree) (index : Nat) (leaf : Bytes)
    (registeredAt : Int) : Py RegistrationReceipt := do
  let receipt := unsigned K policy tree index leaf registeredAt
  let message ← receipt.signedBytes
  pure { receipt with signature := .str (hex (policy.key.sign K message)) }

/-- `_append`, with the log as it is left: the leaf and the entry are in before the receipt
is signed. -/
def appendIn (log : Log) (s : SignedStatement) (registeredAt : Int) :
    Log × Py RegistrationReceipt :=
  match s.leafBytes with
  | .error e => (log, .error e)
  | .ok data =>
    let tree := log.tree.append K data
    ({ log with tree, entries := log.entries ++
        [{ index := log.tree.size, registeredAt, statement := s }] },
      receiptFor K log.policy tree log.tree.size (leafHash K data) registeredAt)

/-- `register`, with the log as it is left when the call returns or raises. -/
def registerIn (log : Log) (s : SignedStatement) (registeredAt : Int) :
    Log × Py RegistrationReceipt :=
  match log.checkPolicy K s with
  | .error e => (log, .error e)
  | .ok [] => appendIn K log s registeredAt
  | .ok errors => (log, .error (.registrationRefused errors))

/-- A call of `register`: the statement and the time. -/
abbrev Call := SignedStatement × Int

/-- The log after some calls, accepted or not. -/
def after (log : Log) (calls : List Call) : Log :=
  calls.foldl (fun log call => (registerIn K log call.1 call.2).1) log

variable {K}

/-- Values that hold nothing to check. -/
def plain : Value → Bool
  | .list _ => false
  | .dict _ => false
  | _ => true

theorem check_plain {v : Value} (h : plain v = true) (path : String) : check path v = .ok () := by
  cases v with
  | list xs => cases h
  | dict kvs => cases h
  | _ => rfl

theorem check_fields {path : String} {xs : List (String × Value)}
    (ascii : (xs.map Prod.fst).all isAscii = true)
    (each : (xs.map Prod.snd).all plain = true) : checkDict path (fields xs) = .ok () := by
  induction xs with
  | nil => rfl
  | cons x xs ih =>
    simp only [List.map_cons, List.all_cons, Bool.and_eq_true] at ascii each
    have value := check_plain each.1 (path ++ "." ++ x.1)
    have rest := ih ascii.2 each.2
    simp only [fields, List.map_cons, checkDict, ascii.1, if_true, value, ok_bind]
    exact rest

theorem unsigned_bytes (policy : LogPolicy) (tree : MerkleTree) (index : Nat) (leaf : Bytes)
    (registeredAt : Int) :
    ∃ message, (unsigned K policy tree index leaf registeredAt).signedBytes = .ok message := by
  have names : ["log_id", "leaf_index", "tree_size", "root_hash", "leaf_hash", "registered_at",
      "ts_kid"].all isAscii = true := by decide
  have fine : check "$" (.dict (unsigned K policy tree index leaf registeredAt).body) = .ok () := by
    rw [check]
    exact check_fields names rfl
  exact ⟨_, by rw [RegistrationReceipt.signedBytes, canonicalJson, fine]; rfl⟩

/-- Signing a receipt never fails. -/
theorem receiptFor_ok (policy : LogPolicy) (tree : MerkleTree) (index : Nat) (leaf : Bytes)
    (registeredAt : Int) : ∃ message,
    (unsigned K policy tree index leaf registeredAt).signedBytes = .ok message ∧
    receiptFor K policy tree index leaf registeredAt =
      .ok { unsigned K policy tree index leaf registeredAt with
            signature := .str (hex (policy.key.sign K message)) } := by
  obtain ⟨message, bytes⟩ := unsigned_bytes (K := K) policy tree index leaf registeredAt
  exact ⟨message, bytes, by rw [receiptFor, bytes]; rfl⟩

theorem append_in {s : SignedStatement} {data : Bytes} (log : Log) (registeredAt : Int)
    (leaf : s.leafBytes = .ok data) : ∃ rc,
    appendIn K log s registeredAt = ({ log with
      tree := log.tree.append K data
      entries := log.entries ++ [{ index := log.tree.size, registeredAt, statement := s }] },
      .ok rc) ∧
    receiptFor K log.policy (log.tree.append K data) log.tree.size (leafHash K data)
      registeredAt = .ok rc := by
  obtain ⟨message, -, signed⟩ := receiptFor_ok (K := K) log.policy (log.tree.append K data)
    log.tree.size (leafHash K data) registeredAt
  exact ⟨_, by rw [appendIn, leaf]; exact Prod.ext rfl signed, signed⟩

/-- In place or not, a registration does the same. -/
theorem registerIn_register (log : Log) (s : SignedStatement) (registeredAt : Int) :
    registerIn K log s registeredAt = match log.register K s registeredAt with
      | .ok (next, rc) => (next, .ok rc)
      | .error e => (log, .error e) := by
  cases checked : log.checkPolicy K s with
  | error e => simp [registerIn, Log.register, checked]
  | ok errors =>
    cases errors with
    | cons e rest => simp [registerIn, Log.register, checked]
    | nil =>
      cases leaf : s.leafBytes with
      | error e => simp [registerIn, Log.register, Log.append, appendIn, checked, leaf]
      | ok data =>
        obtain ⟨message, bytes, signed⟩ := receiptFor_ok (K := K) log.policy
          (log.tree.append K data) log.tree.size (leafHash K data) registeredAt
        have same : log.register K s registeredAt = .ok ({ log with
            tree := log.tree.append K data
            entries := log.entries ++
              [{ index := log.tree.size, registeredAt, statement := s }] },
            { unsigned K log.policy (log.tree.append K data) log.tree.size (leafHash K data)
                registeredAt with signature := .str (hex (log.policy.key.sign K message)) }) := by
          rw [Log.register, checked, ok_bind, Log.append, leaf, ok_bind]
          exact bind_ok.mpr ⟨message, bytes, rfl⟩
        obtain ⟨rc, inPlace, signed'⟩ := append_in log registeredAt leaf
        rw [same, registerIn, checked]
        simp only
        rw [inPlace]
        rw [signed] at signed'
        obtain rfl := Except.ok.inj signed'
        rfl

/-- A call that raises leaves the entries and the tree as they were. -/
theorem refused_unchanged {log : Log} {s : SignedStatement} {registeredAt : Int} {e : PyErr}
    (raised : (registerIn K log s registeredAt).2 = .error e) :
    (registerIn K log s registeredAt).1 = log := by
  rw [registerIn_register] at raised ⊢
  cases registered : log.register K s registeredAt with
  | error e => rfl
  | ok result =>
    rw [registered] at raised
    cases raised

theorem accepted_registered {log : Log} {s : SignedStatement} {registeredAt : Int}
    {rc : RegistrationReceipt} (accepted : (registerIn K log s registeredAt).2 = .ok rc) :
    log.register K s registeredAt = .ok ((registerIn K log s registeredAt).1, rc) := by
  rw [registerIn_register] at accepted ⊢
  cases registered : log.register K s registeredAt with
  | error e =>
    rw [registered] at accepted
    cases accepted
  | ok result =>
    rw [registered] at accepted
    obtain rfl := Except.ok.inj accepted
    rfl

/-- The later log extends the earlier one. -/
structure Extends (log next : Log) : Prop where
  policy : next.policy = log.policy
  entries : log.entries <+: next.entries
  leaves : log.tree.leaves <+: next.tree.leaves

theorem Extends.refl (log : Log) : Extends log log :=
  ⟨rfl, List.prefix_refl _, List.prefix_refl _⟩

theorem Extends.trans {a b c : Log} (first : Extends a b) (second : Extends b c) : Extends a c :=
  ⟨second.policy.trans first.policy, first.entries.trans second.entries,
    first.leaves.trans second.leaves⟩

theorem append_extends {log next : Log} {s : SignedStatement} {registeredAt : Int}
    {receipt : RegistrationReceipt} (h : log.append K s registeredAt = .ok (next, receipt)) :
    Extends log next := by
  obtain ⟨policy, entries, data, -, tree⟩ := append_ok h
  refine ⟨policy, ?_, ?_⟩
  · rw [entries]
    exact List.prefix_append _ _
  · rw [tree]
    exact List.prefix_append _ _

theorem registerIn_step (log : Log) (s : SignedStatement) (registeredAt : Int) :
    (registerIn K log s registeredAt).1 = log ∨
    ∃ rc, log.register K s registeredAt = .ok ((registerIn K log s registeredAt).1, rc) := by
  cases outcome : (registerIn K log s registeredAt).2 with
  | error e => exact .inl (refused_unchanged outcome)
  | ok rc => exact .inr ⟨rc, accepted_registered outcome⟩

theorem registerIn_extends (log : Log) (s : SignedStatement) (registeredAt : Int) :
    Extends log (registerIn K log s registeredAt).1 := by
  rcases registerIn_step (K := K) log s registeredAt with same | ⟨rc, registered⟩
  · rw [same]
    exact Extends.refl log
  · exact append_extends (register_ok registered).2

theorem registerIn_kept {log : Log} (kept : Kept K log) (s : SignedStatement)
    (registeredAt : Int) : Kept K (registerIn K log s registeredAt).1 := by
  rcases registerIn_step (K := K) log s registeredAt with same | ⟨rc, registered⟩
  · rw [same]
    exact kept
  · exact kept_register kept registered

theorem after_extends (log : Log) (calls : List Call) : Extends log (after K log calls) := by
  induction calls generalizing log with
  | nil => exact Extends.refl log
  | cons call calls ih => exact (registerIn_extends log call.1 call.2).trans (ih _)

theorem after_kept {log : Log} (kept : Kept K log) (calls : List Call) :
    Kept K (after K log calls) := by
  induction calls generalizing log with
  | nil => exact kept
  | cons call calls ih => exact ih (registerIn_kept kept call.1 call.2)

theorem after_append (log : Log) (before later : List Call) :
    after K log (before ++ later) = after K (after K log before) later := List.foldl_append

/-- The entry, the root and the proofs that a receipt's numbers stand for. -/
structure Proves (K : Primitives) (log : Log) (s : SignedStatement) (i n : Nat)
    (leaf root : Bytes) : Prop where
  entry : ∃ e, log.entries[i]? = some e ∧ e.statement = s
  stored : log.tree.leaves[i]? = some leaf
  rooted : log.tree.rootAt K n = .ok root
  consistent : ∃ proof, log.tree.consistencyProof K n log.tree.size = .ok proof ∧
    verifyConsistency K n log.tree.size root (log.tree.root K) proof = true
  included : ∀ k, i < k → k ≤ log.tree.size → ∃ at_, log.tree.rootAt K (k : Int) = .ok at_ ∧
    verifyInclusion K i k leaf (inclusionProofAt K log.tree i k) at_ = true

/-- The receipt is accepted for the statement, and the log proves what it says. -/
structure Upheld (K : Primitives) (tsPublicKey : Bytes) (log : Log) (rc : RegistrationReceipt)
    (s : SignedStatement) : Prop where
  verified : verifyReceipt K rc s tsPublicKey = .ok (true, "ok")
  proves : ∃ (i n : Nat) (leaf root : Bytes), rc.leafIndex = .int i ∧ rc.treeSize = .int n ∧
    rc.leafHash = .str (hex leaf) ∧ rc.rootHash = .str (hex root) ∧ Proves K log s i n leaf root

theorem proves_of_prefix {log next : Log} {s : SignedStatement} {i n : Nat} {leaf : Bytes}
    {e : LogEntry} (grown : Extends log next) (size : n = log.tree.size)
    (entry : log.entries[i]? = some e) (statement : e.statement = s)
    (stored : log.tree.leaves[i]? = some leaf) : Proves K next s i n leaf (log.tree.root K) := by
  obtain ⟨moreEntries, entries⟩ := grown.entries
  obtain ⟨moreLeaves, leaves⟩ := grown.leaves
  have inEntries : i < log.entries.length := (List.getElem?_eq_some_iff.mp entry).1
  have inLeaves : i < log.tree.leaves.length := (List.getElem?_eq_some_iff.mp stored).1
  have front : next.tree.leaves.take n = log.tree.leaves := by
    rw [size, ← leaves]
    exact List.take_left
  have length : n ≤ next.tree.size := by
    rw [size, MerkleTree.size, MerkleTree.size, ← leaves, List.length_append]
    omega
  have stored' : next.tree.leaves[i]? = some leaf := by
    rw [← leaves, List.getElem?_append_left inLeaves, stored]
  refine ⟨⟨e, ?_, statement⟩, stored', ?_, ?_, ?_⟩
  · rw [← entries, List.getElem?_append_left inEntries, entry]
  · rw [rootAt_nat length, front]
    rfl
  · obtain ⟨proof, made, accepted⟩ := consistency_complete (K := K) length
    rw [front] at accepted
    refine ⟨proof, ?_, accepted⟩
    rw [MerkleTree.consistencyProof, MerkleTree.size, List.take_length]
    exact made
  · intro k above inside
    refine ⟨_, rootAt_nat inside, ?_⟩
    have size' : (next.tree.leaves.take k).length = k := List.length_take_of_le inside
    have fits : i < (next.tree.leaves.take k).length := by omega
    have accepted := inclusion_complete (K := K) fits
    have here : (next.tree.leaves.take k)[i] = leaf := by
      rw [List.getElem_take]
      exact (List.getElem?_eq_some_iff.mp stored').2
    rw [here, size'] at accepted
    exact accepted

theorem fromHex_proof (proof : List Bytes) :
    ((Value.ofStrings (proof.map hex)).iterate >>= fun xs => xs.mapM fromHexValue) = .ok proof := by
  simp only [Value.ofStrings, Value.iterate, ok_bind]
  induction proof with
  | nil => rfl
  | cons p proof ih =>
    simp only [List.map_cons, List.mapM_cons, fromHexValue, fromHex_hex, ok_bind, ih, pure_ok]

theorem hex_truthy {b : Bytes} (some_ : b ≠ []) : (Value.str (hex b)).truthy = true := by
  have nonempty : hex b ≠ "" := by
    intro empty
    have length := congrArg String.length empty
    rw [hex_length] at length
    have zero : b.length = 0 := by
      simp only [String.length_empty] at length
      omega
    exact some_ (List.length_eq_zero_iff.mp zero)
  simpa [Value.truthy] using nonempty

/-- The receipt of an appended entry is accepted for its statement. -/
theorem receiptFor_verified {policy : LogPolicy} {tree : MerkleTree} {s : SignedStatement}
    {data : Bytes} {registeredAt : Int} {rc : RegistrationReceipt}
    (signs : ∀ message, policy.key.sign K message ≠ []) (bytes : s.leafBytes = .ok data)
    (made : receiptFor K policy (tree.append K data) tree.size (leafHash K data) registeredAt =
      .ok rc) : verifyReceipt K rc s (policy.key.publicKey K) = .ok (true, "ok") := by
  obtain ⟨message, signed, made'⟩ := receiptFor_ok (K := K) policy (tree.append K data) tree.size
    (leafHash K data) registeredAt
  rw [made'] at made
  obtain rfl := Except.ok.inj made
  have truthy := hex_truthy (signs message)
  have verified : K.verify (policy.key.publicKey K) message (policy.key.sign K message) = true :=
    K.verify_sign _ _
  have inside : tree.size < (tree.append K data).leaves.length := by
    simp [MerkleTree.size, MerkleTree.append]
  have included := inclusion_complete (K := K) inside
  have leaf : (tree.append K data).leaves[tree.size] = leafHash K data := by
    simp [MerkleTree.size, MerkleTree.append]
  rw [leaf] at included
  have smaller : less true (.int (tree.append K data).size) (.int tree.size) = .ok false := by
    have order : ¬ ((tree.append K data).size : Int) ≤ (tree.size : Int) := by
      have : tree.size < (tree.append K data).size := inside
      omega
    simp [less, scalarLess, number, order]
  have found : includes K (.int tree.size) (.int (tree.append K data).size) (leafHash K data)
      ((tree.append K data).inclusionProof K tree.size) ((tree.append K data).root K) =
      .ok true := by
    rw [includes, smaller]
    exact congrArg Except.ok included
  rw [verifyReceipt, RegistrationReceipt.signedBytes]
  rw [RegistrationReceipt.signedBytes] at signed
  simp only [RegistrationReceipt.body] at signed ⊢
  rw [signed, ok_bind]
  simp only [truthy, if_true, fromHexValue, fromHex_hex, ok_bind, verified, Bool.not_true,
    Bool.false_eq_true, if_false, bytes, unsigned, eq_str_str, beq_self_eq_true]
  have proof := fromHex_proof ((tree.append K data).inclusionProof K tree.size)
  obtain ⟨texts, listed, read⟩ := bind_ok.mp proof
  simp only [checkInclusion, listed, ok_bind, read, fromHexValue, fromHex_hex, found, if_true,
    pure_ok]

/-- What an accepted call leaves and answers. -/
structure Issued (K : Primitives) (log next : Log) (s : SignedStatement) (registeredAt : Int)
    (rc : RegistrationReceipt) (data : Bytes) : Prop where
  leaf : s.leafBytes = .ok data
  entries : next.entries = log.entries ++
    [{ index := log.tree.size, registeredAt, statement := s }]
  tree : next.tree = log.tree.append K data
  signed : receiptFor K log.policy next.tree log.tree.size (leafHash K data) registeredAt = .ok rc

theorem issued_of_accepted {log : Log} {s : SignedStatement} {registeredAt : Int}
    {rc : RegistrationReceipt} (accepted : (registerIn K log s registeredAt).2 = .ok rc) :
    ∃ data, Issued K log (registerIn K log s registeredAt).1 s registeredAt rc data := by
  have registered := register_ok (accepted_registered accepted)
  obtain ⟨-, entries, data, leaf, tree⟩ := append_ok registered.2
  obtain ⟨rc', inPlace, signed⟩ := append_in (K := K) log registeredAt leaf
  have step : registerIn K log s registeredAt = appendIn K log s registeredAt := by
    rw [registerIn, registered.1]
  rw [step, inPlace] at accepted
  obtain rfl := Except.ok.inj accepted
  exact ⟨data, leaf, entries, tree, by rw [tree]; exact signed⟩

/-- The fields of an issued receipt. -/
theorem issued_fields {log next : Log} {s : SignedStatement} {registeredAt : Int}
    {rc : RegistrationReceipt} {data : Bytes} (issued : Issued K log next s registeredAt rc data) :
    ∃ message, (unsigned K log.policy next.tree log.tree.size (leafHash K data)
        registeredAt).signedBytes = .ok message ∧
      rc = { unsigned K log.policy next.tree log.tree.size (leafHash K data) registeredAt with
             signature := .str (hex (log.policy.key.sign K message)) } := by
  obtain ⟨message, bytes, made⟩ := receiptFor_ok (K := K) log.policy next.tree log.tree.size
    (leafHash K data) registeredAt
  have signed := issued.signed
  rw [made] at signed
  exact ⟨message, bytes, (Except.ok.inj signed).symm⟩

/-- Right after a registration, and in every log that extends the one it left, the receipt
is upheld. -/
theorem registered_upheld {log next : Log} {s : SignedStatement} {registeredAt : Int}
    {rc : RegistrationReceipt} (kept : Kept K log)
    (signs : ∀ message, log.policy.key.sign K message ≠ [])
    (accepted : (registerIn K log s registeredAt).2 = .ok rc)
    (grown : Extends (registerIn K log s registeredAt).1 next) :
    Upheld K (log.policy.key.publicKey K) next rc s := by
  obtain ⟨data, issued⟩ := issued_of_accepted accepted
  have size : log.tree.size = log.entries.length := treeOf_size kept.tree
  have count : (log.tree.append K data).size = log.tree.size + 1 := by
    simp [MerkleTree.size, MerkleTree.append]
  refine ⟨?_, log.tree.size, log.tree.size + 1, leafHash K data,
    (registerIn K log s registeredAt).1.tree.root K, ?_⟩
  · have signed := issued.signed
    rw [issued.tree] at signed
    exact receiptFor_verified signs issued.leaf signed
  · obtain ⟨message, -, rfl⟩ := issued_fields issued
    refine ⟨rfl, ?_, rfl, rfl, ?_⟩
    · rw [← count, ← issued.tree]
      rfl
    · refine proves_of_prefix grown (by rw [issued.tree, count])
        (e := { index := log.tree.size, registeredAt, statement := s }) ?_ rfl ?_
      · rw [issued.entries, size]
        simp
      · rw [issued.tree]
        simp [MerkleTree.size, MerkleTree.append]

/-- Whatever is called before and after, a call that raises leaves the log as it was, and a
receipt that was issued is upheld for ever. -/
theorem receipts_stay_valid {logId : String} {key : KeyPair} {subRe : String → Bool}
    {policy : Dict} {now : Int} {log : Log} (signs : ∀ message, key.sign K message ≠ [])
    (created : openLog K logId key subRe policy now = .ok log) (before later : List Call)
    (s : SignedStatement) (registeredAt : Int) :
    (∀ e, (registerIn K (after K log before) s registeredAt).2 = .error e →
      (registerIn K (after K log before) s registeredAt).1 = after K log before) ∧
    ∀ rc, (registerIn K (after K log before) s registeredAt).2 = .ok rc →
      Upheld K (key.publicKey K) (after K log (before ++ (s, registeredAt) :: later)) rc s := by
  refine ⟨fun e raised => refused_unchanged raised, ?_⟩
  intro rc issued
  have kept := after_kept (kept_opened created) before
  have same : (after K log before).policy.key = key := by
    rw [(after_extends log before).policy]
    exact (opened_shape created).2.1
  have upheld := registered_upheld kept (by rw [same]; exact signs) issued
    (after_extends (K := K) _ later)
  rw [same] at upheld
  rw [after_append]
  exact upheld

def issuedReceipt : Py RegistrationReceipt := do
  let log ← plainLog
  (registerIn toy log plainContract 10).2

theorem issuedReceipt_facts : Returns issuedReceipt := by
  decide +kernel

/-- A contract is registered, a relay's report is sent after it, and the receipt is upheld. -/
theorem receipts_stay_valid_plain : ∃ log rc, plainLog = .ok log ∧
    (registerIn toy log plainContract 10).2 = .ok rc ∧
    Upheld toy (logKey.publicKey toy)
      (after toy log [(plainContract, 10), (listedReport, 20)]) rc plainContract := by
  obtain ⟨rc, made⟩ := issuedReceipt_facts
  obtain ⟨log, opened, issued⟩ := bind_ok.mp made
  have valid := receipts_stay_valid (K := toy) (fun message => by simp [KeyPair.sign, toy, logKey])
    opened [] [(listedReport, 20)] plainContract 10
  exact ⟨log, rc, opened, issued, valid.2 rc issued⟩

end AppendOnly
