import Custody.EngineMeaning
import Custody.ReplayAudit

/-!
# What a reachable log keeps

Entry zero is the policy the log was opened with, every later entry passed the
check against that policy, indices are positions, and the tree is the tree of
the entries. The policy itself never changes.
-/

namespace LogInvariant

open PyValue HexBytes CanonicalJson Commitments Statements Schemas Evidence Engine EngineMeaning
  Merkle TransparencyLog ReplayAudit

variable {K : Primitives}

theorem inOrder_append (n : Nat) (xs : List LogEntry) (e : LogEntry) :
    inOrder n (xs ++ [e]) = (inOrder n xs && e.index == (n + xs.length : Nat)) := by
  induction xs generalizing n with
  | nil => simp [inOrder]
  | cons x xs ih =>
    have shift : n + 1 + xs.length = n + (xs.length + 1) := by omega
    simp only [List.cons_append, inOrder, ih, List.length_cons, shift, Bool.and_assoc]

/-- What the log's settings take from the policy payload it was opened with. -/
structure Founded (K : Primitives) (p : LogPolicy) (payload : Dict) : Prop where
  issued : ∃ at_, issue K p.key p.tsIss (.str ("urn:itx:policy:" ++ p.logId)) (.str ctPolicy)
    payload at_ = .ok p.policyStatement
  hashed : p.policyStatement.statementHash K = .ok p.policyHash
  keys : ∃ trusted, (getItem payload "trusted_keys" >>= trustedKeys) = .ok trusted ∧
    p.trusted = insert trusted (.str p.key.kid) (p.tsIss, p.key.publicKey K)
  rights : ∃ rights, (getItem payload "issuer_content_types" >>= issuerRights) = .ok rights ∧
    p.issuerContentTypes = insert rights p.tsIss tsContentTypes
  version : ∃ version, getItem payload "version" = .ok version ∧
    p.trustKeysVersion = keysVersion K p.logId version
  issuer : p.tsIss.hashable = true

/-- The shape of a log, whatever its operator appended to it. -/
structure Formed (K : Primitives) (log : Log) : Prop where
  founded : ∃ payload, Founded K log.policy payload
  opened : ∃ first, log.entries.head? = some first ∧ first.statement = log.policy.policyStatement
  numbered : inOrder 0 log.entries = true
  tree : treeOf K log.entries = .ok log.tree

structure Kept (K : Primitives) (log : Log) : Prop extends Formed K log where
  checked : ∀ e ∈ log.entries.tail, log.checkPolicy K e.statement = .ok []

/-- The check looks at the policy only, not at what is registered. -/
theorem checkPolicy_congr {log next : Log} (same : next.policy = log.policy)
    (s : SignedStatement) : next.checkPolicy K s = log.checkPolicy K s := by
  simp only [Log.checkPolicy, Log.subMatches, Log.keyErrors, same]

theorem treeOf_append {entries : List LogEntry} {tree : MerkleTree} {e : LogEntry} {data : Bytes}
    (before : treeOf K entries = .ok tree) (leaf : e.statement.leafBytes = .ok data) :
    treeOf K (entries ++ [e]) = .ok (tree.append K data) := by
  obtain ⟨leaves, hashed, h⟩ := bind_ok.mp before
  obtain rfl := Except.ok.inj h
  have one : [e].mapM (fun e => do pure (leafHash K (← e.statement.leafBytes)))
      = .ok [leafHash K data] := by
    simp [leaf]
  rw [treeOf, mapM_append_ok hashed one]
  rfl

theorem treeOf_size {entries : List LogEntry} {tree : MerkleTree}
    (h : treeOf K entries = .ok tree) : tree.size = entries.length := by
  obtain ⟨leaves, hashed, h⟩ := bind_ok.mp h
  obtain rfl := Except.ok.inj h
  exact mapM_ok_length hashed

/-- A log as it was opened. -/
structure Opened (K : Primitives) (logId : String) (key : KeyPair) (policy : Dict) (now : Int)
    (log : Log) : Prop where
  founded : Founded K log.policy policy
  issuer : getItem policy "ts_iss" = .ok log.policy.tsIss
  signer : log.policy.key = key
  named : log.policy.logId = logId
  issued : issue K key log.policy.tsIss (.str ("urn:itx:policy:" ++ logId)) (.str ctPolicy)
    policy now = .ok log.policy.policyStatement
  entries : log.entries =
    [{ index := 0, registeredAt := now, statement := log.policy.policyStatement }]
  tree : treeOf K log.entries = .ok log.tree

theorem openLog_ok {logId : String} {key : KeyPair} {subRe : String → Bool} {policy : Dict}
    {now : Int} {log : Log} (created : openLog K logId key subRe policy now = .ok log) :
    Opened K logId key policy now log := by
  simp only [openLog] at created
  obtain ⟨tsIss, issuer, created⟩ := bind_ok.mp created
  obtain ⟨types, -, created⟩ := bind_ok.mp created
  obtain ⟨listed, -, created⟩ := bind_ok.mp created
  obtain ⟨allowed, -, created⟩ := bind_ok.mp created
  obtain ⟨keys, hk, created⟩ := bind_ok.mp created
  obtain ⟨trusted, ht, created⟩ := bind_ok.mp created
  obtain ⟨ict, hi, created⟩ := bind_ok.mp created
  obtain ⟨rights, hr, created⟩ := bind_ok.mp created
  by_cases hashable : tsIss.hashable = true
  · simp only [hashable, Bool.not_true, Bool.false_eq_true, if_false] at created
    obtain ⟨version, hv, created⟩ := bind_ok.mp created
    obtain ⟨statement, hs, created⟩ := bind_ok.mp created
    obtain ⟨hash, hh, created⟩ := bind_ok.mp created
    obtain ⟨leaf, hl, created⟩ := bind_ok.mp created
    obtain rfl := Except.ok.inj created
    exact {
      founded := {
        issued := ⟨now, hs⟩
        hashed := hh
        keys := ⟨trusted, by rw [hk, ok_bind, ht], rfl⟩
        rights := ⟨rights, by rw [hi, ok_bind, hr], rfl⟩
        version := ⟨version, hv, rfl⟩
        issuer := hashable }
      issuer
      signer := rfl
      named := rfl
      issued := hs
      entries := rfl
      tree := by simp [treeOf, hl, MerkleTree.append] }
  · simp only [hashable, Bool.not_false, if_true] at created
    cases created

theorem kept_opened {logId : String} {key : KeyPair} {subRe : String → Bool} {policy : Dict}
    {now : Int} {log : Log} (created : openLog K logId key subRe policy now = .ok log) :
    Kept K log := by
  have opened := openLog_ok created
  refine ⟨⟨⟨policy, opened.founded⟩, ?_, ?_, opened.tree⟩, ?_⟩ <;> rw [opened.entries]
  · exact ⟨_, rfl, rfl⟩
  · rfl
  · simp

/-- A fresh log holds its policy only. -/
theorem opened_shape {logId : String} {key : KeyPair} {subRe : String → Bool} {policy : Dict}
    {now : Int} {log : Log} (created : openLog K logId key subRe policy now = .ok log) :
    getItem policy "ts_iss" = .ok log.policy.tsIss ∧ log.policy.key = key ∧
    log.policy.logId = logId ∧
    ∃ first, log.entries = [first] ∧ first.statement = log.policy.policyStatement := by
  have opened := openLog_ok created
  exact ⟨opened.issuer, opened.signer, opened.named, _, opened.entries, rfl⟩

theorem formed_append {log next : Log} {s : SignedStatement} {registeredAt : Int}
    {receipt : RegistrationReceipt} (formed : Formed K log)
    (appended : log.append K s registeredAt = .ok (next, receipt)) : Formed K next := by
  obtain ⟨samePolicy, grown, data, leaf, tree⟩ := append_ok appended
  obtain ⟨first, opened, policyFirst⟩ := formed.opened
  refine ⟨by rw [samePolicy]; exact formed.founded, ⟨first, ?_, ?_⟩, ?_, ?_⟩
  · rw [grown, List.head?_append, opened]
    rfl
  · rw [samePolicy]
    exact policyFirst
  · rw [grown, inOrder_append, formed.numbered, treeOf_size formed.tree]
    simp
  · rw [grown, tree]
    exact treeOf_append formed.tree leaf

theorem kept_append {log next : Log} {s : SignedStatement} {registeredAt : Int}
    {receipt : RegistrationReceipt} (kept : Kept K log) (passed : log.checkPolicy K s = .ok [])
    (appended : log.append K s registeredAt = .ok (next, receipt)) : Kept K next := by
  refine ⟨formed_append kept.toFormed appended, fun e member => ?_⟩
  obtain ⟨samePolicy, grown, -, -, -⟩ := append_ok appended
  obtain ⟨first, opened, -⟩ := kept.opened
  have nonempty : log.entries ≠ [] := by
    rintro none_
    simp [none_] at opened
  rw [checkPolicy_congr samePolicy]
  rw [grown, List.tail_append_of_ne_nil nonempty] at member
  rcases List.mem_append.mp member with old | new
  · exact kept.checked e old
  · rw [List.mem_singleton.mp new]
    exact passed

theorem kept_register {log next : Log} {s : SignedStatement} {registeredAt : Int}
    {receipt : RegistrationReceipt} (kept : Kept K log)
    (registered : log.register K s registeredAt = .ok (next, receipt)) : Kept K next := by
  obtain ⟨passed, appended⟩ := register_ok registered
  exact kept_append kept passed appended

/-- An entry is the policy or passed the check. -/
theorem Kept.mem {log : Log} (kept : Kept K log) {e : LogEntry} (member : e ∈ log.entries) :
    e.statement = log.policy.policyStatement ∨ log.checkPolicy K e.statement = .ok [] := by
  obtain ⟨first, opened, policyFirst⟩ := kept.opened
  cases entries : log.entries with
  | nil => simp [entries] at member
  | cons x rest =>
    rw [entries] at opened member
    obtain rfl := Option.some.inj opened
    rcases List.mem_cons.mp member with rfl | later
    · exact .inl policyFirst
    · exact .inr (kept.checked e (by rw [entries]; exact later))

/-- Every reachable log keeps the invariant. -/
theorem reachable_kept {log : Log} (reached : Reachable K log) : Kept K log := by
  induction reached with
  | opened created => exact kept_opened created
  | registered earlier accepted kept => exact kept_register kept accepted

end LogInvariant
