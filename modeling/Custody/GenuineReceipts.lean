import Custody.AppendOnly
import Custody.HeldMeaning

/-!
# Genuine receipts in the audit

A receipt as the log signs it is always counted: it is included if its leaf is
where it says, and listed as missing otherwise. No exception is raised for it.
-/

namespace GenuineReceipts

open PyValue HexBytes CanonicalJson Commitments Statements Engine Merkle TransparencyLog
  HeldReceipts MerkleProofs HeldMeaning AppendOnly

variable {K : Primitives} {ctx : HeldContext}

/-- A receipt with the field types that the log writes, under the log's signature. -/
structure Genuine (K : Primitives) (ctx : HeldContext) (rc : RegistrationReceipt) : Prop where
  position : ∃ i : Nat, rc.leafIndex = .int i
  sized : ∃ n : Nat, rc.treeSize = .int n
  rooted : ∃ root, rc.rootHash = .str (hex root)
  time : ∃ t, rc.registeredAt = .int t
  verified : receiptVerifies K ctx rc = .ok true

/-- Every entry has bytes to hash. -/
def Readable (entries : List LogEntry) : Prop :=
  ∀ e ∈ entries, ∃ data, e.statement.leafBytes = .ok data

/-- The leaf the receipt names is where the receipt says. -/
def InPlace (K : Primitives) (ctx : HeldContext) (rc : RegistrationReceipt) : Prop :=
  ∃ (i : Nat) (e : LogEntry) (data : Bytes), rc.leafIndex = .int i ∧ ctx.entries[i]? = some e ∧
    e.statement.leafBytes = .ok data ∧ rc.leafHash = .str (hex (leafHash K data))

theorem entryAt_nat (i : Nat) : entryAt ctx (.int i) = .ok ctx.entries[i]? := by
  rw [entryAt, less_number rfl rfl, ok_bind]
  by_cases inside : i < ctx.entries.length
  · have low : (0 : Int) ≤ (i : Int) := by omega
    have high : (i : Int) < (ctx.entries.length : Int) := by omega
    simp [low, less_number (a := .int i) (b := .int ctx.entries.length) rfl rfl, high, number]
  · have low : (0 : Int) ≤ (i : Int) := by omega
    have high : ¬ (i : Int) < (ctx.entries.length : Int) := by omega
    have none_ : ctx.entries[i]? = none := List.getElem?_eq_none (by omega)
    simp [low, less_number (a := .int i) (b := .int ctx.entries.length) rfl rfl, high, none_]

theorem holdsLeaf_readable {rc : RegistrationReceipt} {e : LogEntry} {data : Bytes}
    (leaf : e.statement.leafBytes = .ok data) :
    holdsLeaf K rc e = .ok (Value.eq (.str (hex (leafHash K data))) rc.leafHash) := by
  rw [holdsLeaf, leafText, leaf]
  rfl

theorem elsewhere_returns {rc : RegistrationReceipt} {entries : List LogEntry}
    (readable : Readable entries) : ∃ found, elsewhere K rc entries = .ok found := by
  induction entries with
  | nil => exact ⟨none, rfl⟩
  | cons e entries ih =>
    obtain ⟨data, leaf⟩ := readable e List.mem_cons_self
    obtain ⟨found, rest⟩ := ih fun x member => readable x (List.mem_cons_of_mem _ member)
    rw [elsewhere, holdsLeaf_readable leaf, ok_bind, rest]
    split
    next => exact ⟨_, rfl⟩
    next => exact ⟨_, rfl⟩

/-- A genuine receipt is placed or missing, as its leaf is. -/
theorem placed_genuine {rc : RegistrationReceipt} (genuine : Genuine K ctx rc)
    (readable : Readable ctx.entries) (ident : Dict) :
    (InPlace K ctx rc ∧ placed K ctx ident rc = .ok (.included rc)) ∨
    (¬ InPlace K ctx rc ∧ ∃ entry found,
      placed K ctx ident rc = .ok (.missing rc (missingReason ident entry found))) := by
  obtain ⟨i, position⟩ := genuine.position
  obtain ⟨n, sized⟩ := genuine.sized
  obtain ⟨found, searched⟩ := @elsewhere_returns K rc ctx.entries readable
  have hashable : rc.treeSize.hashable = true := by rw [sized]; rfl
  cases here : ctx.entries[i]? with
  | none =>
    right
    have unfolded : placed K ctx ident rc = .ok (.missing rc (missingReason ident none found)) := by
      rw [placed, hashable, position, entryAt_nat, searched, here]
      rfl
    refine ⟨?_, none, found, unfolded⟩
    rintro ⟨j, e, data, same, there, -⟩
    rw [position] at same
    obtain rfl : i = j := by
      have := Value.int.inj same
      omega
    rw [here] at there
    cases there
  | some e =>
    obtain ⟨data, leaf⟩ := readable e (List.mem_of_getElem? here)
    have unfolded : placed K ctx ident rc = (do
        let there ← holdsLeaf K rc e
        if there then pure (.included rc)
        else pure (.missing rc (missingReason ident (some e) found))) := by
      rw [placed, hashable, position, entryAt_nat, searched, here]
      rfl
    rw [holdsLeaf_readable leaf, ok_bind] at unfolded
    rw [unfolded]
    by_cases same : Value.eq (.str (hex (leafHash K data))) rc.leafHash = true
    · left
      rw [if_pos same]
      exact ⟨⟨i, e, data, position, here, leaf, (eq_str _ _).mp same⟩, rfl⟩
    · right
      rw [if_neg same]
      refine ⟨?_, some e, found, rfl⟩
      rintro ⟨j, e', data', same', there, leaf', hash⟩
      rw [position] at same'
      obtain rfl : i = j := by
        have := Value.int.inj same'
        omega
      rw [here] at there
      obtain rfl := Option.some.inj there
      rw [leaf] at leaf'
      obtain rfl := Except.ok.inj leaf'
      exact same ((eq_str _ _).mpr hash)

/-- The item is a record of what `from_dict` reads as the receipt, with a holder that can be
counted. -/
structure Holds (item : Value) (d : Dict) (rc : RegistrationReceipt) : Prop where
  record : item = .dict d
  receipt : ∃ v, find d (.str "receipt") = some v ∧ RegistrationReceipt.fromDict v = .ok rc
  holder : (getOr d "holder").hashable = true

def holderOf (d : Dict) : Value :=
  if (getOr d "holder").truthy then getOr d "holder" else .str "U"

/-- What the audit writes about an item before it looks at its receipt. -/
def aboutOf (d : Dict) : Dict :=
  fields [("sub", getOr d "sub"), ("content_type", getOr d "content_type"), ("holder", holderOf d)]

theorem readReceipt_holds {item : Value} {d : Dict} {rc : RegistrationReceipt}
    (holds : Holds item d rc) : readReceipt item = .ok (some rc) := by
  obtain ⟨v, here, read⟩ := holds.receipt
  have found : item.item "receipt" = .ok v := by
    rw [holds.record, Value.item, here]
  rw [readReceipt, found, ok_bind, read]

theorem holderOf_hashable {d : Dict} (hashable : (getOr d "holder").hashable = true) :
    (holderOf d).hashable = true := by
  unfold holderOf
  split
  next => exact hashable
  next => rfl

/-- A dictionary with a countable holder is judged by its receipt. -/
theorem standing_dict {d : Dict} (hashable : (getOr d "holder").hashable = true) :
    standing K ctx (.dict d) = readReceipt (.dict d) >>= fun read =>
      match read with
      | none => pure (holderOf d, .unverifiable
          (.dict (aboutOf d ++ fields [("reason", .str "영수증 형식 오류")])))
      | some rc => standingOf K ctx (aboutOf d) rc >>= fun st => pure (holderOf d, st) := by
  have countable := holderOf_hashable hashable
  have named : (Value.dict d).get "holder" .null = .ok (getOr d "holder") := rfl
  have sub : (Value.dict d).get "sub" .null = .ok (getOr d "sub") := rfl
  have contentType : (Value.dict d).get "content_type" .null = .ok (getOr d "content_type") := rfl
  rw [holderOf] at countable
  rw [standing, named, ok_bind, sub, contentType]
  simp only [countable, Bool.not_true, Bool.false_eq_true, if_false, ok_bind]
  rfl

theorem standing_holds {item : Value} {d : Dict} {rc : RegistrationReceipt}
    (holds : Holds item d rc) : standing K ctx item =
      standingOf K ctx (aboutOf d) rc >>= fun st => pure (holderOf d, st) := by
  have read := readReceipt_holds holds
  rw [holds.record] at read ⊢
  rw [standing_dict holds.holder, read, ok_bind]

/-- The time of the head is a number, or the audit is given none. -/
def HeadTime (ctx : HeldContext) : Prop := ctx.headTime = .null ∨ ∃ h : Int, ctx.headTime = .int h

theorem isAfterSnapshot_genuine {rc : RegistrationReceipt} (genuine : Genuine K ctx rc)
    (head : HeadTime ctx) : ∃ late, isAfterSnapshot ctx rc = .ok late := by
  obtain ⟨t, time⟩ := genuine.time
  obtain ⟨n, sized⟩ := genuine.sized
  rw [isAfterSnapshot]
  rcases head with none_ | ⟨h, given⟩
  · rw [none_]
    exact ⟨false, rfl⟩
  · rw [given, time, sized, greater, greater, less_number rfl rfl, less_number rfl rfl]
    by_cases later : h < t
    · exact ⟨_, by simp [Value.isNone, later]; rfl⟩
    · exact ⟨false, by simp [Value.isNone, later]⟩

theorem isAfterSnapshot_before {rc : RegistrationReceipt} {t h : Int}
    (time : rc.registeredAt = .int t) (head : ctx.headTime = .int h) (early : t ≤ h) :
    isAfterSnapshot ctx rc = .ok false := by
  have order : ¬ h < t := by omega
  rw [isAfterSnapshot, head, time, greater, less_number rfl rfl]
  simp [Value.isNone, order]

/-- A genuine receipt is after the snapshot, in its place, or missing. -/
theorem standing_genuine {item : Value} {d : Dict} {rc : RegistrationReceipt}
    (holds : Holds item d rc) (genuine : Genuine K ctx rc) (readable : Readable ctx.entries)
    (head : HeadTime ctx) : ∃ st, standing K ctx item = .ok (holderOf d, st) ∧
      ((isAfterSnapshot ctx rc = .ok true ∧
          st = .afterSnapshot (.dict (identOf (aboutOf d) rc))) ∨
        (isAfterSnapshot ctx rc = .ok false ∧ InPlace K ctx rc ∧ st = .included rc) ∨
        (isAfterSnapshot ctx rc = .ok false ∧ ¬ InPlace K ctx rc ∧ ∃ entry found,
          st = .missing rc (missingReason (identOf (aboutOf d) rc) entry found))) := by
  obtain ⟨late, asked⟩ := isAfterSnapshot_genuine genuine head
  rw [standing_holds holds, standingOf, asked, ok_bind]
  cases late with
  | true => exact ⟨_, rfl, .inl ⟨rfl, rfl⟩⟩
  | false =>
    rw [genuine.verified]
    simp only [ok_bind, Bool.false_eq_true, if_false, if_true]
    rcases placed_genuine genuine readable (identOf (aboutOf d) rc) with
      ⟨there, placed⟩ | ⟨gone, entry, found, placed⟩
    · rw [placed]
      exact ⟨_, rfl, .inr (.inl ⟨trivial, there, rfl⟩)⟩
    · rw [placed]
      exact ⟨_, rfl, .inr (.inr ⟨trivial, gone, entry, found, rfl⟩)⟩

/-- A list of genuine receipts is audited without an exception. -/
theorem genuine_returns {tsa : Value → Except String Value} {held : List Value}
    (readable : Readable ctx.entries) (head : HeadTime ctx)
    (each : ∀ item ∈ held, ∃ d rc, Holds item d rc ∧ Genuine K ctx rc) :
    ∃ xs anchors, held.mapM (standing K ctx) = .ok xs ∧
      checkFirsts K tsa ctx.tree (countedOf xs) = .ok anchors ∧
      ∀ rc ∈ countedOf xs, Genuine K ctx rc := by
  have stands : ∀ item ∈ held, ∃ x, standing K ctx item = .ok x ∧
      ∀ rc ∈ x.2.counted, Genuine K ctx rc := by
    intro item member
    obtain ⟨d, rc, holds, genuine⟩ := each item member
    obtain ⟨st, stood, cases_⟩ := standing_genuine holds genuine readable head
    refine ⟨_, stood, ?_⟩
    intro rc' counted
    rcases cases_ with ⟨-, rfl⟩ | ⟨-, -, rfl⟩ | ⟨-, -, entry, found, rfl⟩
    · cases counted
    · obtain rfl := Option.some.inj counted
      exact genuine
    · obtain rfl := Option.some.inj counted
      exact genuine
  obtain ⟨xs, stood, all⟩ := mapM_each stands
  have counted : ∀ rc ∈ countedOf xs, Genuine K ctx rc := by
    intro rc member
    obtain ⟨x, inside, same⟩ := List.mem_filterMap.mp member
    exact all x inside rc same
  have sized : ∀ rc ∈ firstsOf (countedOf xs), ∃ (n : Nat) (root : Bytes),
      number rc.treeSize = some (n : Int) ∧ rc.rootHash = .str (hex root) := by
    intro rc member
    have genuine := counted rc (firstsOf_mem member)
    obtain ⟨n, size⟩ := genuine.sized
    obtain ⟨root, rooted⟩ := genuine.rooted
    exact ⟨n, root, by rw [size]; rfl, rooted⟩
  obtain ⟨anchors, checked⟩ := @checkFirsts_returns K tsa ctx.tree _ sized
  exact ⟨xs, anchors, stood, checked, counted⟩

end GenuineReceipts
