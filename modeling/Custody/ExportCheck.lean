import Custody.AppendOnly
import Custody.Auditing
import Custody.HeldMeaning

/-!
# Checking an export

An export is checked against what is pinned before any verdict in it is replayed:
the identities, the head, the numbering, the receipt of every entry and the
policy in entry zero. The replay then recomputes the tree once more and holds it
against the checkpoints that the auditor has kept.
-/

namespace ExportCheck

open PyValue HexBytes CanonicalJson Commitments Statements Engine Merkle MerkleProofs
  TransparencyLog HeldReceipts HeldMeaning ReplayAudit AppendOnly Identity Auditing

variable (K : Primitives)

/-- Each named field has the pinned text. -/
def fieldsAre (export_ : Value) : List (String × String) → Py Bool
  | [] => .ok true
  | (k, v) :: rest => do
    if (← export_.item k).eq (.str v) then fieldsAre export_ rest else pure false

def pinnedFields (trust : Trust) : List (String × String) :=
  [("log_id", trust.logId), ("ts_public_key", (trust.identities .T).publicKey),
   ("ts_kid", (trust.identities .T).kid), ("ts_iss", (trust.identities .T).iss),
   ("policy_hash", trust.policyHash)]

/-- Whether the stored receipt is the one of this statement at this place. -/
def receiptFits (trust : Trust) (index : Nat) (entry : Value) (stmt : SignedStatement)
    (tree : MerkleTree) : Py Bool := do
  let rc ← RegistrationReceipt.fromDict (← entry.item "receipt")
  let publicKey ← fromHexValue (.str (trust.identities .T).publicKey)
  let (valid, _) ← verifyReceipt K rc stmt publicKey
  if !(valid && rc.logId.eq (.str trust.logId) && rc.tsKid.eq (.str (trust.identities .T).kid) &&
      rc.leafIndex.eq (.int index) && rc.treeSize.eq (.int (index + 1))) then pure false
  else
    let at_ ← entry.item "registered_at"
    pure (rc.registeredAt.eq at_ && rc.rootHash.eq (.str (hex (tree.root K))))

/-- `except (ValueError, KeyError, TypeError)` around the receipt of one entry. -/
def receiptFails (fits : Py Bool) : Py Bool :=
  match fits with
  | .ok b => .ok (!b)
  | .error (.valueError _) | .error .unicodeDecodeError | .error (.nonAsciiKey _ _) => .ok true
  | .error .keyError => .ok true
  | .error .typeError => .ok true
  | .error e => .error e

/-- The loop over the entries, which grows the tree and collects the failed receipts. -/
def checkEntries (trust : Trust) : Nat → MerkleTree → List Value → Py (MerkleTree × List Nat)
  | _, tree, [] => .ok (tree, [])
  | index, tree, entry :: rest => do
    let stmt ← SignedStatement.fromDict (← entry.item "statement")
    let tree := tree.append K (← stmt.leafBytes)
    if !(← entry.item "index").eq (.int index) then
      throw (.valueError "log indexes are not contiguous")
    else
      let failed ← receiptFails (receiptFits K trust index entry stmt tree)
      let (whole, errors) ← checkEntries trust (index + 1) tree rest
      pure (whole, if failed then index :: errors else errors)

def checkFirst (trust : Trust) (entries : List Value) : Py Unit := do
  match entries.head? with
  | none => throw .keyError
  | some entry => do
    let first ← SignedStatement.fromDict (← entry.item "statement")
    if !first.contentType.eq (.str ctPolicy) then
      throw (.valueError "entry zero is not the pinned policy")
    else
      let hash ← first.statementHash K
      if hash = trust.policyHash then pure ()
      else throw (.valueError "entry zero is not the pinned policy")

structure Structure where
  head : Dict
  entries : List Value
  tree : MerkleTree
  receiptErrors : List Nat

def incomplete : PyErr := .valueError "incomplete log export"

/-- `verify_export` up to the call of `replay_audit`. -/
def checkStructure (trust : Trust) (export_ : Value) : Py Structure := do
  if !(trust.checkerVersion.eq (.str checkerVersion) && trust.receiptProfile.eq (.int 1)) then
    throw (.valueError "unsupported pinned checker or receipt profile")
  else if !(← fieldsAre export_ (pinnedFields trust)) then
    throw (.valueError "감사 자료가 사전에 고정한 T 신원·정책과 다릅니다.")
  else
    let shown ← export_.item "head"
    verifyHead K trust shown
    let head ← dictOf shown
    let given ← export_.item "entries"
    if !given.truthy then throw incomplete
    else
      let entries ← given.iterate
      if !(Value.eq (.int entries.length) (getOr head "tree_size")) then throw incomplete
      else
        let (tree, receiptErrors) ← checkEntries K trust 0 {} entries
        checkFirst K trust entries
        pure { head, entries, tree, receiptErrors }

/-- An entry as the replay reads it; its tree does not depend on the time. -/
def replayEntry (entry : Value) : Py LogEntry := do
  let index ← entry.item "index"
  let at_ ← entry.item "registered_at"
  let statement ← SignedStatement.fromDict (← entry.item "statement")
  pure { index := (number index).getD (-1), registeredAt := (number at_).getD 0, statement }

/-- What the rest of `replay_audit` finds: the policy, the held receipts and the verdicts. -/
structure Findings where
  ok : Bool
  comparedWithout : Bool

structure Replayed where
  ok : Bool
  anchors : List AnchorResult
  comparedWithout : Bool

/-- The tree, the head and the checkpoints of `replay_audit`. The rest of it reads no
checkpoint and may find anything or raise anything. -/
def replayTree (tsa : Value → Except String Value) (publicKey : String) (s : Structure)
    (anchorRecords : List Value) (rest : Py Findings) : Py Replayed := do
  let entries ← s.entries.mapM replayEntry
  let tsPub ← fromHexValue (.str publicKey)
  let tree ← treeOf K entries
  let treeOk ← treeMatchesHead K tree entries s.head
  let headSigOk ← verifyTreeHead K s.head tsPub
  let anchors ← verifyTree K tsa tree anchorRecords
  let found ← rest
  pure { ok := treeOk && headSigOk && anchors.all AnchorResult.ok && found.ok, anchors,
         comparedWithout := found.comparedWithout }

structure ExportReport where
  ok : Bool
  anchors : List AnchorResult
  receiptErrors : List Nat
  privateScope : String

/-- `verify_export(export, trust, anchors=...)`. -/
def verifyExport (tsa : Value → Except String Value) (trust : Trust) (export_ : Value)
    (anchorRecords : List Value) (rest : Py Findings) : Py ExportReport := do
  let s ← checkStructure K trust export_
  let replayed ← replayTree K tsa (trust.identities .T).publicKey s anchorRecords rest
  pure { ok := replayed.ok && s.receiptErrors.isEmpty, anchors := replayed.anchors,
         receiptErrors := s.receiptErrors,
         privateScope := if replayed.comparedWithout then "partial" else "complete" }

/-- The leaf hashes of an export's entries. -/
def exportLeaves (export_ : Value) : Py (List Bytes) := do
  let entries ← (← export_.item "entries").iterate
  entries.mapM fun entry => do
    let stmt ← SignedStatement.fromDict (← entry.item "statement")
    pure (leafHash K (← stmt.leafBytes))

variable {K}

theorem hasKey_item {d : Dict} {k : String} (present : hasKey d k = true) :
    (Value.dict d).item k = .ok (getOr d k) := by
  rw [hasKey] at present
  obtain ⟨v, found⟩ := Option.isSome_iff_exists.mp present
  rw [Value.item, getOr, found]
  rfl

theorem checkStructure_head {trust : Trust} {export_ : Value} {s : Structure}
    (checked : checkStructure K trust export_ = .ok s) :
    ∃ n, export_.item "head" = .ok (.dict s.head) ∧ HeadFields trust s.head n ∧
      ∃ given, export_.item "entries" = .ok given ∧ given.iterate = .ok s.entries ∧
        s.entries.length = n := by
  rw [checkStructure] at checked
  split at checked
  next => cases checked
  next =>
    obtain ⟨pinned, -, checked⟩ := bind_ok.mp checked
    cases pinned with
    | false => cases checked
    | true =>
      simp only [Bool.not_true, Bool.false_eq_true, if_false] at checked
      obtain ⟨shown, here, checked⟩ := bind_ok.mp checked
      obtain ⟨u, verified, checked⟩ := bind_ok.mp checked
      obtain ⟨head, n, rfl, known, -⟩ := verifyHead_fields verified
      obtain ⟨head', same, checked⟩ := bind_ok.mp checked
      obtain rfl := Except.ok.inj same
      obtain ⟨given, listed, checked⟩ := bind_ok.mp checked
      split at checked
      next => cases checked
      next =>
        obtain ⟨entries, iterated, checked⟩ := bind_ok.mp checked
        rw [known.size] at checked
        by_cases long : Value.eq (.int entries.length) (.int n) = true
        · simp only [long, Bool.not_true, Bool.false_eq_true, if_false] at checked
          obtain ⟨⟨tree, receiptErrors⟩, -, checked⟩ := bind_ok.mp checked
          obtain ⟨u, -, checked⟩ := bind_ok.mp checked
          obtain rfl := Except.ok.inj checked
          refine ⟨n, here, known, given, listed, iterated, ?_⟩
          have same : (entries.length : Int) = (n : Int) := by
            simpa [Value.eq, Value.scalarEq] using long
          exact_mod_cast same
        · simp [long] at checked

/-- The tree of the replay is the tree of the export's leaves. -/
theorem treeOf_replayed {entries : List Value} {read : List LogEntry} {tree : MerkleTree}
    (replayed : entries.mapM replayEntry = .ok read) (made : treeOf K read = .ok tree) :
    entries.mapM (fun entry => do
      let stmt ← SignedStatement.fromDict (← entry.item "statement")
      pure (leafHash K (← stmt.leafBytes))) = .ok tree.leaves := by
  obtain ⟨leaves, hashed, same⟩ := bind_ok.mp made
  obtain rfl := Except.ok.inj same
  clear made
  induction entries generalizing read leaves with
  | nil =>
    obtain rfl := Except.ok.inj replayed
    exact hashed
  | cons entry entries ih =>
    rw [List.mapM_cons] at replayed
    obtain ⟨e, first, replayed⟩ := bind_ok.mp replayed
    obtain ⟨es, others, replayed⟩ := bind_ok.mp replayed
    obtain rfl := Except.ok.inj replayed
    rw [List.mapM_cons] at hashed
    obtain ⟨leaf, here, hashed⟩ := bind_ok.mp hashed
    obtain ⟨rest, later, hashed⟩ := bind_ok.mp hashed
    obtain rfl := Except.ok.inj hashed
    obtain ⟨index, -, first⟩ := bind_ok.mp first
    obtain ⟨at_, -, first⟩ := bind_ok.mp first
    obtain ⟨inner, given, first⟩ := bind_ok.mp first
    obtain ⟨statement, parsed, first⟩ := bind_ok.mp first
    obtain rfl := Except.ok.inj first
    rw [List.mapM_cons, given, ok_bind, parsed, ok_bind]
    have tail : entries.mapM (fun entry => do
        let stmt ← SignedStatement.fromDict (← entry.item "statement")
        pure (leafHash K (← stmt.leafBytes))) = .ok rest := ih others rest later rfl
    rw [tail]
    simp only at here
    rw [here]
    rfl

/-- An export that is accepted for a head. -/
structure Accepted (K : Primitives) (tsa : Value → Except String Value) (trust : Trust)
    (export_ : Value) (anchorRecords : List Value) (head : Dict) (leaves : List Bytes) :
    Prop where
  shown : export_.item "head" = .ok (.dict head)
  known : HeadFields trust head leaves.length
  read : exportLeaves K export_ = .ok leaves
  root : getOr head "root_hash" = .str (hex (mth K leaves))
  anchored : ∀ record ∈ anchorRecords, ∃ out, checkAnchor K tsa { leaves } record = .ok out ∧
    out.ok = true

theorem verifyExport_accepted {tsa : Value → Except String Value} {trust : Trust}
    {export_ : Value} {anchorRecords : List Value} {rest : Py Findings} {report : ExportReport}
    (verified : verifyExport K tsa trust export_ anchorRecords rest = .ok report)
    (said : report.ok = true) :
    ∃ head leaves, Accepted K tsa trust export_ anchorRecords head leaves := by
  obtain ⟨s, checked, verified⟩ := bind_ok.mp verified
  obtain ⟨replayed, replay, verified⟩ := bind_ok.mp verified
  obtain rfl := Except.ok.inj verified
  obtain ⟨n, shown, known, given, listed, iterated, length⟩ := checkStructure_head checked
  obtain ⟨read, parsed, replay⟩ := bind_ok.mp replay
  obtain ⟨tsPub, -, replay⟩ := bind_ok.mp replay
  obtain ⟨tree, made, replay⟩ := bind_ok.mp replay
  obtain ⟨treeOk, compared, replay⟩ := bind_ok.mp replay
  obtain ⟨headSigOk, -, replay⟩ := bind_ok.mp replay
  obtain ⟨anchors, anchored, replay⟩ := bind_ok.mp replay
  obtain ⟨found, -, replay⟩ := bind_ok.mp replay
  obtain rfl := Except.ok.inj replay
  simp only [Bool.and_eq_true] at said
  obtain ⟨⟨⟨⟨fits, -⟩, agreed⟩, -⟩, -⟩ := said
  have hashed := treeOf_replayed parsed made
  have leaves : exportLeaves K export_ = .ok tree.leaves := by
    rw [exportLeaves, listed, ok_bind, iterated, ok_bind]
    exact hashed
  have count : tree.leaves.length = n := (mapM_ok_length hashed).trans length
  refine ⟨s.head, tree.leaves, shown, count ▸ known, leaves, ?_, ?_⟩
  · rw [treeMatchesHead] at compared
    obtain ⟨rootHash, here, compared⟩ := bind_ok.mp compared
    by_cases same : Value.eq (.str (hex (tree.root K))) rootHash = true
    · obtain rfl := (eq_str _ _).mp same
      exact getItem_getOr here
    · simp only [same, Bool.not_false, if_true] at compared
      rw [← Except.ok.inj compared] at fits
      cases fits
  · intro record member
    obtain ⟨out, inside, result⟩ := mapM_ok_mem anchored member
    exact ⟨out, result, List.all_eq_true.mp agreed out inside⟩

end ExportCheck
