import Custody.Equality
import Custody.HeldReceipts
import Custody.MerkleProofs
import Custody.VerdictComparison

/-!
# What the receipt audit finds

Each held item is judged on its own: what it turns out to be does not depend on
the other items. Only the checkpoints are collected across items, the first of
each size, and a checkpoint agrees exactly if its root is the prefix root of the
presented tree.
-/

namespace HeldMeaning

open PyValue Equality HexBytes CanonicalJson Commitments Statements Engine Merkle
  TransparencyLog HeldReceipts MerkleProofs

variable (K : Primitives) (ctx : HeldContext)

/-- What one held item turns out to be, with what is written about it. -/
inductive Standing where
  | unverifiable (record : Value)
  | afterSnapshot (record : Value)
  | included (rc : RegistrationReceipt)
  | missing (rc : RegistrationReceipt) (record : Value)

/-- The receipt of an item that was looked for in the log. -/
def Standing.counted : Standing → Option RegistrationReceipt
  | .included rc => some rc
  | .missing rc _ => some rc
  | _ => none

def Standing.missingRecord : Standing → Option Value
  | .missing _ record => some record
  | _ => none

def Standing.unverifiableRecord : Standing → Option Value
  | .unverifiable record => some record
  | _ => none

def Standing.afterRecord : Standing → Option Value
  | .afterSnapshot record => some record
  | _ => none

def Standing.isIncluded : Standing → Bool
  | .included _ => true
  | _ => false

/-- Where the leaf of a verified receipt is found. -/
def placed (ident : Dict) (rc : RegistrationReceipt) : Py Standing := do
  if !rc.treeSize.hashable then throw .typeError
  let entry ← entryAt ctx rc.leafIndex
  let there ← match entry with
    | some e => holdsLeaf K rc e
    | none => pure false
  if there then pure (.included rc)
  else
    let found ← elsewhere K rc ctx.entries
    pure (.missing rc (missingReason ident entry found))

def identOf (about : Dict) (rc : RegistrationReceipt) : Dict :=
  about ++ fields [("leaf_index", rc.leafIndex), ("leaf_hash", rc.leafHash),
    ("registered_at", rc.registeredAt)]

/-- A readable receipt. -/
def standingOf (about : Dict) (rc : RegistrationReceipt) : Py Standing := do
  if ← isAfterSnapshot ctx rc then pure (.afterSnapshot (.dict (identOf about rc)))
  else if ← receiptVerifies K ctx rc then placed K ctx (identOf about rc) rc
  else pure (.unverifiable (.dict (identOf about rc ++ fields
    [("reason", .str "영수증 서명이 T 키로 검증되지 않거나 다른 로그의 영수증")])))

/-- The holder of an item and what the item turns out to be. -/
def standing (item : Value) : Py (Value × Standing) := do
  let named ← item.get "holder" .null
  let holder := if named.truthy then named else .str "U"
  if !holder.hashable then throw .typeError
  let sub ← item.get "sub" .null
  let contentType ← item.get "content_type" .null
  let about := fields [("sub", sub), ("content_type", contentType), ("holder", holder)]
  match ← readReceipt item with
  | none => pure (holder, .unverifiable
      (.dict (about ++ fields [("reason", .str "영수증 형식 오류")])))
  | some rc => do pure (holder, ← standingOf K ctx about rc)

def checkpointOf (rc : RegistrationReceipt) : Value :=
  .dict (fields [("tree_size", rc.treeSize), ("root_hash", rc.rootHash),
    ("anchored_at", rc.registeredAt)])

/-- The first checkpoint of a size is kept. -/
def keepFirst (d : List (Value × Value)) (rc : RegistrationReceipt) : List (Value × Value) :=
  if (find d rc.treeSize).isSome then d else PyValue.insert d rc.treeSize (checkpointOf rc)

def checkpointsOf (rcs : List RegistrationReceipt) : List (Value × Value) :=
  rcs.foldl keepFirst []

/-- What one item adds to the audit. -/
def enter (s : HeldState) (holder : Value) (st : Standing) : HeldState :=
  let s := s.count holder fun t => { t with held := t.held + 1 }
  match st with
  | .unverifiable record => ({ s with unverifiable := s.unverifiable ++ [record] }).count holder
      fun t => { t with unverifiable := t.unverifiable + 1 }
  | .afterSnapshot record => ({ s with afterSnapshot := s.afterSnapshot ++ [record] }).count holder
      fun t => { t with afterSnapshot := t.afterSnapshot + 1 }
  | .included rc => ({ s with checkpoints := keepFirst s.checkpoints rc,
                              included := s.included + 1 }).count holder
      fun t => { t with included := t.included + 1 }
  | .missing rc record => ({ s with checkpoints := keepFirst s.checkpoints rc,
                                    missing := s.missing ++ [record] }).count holder
      fun t => { t with missing := t.missing + 1 }

variable {K ctx}

theorem setDefault_keepFirst {d : List (Value × Value)} {rc : RegistrationReceipt}
    (hashable : rc.treeSize.hashable = true) :
    setDefault d rc.treeSize (checkpointOf rc) = .ok (keepFirst d rc) := by
  rw [setDefault, keepFirst, hashable]
  simp only [Bool.not_true, Bool.false_eq_true, if_false]
  split
  next => rfl
  next => rfl

theorem lookForLeaf_placed (s : HeldState) (holder : Value) (ident : Dict)
    (rc : RegistrationReceipt) :
    lookForLeaf K ctx (s.count holder fun t => { t with held := t.held + 1 }) holder ident rc =
      placed K ctx ident rc >>= fun st => pure (enter s holder st) := by
  rw [lookForLeaf, placed]
  by_cases hashable : rc.treeSize.hashable = true
  · have kept := setDefault_keepFirst (d := (s.count holder
      fun t => { t with held := t.held + 1 }).checkpoints) hashable
    rw [checkpointOf] at kept
    rw [kept]
    simp only [ok_bind, hashable, Bool.not_true, Bool.false_eq_true, if_false]
    cases entryAt ctx rc.leafIndex with
    | error e => rfl
    | ok entry =>
      simp only [ok_bind]
      cases entry with
      | none =>
        simp only [pure_ok, ok_bind, Bool.false_eq_true, if_false]
        cases elsewhere K rc ctx.entries with
        | error e => rfl
        | ok found => rfl
      | some e =>
        simp only
        cases holdsLeaf K rc e with
        | error e => rfl
        | ok there =>
          cases there with
          | true => rfl
          | false =>
            simp only [ok_bind, Bool.false_eq_true, if_false]
            cases elsewhere K rc ctx.entries with
            | error e => rfl
            | ok found => rfl
  · simp [setDefault, hashable]

/-- An item changes the state as its standing says. -/
theorem holdItem_standing (s : HeldState) (item : Value) :
    holdItem K ctx s item = standing K ctx item >>= fun x => pure (enter s x.1 x.2) := by
  rw [holdItem, standing]
  cases item.get "holder" .null with
  | error e => rfl
  | ok named =>
    simp only [ok_bind]
    generalize (if named.truthy then named else .str "U" : Value) = holder
    by_cases hashable : holder.hashable = true
    · simp only [hashable, Bool.not_true, Bool.false_eq_true, if_false]
      cases item.get "sub" .null with
      | error e => rfl
      | ok sub =>
        simp only [ok_bind]
        cases item.get "content_type" .null with
        | error e => rfl
        | ok contentType =>
          simp only [ok_bind]
          cases readReceipt item with
          | error e => rfl
          | ok read =>
            cases read with
            | none => rfl
            | some rc =>
              simp only [ok_bind, standingOf]
              cases isAfterSnapshot ctx rc with
              | error e => rfl
              | ok late =>
                cases late with
                | true => rfl
                | false =>
                  simp only [ok_bind, Bool.false_eq_true, if_false]
                  cases receiptVerifies K ctx rc with
                  | error e => rfl
                  | ok valid =>
                    cases valid with
                    | false => rfl
                    | true =>
                      simp only [ok_bind, if_true]
                      have looked := fun ident : Dict =>
                        @lookForLeaf_placed K ctx s holder ident rc
                      rw [looked, identOf]
                      generalize placed K ctx _ rc = result
                      cases result with
                      | error e => rfl
                      | ok st => rfl
    · simp [hashable]

theorem foldlM_standing (held : List Value) (s : HeldState) :
    held.foldlM (holdItem K ctx) s = held.mapM (standing K ctx) >>= fun xs =>
      pure (xs.foldl (fun s x => enter s x.1 x.2) s) := by
  induction held generalizing s with
  | nil => rfl
  | cons item held ih =>
    rw [List.foldlM_cons, List.mapM_cons, holdItem_standing]
    cases standing K ctx item with
    | error e => rfl
    | ok x =>
      simp only [ok_bind, pure_ok, ih]
      cases held.mapM (standing K ctx) with
      | error e => rfl
      | ok xs => rfl

theorem enter_fields (s : HeldState) (holder : Value) (st : Standing) :
    (enter s holder st).missing = s.missing ++ st.missingRecord.toList ∧
    (enter s holder st).unverifiable = s.unverifiable ++ st.unverifiableRecord.toList ∧
    (enter s holder st).afterSnapshot = s.afterSnapshot ++ st.afterRecord.toList ∧
    (enter s holder st).included = s.included + (if st.isIncluded then 1 else 0) ∧
    (enter s holder st).checkpoints = st.counted.toList.foldl keepFirst s.checkpoints := by
  cases st with
  | unverifiable record => simp [enter, HeldState.count, Standing.missingRecord,
      Standing.unverifiableRecord, Standing.afterRecord, Standing.isIncluded, Standing.counted]
  | afterSnapshot record => simp [enter, HeldState.count, Standing.missingRecord,
      Standing.unverifiableRecord, Standing.afterRecord, Standing.isIncluded, Standing.counted]
  | included rc => simp [enter, HeldState.count, Standing.missingRecord,
      Standing.unverifiableRecord, Standing.afterRecord, Standing.isIncluded, Standing.counted]
  | missing rc record => simp [enter, HeldState.count, Standing.missingRecord,
      Standing.unverifiableRecord, Standing.afterRecord, Standing.isIncluded, Standing.counted]

theorem enter_all (xs : List (Value × Standing)) (s : HeldState) :
    (xs.foldl (fun s x => enter s x.1 x.2) s).missing =
      s.missing ++ xs.filterMap (fun x => x.2.missingRecord) ∧
    (xs.foldl (fun s x => enter s x.1 x.2) s).unverifiable =
      s.unverifiable ++ xs.filterMap (fun x => x.2.unverifiableRecord) ∧
    (xs.foldl (fun s x => enter s x.1 x.2) s).afterSnapshot =
      s.afterSnapshot ++ xs.filterMap (fun x => x.2.afterRecord) ∧
    (xs.foldl (fun s x => enter s x.1 x.2) s).included =
      s.included + xs.countP (fun x => x.2.isIncluded) ∧
    (xs.foldl (fun s x => enter s x.1 x.2) s).checkpoints =
      (xs.filterMap fun x => x.2.counted).foldl keepFirst s.checkpoints := by
  induction xs generalizing s with
  | nil => simp
  | cons x xs ih =>
    obtain ⟨missing, unverifiable, after, included, checkpoints⟩ := enter_fields s x.1 x.2
    obtain ⟨missing', unverifiable', after', included', checkpoints'⟩ := ih (enter s x.1 x.2)
    simp only [List.foldl_cons]
    refine ⟨?_, ?_, ?_, ?_, ?_⟩
    · rw [missing', missing, List.append_assoc]
      cases h : x.2.missingRecord <;> simp [h]
    · rw [unverifiable', unverifiable, List.append_assoc]
      cases h : x.2.unverifiableRecord <;> simp [h]
    · rw [after', after, List.append_assoc]
      cases h : x.2.afterRecord <;> simp [h]
    · rw [included', included, List.countP_cons]
      omega
    · rw [checkpoints', checkpoints]
      cases h : x.2.counted <;> simp [h]

/-- The receipts that were looked for in the log. -/
def countedOf (xs : List (Value × Standing)) : List RegistrationReceipt :=
  xs.filterMap fun x => x.2.counted

variable (K) in
/-- The checkpoints in the order of their sizes, each held against the tree. -/
def checkFirsts (tsa : Value → Except String Value) (tree : MerkleTree)
    (rcs : List RegistrationReceipt) : Py (List AnchorResult) := do
  let ordered ← sortedBy Prod.fst (checkpointsOf rcs)
  verifyTree K tsa tree (ordered.map Prod.snd)

def reportOf (held : List Value) (xs : List (Value × Standing)) (anchors : List AnchorResult) :
    HeldReport :=
  let s := xs.foldl (fun s x => enter s x.1 x.2) {}
  { held := held.length, included := xs.countP fun x => x.2.isIncluded,
    missing := xs.filterMap fun x => x.2.missingRecord,
    unverifiable := xs.filterMap fun x => x.2.unverifiableRecord,
    afterSnapshot := xs.filterMap fun x => x.2.afterRecord, receiptCheckpoints := anchors,
    byHolder := s.byHolder,
    ok := (xs.filterMap fun x => x.2.missingRecord).isEmpty && anchors.all AnchorResult.ok,
    scope := scopeOf held s.byHolder }

theorem verifyHeld_ok {tsa : Value → Except String Value} {held : List Value}
    {report : HeldReport} : verifyHeldReceipts K ctx tsa held = .ok report ↔
      ∃ xs anchors, held.mapM (standing K ctx) = .ok xs ∧
        checkFirsts K tsa ctx.tree (countedOf xs) = .ok anchors ∧
        report = reportOf held xs anchors := by
  rw [verifyHeldReceipts, foldlM_standing]
  have ends : ∀ (xs : List (Value × Standing)) (anchors : List AnchorResult),
      let s := xs.foldl (fun s x => enter s x.1 x.2) {}
      ({ held := held.length, included := s.included, missing := s.missing,
         unverifiable := s.unverifiable, afterSnapshot := s.afterSnapshot,
         receiptCheckpoints := anchors, byHolder := s.byHolder,
         ok := s.missing.isEmpty && anchors.all AnchorResult.ok,
         scope := scopeOf held s.byHolder } : HeldReport) = reportOf held xs anchors := by
    intro xs anchors
    obtain ⟨missing, unverifiable, after, included, -⟩ := enter_all xs {}
    simp only [missing, unverifiable, after, included, reportOf, List.nil_append, Nat.zero_add]
  have sizes : ∀ xs : List (Value × Standing),
      (xs.foldl (fun s x => enter s x.1 x.2) {}).checkpoints = checkpointsOf (countedOf xs) :=
    fun xs => (enter_all xs {}).2.2.2.2
  constructor
  · intro h
    obtain ⟨s, folded, h⟩ := bind_ok.mp h
    obtain ⟨xs, stood, made⟩ := bind_ok.mp folded
    obtain rfl := Except.ok.inj made
    obtain ⟨ordered, sorted, h⟩ := bind_ok.mp h
    obtain ⟨anchors, anchored, h⟩ := bind_ok.mp h
    rw [sizes] at sorted
    refine ⟨xs, anchors, stood, bind_ok.mpr ⟨ordered, sorted, anchored⟩, ?_⟩
    rw [← ends]
    exact (Except.ok.inj h).symm
  · rintro ⟨xs, anchors, stood, checked, rfl⟩
    obtain ⟨ordered, sorted, anchored⟩ := bind_ok.mp checked
    rw [← sizes] at sorted
    rw [← ends]
    exact bind_ok.mpr ⟨_, bind_ok.mpr ⟨xs, stood, rfl⟩, bind_ok.mpr ⟨ordered, sorted,
      bind_ok.mpr ⟨anchors, anchored, rfl⟩⟩⟩

/-- The receipts that have no earlier one of the same size in the list. -/
def firstsOf (rcs : List RegistrationReceipt) : List RegistrationReceipt :=
  rcs.foldl (fun acc rc =>
    if acc.any fun a => a.treeSize.scalarEq rc.treeSize then acc else acc ++ [rc]) []

def entryFor (rc : RegistrationReceipt) : Value × Value := (rc.treeSize, checkpointOf rc)

theorem checkpointsOf_firsts (rcs : List RegistrationReceipt) :
    checkpointsOf rcs = (firstsOf rcs).map entryFor := by
  have walk : ∀ acc : List RegistrationReceipt, rcs.foldl keepFirst (acc.map entryFor) =
      (rcs.foldl (fun acc rc =>
        if acc.any fun a => a.treeSize.scalarEq rc.treeSize then acc else acc ++ [rc]) acc).map
        entryFor := by
    induction rcs with
    | nil => intro acc; rfl
    | cons rc rcs ih =>
      intro acc
      have seen : (find (acc.map entryFor) rc.treeSize).isSome =
          acc.any fun a => a.treeSize.scalarEq rc.treeSize := by
        rw [find_any, List.any_map]
        rfl
      rw [List.foldl_cons, List.foldl_cons, keepFirst, seen]
      by_cases known : (acc.any fun a => a.treeSize.scalarEq rc.treeSize) = true
      · rw [if_pos known, if_pos known]
        exact ih acc
      · have absent : (find (acc.map entryFor) rc.treeSize).isSome = false := by
          rw [seen]
          exact Bool.eq_false_iff.mpr known
        rw [if_neg known, if_neg known,
          insert_absent (Option.isNone_iff_eq_none.mp (Option.isSome_eq_false_iff.mp absent))]
        have grown : acc.map entryFor ++ [(rc.treeSize, checkpointOf rc)] =
            (acc ++ [rc]).map entryFor := by
          rw [List.map_append]
          rfl
        rw [grown]
        exact ih (acc ++ [rc])
  exact walk []

variable (K) in
/-- The receipt's root is the root of the tree's first leaves, as many as its size says. -/
def Agrees (tree : MerkleTree) (rc : RegistrationReceipt) : Prop :=
  ∃ n : Nat, number rc.treeSize = some (n : Int) ∧ n ≤ tree.size ∧
    rc.rootHash = .str (hex (mth K (tree.leaves.take n)))

theorem less_number {a b : Value} {m n : Int} (left : number a = some m)
    (right : number b = some n) (orEqual : Bool) :
    less orEqual a b = .ok (if orEqual then decide (m ≤ n) else decide (m < n)) := by
  cases a with
  | bool x => simp [less, scalarLess, left, right]
  | int x => simp [less, scalarLess, left, right]
  | _ => cases left

theorem less_int_none {a : Value} {m : Int} (left : number a = none) (orEqual : Bool) :
    less orEqual (.int m) a = .error .typeError := by
  cases a with
  | bool x => cases left
  | int x => cases left
  | _ => rfl

theorem subproof_negative {m : Int} (negative : m < 0) (fuel : Nat) (xs : List Bytes)
    (whole : Bool) : subproof K fuel m xs whole = .error .recursionError := by
  induction fuel generalizing xs whole with
  | zero => rfl
  | succ fuel ih =>
    rw [subproof, if_neg (by omega), if_pos (by omega), ih]
    rfl

/-- A size of the tree is compared by its root alone: the proof the tree makes is accepted. -/
theorem compareAnchor_nat {tree : MerkleTree} {size rootHash : Value} (anchoredAt : Value)
    {m : Nat} {anchored : Bytes} (numbered : number size = some (m : Int)) (inside : m ≤ tree.size)
    (read : fromHexValue rootHash = .ok anchored) :
    ∃ out, compareAnchor K tree size rootHash anchoredAt = .ok out ∧
      (out.ok = true ↔ rootHash = .str (hex (mth K (tree.leaves.take m)))) := by
  obtain ⟨proof, made, accepted⟩ := consistency_complete (K := K) inside
  have proved : tree.consistencyProof K m tree.size = .ok proof := by
    rw [MerkleTree.consistencyProof, MerkleTree.size, List.take_length]
    exact made
  rw [compareAnchor, numbered]
  simp only [Option.getD_some, rootAt_nat inside, ok_bind, proved, read, pure_ok,
    Except.ok.injEq, exists_eq_left', Bool.and_eq_true, eq_str, and_iff_left_iff_imp]
  rintro rfl
  rw [fromHexValue, fromHex_hex] at read
  obtain rfl := Except.ok.inj read
  exact accepted

/-- A negative size is never compared: its proof recurses without end. -/
theorem compareAnchor_negative {tree : MerkleTree} {size rootHash anchoredAt : Value} {n : Int}
    (numbered : number size = some n) (negative : n < 0) :
    ¬ Returns (compareAnchor K tree size rootHash anchoredAt) := by
  rintro ⟨out, compared⟩
  rw [compareAnchor, numbered] at compared
  obtain ⟨recomputed, -, compared⟩ := bind_ok.mp compared
  obtain ⟨proof, proved, -⟩ := bind_ok.mp compared
  rw [Option.getD_some, MerkleTree.consistencyProof, consistencyPath, if_neg (by omega),
    subproof_negative negative] at proved
  cases proved

theorem compareAnchor_read {tree : MerkleTree} {size rootHash anchoredAt : Value}
    {out : AnchorResult} (compared : compareAnchor K tree size rootHash anchoredAt = .ok out) :
    Returns (fromHexValue rootHash) := by
  obtain ⟨recomputed, -, compared⟩ := bind_ok.mp compared
  obtain ⟨proof, -, compared⟩ := bind_ok.mp compared
  obtain ⟨anchored, read, -⟩ := bind_ok.mp compared
  exact ⟨anchored, read⟩

/-- What a checkpoint record says: the size, the root and the time. -/
structure Recorded (record size rootHash anchoredAt : Value) : Prop where
  size : record.item "tree_size" = .ok size
  root : record.item "root_hash" = .ok rootHash
  time : record.item "anchored_at" = .ok anchoredAt

theorem checkpointOf_recorded (rc : RegistrationReceipt) :
    Recorded (checkpointOf rc) rc.treeSize rc.rootHash rc.registeredAt :=
  ⟨rfl, rfl, rfl⟩

/-- A checkpoint larger than the presented tree. -/
theorem checkAnchor_beyond {tsa : Value → Except String Value} {tree : MerkleTree}
    {record size rootHash anchoredAt : Value} {n : Int}
    (recorded : Recorded record size rootHash anchoredAt) (numbered : number size = some n)
    (long : (tree.size : Int) < n) :
    checkAnchor K tsa tree record = .ok (anchorTooLong size rootHash anchoredAt) := by
  rw [checkAnchor, recorded.size, ok_bind, recorded.root, ok_bind, recorded.time, ok_bind, greater,
    less_number rfl numbered]
  simp only [ok_bind, Bool.false_eq_true, if_false, decide_eq_true_eq]
  rw [if_pos long]
  rfl

theorem checkAnchor_within {tsa : Value → Except String Value} {tree : MerkleTree}
    {record size rootHash anchoredAt : Value} {n : Int}
    (recorded : Recorded record size rootHash anchoredAt) (numbered : number size = some n)
    (short : n ≤ tree.size) : checkAnchor K tsa tree record =
      compareAnchor K tree size rootHash anchoredAt >>= confirmToken tsa record := by
  rw [checkAnchor, recorded.size, ok_bind, recorded.root, ok_bind, recorded.time, ok_bind, greater,
    less_number rfl numbered]
  simp only [ok_bind, Bool.false_eq_true, if_false, decide_eq_true_eq]
  rw [if_neg (by omega)]

/-- A record without a token is left as it was compared. -/
theorem confirmToken_plain {tsa : Value → Except String Value} {record witness : Value}
    (named : record.get "witness" .null = .ok witness)
    (plain : witness.eq (.str "rfc3161-tsa") = false)
    (none_ : isIn (.str "tsr_file") record = .ok false) (out : AnchorResult) :
    confirmToken tsa record out = .ok out := by
  rw [confirmToken, named, ok_bind, none_, ok_bind, plain]
  rfl

theorem confirmToken_checkpoint {tsa : Value → Except String Value} (rc : RegistrationReceipt)
    (out : AnchorResult) : confirmToken tsa (checkpointOf rc) out = .ok out :=
  @confirmToken_plain tsa (checkpointOf rc) .null rfl rfl rfl out

/-- A checkpoint passes exactly if it agrees with the tree. -/
theorem checkAnchor_agrees {tsa : Value → Except String Value} {tree : MerkleTree}
    {rc : RegistrationReceipt} {out : AnchorResult}
    (checked : checkAnchor K tsa tree (checkpointOf rc) = .ok out) :
    out.ok = true ↔ Agrees K tree rc := by
  have recorded := checkpointOf_recorded rc
  cases numbered : number rc.treeSize with
  | none =>
    rw [checkAnchor, recorded.size, ok_bind, recorded.root, ok_bind, recorded.time, ok_bind,
      greater, less_int_none numbered] at checked
    cases checked
  | some n =>
    by_cases long : (tree.size : Int) < n
    · rw [checkAnchor_beyond recorded numbered long] at checked
      obtain rfl := Except.ok.inj checked
      constructor
      · intro bad
        cases bad
      · rintro ⟨m, same, inside, -⟩
        rw [numbered] at same
        obtain rfl := Option.some.inj same
        omega
    · rw [checkAnchor_within recorded numbered (by omega)] at checked
      obtain ⟨found, compared, confirmed⟩ := bind_ok.mp checked
      rw [confirmToken_checkpoint] at confirmed
      obtain rfl : found = out := Except.ok.inj confirmed
      by_cases negative : n < 0
      · exact absurd ⟨found, compared⟩ (compareAnchor_negative numbered negative)
      · obtain ⟨m, rfl⟩ : ∃ m : Nat, n = (m : Int) := ⟨n.toNat, by omega⟩
        have inside : m ≤ tree.size := by omega
        obtain ⟨anchored, read⟩ := compareAnchor_read compared
        obtain ⟨same, compared', agrees⟩ := compareAnchor_nat (K := K) rc.registeredAt
          numbered inside read
        obtain rfl : found = same := Except.ok.inj (compared.symm.trans compared')
        rw [agrees]
        constructor
        · intro root
          exact ⟨m, numbered, inside, root⟩
        · rintro ⟨k, same, -, root⟩
          rw [numbered] at same
          obtain rfl : m = k := by
            have := Option.some.inj same
            omega
          exact root

/-- A checkpoint that agrees is checked without an exception. -/
theorem checkAnchor_returns {tsa : Value → Except String Value} {tree : MerkleTree}
    {rc : RegistrationReceipt} {n : Nat} {root : Bytes}
    (sized : number rc.treeSize = some (n : Int)) (rooted : rc.rootHash = .str (hex root)) :
    ∃ out, checkAnchor K tsa tree (checkpointOf rc) = .ok out := by
  have recorded := checkpointOf_recorded rc
  by_cases long : (tree.size : Int) < n
  · exact ⟨_, checkAnchor_beyond recorded sized long⟩
  · have inside : n ≤ tree.size := by omega
    have read : fromHexValue rc.rootHash = .ok root := by rw [rooted, fromHexValue, fromHex_hex]
    obtain ⟨out, compared, -⟩ := compareAnchor_nat (K := K) rc.registeredAt sized inside read
    refine ⟨out, ?_⟩
    rw [checkAnchor_within recorded sized (by omega), compared, ok_bind]
    exact confirmToken_checkpoint rc out

theorem insertSorted_numbers {A : Type} {key : A → Value} {x : A} {ys : List A}
    (first : (number (key x)).isSome) (rest : ∀ y ∈ ys, (number (key y)).isSome) :
    ∃ zs, insertSorted key x ys = .ok zs := by
  induction ys with
  | nil => exact ⟨_, rfl⟩
  | cons y ys ih =>
    obtain ⟨m, left⟩ := Option.isSome_iff_exists.mp first
    obtain ⟨n, right⟩ := Option.isSome_iff_exists.mp (rest y List.mem_cons_self)
    obtain ⟨zs, inserted⟩ := ih fun z member => rest z (List.mem_cons_of_mem _ member)
    rw [insertSorted, less_number left right, ok_bind, inserted]
    by_cases smaller : m < n
    · exact ⟨x :: y :: ys, by simp [smaller]⟩
    · exact ⟨y :: zs, by simp [smaller]⟩

/-- Numbers can be sorted. -/
theorem sortedBy_numbers {A : Type} {key : A → Value} {xs : List A}
    (numbers : ∀ x ∈ xs, (number (key x)).isSome) : ∃ ys, sortedBy key xs = .ok ys := by
  have walk : ∀ acc : List A, (∀ x ∈ acc, (number (key x)).isSome) →
      ∃ ys, xs.foldlM (fun acc x => insertSorted key x acc) acc = .ok ys := by
    induction xs with
    | nil => exact fun acc _ => ⟨acc, rfl⟩
    | cons x xs ih =>
      intro acc sorted
      have here := numbers x List.mem_cons_self
      obtain ⟨next, inserted⟩ := insertSorted_numbers here sorted
      rw [List.foldlM_cons, inserted, ok_bind]
      refine ih (fun z member => numbers z (List.mem_cons_of_mem _ member)) next ?_
      intro z member
      rcases List.mem_cons.mp ((VerdictComparison.insertSorted_perm inserted).mem_iff.mp member)
        with rfl | old
      · exact here
      · exact sorted z old
  exact walk [] (fun _ member => by cases member)

/-- What is checked for some checkpoints is checked for each of them, and back. -/
theorem checkFirsts_results {tsa : Value → Except String Value} {tree : MerkleTree}
    {rcs : List RegistrationReceipt} {anchors : List AnchorResult}
    (checked : checkFirsts K tsa tree rcs = .ok anchors) :
    (anchors.all AnchorResult.ok = true ↔ ∀ rc ∈ firstsOf rcs, Agrees K tree rc) := by
  obtain ⟨ordered, sorted, anchored⟩ := bind_ok.mp checked
  have perm := VerdictComparison.sortedBy_perm sorted
  rw [checkpointsOf_firsts] at perm
  constructor
  · intro all rc member
    have inside : checkpointOf rc ∈ ordered.map Prod.snd := by
      have listed : entryFor rc ∈ ordered := perm.mem_iff.mpr (List.mem_map_of_mem member)
      exact List.mem_map_of_mem listed
    obtain ⟨out, inOut, result⟩ := mapM_ok_mem anchored inside
    exact (checkAnchor_agrees result).mp (List.all_eq_true.mp all out inOut)
  · intro agree
    rw [List.all_eq_true]
    intro out inOut
    obtain ⟨record, inside, result⟩ := mem_mapM_ok anchored inOut
    obtain ⟨x, listed, rfl⟩ := List.mem_map.mp inside
    obtain ⟨rc, member, rfl⟩ := List.mem_map.mp (perm.mem_iff.mp listed)
    exact (checkAnchor_agrees result).mpr (agree rc member)

theorem checkFirsts_returns {tsa : Value → Except String Value} {tree : MerkleTree}
    {rcs : List RegistrationReceipt} (sized : ∀ rc ∈ firstsOf rcs, ∃ (n : Nat) (root : Bytes),
      number rc.treeSize = some (n : Int) ∧ rc.rootHash = .str (hex root)) :
    ∃ anchors, checkFirsts K tsa tree rcs = .ok anchors := by
  have numbers : ∀ x ∈ checkpointsOf rcs, (number (Prod.fst x)).isSome := by
    rw [checkpointsOf_firsts]
    intro x member
    obtain ⟨rc, inside, rfl⟩ := List.mem_map.mp member
    obtain ⟨n, root, size, -⟩ := sized rc inside
    exact Option.isSome_iff_exists.mpr ⟨n, size⟩
  obtain ⟨ordered, sorted⟩ := sortedBy_numbers numbers
  have perm := VerdictComparison.sortedBy_perm sorted
  rw [checkpointsOf_firsts] at perm
  have each : ∀ record ∈ ordered.map Prod.snd, ∃ out, checkAnchor K tsa tree record = .ok out := by
    intro record inside
    obtain ⟨x, listed, rfl⟩ := List.mem_map.mp inside
    obtain ⟨rc, member, rfl⟩ := List.mem_map.mp (perm.mem_iff.mp listed)
    obtain ⟨n, root, size, rooted⟩ := sized rc member
    exact checkAnchor_returns size rooted
  obtain ⟨anchors, anchored⟩ := mapM_returns.mpr each
  exact ⟨anchors, bind_ok.mpr ⟨ordered, sorted, anchored⟩⟩

theorem firsts_walk {rc : RegistrationReceipt} (rcs acc : List RegistrationReceipt)
    (member : rc ∈ rcs.foldl (fun acc rc =>
      if acc.any fun a => a.treeSize.scalarEq rc.treeSize then acc else acc ++ [rc]) acc) :
    rc ∈ acc ∨ rc ∈ rcs := by
  induction rcs generalizing acc with
  | nil => exact .inl member
  | cons x rcs ih =>
    rw [List.foldl_cons] at member
    rcases ih _ member with old | new
    · by_cases known : (acc.any fun a => a.treeSize.scalarEq x.treeSize) = true
      · rw [if_pos known] at old
        exact .inl old
      · rw [if_neg known] at old
        rcases List.mem_append.mp old with older | here
        · exact .inl older
        · exact .inr (List.mem_singleton.mp here ▸ List.mem_cons_self)
    · exact .inr (List.mem_cons_of_mem _ new)

theorem firstsOf_mem {rcs : List RegistrationReceipt} {rc : RegistrationReceipt}
    (member : rc ∈ firstsOf rcs) : rc ∈ rcs := by
  rcases firsts_walk rcs [] member with old | inside
  · cases old
  · exact inside

end HeldMeaning
