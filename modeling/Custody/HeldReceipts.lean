import Custody.TransparencyLog

/-!
# Checkpoints and held receipts

An auditor compares the tree it recomputed with checkpoints fixed outside the
log, and with the receipts that submitters kept.
-/

namespace HeldReceipts

open PyValue HexBytes CanonicalJson Commitments Statements Engine Merkle TransparencyLog

variable (K : Primitives)

structure AnchorResult where
  treeSize : Value
  anchoredRoot : Value
  anchoredAt : Value
  recomputedRoot : Option String
  rootMatches : Bool
  consistentWithHead : Bool
  ok : Bool
  reason : String
  tsaVerified : Option Bool := none
  genTime : Option Value := none

/-- A record of a tree larger than the one presented. -/
def anchorTooLong (size rootHash anchoredAt : Value) : AnchorResult :=
  { treeSize := size, anchoredRoot := rootHash, anchoredAt, recomputedRoot := none,
    rootMatches := false, consistentWithHead := false, ok := false,
    reason := "현재 로그가 앵커된 크기보다 짧음 (꼬리 삭제)" }

def compareAnchor (tree : MerkleTree) (size rootHash anchoredAt : Value) : Py AnchorResult := do
  let n := (number size).getD 0
  let recomputed ← tree.rootAt K n
  let proof ← tree.consistencyProof K n tree.size
  let anchored ← fromHexValue rootHash
  let consistent := verifyConsistency K n.toNat tree.size anchored (tree.root K) proof
  let same := Value.eq (.str (hex recomputed)) rootHash
  pure { treeSize := size, anchoredRoot := rootHash, anchoredAt,
         recomputedRoot := some (hex recomputed), rootMatches := same,
         consistentWithHead := consistent, ok := same && consistent,
         reason := if same && consistent then "일치"
           else "앵커된 체크포인트와 다른 과거를 제시함 (기록 재작성)" }

/-- A record that names a timestamp token must have it verified too. -/
def confirmToken (tsa : Value → Except String Value) (record : Value) (out : AnchorResult) :
    Py AnchorResult := do
  let witness ← record.get "witness" .null
  let token ← isIn (.str "tsr_file") record
  if witness.eq (.str "rfc3161-tsa") || token then
    match tsa record with
    | .ok genTime => pure { out with tsaVerified := some true, genTime := some genTime }
    | .error reason => pure { out with tsaVerified := some false, ok := false, reason }
  else pure out

def checkAnchor (tsa : Value → Except String Value) (tree : MerkleTree) (record : Value) :
    Py AnchorResult := do
  let size ← record.item "tree_size"
  let rootHash ← record.item "root_hash"
  let anchoredAt ← record.item "anchored_at"
  if ← greater size (.int tree.size) then pure (anchorTooLong size rootHash anchoredAt)
  else do
    let out ← compareAnchor K tree size rootHash anchoredAt
    confirmToken tsa record out

/-- `CheckpointAnchor.verify_tree`; `tsa` stands for `verify_tsa_anchor`, which answers
with the token's time or with an error text. -/
def verifyTree (tsa : Value → Except String Value) (tree : MerkleTree) (records : List Value) :
    Py (List AnchorResult) :=
  records.mapM (checkAnchor K tsa tree)

structure Tally where
  held : Nat := 0
  included : Nat := 0
  missing : Nat := 0
  unverifiable : Nat := 0
  afterSnapshot : Nat := 0

structure HeldState where
  missing : List Value := []
  unverifiable : List Value := []
  afterSnapshot : List Value := []
  included : Nat := 0
  /-- tree size → the first checkpoint seen of that size -/
  checkpoints : List (Value × Value) := []
  byHolder : List (Value × Tally) := []

/-- The holder's tally, updated in place. -/
def HeldState.count (s : HeldState) (holder : Value) (f : Tally → Tally) : HeldState :=
  { s with byHolder := insert s.byHolder holder (f ((find s.byHolder holder).getD {})) }

/-- `dict.setdefault(k, v)`. -/
def setDefault {A : Type} (d : List (Value × A)) (k : Value) (v : A) : Py (List (Value × A)) :=
  if !k.hashable then .error .typeError
  else if (find d k).isSome then .ok d
  else .ok (insert d k v)

/-- `except (KeyError, TypeError)` around reading the receipt. -/
def readReceipt (item : Value) : Py (Option RegistrationReceipt) :=
  match (do RegistrationReceipt.fromDict (← item.item "receipt")) with
  | .ok rc => .ok (some rc)
  | .error .keyError => .ok none
  | .error .typeError => .ok none
  | .error e => .error e

structure HeldContext where
  tree : MerkleTree
  entries : List LogEntry
  tsPub : Bytes
  logId : Value
  headTime : Value

variable (ctx : HeldContext)

def leafText (e : LogEntry) : Py String := do
  pure (hex (leafHash K (← e.statement.leafBytes)))

/-- A receipt registered after the exported head was taken. -/
def isAfterSnapshot (rc : RegistrationReceipt) : Py Bool := do
  if ctx.headTime.isNone then pure false
  else
    let later ← greater rc.registeredAt ctx.headTime
    if !later then pure false
    else greater rc.treeSize (.int ctx.tree.size)

def receiptVerifies (rc : RegistrationReceipt) : Py Bool := do
  if !rc.logId.eq ctx.logId then pure false
  else
    let message ← rc.signedBytes
    let signature ← fromHexValue (if rc.signature.truthy then rc.signature else .str "00")
    pure (K.verify ctx.tsPub message signature)

/-- `entries[i] if 0 <= i < len(entries) else None`. -/
def entryAt (i : Value) : Py (Option LogEntry) := do
  if ← less true (.int 0) i then
    if ← less false i (.int ctx.entries.length) then
      pure ctx.entries[((number i).getD 0).toNat]?
    else pure none
  else pure none

def holdsLeaf (rc : RegistrationReceipt) (e : LogEntry) : Py Bool := do
  pure (Value.eq (.str (← leafText K e)) rc.leafHash)

/-- `next((e.index for e in entries if ...), None)`. -/
def elsewhere (rc : RegistrationReceipt) : List LogEntry → Py (Option Int)
  | [] => .ok none
  | e :: rest => do
    if ← holdsLeaf K rc e then pure (some e.index) else elsewhere rc rest

def missingReason (ident : Dict) (entry : Option LogEntry) (foundAt : Option Int) : Value :=
  match foundAt, entry with
  | some i, _ => .dict (ident ++ fields
      [("reason", .str "잎은 남아 있으나 자리가 바뀜 (앞선 항목 누락 후 재배열)"), ("found_at", .int i)])
  | none, none => .dict (ident ++ fields
      [("reason", .str "영수증의 잎 위치가 현재 로그 밖에 있음 (항목 삭제 또는 꼬리 절단)")])
  | none, some e => .dict (ident ++ fields
      [("reason", .str "그 자리의 잎이 영수증의 잎과 다름 (항목 교체 또는 누락)"),
       ("found_sub", e.statement.sub), ("found_content_type", e.statement.contentType)])

/-- A verified receipt: its leaf must still be where it was promised. -/
def lookForLeaf (s : HeldState) (holder : Value) (ident : Dict) (rc : RegistrationReceipt) :
    Py HeldState := do
  let checkpoints ← setDefault s.checkpoints rc.treeSize (.dict (fields
    [("tree_size", rc.treeSize), ("root_hash", rc.rootHash), ("anchored_at", rc.registeredAt)]))
  let s := { s with checkpoints }
  let entry ← entryAt ctx rc.leafIndex
  let there ← match entry with
    | some e => holdsLeaf K rc e
    | none => pure false
  if there then
    pure (({ s with included := s.included + 1 }).count holder fun t =>
      { t with included := t.included + 1 })
  else
    let found ← elsewhere K rc ctx.entries
    pure (({ s with missing := s.missing ++ [missingReason ident entry found] }).count holder
      fun t => { t with missing := t.missing + 1 })

def holdItem (s : HeldState) (item : Value) : Py HeldState := do
  let named ← item.get "holder" .null
  let holder := if named.truthy then named else .str "U"
  if !holder.hashable then throw .typeError
  let s := s.count holder fun t => { t with held := t.held + 1 }
  let sub ← item.get "sub" .null
  let contentType ← item.get "content_type" .null
  let about := fields [("sub", sub), ("content_type", contentType), ("holder", holder)]
  match ← readReceipt item with
  | none =>
    pure (({ s with unverifiable := s.unverifiable ++
        [Value.dict (about ++ fields [("reason", .str "영수증 형식 오류")])] }).count holder
      fun t => { t with unverifiable := t.unverifiable + 1 })
  | some rc =>
    let ident := about ++ fields [("leaf_index", rc.leafIndex), ("leaf_hash", rc.leafHash),
      ("registered_at", rc.registeredAt)]
    if ← isAfterSnapshot ctx rc then
      pure (({ s with afterSnapshot := s.afterSnapshot ++ [Value.dict ident] }).count holder
        fun t => { t with afterSnapshot := t.afterSnapshot + 1 })
    else if ← receiptVerifies K ctx rc then lookForLeaf K ctx s holder ident rc
    else
      pure (({ s with unverifiable := s.unverifiable ++ [Value.dict (ident ++ fields
          [("reason", .str "영수증 서명이 T 키로 검증되지 않거나 다른 로그의 영수증")])] }).count holder
        fun t => { t with unverifiable := t.unverifiable + 1 })

structure HeldReport where
  held : Nat
  included : Nat
  missing : List Value
  unverifiable : List Value
  afterSnapshot : List Value
  receiptCheckpoints : List AnchorResult
  byHolder : List (Value × Tally)
  ok : Bool
  scope : String

def scopeOf (held : List Value) (byHolder : List (Value × Tally)) : String :=
  if held.isEmpty then "none"
  else if ["U", "R", "M"].all fun party => (find byHolder (.str party)).isSome then "all_parties"
  else "submitter_receipts"

/-- `verify_held_receipts`. The checkpoints need no timestamp service. -/
def verifyHeldReceipts (tsa : Value → Except String Value) (held : List Value) :
    Py HeldReport := do
  let s ← held.foldlM (holdItem K ctx) {}
  let ordered ← sortedBy Prod.fst s.checkpoints
  let receiptCheckpoints ← verifyTree K tsa ctx.tree (ordered.map Prod.snd)
  pure { held := held.length, included := s.included, missing := s.missing,
         unverifiable := s.unverifiable, afterSnapshot := s.afterSnapshot, receiptCheckpoints,
         byHolder := s.byHolder, ok := s.missing.isEmpty && receiptCheckpoints.all AnchorResult.ok,
         scope := scopeOf held s.byHolder }

end HeldReceipts
