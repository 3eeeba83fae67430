import Mathlib.Data.List.Sort
import Custody.Auditing
import Custody.Execution

/-!
# Local content expiry

A preview lists the records whose private content is old enough to go, with their
fingerprints. Applying it looks at each record again and then changes them all in
one transaction. Private content goes, and what was signed or decided stays.
-/

namespace Retention

open PyValue HexBytes CanonicalJson CanonicalForm Commitments Delivery Execution Auditing

/-- What reading a row gives: a value that was written in canonical form. -/
def Written (v : Value) : Prop := ∃ u bytes, canonicalJson u = .ok bytes ∧ v = canon u

/-- The tables `kv` and `outbox`. -/
structure Store where
  kv : AList fun _ : String => Value := ∅
  outbox : List Pending := []
  written : ∀ key v, kv.lookup key = some v → Written v

/-- SQLite's `LIKE` with a pattern that ends in `%`: letters of ASCII have no case. -/
def like (head key : String) : Bool :=
  (head.toList.map Char.toLower).isPrefixOf (key.toList.map Char.toLower)

namespace Store

def get (s : Store) (key : String) : Value := (s.kv.lookup key).getD .null

/-- `items(head)`, by descending key. -/
def items (s : Store) (head : String) : List (String × Value) :=
  ((s.kv.entries.map fun row => (row.1, row.2)).filter fun row => like head row.1).insertionSort
    fun a b => b.1 ≤ a.1

theorem written_insert (s : Store) (key : String) {value : Value} {bytes : Bytes}
    (canonical : canonicalJson value = .ok bytes) (key' : String) (v : Value)
    (found : (s.kv.insert key (canon value)).lookup key' = some v) : Written v := by
  by_cases same : key' = key
  · subst same
    rw [AList.lookup_insert] at found
    exact ⟨value, bytes, canonical, (Option.some.inj found).symm⟩
  · rw [AList.lookup_insert_ne same] at found
    exact s.written key' v found

theorem written_erase (s : Store) (key key' : String) (v : Value)
    (found : (s.kv.erase key).lookup key' = some v) : Written v := by
  by_cases same : key' = key
  · subst same
    rw [AList.lookup_erase] at found
    cases found
  · rw [AList.lookup_erase_ne same] at found
    exact s.written key' v found

def put (s : Store) (key : String) (value : Value) : Py Store :=
  match canonical : canonicalJson value with
  | .error e => .error e
  | .ok _ => .ok { s with
      kv := s.kv.insert key (canon value), written := s.written_insert key canonical }

/-- `UPDATE kv SET value=? WHERE key=?`. -/
def update (s : Store) (key : String) (value : Value) : Py Store := do
  let next ← s.put key value
  if key ∈ s.kv then pure next else pure s

/-- `DELETE FROM kv WHERE key=?`. -/
def delete (s : Store) (key : String) : Store :=
  { s with kv := s.kv.erase key, written := s.written_erase key }

end Store

/-- `x in xs` for a set of what was added to it. -/
def inSet (x : Value) (xs : List Value) : Py Bool :=
  if x.hashable then .ok (xs.any fun y => y.scalarEq x) else .error .typeError

/-- What may be an element of a set. -/
def element (x : Value) : Py Value := if x.hashable then .ok x else .error .typeError

variable (K : Primitives)

def previewKey : String := "retention-preview"

def requestHead : String := "request:"

def versionHead : String := "private-version:"

def dayMs : Int := 86400000

/-- The request an item of the outbox is of. -/
def subOf (item : Value) : Py Value := do
  let own ← item.get "sub" .null
  if own.truthy then pure own
  else (← item.get "statement" (.dict [])).get "sub" .null

/-- `pending_subs`. -/
def pendingSubs (s : Store) : Py (List Value) :=
  s.outbox.mapM fun row => do element (← subOf row.item)

/-- A record that is not to be touched now. -/
def withheld (pending : List Value) (record : Value) : Py Bool := do
  if (← record.item "state").eq (.str "pending") then pure true
  else inSet (← record.item "sub") pending

/-- A record that is too young, or was pruned before. -/
def skipped (cutoff : Int) (record : Value) : Py Bool := do
  if ← less true (.int cutoff) (← record.item "started_at") then pure true
  else pure (← record.get "content_pruned_at" .null).truthy

def listing (key hash : String) : Value := .dict (fields [("key", .str key), ("hash", .str hash)])

/-- The loop of `preview`: what is selected and how many are withheld. -/
def select (pending : List Value) (cutoff : Int) :
    List (String × Value) → Py (List Value × Nat)
  | [] => .ok ([], 0)
  | (key, record) :: rest => do
    if ← skipped cutoff record then select pending cutoff rest
    else if ← withheld pending record then
      let (selected, n) ← select pending cutoff rest
      pure (selected, n + 1)
    else
      let hash ← fingerprint K record
      let (selected, n) ← select pending cutoff rest
      pure (listing key hash :: selected, n)

/-- `preview`, with the store it leaves. -/
def preview (s : Store) (retentionDays now created : Int) : Py (Store × Dict) := do
  let cutoff := now - retentionDays * dayMs
  let pending ← pendingSubs s
  let (selected, n) ← select K pending cutoff (s.items requestHead)
  let plan := fields [("records", .list selected), ("created_at", .int created),
    ("cutoff", .int cutoff)]
  let token ← fingerprint K (.dict plan)
  let next ← s.put previewKey (.dict (plan ++ fields [("token", .str token)]))
  pure (next, fields [("token", .str token), ("count", .int selected.length),
    ("withheld_pending", .int n), ("retention_days", .int retentionDays),
    ("effect", .str ("수용·격리 본문과 로컬 비공개 감사 입력을 삭제합니다. " ++
      "서명 증거·집행 기록은 유지합니다."))])

def stale : PyErr := .valueError "새 보관 정리 미리보기가 필요합니다."

def changed : PyErr := .valueError "기록이 변경되었습니다. 정리 대상을 다시 확인하세요."

/-- `now - created > 300000`. -/
def outdated (now : Int) (created : Value) : Py Bool :=
  match number created with
  | some t => .ok (decide (now - t > 300000))
  | none => .error .typeError

def currentPlan (s : Store) (token : Value) (now : Int) : Py Value := do
  let plan := s.get previewKey
  if !plan.truthy then throw stale
  else if !token.eq (← plan.item "token") then throw stale
  else if ← outdated now (← plan.item "created_at") then throw stale
  else pure plan

/-- `d.pop(k, None)`. -/
def pop (d : Dict) (k : String) : Dict := d.filter fun p => !p.1.scalarEq (.str k)

def withoutContent (record : Dict) (now : Int) : Dict :=
  insert (insert (pop (pop record "private") "quarantined_body") (.str "response") .null)
    (.str "content_pruned_at") (.int now)

def dictionary : Value → Py Dict
  | .dict d => .ok d
  | _ => .error .attributeError

/-- The salt of a record's private evidence, where it has any. -/
def saltsOf (record : Value) : Py (List Value) := do
  let private_ ← record.get "private" .null
  if private_.truthy then do
    let salt ← private_.item "salt"
    pure [← element salt]
  else pure []

/-- One turn of the loop of `apply`: the record is what it was and can go. -/
def revise (s : Store) (pending : List Value) (item : Value) (now : Int) :
    Py ((String × Value) × List Value) := do
  let key ← textOf (← item.item "key")
  let record := s.get key
  let hash ← fingerprint K record
  if !Value.eq (.str hash) (← item.item "hash") then throw changed
  else if ← inSet (← record.item "sub") pending then throw changed
  else
    let salts ← saltsOf record
    let d ← dictionary record
    pure ((key, .dict (withoutContent d now)), salts)

/-- The loop of `apply`. `clock` tells the time at each turn. -/
def reviseAll (s : Store) (pending : List Value) (clock : Nat → Int) :
    List Value → Nat → Py (List (String × Value) × List Value)
  | [], _ => .ok ([], [])
  | item :: rest, n => do
    let (change, salts) ← revise K s pending item (clock n)
    let (changes, more) ← reviseAll s pending clock rest (n + 1)
    pure (change :: changes, salts ++ more)

/-- The private versions to go. -/
def versionsOf (s : Store) (salts : List Value) : Py (List String) := do
  let rows ← (s.items versionHead).mapM fun row => do
    pure (row.1, ← inSet (← row.2.item "salt") salts)
  pure ((rows.filter (·.2)).map (·.1))

/-- What the transaction does, in order. -/
def commit (s : Store) (changes : List (String × Value)) (versions : List String) : Py Store := do
  let s ← changes.foldlM (fun s change => s.update change.1 change.2) s
  pure ((versions.foldl Store.delete s).delete previewKey)

def applied (s : Store) (token : Value) (clock : Nat → Int) : Py (Store × Dict) := do
  let plan ← currentPlan s token (clock 0)
  let pending ← pendingSubs s
  let records ← (← plan.item "records").iterate
  let (changes, salts) ← reviseAll K s pending clock records 1
  let versions ← versionsOf s salts
  let next ← commit s changes versions
  pure (next, fields [("pruned_records", .int changes.length),
    ("private_versions_removed", .int versions.length),
    ("forensic_erasure_guaranteed", .bool false)])

/-- `apply`. Nothing is written before the transaction, and one that raises is rolled
back. -/
def apply (s : Store) (token : Value) (clock : Nat → Int) : Store × Py Dict :=
  match applied K s token clock with
  | .ok (next, out) => (next, .ok out)
  | .error e => (s, .error e)

end Retention
