import Custody.ExportCheck
import Custody.Journal

/-!
# The paged export

An auditor asks for a signed head and then for the entries under it, page by
page, while others go on registering. A page is cut by its size in bytes, and
always has at least one entry.
-/

namespace PagedExport

open PyValue HexBytes CanonicalJson Commitments Statements Schemas Engine Merkle MerkleProofs
  TransparencyLog AppendOnly Identity Auditing Journal

variable (K : Primitives)

/-- `MAX_WIRE`. -/
def maxWire : Nat := 2 * 1024 * 1024

/-- `MAX_AUDIT_BYTES`. -/
def maxAuditBytes : Nat := 64 * 1024 * 1024

/-- `audit_head()`. -/
def auditHead (T : Keeper) (now : Int) : Py Value := do
  let head ← T.log.treeHead K now
  pure (.dict (fields [("log_id", .str T.log.policy.logId), ("ts_kid", .str T.key.kid),
    ("ts_public_key", .str (T.key.publicHex K)), ("ts_iss", T.log.policy.tsIss),
    ("policy_hash", .str T.log.policy.policyHash),
    ("trust_keys_version", .str T.log.policy.trustKeysVersion), ("receipt_profile", .int 1),
    ("head", .dict head)]))

/-- The receipt that is made on demand for an entry whose record has none. -/
def madeReceipt (T : Keeper) (e : LogEntry) : Py RegistrationReceipt := do
  let i := e.index.toNat
  let root ← T.log.tree.rootAt K (e.index + 1)
  let receipt : RegistrationReceipt :=
    { logId := .str T.log.policy.logId, leafIndex := .int e.index, treeSize := .int (e.index + 1),
      rootHash := .str (hex root), leafHash := .str (hex (T.log.tree.leaves.getD i [])),
      registeredAt := .int e.registeredAt, tsKid := .str T.key.kid,
      inclusionProof := .ofStrings ((inclusionProofAt K T.log.tree i (i + 1)).map hex),
      signature := .str "" }
  let message ← receipt.signedBytes
  pure { receipt with signature := .str (hex (T.key.sign K message)) }

def entryValue (e : LogEntry) (receipt : Value) : Value :=
  .dict (fields [("index", .int e.index), ("registered_at", .int e.registeredAt),
    ("statement", e.statement.toDict), ("receipt", receipt)])

/-- One entry with the receipt of its row. -/
def auditEntry (T : Keeper) (e : LogEntry) : Py Value :=
  match T.rows.find? fun row => (row.seq : Int) == e.index with
  | none => .error .typeError
  | some row => match row.record.receipt with
    | some receipt => pure (entryValue e receipt)
    | none => do
      let rc ← madeReceipt K T e
      pure (entryValue e rc.toDict)

/-- `audit_entries(start, end)`. -/
def auditEntries (T : Keeper) (start stop : Nat) : Py (List Value) :=
  ((T.log.entries.take stop).drop start).mapM (auditEntry K T)

/-- Entries go on the page until the budget is spent, and the first always does. -/
def fillPage : Nat → List Value → List Value → Py (List Value)
  | _, page, [] => .ok page
  | budget, page, entry :: rest => do
    let text ← canonicalJson entry
    let budget := budget + text.length
    if !page.isEmpty && budget > maxWire - 4096 then pure page
    else fillPage budget (page ++ [entry]) rest

def invalidRange : PyErr := .valueError "invalid snapshot range"

/-- The range that was asked for, when the head is one of this log's own. -/
def pageRange (T : Keeper) (head : Dict) (start limit : Value) : Py (Nat × Nat × Nat) :=
  match start, limit, getOr head "tree_size" with
  | .int start, .int limit, .int size =>
    if 1 ≤ limit ∧ limit ≤ 64 ∧ 0 ≤ start ∧ start < size ∧ size ≤ T.log.entries.length then do
      let root ← T.log.tree.rootAt K size
      if (getOr head "root_hash").eq (.str (hex root)) then
        pure (start.toNat, limit.toNat, size.toNat)
      else throw invalidRange
    else throw invalidRange
  | _, _, _ => throw invalidRange

/-- `third_party(actor, "audit_page", p)`. -/
def auditPage (T : Keeper) (p : Value) : Py Value := do
  let shown ← p.item "head"
  let trust ← trustFromConfig K T.config
  verifyHead K trust shown
  let head ← dictOf shown
  let start ← p.item "start"
  let limit ← p.get "limit" (.int 64)
  let (start, limit, size) ← pageRange K T head start limit
  let entries ← auditEntries K T start (min size (start + limit))
  let page ← fillPage 0 [] entries
  pure (.dict (fields [("entries", .list page), ("next", .int (start + page.length))]))

/-- What a call to the third party brings back: page `n` is the answer to call `n` after the
first. -/
structure Peer where
  auditHead : Py Value
  auditPage : Nat → Value → Py Value

/-- The fields of the export that are compared with the pinned ones. -/
def pinnedMetadata (trust : Trust) : List (String × String) :=
  [("log_id", trust.logId), ("policy_hash", trust.policyHash),
   ("ts_public_key", (trust.identities .T).publicKey), ("ts_iss", (trust.identities .T).iss),
   ("ts_kid", (trust.identities .T).kid)]

def pageRequest (head : Value) (start : Nat) : Value :=
  .dict (fields [("head", head), ("start", .int start), ("limit", .int 64)])

def incompletePage : PyErr := .valueError "invalid or incomplete audit page"

/-- The entries of one page, if it fits where the last one ended. -/
def readPage (page : Value) (read size : Nat) : Py (List Value) := do
  let given ← page.item "entries"
  if !given.truthy then throw incompletePage
  else
    let values ← given.iterate
    let next ← page.item "next"
    -- an accepted `next` is the sum, so it is the sum that is held against the size
    if !next.eq (.int (read + values.length)) || values.length > 64 ||
        read + values.length > size then throw incompletePage
    else pure values

/-- The loop over the pages; `none` is a loop that is still going when its fuel is spent. -/
def fetchPages (peer : Peer) (head : Value) (size : Nat) :
    Nat → Nat → Nat → List Value → Option (Py (List Value))
  | fuel, n, total, entries =>
    if entries.length ≥ size then some (.ok entries)
    else match fuel with
      | 0 => none
      | fuel + 1 =>
        match (do
          let page ← peer.auditPage n (pageRequest head entries.length)
          let values ← readPage page entries.length size
          let total := total + (← canonicalJson (.list values)).length
          if total > maxAuditBytes then
            throw (.valueError "audit export exceeds the 64 MiB local verification limit")
          else pure (values, total) : Py (List Value × Nat)) with
        | .error e => some (.error e)
        | .ok (values, total) => fetchPages peer head size fuel (n + 1) total (entries ++ values)

/-- The export and its head, when the metadata is the pinned one. -/
def fetchHead (peer : Peer) (trust : Trust) : Py (Dict × Value × Nat) := do
  let export_ ← dictOf (← peer.auditHead)
  if (pinnedMetadata trust).any fun x => !(getOr export_ x.1).eq (.str x.2) then
    throw (.valueError "audit metadata differs from the pinned identity")
  else
    let shown ← getItem export_ "head"
    verifyHead K trust shown
    match ← shown.item "tree_size" with
    | .int size => pure (export_, shown, size.toNat)
    | _ => throw .typeError

/-- `fetch_export(peer, trust)`. -/
def fetchExport (peer : Peer) (trust : Trust) : Option (Py Value) :=
  match fetchHead K peer trust with
  | .error e => some (.error e)
  | .ok (export_, shown, size) =>
    (fetchPages peer shown size size 0 0 []).map fun outcome =>
      outcome.map fun entries => .dict (PyValue.insert export_ (.str "entries") (.list entries))

/-- A value that travels as canonical JSON. -/
def sent (v : Value) : Py Value := do
  let _ ← canonicalJson v
  pure (canon v)

/-- The third party as the auditor reaches it: it is in state `T n` at call `n`, and a call may
fail. -/
def reached (T : Nat → Keeper) (now : Int) (lost : Nat → Option PyErr) : Peer where
  auditHead := match lost 0 with
    | some e => .error e
    | none => auditHead K (T 0) now >>= sent
  auditPage n p := match lost (n + 1) with
    | some e => .error e
    | none => do sent (← auditPage K (T (n + 1)) (← sent p))

variable {K}

/-- A page holds the entries it was given from the first on, and not none of them. -/
theorem fillPage_front {entries page out : List Value} {budget : Nat}
    (filled : fillPage budget page entries = .ok out) : ∃ front, front <+: entries ∧
      out = page ++ front ∧ (page = [] → entries ≠ [] → front ≠ []) := by
  induction entries generalizing budget page with
  | nil =>
    obtain rfl := Except.ok.inj filled
    exact ⟨[], List.prefix_refl _, by simp, fun _ some_ => some_⟩
  | cons entry rest ih =>
    rw [fillPage] at filled
    obtain ⟨text, -, filled⟩ := bind_ok.mp filled
    simp only at filled
    split at filled
    next spent =>
      obtain rfl := Except.ok.inj filled
      refine ⟨[], List.nil_prefix, by simp, ?_⟩
      rintro rfl
      simp at spent
    next =>
      obtain ⟨front, inside, rfl, -⟩ := ih filled
      refine ⟨entry :: front, List.prefix_cons_inj entry |>.mpr inside, by simp, ?_⟩
      intro _ _
      exact List.cons_ne_nil _ _

theorem pageRange_ok {T : Keeper} {head : Dict} {start limit : Value} {i k n : Nat}
    (fits : pageRange K T head start limit = .ok (i, k, n)) :
    start = .int i ∧ 1 ≤ k ∧ k ≤ 64 ∧ i < n ∧ n ≤ T.log.entries.length ∧
    getOr head "tree_size" = .int n := by
  unfold pageRange at fits
  split at fits
  next start limit size sized =>
    split at fits
    next range =>
      obtain ⟨low, high, zero, below, inside⟩ := range
      obtain ⟨root, -, fits⟩ := bind_ok.mp fits
      split at fits
      next =>
        obtain ⟨rfl, rest⟩ := Prod.mk.inj (Except.ok.inj fits)
        obtain ⟨rfl, rfl⟩ := Prod.mk.inj rest
        have natural : ((start.toNat : Int)) = start := by omega
        have natural' : ((size.toNat : Int)) = size := by omega
        exact ⟨by rw [natural], by omega, by omega, by omega, by omega, by rw [natural', sized]⟩
      next => cases fits
    next => cases fits
  next => cases fits

/-- What an answered page is. -/
structure Page (K : Primitives) (T : Keeper) (p page : Value) : Prop where
  cut : ∃ start stop listed values, p.item "start" = .ok (.int (start : Nat)) ∧ start < stop ∧
    stop ≤ T.log.entries.length ∧ auditEntries K T start stop = .ok listed ∧
    values <+: listed ∧ values ≠ [] ∧
    page = .dict (fields [("entries", .list values), ("next", .int (start + values.length))])

theorem auditPage_ok {T : Keeper} {p page : Value} (answered : auditPage K T p = .ok page) :
    Page K T p page := by
  obtain ⟨shown, -, answered⟩ := bind_ok.mp answered
  obtain ⟨trust, -, answered⟩ := bind_ok.mp answered
  obtain ⟨u, -, answered⟩ := bind_ok.mp answered
  obtain ⟨head, -, answered⟩ := bind_ok.mp answered
  obtain ⟨start, asked, answered⟩ := bind_ok.mp answered
  obtain ⟨limit, -, answered⟩ := bind_ok.mp answered
  obtain ⟨⟨i, k, n⟩, range, answered⟩ := bind_ok.mp answered
  obtain ⟨listed, made, answered⟩ := bind_ok.mp answered
  obtain ⟨values, filled, answered⟩ := bind_ok.mp answered
  obtain ⟨begin_, low, -, below, inside, -⟩ := pageRange_ok range
  obtain ⟨front, shorter, whole, some_⟩ := fillPage_front filled
  rw [List.nil_append] at whole
  rw [begin_] at asked
  have count := mapM_ok_length made
  have present : listed ≠ [] := by
    intro none_
    rw [none_, List.length_drop, List.length_take, List.length_nil] at count
    omega
  exact ⟨i, min n (i + k), listed, values, asked, by omega, by omega, made, whole ▸ shorter,
    whole ▸ some_ rfl present, (Except.ok.inj answered).symm⟩

theorem iterate_nonempty {v : Value} {xs : List Value} (truthy : v.truthy = true)
    (listed : v.iterate = .ok xs) : xs ≠ [] := by
  rintro rfl
  cases v with
  | list ys =>
    obtain rfl := Except.ok.inj listed
    cases truthy
  | str s =>
    have empty := Except.ok.inj listed
    rw [List.map_eq_nil_iff, String.toList_eq_nil_iff] at empty
    subst empty
    cases truthy
  | dict kvs =>
    have empty := Except.ok.inj listed
    rw [List.map_eq_nil_iff] at empty
    subst empty
    cases truthy
  | _ => cases listed

/-- What the auditor takes from a page. -/
theorem readPage_ok {page : Value} {read size : Nat} {values : List Value}
    (taken : readPage page read size = .ok values) :
    ∃ given, page.item "entries" = .ok given ∧ given.iterate = .ok values ∧ values ≠ [] ∧
      read + values.length ≤ size := by
  obtain ⟨given, found, taken⟩ := bind_ok.mp taken
  split at taken
  next => cases taken
  next some_ =>
    obtain ⟨xs, listed, taken⟩ := bind_ok.mp taken
    obtain ⟨next_, -, taken⟩ := bind_ok.mp taken
    split at taken
    next => cases taken
    next fits =>
      obtain rfl := Except.ok.inj taken
      have truthy : given.truthy = true := by simpa using some_
      simp only [Bool.or_eq_true, decide_eq_true_eq, not_or] at fits
      exact ⟨given, found, listed, iterate_nonempty truthy listed, by omega⟩

/-- Each page that is taken brings the loop nearer to the size of the head. -/
theorem fetchPages_ends (peer : Peer) (head : Value) (size : Nat) (fuel n total : Nat)
    (entries : List Value) (enough : size ≤ entries.length + fuel) :
    ∃ outcome, fetchPages peer head size fuel n total entries = some outcome := by
  induction fuel generalizing n total entries with
  | zero =>
    rw [fetchPages, if_pos (by omega)]
    exact ⟨_, rfl⟩
  | succ fuel ih =>
    rw [fetchPages]
    split
    next => exact ⟨_, rfl⟩
    next =>
      simp only
      split
      next => exact ⟨_, rfl⟩
      next values total' taken =>
        obtain ⟨page, -, taken⟩ := bind_ok.mp taken
        obtain ⟨read, given, taken⟩ := bind_ok.mp taken
        obtain ⟨text, -, taken⟩ := bind_ok.mp taken
        split at taken
        next => cases taken
        next =>
          obtain ⟨rfl, -⟩ := Prod.mk.inj (Except.ok.inj taken)
          refine ih (n + 1) total' (entries ++ read) ?_
          obtain ⟨-, -, -, some_, -⟩ := readPage_ok given
          have positive := List.length_pos_iff.mpr some_
          rw [List.length_append]
          omega

theorem fetchExport_ends (peer : Peer) (trust : Trust) :
    ∃ outcome, fetchExport K peer trust = some outcome := by
  rw [fetchExport]
  split
  next => exact ⟨_, rfl⟩
  next export_ shown size fetched =>
    obtain ⟨outcome, ended⟩ := fetchPages_ends peer shown size size 0 0 [] (by simp)
    exact ⟨_, by rw [ended]; rfl⟩

end PagedExport
