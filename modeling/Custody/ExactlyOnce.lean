import Custody.Delivery
import Mathlib.Data.List.Nodup

/-!
# Exactly once

A statement waits in the outbox until the journal holds it and its receipt is
stored. Retries after a lost reply find the row that is there, so the journal
holds every statement once.
-/

namespace ExactlyOnce

open PyValue HexBytes CanonicalJson CanonicalForm Commitments Statements Schemas Engine Merkle
  TransparencyLog AppendOnly Identity Auditing Journal RereadStatements Delivery

variable {K : Primitives}

theorem admitted_read {T : Keeper} {actor : Role} {statement : Value} {retired : Bool}
    {s : SignedStatement} (h : admitted K T actor statement retired = .ok s) :
    SignedStatement.fromDict statement = .ok s := by
  obtain ⟨ct, -, h⟩ := bind_ok.mp h
  split at h
  next => cases h
  next =>
    split at h
    next => cases h
    next => exact authenticate_read h

/-- The row of an item that was handed over. -/
structure Queued (K : Primitives) (enqueued : List Item) (row : Pending) (item : Item) (b : Bytes) :
    Prop where
  member : item ∈ enqueued
  bytes : canonicalJson item.toValue = .ok b
  ident : row.ident = contentHashHex K b
  value : row.item = canon item.toValue

/-- The receipt of a row is stored by the sender. -/
def Stored (N : Net) (row : Row) (rc : RegistrationReceipt) : Prop :=
  ∃ record, N.sender.receipts.lookup row.hash = some record ∧
    (record.item "receipt" >>= RegistrationReceipt.fromDict) = .ok rc

/-- The journal has the statement's row, and its receipt is accepted for the statement and
stored by the sender. -/
structure Handed (K : Primitives) (N : Net) (s : SignedStatement) (row : Row)
    (t : SignedStatement) (b : Bytes) (rc : RegistrationReceipt) : Prop where
  member : row ∈ N.third.rows
  registered : Registered K row t b rc
  hash : s.statementHash K = .ok row.hash
  verified : ∃ pub why, fromHexValue (.str N.sender.tsPublicKey) = .ok pub ∧
    verifyReceipt K rc s pub = .ok (true, why)
  stored : Stored N row rc

def Delivered (K : Primitives) (N : Net) (s : SignedStatement) : Prop :=
  ∃ row t b rc, Handed K N s row t b rc

/-- If the item is a statement, it is delivered. -/
def ItemDelivered (K : Primitives) (N : Net) (item : Value) : Prop :=
  ∀ d, item.item "statement" = .ok d → ∃ s, SignedStatement.fromDict d = .ok s ∧ Delivered K N s

/-- A reply to a statement is the receipt of a row with the statement's hash. -/
def Answered (K : Primitives) (rows : List Row) (item value : Value) : Prop :=
  ∀ d, item.item "statement" = .ok d → ∃ s row t b rc, SignedStatement.fromDict d = .ok s ∧
    row ∈ rows ∧ Registered K row t b rc ∧ s.statementHash K = .ok row.hash ∧
    (value.item "receipt" >>= RegistrationReceipt.fromDict) = .ok rc

/-- The rows that the flush loop still has before it. -/
def snapshot : Phase → List Pending
  | .idle => []
  | .flushing rest => rest
  | .calling _ current rest => current :: rest
  | .confirmed current rest => current :: rest

def InStep (K : Primitives) (N : Net) : Phase → Prop
  | .calling id current _ => (id, current.item) ∈ N.requests
  | .confirmed current _ => ItemDelivered K N current.item
  | _ => True

structure Inv (K : Primitives) (N : Net) : Prop where
  rows : Rows K N.third.rows
  outbox : ∀ row ∈ N.sender.outbox, ∃ item b, Queued K N.enqueued row item b
  idents : (N.sender.outbox.map Pending.ident).Nodup
  snapshot : (snapshot N.sender.phase).Sublist N.sender.outbox
  inStep : InStep K N N.sender.phase
  numbered : ∀ (i id : Nat) (item : Value), N.requests[i]? = some (id, item) → id = i
  replies : ∀ x ∈ N.replies, ∃ item, (x.1, item) ∈ N.requests ∧
    Answered K N.third.rows item x.2
  every : ∀ item ∈ N.enqueued, ∃ b, canonicalJson item.toValue = .ok b ∧
    (({ ident := contentHashHex K b, item := canon item.toValue } : Pending) ∈ N.sender.outbox ∨
      ItemDelivered K N (canon item.toValue) ∨
      ∃ other ∈ N.enqueued, ∃ b', canonicalJson other.toValue = .ok b' ∧ Collision K [b, b'])

/-- Nothing that was delivered is lost. -/
structure Grows (K : Primitives) (N next : Net) : Prop where
  rows : ∀ r ∈ N.third.rows, r ∈ next.third.rows
  tsPublicKey : next.sender.tsPublicKey = N.sender.tsPublicKey
  stored : ∀ row ∈ N.third.rows, ∀ t b rc, Registered K row t b rc → Stored N row rc →
    Stored next row rc
  enqueued : ∀ item ∈ N.enqueued, item ∈ next.enqueued

/-- What has been delivered stays delivered while the net grows. -/
theorem Grows.delivered {N next : Net} (grows : Grows K N next) {s : SignedStatement}
    (delivered : Delivered K N s) : Delivered K next s := by
  obtain ⟨row, t, b, rc, facts⟩ := delivered
  exact ⟨row, t, b, rc, grows.rows row facts.member, facts.registered, facts.hash,
    by rw [grows.tsPublicKey]; exact facts.verified,
    grows.stored row facts.member t b rc facts.registered facts.stored⟩

theorem Grows.item {N next : Net} (grows : Grows K N next) {item : Value}
    (delivered : ItemDelivered K N item) : ItemDelivered K next item := by
  intro d found
  obtain ⟨s, read, facts⟩ := delivered d found
  exact ⟨s, read, grows.delivered facts⟩

theorem Grows.answered {N next : Net} (grows : Grows K N next) {item value : Value}
    (answered : Answered K N.third.rows item value) : Answered K next.third.rows item value := by
  intro d found
  obtain ⟨s, row, t, b, rc, read, member, rest⟩ := answered d found
  exact ⟨s, row, t, b, rc, read, grows.rows row member, rest⟩

/-- What is known of every item stays known, if no row leaves the outbox. -/
theorem Grows.every {N next : Net} (grows : Grows K N next) (inv : Inv K N)
    (outbox : ∀ row ∈ N.sender.outbox, row ∈ next.sender.outbox) (item : Item)
    (member : item ∈ N.enqueued) : ∃ b, canonicalJson item.toValue = .ok b ∧
      (({ ident := contentHashHex K b, item := canon item.toValue } : Pending) ∈
          next.sender.outbox ∨
        ItemDelivered K next (canon item.toValue) ∨
        ∃ other ∈ next.enqueued, ∃ b', canonicalJson other.toValue = .ok b' ∧
          Collision K [b, b']) := by
  obtain ⟨b, written, cases_⟩ := inv.every item member
  refine ⟨b, written, ?_⟩
  rcases cases_ with waiting | delivered | ⟨other, known, b', bytes, clash⟩
  · exact .inl (outbox _ waiting)
  · exact .inr (.inl (grows.item delivered))
  · exact .inr (.inr ⟨other, grows.enqueued other known, b', bytes, clash⟩)

theorem Grows.inStep {N next : Net} (grows : Grows K N next) {phase : Phase}
    (requests : ∀ x ∈ N.requests, x ∈ next.requests) (inStep : InStep K N phase) :
    InStep K next phase := by
  cases phase with
  | calling id current rest => exact requests _ inStep
  | confirmed current rest => exact grows.item inStep
  | _ => trivial

/-- A step of the loop that only moves on in its snapshot. -/
theorem inv_setPhase {N : Net} (inv : Inv K N) {phase : Phase}
    (front : (snapshot phase).Sublist N.sender.outbox) (inStep : InStep K N phase) :
    Inv K (N.setPhase phase) := by
  have grows : Grows K N (N.setPhase phase) :=
    ⟨fun _ member => member, rfl, fun _ _ _ _ _ _ stored => stored, fun _ member => member⟩
  exact ⟨inv.rows, inv.outbox, inv.idents, front, grows.inStep (fun _ member => member) inStep,
    inv.numbered, inv.replies, grows.every inv fun _ member => member⟩

/-- Sending a request keeps the invariant. -/
theorem inv_call {N : Net} (inv : Inv K N) : Inv K N.call := by
  rw [Net.call]
  split
  next current rest at_ =>
    have front := inv.snapshot
    rw [at_] at front
    have grows : Grows K N { N.setPhase (.calling N.requests.length current rest) with
        requests := N.requests ++ [(N.requests.length, current.item)] } :=
      ⟨fun _ member => member, rfl, fun _ _ _ _ _ _ stored => stored, fun _ member => member⟩
    refine ⟨inv.rows, inv.outbox, inv.idents, front, List.mem_append_right _ (by simp), ?_, ?_,
      grows.every inv fun _ member => member⟩
    · intro i id item found
      rcases lt_trichotomy i N.requests.length with before | rfl | after
      · rw [List.getElem?_append_left before] at found
        exact inv.numbered i id item found
      · simp at found
        exact found.1.symm
      · rw [List.getElem?_eq_none (by simp; omega)] at found
        cases found
    · intro x member
      obtain ⟨item, asked, answered⟩ := inv.replies x member
      exact ⟨item, List.mem_append_left _ asked, answered⟩
  next => exact inv_setPhase inv (List.nil_sublist _) trivial
  next => exact inv

/-- A request number stands for one item. -/
theorem request_unique {N : Net} (inv : Inv K N) {id : Nat} {item item' : Value}
    (first : (id, item) ∈ N.requests) (second : (id, item') ∈ N.requests) : item = item' := by
  obtain ⟨i, here⟩ := List.getElem?_of_mem first
  obtain ⟨j, there⟩ := List.getElem?_of_mem second
  obtain rfl := inv.numbered i id item here
  obtain rfl := inv.numbered j _ item' there
  rw [here] at there
  exact congrArg Prod.snd (Option.some.inj there)

/-- The third party's journal only grows, and it answers from it. -/
theorem inv_third {N : Net} (inv : Inv K N) {third : Keeper} (rows : Rows K third.rows)
    (grown : ∀ r ∈ N.third.rows, r ∈ third.rows) {more : List (Nat × Value)}
    (answered : ∀ x ∈ more, ∃ item, (x.1, item) ∈ N.requests ∧
      Answered K third.rows item x.2) :
    Inv K { N with third, replies := N.replies ++ more } := by
  have grows : Grows K N { N with third, replies := N.replies ++ more } :=
    ⟨grown, rfl, fun _ _ _ _ _ _ stored => stored, fun _ member => member⟩
  refine ⟨rows, inv.outbox, inv.idents, inv.snapshot,
    grows.inStep (fun _ member => member) inv.inStep, inv.numbered, ?_,
    grows.every inv fun _ member => member⟩
  intro x member
  rcases List.mem_append.mp member with old | new
  · obtain ⟨item, asked, facts⟩ := inv.replies x old
    exact ⟨item, asked, grows.answered facts⟩
  · exact answered x new

/-- A submission keeps the rows one per statement and answers with the row of its own. -/
theorem submit_answers {T : Keeper} (kept : Rows K T.rows) (actor : Role) (item : Value)
    (how : Processing) : Rows K (submit K T actor item how).1.rows ∧
      (∀ r ∈ T.rows, r ∈ (submit K T actor item how).1.rows) ∧
      ∀ v, (submit K T actor item how).2 = .ok v →
        Answered K (submit K T actor item how).1.rows item (canon v) := by
  rw [submit]
  cases found : item.item "statement" with
  | error e =>
    refine ⟨kept, fun _ member => member, ?_⟩
    intro v _ d given
    rw [found] at given
    cases given
  | ok statement =>
    simp only
    cases checked : admitted K T actor statement how.retired with
    | error e => exact ⟨kept, fun _ member => member, fun v bad => by cases bad⟩
    | ok stmt =>
      have done := register_submitted kept stmt how.now how.failure
      simp only
      split
      next next receipt outcome =>
        rw [outcome] at done
        refine ⟨done.rows, done.grown, ?_⟩
        intro v answered d given
        rw [found] at given
        obtain rfl := Except.ok.inj given
        obtain rfl := Except.ok.inj answered
        obtain ⟨row, member, hashed, t, b, rc, registered, either⟩ := done.answer receipt rfl
        refine ⟨stmt, row, t, b, rc, admitted_read checked, member, registered, hashed, ?_⟩
        have named : Value.item (.dict (fields [("receipt", receipt)])) "receipt" = .ok receipt :=
          rfl
        have same : canon receipt = canon rc.toDict := by
          rcases either with rfl | rfl
          · rfl
          · exact canon_canon _ (whole_keyed registered.whole)
        rw [item_canon named, ok_bind, same]
        exact whole_read registered.whole
      next next e outcome =>
        rw [outcome] at done
        exact ⟨done.rows, done.grown, fun v bad => by cases bad⟩

/-- T's processing keeps the invariant, however it ends. -/
theorem inv_process {N : Net} (inv : Inv K N) (request : Nat) (how : Processing) :
    Inv K (N.process K request how) := by
  rw [Net.process]
  split
  next => exact inv
  next id item asked =>
    obtain ⟨rows, grown, answers⟩ := submit_answers inv.rows N.sender.role item how
    split
    next third value outcome =>
      rw [outcome] at rows grown answers
      refine inv_third inv rows grown ?_
      intro x only
      obtain rfl := List.mem_singleton.mp only
      exact ⟨item, List.mem_of_getElem? asked, answers value rfl⟩
    next third e outcome =>
      rw [outcome] at rows grown
      have kept := @inv_third K N inv third rows grown [] (by simp)
      simpa using kept

/-- T's other work keeps the rows one per statement. -/
theorem step_rows {T next : Keeper} (kept : Rows K T.rows) {ev : Journal.Event}
    (stepped : Journal.step K T ev = .ok next) :
    Rows K next.rows ∧ ∀ r ∈ T.rows, r ∈ next.rows := by
  cases ev with
  | register stmt now failure =>
    obtain rfl := Except.ok.inj stepped
    have done := register_submitted kept stmt now failure
    exact ⟨done.rows, done.grown⟩
  | restart failure =>
    have reloaded := reload_rows kept failure
    rw [Journal.step, Keeper.restart] at stepped
    split at stepped
    next last outcome =>
      obtain rfl := Except.ok.inj stepped
      rw [outcome] at reloaded
      exact reloaded
    next => cases stepped

theorem queued_mono {xs ys : List Item} (more : ∀ item ∈ xs, item ∈ ys) {row : Pending}
    (queued : ∃ item b, Queued K xs row item b) : ∃ item b, Queued K ys row item b := by
  obtain ⟨item, b, facts⟩ := queued
  exact ⟨item, b, more item facts.member, facts.bytes, facts.ident, facts.value⟩

/-- An item is refused its own row only where one with the same identifier waits already. -/
theorem enqueue_ok {U next : Sender} {item : Item} {capacity : Nat} {failure : Option PyErr}
    (done : U.enqueue K item capacity failure = .ok next) :
    ∃ b, canonicalJson item.toValue = .ok b ∧
      ((next = U ∧ ∃ row ∈ U.outbox, row.ident = contentHashHex K b) ∨
        ((∀ row ∈ U.outbox, row.ident ≠ contentHashHex K b) ∧
          next = { U with outbox := U.outbox ++
            [{ ident := contentHashHex K b, item := canon item.toValue }] })) := by
  obtain ⟨b, written, done⟩ := bind_ok.mp done
  refine ⟨b, written, ?_⟩
  simp only at done
  split at done
  next known =>
    obtain ⟨row, member, same⟩ := List.any_eq_true.mp known
    rw [beq_iff_eq] at same
    exact .inl ⟨(Except.ok.inj done).symm, row, member, same⟩
  next absent =>
    split at done
    next => cases done
    next =>
      cases failure with
      | some e => cases done
      | none =>
        refine .inr ⟨?_, (Except.ok.inj done).symm⟩
        intro row member same
        exact absent (List.any_eq_true.mpr ⟨row, member, by rw [beq_iff_eq]; exact same⟩)

/-- One identifier of two items means one text, or two texts with one hash. -/
theorem same_ident {item other : Item} {b b' : Bytes} (left : canonicalJson item.toValue = .ok b)
    (right : canonicalJson other.toValue = .ok b')
    (same : contentHashHex K b' = contentHashHex K b) :
    canon other.toValue = canon item.toValue ∨ Collision K [b, b'] := by
  by_cases bytes : b' = b
  · rw [bytes] at right
    exact .inl (canonicalJson_injective right left)
  · refine .inr ⟨b, by simp, b', by simp, fun h => bytes h.symm, ?_⟩
    exact (hex_injective same).symm

/-- A new item keeps the invariant, also where it is in the outbox already. -/
theorem inv_enqueue {N : Net} (inv : Inv K N) {item : Item} {capacity : Nat}
    {failure : Option PyErr} {sender : Sender}
    (done : N.sender.enqueue K item capacity failure = .ok sender) :
    Inv K { N with sender, enqueued := N.enqueued ++ [item] } := by
  have more : ∀ other ∈ N.enqueued, other ∈ N.enqueued ++ [item] :=
    fun _ member => List.mem_append_left _ member
  obtain ⟨b, written, ⟨rfl, row, member, same⟩ | ⟨absent, rfl⟩⟩ := enqueue_ok done
  · have grows : Grows K N { N with enqueued := N.enqueued ++ [item] } :=
      ⟨fun _ member => member, rfl, fun _ _ _ _ _ _ stored => stored, more⟩
    refine ⟨inv.rows, fun r inside => queued_mono more (inv.outbox r inside), inv.idents,
      inv.snapshot, grows.inStep (fun _ member => member) inv.inStep, inv.numbered, inv.replies, ?_⟩
    intro other known
    rcases List.mem_append.mp known with old | new
    · exact grows.every inv (fun _ member => member) other old
    · obtain rfl := List.mem_singleton.mp new
      obtain ⟨first, b', facts⟩ := inv.outbox row member
      refine ⟨b, written, ?_⟩
      rcases same_ident written facts.bytes (facts.ident.symm.trans same) with equal | clash
      · refine .inl ?_
        rw [← equal, ← facts.value, ← same]
        exact member
      · exact .inr (.inr ⟨first, more first facts.member, b', facts.bytes, clash⟩)
  · have grows : Grows K N { N with
        sender := { N.sender with outbox := N.sender.outbox ++
          [{ ident := contentHashHex K b, item := canon item.toValue }] }
        enqueued := N.enqueued ++ [item] } :=
      ⟨fun _ member => member, rfl, fun _ _ _ _ _ _ stored => stored, more⟩
    refine ⟨inv.rows, ?_, ?_, inv.snapshot.trans (List.sublist_append_left _ _),
      grows.inStep (fun _ member => member) inv.inStep, inv.numbered, inv.replies, ?_⟩
    · intro row member
      rcases List.mem_append.mp member with old | new
      · exact queued_mono more (inv.outbox row old)
      · obtain rfl := List.mem_singleton.mp new
        exact ⟨item, b, List.mem_append_right _ List.mem_cons_self, written, rfl, rfl⟩
    · rw [List.map_append, List.map_singleton, List.nodup_append]
      refine ⟨inv.idents, List.pairwise_singleton _ _, ?_⟩
      intro ident member last_ only
      obtain rfl := List.mem_singleton.mp only
      obtain ⟨row, inside, rfl⟩ := List.mem_map.mp member
      exact absent row inside
    · intro other known
      rcases List.mem_append.mp known with old | new
      · exact grows.every inv (fun _ member => List.mem_append_left _ member) other old
      · obtain rfl := List.mem_singleton.mp new
        exact ⟨b, written, .inl (List.mem_append_right _ List.mem_cons_self)⟩

/-- The receipt of a row is one receipt. -/
theorem registered_receipt {rows : List Row} (kept : Rows K rows) {row row' : Row}
    {t t' : SignedStatement} {b b' : Bytes} {rc rc' : RegistrationReceipt}
    (member : row ∈ rows) (member' : row' ∈ rows) (same : row.hash = row'.hash)
    (left : Registered K row t b rc) (right : Registered K row' t' b' rc') : rc = rc' := by
  obtain rfl := List.inj_on_of_nodup_map kept.unique member member' same
  have equal := left.receipt
  rw [right.receipt] at equal
  have read := whole_read left.whole
  rw [← Option.some.inj equal, whole_read right.whole] at read
  exact (Except.ok.inj read).symm

/-- Keeping a receipt replaces that of the same statement and no other. -/
theorem lookup_put (receipts : List (String × Value)) (hash h : String) (record : Value) :
    List.lookup h ((hash, record) :: receipts.filter fun x => x.1 != hash) =
      if h = hash then some record else List.lookup h receipts := by
  by_cases same : h = hash
  · simp [same]
  · rw [if_neg same, List.lookup_cons]
    simp only [beq_eq_false_iff_ne.mpr same]
    induction receipts with
    | nil => rfl
    | cons x rest ih =>
      by_cases drop : x.1 = hash
      · have other : (h == x.1) = false := by
          rw [drop]
          exact beq_eq_false_iff_ne.mpr same
        rw [List.filter_cons_of_neg (by simp [drop]), ih, List.lookup_cons, other]
      · rw [List.filter_cons_of_pos (by simp [drop]), List.lookup_cons, List.lookup_cons, ih]

/-- The receipt that the sender stores under a statement's hash. -/
theorem keepReceipt_ok {U next : Sender} {statement result : Value} {failure : Option PyErr}
    (kept : U.keepReceipt K statement result failure = .ok next) :
    ∃ rc s hash pub why, (result.item "receipt" >>= RegistrationReceipt.fromDict) = .ok rc ∧
      SignedStatement.fromDict statement = .ok s ∧ s.statementHash K = .ok hash ∧
      fromHexValue (.str U.tsPublicKey) = .ok pub ∧ verifyReceipt K rc s pub = .ok (true, why) ∧
      next = { U with receipts := (hash, canon (U.remembered s hash rc)) ::
        U.receipts.filter fun x => x.1 != hash } := by
  obtain ⟨given, found, kept⟩ := bind_ok.mp kept
  obtain ⟨rc, read, kept⟩ := bind_ok.mp kept
  obtain ⟨s, decoded, kept⟩ := bind_ok.mp kept
  obtain ⟨pub, pinned, kept⟩ := bind_ok.mp kept
  obtain ⟨⟨ok, why⟩, verified, kept⟩ := bind_ok.mp kept
  simp only at kept
  split at kept
  next => cases kept
  next fine =>
    obtain ⟨hash, hashed, kept⟩ := bind_ok.mp kept
    obtain ⟨written, -, kept⟩ := bind_ok.mp kept
    cases failure with
    | some e => cases kept
    | none =>
      have valid : ok = true := by
        cases ok with
        | true => rfl
        | false => exact absurd (by simp) fine
      refine ⟨rc, s, hash, pub, why, ?_, decoded, hashed, pinned, valid ▸ verified,
        (Except.ok.inj kept).symm⟩
      rw [found, ok_bind]
      exact read

/-- A receipt that was kept is read back. -/
theorem remembered_receipt (U : Sender) (s : SignedStatement) (hash : String)
    {rc : RegistrationReceipt} (whole : Whole rc) :
    ((canon (U.remembered s hash rc)).item "receipt" >>= RegistrationReceipt.fromDict) =
      .ok rc := by
  have found : (U.remembered s hash rc).item "receipt" = .ok rc.toDict := rfl
  rw [item_canon found, ok_bind]
  exact whole_read whole

/-- A result that arrives keeps the invariant. -/
theorem inv_receive {N : Net} (inv : Inv K N) (result : Nat) (failure : Option PyErr) :
    Inv K (N.receive K result failure) := by
  rw [Net.receive]
  split
  next id current rest id' value at_ replied =>
    have front := inv.snapshot
    have waiting := inv.inStep
    rw [at_] at front waiting
    split
    next same =>
      subst same
      split
      next sender confirmed =>
        obtain ⟨item, asked, answered⟩ := inv.replies _ (List.mem_of_getElem? replied)
        obtain rfl := request_unique inv asked waiting
        rw [Sender.confirm] at confirmed
        split at confirmed
        next statement found =>
          obtain ⟨rc', s', hash, pub, why, given, decoded, hashed, pinned, verified, rfl⟩ :=
            keepReceipt_ok confirmed
          obtain ⟨s, row, t, b, rc, read, member, registered, hashed', reply⟩ :=
            answered statement found
          rw [read] at decoded
          obtain rfl := Except.ok.inj decoded
          rw [reply] at given
          obtain rfl := Except.ok.inj given
          rw [hashed'] at hashed
          obtain rfl := Except.ok.inj hashed
          have fresh := remembered_receipt N.sender s row.hash registered.whole
          generalize canon (N.sender.remembered s row.hash rc) = record at fresh ⊢
          have grows : Grows K N { N with sender := { N.sender with
              receipts := (row.hash, record) ::
                N.sender.receipts.filter fun x => x.1 != row.hash
              phase := .confirmed current rest } } := by
            refine ⟨fun _ inside => inside, rfl, ?_, fun _ inside => inside⟩
            intro row' member' t' b' rc' registered' stored
            obtain ⟨record', found', holds⟩ := stored
            rw [Stored]
            simp only [lookup_put]
            split
            next equal =>
              obtain rfl := registered_receipt inv.rows member' member equal registered' registered
              exact ⟨record, rfl, fresh⟩
            next => exact ⟨record', found', holds⟩
          refine ⟨inv.rows, inv.outbox, inv.idents, front, ?_, inv.numbered, inv.replies,
            grows.every inv fun _ inside => inside⟩
          intro d again
          rw [found] at again
          obtain rfl := Except.ok.inj again
          refine ⟨s, read, row, t, b, rc, member, registered, hashed', ⟨pub, why, pinned, verified⟩,
            ?_⟩
          rw [Stored]
          simp only [lookup_put, if_true]
          exact ⟨_, rfl, fresh⟩
        next e none_ =>
          split at confirmed
          next =>
            obtain rfl := Except.ok.inj confirmed
            refine inv_setPhase inv front ?_
            intro d found
            rw [none_] at found
            cases found
          next => cases confirmed
      next => exact inv_setPhase inv (List.nil_sublist _) trivial
    next => exact inv
  next => exact inv

/-- Acknowledging an item keeps the invariant. -/
theorem inv_ack {N : Net} (inv : Inv K N) (failure : Option PyErr) : Inv K (N.ack failure) := by
  unfold Net.ack
  split
  next current rest at_ =>
    have front := inv.snapshot
    have delivered := inv.inStep
    rw [at_] at front delivered
    have present : current ∈ N.sender.outbox := front.subset List.mem_cons_self
    have grows : Grows K N { N with
        sender := { N.sender.ack current.ident with phase := .flushing rest } } :=
      ⟨fun _ member => member, rfl, fun _ _ _ _ _ _ stored => stored, fun _ member => member⟩
    have others : rest.filter (fun row => row.ident != current.ident) = rest := by
      have distinct := inv.idents.sublist (front.map Pending.ident)
      simp only [snapshot, List.map_cons, List.nodup_cons] at distinct
      rw [List.filter_eq_self]
      intro row later
      have different : row.ident ≠ current.ident := by
        intro same
        exact distinct.1 (same ▸ List.mem_map_of_mem later)
      simpa using different
    refine ⟨inv.rows, ?_, inv.idents.sublist (List.filter_sublist.map _), ?_, trivial,
      inv.numbered, inv.replies, ?_⟩
    · intro row member
      exact inv.outbox row (List.mem_filter.mp member).1
    · have less := ((List.sublist_cons_self current rest).trans front).filter
        fun row => row.ident != current.ident
      rw [others] at less
      exact less
    · intro item member
      obtain ⟨b, written, waiting | rest_⟩ := inv.every item member
      · refine ⟨b, written, ?_⟩
        by_cases same : contentHashHex K b = current.ident
        · have one := List.inj_on_of_nodup_map inv.idents waiting present same
          have value : canon item.toValue = current.item := congrArg Pending.item one
          rw [value]
          exact .inr (.inl (grows.item delivered))
        · refine .inl (List.mem_filter.mpr ⟨waiting, ?_⟩)
          simpa using same
      · refine ⟨b, written, .inr ?_⟩
        rcases rest_ with done | clash
        · exact .inl (grows.item done)
        · exact .inr clash
  next => exact inv_setPhase inv (List.nil_sublist _) trivial
  next => exact inv

/-- One event keeps the invariant. -/
theorem inv_step {N : Net} (inv : Inv K N) (ev : Delivery.Event) : Inv K (N.step K ev) := by
  cases ev with
  | enqueue item capacity failure =>
    rw [Net.step]
    split
    next sender done => exact inv_enqueue inv done
    next => exact inv
  | flush =>
    rw [Net.step]
    split
    next => exact inv_setPhase inv (List.Sublist.refl _) trivial
    next => exact inv
  | call => exact inv_call inv
  | receive result failure => exact inv_receive inv result failure
  | ack failure => exact inv_ack inv failure
  | stop => exact inv_setPhase inv (List.nil_sublist _) trivial
  | process request how => exact inv_process inv request how
  | third ev =>
    rw [Net.step]
    split
    next third stepped =>
      obtain ⟨rows, grown⟩ := step_rows inv.rows stepped
      have kept := @inv_third K N inv third rows grown [] (by simp)
      simpa using kept
    next => exact inv

/-- The invariant holds along every run. -/
theorem inv_run {N : Net} (inv : Inv K N) (events : List Delivery.Event) :
    Inv K (N.run K events) := by
  induction events generalizing N with
  | nil => exact inv
  | cons ev rest ih => exact ih (inv_step inv ev)

/-- The journal contains the statement, or one whose leaf has the same hash, and the sender has a
receipt that it accepts for the statement. -/
structure Reported (K : Primitives) (N : Net) (s : SignedStatement) (row : Row) : Prop where
  member : row ∈ N.third.rows
  hash : s.statementHash K = .ok row.hash
  statement : row.record.statement = canon s.toDict ∨ ∃ (t : SignedStatement) (b b' : Bytes),
    row.record.statement = canon t.toDict ∧ s.leafBytes = .ok b ∧ t.leafBytes = .ok b' ∧
    Collision K [0 :: b, 0 :: b']
  receipt : ∃ record rc pub why, N.sender.receipts.lookup row.hash = some record ∧
    (record.item "receipt" >>= RegistrationReceipt.fromDict) = .ok rc ∧
    fromHexValue (.str N.sender.tsPublicKey) = .ok pub ∧
    verifyReceipt K rc s pub = .ok (true, why)

theorem item_leaf {s : SignedStatement} {b : Bytes}
    (written : canonicalJson (Item.statement s).toValue = .ok b) :
    ∃ data, s.leafBytes = .ok data := by
  obtain ⟨u, checked, -⟩ := bind_ok.mp written
  rw [Item.toValue, check, checkDict_iff] at checked
  have inside := (checked (.str "statement", s.toDict) (by simp [fields])).2 "$"
  exact ⟨_, by
    rw [SignedStatement.leafBytes, canonicalJson, inside]
    rfl⟩

/-- An item that has been delivered has a row that reports its statement. -/
theorem reported_of_item {N : Net} {s : SignedStatement} {b : Bytes}
    (written : canonicalJson (Item.statement s).toValue = .ok b)
    (delivered : ItemDelivered K N (canon (Item.statement s).toValue)) :
    ∃ row, Reported K N s row := by
  obtain ⟨data, leaf⟩ := item_leaf written
  have named : (Item.statement s).toValue.item "statement" = .ok s.toDict := rfl
  obtain ⟨s', read, row, t, b', rc, facts⟩ := delivered _ (item_canon named)
  rw [fromDict_canon] at read
  obtain rfl := Except.ok.inj read
  obtain ⟨pub, why, pinned, verified⟩ := facts.verified
  have again := leafBytes_reread leaf
  obtain ⟨data', leaf', hashes⟩ := verified_leaf verified
  rw [again] at leaf'
  obtain rfl := Except.ok.inj leaf'
  obtain ⟨hash, hashed⟩ := leaf_hashed (K := K) leaf
  have sameHash := statementHash_reread hashed
  rw [facts.hash] at sameHash
  obtain ⟨record, found, holds⟩ := facts.stored
  refine ⟨row, facts.member, by rw [hashed, Except.ok.inj sameHash], ?_, record, rc, pub, why,
    found, holds, pinned, by rw [verifyReceipt_leaf leaf again]; exact verified⟩
  have equal : leafHash K b' = leafHash K data := by
    have texts := facts.registered.named
    rw [hashes] at texts
    exact (hex_injective (Value.str.inj texts)).symm
  by_cases same : data = b'
  · refine .inl ?_
    have twice := facts.registered.leaf
    rw [← same] at twice
    rw [facts.registered.statement]
    exact canonicalJson_injective twice leaf
  · refine .inr ⟨t, data, b', facts.registered.statement, leaf, facts.registered.leaf, 0 :: data,
      by simp, 0 :: b', by simp, ?_, equal.symm⟩
    intro clash
    exact same (List.cons.inj clash).2

theorem confirm_outbox {U next : Sender} {item result : Value} {failure : Option PyErr}
    (confirmed : U.confirm K item result failure = .ok next) : next.outbox = U.outbox := by
  rw [Sender.confirm] at confirmed
  split at confirmed
  next =>
    obtain ⟨rc, s, hash, pub, why, -, -, -, -, -, rfl⟩ := keepReceipt_ok confirmed
    rfl
  next =>
    split at confirmed
    next =>
      obtain rfl := Except.ok.inj confirmed
      rfl
    next => cases confirmed

/-- The outbox changes only where something is put in or acknowledged. -/
theorem step_outbox (N : Net) (ev : Delivery.Event) :
    (N.step K ev).sender.outbox = N.sender.outbox ∨
    (∃ item capacity failure, ev = .enqueue item capacity failure) ∨
    ∃ current rest, ev = .ack none ∧ N.sender.phase = .confirmed current rest ∧
      (N.step K ev).sender.outbox = N.sender.outbox.filter fun row => row.ident !=
      current.ident := by
  cases ev with
  | enqueue item capacity failure => exact .inr (.inl ⟨item, capacity, failure, rfl⟩)
  | flush =>
    left
    rw [Net.step]
    split <;> rfl
  | call =>
    left
    rw [Net.step]
    unfold Net.call
    split <;> rfl
  | receive result failure =>
    left
    rw [Net.step]
    unfold Net.receive
    split
    next =>
      split
      next =>
        split
        next sender confirmed =>
          have kept := confirm_outbox confirmed
          exact kept
        next => rfl
      next => rfl
    next => rfl
  | ack failure =>
    cases at_ : N.sender.phase with
    | confirmed current rest =>
      cases failure with
      | some e =>
        left
        simp only [Net.step, Net.ack, at_]
        rfl
      | none =>
        refine .inr (.inr ⟨current, rest, rfl, rfl, ?_⟩)
        simp only [Net.step, Net.ack, at_]
        rfl
    | _ =>
      left
      simp only [Net.step, Net.ack, at_]
  | stop => exact .inl rfl
  | process request how =>
    left
    rw [Net.step]
    unfold Net.process
    split
    next => rfl
    next => split <;> rfl
  | third ev =>
    left
    rw [Net.step]
    split <;> rfl

/-- A row leaves the outbox only when it has been delivered. -/
theorem leaves_delivered {N : Net} (inv : Inv K N) (ev : Delivery.Event) {row : Pending}
    (waits : row ∈ N.sender.outbox) (gone : row ∉ (N.step K ev).sender.outbox) :
    ItemDelivered K N row.item := by
  rcases step_outbox N ev with same | ⟨item, capacity, failure, rfl⟩ | ⟨current, rest, -, at_, left⟩
  · rw [same] at gone
    exact absurd waits gone
  · rw [Net.step] at gone
    split at gone
    next sender done =>
      obtain ⟨b, -, ⟨rfl, -⟩ | ⟨-, rfl⟩⟩ := enqueue_ok done
      · exact absurd waits gone
      · exact absurd (List.mem_append_left _ waits) gone
    next => exact absurd waits gone
  · have front := inv.snapshot
    have delivered := inv.inStep
    rw [at_] at front delivered
    rw [left] at gone
    by_cases same : row.ident = current.ident
    · have present : current ∈ N.sender.outbox := front.subset List.mem_cons_self
      obtain rfl := List.inj_on_of_nodup_map inv.idents waits present same
      exact delivered
    · exact absurd (List.mem_filter.mpr ⟨waits, by simpa using same⟩) gone

theorem inv_start {config : Config} {seed : Bytes} {failure : Option PyErr} {T : Keeper}
    (started : Keeper.start K config seed failure = .ok T) (role : Role)
    (logId tsPublicKey : String) :
    Inv K { sender := { role, logId, tsPublicKey }, third := T } := by
  obtain ⟨key, -, started⟩ := bind_ok.mp started
  obtain ⟨fresh, opened, started⟩ := bind_ok.mp started
  have empty : Rows K ([] : List Row) := ⟨List.Pairwise.nil, by simp⟩
  have rows := (@reload_rows K { config, key, log := fresh, rows := [] } empty failure).1
  rw [Keeper.restart] at started
  split at started
  next next done =>
    obtain rfl := Except.ok.inj started
    rw [done] at rows
    exact ⟨rows, by simp, List.Pairwise.nil, List.Sublist.refl _, trivial, by simp, by simp,
      by simp⟩
  next => cases started

/-- Whatever is lost, delayed, repeated or interrupted: a statement waits in the outbox until the
journal has it and its receipt is stored, and the journal has each statement once. -/
theorem delivered_once {config : Config} {seed : Bytes} {failure : Option PyErr} {T : Keeper}
    (started : Keeper.start K config seed failure = .ok T) (role : Role)
    (logId tsPublicKey : String) (events : List Delivery.Event) (N : Net)
    (reached : Net.run K { sender := { role, logId, tsPublicKey }, third := T } events = N) :
    (N.third.rows.map Row.hash).Nodup ∧
    (∀ s, .statement s ∈ N.enqueued → ∃ b, canonicalJson (Item.statement s).toValue = .ok b ∧
      (⟨contentHashHex K b, canon (Item.statement s).toValue⟩ ∈ N.sender.outbox ∨
        (∃ row, Reported K N s row) ∨
        ∃ other ∈ N.enqueued, ∃ b', canonicalJson other.toValue = .ok b' ∧
          Collision K [b, b'])) ∧
    ∀ ev, ∀ row ∈ N.sender.outbox, row ∉ (N.step K ev).sender.outbox →
      ∃ item ∈ N.enqueued, row.item = canon item.toValue ∧
        ∀ s, item = .statement s → ∃ row, Reported K N s row := by
  subst reached
  have inv := inv_run (inv_start started role logId tsPublicKey) events
  refine ⟨inv.rows.unique, ?_, ?_⟩
  · intro s member
    obtain ⟨b, written, waiting | delivered | clash⟩ := inv.every _ member
    · exact ⟨b, written, .inl waiting⟩
    · exact ⟨b, written, .inr (.inl (reported_of_item written delivered))⟩
    · exact ⟨b, written, .inr (.inr clash)⟩
  · intro ev row waits gone
    obtain ⟨item, b, queued⟩ := inv.outbox row waits
    have delivered := leaves_delivered inv ev waits gone
    refine ⟨item, queued.member, queued.value, ?_⟩
    rintro s rfl
    rw [queued.value] at delivered
    exact reported_of_item queued.bytes delivered

/-- The reply to the first call is lost, the statement is sent again and its receipt comes. -/
def sampleDelivery : List Delivery.Event :=
  let how : Processing := { now := 10, retired := false, failure := none, stored := .ok .null }
  [.enqueue (.statement sampleContract) 256 none, .flush, .call, .process 0 how, .stop, .flush,
    .call, .process 1 how, .receive 1 none, .ack none]

def sampleNet (T : Keeper) : Net :=
  Net.run toy { sender := { role := .U, logId := "log", tsPublicKey := hex [4] }, third := T }
    sampleDelivery

/-- What waits, and the rows of the journal. -/
def sampleOutcome : Py (Nat × Nat) := do
  let T ← Keeper.start toy sampleConfig [4] none
  pure ((sampleNet T).sender.outbox.length, (sampleNet T).third.rows.length)

theorem sampleOutcome_facts : sampleOutcome = .ok (0, 2) := by
  decide +kernel

theorem delivered_once_sample : ∃ T, Keeper.start toy sampleConfig [4] none = .ok T ∧
    (sampleNet T).third.rows.length = 2 ∧ (sampleNet T).sender.outbox = [] ∧
    ((sampleNet T).third.rows.map Row.hash).Nodup := by
  obtain ⟨T, started, rest⟩ := bind_ok.mp sampleOutcome_facts
  obtain ⟨waiting, rows⟩ := Prod.mk.inj (Except.ok.inj rest)
  have once := (delivered_once started .U "log" (hex [4]) sampleDelivery (sampleNet T) rfl).1
  exact ⟨T, started, rows, List.length_eq_zero_iff.mp waiting, once⟩

end ExactlyOnce
