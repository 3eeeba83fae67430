import Custody.AppendOnly
import Custody.ThirdParty

/-!
# Bounded evidence queues

A party of a simulation puts its evidence in a queue and hands it to the third
party from the front, for as long as the third party takes it. What is pushed
out by newer evidence is written down as dropped. Nothing else is ever lost,
sent twice or sent out of turn, whatever the third party does between two
attempts.
-/

namespace QueuedEvidence

open PyValue Commitments Statements Evidence Engine TransparencyLog RegisteredEvidence AppendOnly
  ThirdParty

inductive Payload where
  | statement (stmt : SignedStatement)
  | private_ (ev : PrivateEvidence)

namespace Payload

def kind : Payload → String
  | .statement _ => "statement"
  | .private_ _ => "private"

/-- `getattr(payload, "content_type", None)`. -/
def contentType : Payload → Value
  | .statement stmt => stmt.contentType
  | .private_ _ => .null

end Payload

structure QueueItem where
  sub : String
  payload : Payload
  enqueuedAt : Int

/-- What is written down of an item that is pushed out. -/
def QueueItem.dropRecord (drop : QueueItem) : Value :=
  .dict (fields [("sub", .str drop.sub), ("dropped_kind", .str drop.payload.kind),
    ("enqueued_at", .int drop.enqueuedAt), ("content_type", drop.payload.contentType)])

structure EvidenceQueue where
  owner : String
  capacity : Nat
  items : List QueueItem := []
  dropped : List Value := []
  receipts : List (Value × RegistrationReceipt) := []
  held : List Value := []

/-- What the third party answers when it takes an item. -/
inductive Answer where
  | registered (stmt : SignedStatement) (rc : RegistrationReceipt)
  | delivered

/-- How a `flush` ends: the count it returns or the error it lets through, with what the
third party took on the way. -/
structure Flushed where
  queue : EvidenceQueue
  thirdParty : ThirdParty
  result : Py Nat
  taken : List (QueueItem × Answer) := []

variable (K : Primitives)

namespace EvidenceQueue

/-- The `while` of `enqueue`: the oldest items go first. -/
def saturate (capacity : Nat) : List QueueItem → List Value → List QueueItem × List Value
  | [], dropped => ([], dropped)
  | drop :: rest, dropped =>
    if (drop :: rest).length > capacity then
      saturate capacity rest (dropped ++ [drop.dropRecord])
    else (drop :: rest, dropped)

def enqueue (q : EvidenceQueue) (item : QueueItem) : EvidenceQueue :=
  let (items, dropped) := saturate q.capacity (q.items ++ [item]) q.dropped
  { q with items, dropped }

def heldRecord (owner : String) (item : QueueItem) (stmt : SignedStatement) (hash : String)
    (rc : RegistrationReceipt) : Value :=
  .dict (fields [("receipt", rc.toDict), ("statement_hash", .str hash), ("sub", .str item.sub),
    ("content_type", stmt.contentType), ("holder", .str owner)])

/-- The item at the front, offered to the third party. -/
def offer (T : ThirdParty) (item : QueueItem) (now : Int) : ThirdParty × Py Answer :=
  match item.payload with
  | .statement stmt => ((T.submit K stmt now).1, (T.submit K stmt now).2.map (.registered stmt))
  | .private_ ev =>
    ((T.receivePrivate item.sub ev).1, (T.receivePrivate item.sub ev).2.map fun _ => .delivered)

/-- What the queue keeps of an answer. -/
def keep (q : EvidenceQueue) (item : QueueItem) : Answer → Py EvidenceQueue
  | .registered stmt rc => do
    let hash ← stmt.statementHash K
    pure { q with receipts := insert q.receipts (.str hash) rc,
                  held := q.held ++ [heldRecord q.owner item stmt hash rc] }
  | .delivered => pure q

/-- The `while` of `flush` over what is left of the queue. Before the next attempt the third
party may do anything else: `between n` stands before the attempt after `n` successes. -/
def flushFrom (between : Nat → List Operation) (now : Int) :
    List QueueItem → EvidenceQueue → ThirdParty → Nat → Flushed
  | [], q, T, sent => { queue := q, thirdParty := T, result := .ok sent }
  | item :: rest, q, T, sent =>
    match offer K (run K T (between sent)) item now with
    | (T, .error (.serviceUnavailable _)) => { queue := q, thirdParty := T, result := .ok sent }
    | (T, .error e) => { queue := q, thirdParty := T, result := .error e }
    | (T, .ok answer) =>
      match q.keep K item answer with
      | .error e =>
        { queue := q, thirdParty := T, result := .error e, taken := [(item, answer)] }
      | .ok q =>
        let later := flushFrom between now rest { q with items := rest } T (sent + 1)
        { later with taken := (item, answer) :: later.taken }

def flush (q : EvidenceQueue) (T : ThirdParty) (between : Nat → List Operation) (now : Int) :
    Flushed :=
  flushFrom K between now q.items q T 0

end EvidenceQueue

inductive Event where
  | enqueue (item : QueueItem)
  | flush (between : Nat → List Operation) (now : Int)
  | elsewhere (op : Operation)
  | resize (capacity : Nat)

/-- A queue and the third party, with what was ever enqueued and what was ever taken. -/
structure World where
  queue : EvidenceQueue
  thirdParty : ThirdParty
  enqueued : List QueueItem := []
  taken : List (QueueItem × Answer) := []

namespace World

def step (w : World) : Event → World
  | .enqueue item =>
    { w with queue := w.queue.enqueue item, enqueued := w.enqueued ++ [item] }
  | .flush between now =>
    let flushed := w.queue.flush K w.thirdParty between now
    { w with queue := flushed.queue, thirdParty := flushed.thirdParty,
             taken := w.taken ++ flushed.taken }
  | .elsewhere op => { w with thirdParty := ThirdParty.step K w.thirdParty op }
  | .resize capacity => { w with queue := { w.queue with capacity } }

def run (w : World) (events : List Event) : World := events.foldl (step K) w

def start (owner : String) (capacity : Nat) (T : ThirdParty) : World :=
  { queue := { owner, capacity }, thirdParty := T }

end World

/-- What leaves a queue: taken by the third party or pushed out. -/
inductive Fate where
  | submitted (answer : Answer)
  | dropped

def submission (x : QueueItem × Fate) : Option (QueueItem × Answer) :=
  match x.2 with
  | .submitted answer => some (x.1, answer)
  | .dropped => none

def loss (x : QueueItem × Fate) : Option QueueItem :=
  match x.2 with
  | .submitted _ => none
  | .dropped => some x.1

/-- The answer is about the item. -/
def Answers (x : QueueItem × Answer) : Prop :=
  match x.1.payload, x.2 with
  | .statement stmt, .registered stmt' _ => stmt' = stmt
  | .private_ _, .delivered => True
  | _, _ => False

/-- A registration, with the item it is of. -/
def registration (x : QueueItem × Answer) :
    Option (QueueItem × SignedStatement × RegistrationReceipt) :=
  match x.2 with
  | .registered stmt rc => some (x.1, stmt, rc)
  | .delivered => none

/-- The record that is held of a registration. -/
def Recorded (owner : String) (x : QueueItem × SignedStatement × RegistrationReceipt)
    (record : Value) : Prop :=
  ∃ hash, x.2.1.statementHash K = .ok hash ∧
    record = EvidenceQueue.heldRecord owner x.1 x.2.1 hash x.2.2

/-- Every registration has its record, in order. -/
def Receipted (owner : String) (taken : List (QueueItem × Answer)) (held : List Value) : Prop :=
  List.Forall₂ (Recorded K owner) (taken.filterMap registration) held

/-- Everything that happened to the third party: what it took from the queue, what it
refused and what else was done with it. -/
inductive History (T : ThirdParty) : List (QueueItem × Answer) → ThirdParty → Prop where
  | start : History T [] T
  | elsewhere {taken : List (QueueItem × Answer)} {next : ThirdParty} (op : Operation) :
      History T taken next → History T taken (ThirdParty.step K next op)
  | refused {taken : List (QueueItem × Answer)} {before next : ThirdParty} {item : QueueItem}
      {now : Int} {e : PyErr} :
      History T taken before → EvidenceQueue.offer K before item now = (next, .error e) →
      History T taken next
  | took {taken : List (QueueItem × Answer)} {before next : ThirdParty} {item : QueueItem}
      {now : Int} {answer : Answer} :
      History T taken before → EvidenceQueue.offer K before item now = (next, .ok answer) →
      History T (taken ++ [(item, answer)]) next

variable {K}

theorem History.run {T next : ThirdParty} {taken : List (QueueItem × Answer)}
    (history : History K T taken next) (ops : List Operation) :
    History K T taken (ThirdParty.run K next ops) := by
  induction ops generalizing next with
  | nil => exact history
  | cons op rest ih => exact ih (history.elsewhere op)

/-- What one offer comes to: it is refused, or private evidence is put away, or a statement
is registered. -/
theorem offer_cases {T next : ThirdParty} {item : QueueItem} {now : Int} {result : Py Answer}
    (h : EvidenceQueue.offer K T item now = (next, result)) :
    ((∃ e, result = .error e) ∧ next.log = T.log) ∨
    ((∃ ev, item.payload = .private_ ev) ∧ result = .ok .delivered ∧ next.log = T.log) ∨
    ∃ stmt rc, item.payload = .statement stmt ∧ result = .ok (.registered stmt rc) ∧
      T.log.register K stmt (now + T.totalDelayMs) = .ok (next.log, rc) := by
  obtain ⟨rfl, rfl⟩ := Prod.mk.inj h.symm
  obtain ⟨sub, payload, at_⟩ := item
  cases payload with
  | private_ ev =>
    simp only [ThirdParty.receivePrivate]
    split
    · exact .inl ⟨⟨_, rfl⟩, rfl⟩
    · exact .inr (.inl ⟨⟨ev, rfl⟩, rfl, rfl⟩)
  | statement stmt =>
    simp only [ThirdParty.submit]
    split
    · exact .inl ⟨⟨_, rfl⟩, rfl⟩
    · cases registered : T.log.register K stmt (now + T.totalDelayMs) with
      | error e => exact .inl ⟨⟨e, rfl⟩, rfl⟩
      | ok pair => exact .inr (.inr ⟨stmt, pair.2, rfl, rfl, registered⟩)

/-- What the third party takes is the item it was offered, and a statement it takes has
a hash. -/
theorem offer_taken {T next : ThirdParty} {item : QueueItem} {now : Int} {answer : Answer}
    (h : EvidenceQueue.offer K T item now = (next, .ok answer)) :
    Answers (item, answer) ∧
    ∀ stmt rc, answer = .registered stmt rc → Returns (stmt.statementHash K) := by
  rcases offer_cases h with ⟨⟨_, other⟩, -⟩ | ⟨⟨ev, put⟩, same, -⟩ | ⟨stmt, rc, put, same,
    registered⟩
  · cases other
  · obtain rfl := Except.ok.inj same
    refine ⟨?_, fun _ _ other => nomatch other⟩
    rw [Answers, put]
    trivial
  · obtain rfl := Except.ok.inj same
    refine ⟨?_, ?_⟩
    · rw [Answers, put]
    · rintro stmt' rc' ⟨⟩
      obtain ⟨_, _, -, -, verified⟩ := (accepted_of_check (register_ok registered).1).key
      exact statementHash_returns (toBeSigned_of_verified verified)

namespace EvidenceQueue

/-- What is left after saturation is the end of the queue, and the rest is written down. -/
theorem saturate_spec (capacity : Nat) (items : List QueueItem) (dropped : List Value) :
    ∃ out, items = out ++ (saturate capacity items dropped).1 ∧
      (saturate capacity items dropped).2 = dropped ++ out.map QueueItem.dropRecord ∧
      (saturate capacity items dropped).1.length ≤ capacity := by
  induction items generalizing dropped with
  | nil => exact ⟨[], rfl, (List.append_nil _).symm, Nat.zero_le _⟩
  | cons drop rest ih =>
    by_cases full : (drop :: rest).length > capacity
    · obtain ⟨out, split, written, short⟩ := ih (dropped ++ [drop.dropRecord])
      rw [saturate, if_pos full]
      refine ⟨drop :: out, by rw [List.cons_append, ← split], ?_, short⟩
      rw [written, List.append_assoc]
      rfl
    · rw [saturate, if_neg full]
      exact ⟨[], rfl, (List.append_nil _).symm, Nat.le_of_not_lt full⟩

/-- Keeping an answer appends to what is held and changes nothing else of note. -/
theorem keep_taken (q : EvidenceQueue) (item : QueueItem) {answer : Answer}
    (hashed : ∀ stmt rc, answer = .registered stmt rc → Returns (stmt.statementHash K)) :
    ∃ kept records, q.keep K item answer = .ok kept ∧ kept.owner = q.owner ∧
      kept.dropped = q.dropped ∧ kept.held = q.held ++ records ∧
      Receipted K q.owner [(item, answer)] records := by
  cases answer with
  | delivered => exact ⟨q, [], rfl, rfl, rfl, (List.append_nil _).symm, .nil⟩
  | registered stmt rc =>
    obtain ⟨hash, found⟩ := hashed stmt rc rfl
    refine ⟨{ q with receipts := insert q.receipts (.str hash) rc, held := _ },
      [heldRecord q.owner item stmt hash rc], ?_, rfl, rfl, rfl, .cons ⟨hash, found, rfl⟩ .nil⟩
    rw [keep, found]
    rfl

end EvidenceQueue

theorem Receipted.append {owner : String} {xs ys : List (QueueItem × Answer)}
    {held held' : List Value} (first : Receipted K owner xs held)
    (second : Receipted K owner ys held') : Receipted K owner (xs ++ ys) (held ++ held') := by
  rw [Receipted, List.filterMap_append]
  exact List.rel_append first second

/-- What a `flush` of the items does: it hands over some of them from the front, in order,
and counts them. -/
structure Drained (K : Primitives) (q : EvidenceQueue) (items : List QueueItem) (sent : Nat)
    (flushed : Flushed) : Prop where
  items : items = flushed.taken.map (·.1) ++ flushed.queue.items
  owner : flushed.queue.owner = q.owner
  dropped : flushed.queue.dropped = q.dropped
  counted : ∀ n, flushed.result = .ok n → n = sent + flushed.taken.length
  answers : ∀ x ∈ flushed.taken, Answers x
  held : ∃ records, flushed.queue.held = q.held ++ records ∧
    Receipted K q.owner flushed.taken records

/-- A `flush` that ends before the item at the front. -/
theorem drained_stop {q : EvidenceQueue} (T : ThirdParty) {sent : Nat} {result : Py Nat}
    (counted : ∀ n, result = .ok n → n = sent) :
    Drained K q q.items sent { queue := q, thirdParty := T, result } where
  items := rfl
  owner := rfl
  dropped := rfl
  counted := counted
  answers := fun _ inside => nomatch inside
  held := ⟨[], (List.append_nil _).symm, .nil⟩

theorem flushFrom_stops {between : Nat → List Operation} {now : Int} {item : QueueItem}
    (rest : List QueueItem) (q : EvidenceQueue) {T next : ThirdParty} {sent : Nat} {e : PyErr}
    (refused : EvidenceQueue.offer K (run K T (between sent)) item now = (next, .error e)) :
    ∃ result : Py Nat, (∀ n, result = .ok n → n = sent) ∧
      EvidenceQueue.flushFrom K between now (item :: rest) q T sent =
        { queue := q, thirdParty := next, result } := by
  cases e with
  | serviceUnavailable text =>
    refine ⟨.ok sent, fun n same => (Except.ok.inj same).symm, ?_⟩
    simp only [EvidenceQueue.flushFrom, refused]
  | _ =>
    refine ⟨_, fun n same => ?_, by simp only [EvidenceQueue.flushFrom, refused]; rfl⟩
    cases same

theorem flushFrom_spec {T₀ : ThirdParty} (between : Nat → List Operation) (now : Int)
    (items : List QueueItem) {q : EvidenceQueue} (front : q.items = items) {T : ThirdParty}
    {taken : List (QueueItem × Answer)} (history : History K T₀ taken T) (sent : Nat) :
    Drained K q items sent (EvidenceQueue.flushFrom K between now items q T sent) ∧
    History K T₀ (taken ++ (EvidenceQueue.flushFrom K between now items q T sent).taken)
      (EvidenceQueue.flushFrom K between now items q T sent).thirdParty := by
  induction items generalizing q T taken sent with
  | nil =>
    rw [← front]
    refine ⟨?_, ?_⟩
    · rw [front, EvidenceQueue.flushFrom, ← front]
      exact drained_stop T fun n same => (Except.ok.inj same).symm
    · rw [front, EvidenceQueue.flushFrom, List.append_nil]
      exact history
  | cons item rest ih =>
    have onward := history.run (between sent)
    cases offered : EvidenceQueue.offer K (run K T (between sent)) item now with
    | mk next outcome =>
      cases outcome with
      | error e =>
        have refused := onward.refused offered
        obtain ⟨result, counted, ends⟩ := flushFrom_stops rest q offered
        rw [ends, ← front, List.append_nil]
        exact ⟨drained_stop next counted, refused⟩
      | ok answer =>
        obtain ⟨answers, hashed⟩ := offer_taken offered
        obtain ⟨kept, records, noted, owner, dropped, held, receipted⟩ :=
          EvidenceQueue.keep_taken q item hashed
        have goes : EvidenceQueue.flushFrom K between now (item :: rest) q T sent =
            { EvidenceQueue.flushFrom K between now rest { kept with items := rest } next (sent + 1)
              with taken := (item, answer) :: (EvidenceQueue.flushFrom K between now rest
                { kept with items := rest } next (sent + 1)).taken } := by
          simp only [EvidenceQueue.flushFrom, offered, noted]
        obtain ⟨drained, later⟩ := ih (q := { kept with items := rest }) rfl
          (onward.took offered) (sent + 1)
        rw [goes]
        refine ⟨?_, ?_⟩
        · obtain ⟨more, grown, kept_⟩ := drained.held
          constructor
          · exact congrArg (item :: ·) drained.items
          · exact drained.owner.trans owner
          · exact drained.dropped.trans dropped
          · intro n returned
            rw [drained.counted n returned, List.length_cons]
            omega
          · intro x inside
            rcases List.mem_cons.mp inside with rfl | inside
            · exact answers
            · exact drained.answers x inside
          · refine ⟨records ++ more, ?_, ?_⟩
            · rw [← List.append_assoc, ← held]
              exact grown
            · rw [← owner] at receipted ⊢
              exact receipted.append kept_
        · rw [List.append_assoc, List.singleton_append] at later
          exact later

/-- Everything that was ever enqueued, in order: what left the queue, each item taken or
pushed out, and then what is still in it. -/
structure Accounted (w : World) (gone : List (QueueItem × Fate)) : Prop where
  enqueued : w.enqueued = gone.map (·.1) ++ w.queue.items
  submitted : gone.filterMap submission = w.taken
  dropped : (gone.filterMap loss).map QueueItem.dropRecord = w.queue.dropped

structure Conserved (K : Primitives) (owner : String) (T : ThirdParty) (w : World) : Prop where
  accounted : ∃ gone, Accounted w gone
  owned : w.queue.owner = owner
  answers : ∀ x ∈ w.taken, Answers x
  held : Receipted K owner w.taken w.queue.held
  history : History K T w.taken w.thirdParty

theorem enqueue_accounted {w : World} {gone : List (QueueItem × Fate)} (item : QueueItem)
    (accounted : Accounted w gone) : ∃ gone, Accounted (w.step K (.enqueue item)) gone := by
  obtain ⟨out, split, written, -⟩ :=
    EvidenceQueue.saturate_spec w.queue.capacity (w.queue.items ++ [item]) w.queue.dropped
  refine ⟨gone ++ out.map fun x => (x, .dropped), ?_, ?_, ?_⟩
  · rw [World.step, List.map_append, List.map_map, List.append_assoc]
    simp only [Function.comp_def, List.map_id', accounted.enqueued, List.append_assoc]
    rw [split]
    rfl
  · have none_ : (out.map fun x => (x, Fate.dropped)).filterMap submission = [] := by
      simp [List.filterMap_map, Function.comp_def, submission]
    rw [List.filterMap_append, none_, List.append_nil]
    exact accounted.submitted
  · have all : (out.map fun x => (x, Fate.dropped)).filterMap loss = out := by
      simp [List.filterMap_map, Function.comp_def, loss]
    rw [List.filterMap_append, all, List.map_append, accounted.dropped]
    exact written.symm

theorem flush_accounted {w : World} {gone : List (QueueItem × Fate)} {flushed : Flushed}
    (accounted : Accounted w gone) (drained : Drained K w.queue w.queue.items 0 flushed) :
    Accounted { w with queue := flushed.queue, thirdParty := flushed.thirdParty,
                       taken := w.taken ++ flushed.taken }
      (gone ++ flushed.taken.map fun x => (x.1, .submitted x.2)) := by
  constructor
  · rw [accounted.enqueued, drained.items, List.map_append, List.map_map, List.append_assoc]
    rfl
  · rw [List.filterMap_append, accounted.submitted]
    simp [List.filterMap_map, Function.comp_def, submission]
  · have none_ : (flushed.taken.map fun x => (x.1, Fate.submitted x.2)).filterMap loss = [] := by
      simp [List.filterMap_map, Function.comp_def, loss]
    rw [List.filterMap_append, none_, List.append_nil, drained.dropped]
    exact accounted.dropped

theorem conserved_step {owner : String} {T : ThirdParty} {w : World}
    (conserved : Conserved K owner T w) (event : Event) :
    Conserved K owner T (w.step K event) := by
  obtain ⟨⟨gone, accounted⟩, own, answers, held, history⟩ := conserved
  cases event with
  | enqueue item => exact ⟨enqueue_accounted item accounted, own, answers, held, history⟩
  | elsewhere op =>
    exact ⟨⟨gone, accounted.enqueued, accounted.submitted, accounted.dropped⟩, own, answers, held,
      history.elsewhere op⟩
  | resize capacity =>
    exact ⟨⟨gone, accounted.enqueued, accounted.submitted, accounted.dropped⟩, own, answers, held,
      history⟩
  | flush between now =>
    obtain ⟨drained, onward⟩ := flushFrom_spec between now w.queue.items rfl history 0
    obtain ⟨records, more, receipted⟩ := drained.held
    refine ⟨⟨_, flush_accounted accounted drained⟩, drained.owner.trans own, ?_, ?_, onward⟩
    · intro x inside
      rcases List.mem_append.mp inside with inside | inside
      · exact answers x inside
      · exact drained.answers x inside
    · rw [own] at receipted
      have grown := held.append receipted
      rw [← more] at grown
      exact grown

theorem conserved_run {owner : String} {T : ThirdParty} {w : World}
    (conserved : Conserved K owner T w) (events : List Event) :
    Conserved K owner T (w.run K events) := by
  induction events generalizing w with
  | nil => exact conserved
  | cons event rest ih => exact ih (conserved_step conserved event)

theorem conserved_start (owner : String) (capacity : Nat) (T : ThirdParty) :
    Conserved K owner T (World.start owner capacity T) where
  accounted := ⟨[], rfl, rfl, rfl⟩
  owned := rfl
  answers := fun _ inside => nomatch inside
  held := .nil
  history := .start

theorem register_grows {log next : Log} {stmt : SignedStatement} {at_ : Int}
    {rc : RegistrationReceipt} (registered : log.register K stmt at_ = .ok (next, rc)) :
    ∃ e : LogEntry, next.entries = log.entries ++ [e] ∧ e.statement = stmt :=
  ⟨_, (append_ok (register_ok registered).2).2.1, rfl⟩

theorem submit_grows (T : ThirdParty) (stmt : SignedStatement) (now : Int) :
    T.log.entries <+: (T.submit K stmt now).1.log.entries := by
  simp only [ThirdParty.submit]
  split
  · exact List.prefix_refl _
  · cases registered : T.log.register K stmt (now + T.totalDelayMs) with
    | error e => exact List.prefix_refl _
    | ok pair =>
      obtain ⟨e, grown, -⟩ := register_grows registered
      exact ⟨[e], grown.symm⟩

/-- A verdict that is registered is one more entry. -/
theorem registerVerdict_extends {T next : ThirdParty} {sub : String} {verdict : Verdict}
    {now : Int} {stmt : SignedStatement}
    (h : T.registerVerdict K sub verdict now = .ok (next, stmt)) :
    T.log.entries <+: next.log.entries := by
  simp only [ThirdParty.registerVerdict, bind_ok, pure_ok] at h
  obtain ⟨_, -, ⟨log, rc⟩, registered, same⟩ := h
  obtain ⟨rfl, -⟩ := Prod.mk.inj (Except.ok.inj same)
  obtain ⟨e, grown, -⟩ := register_grows registered
  exact ⟨[e], grown.symm⟩

theorem settle_grows {A : Type} {T : ThirdParty} {x : Py (ThirdParty × A)}
    (grows : ∀ next a, x = .ok (next, a) → T.log.entries <+: next.log.entries) :
    T.log.entries <+: (T.settle x).1.log.entries := by
  cases x with
  | error e => exact List.prefix_refl _
  | ok pair => exact grows _ _ rfl

theorem registerDecisive_extends {T next : ThirdParty} {sub : String} {now : Int}
    {verdict : Verdict} {made : Verdict × Option SignedStatement}
    (h : T.registerDecisive K sub now verdict = .ok (next, made)) :
    T.log.entries <+: next.log.entries := by
  rw [ThirdParty.registerDecisive] at h
  split at h
  · obtain ⟨⟨_, stmt⟩, registered, same⟩ := bind_ok.mp h
    obtain ⟨rfl, -⟩ := Prod.mk.inj (Except.ok.inj same)
    exact registerVerdict_extends registered
  · obtain ⟨rfl, -⟩ := Prod.mk.inj (Except.ok.inj h)
    exact List.prefix_refl _

theorem finalize_grows (T : ThirdParty) (sub : String) (expectedParties : List String)
    (now : Int) : T.log.entries <+: (T.finalize K sub expectedParties now).1.log.entries := by
  refine settle_grows (T := T.asked sub expectedParties) fun next stmt h => ?_
  obtain ⟨verdict, -, registered⟩ := bind_ok.mp h
  exact registerVerdict_extends registered

theorem requestVerdict_grows (T : ThirdParty) (sub : String) (expectedParties : List String)
    (now : Int) :
    T.log.entries <+: (T.requestVerdict K sub expectedParties now).1.log.entries := by
  rw [ThirdParty.requestVerdict]
  by_cases down : T.down = true
  · rw [if_pos down]
  · rw [if_neg down]
    refine settle_grows (T := T.asked sub expectedParties) fun next made h => ?_
    obtain ⟨verdict, -, registered⟩ := bind_ok.mp h
    exact registerDecisive_extends registered

theorem step_grows (T : ThirdParty) (op : Operation) :
    T.log.entries <+: (ThirdParty.step K T op).log.entries := by
  cases op with
  | submit stmt now => exact submit_grows T stmt now
  | receivePrivate sub ev =>
    simp only [ThirdParty.step, ThirdParty.receivePrivate]
    split <;> exact List.prefix_refl _
  | requestVerdict sub expectedParties now => exact requestVerdict_grows T sub expectedParties now
  | finalize sub expectedParties now => exact finalize_grows T sub expectedParties now
  | setDown down => exact List.prefix_refl _

/-- The statements among what was taken. -/
def statements (taken : List (QueueItem × Answer)) : List SignedStatement :=
  (taken.filterMap registration).map (·.2.1)

/-- The log has grown by entries among which the statements stand in their order. -/
def Entered (T next : ThirdParty) (stmts : List SignedStatement) : Prop :=
  ∃ later, next.log.entries = T.log.entries ++ later ∧
    stmts.Sublist (later.map LogEntry.statement)

theorem Entered.grown {T before next : ThirdParty} {stmts : List SignedStatement}
    (entered : Entered T before stmts) (grows : before.log.entries <+: next.log.entries) :
    Entered T next stmts := by
  obtain ⟨later, whole, inside⟩ := entered
  obtain ⟨more, grown⟩ := grows
  refine ⟨later ++ more, by rw [← grown, whole, List.append_assoc], ?_⟩
  rw [List.map_append]
  exact inside.trans (List.sublist_append_left _ _)

/-- An offer that is refused leaves the log alone. -/
theorem offer_refused {T next : ThirdParty} {item : QueueItem} {now : Int} {e : PyErr}
    (h : EvidenceQueue.offer K T item now = (next, .error e)) : next.log = T.log := by
  rcases offer_cases h with ⟨-, unchanged⟩ | ⟨-, other, -⟩ | ⟨_, _, -, other, -⟩
  · exact unchanged
  · cases other
  · cases other

/-- An offer that is taken enters the log if it is a statement, and only then. -/
theorem offer_entered {T next : ThirdParty} {item : QueueItem} {now : Int} {answer : Answer}
    (h : EvidenceQueue.offer K T item now = (next, .ok answer)) :
    ∃ later, next.log.entries = T.log.entries ++ later ∧
      later.map LogEntry.statement = statements [(item, answer)] := by
  rcases offer_cases h with ⟨⟨_, other⟩, -⟩ | ⟨-, same, unchanged⟩ | ⟨stmt, rc, -, same, registered⟩
  · cases other
  · obtain rfl := Except.ok.inj same
    exact ⟨[], by rw [unchanged, List.append_nil], rfl⟩
  · obtain rfl := Except.ok.inj same
    obtain ⟨e, grown, stated⟩ := register_grows registered
    exact ⟨[e], grown, by rw [List.map_singleton, stated]; rfl⟩

theorem history_entered {T next : ThirdParty} {taken : List (QueueItem × Answer)}
    (history : History K T taken next) : Entered T next (statements taken) := by
  induction history with
  | start => exact ⟨[], (List.append_nil _).symm, .slnil⟩
  | elsewhere op _ ih => exact ih.grown (step_grows _ op)
  | refused _ offered ih =>
    obtain ⟨later, whole, inside⟩ := ih
    exact ⟨later, by rw [offer_refused offered, whole], inside⟩
  | took _ offered ih =>
    obtain ⟨later, whole, inside⟩ := ih
    obtain ⟨more, grown, stated⟩ := offer_entered offered
    refine ⟨later ++ more, by rw [grown, whole, List.append_assoc], ?_⟩
    rw [List.map_append, stated, statements, List.filterMap_append, List.map_append]
    exact inside.append (List.Sublist.refl _)

/-- Whatever happens to a queue and to the third party in between: everything enqueued is,
in order, taken, dropped or still there; the third party took the statements in order and
each once, and of each its receipt is held; an `enqueue` leaves at most the capacity; and a
`flush` hands over what it counts, from the front. -/
theorem queue_conserves (owner : String) (capacity : Nat) (T : ThirdParty)
    (events : List Event) :
    let w := (World.start owner capacity T).run K events
    Conserved K owner T w ∧ Entered T w.thirdParty (statements w.taken) ∧
    (∀ item, (w.queue.enqueue item).items.length ≤ w.queue.capacity) ∧
    ∀ between now, Drained K w.queue w.queue.items 0
      (w.queue.flush K w.thirdParty between now) := by
  intro w
  have conserved : Conserved K owner T w := conserved_run (conserved_start owner capacity T) events
  refine ⟨conserved, history_entered conserved.history, fun item => ?_, fun between now => ?_⟩
  · obtain ⟨-, -, -, short⟩ := EvidenceQueue.saturate_spec w.queue.capacity
      (w.queue.items ++ [item]) w.queue.dropped
    exact short
  · exact (flushFrom_spec between now w.queue.items rfl History.start 0).1

end QueuedEvidence
