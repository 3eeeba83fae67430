import Custody.ExactlyOnce
import Custody.Retention

/-!
# The backlog of evidence

The user's agent admits a request only if all that the request may have to report
still fits in its outbox. There are two policies on how much that is, one by the
length of the outbox and one by the number of requests that are kept. An admitted
request is then never short of room, whatever happens to the third party, to the
request or to the agent.
-/

namespace Backlog

open PyValue HexBytes CanonicalJson CanonicalForm Commitments Statements Delivery Retention

inductive Policy where
  | bounded
  | unbounded
  deriving DecidableEq

/-- What the agent reads of its configuration. -/
structure Config where
  queueCapacity : Nat := 256
  maxRequests : Nat := 10000
  policy : Policy := .bounded
  policyExpiresAt : Int
  lab : Bool := false

/-- What a request writes while it runs. -/
inductive Write where
  | record (value : Value)
  | version (value : Value)
  | enqueue (item : Item)

/-- Where `_request` stands after its admission: what it writes next, and whether the answer
of the relay is in. An exception ends all but the last write. -/
structure Progress where
  sub : String
  todo : List Write
  answered : Bool := false
  failed : Bool := false

/-- `kv` has the rows `request:` and `private-version:`; the outbox and the rows `receipt:` are
the sender's. -/
structure Agent where
  config : Config
  kv : AList fun _ : String => Value := ∅
  net : Net
  progress : Option Progress := none

/-- What `_request` is called with, what it draws and signs before its first write. -/
structure Asked where
  retired : Bool := false
  prompt : Value
  mode : Value
  scenario : String := "normal"
  now : Int
  sub : String
  contract : SignedStatement
  private_ : Value
  record : Value

/-- What `_request` makes of an answer. -/
structure Reply where
  observation : SignedStatement
  private_ : Value
  record : Value

inductive Event where
  /-- A flush, the third party, the network; what the sender enqueues comes from the request. -/
  | net (ev : Delivery.Event)
  | request (q : Asked)
  | write (failure : Option PyErr)
  | respond (reply : Reply)
  /-- An exception or a cancellation, at any point. -/
  | interrupt
  | finish (record : Value) (failure : Option PyErr)
  /-- The process ends and starts again, perhaps with the other policy. -/
  | restart (policy : Policy)
  /-- The policy is changed between two requests. -/
  | choose (policy : Policy)
  /-- `refresh` and the expiry of content write to rows that are there. -/
  | rewrite (key : String) (value : Value)
  /-- The expiry of content deletes rows that are no requests. -/
  | forget (key : String)

def requestKey (sub : String) : String := requestHead ++ sub

namespace Agent

/-- `Store.count("request:")`. -/
def records (A : Agent) : Nat := (A.kv.keys.filter (like requestHead)).length

def pending (A : Agent) : Nat := A.net.sender.outbox.length

/-- The capacity that `_enqueue` passes on. -/
def capacity (A : Agent) : Nat :=
  match A.config.policy with
  | .bounded => A.config.queueCapacity
  | .unbounded => A.config.maxRequests * 4

variable (K : Primitives)

/-- `str.isspace` of one character. -/
def isSpace (c : Char) : Bool :=
  let n := c.toNat
  (9 ≤ n && n ≤ 13) || (28 ≤ n && n ≤ 32) || n = 133 || n = 160 || n = 5760 ||
    (8192 ≤ n && n ≤ 8202) || n = 8232 || n = 8233 || n = 8239 || n = 8287 || n = 12288

def validPrompt : Value → Bool
  | .str s => s.toList.any (fun c => !isSpace c) && decide (s.length ≤ Execution.maxPrompt)
  | _ => false

def requestModes : List Value := [.str "observe", .str "protect", .str "strict"]

/-- The checks of `_request` before it writes anything. -/
def admission (A : Agent) (q : Asked) : Py Unit :=
  if q.retired then
    throw (.valueError "이전 배포 세대가 폐기되었습니다. 승인된 새 설정으로 전환하세요.")
  else if !validPrompt q.prompt then throw (.valueError "1~16,000자의 요청을 입력하세요.")
  else if !memberOf q.mode requestModes then throw (.valueError "unknown enforcement mode")
  else if q.scenario ≠ "normal" ∧ A.config.lab = false then
    throw (.valueError "연결 모드에서는 공격을 주입할 수 없습니다.")
  else if q.now ≥ A.config.policyExpiresAt then
    throw (.valueError "정책과 신뢰 설정이 만료되었습니다. 새 설정을 등록하세요.")
  else if A.records ≥ A.config.maxRequests then
    throw (.valueError ("요청 보관 한도에 도달했습니다. " ++
      "감사 자료 보관 후 새 배포 세대로 전환하세요."))
  else if A.config.policy = .bounded ∧ (A.pending : Int) > (A.config.queueCapacity : Int) - 5 then
    throw (.runtimeError ("증거 보관 한도에 도달했습니다 (정책 bounded). " ++
      "T 연결을 복구하거나 정책을 unbounded 로 바꾸세요."))
  else .ok ()

/-- The writes before the relay is called. -/
def opening (q : Asked) : List Write :=
  [.record q.record, .enqueue (.statement q.contract), .version q.private_,
    .enqueue (.private_ (.str q.sub) q.private_)]

/-- The writes once the answer is in. -/
def closing (sub : String) (reply : Reply) : List Write :=
  [.version reply.private_, .record reply.record, .enqueue (.statement reply.observation),
    .enqueue (.private_ (.str sub) reply.private_)]

/-- `Store.put`. -/
def put (A : Agent) (key : String) (value : Value) (failure : Option PyErr) : Py Agent := do
  let _ ← canonicalJson value
  match failure with
  | some e => throw e
  | none => pure { A with kv := A.kv.insert key (canon value) }

/-- `_enqueue`. -/
def enqueue (A : Agent) (item : Item) (failure : Option PyErr) : Py Agent := do
  let sender ← A.net.sender.enqueue K item A.capacity failure
  pure { A with net := { A.net with sender, enqueued := A.net.enqueued ++ [item] } }

def perform (A : Agent) (sub : String) (failure : Option PyErr) : Write → Py Agent
  | .record value => A.put (requestKey sub) value failure
  | .version value => do A.put (versionHead ++ (← contentHash K value)) value failure
  | .enqueue item => A.enqueue K item failure

/-- The next write. One that raises leaves the store alone and ends the request. -/
def write (A : Agent) (failure : Option PyErr) : Agent :=
  match A.progress with
  | some p => match p.todo with
    | next :: rest => match A.perform K p.sub failure next with
      | .ok after => { after with progress := some { p with todo := rest } }
      | .error _ => { A with progress := some { p with todo := [], failed := true } }
    | [] => A
  | none => A

def respond (A : Agent) (reply : Reply) : Agent :=
  match A.progress with
  | some p =>
    if p.todo.isEmpty && !p.answered && !p.failed then
      { A with progress := some { p with todo := closing p.sub reply, answered := true } }
    else A
  | none => A

def interrupt (A : Agent) : Agent :=
  { A with progress := A.progress.map fun p => { p with todo := [], failed := true } }

/-- The last write, of which the caller hears. -/
def finish (A : Agent) (record : Value) (failure : Option PyErr) : Agent :=
  match A.progress with
  | some p =>
    if p.todo.isEmpty && (p.answered || p.failed) then
      match A.put (requestKey p.sub) record failure with
      | .ok after => { after with progress := none }
      | .error _ => { A with progress := none }
    else A
  | none => A

/-- A record of a request that the process did not survive. -/
def interrupted : Value → Value
  | .dict d =>
    if (getOr d "state").eq (.str "pending") then
      .dict (insert (insert (insert d (.str "state") (.str "interrupted")) (.str "response") .null)
        (.str "error") (.str ("Agent 종료로 중단되었습니다. " ++
          "원격 실행 결과는 불명이며 자동 재실행하지 않습니다.")))
    else .dict d
  | v => v

/-- The loop of `__init__` over the stored requests. -/
def recover (kv : AList fun _ : String => Value) : AList fun _ : String => Value :=
  (kv.keys.filter (like requestHead)).foldl
    (fun kv key => kv.insert key (canon (interrupted ((kv.lookup key).getD .null)))) kv

def step (A : Agent) : Event → Agent
  | .net (.enqueue _ _ _) => A
  | .net ev => { A with net := A.net.step K ev }
  | .request q => match A.progress, A.admission q with
    | none, .ok () => { A with progress := some { sub := q.sub, todo := opening q } }
    | _, _ => A
  | .write failure => A.write K failure
  | .respond reply => A.respond reply
  | .interrupt => A.interrupt
  | .finish record failure => A.finish record failure
  | .restart policy =>
    { A with config := { A.config with policy }, kv := recover A.kv,
             net := A.net.step K .stop, progress := none }
  | .choose policy => match A.progress with
    | none => { A with config := { A.config with policy } }
    | some _ => A
  | .rewrite key value =>
    if key ∈ A.kv then { A with kv := A.kv.insert key (canon value) } else A
  | .forget key => if like requestHead key then A else { A with kv := A.kv.erase key }

def run (A : Agent) (events : List Event) : Agent := events.foldl (step K) A

end Agent

/-- An agent on an empty store. -/
def start (config : Config) (third : Journal.Keeper) (sender : Sender) : Agent :=
  { config, net := { sender := { sender with outbox := [], phase := .idle }, third } }

/-- The pattern counts the rows of requests. -/
theorem like_requestKey (sub : String) : like requestHead (requestKey sub) = true := by
  rw [like, List.isPrefixOf_iff_prefix, requestKey, String.toList_append, List.map_append]
  exact List.prefix_append _ _

/-- It counts no version of a private input. -/
theorem like_version (rest : String) : like requestHead (versionHead ++ rest) = false := by
  rw [like, String.toList_append]
  rfl

/-- The number of requests among the rows. -/
def countOf (kv : AList fun _ : String => Value) : Nat := (kv.keys.filter (like requestHead)).length

variable {kv : AList fun _ : String => Value} {key : String}

theorem count_insert_present (present : key ∈ kv) (value : Value) :
    countOf (kv.insert key value) = countOf kv := by
  rw [countOf, countOf, AList.keys_insert]
  have same : (key :: kv.keys.erase key).Perm kv.keys :=
    (List.perm_cons_erase (AList.mem_keys.mp present)).symm
  exact (same.filter _).length_eq

/-- A new row counts if it is one of a request. -/
theorem count_insert_absent (absent : key ∉ kv) (value : Value) :
    countOf (kv.insert key value) = countOf kv + if like requestHead key then 1 else 0 := by
  rw [countOf, countOf, AList.keys_insert, List.erase_of_not_mem fun h =>
    absent (AList.mem_keys.mpr h), List.filter_cons]
  split <;> simp

/-- Inserting loses no record. -/
theorem count_insert_le (kv : AList fun _ : String => Value) (key : String) (value : Value) :
    countOf kv ≤ countOf (kv.insert key value) := by
  by_cases present : key ∈ kv
  · rw [count_insert_present present]
  · rw [count_insert_absent present]
    exact Nat.le_add_right _ _

theorem count_insert_other (other : like requestHead key = false) (value : Value) :
    countOf (kv.insert key value) = countOf kv := by
  by_cases present : key ∈ kv
  · exact count_insert_present present value
  · rw [count_insert_absent present, other]
    rfl

theorem count_erase_other (other : like requestHead key = false) :
    countOf (kv.erase key) = countOf kv := by
  have kept : key ∉ kv.keys.filter (like requestHead) := by simp [other]
  rw [countOf, countOf, AList.keys_erase, ← List.erase_filter, List.erase_of_not_mem kept]

/-- Recovery writes only rows that are there. -/
theorem recover_rows (keys : List String) (kv : AList fun _ : String => Value)
    (present : ∀ key ∈ keys, key ∈ kv) (value : AList (fun _ : String => Value) → String → Value) :
    countOf (keys.foldl (fun kv key => kv.insert key (value kv key)) kv) = countOf kv := by
  induction keys generalizing kv with
  | nil => rfl
  | cons key rest ih =>
    have still : ∀ k ∈ rest, k ∈ kv.insert key (value kv key) := fun k inside =>
      (AList.mem_insert _).mpr (.inr (present k (List.mem_cons_of_mem _ inside)))
    rw [List.foldl_cons, ih _ still, count_insert_present (present key List.mem_cons_self)]

theorem records_count (A : Agent) : A.records = countOf A.kv := rfl

def Write.isEnqueue : Write → Bool
  | .enqueue _ => true
  | _ => false

/-- How many items a request may still put in the outbox. -/
def owed (p : Progress) : Nat :=
  p.todo.countP Write.isEnqueue + if p.answered || p.failed then 0 else 2

/-- Nothing of the request is written yet, not even its record. -/
structure Begun (A : Agent) (p : Progress) : Prop where
  first : ∃ value rest, p.todo = .record value :: rest
  fresh : requestKey p.sub ∉ A.kv
  room : A.records < A.config.maxRequests
  before : A.pending ≤ 4 * A.records
  most : owed p ≤ 4

/-- The record of the request is counted, unless the request ended before it was written. -/
structure Under (A : Agent) (p : Progress) : Prop where
  within : A.pending + owed p ≤ 4 * A.records
  kept : p.todo = [] ∧ p.failed = true ∨
    requestKey p.sub ∈ A.kv ∧ A.records ≤ A.config.maxRequests

/-- What holds while a request runs. -/
structure Running (A : Agent) (p : Progress) : Prop where
  counted : Begun A p ∨ Under A p
  bounded : A.config.policy = .bounded → A.pending + owed p + 1 ≤ A.config.queueCapacity
  ended : p.failed = true → p.todo = []

def Inv (A : Agent) : Prop :=
  match A.progress with
  | none => A.pending ≤ 4 * A.records
  | some p => Running A p

variable {K : Primitives} {A : Agent} {p : Progress}

/-- While a request is being written, four items are reserved for each record. -/
theorem Running.pending_le (running : Running A p) : A.pending ≤ 4 * A.records := by
  rcases running.counted with begun | under
  · exact begun.before
  · exact (Nat.le_add_right _ _).trans under.within

theorem Inv.pending_le (inv : Inv A) : A.pending ≤ 4 * A.records := by
  rw [Inv] at inv
  split at inv
  · exact inv
  · exact inv.pending_le

/-- A request that goes on has its record counted, once the first write is done. -/
theorem Running.under (running : Running A p)
    (later : ∀ value rest, p.todo ≠ .record value :: rest) : Under A p := by
  rcases running.counted with begun | under
  · obtain ⟨value, rest, first⟩ := begun.first
    exact absurd first (later value rest)
  · exact under

/-- Only what is in the outbox, the rows that are counted and the limits matter. -/
theorem Running.moved {A' : Agent} (running : Running A p) (config : A'.config = A.config)
    (fewer : A'.pending ≤ A.pending) (records : A'.records = A.records)
    (rows : requestKey p.sub ∈ A'.kv ↔ requestKey p.sub ∈ A.kv) : Running A' p := by
  refine ⟨?_, fun policy => ?_, running.ended⟩
  · rcases running.counted with begun | under
    · refine .inl ⟨begun.first, fun present => begun.fresh (rows.mp present), ?_, ?_, begun.most⟩
      · rw [records, config]
        exact begun.room
      · rw [records]
        exact fewer.trans begun.before
    · refine .inr ⟨?_, ?_⟩
      · rw [records]
        exact (Nat.add_le_add_right fewer _).trans under.within
      · rw [rows, records, config]
        exact under.kept
  · rw [config] at policy ⊢
    exact (Nat.add_le_add_right (Nat.add_le_add_right fewer _) _).trans (running.bounded policy)

/-- The invariant only asks for the numbers, so any change that keeps them keeps it. -/
theorem Inv.moved {A' : Agent} (inv : Inv A) (progress : A'.progress = A.progress)
    (config : A'.config = A.config) (fewer : A'.pending ≤ A.pending)
    (records : A'.records = A.records)
    (rows : ∀ sub, requestKey sub ∈ A'.kv ↔ requestKey sub ∈ A.kv) : Inv A' := by
  rw [Inv] at inv ⊢
  rw [progress]
  split
  · rename_i idle
    rw [idle] at inv
    rw [records]
    exact fewer.trans inv
  · rename_i p running
    rw [running] at inv
    exact Running.moved inv config fewer records (rows p.sub)

/-- A request that ends early owes nothing more. -/
theorem Running.interrupted (running : Running A p) :
    Running A { p with todo := [], failed := true } := by
  have none_ : owed { p with todo := [], failed := true } = 0 := by simp [owed]
  refine ⟨.inr ⟨?_, .inl ⟨rfl, rfl⟩⟩, fun policy => ?_, fun _ => rfl⟩
  · rw [none_]
    exact running.pending_le
  · rw [none_]
    have := running.bounded policy
    omega

theorem opening_owed (q : Asked) : owed { sub := q.sub, todo := Agent.opening q } = 4 := rfl

/-- An admitted request owes four items, which admission has left room for. -/
theorem inv_request {q : Asked} (inv : Inv A) (idle : A.progress = none)
    (fresh : requestKey q.sub ∉ A.kv) (passed : A.admission q = .ok ()) :
    Inv { A with progress := some { sub := q.sub, todo := Agent.opening q } } := by
  rw [Inv, idle] at inv
  have limits : A.records < A.config.maxRequests ∧ ¬ (A.config.policy = .bounded ∧
      (A.pending : Int) > (A.config.queueCapacity : Int) - 5) := by
    rw [Agent.admission] at passed
    split at passed; · cases passed
    split at passed; · cases passed
    split at passed; · cases passed
    split at passed; · cases passed
    split at passed; · cases passed
    split at passed; · cases passed
    rename_i few
    split at passed; · cases passed
    rename_i room
    exact ⟨Nat.lt_of_not_le few, room⟩
  obtain ⟨few, room⟩ := limits
  refine ⟨.inl ⟨⟨_, _, rfl⟩, fresh, few, inv, (opening_owed q).le⟩, fun policy => ?_,
    fun failed => nomatch failed⟩
  rw [opening_owed]
  have short : ¬ (A.pending : Int) > (A.config.queueCapacity : Int) - 5 :=
    fun full => room ⟨policy, full⟩
  have same : Agent.pending { A with
    progress := some { sub := q.sub, todo := Agent.opening q } } = A.pending := rfl
  rw [same]
  show A.pending + 4 + 1 ≤ A.config.queueCapacity
  omega

/-- A write that returned has written its key. -/
theorem put_ok {key : String} {value : Value} {failure : Option PyErr} {after : Agent}
    (done : A.put key value failure = .ok after) :
    after = { A with kv := A.kv.insert key (canon value) } := by
  obtain ⟨bytes, -, done⟩ := bind_ok.mp done
  cases failure with
  | some e => cases done
  | none => exact (Except.ok.inj done).symm

/-- The record of a request is written. -/
theorem running_record {value : Value} {rest : List Write} (running : Running A p)
    (next : p.todo = .record value :: rest) (row : Value) :
    Running { A with kv := A.kv.insert (requestKey p.sub) row } { p with todo := rest } := by
  have open_ : p.failed = false := by
    cases failed : p.failed with
    | false => rfl
    | true => rw [running.ended failed] at next; cases next
  have same : owed { p with todo := rest } = owed p := by
    rw [owed, owed, next, List.countP_cons]
    rfl
  have there : requestKey p.sub ∈ A.kv.insert (requestKey p.sub) row :=
    (AList.mem_insert _).mpr (.inl rfl)
  refine ⟨.inr ⟨?_, .inr ⟨there, ?_⟩⟩, fun policy => ?_, fun failed => ?_⟩
  · rw [same]
    show A.pending + owed p ≤ 4 * countOf (A.kv.insert (requestKey p.sub) row)
    rcases running.counted with begun | under
    · rw [count_insert_absent begun.fresh, like_requestKey, if_pos rfl]
      have before := begun.before
      have most := begun.most
      rw [records_count] at before
      omega
    · exact under.within.trans (Nat.mul_le_mul_left 4 (count_insert_le _ _ _))
  · show countOf (A.kv.insert (requestKey p.sub) row) ≤ A.config.maxRequests
    rcases running.counted with begun | under
    · rw [count_insert_absent begun.fresh, like_requestKey, if_pos rfl]
      exact begun.room
    · rcases under.kept with ⟨empty, -⟩ | ⟨present, few⟩
      · rw [next] at empty
        cases empty
      · rw [count_insert_present present]
        exact few
  · rw [same]
    exact running.bounded policy
  · rw [open_] at failed
    cases failed

/-- A private version is written. -/
theorem running_version {value : Value} {rest : List Write} (running : Running A p)
    (next : p.todo = .version value :: rest) (hash : String) (row : Value) :
    Running { A with kv := A.kv.insert (versionHead ++ hash) row } { p with todo := rest } := by
  have under := running.under fun v r same => by rw [next] at same; cases same
  have same : owed { p with todo := rest } = owed p := by
    rw [owed, owed, next, List.countP_cons]
    rfl
  have counted : countOf (A.kv.insert (versionHead ++ hash) row) = A.records :=
    count_insert_other (like_version hash) row
  refine ⟨.inr ⟨?_, ?_⟩, fun policy => ?_, fun failed => ?_⟩
  · rw [same]
    show A.pending + owed p ≤ 4 * countOf (A.kv.insert (versionHead ++ hash) row)
    rw [counted]
    exact under.within
  · rcases under.kept with ⟨empty, -⟩ | ⟨present, few⟩
    · rw [next] at empty
      cases empty
    · refine .inr ⟨(AList.mem_insert _).mpr (.inr present), ?_⟩
      show countOf (A.kv.insert (versionHead ++ hash) row) ≤ A.config.maxRequests
      rw [counted]
      exact few
  · rw [same]
    exact running.bounded policy
  · have empty := running.ended failed
    rw [next] at empty
    cases empty

/-- One item more at most waits. -/
theorem enqueue_pending {item : Item} {failure : Option PyErr} {after : Agent}
    (done : A.enqueue K item failure = .ok after) :
    after.config = A.config ∧ after.kv = A.kv ∧ after.pending ≤ A.pending + 1 := by
  obtain ⟨sender, enqueued, done⟩ := bind_ok.mp done
  obtain rfl := Except.ok.inj done
  refine ⟨rfl, rfl, ?_⟩
  obtain ⟨b, -, ⟨rfl, -⟩ | ⟨-, rfl⟩⟩ := ExactlyOnce.enqueue_ok enqueued
  · exact Nat.le_succ _
  · simp [Agent.pending]

/-- An item is enqueued. -/
theorem running_enqueue {item : Item} {rest : List Write} (running : Running A p)
    (next : p.todo = .enqueue item :: rest) {after : Agent} (config : after.config = A.config)
    (rows : after.kv = A.kv) (more : after.pending ≤ A.pending + 1) :
    Running after { p with todo := rest } := by
  have under := running.under fun v r same => by rw [next] at same; cases same
  have paid : owed p = owed { p with todo := rest } + 1 := by
    rw [owed, owed, next, List.countP_cons]
    simp only [Write.isEnqueue, if_true]
    omega
  have within := under.within
  have records : after.records = A.records := by rw [records_count, records_count, rows]
  refine ⟨.inr ⟨?_, ?_⟩, fun policy => ?_, fun failed => ?_⟩
  · rw [records]
    omega
  · rw [records, config, rows]
    rcases under.kept with ⟨empty, -⟩ | kept
    · rw [next] at empty
      cases empty
    · exact .inr kept
  · rw [config] at policy ⊢
    have := running.bounded policy
    omega
  · have empty := running.ended failed
    rw [next] at empty
    cases empty

/-- Each write of a request keeps what it owes within what is reserved. -/
theorem running_perform {next : Write} {rest : List Write} (running : Running A p)
    (todo : p.todo = next :: rest) {failure : Option PyErr} {after : Agent}
    (done : A.perform K p.sub failure next = .ok after) :
    Running after { p with todo := rest } := by
  cases next with
  | record value =>
    obtain rfl := put_ok done
    exact running_record running todo _
  | version value =>
    obtain ⟨hash, -, done⟩ := bind_ok.mp done
    obtain rfl := put_ok done
    exact running_version running todo hash _
  | enqueue item =>
    obtain ⟨config, rows, more⟩ := enqueue_pending done
    exact running_enqueue running todo config rows more

theorem inv_some (progress : A.progress = some p) : Inv A ↔ Running A p := by
  rw [Inv, progress]

/-- Performing or interrupting the next write keeps the invariant. -/
theorem inv_write (inv : Inv A) (failure : Option PyErr) : Inv (A.write K failure) := by
  cases progress : A.progress with
  | none => simpa only [Agent.write, progress] using inv
  | some p =>
    have running := (inv_some progress).mp inv
    cases todo : p.todo with
    | nil => simpa only [Agent.write, progress, todo] using inv
    | cons next rest =>
      cases done : A.perform K p.sub failure next with
      | error e =>
        simp only [Agent.write, progress, todo, done]
        exact running.interrupted.moved rfl le_rfl rfl Iff.rfl
      | ok after =>
        simp only [Agent.write, progress, todo, done]
        exact (running_perform running todo done).moved rfl le_rfl rfl Iff.rfl

theorem inv_respond (inv : Inv A) (reply : Reply) : Inv (A.respond reply) := by
  cases progress : A.progress with
  | none => simpa only [Agent.respond, progress] using inv
  | some p =>
    have running := (inv_some progress).mp inv
    by_cases waits : (p.todo.isEmpty && !p.answered && !p.failed) = true
    · simp only [Agent.respond, progress, waits, if_true]
      simp only [Bool.and_eq_true, Bool.not_eq_true', List.isEmpty_iff] at waits
      obtain ⟨⟨empty, quiet⟩, open_⟩ := waits
      have same : owed { p with todo := Agent.closing p.sub reply, answered := true } = owed p := by
        simp only [owed, empty, quiet, open_]
        rfl
      have under := running.under fun v r first => by rw [empty] at first; cases first
      have kept : requestKey p.sub ∈ A.kv ∧ A.records ≤ A.config.maxRequests := by
        rcases under.kept with ⟨-, failed⟩ | kept
        · rw [open_] at failed
          cases failed
        · exact kept
      refine ⟨.inr ⟨?_, .inr kept⟩, fun policy => ?_, fun failed => ?_⟩
      · rw [same]
        exact under.within
      · rw [same]
        exact running.bounded policy
      · have failed : p.failed = true := failed
        rw [open_] at failed
        cases failed
    · simp only [Agent.respond, progress, waits]
      exact inv

theorem inv_interrupt (inv : Inv A) : Inv A.interrupt := by
  cases progress : A.progress with
  | none =>
    have same : A.interrupt = A := by
      rw [Agent.interrupt, progress]
      cases A
      cases progress
      rfl
    rw [same]
    exact inv
  | some p =>
    have running := (inv_some progress).mp inv
    simp only [Agent.interrupt, progress, Option.map_some]
    exact running.interrupted.moved rfl le_rfl rfl Iff.rfl

theorem inv_finish (inv : Inv A) (record : Value) (failure : Option PyErr) :
    Inv (A.finish record failure) := by
  have bound := inv.pending_le
  cases progress : A.progress with
  | none => simpa only [Agent.finish, progress] using inv
  | some p =>
    by_cases last : (p.todo.isEmpty && (p.answered || p.failed)) = true
    · cases done : A.put (requestKey p.sub) record failure with
      | error e =>
        simp only [Agent.finish, progress, last, if_true, done]
        exact bound
      | ok after =>
        simp only [Agent.finish, progress, last, if_true, done]
        obtain rfl := put_ok done
        exact bound.trans (Nat.mul_le_mul_left 4 (count_insert_le _ _ _))
    · simp only [Agent.finish, progress, last]
      exact inv

theorem net_pending (N : Net) (ev : Delivery.Event)
    (other : ∀ item capacity failure, ev ≠ .enqueue item capacity failure) :
    (N.step K ev).sender.outbox.length ≤ N.sender.outbox.length := by
  rcases ExactlyOnce.step_outbox N ev with same | ⟨item, capacity, failure, is⟩ | ⟨_, _, -, -, left⟩
  · rw [same]
  · exact absurd is (other item capacity failure)
  · rw [left]
    exact List.length_filter_le _ _

/-- Delivery only takes items from the outbox. -/
theorem inv_net (inv : Inv A) (ev : Delivery.Event)
    (other : ∀ item capacity failure, ev ≠ .enqueue item capacity failure) :
    Inv { A with net := A.net.step K ev } :=
  inv.moved rfl rfl (net_pending A.net ev other) rfl fun _ => Iff.rfl

/-- No request is drawn under an identifier that is stored already. -/
def Draws (A : Agent) : Event → Prop
  | .request q => requestKey q.sub ∉ A.kv
  | _ => True

/-- Recovery changes no number. -/
theorem recover_count (kv : AList fun _ : String => Value) :
    countOf (Agent.recover kv) = countOf kv := by
  refine recover_rows _ kv (fun key inside => ?_)
    fun kv key => canon (Agent.interrupted ((kv.lookup key).getD .null))
  exact AList.mem_keys.mpr (List.mem_filter.mp inside).1

/-- One event keeps the invariant. -/
theorem inv_step (inv : Inv A) {ev : Event} (draws : Draws A ev) : Inv (A.step K ev) := by
  cases ev with
  | net ev =>
    cases ev with
    | enqueue item capacity failure => exact inv
    | flush => exact inv_net inv .flush (by simp)
    | call => exact inv_net inv .call (by simp)
    | receive result failure => exact inv_net inv (.receive result failure) (by simp)
    | ack failure => exact inv_net inv (.ack failure) (by simp)
    | stop => exact inv_net inv .stop (by simp)
    | process request how => exact inv_net inv (.process request how) (by simp)
    | third ev => exact inv_net inv (.third ev) (by simp)
  | request q =>
    cases progress : A.progress with
    | some p => simpa only [Agent.step, progress] using inv
    | none =>
      cases passed : A.admission q with
      | error e => simpa only [Agent.step, progress, passed] using inv
      | ok _ =>
        simp only [Agent.step, progress, passed]
        exact inv_request inv progress draws passed
  | write failure => exact inv_write inv failure
  | respond reply => exact inv_respond inv reply
  | interrupt => exact inv_interrupt inv
  | finish record failure => exact inv_finish inv record failure
  | restart policy =>
    have bound := inv.pending_le
    show A.pending ≤ 4 * countOf (Agent.recover A.kv)
    rw [recover_count]
    exact bound
  | choose policy =>
    cases progress : A.progress with
    | some p => simpa only [Agent.step, progress] using inv
    | none =>
      have bound := inv.pending_le
      simp only [Agent.step, progress, Inv]
      exact bound
  | rewrite key value =>
    by_cases present : key ∈ A.kv
    · simp only [Agent.step, present, if_true]
      refine inv.moved rfl rfl le_rfl (count_insert_present present _) fun sub => ?_
      rw [AList.mem_insert, or_iff_right_of_imp]
      rintro rfl
      exact present
    · simpa only [Agent.step, present, if_false] using inv
  | forget key =>
    cases request : like requestHead key with
    | true => simpa only [Agent.step, request, if_true] using inv
    | false =>
      simp only [Agent.step, request, Bool.false_eq_true, if_false]
      refine inv.moved rfl rfl le_rfl (count_erase_other request) fun sub => ?_
      rw [AList.mem_erase, and_iff_right]
      rintro rfl
      rw [like_requestKey] at request
      cases request

/-- The identifiers that are drawn are new. -/
def Fresh (K : Primitives) : Agent → List Event → Prop
  | _, [] => True
  | A, ev :: rest => Draws A ev ∧ Fresh K (A.step K ev) rest

/-- A run whose requests draw fresh names keeps the invariant. -/
theorem inv_run (inv : Inv A) {events : List Event} (fresh : Fresh K A events) :
    Inv (A.run K events) := by
  induction events generalizing A with
  | nil => exact inv
  | cons ev rest ih => exact ih (inv_step inv fresh.1) fresh.2

theorem inv_start (config : Config) (third : Journal.Keeper) (sender : Sender) :
    Inv (start config third sender) := by
  rw [Inv, start]
  exact Nat.zero_le _

/-- With the invariant there is room for the next item. -/
theorem room (inv : Inv A) (progress : A.progress = some p) {item : Item} {rest : List Write}
    (next : p.todo = .enqueue item :: rest) : A.pending < A.capacity := by
  have running := (inv_some progress).mp inv
  have under := running.under fun v r same => by rw [next] at same; cases same
  have due : 1 ≤ owed p := by
    rw [owed, next, List.countP_cons]
    simp only [Write.isEnqueue, if_true]
    omega
  have within := under.within
  cases policy : A.config.policy with
  | bounded =>
    rw [Agent.capacity, policy]
    have := running.bounded policy
    show A.pending < A.config.queueCapacity
    omega
  | unbounded =>
    rw [Agent.capacity, policy]
    rcases under.kept with ⟨empty, -⟩ | ⟨-, few⟩
    · rw [next] at empty
      cases empty
    · show A.pending < A.config.maxRequests * 4
      omega

/-- With room, what is enqueued does not depend on the capacity. -/
theorem enqueue_room (U : Sender) (item : Item) {capacity : Nat} (failure : Option PyErr)
    (room : U.outbox.length < capacity) :
    U.enqueue K item capacity failure = U.enqueue K item (U.outbox.length + 1) failure := by
  have first : ¬ U.outbox.length ≥ capacity := Nat.not_le.mpr room
  have second : ¬ U.outbox.length ≥ U.outbox.length + 1 := by omega
  simp only [Sender.enqueue, first, second]

/-- Performing a write loses no waiting item. -/
theorem write_keeps (A : Agent) (failure : Option PyErr) {row : Pending}
    (waits : row ∈ A.net.sender.outbox) : row ∈ (A.write K failure).net.sender.outbox := by
  cases progress : A.progress with
  | none => simpa only [Agent.write, progress] using waits
  | some p =>
    cases todo : p.todo with
    | nil => simpa only [Agent.write, progress, todo] using waits
    | cons next rest =>
      cases done : A.perform K p.sub failure next with
      | error e => simpa only [Agent.write, progress, todo, done] using waits
      | ok after =>
        simp only [Agent.write, progress, todo, done]
        cases next with
        | record value =>
          obtain rfl := put_ok done
          exact waits
        | version value =>
          obtain ⟨hash, -, done⟩ := bind_ok.mp done
          obtain rfl := put_ok done
          exact waits
        | enqueue item =>
          obtain ⟨sender, enqueued, done⟩ := bind_ok.mp done
          obtain rfl := Except.ok.inj done
          obtain ⟨b, -, ⟨rfl, -⟩ | ⟨-, rfl⟩⟩ := ExactlyOnce.enqueue_ok enqueued
          · exact waits
          · exact List.mem_append_left _ waits

theorem finish_net (A : Agent) (record : Value) (failure : Option PyErr) :
    (A.finish record failure).net = A.net := by
  cases progress : A.progress with
  | none => simp only [Agent.finish, progress]
  | some p =>
    simp only [Agent.finish, progress]
    split
    · cases done : A.put (requestKey p.sub) record failure with
      | error e => rfl
      | ok after =>
        obtain rfl := put_ok done
        rfl
    · rfl

theorem respond_net (A : Agent) (reply : Reply) : (A.respond reply).net = A.net := by
  cases progress : A.progress with
  | none => simp only [Agent.respond, progress]
  | some p =>
    simp only [Agent.respond, progress]
    split <;> rfl

/-- A row leaves the outbox only by an acknowledgement. -/
theorem step_keeps (A : Agent) (ev : Event) {row : Pending} (waits : row ∈ A.net.sender.outbox)
    (gone : row ∉ (A.step K ev).net.sender.outbox) : ∃ current rest, ev = .net (.ack none) ∧
      A.net.sender.phase = .confirmed current rest ∧ row.ident = current.ident := by
  have same : (A.step K ev).net = A.net → False := fun h => gone (h ▸ waits)
  cases ev with
  | net ev =>
    have stepped : (∃ item capacity failure, ev = .enqueue item capacity failure) ∨
        (A.step K (.net ev)).net = A.net.step K ev := by
      cases ev with
      | enqueue item capacity failure => exact .inl ⟨item, capacity, failure, rfl⟩
      | _ => exact .inr rfl
    rcases stepped with ⟨item, capacity, failure, rfl⟩ | stepped
    · exact absurd rfl same
    · rw [stepped] at gone
      rcases ExactlyOnce.step_outbox A.net ev with kept | ⟨item, capacity, failure, rfl⟩ |
        ⟨current, rest, rfl, at_, left⟩
      · rw [kept] at gone
        exact absurd waits gone
      · exact absurd rfl same
      · refine ⟨current, rest, rfl, at_, ?_⟩
        rw [left] at gone
        by_contra other
        exact gone (List.mem_filter.mpr ⟨waits, by simpa using other⟩)
  | request q =>
    refine (same ?_).elim
    simp only [Agent.step]
    split <;> rfl
  | write failure => exact absurd (write_keeps A failure waits) gone
  | respond reply => exact (same (respond_net A reply)).elim
  | interrupt => exact (same rfl).elim
  | finish record failure => exact (same (finish_net A record failure)).elim
  | restart policy => exact absurd waits gone
  | choose policy =>
    refine (same ?_).elim
    simp only [Agent.step]
    split <;> rfl
  | rewrite key value =>
    refine (same ?_).elim
    simp only [Agent.step]
    split <;> rfl
  | forget key =>
    refine (same ?_).elim
    simp only [Agent.step]
    split <;> rfl

/-- Whatever happens to the requests, to the third party and to the agent: the outbox holds at
most four items for each stored request; an admitted request finds room for each of its items;
and an item leaves the outbox only when it is acknowledged. -/
theorem backlog_admitted (config : Config) (third : Journal.Keeper) (sender : Sender)
    (events : List Event) (fresh : Fresh K (start config third sender) events) :
    let A := (start config third sender).run K events
    A.pending ≤ 4 * A.records ∧
    (∀ p item rest, A.progress = some p → p.todo = .enqueue item :: rest →
      A.pending < A.capacity ∧ ∀ failure, A.net.sender.enqueue K item A.capacity failure =
        A.net.sender.enqueue K item (A.pending + 1) failure) ∧
    ∀ ev, ∀ row ∈ A.net.sender.outbox, row ∉ (A.step K ev).net.sender.outbox →
      ∃ current rest, ev = .net (.ack none) ∧ A.net.sender.phase = .confirmed current rest ∧
        row.ident = current.ident := by
  intro A
  have inv : Inv A := inv_run (inv_start config third sender) fresh
  refine ⟨inv.pending_le, fun p item rest progress next => ?_, fun ev row waits gone =>
    step_keeps A ev waits gone⟩
  have enough := room inv progress next
  exact ⟨enough, fun failure => enqueue_room A.net.sender item failure enough⟩

/-- A request up to the call of the relay. -/
def sampleEvents : List Event :=
  [.request { prompt := .str "hello", mode := .str "protect", now := 0, sub := "urn:itx:req:1",
              contract := Journal.sampleContract, private_ := .dict (fields [("salt", .str "aa")]),
              record := .dict (fields [("state", .str "pending")]) },
    .write none, .write none, .write none, .write none]

def sampleStart (T : Journal.Keeper) : Agent :=
  start { policyExpiresAt := 10 } T { role := .U, logId := "log", tsPublicKey := hex [4] }

/-- What waits, and the requests that are stored. -/
def sampleBacklog : Py (Nat × Nat) := do
  let T ← Journal.Keeper.start toy Auditing.sampleConfig [4] none
  let A := (sampleStart T).run toy sampleEvents
  pure (A.pending, A.records)

theorem sampleBacklog_facts : sampleBacklog = .ok (2, 1) := by
  decide +kernel

theorem backlog_admitted_sample : ∃ T,
    Journal.Keeper.start toy Auditing.sampleConfig [4] none = .ok T ∧
    ((sampleStart T).run toy sampleEvents).pending = 2 ∧
    ((sampleStart T).run toy sampleEvents).pending ≤
      4 * ((sampleStart T).run toy sampleEvents).records := by
  obtain ⟨T, started, rest⟩ := bind_ok.mp sampleBacklog_facts
  obtain ⟨pending, -⟩ := Prod.mk.inj (Except.ok.inj rest)
  have fresh : Fresh toy (sampleStart T) sampleEvents :=
    ⟨by simp [Draws, sampleStart, start], trivial, trivial, trivial, trivial, trivial⟩
  have bound := (backlog_admitted { policyExpiresAt := 10 } T _ sampleEvents fresh).1
  exact ⟨T, started, pending, bound⟩

end Backlog
