import Custody.Auditing
import Custody.HeldMeaning

/-!
# The checkpoint witness

The witness signs one receipt after another for the checkpoints that T shows it,
each after a consistency proof from the one before. Only pairs are checked, so
that no two receipts are of a fork is an induction over the receipts. The hash
with which a proof starts is taken as it comes, of whatever length.
-/

namespace Witness

open PyValue HexBytes CanonicalJson CanonicalForm Commitments Statements Engine Merkle
  MerkleProofs TransparencyLog Identity Auditing

variable (K : Primitives)

structure WitnessService where
  config : Config
  key : KeyPair

/-- One call, with what T, the clock and the store answer during it. -/
structure Request where
  payload : Value
  low : Int
  high : Int
  /-- T's answer to `consistency`. -/
  reply : Py Value
  observed : Int
  written : Py Unit

inductive Answer where
  /-- The checkpoint is the last one witnessed; its receipt is returned again. -/
  | known (receipt : Value)
  | issued (receipt : Value)

/-- What is handed to the consistency check. -/
structure Asked where
  first : Nat
  second : Nat
  firstRoot : Bytes
  secondRoot : Bytes
  proof : List Bytes

def sizeField (head : Value) : Py Nat := do
  pure ((number (← head.item "tree_size")).getD 0).toNat

def asked (before head : Value) (reply : Py Value) : Py Asked := do
  let proof ← (← reply).item "proof"
  let first ← sizeField before
  let second ← sizeField head
  let firstRoot ← fromHexValue (← before.item "root_hash")
  let secondRoot ← fromHexValue (← head.item "root_hash")
  let hashes ← (← proof.iterate).mapM fromHexValue
  pure { first, second, firstRoot, secondRoot, proof := hashes }

def Asked.accepted (a : Asked) : Bool :=
  verifyConsistency K a.first a.second a.firstRoot a.secondRoot a.proof

def headOf (receipt : Value) : Py Value := do (← receipt.item "body").item "head"

/-- The checks against the last receipt; whether the checkpoint is the same. -/
def against (old head : Value) (reply : Py Value) : Py Bool := do
  let before ← headOf old
  let size ← head.item "tree_size"
  let size' ← before.item "tree_size"
  if ← less false size size' then throw (.valueError "checkpoint rollback")
  else if size.eq size' then
    let root ← head.item "root_hash"
    let root' ← before.item "root_hash"
    if root.eq root' then pure true
    else throw (.valueError "T presented conflicting roots for one tree size")
  else
    let a ← asked before head reply
    if a.accepted K then pure false
    else throw (.valueError "T history conflicts with the witnessed checkpoint")

/-- `old["body"]["sequence"] + 1`. -/
def nextSequence : Option Value → Py Int
  | none => .ok 1
  | some old => do
    match number (← (← old.item "body").item "sequence") with
    | some n => pure (n + 1)
    | none => throw .typeError

def previousHash : Option Value → Py Value
  | none => .ok .null
  | some old => do pure (.str (← fingerprint K old))

def receiptBody (W : WitnessService) (trust : Trust) (head : Value) (observed sequence : Int)
    (previous : Value) : Dict :=
  fields [("profile", .str "itx-witness-receipt/1"), ("kid", .str W.key.kid), ("head", head),
    ("policy_hash", .str trust.policyHash), ("observed_at", .int observed),
    ("sequence", .int sequence), ("previous_receipt_hash", previous)]

def issue (W : WitnessService) (trust : Trust) (head : Value) (old : Option Value) (r : Request) :
    Py Answer := do
  let sequence ← nextSequence old
  if (W.config.maxLogEntries : Int) < sequence then
    throw (.valueError "witness ledger capacity reached")
  else
    let previous ← previousHash K old
    let body := receiptBody W trust head r.observed sequence previous
    let message ← canonicalJson (.dict body)
    let receipt := .dict (fields [("body", .dict body),
      ("signature", .str (hex (W.key.sign K message)))])
    let _ ← canonicalJson receipt
    r.written
    pure (.issued receipt)

/-- `now_ms() - 300000 <= head["time"] <= now_ms() + 5000`. -/
def timely (r : Request) (time : Value) : Py Bool := do
  if ← less true (.int (r.low - 300000)) time then less true time (.int (r.high + 5000))
  else pure false

/-- `handle(actor, "witness", payload)`, where `latest` is what the store has under that key. -/
def witness (W : WitnessService) (latest : Option Value) (r : Request) : Py Answer := do
  let trust ← trustFromConfig K W.config
  let head ← r.payload.item "head"
  verifyHead K trust head
  if !(← timely r (← head.item "time")) then throw (.valueError "stale or future checkpoint")
  else match latest.filter Value.truthy with
    | none => issue K W trust head none r
    | some old => do
      if ← against K old head r.reply then pure (.known old)
      else issue K W trust head (some old) r

/-- What the store keeps across restarts, and the receipts issued so far. -/
structure State where
  latest : Option Value := none
  issued : List Value := []

/-- Both rows are written in one transaction; `latest` is read back as canonical JSON. -/
def step (W : WitnessService) (s : State) (r : Request) : State :=
  match witness K W s.latest r with
  | .ok (.issued receipt) => { latest := some (canon receipt), issued := s.issued ++ [receipt] }
  | _ => s

def run (W : WitnessService) : State → List Request → State := List.foldl (step K W)

/-- What the witness would have checked against its last receipt. -/
def askedIn (latest : Option Value) (r : Request) : Py Asked := do
  match latest with
  | none => throw .keyError
  | some old => asked (← headOf old) (← r.payload.item "head") r.reply

/-- An accepted proof starts with a hash of 32 bytes. -/
def Seeded (latest : Option Value) (r : Request) : Prop :=
  ∀ a, askedIn latest r = .ok a → a.accepted K = true → SeedSized a.first a.firstRoot a.proof

def EachSeeded (W : WitnessService) : State → List Request → Prop
  | _, [] => True
  | s, r :: rs => Seeded K s.latest r ∧ EachSeeded W (step K W s r) rs

/-- The bytes that are hashed for the proof of a call. -/
def callInputs (latest : Option Value) (r : Request) : List Bytes :=
  match askedIn latest r with
  | .ok a => proofInputs K a.first a.second a.firstRoot a.proof
  | .error _ => []

def runInputs (W : WitnessService) : State → List Request → List Bytes
  | _, [] => []
  | s, r :: rs => callInputs K s.latest r ++ runInputs W (step K W s r) rs

def SizeIs (receipt : Value) (n : Nat) : Prop :=
  ∃ head, headOf receipt = .ok head ∧ head.item "tree_size" = .ok (.int n)

def RootIs (receipt : Value) (root : Bytes) : Prop :=
  ∃ head v, headOf receipt = .ok head ∧ head.item "root_hash" = .ok v ∧ fromHexValue v = .ok root

/-- A receipt for the root of a list has receipts for roots of its prefixes before it. -/
def NoFork (issued : List Value) (inputs : List Bytes) : Prop :=
  ∀ a ∈ issued, ∀ b ∈ issued, ∀ (m n : Nat) (xs : List Bytes), SizeIs a m → SizeIs b n → m ≤ n →
    xs.length = n → (∀ x ∈ xs, Sized x) → RootIs b (mth K xs) →
    RootIs a (mth K (xs.take m)) ∨ Collision K (inputs ++ prefixesInputs K xs)

/-- The receipt says its number and the hash of the one before it. -/
def Follows (before : Option Value) (receipt : Value) (sequence : Nat) : Prop :=
  ∃ body, receipt.item "body" = .ok body ∧ body.item "sequence" = .ok (.int sequence) ∧
    ∃ previous, body.item "previous_receipt_hash" = .ok previous ∧
      previousHash K before = .ok previous

/-- The receipts are numbered 1, 2, 3, … and each names the one before it. -/
def Sequenced (issued : List Value) : Prop :=
  ∀ front receipt back, issued = front ++ receipt :: back →
    Follows K front.getLast? receipt (front.length + 1)

variable {K}

theorem headOf_canon {receipt head : Value} (read : headOf receipt = .ok head) :
    headOf (canon receipt) = .ok (canon head) := by
  obtain ⟨body, given, inner⟩ := bind_ok.mp read
  rw [headOf, item_canon given, ok_bind]
  exact item_canon inner

theorem fromHexValue_canon (v : Value) : fromHexValue (canon v) = fromHexValue v := by
  cases v <;> simp [canon, fromHexValue]

theorem sizeField_of {head : Value} {n : Nat} (size : head.item "tree_size" = .ok (.int n)) :
    sizeField head = .ok n := by
  rw [sizeField, size]
  rfl

theorem previousHash_canon {receipt previous : Value}
    (hashed : previousHash K (some (canon receipt)) = .ok previous)
    (written : Returns (canonicalJson receipt)) :
    previousHash K (some receipt) = .ok previous := by
  obtain ⟨b, text⟩ := written
  rw [previousHash, fingerprint, contentHash, canonicalJson_canon text] at hashed
  rw [previousHash, fingerprint, contentHash, text]
  exact hashed

/-- Two receipts in a row, with an accepted proof between their heads. -/
structure Linked (K : Primitives) (inputs : List Bytes) (a b : Value) (m n : Nat) (ra rb : Bytes)
    (proof : List Bytes) : Prop where
  size : SizeIs a m
  size' : SizeIs b n
  grows : m < n
  root : RootIs a ra
  root' : RootIs b rb
  accepted : verifyConsistency K m n ra rb proof = true
  seeded : SeedSized m ra proof
  hashed : ∀ x ∈ proofInputs K m n ra proof, x ∈ inputs

def Link (K : Primitives) (inputs : List Bytes) (a b : Value) : Prop :=
  ∃ m n ra rb proof, Linked K inputs a b m n ra rb proof

/-- A receipt as it is issued. -/
structure Drawn (K : Primitives) (W : WitnessService) (old : Option Value) (r : Request)
    (receipt head : Value) (n : Nat) : Prop where
  shown : r.payload.item "head" = .ok head
  read : headOf receipt = .ok head
  size : head.item "tree_size" = .ok (.int n)
  positive : 0 < n
  written : Returns (canonicalJson receipt)
  truthy : receipt.truthy = true
  against : ∀ o, old = some o → against K o head r.reply = .ok false
  follows : ∃ sequence, nextSequence old = .ok sequence ∧ ∃ body, receipt.item "body" = .ok body ∧
    body.item "sequence" = .ok (.int sequence) ∧ ∃ previous,
      body.item "previous_receipt_hash" = .ok previous ∧ previousHash K old = .ok previous

theorem issue_drawn {W : WitnessService} {trust : Trust} {head receipt : Value}
    {old : Option Value} {r : Request} (made : issue K W trust head old r = .ok (.issued receipt)) :
    headOf receipt = .ok head ∧ Returns (canonicalJson receipt) ∧ receipt.truthy = true ∧
    ∃ sequence, nextSequence old = .ok sequence ∧ ∃ body, receipt.item "body" = .ok body ∧
      body.item "sequence" = .ok (.int sequence) ∧ ∃ previous,
        body.item "previous_receipt_hash" = .ok previous ∧ previousHash K old = .ok previous := by
  obtain ⟨sequence, numbered, made⟩ := bind_ok.mp made
  split at made
  next => cases made
  next =>
    obtain ⟨previous, hashed, made⟩ := bind_ok.mp made
    obtain ⟨message, -, made⟩ := bind_ok.mp made
    obtain ⟨text, written, made⟩ := bind_ok.mp made
    obtain ⟨u, -, made⟩ := bind_ok.mp made
    obtain rfl := Answer.issued.inj (Except.ok.inj made)
    exact ⟨rfl, ⟨text, written⟩, rfl, sequence, numbered, _, rfl, rfl, previous, rfl, hashed⟩

theorem witness_drawn {W : WitnessService} {latest : Option Value} {r : Request} {receipt : Value}
    (made : witness K W latest r = .ok (.issued receipt)) :
    ∃ head n, Drawn K W (latest.filter Value.truthy) r receipt head n := by
  obtain ⟨trust, -, made⟩ := bind_ok.mp made
  obtain ⟨head, given, made⟩ := bind_ok.mp made
  obtain ⟨u, verified, made⟩ := bind_ok.mp made
  obtain ⟨fieldsOf, n, rfl, known, -⟩ := verifyHead_fields verified
  obtain ⟨time, -, made⟩ := bind_ok.mp made
  obtain ⟨inTime, -, made⟩ := bind_ok.mp made
  have size : (Value.dict fieldsOf).item "tree_size" = .ok (.int n) := by
    have sized := known.size
    rw [getOr] at sized
    rw [Value.item]
    cases found : find fieldsOf (.str "tree_size") with
    | none => simp [found] at sized
    | some v =>
      simp only [found, Option.getD_some] at sized
      rw [sized]
  cases inTime with
  | false => cases made
  | true =>
    simp only [Bool.not_true, Bool.false_eq_true, if_false] at made
    cases old : latest.filter Value.truthy with
    | none =>
      rw [old] at made
      obtain ⟨read, written, truthy, follows⟩ := issue_drawn made
      refine ⟨_, n, given, read, size, known.positive, written, truthy, ?_, follows⟩
      intro o none_
      cases none_
    | some o =>
      rw [old] at made
      obtain ⟨same, compared, made⟩ := bind_ok.mp made
      cases same with
      | true => cases made
      | false =>
        obtain ⟨read, written, truthy, follows⟩ := issue_drawn made
        refine ⟨_, n, given, read, size, known.positive, written, truthy, ?_, follows⟩
        intro o' same
        obtain rfl := Option.some.inj same
        exact compared

/-- A checkpoint that is accepted as a new one is larger, with an accepted proof. -/
theorem against_new {old head before : Value} {reply : Py Value} {m n : Nat}
    (compared : against K old head reply = .ok false) (read : headOf old = .ok before)
    (size : head.item "tree_size" = .ok (.int n)) (size' : before.item "tree_size" = .ok (.int m)) :
    m < n ∧ ∃ a, asked before head reply = .ok a ∧ a.accepted K = true := by
  rw [against, read, ok_bind, size, ok_bind, size', ok_bind,
    HeldMeaning.less_number rfl rfl] at compared
  simp only [Bool.false_eq_true, if_false, ok_bind, decide_eq_true_eq] at compared
  split at compared
  next => cases compared
  next notSmaller =>
    split at compared
    next =>
      obtain ⟨root, -, compared⟩ := bind_ok.mp compared
      obtain ⟨root', -, compared⟩ := bind_ok.mp compared
      split at compared
      next => cases compared
      next => cases compared
    next different =>
      obtain ⟨a, read', compared⟩ := bind_ok.mp compared
      split at compared
      next accepted =>
        refine ⟨?_, a, read', accepted⟩
        have other : (n : Int) ≠ (m : Int) := by
          intro same
          exact different (by simp [Value.eq, Value.scalarEq, same])
        omega
      next => cases compared

/-- What is kept is the last receipt that was issued, and the receipts count on. -/
structure Numbered (K : Primitives) (s : State) : Prop where
  latest : s.latest = s.issued.getLast?.map canon
  sequenced : Sequenced K s.issued
  each : ∀ receipt ∈ s.issued, Returns (canonicalJson receipt) ∧ receipt.truthy = true ∧
    ∃ head n, headOf receipt = .ok head ∧ head.item "tree_size" = .ok (.int (n : Nat)) ∧ 0 < n

/-- Besides, each receipt is linked to the one before it. -/
structure Chain (K : Primitives) (s : State) (inputs : List Bytes) : Prop extends
    Numbered K s where
  linked : ∀ front a b back, s.issued = front ++ a :: b :: back → Link K inputs a b

/-- The last receipt as the next call finds it in the store. -/
theorem Numbered.kept {s : State} {final : Value} (numbered : Numbered K s)
    (last : s.issued.getLast? = some final) :
    s.latest = some (canon final) ∧ s.latest.filter Value.truthy = some (canon final) := by
  have stored : s.latest = some (canon final) := by
    rw [numbered.latest, last]
    rfl
  have truthy := (numbered.each final (List.mem_of_getLast? last)).2.1
  refine ⟨stored, ?_⟩
  rw [stored, Option.filter_some, canon_truthy truthy, if_pos rfl]

theorem Link.mono {inputs inputs' : List Bytes} {a b : Value} (sub : ∀ x ∈ inputs, x ∈ inputs')
    (link : Link K inputs a b) : Link K inputs' a b := by
  obtain ⟨m, n, ra, rb, proof, link⟩ := link
  exact ⟨m, n, ra, rb, proof, { link with hashed := fun x member => sub x (link.hashed x member) }⟩

theorem Chain.mono {s : State} {inputs inputs' : List Bytes} (sub : ∀ x ∈ inputs, x ∈ inputs')
    (chain : Chain K s inputs) : Chain K s inputs' :=
  { chain with linked := fun front a b back split => (chain.linked front a b back split).mono sub }

theorem getLast_split {A : Type} {xs : List A} {a : A} (last : xs.getLast? = some a) :
    ∃ front, xs = front ++ [a] := by
  obtain ⟨some_, rfl⟩ := List.getLast?_eq_some_iff.mp last
  exact ⟨some_, rfl⟩

/-- The link from the last receipt to a new one. -/
theorem link_new {W : WitnessService} {r : Request} {last receipt head before : Value} {n m : Nat}
    (drawn : Drawn K W (some (canon last)) r receipt head n)
    (read : headOf last = .ok before) (size : before.item "tree_size" = .ok (.int m))
    (seeded : Seeded K (some (canon last)) r) :
    Link K (callInputs K (some (canon last)) r) last receipt := by
  have read' := headOf_canon read
  have size' : (canon before).item "tree_size" = .ok (.int m) := by
    rw [item_canon size]
    rfl
  obtain ⟨grows, a, given, accepted⟩ := against_new (drawn.against _ rfl) read' drawn.size size'
  have reads : askedIn (some (canon last)) r = .ok a := by
    rw [askedIn, read', ok_bind, drawn.shown, ok_bind]
    exact given
  have inputs : callInputs K (some (canon last)) r =
      proofInputs K a.first a.second a.firstRoot a.proof := by
    rw [callInputs, reads]
  have seed := seeded a reads accepted
  obtain ⟨answer, -, given⟩ := bind_ok.mp given
  obtain ⟨proof, -, given⟩ := bind_ok.mp given
  rw [sizeField_of size', ok_bind, sizeField_of drawn.size, ok_bind] at given
  obtain ⟨v, root, given⟩ := bind_ok.mp given
  obtain ⟨firstRoot, decoded, given⟩ := bind_ok.mp given
  obtain ⟨w, root', given⟩ := bind_ok.mp given
  obtain ⟨secondRoot, decoded', given⟩ := bind_ok.mp given
  obtain ⟨items, -, given⟩ := bind_ok.mp given
  obtain ⟨hashes, -, given⟩ := bind_ok.mp given
  obtain rfl := Except.ok.inj given
  obtain ⟨v', here, rfl⟩ := item_of_canon root
  rw [fromHexValue_canon] at decoded
  exact ⟨m, n, firstRoot, secondRoot, hashes, ⟨before, read, size⟩, ⟨head, drawn.read, drawn.size⟩,
    grows, ⟨before, v', read, here, decoded⟩, ⟨head, w, drawn.read, root', decoded'⟩, accepted,
      seed,
    fun x member => by rw [inputs]; exact member⟩

theorem sequenced_grow {issued : List Value} {receipt : Value} (sequenced : Sequenced K issued)
    (follows : Follows K issued.getLast? receipt (issued.length + 1)) :
    Sequenced K (issued ++ [receipt]) := by
  intro front x back split
  rcases List.eq_nil_or_concat back with rfl | ⟨back', last, rfl⟩
  · obtain ⟨rfl, same⟩ := List.append_inj' split rfl
    obtain rfl := (List.cons.inj same).1
    exact follows
  · have whole : issued ++ [receipt] = (front ++ x :: back') ++ [last] := by
      rw [split, List.concat_eq_append, List.append_assoc, List.cons_append]
    obtain ⟨before, -⟩ := List.append_inj' whole rfl
    exact sequenced front x back' before

theorem linked_grow {issued : List Value} {receipt : Value} {inputs : List Bytes}
    (linked : ∀ front a b back, issued = front ++ a :: b :: back → Link K inputs a b)
    (new : ∀ last, issued.getLast? = some last → Link K inputs last receipt) :
    ∀ front a b back, issued ++ [receipt] = front ++ a :: b :: back → Link K inputs a b := by
  intro front a b back split
  rcases List.eq_nil_or_concat back with rfl | ⟨back', last, rfl⟩
  · have whole : issued ++ [receipt] = (front ++ [a]) ++ [b] := by
      rw [split, List.append_assoc, List.singleton_append]
    obtain ⟨rfl, same⟩ := List.append_inj' whole rfl
    obtain rfl := (List.cons.inj same).1
    exact new a (List.getLast?_concat)
  · have whole : issued ++ [receipt] = (front ++ a :: b :: back') ++ [last] := by
      rw [split, List.concat_eq_append, List.append_assoc, List.cons_append, List.cons_append]
    obtain ⟨before, -⟩ := List.append_inj' whole rfl
    exact linked front a b back' before

/-- One call keeps the receipts counting, whatever proof it accepts. -/
theorem step_numbered {W : WitnessService} {s : State} {r : Request} (kept : Numbered K s) :
    Numbered K (step K W s r) := by
  rw [step]
  split
  next receipt made =>
    obtain ⟨head, n, drawn⟩ := witness_drawn made
    obtain ⟨sequence, numbered, body, given, number, previous, named, hashed⟩ := drawn.follows
    have each : ∀ x ∈ s.issued ++ [receipt], Returns (canonicalJson x) ∧ x.truthy = true ∧
        ∃ head n, headOf x = .ok head ∧ head.item "tree_size" = .ok (.int (n : Nat)) ∧ 0 < n := by
      intro x member
      rcases List.mem_append.mp member with earlier | here
      · exact kept.each x earlier
      · rw [List.mem_singleton.mp here]
        exact ⟨drawn.written, drawn.truthy, head, n, drawn.read, drawn.size, drawn.positive⟩
    have newest : some (canon receipt) = (s.issued ++ [receipt]).getLast?.map canon := by
      rw [List.getLast?_concat]
      rfl
    refine ⟨newest, sequenced_grow kept.sequenced ?_, each⟩
    cases last : s.issued.getLast? with
    | none =>
      have none_ : s.issued = [] := List.getLast?_eq_none_iff.mp last
      have empty : s.latest.filter Value.truthy = none := by
        rw [kept.latest, last]
        rfl
      rw [empty] at numbered hashed
      obtain rfl := Except.ok.inj numbered
      rw [none_]
      exact ⟨body, given, number, previous, named, hashed⟩
    | some final =>
      obtain ⟨front, split⟩ := getLast_split last
      rw [(kept.kept last).2] at numbered hashed
      obtain ⟨body', given', number', -⟩ := kept.sequenced front final [] split
      have counted : nextSequence (some (canon final)) = .ok ((front.length + 1 : Nat) + 1) := by
        rw [nextSequence, item_canon given', ok_bind, item_canon number']
        rfl
      obtain rfl := Except.ok.inj (counted.symm.trans numbered)
      have length : s.issued.length + 1 = front.length + 1 + 1 := by
        rw [split, List.length_append]
        rfl
      obtain ⟨written, -⟩ := kept.each final (List.mem_of_getLast? last)
      rw [length]
      exact ⟨body, given, number, previous, named, previousHash_canon hashed written⟩
  next => exact kept

/-- One call links the receipt it issues, if its proof starts with a hash. -/
theorem step_chain {W : WitnessService} {s : State} {r : Request} {inputs : List Bytes}
    (chain : Chain K s inputs) (seeded : Seeded K s.latest r) :
    Chain K (step K W s r) (inputs ++ callInputs K s.latest r) := by
  refine ⟨step_numbered chain.toNumbered, ?_⟩
  have old := chain.mono fun x member => List.mem_append_left (callInputs K s.latest r) member
  rw [step]
  split
  next receipt made =>
    obtain ⟨head, n, drawn⟩ := witness_drawn made
    refine linked_grow old.linked fun final last => ?_
    obtain ⟨stored, kept⟩ := chain.kept last
    obtain ⟨-, -, before, m, read, size, -⟩ := chain.each final (List.mem_of_getLast? last)
    rw [kept] at drawn
    rw [stored] at seeded ⊢
    exact (link_new drawn read size seeded).mono fun y member => List.mem_append_right _ member
  next => exact old.linked

/-- A run keeps the receipts counting. -/
theorem run_numbered {W : WitnessService} (rs : List Request) {s : State}
    (numbered : Numbered K s) : Numbered K (run K W s rs) := by
  induction rs generalizing s with
  | nil => exact numbered
  | cons r rs ih => exact ih (step_numbered numbered)

/-- A run keeps the chain. -/
theorem run_chain {W : WitnessService} (rs : List Request) {s : State} {inputs : List Bytes}
    (chain : Chain K s inputs) (seeded : EachSeeded K W s rs) :
    Chain K (run K W s rs) (inputs ++ runInputs K W s rs) := by
  induction rs generalizing s inputs with
  | nil => exact chain.mono fun x member => List.mem_append_left _ member
  | cons r rs ih =>
    have next := ih (step_chain chain seeded.1) seeded.2
    rw [run, List.foldl_cons, ← run, runInputs, ← List.append_assoc]
    exact next

theorem SizeIs.unique {receipt : Value} {m n : Nat} (left : SizeIs receipt m)
    (right : SizeIs receipt n) : m = n := by
  obtain ⟨head, read, size⟩ := left
  obtain ⟨head', read', size'⟩ := right
  obtain rfl := Except.ok.inj (read.symm.trans read')
  have same := Value.int.inj (Except.ok.inj (size.symm.trans size'))
  omega

theorem RootIs.unique {receipt : Value} {ra rb : Bytes} (left : RootIs receipt ra)
    (right : RootIs receipt rb) : ra = rb := by
  obtain ⟨head, v, read, root, decoded⟩ := left
  obtain ⟨head', v', read', root', decoded'⟩ := right
  obtain rfl := Except.ok.inj (read.symm.trans read')
  obtain rfl := Except.ok.inj (root.symm.trans root')
  exact Except.ok.inj (decoded.symm.trans decoded')

/-- One link carries the root of a list back to the root of its prefix. -/
theorem link_back {inputs : List Bytes} {a b : Value} {xs : List Bytes} {n : Nat}
    (link : Link K inputs a b) (positive : ∀ m, SizeIs a m → 0 < m) (size : SizeIs b n)
    (length : xs.length = n) (leaves : ∀ x ∈ xs, Sized x) (root : RootIs b (mth K xs)) :
    ∃ m, SizeIs a m ∧ m < n ∧
      (RootIs a (mth K (xs.take m)) ∨ Collision K (inputs ++ prefixesInputs K xs)) := by
  obtain ⟨m, n', ra, rb, proof, link⟩ := link
  obtain rfl := link.size'.unique size
  obtain rfl := link.root'.unique root
  refine ⟨m, link.size, link.grows, ?_⟩
  have accepted := link.accepted
  rw [← length] at accepted
  have inside : m ≤ xs.length := by
    rw [length]
    exact Nat.le_of_lt link.grows
  rcases consistency_sound (positive m link.size) inside leaves (fun _ => link.seeded) accepted with
    same | clash
  · left
    rw [← same]
    exact link.root
  · right
    refine clash.mono ?_
    intro x member
    rcases List.mem_append.mp member with first | second
    · rw [length] at first
      exact List.mem_append_left _ (link.hashed x first)
    · exact List.mem_append_right _ (treeInputs_prefixes xs x second)

/-- Back from a receipt to any one before it. -/
theorem chain_back {s : State} {inputs : List Bytes} (chain : Chain K s inputs)
    (front : List Value) : ∀ (b : Value) (back : List Value) (n : Nat),
    s.issued = front ++ b :: back → SizeIs b n → ∀ a ∈ front, ∀ m, SizeIs a m → m < n ∧
      ∀ xs : List Bytes, xs.length = n → (∀ x ∈ xs, Sized x) → RootIs b (mth K xs) →
        RootIs a (mth K (xs.take m)) ∨ Collision K (inputs ++ prefixesInputs K xs) := by
  have positive : ∀ x ∈ s.issued, ∀ m, SizeIs x m → 0 < m := by
    intro x member m size
    obtain ⟨-, -, head, k, read, size', positive⟩ := chain.each x member
    rw [size.unique ⟨head, read, size'⟩]
    exact positive
  -- the induction goes from the end of the front backwards, one link at a time
  induction front using List.reverseRecOn with
  | nil => exact fun b back n split size a none_ => by cases none_
  | append_singleton front c ih =>
    intro b back n split size a member m size'
    have split' : s.issued = front ++ c :: b :: back := by
      rw [split, List.append_assoc, List.singleton_append]
    have inside : c ∈ s.issued := by
      rw [split']
      exact List.mem_append_right _ List.mem_cons_self
    have link := chain.linked front c b back split'
    obtain ⟨k, n', ra, rb, proof, facts⟩ := link
    obtain rfl := facts.size'.unique size
    rcases List.mem_append.mp member with earlier | here
    · obtain ⟨smaller, roots⟩ := ih c (b :: back) k split' facts.size a earlier m size'
      refine ⟨Nat.lt_trans smaller facts.grows, ?_⟩
      intro xs length leaves root
      obtain ⟨k', sized, -, result⟩ := link_back (chain.linked front c b back split')
        (positive c inside) size length leaves root
      obtain rfl := facts.size.unique sized
      rcases result with carried | clash
      · have shorter : (xs.take k).length = k := by
          rw [List.length_take, length]
          exact Nat.min_eq_left (Nat.le_of_lt facts.grows)
        rcases roots (xs.take k) shorter (fun x member => leaves x (List.mem_of_mem_take member))
          carried with reached | clash
        · left
          rw [List.take_take, Nat.min_eq_left (Nat.le_of_lt smaller)] at reached
          exact reached
        · right
          refine clash.mono ?_
          intro x member
          rcases List.mem_append.mp member with first | second
          · exact List.mem_append_left _ first
          · exact List.mem_append_right _ (prefixesInputs_take k x second)
      · exact .inr clash
    · obtain rfl := List.mem_singleton.mp here
      obtain rfl := facts.size.unique size'
      refine ⟨facts.grows, ?_⟩
      intro xs length leaves root
      obtain ⟨k', sized, -, result⟩ := link_back (chain.linked front a b back split')
        (positive a inside) size length leaves root
      obtain rfl := facts.size.unique sized
      exact result

theorem noFork_of_chain {s : State} {inputs : List Bytes} (chain : Chain K s inputs) :
    NoFork K s.issued inputs := by
  intro a inA b inB m n xs size size' order length leaves root
  obtain ⟨front, back, split⟩ := List.append_of_mem inB
  rw [split] at inA
  rcases List.mem_append.mp inA with before | rest
  · exact (chain_back chain front b back n split size' a before m size).2 xs length leaves root
  · rcases List.mem_cons.mp rest with rfl | after
    · obtain rfl := size.unique size'
      left
      rw [← length, List.take_length]
      exact root
    · obtain ⟨middle, back', rfl⟩ := List.append_of_mem after
      have split' : s.issued = (front ++ b :: middle) ++ a :: back' := by
        rw [split, List.append_assoc, List.cons_append]
      have smaller := (chain_back chain _ a back' m split' size b
        (List.mem_append_right _ List.mem_cons_self) n size').1
      omega

theorem numbered_start : Numbered K {} := by
  refine ⟨rfl, ?_, ?_⟩
  · intro front receipt back split
    exact absurd (congrArg List.length split) (by simp)
  · intro receipt none_
    cases none_

theorem chain_start : Chain K {} [] := by
  refine ⟨numbered_start, ?_⟩
  intro front a b back split
  exact absurd (congrArg List.length split) (by simp)

/-- The receipts of every run count on. If besides every accepted proof starts with a hash of
32 bytes, no two of them are of a fork. -/
theorem forks_refused (W : WitnessService) (rs : List Request) :
    (EachSeeded K W {} rs → NoFork K (run K W {} rs).issued (runInputs K W {} rs)) ∧
    Sequenced K (run K W {} rs).issued := by
  refine ⟨fun seeded => ?_, (run_numbered rs numbered_start).sequenced⟩
  have chain := run_chain rs (@chain_start K) seeded
  rw [List.nil_append] at chain
  exact noFork_of_chain chain

instance (first : Nat) (firstRoot : Bytes) (proof : List Bytes) :
    Decidable (SeedSized first firstRoot proof) :=
  inferInstanceAs (Decidable (∀ seed ∈ (seeded first firstRoot proof).head?, seed.length = 32))

instance (latest : Option Value) (r : Request) : Decidable (Seeded K latest r) :=
  match given : askedIn latest r with
  | .error e => .isTrue fun a asked => by rw [given] at asked; cases asked
  | .ok a =>
    decidable_of_iff (a.accepted K = true → SeedSized a.first a.firstRoot a.proof)
      ⟨fun sized a' asked accepted => by
        obtain rfl := Except.ok.inj (given.symm.trans asked)
        exact sized accepted, fun sized => sized a given⟩

instance eachSeededDecidable (W : WitnessService) :
    (s : State) → (rs : List Request) → Decidable (EachSeeded K W s rs)
  | _, [] => .isTrue trivial
  | s, r :: rs =>
    have := eachSeededDecidable W (step K W s r) rs
    inferInstanceAs (Decidable (_ ∧ _))

def sampleWitness : WitnessService :=
  { config := sampleConfig, key := { kid := "kid-w", seed := [5] } }

def firstLeaf : Bytes := List.replicate 32 1

def secondLeaf : Bytes := List.replicate 32 2

/-- A checkpoint under T's key. -/
def sampleHead (size : Int) (root : Bytes) : Value :=
  .dict (fields [("log_id", .str "log"), ("tree_size", .int size), ("root_hash", .str (hex root)),
    ("time", .int 0), ("ts_kid", .str "kid-t"), ("signature", .str (hex [4]))])

def sampleRequest (size : Int) (root : Bytes) (proof : List Bytes) : Request :=
  { payload := .dict (fields [("head", sampleHead size root)]), low := 0, high := 0,
    reply := .ok (.dict (fields [("proof", .ofStrings (proof.map hex))])), observed := 0,
    written := .ok () }

/-- The root of the first head runs on into the second leaf, and the proof is the rest of it. -/
def forkRequests : List Request :=
  [sampleRequest 1 (firstLeaf ++ secondLeaf.take 5) [],
   sampleRequest 2 (mth toy [firstLeaf, secondLeaf]) [secondLeaf.drop 5]]

def honestRequests : List Request :=
  [sampleRequest 1 firstLeaf [], sampleRequest 2 (mth toy [firstLeaf, secondLeaf]) [secondLeaf]]

/-- The size and the root of a receipt's head. -/
def shown (receipt : Value) : Py (Int × Bytes) := do
  let head ← headOf receipt
  let root ← fromHexValue (← head.item "root_hash")
  match ← head.item "tree_size" with
  | .int n => pure (n, root)
  | _ => throw .typeError

theorem forkRequests_shown : (run toy sampleWitness {} forkRequests).issued.mapM shown =
    .ok [(1, firstLeaf ++ secondLeaf.take 5), (2, mth toy [firstLeaf, secondLeaf])] := by
  decide +kernel

theorem forkRequests_inputs : runInputs toy sampleWitness {} forkRequests =
    [1 :: (firstLeaf ++ secondLeaf)] := by
  decide +kernel

theorem shown_facts {receipt : Value} {n : Nat} {root : Bytes}
    (seen : shown receipt = .ok ((n : Int), root)) : SizeIs receipt n ∧ RootIs receipt root := by
  obtain ⟨head, read, seen⟩ := bind_ok.mp seen
  obtain ⟨v, given, seen⟩ := bind_ok.mp seen
  obtain ⟨root', decoded, seen⟩ := bind_ok.mp seen
  obtain ⟨size, sized, seen⟩ := bind_ok.mp seen
  cases size with
  | int k =>
    have same := Except.ok.inj seen
    obtain rfl : k = n := congrArg Prod.fst same
    obtain rfl : root' = root := congrArg Prod.snd same
    exact ⟨⟨head, read, sized⟩, head, v, read, given, decoded⟩
  | _ => cases seen

/-- A first root of 37 bytes is accepted as the history of a tree that it is no part of. -/
theorem long_root_forks : ¬ NoFork toy (run toy sampleWitness {} forkRequests).issued
    (runInputs toy sampleWitness {} forkRequests) := by
  intro safe
  have seen := forkRequests_shown
  obtain ⟨a, inA, seenA⟩ := mem_mapM_ok seen List.mem_cons_self
  obtain ⟨b, inB, seenB⟩ := mem_mapM_ok seen (List.mem_cons_of_mem _ List.mem_cons_self)
  obtain ⟨sizeA, rootA⟩ := @shown_facts a 1 _ seenA
  obtain ⟨sizeB, rootB⟩ := @shown_facts b 2 _ seenB
  have leaves : ∀ x ∈ [firstLeaf, secondLeaf], Sized x :=
    show ∀ x ∈ [firstLeaf, secondLeaf], x.length = 32 from by decide
  rcases safe a inA b inB 1 2 [firstLeaf, secondLeaf] sizeA sizeB (by decide) rfl leaves rootB
    with same | ⟨x, inX, y, inY, different, -⟩
  · exact absurd (rootA.unique same) (by decide +kernel)
  · rw [forkRequests_inputs] at inX inY
    have only : ∀ z ∈ [1 :: (firstLeaf ++ secondLeaf)] ++
        prefixesInputs toy [firstLeaf, secondLeaf], z = 1 :: (firstLeaf ++ secondLeaf) := by
      decide +kernel
    exact different ((only x inX).trans (only y inY).symm)

/-- Two honest checkpoints are witnessed one after the other. -/
theorem forks_refused_honest : (run toy sampleWitness {} honestRequests).issued.length = 2 ∧
    NoFork toy (run toy sampleWitness {} honestRequests).issued
      (runInputs toy sampleWitness {} honestRequests) ∧
    Sequenced toy (run toy sampleWitness {} honestRequests).issued :=
  ⟨by decide +kernel, (forks_refused sampleWitness honestRequests).1 (by decide +kernel),
    (forks_refused sampleWitness honestRequests).2⟩

end Witness
