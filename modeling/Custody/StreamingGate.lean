import Custody.Cbor
import Custody.Commitments
import Custody.HashChain

/-!
# The streaming gate

A verifier fed with the chunks of a response one by one. It keeps a chain of digests
that starts with the request and the nonce, and accepts once the chain, the hash of
the end marker and the signed root are one digest. Whatever it refuses closes it.
-/

namespace StreamingGate

open PyValue HexBytes CanonicalJson CborItems Cbor Commitments HashChain

/-- `_digest_from_hex(value, name)`. -/
def digestFromHex (value : Obj) (name : String) : Py Bytes :=
  match value with
  | .text s =>
    if s.length ≠ 64 then
      throw (.valueError (name ++ " must be a 64-character SHA-256 hex digest"))
    else match fromHex s with
      | none => throw (.valueError (name ++ " must be a SHA-256 hex digest"))
      | some digest =>
        if digest.length ≠ 32 then throw (.valueError (name ++ " must encode exactly 32 bytes"))
        else pure digest
  | _ => throw (.valueError (name ++ " must be a 64-character SHA-256 hex digest"))

structure Gate where
  expectedRoot : Bytes
  chainHash : Bytes
  nextIndex : Nat
  failed : Bool
  finalized : Bool
  deriving DecidableEq

variable (K : Primitives)

/-- What the chain starts with. -/
def start (requestHash nonce : String) : Bytes := utf8 requestHash.toList ++ utf8 nonce.toList

/-- What the hasher is fed with for a chunk. -/
def link (chainHash : Bytes) (index : Nat) (chunk : Bytes) : Bytes :=
  chainHash ++ bigEndian 4 index ++ chunk

/-- `StreamingGate(expected_root_hash, request_hash, nonce)`. -/
def create (expectedRootHash requestHash nonce : Obj) : Py Gate := do
  let expectedRoot ← digestFromHex expectedRootHash "expected_root_hash"
  match requestHash, nonce with
  | .text requestHash, .text nonce =>
    pure ⟨expectedRoot, K.sha256 (start requestHash nonce), 1, false, false⟩
  | _, _ => throw .typeError

def ensureOpen (g : Gate) : Py Unit :=
  if g.failed then throw (.valueError "stream has been aborted")
  else if g.finalized then throw (.valueError "stream has already been finalized")
  else pure ()

/-- What `feed_chunk` checks before it moves on; each error goes through `_abort`. -/
def candidate (g : Gate) (index chunk expectedChunkHash : Obj) : Py Bytes :=
  match index with
  | .int i =>
    if ¬(1 ≤ i ∧ i ≤ 0xFFFFFFFF) then
      throw (.valueError "chunk index must be an integer in [1, 2**32 - 1]")
    else if i ≠ g.nextIndex then
      throw (.valueError ("unexpected chunk index: expected " ++ toString g.nextIndex ++ ", got " ++
        toString i))
    else match chunk with
      | .bytes chunk =>
        let digest := K.sha256 (link g.chainHash i.toNat chunk)
        match expectedChunkHash with
        | .none => pure digest
        | given => do
          let expected ← digestFromHex given "expected_chunk_hash"
          if digest ≠ expected then
            throw (.valueError ("chunk " ++ toString i ++ " chain digest mismatch"))
          else pure digest
      | _ => throw (.valueError "chunk_bytes must be bytes")
  | _ => throw (.valueError "chunk index must be an integer in [1, 2**32 - 1]")

def advance (g : Gate) (digest : Bytes) : Gate :=
  { g with chainHash := digest, nextIndex := g.nextIndex + 1 }

/-- `feed_chunk(index, chunk_bytes, expected_chunk_hash=...)`. -/
def feedChunk (g : Gate) (index chunk expectedChunkHash : Obj) : Gate × Py Bool :=
  match ensureOpen g with
  | .error e => (g, .error e)
  | .ok () => match candidate K g index chunk expectedChunkHash with
    | .error e => ({ g with failed := true }, .error e)
    | .ok digest => (advance g digest, .ok true)

/-- What `finalize` checks; each error goes through `_abort`. -/
def checkFinal (g : Gate) (expectedFinalHash : Obj) : Py Unit := do
  let finalHash ← digestFromHex expectedFinalHash "expected_final_hash"
  if finalHash ≠ g.expectedRoot then
    throw (.valueError "final digest does not match the signed receipt root")
  else if g.chainHash ≠ finalHash then
    throw (.valueError "stream chain digest does not match the final digest")
  else pure ()

/-- `finalize(expected_final_hash)`. -/
def finalize (g : Gate) (expectedFinalHash : Obj) : Gate × Py Bool :=
  match ensureOpen g with
  | .error e => (g, .error e)
  | .ok () => match checkFinal g expectedFinalHash with
    | .error e => ({ g with failed := true }, .error e)
    | .ok () => ({ g with finalized := true }, .ok true)

inductive Call where
  | feedChunk (index chunk expectedChunkHash : Obj)
  | finalize (expectedFinalHash : Obj)

def call (g : Gate) : Call → Gate × Py Bool
  | .feedChunk index chunk expectedChunkHash => feedChunk K g index chunk expectedChunkHash
  | .finalize expectedFinalHash => finalize g expectedFinalHash

/-- The gate after the calls, whether they return or raise. -/
def after (g : Gate) : List Call → Gate
  | [] => g
  | c :: cs => after (call K g c).1 cs

def results (g : Gate) : List Call → List (Py Bool)
  | [] => []
  | c :: cs => (call K g c).2 :: results (call K g c).1 cs

def Closed (g : Gate) : Prop := g.failed = true ∨ g.finalized = true

variable {K}

theorem ensureOpen_ok {g : Gate} : ensureOpen g = .ok () ↔ ¬Closed g := by
  unfold ensureOpen Closed
  cases g.failed with
  | true => simp
  | false =>
    cases g.finalized with
    | true => simp
    | false => simp

theorem ensureOpen_closed {g : Gate} (closed : Closed g) : ∃ e, ensureOpen g = .error e := by
  cases result : ensureOpen g with
  | error e => exact ⟨e, rfl⟩
  | ok _ => exact absurd closed (ensureOpen_ok.mp result)

/-- A closed gate refuses every call and stays as it is. -/
theorem call_closed {g : Gate} (closed : Closed g) (c : Call) :
    ∃ e, call K g c = (g, .error e) := by
  obtain ⟨e, refused⟩ := ensureOpen_closed closed
  cases c with
  | feedChunk index chunk expected => exact ⟨e, by rw [call, feedChunk, refused]⟩
  | finalize expected => exact ⟨e, by rw [call, finalize, refused]⟩

theorem digestFromHex_ok {value : Obj} {name : String} {digest : Bytes}
    (read : digestFromHex value name = .ok digest) :
    ∃ s, value = .text s ∧ s.length = 64 ∧ fromHex s = some digest ∧ digest.length = 32 := by
  cases value with
  | text s =>
    rw [digestFromHex] at read
    split at read
    next => cases read
    next long =>
      cases found : fromHex s with
      | none =>
        rw [found] at read
        cases read
      | some b =>
        rw [found] at read
        simp only at read
        split at read
        next => cases read
        next size =>
          obtain rfl := Except.ok.inj read
          exact ⟨s, rfl, Decidable.not_not.mp long, found, Decidable.not_not.mp size⟩
  | _ => cases read

theorem candidate_ok {g : Gate} {index chunk expected : Obj} {digest : Bytes}
    (moved : candidate K g index chunk expected = .ok digest) :
    ∃ c, index = .int g.nextIndex ∧ chunk = .bytes c ∧
      digest = K.sha256 (link g.chainHash g.nextIndex c) ∧
      (expected = .none ∨ ∃ s, expected = .text s ∧ fromHex s = some digest) := by
  cases index with
  | int i =>
    simp only [candidate] at moved
    split at moved
    next => cases moved
    split at moved
    next => cases moved
    next inRange asNext =>
      have next : i = (g.nextIndex : Int) := Decidable.not_not.mp asNext
      subst next
      cases chunk with
      | bytes c =>
        refine ⟨c, rfl, rfl, ?_⟩
        simp only [Int.toNat_natCast] at moved
        split at moved
        · exact ⟨(Except.ok.inj moved).symm, Or.inl rfl⟩
        · obtain ⟨x, read, moved⟩ := bind_ok.mp moved
          split at moved
          next => cases moved
          next same =>
            have equal : K.sha256 (link g.chainHash g.nextIndex c) = x :=
              Decidable.not_not.mp same
            obtain ⟨s, text, -, hexed, -⟩ := digestFromHex_ok read
            obtain rfl := Except.ok.inj moved
            exact ⟨rfl, Or.inr ⟨s, text, hexed.trans (congrArg some equal.symm)⟩⟩
      | _ => cases moved
  | _ => cases moved

theorem checkFinal_ok {g : Gate} {expected : Obj} (passed : checkFinal g expected = .ok ()) :
    ∃ s, expected = .text s ∧ s.length = 64 ∧ fromHex s = some g.chainHash ∧
      g.expectedRoot = g.chainHash := by
  obtain ⟨digest, read, passed⟩ := bind_ok.mp passed
  obtain ⟨s, text, long, hexed, -⟩ := digestFromHex_ok read
  split at passed
  next => cases passed
  split at passed
  next => cases passed
  next root chain =>
    have ofRoot : digest = g.expectedRoot := Decidable.not_not.mp root
    have ofChain : g.chainHash = digest := Decidable.not_not.mp chain
    exact ⟨s, text, long, hexed.trans (congrArg some ofChain.symm), (ofChain.trans ofRoot).symm⟩

/-- A call is refused and leaves a closed gate, or it is the next chunk, or it is the end. -/
theorem call_cases (g : Gate) (c : Call) :
    (∃ e, (call K g c).2 = .error e ∧ Closed (call K g c).1) ∨
    (∃ chunk expected, ¬Closed g ∧ c = .feedChunk (.int g.nextIndex) (.bytes chunk) expected ∧
      call K g c = (advance g (K.sha256 (link g.chainHash g.nextIndex chunk)), .ok true)) ∨
    (∃ s, ¬Closed g ∧ c = .finalize (.text s) ∧
      call K g c = ({ g with finalized := true }, .ok true) ∧
      fromHex s = some g.chainHash ∧ g.expectedRoot = g.chainHash) := by
  by_cases closed : Closed g
  · obtain ⟨e, refused⟩ := call_closed (K := K) closed c
    exact Or.inl ⟨e, by rw [refused], by rw [refused]; exact closed⟩
  · have opened := ensureOpen_ok.mpr closed
    cases c with
    | feedChunk index chunk expected =>
      rw [call, feedChunk, opened]
      cases moved : candidate K g index chunk expected with
      | error e => exact Or.inl ⟨e, rfl, Or.inl rfl⟩
      | ok digest =>
        obtain ⟨b, rfl, rfl, rfl, -⟩ := candidate_ok moved
        exact Or.inr (Or.inl ⟨b, expected, closed, rfl, rfl⟩)
    | finalize expected =>
      rw [call, finalize, opened]
      cases passed : checkFinal g expected with
      | error e => exact Or.inl ⟨e, rfl, Or.inl rfl⟩
      | ok _ =>
        obtain ⟨s, rfl, -, hexed, root⟩ := checkFinal_ok passed
        exact Or.inr (Or.inr ⟨s, closed, rfl, rfl, hexed, root⟩)

/-- The calls feed exactly these chunks, numbered from `n`. -/
inductive Fed : Nat → List Call → List Bytes → Prop where
  | nil (n : Nat) : Fed n [] []
  | cons (n : Nat) (chunk : Bytes) (expected : Obj) {calls : List Call} {chunks : List Bytes}
      (rest : Fed (n + 1) calls chunks) :
      Fed n (.feedChunk (.int n) (.bytes chunk) expected :: calls) (chunk :: chunks)

/-- A closed gate stays as it is and accepts nothing. -/
theorem run_closed {g : Gate} (closed : Closed g) (calls : List Call) :
    after K g calls = g ∧ ∀ r ∈ results K g calls, ∃ e, r = .error e := by
  induction calls with
  | nil => exact ⟨rfl, fun r inside => nomatch inside⟩
  | cons c calls ih =>
    obtain ⟨e, refused⟩ := call_closed (K := K) closed c
    rw [after, results, refused]
    refine ⟨ih.1, ?_⟩
    intro r inside
    rcases List.mem_cons.mp inside with rfl | inside
    · exact ⟨e, rfl⟩
    · exact ih.2 r inside

/-- What raises closes the gate. -/
theorem closed_of_error {g : Gate} {c : Call} {e : PyErr} (raised : (call K g c).2 = .error e) :
    Closed (call K g c).1 := by
  rcases call_cases (K := K) g c with ⟨-, -, closed⟩ | ⟨_, _, -, -, done⟩ | ⟨_, -, -, done, -⟩
  · exact closed
  · rw [done] at raised
    cases raised
  · rw [done] at raised
    cases raised

/-- A gate that is open after the calls was fed with chunks and has hashed them in order. -/
theorem run_open {g : Gate} {calls : List Call} (opened : ¬Closed (after K g calls)) :
    ∃ chunks, Fed g.nextIndex calls chunks ∧ (∀ r ∈ results K g calls, r = .ok true) ∧
      (after K g calls).chainHash = tip K.sha256 link g.chainHash g.nextIndex chunks ∧
      (after K g calls).expectedRoot = g.expectedRoot := by
  induction calls generalizing g with
  | nil => exact ⟨[], .nil _, fun r inside => (nomatch inside), rfl, rfl⟩
  | cons c calls ih =>
    rw [after] at opened
    have here : ¬Closed (call K g c).1 := by
      intro closed
      rw [(run_closed closed calls).1] at opened
      exact opened closed
    rcases call_cases (K := K) g c with ⟨-, -, closed⟩ | ⟨chunk, expected, -, rfl, done⟩ |
        ⟨-, -, -, done, -⟩
    · exact absurd closed here
    · rw [done] at opened
      obtain ⟨chunks, fed, returned, chain, root⟩ := ih opened
      refine ⟨chunk :: chunks, .cons _ chunk expected fed, ?_, ?_, ?_⟩
      · intro r inside
        rw [results, done] at inside
        rcases List.mem_cons.mp inside with rfl | inside
        · rfl
        · exact returned r inside
      · rw [after, done]
        exact chain
      · rw [after, done]
        exact root
    · rw [done] at here
      exact absurd (Or.inr rfl) here

/-- A gate that finalises was open, and the chain it kept is the root and the given hash. -/
theorem finalize_ok {g : Gate} {final : Obj}
    (accepted : (call K g (.finalize final)).2 = .ok true) :
    ¬Closed g ∧ ∃ s, final = .text s ∧ fromHex s = some g.chainHash ∧
      g.expectedRoot = g.chainHash := by
  rcases call_cases (K := K) g (.finalize final) with ⟨e, raised, -⟩ | ⟨_, _, -, other, -⟩ |
      ⟨s, opened, same, -, hexed, root⟩
  · rw [raised] at accepted
    cases accepted
  · cases other
  · obtain rfl := Call.finalize.inj same
    exact ⟨opened, s, rfl, hexed, root⟩

theorem create_ok {root requestHash nonce : Obj} {g : Gate}
    (created : create K root requestHash nonce = .ok g) : ∃ r q n digest, root = .text r ∧
      requestHash = .text q ∧ nonce = .text n ∧ fromHex r = some digest ∧
      g = ⟨digest, K.sha256 (start q n), 1, false, false⟩ := by
  obtain ⟨digest, read, made⟩ := bind_ok.mp created
  obtain ⟨r, text, -, hexed, -⟩ := digestFromHex_ok read
  clear created
  cases requestHash with
  | text q => cases nonce with
    | text n => exact ⟨r, q, n, digest, text, rfl, rfl, hexed, (Except.ok.inj made).symm⟩
    | _ => cases made
  | _ => cases made

theorem link_injective {d d' : Bytes} {n n' : Nat} {c c' : Bytes} (long : d.length = 32)
    (long' : d'.length = 32) (small : n < 2 ^ 29) (small' : n' < 2 ^ 29)
    (same : link d n c = link d' n' c') : d = d' ∧ n = n' ∧ c = c' := by
  have width : ∀ n, (bigEndian 4 n).length = 4 := bigEndian_length 4
  have fits : ∀ m, m < 2 ^ 29 → m < 256 ^ 4 := by
    intro m small
    omega
  obtain ⟨front, chunks⟩ := List.append_inj same (by
    rw [List.length_append, List.length_append, long, long', width, width])
  obtain ⟨digests, numbers⟩ := List.append_inj front (long.trans long'.symm)
  exact ⟨digests, bigEndian_inj (fits n small) (fits n' small') numbers, chunks⟩

theorem hexDigit_utf8 {c : Char} (digit : (charNibble c).isSome) :
    ∃ b, String.utf8EncodeChar c = [b] ∧ 0x30 ≤ b.toNat := by
  have range : 0x30 ≤ c.val.toNat ∧ c.val.toNat < 0x80 := by
    unfold charNibble at digit
    split at digit
    next low => exact ⟨low.1, Nat.lt_of_le_of_lt low.2 (by decide)⟩
    split at digit
    next low => exact ⟨Nat.le_trans (by decide) low.1, Nat.lt_of_le_of_lt low.2 (by decide)⟩
    split at digit
    next low => exact ⟨Nat.le_trans (by decide) low.1, Nat.lt_of_le_of_lt low.2 (by decide)⟩
    next => cases digit
  refine ⟨c.val.toNat.toUInt8, ?_, ?_⟩
  · rw [String.utf8EncodeChar, if_pos (by omega)]
  · rw [Nat.toUInt8, UInt8.toNat_ofNat']
    omega

/-- Hexadecimal digits are single bytes from 0x30 on. -/
theorem hexDigits_utf8 {cs : List Char} (digits : ∀ c ∈ cs, (charNibble c).isSome) :
    (utf8 cs).length = cs.length ∧ ∀ b ∈ utf8 cs, 0x30 ≤ b.toNat := by
  induction cs with
  | nil => exact ⟨rfl, fun b inside => nomatch inside⟩
  | cons c cs ih =>
    obtain ⟨length, high⟩ := ih fun d later => digits d (List.mem_cons_of_mem _ later)
    obtain ⟨b, single, above⟩ := hexDigit_utf8 (digits c List.mem_cons_self)
    have bytes : utf8 (c :: cs) = b :: utf8 cs := by
      rw [utf8, List.flatMap_cons, single]
      rfl
    rw [bytes]
    refine ⟨by rw [List.length_cons, length, List.length_cons], ?_⟩
    intro x inside
    rcases List.mem_cons.mp inside with rfl | inside
    · exact above
    · exact high x inside

/-- A request hash of 64 hexadecimal digits. -/
structure HexDigest (requestHash : String) : Prop where
  long : requestHash.toList.length = 64
  digits : ∀ c ∈ requestHash.toList, (charNibble c).isSome

/-- The byte after a digest is the high byte of a small number in a link, but a hexadecimal digit
in the start. -/
theorem link_fresh {requestHash nonce : String} (hexed : HexDigest requestHash) {d : Bytes}
    {n : Nat} {c : Bytes} (long : d.length = 32) (small : n < 2 ^ 29) :
    link d n c ≠ start requestHash nonce := by
  intro same
  obtain ⟨length, high⟩ := hexDigits_utf8 hexed.digits
  rw [hexed.long] at length
  have number : bigEndian 4 n = UInt8.ofNat (n / 256 / 256 / 256 % 256) ::
      (bigEndian 4 n).drop 1 := rfl
  have inLink : (link d n c)[32]? = some (UInt8.ofNat (n / 256 / 256 / 256 % 256)) := by
    rw [link, List.append_assoc, List.getElem?_append_right (by omega), long, number]
    rfl
  have inStart : (start requestHash nonce)[32]? = (utf8 requestHash.toList)[32]? := by
    rw [start, List.getElem?_append_left (by omega)]
  rw [same, inStart] at inLink
  have above := high _ (List.mem_of_getElem? inLink)
  rw [UInt8.toNat_ofNat'] at above
  omega

theorem links_separated {requestHash nonce : String} (hexed : HexDigest requestHash) :
    Separated K.sha256 link (fun d => d.length = 32) (start requestHash nonce) (2 ^ 29) :=
  ⟨K.sha256_length, fun long long' small small' same => link_injective long long' small small' same,
    fun long small => link_fresh hexed long small⟩

/-- The chain over these chunks. -/
def chain (K : Primitives) (requestHash nonce : String) (chunks : List Bytes) : Bytes :=
  tip K.sha256 link (K.sha256 (start requestHash nonce)) 1 chunks

/-- What is hashed for these chunks. -/
def preimages (K : Primitives) (requestHash nonce : String) (chunks : List Bytes) : List Bytes :=
  start requestHash nonce ::
    hashed K.sha256 link (K.sha256 (start requestHash nonce)) 1 chunks

/-- What is accepted after some calls was fed in them, in order and with no call refused; its chain
is the root and the given hash. -/
theorem accepted_chain {root requestHash nonce final : Obj} {g : Gate} {calls : List Call}
    (created : create K root requestHash nonce = .ok g)
    (accepted : (call K (after K g calls) (.finalize final)).2 = .ok true) :
    (∀ r ∈ results K g calls, r = .ok true) ∧
    ∃ r q n s chunks, root = .text r ∧ requestHash = .text q ∧ nonce = .text n ∧
      final = .text s ∧ Fed 1 calls chunks ∧ fromHex r = some (chain K q n chunks) ∧
      fromHex s = some (chain K q n chunks) := by
  obtain ⟨r, q, n, digest, rfl, rfl, rfl, hexed, rfl⟩ := create_ok created
  obtain ⟨opened, s, rfl, hash, root⟩ := finalize_ok accepted
  obtain ⟨chunks, fed, returned, kept, same⟩ := run_open opened
  rw [same] at root
  rw [kept] at root hash
  exact ⟨returned, r, q, n, s, chunks, rfl, rfl, rfl, rfl, fed, hexed.trans (congrArg some root),
    hash⟩

theorem Fed.unique {n : Nat} {calls : List Call} {chunks chunks' : List Bytes}
    (fed : Fed n calls chunks) (fed' : Fed n calls chunks') : chunks = chunks' := by
  induction fed generalizing chunks' with
  | nil n =>
    cases fed'
    rfl
  | cons n chunk expected rest ih =>
    cases fed' with
    | cons _ _ _ rest' => rw [ih rest']

/-- Two lists of chunks with one chain are one list, unless the hash collides. -/
theorem chain_unique {q n : String} (hexed : HexDigest q) {chunks chunks' : List Bytes}
    (few : chunks.length < 2 ^ 29) (few' : chunks'.length < 2 ^ 29)
    (same : chain K q n chunks = chain K q n chunks') :
    chunks = chunks' ∨ Collision K (preimages K q n chunks ++ preimages K q n chunks') := by
  rcases tip_unique (links_separated hexed) (by omega) (by omega) same with equal | ⟨a, ha, b, hb,
    apart, collide⟩
  · exact Or.inl equal
  · exact Or.inr ⟨a, List.mem_append_left _ ha, b, List.mem_append_right _ hb, apart, collide⟩

/-- Finalising after some calls means that no call was refused, that the chunks were fed in order
and that their chain is both the end marker's hash and the root; what raises once raises for good;
and the root determines the chunks, unless two different byte strings have one hash. -/
theorem acceptance_determines_stream {root requestHash nonce : Obj} {g : Gate}
    (created : create K root requestHash nonce = .ok g) (calls : List Call) :
    (∀ final, (call K (after K g calls) (.finalize final)).2 = .ok true →
      (∀ r ∈ results K g calls, r = .ok true) ∧
      ∃ r q n s chunks, root = .text r ∧ requestHash = .text q ∧ nonce = .text n ∧
        final = .text s ∧ Fed 1 calls chunks ∧ fromHex r = some (chain K q n chunks) ∧
        fromHex s = some (chain K q n chunks)) ∧
    (∀ c e, (call K (after K g calls) c).2 = .error e →
      ∀ later, ∀ r ∈ results K (call K (after K g calls) c).1 later, ∃ e', r = .error e') ∧
    (∀ q n g' root' calls' final final' chunks chunks',
      requestHash = .text q → HexDigest q → nonce = .text n →
      create K root' requestHash nonce = .ok g' → g'.expectedRoot = g.expectedRoot →
      (call K (after K g calls) (.finalize final)).2 = .ok true →
      (call K (after K g' calls') (.finalize final')).2 = .ok true →
      Fed 1 calls chunks → Fed 1 calls' chunks' →
      chunks.length < 2 ^ 29 → chunks'.length < 2 ^ 29 →
      chunks = chunks' ∨ Collision K (preimages K q n chunks ++ preimages K q n chunks')) := by
  refine ⟨fun final accepted => accepted_chain created accepted, ?_, ?_⟩
  · intro c e raised later
    exact (run_closed (closed_of_error raised) later).2
  · intro q n g' root' calls' final final' chunks chunks' isHash hexed isNonce created' sameRoot
      accepted accepted' fed fed' few few'
    obtain ⟨-, r, q₁, n₁, s, chunks₁, rfl, h₁, h₂, -, fed₁, ofRoot, -⟩ :=
      accepted_chain created accepted
    obtain ⟨-, r', q₂, n₂, s', chunks₂, rfl, h₃, h₄, -, fed₂, ofRoot', -⟩ :=
      accepted_chain created' accepted'
    subst isHash isNonce
    obtain rfl := Obj.text.inj h₁
    obtain rfl := Obj.text.inj h₂
    obtain rfl := Obj.text.inj h₃
    obtain rfl := Obj.text.inj h₄
    obtain rfl := fed.unique fed₁
    obtain rfl := fed'.unique fed₂
    obtain ⟨_, _, _, digest, e₁, -, -, hex₁, rfl⟩ := create_ok created
    obtain ⟨_, _, _, digest', e₂, -, -, hex₂, rfl⟩ := create_ok created'
    obtain rfl := Obj.text.inj e₁
    obtain rfl := Obj.text.inj e₂
    have first : digest = chain K q n chunks := Option.some.inj (hex₁.symm.trans ofRoot)
    have second : digest' = chain K q n chunks' := Option.some.inj (hex₂.symm.trans ofRoot')
    exact chain_unique hexed few few' (first.symm.trans (sameRoot.symm.trans second))

def sampleHash : String :=
  "00112233445566778899aabbccddeeff00112233445566778899aabbccddeeff"

def sampleRoot : Obj := .text (hex (chain toy sampleHash "n" [[1], []]))

def sampleCalls : List Call :=
  [.feedChunk (.int 1) (.bytes [1]) .none, .feedChunk (.int 2) (.bytes []) .none]

theorem acceptance_determines_stream_sample : ∃ g,
    create toy sampleRoot (.text sampleHash) (.text "n") = .ok g ∧
    (call toy (after toy g sampleCalls) (.finalize sampleRoot)).2 = .ok true ∧
    (∀ r ∈ results toy g sampleCalls, r = .ok true) := by
  have made : create toy sampleRoot (.text sampleHash) (.text "n") =
      .ok ⟨chain toy sampleHash "n" [[1], []], toy.sha256 (start sampleHash "n"), 1, false,
        false⟩ := by
    decide +kernel
  have accepted : (call toy (after toy ⟨chain toy sampleHash "n" [[1], []],
      toy.sha256 (start sampleHash "n"), 1, false, false⟩ sampleCalls)
      (.finalize sampleRoot)).2 = .ok true := by
    decide +kernel
  exact ⟨_, made, accepted, ((acceptance_determines_stream made sampleCalls).1 _ accepted).1⟩

end StreamingGate
