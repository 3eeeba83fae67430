import Custody.CborItems
import Custody.PyValue
import Custody.HexBytes
import Mathlib.Algebra.Group.Int.Defs
import Mathlib.Data.Nat.Size

/-!
# Distinguished encoding rules

The writer and the reader that time-stamp requests and responses go through. A reader
keeps its offset: it moves when a value has been read and stays where it is when
reading raises.
-/

namespace Der

open PyValue HexBytes CborItems

/-- What the functions of this module may raise. -/
inductive Raised where
  | tsaError (message : String)
  | valueError
  | overflowError
  | indexError
  deriving DecidableEq

abbrev Raises := Except Raised

/-- `bytes([n])`. -/
def byte (n : ℕ) : Raises UInt8 := if n < 256 then .ok (UInt8.ofNat n) else .error .valueError

/-- `n.to_bytes(width, "big")`. -/
def toBytes (width : ℕ) (n : ℤ) : Raises Bytes :=
  if 0 ≤ n ∧ n < 256 ^ width then .ok (bigEndian width n.toNat) else .error .overflowError

/-- `(n.bit_length() + 7) // 8`. -/
def byteCount (n : ℤ) : ℕ := (n.natAbs.size + 7) / 8

/-- The length octets in `_der`. -/
def lengthBytes (size : ℕ) : Raises Bytes :=
  if size < 128 then do pure [← byte size]
  else do
    let length ← toBytes (byteCount size) size
    pure ((← byte (0x80 ||| length.length)) :: length)

/-- `_der(tag, value)`. -/
def der (tag : ℕ) (value : Bytes) : Raises Bytes := do
  let length ← lengthBytes value.length
  pure ((← byte tag) :: (length ++ value))

/-- `_integer(value)`. -/
def integer (value : ℤ) : Raises Bytes := do
  let encoded ← toBytes (max 1 (byteCount value)) value
  match encoded with
  | [] => throw .indexError
  | first :: _ => der 0x02 (if first.toNat &&& 0x80 ≠ 0 then 0 :: encoded else encoded)

structure Reader where
  data : Bytes
  offset : ℕ := 0
  deriving DecidableEq

namespace Reader

def peek (r : Reader) : Option ℕ := r.data[r.offset]?.map UInt8.toNat

/-- `self.data[i]`. -/
def byteAt (r : Reader) (i : ℕ) : Raises ℕ :=
  match r.data[i]? with
  | some b => .ok b.toNat
  | none => .error .indexError

/-- The octets after the tag in `read`: where the value starts and its size. -/
def length (r : Reader) : Raises (ℕ × ℕ) := do
  let start := r.offset + 2
  let size ← r.byteAt (r.offset + 1)
  if size &&& 0x80 ≠ 0 then
    let count := size &&& 0x7F
    if ¬(1 ≤ count ∧ count ≤ 4) ∨ start + count > r.data.length then
      throw (.tsaError "invalid DER length")
    else if (← r.byteAt start) = 0 then throw (.tsaError "non-canonical DER length")
    else
      let size := ofBigEndian ((r.data.drop start).take count)
      if size < 128 then throw (.tsaError "non-canonical DER length")
      else pure (start + count, size)
  else pure (start, size)

/-- What `read` checks before it moves, with where the value starts and ends. -/
def span (r : Reader) (tag : ℕ) : Raises (ℕ × ℕ) := do
  if r.peek ≠ some tag ∨ r.offset + 2 > r.data.length then
    throw (.tsaError "unexpected or truncated DER tag")
  else
    let (start, size) ← r.length
    if start + size > r.data.length then throw (.tsaError "truncated DER value")
    else pure (start, start + size)

/-- `read(tag)`. -/
def read (r : Reader) (tag : ℕ) : Reader × Raises Bytes :=
  match r.span tag with
  | .error e => (r, .error e)
  | .ok (start, stop) =>
    ({ r with offset := stop }, .ok ((r.data.drop start).take (stop - start)))

/-- The contents that `integer` refuses. -/
def badInteger : Bytes → Bool
  | [] => true
  | first :: rest =>
    (first :: rest).length > 33 || first.toNat &&& 0x80 != 0 ||
      match rest with
      | [] => false
      | second :: _ => first == 0 && second.toNat &&& 0x80 == 0

/-- `integer()`. A refusal comes after the value has been read. -/
def integer (r : Reader) : Reader × Raises ℕ :=
  match r.read 0x02 with
  | (r, .error e) => (r, .error e)
  | (r, .ok data) =>
    if badInteger data then (r, .error (.tsaError "invalid non-negative DER integer"))
    else (r, .ok (ofBigEndian data))

def finish (r : Reader) : Raises Unit :=
  if r.peek.isSome then .error (.tsaError "unexpected trailing DER data") else .ok ()

end Reader

/-- `_single(data, tag)`. -/
def single (data : Bytes) (tag : ℕ) : Raises Bytes :=
  match Reader.read { data } tag with
  | (_, .error e) => .error e
  | (reader, .ok value) => do
    reader.finish
    pure value

/-- `_root_bytes(root_hash)`. -/
def rootBytes : Value → Raises Bytes
  | .str s =>
    if s.toList.length = 64 ∧ s.toList.all fun c => (charNibble c).isSome then
      match fromHex s with
      | some root => .ok root
      | none => .error .valueError
    else .error (.tsaError "root_hash must be a SHA-256 hex digest")
  | _ => .error (.tsaError "root_hash must be a SHA-256 hex digest")

def sha256Oid : Bytes := [0x60, 0x86, 0x48, 0x01, 0x65, 0x03, 0x04, 0x02, 0x01]

/-- `build_timestamp_request(root_hash, nonce)`, where 128 random bits come out as `drawn`. -/
def buildTimestampRequest (rootHash nonce : Value) (drawn : ℕ) : Raises Bytes := do
  let root ← rootBytes rootHash
  let nonce := if nonce.isNone then .int (if drawn = 0 then 1 else drawn) else nonce
  match nonce with
  | .int nonce =>
    if ¬(0 < nonce ∧ nonce < 2 ^ 160) then
      throw (.tsaError "nonce must be a positive integer of at most 160 bits")
    else
      let algorithm ← der 0x30 ((← der 0x06 sha256Oid) ++ (← der 0x05 []))
      let imprint ← der 0x30 (algorithm ++ (← der 0x04 root))
      der 0x30 ((← integer 1) ++ imprint ++ (← integer nonce) ++ (← der 0x01 [0xff]))
  | _ => throw (.tsaError "nonce must be a positive integer of at most 160 bits")

end Der
