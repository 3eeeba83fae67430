import Mathlib.Data.List.Sort
import Custody.CborItems
import Custody.HexBytes
import Custody.PyValue

/-!
# Deterministic CBOR

`encode` and `decode` of the binary profile: shortest arguments, maps sorted by
their encoded keys, definite lengths, no floats. The reader keeps the bytes that
are still unread; its calls nest no deeper than there are bytes.
-/

namespace Cbor

open PyValue HexBytes CborItems

/-- What can be handed to `encode`. -/
inductive Obj where
  | none
  | bool (b : Bool)
  | int (n : Int)
  | bytes (b : Bytes)
  | bytearray (b : Bytes)
  | text (s : String)
  | list (xs : List Obj)
  | tuple (xs : List Obj)
  | dict (kvs : List (Obj × Obj))
  | tagged (tag : Int) (value : Obj)
  /-- A value of any other class. -/
  | other (typeName : String)
  deriving Inhabited

namespace Obj

def typeName : Obj → String
  | .none => "NoneType"
  | .bool _ => "bool"
  | .int _ => "int"
  | .bytes _ => "bytes"
  | .bytearray _ => "bytearray"
  | .text _ => "str"
  | .list _ => "list"
  | .tuple _ => "tuple"
  | .dict _ => "dict"
  | .tagged _ _ => "Tagged"
  | .other name => name

/-- `isinstance(key, (int, str, bytes, bytearray))`. -/
def isKey : Obj → Bool
  | .bool _ => true
  | .int _ => true
  | .text _ => true
  | .bytes _ => true
  | .bytearray _ => true
  | _ => false

def hashable : Obj → Bool
  | .none => true
  | .bool _ => true
  | .int _ => true
  | .text _ => true
  | .bytes _ => true
  | _ => false

/-- `==` of two values that `decode` can use as keys. A Boolean equals the integer 0 or 1. -/
def keyEq : Obj → Obj → Bool
  | .none, .none => true
  | .bool a, .bool b => a == b
  | .bool a, .int n => (if a then 1 else 0) == n
  | .int n, .bool a => n == (if a then 1 else 0)
  | .int m, .int n => m == n
  | .text s, .text t => s == t
  | .bytes a, .bytes b => a == b
  | _, _ => false

end Obj

/-- `s.encode("utf-8")`. -/
def utf8Bytes (s : String) : Bytes := s.toByteArray.data.toList

/-- `b.decode("utf-8")`. -/
def utf8Text (b : Bytes) : Py String :=
  match String.fromUTF8? ⟨b.toArray⟩ with
  | some s => .ok s
  | none => .error .unicodeDecodeError

def widths : List (Nat × Nat) :=
  [(24, 0x100), (25, 0x10000), (26, 0x100000000), (27, 0x10000000000000000)]

/-- `_head(major, value)`. -/
def head (major : Nat) (value : Int) : Py Bytes :=
  if value < 0 then .error (.valueError "negative argument")
  else
    let n := value.toNat
    if n < 24 then .ok [UInt8.ofNat (major <<< 5 ||| n)]
    else match widths.find? fun x => n < x.2 with
      | some (extra, _) =>
        .ok (UInt8.ofNat (major <<< 5 ||| extra) :: bigEndian (1 <<< (extra - 24)) n)
      | none => .error (.valueError "argument does not fit in 64 bits")

/-- The entries of a dictionary with what their keys and values are encoded to: keys first, then
in the order of the keys their values. -/
def encodeEntries (pairs : List (Obj × Py Bytes × Py Bytes)) : Py Bytes := do
  let items ← pairs.mapM fun x =>
    if x.1.isKey then do pure (← x.2.1, x.2.2)
    else throw (.valueError ("unsupported map key type " ++ x.1.typeName))
  if ¬(items.map Prod.fst).Nodup then throw (.valueError "duplicate map key")
  else do
    let start ← head 5 items.length
    let parts ← (items.insertionSort fun a b => a.1 ≤ b.1).mapM fun x => do pure (x.1 ++ (← x.2))
    pure (start ++ parts.flatten)

mutual
/-- `encode(obj)`. -/
def encode : Obj → Py Bytes
  | .none => .ok [0xf6]
  | .bool true => .ok [0xf5]
  | .bool false => .ok [0xf4]
  | .int n => if n ≥ 0 then head 0 n else head 1 (-n - 1)
  | .bytes b => do pure ((← head 2 b.length) ++ b)
  | .bytearray b => do pure ((← head 2 b.length) ++ b)
  | .text s => do pure ((← head 3 (utf8Bytes s).length) ++ utf8Bytes s)
  | .list xs => do pure ((← head 4 xs.length) ++ (← encodeAll xs))
  | .tuple xs => do pure ((← head 4 xs.length) ++ (← encodeAll xs))
  | .dict kvs => encodeEntries (encodePairs kvs)
  | .tagged tag value => do pure ((← head 6 tag) ++ (← encode value))
  | .other name =>
    if name = "float" then
      .error (.valueError "float not allowed in the itx deterministic profile")
    else .error (.valueError ("unsupported type " ++ name))
termination_by structural obj => obj

def encodeAll : List Obj → Py Bytes
  | [] => .ok []
  | x :: xs => do pure ((← encode x) ++ (← encodeAll xs))
termination_by structural xs => xs

def encodePairs : List (Obj × Obj) → List (Obj × Py Bytes × Py Bytes)
  | [] => []
  | (k, v) :: rest => (k, encode k, encode v) :: encodePairs rest
termination_by structural kvs => kvs
end

/-- A computation on the bytes that are still unread. -/
abbrev Reader := StateT Bytes Py

def take (n : Nat) : Reader Bytes := fun rest =>
  if rest.length < n then .error (.valueError "truncated input")
  else .ok (rest.take n, rest.drop n)

/-- `self.argument(initial)`. -/
def argument (initial : Nat) : Reader Nat :=
  let info := initial &&& 0x1F
  if info < 24 then pure info
  else if info = 31 then throw (.valueError "indefinite length is not allowed")
  else if 27 < info then
    throw (.valueError ("reserved additional information " ++ toString info))
  else do
    let width := 1 <<< (info - 24)
    let value := ofBigEndian (← take width)
    let minimal ← head (initial >>> 5) value
    if minimal.length ≠ width + 1 then
      throw (.valueError "argument is not minimally encoded")
    else pure value

def simple (info : Nat) : Py Obj :=
  if info = 20 then .ok (.bool false)
  else if info = 21 then .ok (.bool true)
  else if info = 22 then .ok .none
  else if info = 25 ∨ info = 26 ∨ info = 27 then
    .error (.valueError "float not allowed in the itx deterministic profile")
  else .error (.valueError ("unsupported simple value " ++ toString info))

/-- `key in out`. -/
def member (key : Obj) (out : List (Obj × Obj)) : Py Bool :=
  if key.hashable then .ok (out.any fun x => x.1.keyEq key) else .error .typeError

def readMany (read : Reader Obj) : Nat → Reader (List Obj)
  | 0 => pure []
  | n + 1 => do
    let x ← read
    let xs ← readMany read n
    pure (x :: xs)

/-- `encoded <= previous`, for the key before. -/
def outOfOrder (previous : Option Bytes) (encoded : Bytes) : Bool :=
  match previous with
  | some p => decide (encoded ≤ p)
  | none => false

def readEntries (read : Reader Obj) : Nat → List (Obj × Obj) → Option Bytes →
    Reader (List (Obj × Obj))
  | 0, out, _ => pure out
  | n + 1, out, previous => do
    let start ← get
    let key ← read
    let rest ← get
    let encoded := start.take (start.length - rest.length)
    if ← member key out then throw (.valueError "duplicate map key")
    else if outOfOrder previous encoded then
      throw (.valueError "map keys are not in deterministic order")
    else do
      let value ← read
      readEntries read n (out ++ [(key, value)]) (some encoded)

/-- What follows a head of another type than `_SIMPLE`. -/
def content (read : Reader Obj) (major argument : Nat) : Reader Obj :=
  match major with
  | 0 => pure (.int argument)
  | 1 => pure (.int (-argument - 1))
  | 2 => do pure (.bytes (← take argument))
  | 3 => do pure (.text (← utf8Text (← take argument)))
  | 4 => do pure (.list (← readMany read argument))
  | 5 => do pure (.dict (← readEntries read argument [] none))
  | 6 => do pure (.tagged argument (← read))
  | major => throw (.valueError ("unsupported major type " ++ toString major))

/-- `self.item()`, with the depth that is left. -/
def item : Nat → Reader Obj
  | 0 => throw .recursionError
  | depth + 1 => do
    let initial := ofBigEndian (← take 1)
    if initial >>> 5 = 7 then simple (initial &&& 0x1F)
    else do content (item depth) (initial >>> 5) (← argument initial)

/-- `decode(data)`. -/
def decode (data : Bytes) : Py Obj := do
  let (value, rest) ← item (data.length + 1) data
  if rest.isEmpty then pure value
  else throw (.valueError "trailing bytes after top-level item")

end Cbor
