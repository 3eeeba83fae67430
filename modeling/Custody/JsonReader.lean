import Custody.CanonicalForm
import Custody.Cbor

/-!
# Reading JSON

`json_loads` reads a text with `json.loads`, refuses a dictionary that has a key
twice, and refuses what could not be written as canonical JSON again. The reader is
that of the standard library: blanks between the tokens, every escape, and the
encodings it tells from the first bytes. A number with a fraction or an exponent is
a float, and so are `NaN` and the infinities; the check refuses them, and here they
are not read at all.
-/

namespace JsonReader

open PyValue HexBytes CanonicalJson

inductive Encoding where
  | utf8
  | utf16 (big : Bool)
  | utf32 (big : Bool)

/-- The encoding without a byte order mark: where the zeros are tells its width. -/
def unmarked : Bytes → Encoding
  | b₀ :: b₁ :: b₂ :: b₃ :: _ =>
    if b₀ = 0 then (if b₁ = 0 then .utf32 true else .utf16 true)
    else if b₁ = 0 then (if b₂ = 0 ∧ b₃ = 0 then .utf32 false else .utf16 false)
    else .utf8
  | [b₀, b₁] => if b₀ = 0 then .utf16 true else if b₁ = 0 then .utf16 false else .utf8
  | _ => .utf8

/-- `detect_encoding`, and the length of the byte order mark. -/
def detectEncoding (b : Bytes) : Encoding × Nat :=
  if [0, 0, 254, 255].isPrefixOf b then (.utf32 true, 4)
  else if [255, 254, 0, 0].isPrefixOf b then (.utf32 false, 4)
  else if [254, 255].isPrefixOf b then (.utf16 true, 2)
  else if [255, 254].isPrefixOf b then (.utf16 false, 2)
  else if [239, 187, 191].isPrefixOf b then (.utf8, 3)
  else (unmarked b, 0)

/-- The numbers of two octets each. -/
def units16 (big : Bool) : Bytes → Option (List Nat)
  | [] => some []
  | a :: b :: rest =>
    (units16 big rest).map
      ((if big then 256 * a.toNat + b.toNat else 256 * b.toNat + a.toNat) :: ·)
  | _ => none

/-- The numbers of four octets each. -/
def units32 (big : Bool) : Bytes → Option (List Nat)
  | [] => some []
  | a :: b :: c :: d :: rest =>
    (units32 big rest).map
      ((if big then 65536 * (256 * a.toNat + b.toNat) + (256 * c.toNat + d.toNat)
        else 65536 * (256 * d.toNat + c.toNat) + (256 * b.toNat + a.toNat)) :: ·)
  | _ => none

def isHigh (n : Nat) : Bool := 55296 ≤ n && n < 56320

def isLow (n : Nat) : Bool := 56320 ≤ n && n < 57344

/-- The character of a pair of surrogates. -/
def pairChar (high low : Nat) : Char := Char.ofNat (65536 + 1024 * (high - 55296) + (low - 56320))

/-- A character by its number. A surrogate that is left alone is read, but cannot be written. -/
def charAt (n : Nat) : Option Char := if n.isValidChar then some (Char.ofNat n) else none

def chars16 : List Nat → Option (List Char)
  | [] => some []
  | [n] => (charAt n).map fun c => [c]
  | n :: m :: rest =>
    if isHigh n && isLow m then (chars16 rest).map (pairChar n m :: ·)
    else (charAt n).bind fun c => (chars16 (m :: rest)).map (c :: ·)

def notJson : PyErr := .valueError "invalid JSON"

def orUndecodable {A : Type} : Option A → Py A
  | some a => .ok a
  | none => .error .unicodeDecodeError

/-- `raw.decode(detect_encoding(raw), "surrogatepass")`. -/
def decoded (raw : Bytes) : Py (List Char) :=
  match detectEncoding raw with
  | (.utf8, mark) => (Cbor.utf8Text (raw.drop mark)).map String.toList
  | (.utf16 big, mark) => orUndecodable ((units16 big (raw.drop mark)).bind chars16)
  | (.utf32 big, mark) => orUndecodable ((units32 big (raw.drop mark)).bind (List.mapM charAt))

def isWs (c : Char) : Bool := c = ' ' || c = '\t' || c = '\n' || c = '\r'

def skipWs (cs : List Char) : List Char := cs.dropWhile isWs

/-- The number of four digits of base sixteen. -/
def hex4 (a b c d : Char) : Option Nat := do
  pure (4096 * (← charNibble a) + 256 * (← charNibble b) + 16 * (← charNibble c) + (← charNibble d))

/-- The character of a short escape. -/
def shortEscape (c : Char) : Option Char :=
  if c = '"' then some '"'
  else if c = '\\' then some '\\'
  else if c = '/' then some '/'
  else if c = 'b' then some (Char.ofNat 8)
  else if c = 'f' then some (Char.ofNat 12)
  else if c = 'n' then some '\n'
  else if c = 'r' then some '\r'
  else if c = 't' then some '\t'
  else none

/-- The second half of a pair; a half that is left alone could not be written again. -/
def lowHalf (high : Nat) : List Char → Option (Char × List Char)
  | '\\' :: 'u' :: a :: b :: c :: d :: r => match hex4 a b c d with
    | some low => if isLow low then some (pairChar high low, r) else none
    | none => none
  | _ => none

/-- A character that is escaped by its number. -/
def unicodeEscape : List Char → Option (Char × List Char)
  | a :: b :: c :: d :: r => match hex4 a b c d with
    | some n => if isHigh n then lowHalf n r else (charAt n).map fun c => (c, r)
    | none => none
  | _ => none

/-- One character of a text, up to its closing quote. -/
inductive Piece where
  | close (rest : List Char)
  | char (c : Char) (rest : List Char)
  | bad

def Piece.ofOption : Option (Char × List Char) → Piece
  | some (c, r) => .char c r
  | none => .bad

def piece : List Char → Piece
  | '"' :: r => .close r
  | '\\' :: 'u' :: r => .ofOption (unicodeEscape r)
  | '\\' :: c :: r => .ofOption ((shortEscape c).map fun c => (c, r))
  | c :: r => if c.toNat < 32 || c = '\\' then .bad else .char c r
  | [] => .bad

/-- The rest of a text behind its opening quote. -/
def readString : Nat → List Char → Py (List Char × List Char)
  | 0, _ => .error notJson
  | fuel + 1, cs => match piece cs with
    | .close r => .ok ([], r)
    | .char c r => do
      let (text, r) ← readString fuel r
      pure (c :: text, r)
    | .bad => .error notJson

def digitsOf (cs : List Char) : List Char × List Char := cs.span Char.isDigit

/-- Digits without a leading zero. -/
def readNat (cs : List Char) : Py (Nat × List Char) :=
  match cs with
  | '0' :: r => .ok (0, r)
  | c :: r =>
    if c.isDigit then
      let (ds, r) := digitsOf (c :: r)
      .ok (decimalValue ds, r)
    else .error notJson
  | [] => .error notJson

def readInt : List Char → Py (Int × List Char)
  | '-' :: r => do
    let (n, r) ← readNat r
    pure (-(n : Int), r)
  | cs => do
    let (n, r) ← readNat cs
    pure ((n : Int), r)

/-- `pairs`: no key is there twice. -/
def pairs (kvs : Dict) : Py Value :=
  if (kvs.map Prod.fst).Pairwise fun k l => k.scalarEq l = false then .ok (.dict kvs)
  else .error (.valueError "duplicate JSON key")

mutual
/-- No dictionary inside has a key twice, as no dictionary of the program can. -/
def once : Value → Bool
  | .list xs => onceList xs
  | .dict kvs => onceDict kvs
  | _ => true
termination_by structural v => v

def onceList : List Value → Bool
  | [] => true
  | x :: xs => once x && onceList xs
termination_by structural v => v

def onceDict : List (Value × Value) → Bool
  | [] => true
  | (k, v) :: rest =>
    (rest.map Prod.fst).all (fun l => !(k.scalarEq l)) && (once v && onceDict rest)
termination_by structural v => v
end

mutual
/-- `scan_once`; the text is behind its blanks. -/
def readValue : Nat → List Char → Py (Value × List Char)
  | 0, _ => .error notJson
  | fuel + 1, cs => match cs with
    | '"' :: r => do
      let (text, r) ← readString (r.length + 1) r
      pure (.str (String.ofList text), r)
    | '{' :: r => match skipWs r with
      | '}' :: r => do pure (← pairs [], r)
      | r => do
        let (kvs, r) ← readItems fuel r
        pure (← pairs kvs, r)
    | '[' :: r => match skipWs r with
      | ']' :: r => .ok (.list [], r)
      | r => do
        let (xs, r) ← readElems fuel r
        pure (.list xs, r)
    | 'n' :: 'u' :: 'l' :: 'l' :: r => .ok (.null, r)
    | 't' :: 'r' :: 'u' :: 'e' :: r => .ok (.bool true, r)
    | 'f' :: 'a' :: 'l' :: 's' :: 'e' :: r => .ok (.bool false, r)
    | cs => do
      let (n, r) ← readInt cs
      pure (.int n, r)
termination_by structural fuel => fuel

/-- The elements of a list that has some. -/
def readElems : Nat → List Char → Py (List Value × List Char)
  | 0, _ => .error notJson
  | fuel + 1, cs => do
    let (x, r) ← readValue fuel cs
    match skipWs r with
    | ',' :: r => do
      let (xs, r) ← readElems fuel (skipWs r)
      pure (x :: xs, r)
    | ']' :: r => pure ([x], r)
    | _ => throw notJson
termination_by structural fuel => fuel

/-- The items of a dictionary that has some. -/
def readItems : Nat → List Char → Py (Dict × List Char)
  | 0, _ => .error notJson
  | fuel + 1, cs => match cs with
    | '"' :: r => do
      let (key, r) ← readString (r.length + 1) r
      match skipWs r with
      | ':' :: r => do
        let (v, r) ← readValue fuel (skipWs r)
        match skipWs r with
        | ',' :: r => do
          let (kvs, r) ← readItems fuel (skipWs r)
          pure ((.str (String.ofList key), v) :: kvs, r)
        | '}' :: r => pure ([(.str (String.ofList key), v)], r)
        | _ => throw notJson
      | _ => throw notJson
    | _ => .error notJson
termination_by structural fuel => fuel
end

/-- Enough for every value that a text can begin with. -/
def fuelFor (cs : List Char) : Nat := 2 * cs.length + 1

/-- `json.loads` of a text, for values without floats. -/
def loads (cs : List Char) : Py Value := do
  let cs := skipWs cs
  let (v, r) ← readValue (fuelFor cs) cs
  if (skipWs r).isEmpty then pure v else throw notJson

/-- `json_loads`. -/
def jsonLoads (raw : Bytes) : Py Value := do
  let v ← loads (← decoded raw)
  let _ ← canonicalJson v
  pure v

section layout

variable (blank : Nat → List Char) (colon : List Char)

mutual
/-- A text with `blank` between its tokens where a line would be broken, for the depth it goes on
at, and `colon` behind its colons. -/
def layout : Nat → Value → List Char
  | _, .null => dump .null
  | _, .bool b => dump (.bool b)
  | _, .int n => intChars n
  | _, .str s => quote s
  | _, .list [] => ['[', ']']
  | level, .list (x :: xs) =>
    '[' :: (blank (level + 1) ++ (layout (level + 1) x ++ layoutTail level xs))
  | _, .dict [] => ['{', '}']
  | level, .dict ((k, v) :: rest) =>
    '{' :: (blank (level + 1) ++ (keyChars k ++ ':' :: (colon ++
      (layout (level + 1) v ++ layoutItems level rest))))
termination_by structural _ v => v

def layoutTail : Nat → List Value → List Char
  | level, [] => blank level ++ [']']
  | level, x :: xs =>
    ',' :: (blank (level + 1) ++ (layout (level + 1) x ++ layoutTail level xs))
termination_by structural _ xs => xs

def layoutItems : Nat → List (Value × Value) → List Char
  | level, [] => blank level ++ ['}']
  | level, (k, v) :: rest =>
    ',' :: (blank (level + 1) ++ (keyChars k ++ ':' :: (colon ++
      (layout (level + 1) v ++ layoutItems level rest))))
termination_by structural _ kvs => kvs
end

end layout

theorem onceDict_iff (kvs : Dict) : onceDict kvs = true ↔
    ((kvs.map Prod.fst).Pairwise fun k l => k.scalarEq l = false) ∧
      ∀ p ∈ kvs, once p.2 = true := by
  induction kvs with
  | nil => simp [onceDict]
  | cons p rest ih =>
    obtain ⟨k, v⟩ := p
    rw [onceDict, Bool.and_eq_true, Bool.and_eq_true, ih, List.map_cons, List.pairwise_cons,
      List.forall_mem_cons, List.all_eq_true]
    simp only [Bool.not_eq_true']
    tauto

end JsonReader
