import Custody.CborItems
import Custody.Edwards
import Custody.HexBytes
import Custody.ModularPowers

/-!
# Ed25519 without a library

The signature scheme as the program computes it on plain integers when no library
is installed. Points are in extended coordinates. SHA-512 is any function to 64 bytes.
-/

namespace Ed25519

open HexBytes CborItems ModularPowers TwistedEdwards

/-- What the arithmetic of this module may raise. -/
inductive Raised where
  | overflowError
  | typeError
  deriving DecidableEq

abbrev Raises := Except Raised

/-- `int.from_bytes(s, "little")`. -/
def fromBytes (s : Bytes) : ℕ := ofBigEndian s.reverse

/-- `n.to_bytes(width, "little")`. -/
def toBytes (width : ℕ) (n : ℕ) : Raises Bytes :=
  if n < 256 ^ width then .ok (bigEndian width n).reverse else .error .overflowError

/-- `_P`. -/
def P : ℕ := 2 ^ 255 - 19

/-- `_L`. -/
def L : ℕ := 2 ^ 252 + 27742317777372353535851937790883648493

def D : ℤ := -121665 * powMod 121666 (P - 2) P % P

def I : ℤ := powMod 2 ((P - 1) / 4) P

def ident : Extended ℤ := { X := 0, Y := 1, Z := 1, T := 0 }

def inv (x : ℤ) : ℤ := powMod x (P - 2) P

def add (p q : Extended ℤ) : Extended ℤ :=
  let a := (p.Y - p.X) * (q.Y - q.X) % P
  let b := (p.Y + p.X) * (q.Y + q.X) % P
  let c := 2 * p.T * q.T * D % P
  let d := 2 * p.Z * q.Z % P
  let e := b - a
  let f := d - c
  let g := d + c
  let h := b + a
  { X := e * f % P, Y := g * h % P, Z := f * g % P, T := e * h % P }

/-- The loop of `_mul`: `q` is the sum so far, `p` the multiple for the lowest bit of `n`. -/
def mulLoop (q p : Extended ℤ) (n : ℕ) : Extended ℤ :=
  if n = 0 then q
  else mulLoop (if n &&& 1 = 1 then add q p else q) (add p p) (n >>> 1)
termination_by n
decreasing_by
  rw [Nat.shiftRight_one]
  omega

def mul (p : Extended ℤ) (n : ℕ) : Extended ℤ := mulLoop ident p n

/-- A first coordinate for the second coordinate `y`. -/
def xrecover (y : ℤ) : Option ℤ :=
  let xx := (y * y - 1) * inv (D * y * y + 1) % P
  let root := powMod xx ((P + 3) / 8) P
  let x := if (root * root - xx) % P ≠ 0 then root * I % P else root
  if (x * x - xx) % P ≠ 0 then none else some x

def BY : ℤ := 4 * inv 5 % P

/-- `_BX`, which loading the module computes; without a root loading would fail. -/
def BX : ℤ :=
  match xrecover BY with
  | some x => if x % 2 ≠ 0 then P - x else x
  | none => 0

def B : Extended ℤ := { X := BX, Y := BY, Z := 1, T := BX * BY % P }

def encode (p : Extended ℤ) : Raises Bytes :=
  let zi := inv p.Z
  let x := p.X * zi % P
  let y := p.Y * zi % P
  -- both are remainders, so the bit operations see no sign
  toBytes 32 (y.toNat ||| (x.toNat &&& 1) <<< 255)

def decode (s : Bytes) : Option (Extended ℤ) :=
  if s.length ≠ 32 then none
  else
    let word := fromBytes s
    let sign := word >>> 255
    let y := word &&& ((1 <<< 255) - 1)
    if P ≤ y then none
    else match xrecover y with
      | none => none
      | some root =>
        if root = 0 ∧ sign = 1 then none
        else
          let x := if root.toNat &&& 1 ≠ sign then P - root else root
          some { X := x, Y := y, Z := 1, T := x * y % P }

def equal (p q : Extended ℤ) : Bool :=
  (p.X * q.Z - q.X * p.Z) % P == 0 && (p.Y * q.Z - q.Y * p.Z) % P == 0

/-- `hashlib.sha512(data).digest()`. -/
structure Sha512 where
  digest : Bytes → Bytes
  digest_length : ∀ data, (digest data).length = 64

variable (H : Sha512)

def expand (seed : Bytes) : ℕ × Bytes :=
  let h := H.digest seed
  let a := fromBytes (h.take 32)
  let a := a &&& ((1 <<< 254) - 8)
  let a := a ||| (1 <<< 254)
  (a, h.drop 32)

def purePublicKey (seed : Bytes) : Raises Bytes :=
  let (a, _) := expand H seed
  encode (mul B a)

def pureSign (seed msg : Bytes) : Raises Bytes := do
  let (a, rest) := expand H seed
  let publicKey ← encode (mul B a)
  let r := fromBytes (H.digest (rest ++ msg)) % L
  let commitment ← encode (mul B r)
  let h := fromBytes (H.digest (commitment ++ publicKey ++ msg)) % L
  let s := (r + h * a) % L
  pure (commitment ++ (← toBytes 32 s))

/-- Taking the coordinates out of what `decode` returned. -/
def unpack : Option (Extended ℤ) → Raises (Extended ℤ)
  | some p => .ok p
  | none => .error .typeError

def pureVerify (pub msg sig : Bytes) : Raises Bool :=
  if sig.length ≠ 64 ∨ pub.length ≠ 32 then .ok false
  else
    let key := decode pub
    let commitment := decode (sig.take 32)
    if key.isNone ∨ commitment.isNone then .ok false
    else
      let s := fromBytes (sig.drop 32)
      if L ≤ s then .ok false
      else do
        let h := fromBytes (H.digest (sig.take 32 ++ pub ++ msg)) % L
        pure (equal (mul B s) (add (← unpack commitment) (mul (← unpack key) h)))

end Ed25519
