import Custody.Commitments

/-!
# Merkle trees over leaf hashes

Leaves are hashed with prefix 0, nodes with prefix 1. The recursions split a list
at the largest power of two below its length; fuel is the length of the list.
-/

namespace Merkle

open PyValue HexBytes Commitments

variable (K : Primitives)

def leafHash (data : Bytes) : Bytes := K.sha256 (0 :: data)

def nodeHash (left right : Bytes) : Bytes := K.sha256 (1 :: (left ++ right))

def doubled : Nat → Nat → Nat → Nat
  | 0, k, _ => k
  | fuel + 1, k, n => if k * 2 < n then doubled fuel (k * 2) n else k

/-- `_largest_pow2_lt(n)`. -/
def largestPow2Lt (n : Nat) : Nat := doubled n 1 n

def mthFuel : Nat → List Bytes → Bytes
  | _, [] => K.sha256 []
  | _, [h] => h
  | 0, _ => K.sha256 []
  | fuel + 1, hashes =>
    let k := largestPow2Lt hashes.length
    nodeHash K (mthFuel fuel (hashes.take k)) (mthFuel fuel (hashes.drop k))

def mth (hashes : List Bytes) : Bytes := mthFuel K hashes.length hashes

def inclusionPathFuel : Nat → Nat → List Bytes → List Bytes
  | 0, _, _ => []
  | fuel + 1, m, hashes =>
    if hashes.length ≤ 1 then []
    else
      let k := largestPow2Lt hashes.length
      if m < k then inclusionPathFuel fuel m (hashes.take k) ++ [mth K (hashes.drop k)]
      else inclusionPathFuel fuel (m - k) (hashes.drop k) ++ [mth K (hashes.take k)]

def inclusionPath (m : Nat) (hashes : List Bytes) : List Bytes :=
  inclusionPathFuel K hashes.length m hashes

/-- `_subproof(m, hashes, b)`. A position outside the list recurses without end. -/
def subproof : Nat → Int → List Bytes → Bool → Py (List Bytes)
  | 0, _, _, _ => .error .recursionError
  | fuel + 1, m, hashes, b =>
    if m = hashes.length then .ok (if b then [] else [mth K hashes])
    else
      let k := largestPow2Lt hashes.length
      if m ≤ k then do
        pure ((← subproof fuel m (hashes.take k) b) ++ [mth K (hashes.drop k)])
      else do
        pure ((← subproof fuel (m - k) (hashes.drop k) false) ++ [mth K (hashes.take k)])

def consistencyPath (m : Int) (hashes : List Bytes) : Py (List Bytes) :=
  if m = 0 ∨ m = hashes.length then .ok []
  else subproof K (hashes.length + m.natAbs + 2) m hashes true

def bit (n : Nat) : Bool := n % 2 = 1

/-- `while fn != 0 and not fn & 1: fn >>= 1; sn >>= 1`. -/
def shiftZeros : Nat → Nat × Nat → Nat × Nat
  | 0, p => p
  | fuel + 1, (fn, sn) =>
    if fn ≠ 0 ∧ bit fn = false then shiftZeros fuel (fn / 2, sn / 2) else (fn, sn)

/-- `while fn & 1: fn >>= 1; sn >>= 1`. -/
def shiftOnes : Nat → Nat × Nat → Nat × Nat
  | 0, p => p
  | fuel + 1, (fn, sn) =>
    if bit fn then shiftOnes fuel (fn / 2, sn / 2) else (fn, sn)

structure Climb where
  fn : Nat
  sn : Nat
  fr : Bytes
  sr : Bytes

def climbStep (s : Climb) (c : Bytes) : Climb :=
  if bit s.fn ∨ s.fn = s.sn then
    let p := if bit s.fn then (s.fn, s.sn) else shiftZeros s.fn (s.fn, s.sn)
    { fn := p.1 / 2, sn := p.2 / 2, fr := nodeHash K c s.fr, sr := nodeHash K c s.sr }
  else
    { s with fn := s.fn / 2, sn := s.sn / 2, sr := nodeHash K s.sr c }

/-- The loop over the proof; nothing may be left to fold once the top is reached. -/
def climb : Climb → List Bytes → Option Climb
  | s, [] => some s
  | s, c :: rest => if s.sn = 0 then none else climb (climbStep K s c) rest

/-- `first & (first - 1) == 0`, for `first` above zero. -/
def isPow2 (first : Nat) : Bool := first &&& (first - 1) = 0

def verifyConsistency (first second : Nat) (firstRoot secondRoot : Bytes)
    (proof : List Bytes) : Bool :=
  if first > second then false
  else if first = second then firstRoot == secondRoot && proof.isEmpty
  else if first = 0 then proof.isEmpty
  else
    match if isPow2 first then firstRoot :: proof else proof with
    | [] => false
    | seed :: rest =>
      if proof.isEmpty then false
      else
        let start := shiftOnes first (first - 1, second - 1)
        match climb K { fn := start.1, sn := start.2, fr := seed, sr := seed } rest with
        | none => false
        | some s => s.fr == firstRoot && s.sr == secondRoot && s.sn == 0

/-- `MerkleTree`, which keeps the leaf hashes. -/
structure MerkleTree where
  leaves : List Bytes := []

namespace MerkleTree

def size (t : MerkleTree) : Nat := t.leaves.length

def append (t : MerkleTree) (data : Bytes) : MerkleTree :=
  { leaves := t.leaves ++ [leafHash K data] }

def root (t : MerkleTree) : Bytes := mth K t.leaves

/-- `leaves[:size]`, where a negative size counts from the end. -/
def slice (xs : List Bytes) (size : Int) : List Bytes :=
  if size < 0 then xs.take (xs.length - size.natAbs) else xs.take size.natAbs

def rootAt (t : MerkleTree) (size : Int) : Py Bytes :=
  if size > t.size then .error (.valueError "size exceeds tree")
  else .ok (mth K (slice t.leaves size))

def inclusionProof (t : MerkleTree) (index : Nat) : List Bytes := inclusionPath K index t.leaves

def consistencyProof (t : MerkleTree) (first : Int) (second : Nat) : Py (List Bytes) :=
  consistencyPath K first (t.leaves.take second)

end MerkleTree

end Merkle
