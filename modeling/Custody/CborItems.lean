import Mathlib.Algebra.Group.Nat.Defs
import Mathlib.Data.List.Induction

/-!
# Data items and their shortest encoding

A data item of CBOR is a head, which has a major type and an argument below
`2 ^ 64`, and what the argument announces. Heads are written in the shortest of
five widths. An item is then read off its bytes in one way, whatever follows.
-/

namespace CborItems

def bigEndian : Nat → Nat → List UInt8
  | 0, _ => []
  | width + 1, n => bigEndian width (n / 256) ++ [UInt8.ofNat (n % 256)]

def ofBigEndian (bs : List UInt8) : Nat := bs.foldl (fun n b => n * 256 + b.toNat) 0

theorem bigEndian_length (width n : Nat) : (bigEndian width n).length = width := by
  induction width generalizing n with
  | zero => rfl
  | succ width ih => simp [bigEndian, ih]

theorem ofBigEndian_append (bs : List UInt8) (b : UInt8) :
    ofBigEndian (bs ++ [b]) = ofBigEndian bs * 256 + b.toNat := by
  simp [ofBigEndian]

theorem ofBigEndian_bigEndian {width n : Nat} (fits : n < 256 ^ width) :
    ofBigEndian (bigEndian width n) = n := by
  induction width generalizing n with
  | zero =>
    have zero : n = 0 := by omega
    rw [zero]
    rfl
  | succ width ih =>
    have rest : n / 256 < 256 ^ width := by
      apply Nat.div_lt_of_lt_mul
      rw [Nat.pow_succ] at fits
      omega
    have low : (UInt8.ofNat (n % 256)).toNat = n % 256 := by
      simp
    rw [bigEndian, ofBigEndian_append, ih rest, low]
    omega

theorem bigEndian_ofBigEndian (bs : List UInt8) : bigEndian bs.length (ofBigEndian bs) = bs := by
  induction bs using List.reverseRecOn with
  | nil => rfl
  | append_singleton bs b ih =>
    have low : b.toNat < 256 := b.toNat_lt
    have high : (ofBigEndian bs * 256 + b.toNat) / 256 = ofBigEndian bs := by omega
    have last : (ofBigEndian bs * 256 + b.toNat) % 256 = b.toNat := by omega
    rw [List.length_append, List.length_singleton, bigEndian, ofBigEndian_append, high, last, ih,
      UInt8.ofNat_toNat]

theorem ofBigEndian_lt (bs : List UInt8) : ofBigEndian bs < 256 ^ bs.length := by
  induction bs using List.reverseRecOn with
  | nil => exact Nat.one_pos
  | append_singleton bs b ih =>
    have low : b.toNat < 256 := b.toNat_lt
    rw [ofBigEndian_append, List.length_append, List.length_singleton, Nat.pow_succ]
    omega

theorem bigEndian_inj {width m n : Nat} (hm : m < 256 ^ width) (hn : n < 256 ^ width)
    (same : bigEndian width m = bigEndian width n) : m = n := by
  rw [← ofBigEndian_bigEndian hm, same, ofBigEndian_bigEndian hn]

/-- The low five bits of a head: the argument itself, or the code of its width. -/
def info (n : Nat) : Nat :=
  if n < 24 then n
  else if n < 2 ^ 8 then 24
  else if n < 2 ^ 16 then 25
  else if n < 2 ^ 32 then 26
  else 27

def widthOf (info : Nat) : Nat := if info < 24 then 0 else 2 ^ (info - 24)

/-- The shortest head for an argument below `2 ^ 64`. -/
def head (major n : Nat) : List UInt8 :=
  UInt8.ofNat (major * 32 + info n) :: bigEndian (widthOf (info n)) n

theorem info_lt (n : Nat) : info n < 28 := by
  unfold info
  split
  · omega
  split
  · omega
  split
  · omega
  split <;> omega

/-- An argument whose low bits name a width fits in it. -/
theorem lt_of_info {n : Nat} (fits : n < 2 ^ 64) (wide : 24 ≤ info n) :
    n < 256 ^ widthOf (info n) := by
  by_cases one : n < 2 ^ 8
  · by_cases none_ : n < 24
    · rw [info, if_pos none_] at wide
      omega
    · rw [info, if_neg none_, if_pos one]
      exact one
  have large : ¬ n < 24 := by omega
  by_cases two : n < 2 ^ 16
  · rw [info, if_neg large, if_neg one, if_pos two]
    exact two
  by_cases four : n < 2 ^ 32
  · rw [info, if_neg large, if_neg one, if_neg two, if_pos four]
    exact four
  · rw [info, if_neg large, if_neg one, if_neg two, if_neg four]
    exact fits

theorem info_small {n : Nat} (small : info n < 24) : info n = n := by
  unfold info at small ⊢
  split
  · rfl
  · split at small
    · omega
    split at small
    · omega
    split at small
    · omega
    split at small <;> omega

theorem head_length (major n : Nat) : (head major n).length = widthOf (info n) + 1 := by
  rw [head, List.length_cons, bigEndian_length]

theorem initial_toNat {major n : Nat} (small : major < 8) :
    (UInt8.ofNat (major * 32 + info n)).toNat = major * 32 + info n := by
  have bound := info_lt n
  rw [UInt8.toNat_ofNat']
  omega

/-- A head is read in one way, whatever follows it. -/
theorem head_inj {major major' m n : Nat} {r s : List UInt8} (hmajor : major < 8)
    (hmajor' : major' < 8) (hm : m < 2 ^ 64) (hn : n < 2 ^ 64)
    (same : head major m ++ r = head major' n ++ s) : major = major' ∧ m = n ∧ r = s := by
  obtain ⟨first, rest⟩ := List.cons.inj same
  have bytes := congrArg UInt8.toNat first
  rw [initial_toNat hmajor, initial_toNat hmajor'] at bytes
  have bound := info_lt m
  have bound' := info_lt n
  have majors : major = major' := by omega
  have infos : info m = info n := by omega
  rw [infos] at rest
  obtain ⟨numbers, tails⟩ := List.append_inj rest (by rw [bigEndian_length, bigEndian_length])
  refine ⟨majors, ?_, tails⟩
  by_cases small : info n < 24
  · have first_ := info_small (infos ▸ small : info m < 24)
    have second := info_small small
    omega
  · apply bigEndian_inj (infos ▸ lt_of_info hm (by omega)) (lt_of_info hn (by omega)) numbers

inductive Item where
  | uint (n : Nat)
  /-- The number `-1 - n`. -/
  | nint (n : Nat)
  | bstr (bs : List UInt8)
  /-- Text, as its bytes in UTF-8. -/
  | tstr (bs : List UInt8)
  | array (xs : List Item)
  | map (kvs : List (Item × Item))
  | tag (n : Nat) (x : Item)
  | simple (n : Nat)

namespace Item

mutual
def bytes : Item → List UInt8
  | .uint n => head 0 n
  | .nint n => head 1 n
  | .bstr bs => head 2 bs.length ++ bs
  | .tstr bs => head 3 bs.length ++ bs
  | .array xs => head 4 xs.length ++ bytesAll xs
  | .map kvs => head 5 kvs.length ++ bytesEntries kvs
  | .tag n x => head 6 n ++ bytes x
  | .simple n => head 7 n
termination_by structural x => x

def bytesAll : List Item → List UInt8
  | [] => []
  | x :: xs => bytes x ++ bytesAll xs
termination_by structural xs => xs

def bytesEntries : List (Item × Item) → List UInt8
  | [] => []
  | (k, v) :: rest => bytes k ++ (bytes v ++ bytesEntries rest)
termination_by structural kvs => kvs
end

mutual
/-- Every argument fits in a head, and simple values are the ones in its first byte. -/
def Fits : Item → Prop
  | .uint n => n < 2 ^ 64
  | .nint n => n < 2 ^ 64
  | .bstr bs => bs.length < 2 ^ 64
  | .tstr bs => bs.length < 2 ^ 64
  | .array xs => xs.length < 2 ^ 64 ∧ FitsAll xs
  | .map kvs => kvs.length < 2 ^ 64 ∧ FitsEntries kvs
  | .tag n x => n < 2 ^ 64 ∧ Fits x
  | .simple n => n < 24
termination_by structural x => x

def FitsAll : List Item → Prop
  | [] => True
  | x :: xs => Fits x ∧ FitsAll xs
termination_by structural xs => xs

def FitsEntries : List (Item × Item) → Prop
  | [] => True
  | (k, v) :: rest => Fits k ∧ Fits v ∧ FitsEntries rest
termination_by structural kvs => kvs
end

def major : Item → Nat
  | .uint _ => 0
  | .nint _ => 1
  | .bstr _ => 2
  | .tstr _ => 3
  | .array _ => 4
  | .map _ => 5
  | .tag _ _ => 6
  | .simple _ => 7

def argument : Item → Nat
  | .uint n => n
  | .nint n => n
  | .bstr bs => bs.length
  | .tstr bs => bs.length
  | .array xs => xs.length
  | .map kvs => kvs.length
  | .tag n _ => n
  | .simple n => n

/-- What follows the head. -/
def body : Item → List UInt8
  | .uint _ => []
  | .nint _ => []
  | .bstr bs => bs
  | .tstr bs => bs
  | .array xs => bytesAll xs
  | .map kvs => bytesEntries kvs
  | .tag _ x => bytes x
  | .simple _ => []

theorem bytes_eq (x : Item) : x.bytes = head x.major x.argument ++ x.body := by
  cases x <;> simp [bytes, major, argument, body]

theorem major_lt (x : Item) : x.major < 8 := by
  cases x <;> simp [major]

theorem argument_lt {x : Item} (fits : x.Fits) : x.argument < 2 ^ 64 := by
  cases x with
  | array xs => exact fits.1
  | map kvs => exact fits.1
  | tag n y => exact fits.1
  | simple n =>
    have small : n < 24 := fits
    simp only [argument]
    omega
  | _ => exact fits

theorem bytes_pos (x : Item) : 0 < x.bytes.length := by
  rw [bytes_eq, List.length_append, head_length]
  omega

/-- Two items that begin one byte string have the same head, and their bodies go on alike. -/
theorem heads_eq {x y : Item} {r s : List UInt8} (hx : x.Fits) (hy : y.Fits)
    (same : x.bytes ++ r = y.bytes ++ s) :
    x.major = y.major ∧ x.argument = y.argument ∧ x.body ++ r = y.body ++ s := by
  rw [bytes_eq x, bytes_eq y, List.append_assoc, List.append_assoc] at same
  exact head_inj x.major_lt y.major_lt (argument_lt hx) (argument_lt hy) same

mutual
/-- An item is read in one way, whatever follows it. -/
theorem bytes_inj : ∀ (x y : Item) {r s : List UInt8}, x.Fits → y.Fits →
    x.bytes ++ r = y.bytes ++ s → x = y ∧ r = s
  | .uint m, y, r, s, hx, hy, same => by
    obtain ⟨majors, arguments, bodies⟩ := heads_eq hx hy same
    cases y <;> simp_all [major, argument, body]
  | .nint m, y, r, s, hx, hy, same => by
    obtain ⟨majors, arguments, bodies⟩ := heads_eq hx hy same
    cases y <;> simp_all [major, argument, body]
  | .simple m, y, r, s, hx, hy, same => by
    obtain ⟨majors, arguments, bodies⟩ := heads_eq hx hy same
    cases y <;> simp_all [major, argument, body]
  | .bstr a, y, r, s, hx, hy, same => by
    obtain ⟨majors, arguments, bodies⟩ := heads_eq hx hy same
    cases y with
    | bstr b =>
      obtain ⟨rfl, rfl⟩ := List.append_inj bodies arguments
      exact ⟨rfl, rfl⟩
    | _ => simp [major] at majors
  | .tstr a, y, r, s, hx, hy, same => by
    obtain ⟨majors, arguments, bodies⟩ := heads_eq hx hy same
    cases y with
    | tstr b =>
      obtain ⟨rfl, rfl⟩ := List.append_inj bodies arguments
      exact ⟨rfl, rfl⟩
    | _ => simp [major] at majors
  | .array xs, y, r, s, hx, hy, same => by
    obtain ⟨majors, arguments, bodies⟩ := heads_eq hx hy same
    cases y with
    | array ys =>
      obtain ⟨rfl, rfl⟩ := bytesAll_inj xs ys hx.2 hy.2 arguments bodies
      exact ⟨rfl, rfl⟩
    | _ => simp [major] at majors
  | .map kvs, y, r, s, hx, hy, same => by
    obtain ⟨majors, arguments, bodies⟩ := heads_eq hx hy same
    cases y with
    | map kvs' =>
      obtain ⟨rfl, rfl⟩ := bytesEntries_inj kvs kvs' hx.2 hy.2 arguments bodies
      exact ⟨rfl, rfl⟩
    | _ => simp [major] at majors
  | .tag m x, y, r, s, hx, hy, same => by
    obtain ⟨majors, arguments, bodies⟩ := heads_eq hx hy same
    cases y with
    | tag n x' =>
      obtain ⟨rfl, rfl⟩ := bytes_inj x x' hx.2 hy.2 bodies
      have tags : m = n := arguments
      exact ⟨by rw [tags], rfl⟩
    | _ => simp [major] at majors
termination_by structural x => x

theorem bytesAll_inj : ∀ (xs ys : List Item) {r s : List UInt8}, FitsAll xs → FitsAll ys →
    xs.length = ys.length → bytesAll xs ++ r = bytesAll ys ++ s → xs = ys ∧ r = s
  | [], [], r, s, _, _, _, same => ⟨rfl, same⟩
  | [], _ :: _, _, _, _, _, counts, _ => by simp at counts
  | _ :: _, [], _, _, _, _, counts, _ => by simp at counts
  | x :: xs, y :: ys, r, s, hx, hy, counts, same => by
    rw [bytesAll, bytesAll, List.append_assoc, List.append_assoc] at same
    obtain ⟨rfl, rest⟩ := bytes_inj x y hx.1 hy.1 same
    obtain ⟨rfl, rfl⟩ := bytesAll_inj xs ys hx.2 hy.2 (Nat.succ.inj counts) rest
    exact ⟨rfl, rfl⟩
termination_by structural xs => xs

theorem bytesEntries_inj : ∀ (xs ys : List (Item × Item)) {r s : List UInt8}, FitsEntries xs →
    FitsEntries ys → xs.length = ys.length → bytesEntries xs ++ r = bytesEntries ys ++ s →
    xs = ys ∧ r = s
  | [], [], r, s, _, _, _, same => ⟨rfl, same⟩
  | [], _ :: _, _, _, _, _, counts, _ => by simp at counts
  | _ :: _, [], _, _, _, _, counts, _ => by simp at counts
  | (k, v) :: xs, (k', v') :: ys, r, s, hx, hy, counts, same => by
    simp only [bytesEntries, List.append_assoc] at same
    obtain ⟨rfl, values⟩ := bytes_inj k k' hx.1 hy.1 same
    obtain ⟨rfl, rest⟩ := bytes_inj v v' hx.2.1 hy.2.1 values
    obtain ⟨rfl, rfl⟩ := bytesEntries_inj xs ys hx.2.2 hy.2.2 (Nat.succ.inj counts) rest
    exact ⟨rfl, rfl⟩
termination_by structural xs => xs
end

end Item

end CborItems
