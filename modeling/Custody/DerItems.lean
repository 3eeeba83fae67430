import Custody.CborItems
import Mathlib.Data.Nat.Size
import Mathlib.Tactic.Ring

/-!
# Shortest lengths and integers

Lengths of the distinguished encoding rules have a short form below 128 and otherwise
a count of octets before as few octets as the number needs. Integers have as few octets
as leave the first bit clear. Both are read off their octets in one way.
-/

namespace DerItems

open CborItems

def width (n : ℕ) : ℕ := (n.size + 7) / 8

def shortest (n : ℕ) : List UInt8 := bigEndian (width n) n

theorem width_le_iff {n k : ℕ} : width n ≤ k ↔ n < 256 ^ k := by
  have power : 256 ^ k = 2 ^ (8 * k) := (pow_mul 2 8 k).symm
  rw [power, ← Nat.size_le, width]
  omega

theorem width_zero : width 0 = 0 := by
  rw [width, Nat.size_zero]

theorem shortest_length (n : ℕ) : (shortest n).length = width n := bigEndian_length _ _

theorem ofBigEndian_shortest (n : ℕ) : ofBigEndian (shortest n) = n :=
  ofBigEndian_bigEndian (width_le_iff.mp le_rfl)

theorem ofBigEndian_cons (b : UInt8) (bs : List UInt8) :
    ofBigEndian (b :: bs) = b.toNat * 256 ^ bs.length + ofBigEndian bs := by
  induction bs using List.reverseRecOn with
  | nil => simp [ofBigEndian]
  | append_singleton bs c ih =>
    rw [← List.cons_append, ofBigEndian_append, ofBigEndian_append, ih, List.length_append,
      List.length_singleton, pow_succ]
    ring

theorem ofBigEndian_zero_cons (bs : List UInt8) : ofBigEndian (0 :: bs) = ofBigEndian bs := by
  rw [ofBigEndian_cons]
  simp

/-- A number has the width of its octets when the first of them is not zero. -/
theorem width_ofBigEndian {b : UInt8} {bs : List UInt8} (first : b ≠ 0) :
    width (ofBigEndian (b :: bs)) = bs.length + 1 := by
  have most : width (ofBigEndian (b :: bs)) ≤ (b :: bs).length :=
    width_le_iff.mpr (ofBigEndian_lt _)
  have least : ¬ width (ofBigEndian (b :: bs)) ≤ bs.length := by
    rw [width_le_iff, ofBigEndian_cons, not_lt]
    have positive : 1 ≤ b.toNat := Nat.one_le_iff_ne_zero.mpr fun zero =>
      first (UInt8.toNat_inj.mp zero)
    exact (Nat.le_mul_of_pos_left _ positive).trans (Nat.le_add_right _ _)
  rw [List.length_cons] at most
  omega

theorem shortest_ofBigEndian {b : UInt8} {bs : List UInt8} (first : b ≠ 0) :
    shortest (ofBigEndian (b :: bs)) = b :: bs := by
  rw [shortest, width_ofBigEndian first]
  exact bigEndian_ofBigEndian (b :: bs)

/-- The first octet is not zero: one less would not be enough. -/
theorem shortest_cons {n : ℕ} (positive : n ≠ 0) :
    ∃ b bs, shortest n = b :: bs ∧ b ≠ 0 ∧ width n = bs.length + 1 := by
  have length := shortest_length n
  have value := ofBigEndian_shortest n
  cases shape : shortest n with
  | nil =>
    rw [shape] at value
    exact absurd value.symm positive
  | cons b bs =>
    rw [shape] at length value
    refine ⟨b, bs, rfl, ?_, length.symm⟩
    rintro rfl
    rw [ofBigEndian_zero_cons] at value
    have fits : n < 256 ^ bs.length := value ▸ ofBigEndian_lt bs
    have less := width_le_iff.mpr fits
    rw [List.length_cons] at length
    omega

def lengthOctets (n : ℕ) : List UInt8 :=
  if n < 128 then [UInt8.ofNat n] else UInt8.ofNat (128 + width n) :: shortest n

theorem lengthOctets_short {n : ℕ} (small : n < 128) : lengthOctets n = [UInt8.ofNat n] :=
  if_pos small

theorem lengthOctets_long {n : ℕ} (large : ¬ n < 128) :
    lengthOctets n = UInt8.ofNat (128 + width n) :: shortest n :=
  if_neg large

/-- The longer form of a number from 128 on is its length. -/
theorem lengthOctets_ofBigEndian {b : UInt8} {bs : List UInt8} (first : b ≠ 0)
    (large : ¬ ofBigEndian (b :: bs) < 128) :
    lengthOctets (ofBigEndian (b :: bs)) = UInt8.ofNat (128 + (bs.length + 1)) :: b :: bs := by
  rw [lengthOctets_long large, width_ofBigEndian first, shortest_ofBigEndian first]

/-- The contents of an integer: a zero stands before a first octet with its high bit set. -/
def contents (n : ℕ) : List UInt8 :=
  let octets := bigEndian (max 1 (width n)) n
  match octets with
  | [] => []
  | b :: bs => if b.toNat < 128 then b :: bs else 0 :: b :: bs

/-- Contents without a needless zero whose first bit is clear. -/
def MinimalContents : List UInt8 → Prop
  | [] => False
  | [b] => b.toNat < 128
  | b :: c :: _ => b.toNat < 128 ∧ (b = 0 → 128 ≤ c.toNat)

instance : DecidablePred MinimalContents
  | [] => .isFalse id
  | [b] => inferInstanceAs (Decidable (b.toNat < 128))
  | b :: c :: _ => inferInstanceAs (Decidable (b.toNat < 128 ∧ (b = 0 → 128 ≤ c.toNat)))

theorem contents_zero : contents 0 = [0] := by
  rw [contents, width_zero]
  rfl

theorem contents_cons {n : ℕ} (positive : n ≠ 0) : ∃ b bs, shortest n = b :: bs ∧ b ≠ 0 ∧
    contents n = if b.toNat < 128 then b :: bs else 0 :: b :: bs := by
  obtain ⟨b, bs, shape, first, size⟩ := shortest_cons positive
  have wide : max 1 (width n) = width n := by omega
  have octets : bigEndian (max 1 (width n)) n = b :: bs := by rw [wide, ← shape, shortest]
  exact ⟨b, bs, shape, first, by rw [contents, octets]⟩

theorem ofBigEndian_contents (n : ℕ) : ofBigEndian (contents n) = n := by
  by_cases zero : n = 0
  · rw [zero, contents_zero]
    rfl
  · obtain ⟨b, bs, shape, -, octets⟩ := contents_cons zero
    rw [octets]
    split
    · rw [← shape, ofBigEndian_shortest]
    · rw [ofBigEndian_zero_cons, ← shape, ofBigEndian_shortest]

theorem contents_minimal (n : ℕ) : MinimalContents (contents n) := by
  by_cases zero : n = 0
  · rw [zero, contents_zero]
    decide
  · obtain ⟨b, bs, -, first, octets⟩ := contents_cons zero
    rw [octets]
    split
    next clear =>
      cases bs with
      | nil => exact clear
      | cons c rest => exact ⟨clear, fun none_ => absurd none_ first⟩
    next set => exact ⟨by decide, fun _ => not_lt.mp set⟩

/-- MinimalContents contents are those of the number they are read as. -/
theorem contents_ofBigEndian {bs : List UInt8} (minimal : MinimalContents bs) :
    contents (ofBigEndian bs) = bs := by
  have written : ∀ {b : UInt8} {rest : List UInt8}, b ≠ 0 →
      contents (ofBigEndian (b :: rest)) = if b.toNat < 128 then b :: rest else 0 :: b :: rest := by
    intro b rest first
    have octets : bigEndian (max 1 (width (ofBigEndian (b :: rest)))) (ofBigEndian (b :: rest)) =
        b :: rest := by
      have wide : max 1 (rest.length + 1) = (b :: rest).length := by simp
      rw [width_ofBigEndian first, wide, bigEndian_ofBigEndian]
    rw [contents, octets]
  cases bs with
  | nil => exact minimal.elim
  | cons b rest =>
    by_cases zero : b = 0
    · subst zero
      rw [ofBigEndian_zero_cons]
      cases rest with
      | nil => exact contents_zero
      | cons c rest =>
        have set : 128 ≤ c.toNat := minimal.2 rfl
        have first : c ≠ 0 := by
          rintro rfl
          exact absurd set (by decide)
        rw [written first, if_neg (not_lt.mpr set)]
    · have clear : b.toNat < 128 := by
        cases rest with
        | nil => exact minimal
        | cons c rest => exact minimal.1
      rw [written zero, if_pos clear]

theorem contents_length {n k : ℕ} (fits : n < 128 * 256 ^ k) : (contents n).length ≤ k + 1 := by
  by_cases zero : n = 0
  · rw [zero, contents_zero, List.length_singleton]
    omega
  · obtain ⟨b, bs, shape, first, octets⟩ := contents_cons zero
    have value := ofBigEndian_shortest n
    rw [shape, ofBigEndian_cons] at value
    have longest : ∀ j, k ≤ j → 128 * 256 ^ k ≤ 128 * 256 ^ j := fun j le =>
      Nat.mul_le_mul_left 128 (Nat.pow_le_pow_right (by decide) le)
    have positive : 1 ≤ b.toNat := Nat.one_le_iff_ne_zero.mpr fun none_ =>
      first (UInt8.toNat_inj.mp none_)
    rw [octets]
    split
    · -- one octet more would be worth more than the number
      by_contra long
      rw [List.length_cons] at long
      have more := longest (bs.length - 1) (by omega)
      have split_ : 256 ^ bs.length = 256 ^ (bs.length - 1) * 256 := by
        rw [← pow_succ]
        congr 1
        omega
      have least : 1 * 256 ^ bs.length ≤ b.toNat * 256 ^ bs.length :=
        Nat.mul_le_mul_right _ positive
      omega
    next set =>
      by_contra long
      rw [List.length_cons, List.length_cons] at long
      have more := longest bs.length (by omega)
      have least : 128 * 256 ^ bs.length ≤ b.toNat * 256 ^ bs.length :=
        Nat.mul_le_mul_right _ (not_lt.mp set)
      omega

end DerItems
