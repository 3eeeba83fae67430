import Custody.Ed25519
import Mathlib.NumberTheory.LegendreSymbol.Basic
import Mathlib.Tactic.NormNum.Prime

/-!
# The field of the curve

The modulus is prime, by Lucas's test down to primes that are small. In its field
`-1` has a root and the curve's constant has none.
-/

namespace PrimeField

open ModularPowers TwistedEdwards Ed25519

def smallPrimes : List ℕ :=
  [2, 3, 5, 7, 13, 19, 31, 47, 107, 127, 223, 353, 2437, 4153, 57467, 65147, 75707, 132049, 430751,
    569003, 1923133, 8574133]

theorem smallPrimes_prime : ∀ q ∈ smallPrimes, q.Prime := by
  simp only [smallPrimes, List.forall_mem_cons, List.not_mem_nil, false_imp_iff, implies_true,
    and_true]
  norm_num

def certificates : List Certificate :=
  [{ number := 2773320623, base := 5, factors := [2, 2437, 569003] },
   { number := 72106336199, base := 7, factors := [2, 13, 2773320623] },
   { number := 1919519569386763, base := 2, factors := [2, 3, 7, 19, 47, 47, 127, 8574133] },
   { number := 31757755568855353, base := 10,
     factors := [2, 2, 2, 3, 31, 107, 223, 4153, 430751] },
   { number := 75445702479781427272750846543864801, base := 7,
     factors := [2, 2, 2, 2, 2, 3, 3, 5, 5, 75707, 72106336199, 1919519569386763] },
   { number := 74058212732561358302231226437062788676166966415465897661863160754340907, base := 2,
     factors := [2, 3, 353, 57467, 132049, 1923133, 31757755568855353,
       75445702479781427272750846543864801] },
   { number := P, base := 2,
     factors := [2, 2, 3, 65147,
       74058212732561358302231226437062788676166966415465897661863160754340907] }]

theorem certificates_certified : Certified smallPrimes certificates := by decide +kernel

theorem P_prime : Nat.Prime P := by
  have last : certificates.getLast (by simp [certificates]) ∈ certificates := List.getLast_mem _
  exact prime_of_certified smallPrimes_prime certificates_certified _ last

instance : Fact (Nat.Prime P) := ⟨P_prime⟩

abbrev Residue : Type := ZMod P

theorem two_le_P : 2 ≤ P := P_prime.two_le

theorem P_eq : P = 8 * (P / 8) + 5 := by decide

theorem one_lt_P : (1 : ℤ) < P := by
  have two := two_le_P
  omega

/-- A power computed to be the modulus less one is `-1`. -/
theorem eq_neg_one {n : ℤ} (h : (n + 1) % P = 0) : (n : Residue) = -1 := by
  have zero : ((n + 1 : ℤ) : Residue) = 0 := by
    rw [ZMod.intCast_zmod_eq_zero_iff_dvd]
    exact Int.dvd_of_emod_eq_zero h
  push_cast at zero
  linear_combination zero

theorem I_sq : (I : Residue) ^ 2 = -1 := by
  have square : (I * I + 1) % P = 0 := by decide +kernel
  have same := eq_neg_one square
  push_cast at same
  linear_combination same

theorem two_ne : (2 : Residue) ≠ 0 := by
  intro zero
  have divides := (ZMod.intCast_zmod_eq_zero_iff_dvd 2 P).mp (by exact_mod_cast zero)
  have small := Int.le_of_dvd (by omega) divides
  have size := P_eq
  have large : 0 < P / 8 := by decide
  omega

theorem D_nonsquare : ¬ IsSquare (D : Residue) := by
  have half : powMod D (P / 2) P ≠ 1 := by decide +kernel
  have nonzero : (D : Residue) ≠ 0 := by
    intro zero
    rw [ZMod.intCast_zmod_eq_zero_iff_dvd] at zero
    have other : D % P ≠ 0 := by decide +kernel
    exact other (Int.emod_eq_zero_of_dvd zero)
  rw [ZMod.euler_criterion P nonzero, pow_eq_one_iff two_le_P]
  exact half

/-- The curve of the signature scheme. -/
def curve : Curve Residue where
  d := (D : Residue)
  root := (I : Residue)
  root_sq := I_sq
  nonsquare := D_nonsquare
  two_ne := two_ne

theorem inv_cast (x : ℤ) : ((inv x : ℤ) : Residue) = (x : Residue)⁻¹ := by
  have exponent : P - 2 + 1 = P - 1 := by
    have two := two_le_P
    omega
  rw [inv, powMod_cast]
  by_cases zero : (x : Residue) = 0
  · have positive : P - 2 ≠ 0 := by decide
    rw [zero, zero_pow positive, inv_zero]
  · refine eq_inv_of_mul_eq_one_left ?_
    rw [← pow_succ, exponent]
    exact ZMod.pow_card_sub_one_eq_one zero

/-- The power that is taken for a root squares to the number or to its negative. -/
theorem root_pow {a : Residue} (square : IsSquare a) :
    (a ^ ((P + 3) / 8)) ^ 2 = a ∨ (a ^ ((P + 3) / 8)) ^ 2 = -a := by
  by_cases zero : a = 0
  · have positive : (P + 3) / 8 ≠ 0 := by decide
    rw [zero, zero_pow positive]
    left
    ring
  · have whole := (ZMod.euler_criterion P zero).mp square
    have shape := P_eq
    have half : P / 2 = (2 * (P / 8) + 1) * 2 := by omega
    have exponent : (P + 3) / 8 * 2 = 1 + (2 * (P / 8) + 1) := by omega
    have unit : a ^ (2 * (P / 8) + 1) * a ^ (2 * (P / 8) + 1) = 1 := by
      rw [← sq, ← pow_mul, ← half, whole]
    rw [← pow_mul, exponent, pow_add, pow_one]
    rcases mul_self_eq_one_iff.mp unit with plus | minus
    · left
      rw [plus, mul_one]
    · right
      rw [minus, mul_neg, mul_one]

end PrimeField
