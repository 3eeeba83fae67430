import Mathlib.Data.List.Prime
import Mathlib.NumberTheory.LucasPrimality

/-!
# Modular powers

Powers modulo a number by squaring, and primality by Lucas's test on such powers.
-/

namespace ModularPowers

/-- Squaring and multiplying over the low bits of the exponent. -/
def powBits (m : ℕ) : ℕ → ℤ → ℕ → ℤ
  | 0, _, _ => 1 % m
  | bits + 1, b, e =>
    let r := powBits m bits (b * b % m) (e / 2)
    if e % 2 = 1 then r * b % m else r

/-- `b ^ e % m`. -/
def powMod (b : ℤ) (e m : ℕ) : ℤ := powBits m (e.log2 + 1) b e

theorem powBits_reduced (m bits : ℕ) (b : ℤ) (e : ℕ) :
    powBits m bits b e % m = powBits m bits b e := by
  induction bits generalizing b e with
  | zero => rw [powBits, Int.emod_emod]
  | succ bits ih =>
    rw [powBits]
    split
    · rw [Int.emod_emod]
    · exact ih _ _

theorem powBits_modEq (m : ℕ) {bits : ℕ} (b : ℤ) {e : ℕ} (fits : e < 2 ^ bits) :
    powBits m bits b e ≡ b ^ e [ZMOD m] := by
  induction bits generalizing b e with
  | zero =>
    obtain rfl : e = 0 := by simpa using fits
    rw [powBits, pow_zero]
    exact Int.mod_modEq 1 m
  | succ bits ih =>
    have half : e / 2 < 2 ^ bits := by
      rw [pow_succ] at fits
      omega
    have square : powBits m bits (b * b % m) (e / 2) ≡ (b * b) ^ (e / 2) [ZMOD m] :=
      (ih _ half).trans ((Int.mod_modEq _ _).pow _)
    rw [powBits]
    split
    next odd =>
      have whole : b ^ e = (b * b) ^ (e / 2) * b := by
        rw [← sq, ← pow_mul, ← pow_succ, ← odd, Nat.div_add_mod]
      rw [whole]
      exact (Int.mod_modEq _ _).trans (square.mul_right b)
    next even =>
      have whole : b ^ e = (b * b) ^ (e / 2) := by
        have none_ : e % 2 = 0 := by omega
        rw [← sq, ← pow_mul, ← Nat.add_zero (2 * (e / 2)), ← none_, Nat.div_add_mod]
      rw [whole]
      exact square

theorem powMod_eq (b : ℤ) (e m : ℕ) : powMod b e m = b ^ e % m := by
  have same := powBits_modEq m b (Nat.lt_log2_self (n := e))
  rw [powMod, ← powBits_reduced]
  exact same

theorem powMod_cast (b : ℤ) (e m : ℕ) : ((powMod b e m : ℤ) : ZMod m) = (b : ZMod m) ^ e := by
  rw [powMod_eq, ZMod.intCast_mod, Int.cast_pow]

/-- A power is one in the residue ring when the computed power is. -/
theorem pow_eq_one_iff {m : ℕ} (two : 2 ≤ m) (b : ℤ) (e : ℕ) :
    (b : ZMod m) ^ e = 1 ↔ powMod b e m = 1 := by
  have one : (1 : ℤ) % m = 1 := by
    rw [Int.emod_eq_of_lt (by omega)]
    omega
  have same := ZMod.intCast_eq_intCast_iff' (b ^ e) 1 m
  rw [one, ← powMod_eq] at same
  rw [← same]
  push_cast
  rfl

/-- Lucas's test: a base whose order is `n - 1`, given the prime factors of `n - 1`. -/
theorem prime_of_powers {n : ℕ} (base : ℤ) (factors : List ℕ) (two : 2 ≤ n)
    (primes : ∀ q ∈ factors, q.Prime) (product : factors.prod = n - 1)
    (whole : powMod base (n - 1) n = 1)
    (parts : ∀ q ∈ factors, powMod base ((n - 1) / q) n ≠ 1) : n.Prime := by
  refine lucas_primality n base ((pow_eq_one_iff two _ _).mpr whole) ?_
  intro q prime divides
  rw [← product] at divides
  obtain ⟨r, listed, divides⟩ := (Prime.dvd_prod_iff prime.prime).mp divides
  obtain rfl := (Nat.prime_dvd_prime_iff_eq prime (primes r listed)).mp divides
  rw [ne_eq, pow_eq_one_iff two]
  exact parts q listed

/-- A number for Lucas's test, with a base and the prime factors of the number less one. -/
structure Certificate where
  number : ℕ
  base : ℤ
  factors : List ℕ

/-- The base has the order that the test asks for. -/
def Certificate.Holds (c : Certificate) : Prop :=
  2 ≤ c.number ∧ c.factors.prod = c.number - 1 ∧ powMod c.base (c.number - 1) c.number = 1 ∧
    ∀ q ∈ c.factors, powMod c.base ((c.number - 1) / q) c.number ≠ 1

instance (c : Certificate) : Decidable c.Holds := inferInstanceAs (Decidable (_ ∧ _))

/-- Every factor of a certificate is known or the number of an earlier one. -/
def Certified : List ℕ → List Certificate → Prop
  | _, [] => True
  | known, c :: rest =>
    (∀ q ∈ c.factors, q ∈ known) ∧ c.Holds ∧ Certified (c.number :: known) rest

instance decidableCertified : (known : List ℕ) → (certificates : List Certificate) →
    Decidable (Certified known certificates)
  | _, [] => .isTrue trivial
  | known, c :: rest =>
    have := decidableCertified (c.number :: known) rest
    inferInstanceAs (Decidable (_ ∧ _ ∧ _))

theorem prime_of_certified {known : List ℕ} {certificates : List Certificate}
    (primes : ∀ q ∈ known, q.Prime) (certified : Certified known certificates) :
    ∀ c ∈ certificates, c.number.Prime := by
  induction certificates generalizing known with
  | nil =>
    intro c listed
    cases listed
  | cons first rest ih =>
    obtain ⟨factors, ⟨two, product, whole, parts⟩, certified⟩ := certified
    have prime : first.number.Prime :=
      prime_of_powers first.base first.factors two (fun q listed => primes q (factors q listed))
        product whole parts
    rw [List.forall_mem_cons]
    exact ⟨prime, ih (List.forall_mem_cons.mpr ⟨prime, primes⟩) certified⟩

end ModularPowers
