import Custody.Commitments
import Custody.ScalarMultiplication

/-!
# Verifying what was signed

The base point has the order by which scalars are reduced, so a signature satisfies the
equation that verification checks. Verification returns on any bytes.
-/

namespace SignatureVerification

open HexBytes CborItems Commitments TwistedEdwards Ed25519 PrimeField PointCompression
  ScalarMultiplication

/-- The loop of `mul` for numbers of at most so many bits. -/
def mulBits : ℕ → Extended ℤ → Extended ℤ → ℕ → Extended ℤ
  | 0, q, _, _ => q
  | bits + 1, q, p, n =>
    mulBits bits (if n &&& 1 = 1 then add q p else q) (add p p) (n >>> 1)

theorem mulLoop_bits (bits : ℕ) : ∀ {n : ℕ} (q p : Extended ℤ), n < 2 ^ bits →
    mulLoop q p n = mulBits bits q p n := by
  induction bits with
  | zero =>
    intro n q p fits
    obtain rfl : n = 0 := by simpa using fits
    rw [mulLoop, if_pos rfl, mulBits]
  | succ bits ih =>
    intro n q p fits
    have half : n >>> 1 < 2 ^ bits := by
      rw [Nat.shiftRight_one]
      rw [pow_succ] at fits
      omega
    rw [mulBits, ← ih _ _ half]
    by_cases zero : n = 0
    · subst zero
      rw [mulLoop, if_pos rfl]
      simp [mulLoop]
    · rw [mulLoop, if_neg zero]

theorem B_onCurve : OnCurve B :=
  ⟨by decide +kernel, by decide +kernel, by decide +kernel⟩

/-- Loading the module finds a root for the base point. -/
theorem xrecover_BY : (xrecover BY).isSome = true := by decide +kernel

theorem B_order : equal (mul B L) ident = true := by
  have fits : L < 2 ^ 253 := by decide
  rw [mul, mulLoop_bits 253 _ _ fits]
  decide +kernel

/-- The base point of the scheme, whose multiples repeat after `L`. -/
theorem base_point : ∃ base : Point curve, (residues B).Represents base ∧ L • base = 0 := by
  obtain ⟨base, represents⟩ := onCurve_iff.mp B_onCurve
  have order := (equal_iff (mul_represents represents L) ident_represents).mp B_order
  exact ⟨base, represents, order⟩

theorem toBytes_scalar {n : ℕ} (small : n < L) :
    ∃ s, toBytes 32 n = .ok s ∧ s.length = 32 ∧ fromBytes s = n := by
  have bound : L < 256 ^ 32 := by decide
  have fits : n < 256 ^ 32 := by omega
  refine ⟨_, if_pos fits, ?_, fromBytes_bytes fits⟩
  rw [List.length_reverse, bigEndian_length]

variable (H : Sha512)

/-- The equation of a signature: what is checked when its parts are read. -/
theorem equation_holds {base : Point curve} (represents : (residues B).Represents base)
    (order : L • base = 0) (a r h : ℕ) :
    equal (mul B ((r + h * a) % L))
      (add (coordinates (r • base)) (mul (coordinates (a • base)) h)) = true := by
  have right := add_represents (coordinates_represent (r • base))
    (mul_represents (coordinates_represent (a • base)) h)
  rw [equal_iff (mul_represents represents _) right, ← nsmul_eq_mod_nsmul _ order, add_smul,
    mul_smul]

theorem publicKey_returns {base : Point curve} (represents : (residues B).Represents base)
    (seed : Bytes) : ∃ pub, purePublicKey H seed = .ok pub ∧ pub.length = 32 ∧
      decode pub = some (coordinates ((expand H seed).1 • base)) :=
  encode_returns (mul_represents represents _)

/-- The nonce and the challenge of a signature, and the scalar made of them. -/
def nonce (seed msg : Bytes) : ℕ := fromBytes (H.digest ((expand H seed).2 ++ msg)) % L

def challenge (commitment pub msg : Bytes) : ℕ :=
  fromBytes (H.digest (commitment ++ pub ++ msg)) % L

theorem pureSign_made {seed msg pub commitment s : Bytes}
    (published : purePublicKey H seed = .ok pub)
    (committed : encode (mul B (nonce H seed msg)) = .ok commitment)
    (written : toBytes 32 ((nonce H seed msg + challenge H commitment pub msg * (expand H seed).1)
      % L) = .ok s) :
    pureSign H seed msg = .ok (commitment ++ s) := by
  have keyed : encode (mul B (expand H seed).1) = .ok pub := published
  simp only [pureSign, keyed, bind, Except.bind]
  rw [nonce] at committed written
  simp only [committed]
  rw [challenge] at written
  simp only [written]
  rfl

/-- A signature verifies under the key of its seed. -/
theorem sign_verifies (seed msg : Bytes) : ∃ pub sig, purePublicKey H seed = .ok pub ∧
    pureSign H seed msg = .ok sig ∧ pureVerify H pub msg sig = .ok true := by
  obtain ⟨base, represents, order⟩ := base_point
  obtain ⟨pub, published, pubLength, pubRead⟩ := publicKey_returns H represents seed
  let a := (expand H seed).1
  let r := nonce H seed msg
  obtain ⟨commitment, committed, length, read⟩ := encode_returns (mul_represents represents r)
  let h := challenge H commitment pub msg
  have positive : 0 < L := by decide
  have small : (r + h * a) % L < L := Nat.mod_lt _ positive
  obtain ⟨s, written, sLength, scalar⟩ := toBytes_scalar small
  have signed := pureSign_made H published committed written
  refine ⟨pub, commitment ++ s, published, signed, ?_⟩
  have front : (commitment ++ s).take 32 = commitment := by
    rw [← length, List.take_left]
  have back : (commitment ++ s).drop 32 = s := by
    rw [← length, List.drop_left]
  have sizes : ¬ ((commitment ++ s).length ≠ 64 ∨ pub.length ≠ 32) := by
    rw [List.length_append, length, sLength, pubLength]
    decide
  have holds := equation_holds represents order a r h
  rw [pureVerify, if_neg sizes]
  simp only [front, back, pubRead, read, scalar, Option.isNone_some, Bool.false_eq_true, or_self,
    if_false]
  rw [if_neg (Nat.not_le.mpr small)]
  exact congrArg Except.ok holds

/-- Verification returns: coordinates are taken only of points that were read. -/
theorem verify_returns (pub msg sig : Bytes) : ∃ b, pureVerify H pub msg sig = .ok b := by
  rw [pureVerify]
  split
  · exact ⟨_, rfl⟩
  · simp only
    split
    · exact ⟨_, rfl⟩
    next there =>
      split
      · exact ⟨_, rfl⟩
      · cases key : decode pub with
        | none => simp [key] at there
        | some A =>
          cases commitment : decode (sig.take 32) with
          | none => simp [commitment] at there
          | some R => exact ⟨_, rfl⟩

/-- The scheme verifies what it signs, for any seed and message, and verification raises on
no bytes at all. -/
theorem pure_scheme_correct :
    (∀ seed msg : Bytes, (do
      let pub ← purePublicKey H seed
      let sig ← pureSign H seed msg
      pureVerify H pub msg sig) = .ok true) ∧
    ∀ pub msg sig : Bytes, ∃ b, pureVerify H pub msg sig = .ok b := by
  refine ⟨fun seed msg => ?_, verify_returns H⟩
  obtain ⟨pub, sig, published, signed, verified⟩ := sign_verifies H seed msg
  rw [published]
  change (pureSign H seed msg >>= fun sig => pureVerify H pub msg sig) = _
  rw [signed]
  exact verified

/-- The scheme and a hash, as the primitives that the rest of the program is built on. -/
def purePrimitives (sha256 : Bytes → Bytes) (sha256_length : ∀ b, (sha256 b).length = 32)
    (repr : PyValue.Value → String) : Primitives where
  sha256
  sha256_length
  publicKey seed := (purePublicKey H seed).toOption.getD []
  sign seed msg := (pureSign H seed msg).toOption.getD []
  verify pub msg sig := (pureVerify H pub msg sig).toOption.getD false
  verify_sign seed msg := by
    obtain ⟨pub, sig, published, signed, verified⟩ := sign_verifies H seed msg
    rw [published, signed]
    exact congrArg (fun x => x.toOption.getD false) verified
  repr

end SignatureVerification
