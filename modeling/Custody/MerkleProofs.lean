import Custody.HashTree
import Custody.Merkle

/-!
# What the Merkle proofs prove

The loops of both verifiers shift two numbers while they fold; they are the walks
of the general trees. Proofs that the tree makes are accepted, and an accepted
consistency proof determines the earlier root once its first hash has 32 bytes.
-/

namespace MerkleProofs

open PyValue HexBytes Commitments Merkle

variable (K : Primitives)

/-- `n & 1`, for any integer. -/
def odd (n : Int) : Bool := n % 2 = 1

/-- `while fn != 0 and not fn & 1: fn >>= 1; sn >>= 1`. -/
def dropZeros : Nat → Int × Int → Int × Int
  | 0, p => p
  | fuel + 1, (fn, sn) =>
    if fn ≠ 0 ∧ odd fn = false then dropZeros fuel (fn / 2, sn / 2) else (fn, sn)

structure Ascent where
  fn : Int
  sn : Int
  r : Bytes

def ascentStep (s : Ascent) (p : Bytes) : Ascent :=
  if odd s.fn ∨ s.fn = s.sn then
    let q := if odd s.fn then (s.fn, s.sn) else dropZeros s.fn.natAbs (s.fn, s.sn)
    { fn := q.1 / 2, sn := q.2 / 2, r := nodeHash K p s.r }
  else { fn := s.fn / 2, sn := s.sn / 2, r := nodeHash K s.r p }

def ascent : Ascent → List Bytes → Option Ascent
  | s, [] => some s
  | s, p :: rest => if s.sn = 0 then none else ascent (ascentStep K s p) rest

def verifyInclusion (leafIndex treeSize : Int) (leaf : Bytes) (proof : List Bytes)
    (root : Bytes) : Bool :=
  if leafIndex ≥ treeSize then false
  else
    match ascent K { fn := leafIndex, sn := treeSize - 1, r := leaf } proof with
    | none => false
    | some s => s.sn = 0 && s.r == root

/-- `inclusion_proof(index, size)`. -/
def inclusionProofAt (t : MerkleTree) (index size : Nat) : List Bytes :=
  inclusionPath K index (t.leaves.take size)

variable {K}

/-- Doubling ends at the largest power of two below the number. -/
theorem doubled_power {fuel k n t : Nat} (power : k = 2 ^ t) (below : k < n)
    (enough : n ≤ k * 2 + fuel) : ∃ s, doubled fuel k n = 2 ^ s ∧ 2 ^ s < n ∧ n ≤ 2 ^ (s + 1) := by
  induction fuel generalizing k t with
  | zero =>
    refine ⟨t, power, by omega, ?_⟩
    rw [Nat.pow_succ]
    omega
  | succ fuel ih =>
    rw [doubled]
    split
    next more =>
      have power' : k * 2 = 2 ^ (t + 1) := by rw [Nat.pow_succ, power]
      have positive := Nat.two_pow_pos t
      exact ih power' more (by omega)
    next less =>
      refine ⟨t, power, by omega, ?_⟩
      rw [Nat.pow_succ]
      omega

/-- The source's split is that of the abstract tree. -/
theorem largestPow2Lt_split {n : Nat} (two : 2 ≤ n) : largestPow2Lt n = HashTree.split n := by
  obtain ⟨s, eq, below, above⟩ := doubled_power (k := 1) (t := 0) (n := n) rfl (by omega)
    (show n ≤ 1 * 2 + n by omega)
  rw [largestPow2Lt, eq, HashTree.split_unique below above]

variable (K) in
/-- The root of the general tree over leaf hashes. -/
def rootOf (xs : List Bytes) : Bytes := HashTree.root (nodeHash K) (K.sha256 []) xs

theorem mthFuel_root {fuel : Nat} {xs : List Bytes} (enough : xs.length ≤ fuel) :
    mthFuel K fuel xs = rootOf K xs := by
  induction fuel generalizing xs with
  | zero =>
    obtain rfl := List.length_eq_zero_iff.mp (Nat.le_zero.mp enough)
    rw [mthFuel, rootOf, HashTree.root_nil]
  | succ fuel ih =>
    match xs, enough with
    | [], _ => rw [mthFuel, rootOf, HashTree.root_nil]
    | [x], _ => rw [mthFuel, rootOf, HashTree.root_single]
    | x :: y :: rest, enough =>
      have two : 2 ≤ (x :: y :: rest).length := by simp
      have positive := HashTree.split_pos (x :: y :: rest).length
      have smaller := HashTree.split_lt two
      have front : ((x :: y :: rest).take (HashTree.split (x :: y :: rest).length)).length ≤
          fuel := by
        rw [List.length_take]
        omega
      have back : ((x :: y :: rest).drop (HashTree.split (x :: y :: rest).length)).length ≤
          fuel := by
        rw [List.length_drop]
        omega
      have left := ih front
      have right := ih back
      have whole := HashTree.root_split (nodeHash K) (K.sha256 []) two
      have step : mthFuel K (fuel + 1) (x :: y :: rest) =
          nodeHash K (mthFuel K fuel
            ((x :: y :: rest).take (largestPow2Lt (x :: y :: rest).length)))
            (mthFuel K fuel ((x :: y :: rest).drop (largestPow2Lt (x :: y :: rest).length))) := rfl
      rw [step, largestPow2Lt_split two, left, right]
      exact whole.symm

/-- The source's tree hash is the root of the abstract tree. -/
theorem mth_root (xs : List Bytes) : mth K xs = rootOf K xs := mthFuel_root (Nat.le_refl _)

theorem inclusionPathFuel_path {fuel m : Nat} {xs : List Bytes} (enough : xs.length ≤ fuel) :
    inclusionPathFuel K fuel m xs = HashTree.path (nodeHash K) (K.sha256 []) m xs := by
  induction fuel generalizing m xs with
  | zero =>
    obtain rfl := List.length_eq_zero_iff.mp (Nat.le_zero.mp enough)
    rw [inclusionPathFuel, HashTree.path]
    rfl
  | succ fuel ih =>
    rw [inclusionPathFuel, HashTree.path]
    by_cases two : 2 ≤ xs.length
    · have positive := HashTree.split_pos xs.length
      have smaller := HashTree.split_lt two
      rw [if_neg (by omega), dif_pos two, largestPow2Lt_split two]
      simp only [mth_root, rootOf]
      rw [ih (by rw [List.length_take]; omega), ih (by rw [List.length_drop]; omega)]
    · rw [if_pos (by omega), dif_neg two]

/-- The source's inclusion path is that of the abstract tree. -/
theorem inclusionPath_path (m : Nat) (xs : List Bytes) :
    inclusionPath K m xs = HashTree.path (nodeHash K) (K.sha256 []) m xs :=
  inclusionPathFuel_path (Nat.le_refl _)

theorem subproof_extension {fuel m : Nat} {xs : List Bytes} {whole : Bool}
    (enough : xs.length < fuel) (positive : 0 < m) (inside : m ≤ xs.length) :
    subproof K fuel m xs whole =
      .ok (HashTree.extension (nodeHash K) (K.sha256 []) m xs whole) := by
  induction fuel generalizing m xs whole with
  | zero => omega
  | succ fuel ih =>
    rw [subproof]
    by_cases all : m = xs.length
    · rw [if_pos (by omega), all, HashTree.extension_all, mth_root]
      rfl
    · have two : 2 ≤ xs.length := by omega
      have low := HashTree.split_pos xs.length
      have high := HashTree.split_lt two
      rw [if_neg (by omega), largestPow2Lt_split two]
      by_cases left : m ≤ HashTree.split xs.length
      · have fits : (xs.take (HashTree.split xs.length)).length = HashTree.split xs.length :=
          List.length_take_of_le (by omega)
        rw [if_pos (by omega), ih (by omega) positive (by omega),
          HashTree.extension_below _ _ (by omega) two left, mth_root]
        rfl
      · have fits : (xs.drop (HashTree.split xs.length)).length =
            xs.length - HashTree.split xs.length := List.length_drop
        have shift : (m : Int) - (HashTree.split xs.length : Nat) =
            ((m - HashTree.split xs.length : Nat) : Int) := by omega
        rw [if_neg (by omega), shift, ih (by omega) (by omega) (by omega),
          HashTree.extension_beyond _ _ (by omega) two (by omega), mth_root]
        rfl

/-- The source's consistency proof is the extension proof of the abstract tree. -/
theorem consistencyPath_extension {m : Nat} {xs : List Bytes} (positive : 0 < m)
    (inside : m < xs.length) : consistencyPath K m xs =
      .ok (HashTree.extension (nodeHash K) (K.sha256 []) m xs true) := by
  rw [consistencyPath, if_neg (by omega)]
  exact subproof_extension (by omega) positive (by omega)

theorem rootAt_nat {t : MerkleTree} {n : Nat} (inside : n ≤ t.size) :
    t.rootAt K (n : Int) = .ok (mth K (t.leaves.take n)) := by
  have fits : ¬ (n : Int) > (t.size : Int) := by omega
  have natural : ¬ (n : Int) < 0 := by omega
  rw [MerkleTree.rootAt, if_neg fits, MerkleTree.slice, if_neg natural]
  rfl

open HashTree in
theorem turns_some {fn sn : Nat} (order : fn ≤ sn) (some_ : sn ≠ 0) : turns fn sn ≠ [] := by
  induction sn using Nat.strongRecOn generalizing fn with
  | ind sn ih =>
    by_cases right : fn % 2 = 1
    · rw [turns_right some_ right]
      exact List.cons_ne_nil _ _
    · by_cases last : fn = sn
      · subst last
        rw [turns_last some_ (by omega)]
        exact ih (fn / 2) (by omega) (by omega) (by omega)
      · rw [turns_left some_ (by omega) last]
        exact List.cons_ne_nil _ _

/-- A last node on the left is folded first and shifted after. -/
theorem turns_shiftZeros {fuel n : Nat} (some_ : n ≠ 0) (enough : n ≤ fuel) :
    ∃ z, shiftZeros fuel (n, n) = (z, z) ∧
      HashTree.turns n n = true :: HashTree.turns (z / 2) (z / 2) := by
  induction fuel generalizing n with
  | zero => omega
  | succ fuel ih =>
    by_cases right : n % 2 = 1
    · refine ⟨n, ?_, HashTree.turns_right some_ right⟩
      simp [shiftZeros, bit, right]
    · obtain ⟨z, shifted, walk⟩ := ih (n := n / 2) (by omega) (by omega)
      refine ⟨z, ?_, ?_⟩
      · rw [shiftZeros, if_pos ⟨some_, by simp [bit, right]⟩]
        exact shifted
      · rw [HashTree.turns_last some_ (by omega)]
        exact walk

theorem shiftOnes_rise {fuel fn sn : Nat} (enough : fn ≤ fuel) (order : fn ≤ sn) :
    ∃ f s, shiftOnes fuel (fn, sn) = (f, s) ∧ f ≤ s ∧
      HashTree.rise fn sn = HashTree.turns f s := by
  induction fuel generalizing fn sn with
  | zero =>
    obtain rfl : fn = 0 := by omega
    exact ⟨0, sn, rfl, order, HashTree.rise_left rfl⟩
  | succ fuel ih =>
    by_cases right : fn % 2 = 1
    · obtain ⟨f, s, shifted, order', walk⟩ :=
        ih (show fn / 2 ≤ fuel by omega) (show fn / 2 ≤ sn / 2 by omega)
      refine ⟨f, s, ?_, order', ?_⟩
      · rw [shiftOnes, if_pos (by simp [bit, right])]
        exact shifted
      · rw [HashTree.rise_right right]
        exact walk
    · refine ⟨fn, sn, ?_, order, HashTree.rise_left (by omega)⟩
      rw [shiftOnes, if_neg (by simp [bit, right])]

/-- One step of the loop is one step of the walk. -/
theorem climbStep_walk {s : Climb} (order : s.fn ≤ s.sn) (some_ : s.sn ≠ 0) (c : Bytes) :
    (climbStep K s c).fn ≤ (climbStep K s c).sn ∧ ∃ d, HashTree.turns s.fn s.sn =
      d :: HashTree.turns (climbStep K s c).fn (climbStep K s c).sn ∧
      HashTree.ascendStep (nodeHash K) (s.fr, s.sr) d c =
        ((climbStep K s c).fr, (climbStep K s c).sr) := by
  obtain ⟨fn, sn, fr, sr⟩ := s
  simp only at order some_ ⊢
  by_cases right : fn % 2 = 1
  · have step : climbStep K ⟨fn, sn, fr, sr⟩ c =
        ⟨fn / 2, sn / 2, nodeHash K c fr, nodeHash K c sr⟩ := by
      simp [climbStep, bit, right]
    rw [step]
    exact ⟨by simp only; omega, true, HashTree.turns_right some_ right, rfl⟩
  · by_cases last : fn = sn
    · subst last
      obtain ⟨z, shifted, walk⟩ := turns_shiftZeros some_ (Nat.le_refl fn)
      have step : climbStep K ⟨fn, fn, fr, sr⟩ c =
          ⟨z / 2, z / 2, nodeHash K c fr, nodeHash K c sr⟩ := by
        simp [climbStep, bit, right, shifted]
      rw [step]
      exact ⟨Nat.le_refl _, true, walk, rfl⟩
    · have step : climbStep K ⟨fn, sn, fr, sr⟩ c = ⟨fn / 2, sn / 2, fr, nodeHash K sr c⟩ := by
        simp [climbStep, bit, right, last]
      rw [step]
      exact ⟨by simp only; omega, false, HashTree.turns_left some_ (by omega) last, rfl⟩

/-- The verifier's loop over a consistency proof ascends with both roots at once. -/
theorem climb_walk {s : Climb} {cs : List Bytes} {r : Bytes × Bytes} (order : s.fn ≤ s.sn) :
    (∃ t, climb K s cs = some t ∧ t.sn = 0 ∧ (t.fr, t.sr) = r) ↔
      HashTree.ascendBoth (nodeHash K) (s.fr, s.sr) (HashTree.turns s.fn s.sn) cs = some r := by
  induction cs generalizing s with
  | nil =>
    by_cases zero : s.sn = 0
    · rw [zero, HashTree.turns_zero]
      simp [climb, HashTree.ascendBoth, zero]
    · cases walk : HashTree.turns s.fn s.sn with
      | nil => exact absurd walk (turns_some order zero)
      | cons d ds => simp [climb, HashTree.ascendBoth, zero]
  | cons c cs ih =>
    by_cases zero : s.sn = 0
    · rw [zero, HashTree.turns_zero]
      simp [climb, HashTree.ascendBoth, zero]
    · obtain ⟨order', d, walk, folded⟩ := climbStep_walk (K := K) order zero c
      rw [walk, HashTree.ascendBoth, folded, ← ih order']
      simp [climb, zero]

theorem isPow2_iff {m : Nat} (positive : 0 < m) : isPow2 m = true ↔ ∃ t, m = 2 ^ t := by
  rw [isPow2, decide_eq_true_iff]
  exact Nat.and_sub_one_eq_zero_iff_isPowerOfTwo (by omega)

/-- The hash that the loop starts with, and the hashes that it folds. -/
def seeded (first : Nat) (firstRoot : Bytes) (proof : List Bytes) : List Bytes :=
  if isPow2 first then firstRoot :: proof else proof

/-- A consistency proof verifies exactly if the ascent from its seed reaches both roots. -/
theorem verifyConsistency_walk {m n : Nat} {r₁ r₂ : Bytes} {proof : List Bytes}
    (positive : 0 < m) (strict : m < n) : verifyConsistency K m n r₁ r₂ proof = true ↔
      proof ≠ [] ∧ ∃ seed rest, seeded m r₁ proof = seed :: rest ∧
        HashTree.ascendBoth (nodeHash K) (seed, seed) (HashTree.rise (m - 1) (n - 1)) rest =
          some (r₁, r₂) := by
  rw [verifyConsistency, if_neg (by omega), if_neg (by omega), if_neg (by omega), ← seeded]
  cases start : seeded m r₁ proof with
  | nil => simp
  | cons seed rest =>
    obtain ⟨f, s, shifted, order, walk⟩ :=
      shiftOnes_rise (show m - 1 ≤ m by omega) (show m - 1 ≤ n - 1 by omega)
    cases proof with
    | nil => simp
    | cons c cs =>
      have climbed : (∃ t, climb K ⟨f, s, seed, seed⟩ rest = some t ∧ t.sn = 0 ∧
          (t.fr, t.sr) = (r₁, r₂)) ↔ HashTree.ascendBoth (nodeHash K) (seed, seed)
            (HashTree.turns f s) rest = some (r₁, r₂) := climb_walk order
      simp only [shifted, walk, List.isEmpty_cons, Bool.false_eq_true, if_false]
      constructor
      · intro accepted
        refine ⟨List.cons_ne_nil _ _, seed, rest, rfl, climbed.mp ?_⟩
        cases top : climb K ⟨f, s, seed, seed⟩ rest with
        | none => simp [top] at accepted
        | some t =>
          simp only [top, Bool.and_eq_true, beq_iff_eq] at accepted
          exact ⟨t, rfl, accepted.2, by rw [accepted.1.1, accepted.1.2]⟩
      · rintro ⟨-, seed', rest', same, folded⟩
        obtain ⟨rfl, rfl⟩ := List.cons.inj same
        obtain ⟨t, top, zero, both⟩ := climbed.mpr folded
        obtain ⟨rfl, rfl⟩ := Prod.mk.inj both
        simp [top, zero]

theorem dropZeros_nat (fuel fn sn : Nat) : dropZeros fuel ((fn : Int), (sn : Int)) =
    (((shiftZeros fuel (fn, sn)).1 : Int), ((shiftZeros fuel (fn, sn)).2 : Int)) := by
  induction fuel generalizing fn sn with
  | zero => rfl
  | succ fuel ih =>
    have same : odd (fn : Int) = bit fn := by
      simp only [odd, bit]
      congr 1
      apply propext
      omega
    rw [dropZeros, shiftZeros, same]
    by_cases even : fn ≠ 0 ∧ bit fn = false
    · rw [if_pos ⟨by omega, even.2⟩, if_pos even]
      exact ih (fn / 2) (sn / 2)
    · rw [if_neg (fun both => even ⟨by omega, both.2⟩), if_neg even]

/-- One step of the inclusion loop is one step of the walk. -/
theorem ascentStep_walk {fn sn : Nat} (order : fn ≤ sn) (some_ : sn ≠ 0) (r p : Bytes) :
    ∃ (f s : Nat) (d : Bool), f ≤ s ∧ HashTree.turns fn sn = d :: HashTree.turns f s ∧
      ascentStep K ⟨fn, sn, r⟩ p = ⟨f, s, if d then nodeHash K p r else nodeHash K r p⟩ := by
  by_cases right : fn % 2 = 1
  · have step : odd (fn : Int) = true := by
      simp only [odd, decide_eq_true_eq]
      omega
    refine ⟨fn / 2, sn / 2, true, by omega, HashTree.turns_right some_ right, ?_⟩
    simp [ascentStep, step]
  · have step : odd (fn : Int) = false := by
      simp only [odd, decide_eq_false_iff_not]
      omega
    by_cases last : fn = sn
    · subst last
      obtain ⟨z, shifted, walk⟩ := turns_shiftZeros some_ (Nat.le_refl fn)
      refine ⟨z / 2, z / 2, true, Nat.le_refl _, walk, ?_⟩
      simp [ascentStep, step, dropZeros_nat, shifted]
    · have other : (fn : Int) ≠ (sn : Int) := by omega
      refine ⟨fn / 2, sn / 2, false, by omega, HashTree.turns_left some_ (by omega) last, ?_⟩
      simp [ascentStep, step, other]

/-- The verifier's loop over an inclusion proof ascends along the turns of the index. -/
theorem ascent_walk {fn sn : Nat} {r t : Bytes} {cs : List Bytes} (order : fn ≤ sn) :
    (∃ s, ascent K ⟨fn, sn, r⟩ cs = some s ∧ s.sn = 0 ∧ s.r = t) ↔
      HashTree.ascend (nodeHash K) r (HashTree.turns fn sn) cs = some t := by
  induction cs generalizing fn sn r with
  | nil =>
    by_cases zero : sn = 0
    · rw [zero, HashTree.turns_zero]
      simp [ascent, HashTree.ascend]
    · cases walk : HashTree.turns fn sn with
      | nil => exact absurd walk (turns_some order zero)
      | cons d ds => simp [ascent, HashTree.ascend, zero]
  | cons c cs ih =>
    by_cases zero : sn = 0
    · rw [zero, HashTree.turns_zero]
      simp [ascent, HashTree.ascend]
    · obtain ⟨f, s, d, order', walk, step⟩ := ascentStep_walk (K := K) order zero r c
      rw [walk, HashTree.ascend, ← ih order', ascent]
      simp [zero, step]

/-- The proof the tree makes for a leaf is accepted. -/
theorem inclusion_complete {xs : List Bytes} {i : Nat} (inside : i < xs.length) :
    verifyInclusion K i xs.length xs[i] (inclusionPath K i xs) (mth K xs) = true := by
  have folded := HashTree.ascend_path (nodeHash K) (K.sha256 []) inside
  rw [← inclusionPath_path, ← rootOf, ← mth_root] at folded
  obtain ⟨s, climbed, zero, root⟩ := (ascent_walk (show i ≤ xs.length - 1 by omega)).mpr folded
  have last : (xs.length : Int) - 1 = ((xs.length - 1 : Nat) : Int) := by omega
  rw [verifyInclusion, if_neg (by omega), last, climbed]
  simp [zero, root]

/-- The proof the tree makes for one of its prefixes is accepted. -/
theorem consistency_complete {xs : List Bytes} {m : Nat} (inside : m ≤ xs.length) :
    ∃ proof, consistencyPath K m xs = .ok proof ∧
      verifyConsistency K m xs.length (mth K (xs.take m)) (mth K xs) proof = true := by
  by_cases zero : m = 0
  · refine ⟨[], by rw [consistencyPath, if_pos (by omega)], ?_⟩
    subst zero
    rw [verifyConsistency, if_neg (by omega)]
    by_cases empty : xs.length = 0
    · obtain rfl := List.length_eq_zero_iff.mp empty
      simp
    · rw [if_neg (by omega), if_pos rfl]
      rfl
  · by_cases all : m = xs.length
    · refine ⟨[], by rw [consistencyPath, if_pos (by omega)], ?_⟩
      rw [verifyConsistency, if_neg (by omega), if_pos all, all, List.take_length]
      simp
    · have strict : m < xs.length := by omega
      have positive : 0 < m := by omega
      refine ⟨_, consistencyPath_extension positive strict, ?_⟩
      rw [verifyConsistency_walk positive strict, mth_root, mth_root]
      have two : 2 ≤ xs.length := by omega
      have some_ : HashTree.extension (nodeHash K) (K.sha256 []) m xs true ≠ [] := by
        by_cases left : m ≤ HashTree.split xs.length
        · rw [HashTree.extension_below _ _ strict two left]
          exact List.append_ne_nil_of_right_ne_nil _ (List.cons_ne_nil _ _)
        · rw [HashTree.extension_beyond _ _ strict two (by omega)]
          exact List.append_ne_nil_of_right_ne_nil _ (List.cons_ne_nil _ _)
      refine ⟨some_, ?_⟩
      by_cases power : isPow2 m = true
      · obtain ⟨t, eq⟩ := (isPow2_iff positive).mp power
        have folded := HashTree.ascend_extension_full (nodeHash K) (K.sha256 [])
          (show 2 ^ t ≤ xs.length by omega)
        rw [← eq] at folded
        exact ⟨_, _, if_pos power, folded⟩
      · have broken : ∀ t, m ≠ 2 ^ t := fun t eq => power ((isPow2_iff positive).mpr ⟨t, eq⟩)
        obtain ⟨seed, rest, made, folded⟩ := HashTree.ascend_extension (nodeHash K) (K.sha256 [])
          positive inside (fun same => absurd same all)
        refine ⟨seed, rest, ?_, folded⟩
        rw [seeded, if_neg power, HashTree.extension_broken _ _ positive strict broken, made]

/-- The bytes that are hashed for a node. -/
def nodeInput (p : Bytes × Bytes) : Bytes := 1 :: (p.1 ++ p.2)

def NodeClash (K : Primitives) (p q : Bytes × Bytes) : Prop :=
  nodeInput p ≠ nodeInput q ∧ K.sha256 (nodeInput p) = K.sha256 (nodeInput q)

def Sized (b : Bytes) : Prop := b.length = 32

theorem leafHash_sized (data : Bytes) : Sized (leafHash K data) := K.sha256_length _

/-- The node hash binds its two children, up to a collision. -/
theorem nodeHash_binding : HashTree.Binding (nodeHash K) Sized (NodeClash K) where
  sized := fun _ _ => K.sha256_length _
  binds := by
    intro a b c d one left right same
    by_cases equal : a ++ b = c ++ d
    · left
      have total := congrArg List.length equal
      rw [List.length_append, List.length_append, left, right] at total
      have length : a.length = c.length := by
        rw [left]
        rcases one with one | one
        · exact one
        · rw [show b.length = 32 from one] at total
          omega
      exact List.append_inj equal length
    · right
      refine ⟨?_, same⟩
      intro inputs
      exact equal (List.cons.inj inputs).2

/-- The bytes that are hashed for the nodes of a tree. -/
def treeInputs (K : Primitives) (xs : List Bytes) : List Bytes :=
  (HashTree.nodes (nodeHash K) (K.sha256 []) xs).map nodeInput

/-- The bytes that are hashed for the roots of all prefixes of a list. -/
def prefixesInputs (K : Primitives) (xs : List Bytes) : List Bytes :=
  (List.range (xs.length + 1)).flatMap fun n => treeInputs K (xs.take n)

theorem prefixesInputs_take {xs : List Bytes} (k : Nat) :
    ∀ b ∈ prefixesInputs K (xs.take k), b ∈ prefixesInputs K xs := by
  intro b member
  obtain ⟨n, inside, hashed⟩ := List.mem_flatMap.mp member
  rw [List.mem_range, List.length_take] at inside
  rw [List.take_take] at hashed
  exact List.mem_flatMap.mpr ⟨min n k, List.mem_range.mpr (by omega), hashed⟩

theorem treeInputs_prefixes (xs : List Bytes) :
    ∀ b ∈ treeInputs K xs, b ∈ prefixesInputs K xs := by
  intro b member
  refine List.mem_flatMap.mpr ⟨xs.length, List.mem_range.mpr (by omega), ?_⟩
  rw [List.take_length]
  exact member

/-- The bytes that the verifier hashes on the way to the later root. -/
def proofInputs (K : Primitives) (first second : Nat) (firstRoot : Bytes) (proof : List Bytes) :
    List Bytes :=
  match seeded first firstRoot proof with
  | [] => []
  | seed :: rest =>
    (HashTree.folds (nodeHash K) seed (HashTree.rise (first - 1) (second - 1)) rest).map nodeInput

/-- A clash of two nodes is a collision of the hash. -/
theorem collision_of_clashes {ps qs : List (Bytes × Bytes)}
    (clash : HashTree.Clashes (NodeClash K) ps qs) :
    Collision K (ps.map nodeInput ++ qs.map nodeInput) := by
  obtain ⟨p, inP, q, inQ, different, same⟩ := clash
  exact ⟨_, List.mem_append_left _ (List.mem_map_of_mem inP), _,
    List.mem_append_right _ (List.mem_map_of_mem inQ), different, same⟩

/-- Equal tree hashes of lists of one length mean equal leaves, or a collision. -/
theorem mth_injective {xs ys : List Bytes} (length : xs.length = ys.length)
    (left : ∀ x ∈ xs, Sized x) (right : ∀ y ∈ ys, Sized y) (same : mth K xs = mth K ys) :
    xs = ys ∨ Collision K (treeInputs K xs ++ treeInputs K ys) := by
  rw [mth_root, mth_root] at same
  exact (HashTree.root_injective (K.sha256 []) nodeHash_binding length left right same).imp_right
    collision_of_clashes

/-- The first hash that the verifier folds has 32 bytes. -/
def SeedSized (first : Nat) (firstRoot : Bytes) (proof : List Bytes) : Prop :=
  ∀ seed ∈ (seeded first firstRoot proof).head?, Sized seed

/-- An accepted proof towards the root of a list comes from the root of its prefix. -/
theorem consistency_sound {xs proof : List Bytes} {m : Nat} {r : Bytes} (positive : 0 < m)
    (inside : m ≤ xs.length) (leaves : ∀ x ∈ xs, Sized x)
    (sized : m < xs.length → SeedSized m r proof)
    (accepted : verifyConsistency K m xs.length r (mth K xs) proof = true) :
    r = mth K (xs.take m) ∨ Collision K (proofInputs K m xs.length r proof ++ treeInputs K xs) := by
  by_cases all : m = xs.length
  · rw [verifyConsistency, if_neg (by omega), if_pos all, Bool.and_eq_true, beq_iff_eq] at accepted
    rw [all, List.take_length]
    exact .inl accepted.1
  · have strict : m < xs.length := by omega
    obtain ⟨-, seed, rest, start, folded⟩ := (verifyConsistency_walk positive strict).mp accepted
    have first : Sized seed := sized strict seed (by rw [start]; rfl)
    rw [mth_root] at folded
    rw [mth_root, proofInputs, start]
    exact (HashTree.extension_sound (K.sha256 []) nodeHash_binding positive inside
      (fun same => absurd same all) leaves first folded).imp_right collision_of_clashes

end MerkleProofs
