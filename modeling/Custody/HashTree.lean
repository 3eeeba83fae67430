import Mathlib.Algebra.Group.Nat.Defs
import Mathlib.Data.Nat.Log
import Mathlib.Data.Nat.Size
import Mathlib.Data.List.Basic

/-!
# Trees over a binary node function

A list is split at the largest power of two below its length. A proof lists
siblings from the leaf up; on which side each of them stands is read off two
numbers, one bit a level. Nothing here depends on what the nodes are: where a
root has to determine its leaves, a binding node function is assumed.
-/

namespace HashTree

universe u

variable {A : Type u} (node : A → A → A) (empty : A)

/-- The largest power of two below `n`, for `n` above one. -/
def split (n : Nat) : Nat := 2 ^ Nat.log 2 (n - 1)

/-- The split is the largest power of two below the number of leaves. -/
theorem split_bounds {n : Nat} (two : 2 ≤ n) :
    ∃ t, split n = 2 ^ t ∧ 2 ^ t < n ∧ n ≤ 2 ^ (t + 1) := by
  have low : 2 ^ Nat.log 2 (n - 1) ≤ n - 1 := Nat.pow_log_le_self 2 (by omega)
  have high : n - 1 < 2 ^ (Nat.log 2 (n - 1) + 1) := Nat.lt_pow_succ_log_self (by omega) _
  exact ⟨Nat.log 2 (n - 1), rfl, by omega, by omega⟩

theorem split_pos (n : Nat) : 0 < split n := Nat.two_pow_pos _

theorem split_lt {n : Nat} (two : 2 ≤ n) : split n < n := by
  obtain ⟨t, eq, below, -⟩ := split_bounds two
  omega

/-- Only one power of two lies below `n` and has its double at or above it. -/
theorem split_unique {n t : Nat} (below : 2 ^ t < n) (above : n ≤ 2 ^ (t + 1)) :
    split n = 2 ^ t := by
  have two : 2 ≤ n := by
    have := Nat.two_pow_pos t
    omega
  obtain ⟨s, eq, low, high⟩ := split_bounds two
  have first : s < t + 1 := by
    refine (Nat.pow_lt_pow_iff_right (a := 2) (by omega)).mp ?_
    omega
  have second : t < s + 1 := by
    refine (Nat.pow_lt_pow_iff_right (a := 2) (by omega)).mp ?_
    omega
  have same : s = t := by omega
  rw [eq, same]

def root (xs : List A) : A :=
  if _two : 2 ≤ xs.length then
    node (root (xs.take (split xs.length))) (root (xs.drop (split xs.length)))
  else xs.headD empty
termination_by xs.length
decreasing_by
  · have := split_lt _two
    simp only [List.length_take]
    omega
  · have := split_pos xs.length
    simp only [List.length_drop]
    omega

/-- The siblings on the way from leaf `i` up to the root. -/
def path (i : Nat) (xs : List A) : List A :=
  if _two : 2 ≤ xs.length then
    if i < split xs.length then
      path i (xs.take (split xs.length)) ++ [root node empty (xs.drop (split xs.length))]
    else
      path (i - split xs.length) (xs.drop (split xs.length)) ++
        [root node empty (xs.take (split xs.length))]
  else []
termination_by xs.length
decreasing_by
  · have := split_lt _two
    simp only [List.length_take]
    omega
  · have := split_pos xs.length
    simp only [List.length_drop]
    omega

/-- The siblings that lead from the first `m` leaves to all of them. While `whole` is set,
the tree of the first `m` leaves is a subtree met so far only on the left edge. -/
def extension (m : Nat) (xs : List A) (whole : Bool) : List A :=
  if _two : m < xs.length ∧ 2 ≤ xs.length then
    if m ≤ split xs.length then
      extension m (xs.take (split xs.length)) whole ++
        [root node empty (xs.drop (split xs.length))]
    else
      extension (m - split xs.length) (xs.drop (split xs.length)) false ++
        [root node empty (xs.take (split xs.length))]
  else if whole then [] else [root node empty xs]
termination_by xs.length
decreasing_by
  · have := split_lt _two.2
    simp only [List.length_take]
    omega
  · have := split_pos xs.length
    simp only [List.length_drop]
    omega

/-- The root of a list that can be split is the node over the roots of its parts. -/
theorem root_split {xs : List A} (two : 2 ≤ xs.length) : root node empty xs =
    node (root node empty (xs.take (split xs.length)))
      (root node empty (xs.drop (split xs.length))) := by
  rw [root, dif_pos two]

theorem root_single (x : A) : root node empty [x] = x := by
  rw [root]
  rfl

theorem root_nil : root node empty ([] : List A) = empty := by
  rw [root]
  rfl

/-- An extension proof for a prefix inside the left part ends with the root of the right one. -/
theorem extension_below {xs : List A} {m : Nat} (inside : m < xs.length) (two : 2 ≤ xs.length)
    (left : m ≤ split xs.length) (whole : Bool) : extension node empty m xs whole =
    extension node empty m (xs.take (split xs.length)) whole ++
      [root node empty (xs.drop (split xs.length))] := by
  rw [extension, dif_pos ⟨inside, two⟩, if_pos left]

/-- An extension proof for a prefix beyond it ends with the root of the left part. -/
theorem extension_beyond {xs : List A} {m : Nat} (inside : m < xs.length) (two : 2 ≤ xs.length)
    (right : split xs.length < m) (whole : Bool) : extension node empty m xs whole =
    extension node empty (m - split xs.length) (xs.drop (split xs.length)) false ++
      [root node empty (xs.take (split xs.length))] := by
  rw [extension, dif_pos ⟨inside, two⟩, if_neg (by omega)]

theorem extension_all (xs : List A) (whole : Bool) : extension node empty xs.length xs whole =
    if whole then [] else [root node empty xs] := by
  rw [extension, dif_neg (by omega)]

/-- Between the split and the length, a prefix is split at the same place. -/
theorem root_take {xs : List A} {m : Nat} (beyond : split xs.length < m) (inside : m ≤ xs.length) :
    root node empty (xs.take m) = node (root node empty (xs.take (split xs.length)))
      (root node empty ((xs.drop (split xs.length)).take (m - split xs.length))) := by
  have positive := split_pos xs.length
  obtain ⟨t, eq, below, above⟩ := split_bounds (n := xs.length) (by omega)
  have length : (xs.take m).length = m := List.length_take_of_le inside
  have same : split (xs.take m).length = split xs.length := by
    rw [length, eq]
    exact split_unique (by omega) (by omega)
  rw [root_split node empty (by omega), same, List.take_take, List.drop_take]
  have small : min (split xs.length) m = split xs.length := by omega
  rw [small]

/-- The sides of the siblings, from the node `fn` of a level whose last node is `sn`. A last
node on the left has no sibling on its level and stands for itself on the next one. -/
def turns (fn sn : Nat) : List Bool :=
  if sn = 0 then []
  else if fn % 2 = 1 then true :: turns (fn / 2) (sn / 2)
  else if fn = sn then turns (fn / 2) (sn / 2)
  else false :: turns (fn / 2) (sn / 2)
termination_by sn

/-- A right child's parent covers both; such levels are climbed without a sibling. -/
def rise (fn sn : Nat) : List Bool :=
  if fn % 2 = 1 then rise (fn / 2) (sn / 2) else turns fn sn
termination_by fn

theorem turns_zero (fn : Nat) : turns fn 0 = [] := by
  rw [turns]
  rfl

theorem turns_right {fn sn : Nat} (some_ : sn ≠ 0) (right : fn % 2 = 1) :
    turns fn sn = true :: turns (fn / 2) (sn / 2) := by
  rw [turns, if_neg some_, if_pos right]

theorem turns_last {n : Nat} (some_ : n ≠ 0) (left : n % 2 = 0) :
    turns n n = turns (n / 2) (n / 2) := by
  rw [turns, if_neg some_, if_neg (by omega), if_pos rfl]

theorem turns_left {fn sn : Nat} (some_ : sn ≠ 0) (left : fn % 2 = 0) (other : fn ≠ sn) :
    turns fn sn = false :: turns (fn / 2) (sn / 2) := by
  rw [turns, if_neg some_, if_neg (by omega), if_neg other]

theorem rise_right {fn sn : Nat} (right : fn % 2 = 1) : rise fn sn = rise (fn / 2) (sn / 2) := by
  rw [rise, if_pos right]

theorem rise_left {fn sn : Nat} (left : fn % 2 = 0) : rise fn sn = turns fn sn := by
  rw [rise, if_neg (by omega)]

/-- Below the split, the way up is that of the left subtree and one more step. -/
theorem turns_below {t fn sn : Nat} (below : fn < 2 ^ t) (low : 2 ^ t ≤ sn)
    (high : sn < 2 ^ (t + 1)) : turns fn sn = turns fn (2 ^ t - 1) ++ [false] := by
  induction t generalizing fn sn with
  | zero =>
    obtain rfl : fn = 0 := by omega
    obtain rfl : sn = 1 := by omega
    rw [turns_left (by omega) rfl (by omega)]
    simp [turns_zero]
  | succ t ih =>
    have double : 2 ^ (t + 1) = 2 * 2 ^ t := Nat.pow_succ'
    have double' : 2 ^ (t + 1 + 1) = 2 * 2 ^ (t + 1) := Nat.pow_succ'
    have positive := Nat.two_pow_pos t
    have half : (2 ^ (t + 1) - 1) / 2 = 2 ^ t - 1 := by omega
    have rest : turns (fn / 2) (sn / 2) = turns (fn / 2) (2 ^ t - 1) ++ [false] :=
      ih (by omega) (by omega) (by omega)
    by_cases right : fn % 2 = 1
    · rw [turns_right (by omega) right, turns_right (by omega) right, half, rest]
      rfl
    · have inner : turns fn (2 ^ (t + 1) - 1) = false :: turns (fn / 2) ((2 ^ (t + 1) - 1) / 2) :=
        turns_left (by omega) (by omega) (by omega)
      rw [turns_left (by omega) (by omega) (by omega), inner, half, rest]
      rfl

/-- Beyond the split, it is that of the right subtree and one more step. -/
theorem turns_beyond {t a b : Nat} (order : a ≤ b) (high : b < 2 ^ t) :
    turns (2 ^ t + a) (2 ^ t + b) = turns a b ++ [true] := by
  induction t generalizing a b with
  | zero =>
    obtain rfl : b = 0 := by omega
    obtain rfl : a = 0 := by omega
    rw [turns_right (by omega) rfl]
    simp [turns_zero]
  | succ t ih =>
    have double : 2 ^ (t + 1) = 2 * 2 ^ t := Nat.pow_succ'
    have positive := Nat.two_pow_pos t
    have rest := ih (a := a / 2) (b := b / 2) (by omega) (by omega)
    have halfA : (2 ^ (t + 1) + a) / 2 = 2 ^ t + a / 2 := by omega
    have halfB : (2 ^ (t + 1) + b) / 2 = 2 ^ t + b / 2 := by omega
    by_cases top : b = 0
    · obtain rfl : a = 0 := by omega
      subst top
      have half : 2 ^ (t + 1) / 2 = 2 ^ t := by omega
      rw [Nat.add_zero, turns_last (by omega) (by omega), half]
      simpa using rest
    · by_cases right : a % 2 = 1
      · rw [turns_right (by omega) (by omega), turns_right top right, halfA, halfB, rest]
        rfl
      · by_cases last : a = b
        · subst last
          rw [turns_last (by omega) (by omega), turns_last top (by omega), halfA, rest]
        · rw [turns_left (by omega) (by omega) (by omega), turns_left top (by omega) last, halfA,
            halfB, rest]
          rfl

/-- The path of a prefix inside the left subtree turns left at the top. -/
theorem rise_below {t fn sn : Nat} (below : fn < 2 ^ t) (low : 2 ^ t ≤ sn)
    (high : sn < 2 ^ (t + 1)) : rise fn sn = rise fn (2 ^ t - 1) ++ [false] := by
  induction t generalizing fn sn with
  | zero =>
    obtain rfl : fn = 0 := by omega
    rw [rise_left rfl, rise_left rfl]
    exact turns_below below low high
  | succ t ih =>
    by_cases right : fn % 2 = 1
    · have double : 2 ^ (t + 1) = 2 * 2 ^ t := Nat.pow_succ'
      have double' : 2 ^ (t + 1 + 1) = 2 * 2 ^ (t + 1) := Nat.pow_succ'
      have half : (2 ^ (t + 1) - 1) / 2 = 2 ^ t - 1 := by
        have := Nat.two_pow_pos t
        omega
      rw [rise_right right, rise_right right, half]
      exact ih (by omega) (by omega) (by omega)
    · rw [rise_left (by omega), rise_left (by omega)]
      exact turns_below below low high

/-- The path of a prefix beyond it turns right at the top. -/
theorem rise_beyond {t a b : Nat} (order : a < b) (high : b < 2 ^ t) :
    rise (2 ^ t + a) (2 ^ t + b) = rise a b ++ [true] := by
  induction t generalizing a b with
  | zero => omega
  | succ t ih =>
    have double : 2 ^ (t + 1) = 2 * 2 ^ t := Nat.pow_succ'
    by_cases right : a % 2 = 1
    · have halfA : (2 ^ (t + 1) + a) / 2 = 2 ^ t + a / 2 := by omega
      have halfB : (2 ^ (t + 1) + b) / 2 = 2 ^ t + b / 2 := by omega
      rw [rise_right (by omega), rise_right right, halfA, halfB]
      exact ih (by omega) (by omega)
    · rw [rise_left (by omega), rise_left (by omega)]
      exact turns_beyond (by omega) high

/-- A full subtree is climbed without a sibling. -/
theorem rise_full (t : Nat) : rise (2 ^ t - 1) (2 ^ t - 1) = [] := by
  induction t with
  | zero =>
    rw [Nat.pow_zero, Nat.sub_self, rise_left rfl]
    exact turns_zero 0
  | succ t ih =>
    have double : 2 ^ (t + 1) = 2 * 2 ^ t := Nat.pow_succ'
    have positive := Nat.two_pow_pos t
    have half : (2 ^ (t + 1) - 1) / 2 = 2 ^ t - 1 := by omega
    rw [rise_right (by omega), half]
    exact ih

/-- Fold the siblings into `r`; their number must be that of the sides. -/
def ascend (r : A) : List Bool → List A → Option A
  | [], [] => some r
  | d :: ds, c :: cs => ascend (if d then node c r else node r c) ds cs
  | _, _ => none

/-- One step of a tree and of the one it was extended to: a sibling on the left belongs to both. -/
def ascendStep (s : A × A) (d : Bool) (c : A) : A × A :=
  if d then (node c s.1, node c s.2) else (s.1, node s.2 c)

def ascendBoth (s : A × A) : List Bool → List A → Option (A × A)
  | [], [] => some s
  | d :: ds, c :: cs => ascendBoth (ascendStep node s d c) ds cs
  | _, _ => none

/-- The last turn of an ascent joins one more root. -/
theorem ascend_snoc (r : A) (ds : List Bool) (cs : List A) (d : Bool) (c : A) :
    ascend node r (ds ++ [d]) (cs ++ [c]) =
      (ascend node r ds cs).map fun s => if d then node c s else node s c := by
  induction ds generalizing r cs with
  | nil =>
    cases cs with
    | nil => rfl
    | cons x cs => cases cs <;> rfl
  | cons e ds ih =>
    cases cs with
    | nil => cases ds <;> rfl
    | cons x cs => exact ih _ cs

theorem ascendBoth_snoc (s : A × A) (ds : List Bool) (cs : List A) (d : Bool) (c : A) :
    ascendBoth node s (ds ++ [d]) (cs ++ [c]) =
      (ascendBoth node s ds cs).map fun s => ascendStep node s d c := by
  induction ds generalizing s cs with
  | nil =>
    cases cs with
    | nil => rfl
    | cons x cs => cases cs <;> rfl
  | cons e ds ih =>
    cases cs with
    | nil => cases ds <;> rfl
    | cons x cs => exact ih _ cs

/-- The last step of a fold is the one at the top of the tree. -/
theorem ascendBoth_last {s t : A × A} {ds : List Bool} {cs : List A} {d : Bool}
    (h : ascendBoth node s (ds ++ [d]) cs = some t) : ∃ init c r, cs = init ++ [c] ∧
      ascendBoth node s ds init = some r ∧ t = ascendStep node r d c := by
  rcases List.eq_nil_or_concat cs with rfl | ⟨init, c, rfl⟩
  · cases ds <;> cases h
  · rw [List.concat_eq_append, ascendBoth_snoc] at h
    obtain ⟨r, folded, rfl⟩ := Option.map_eq_some_iff.mp h
    exact ⟨init, c, r, List.concat_eq_append, folded, rfl⟩

theorem ascend_last {r t : A} {ds : List Bool} {cs : List A} {d : Bool}
    (h : ascend node r (ds ++ [d]) cs = some t) : ∃ init c top, cs = init ++ [c] ∧
      ascend node r ds init = some top ∧ t = if d then node c top else node top c := by
  rcases List.eq_nil_or_concat cs with rfl | ⟨init, c, rfl⟩
  · cases ds <;> cases h
  · rw [List.concat_eq_append, ascend_snoc] at h
    obtain ⟨top, folded, rfl⟩ := Option.map_eq_some_iff.mp h
    exact ⟨init, c, top, List.concat_eq_append, folded, rfl⟩

/-- Ascending from a leaf along its path gives the root. -/
theorem ascend_path {xs : List A} {i : Nat} (inside : i < xs.length) :
    ascend node xs[i] (turns i (xs.length - 1)) (path node empty i xs) =
      some (root node empty xs) := by
  induction length : xs.length using Nat.strongRecOn generalizing xs i with
  | ind n ih =>
    subst length
    by_cases two : 2 ≤ xs.length
    · obtain ⟨t, eq, below, above⟩ := split_bounds two
      have positive := Nat.two_pow_pos t
      rw [root_split node empty two, path, dif_pos two, eq]
      split
      next left =>
        have length : (xs.take (2 ^ t)).length = 2 ^ t := List.length_take_of_le (by omega)
        have fits : i < (xs.take (2 ^ t)).length := by omega
        have sub := ih (2 ^ t) below fits length
        rw [List.getElem_take] at sub
        rw [turns_below left (by omega) (by omega), ascend_snoc, sub]
        rfl
      next right =>
        have length : (xs.drop (2 ^ t)).length = xs.length - 2 ^ t := List.length_drop
        have fits : i - 2 ^ t < (xs.drop (2 ^ t)).length := by omega
        have sub := ih (xs.length - 2 ^ t) (by omega) fits length
        have back : 2 ^ t + (i - 2 ^ t) = i := by omega
        have last : xs.length - 1 = 2 ^ t + (xs.length - 2 ^ t - 1) := by omega
        simp only [List.getElem_drop, back] at sub
        have way := turns_beyond (t := t) (a := i - 2 ^ t) (b := xs.length - 2 ^ t - 1)
          (by omega) (by omega)
        rw [back, ← last] at way
        rw [way, ascend_snoc, sub]
        rfl
    · obtain ⟨x, rfl⟩ := List.length_eq_one_iff.mp (show xs.length = 1 by omega)
      obtain rfl : i = 0 := by
        simp only [List.length_singleton] at inside
        omega
      rw [root_single, path, dif_neg two]
      simp [turns_zero, ascend]

/-- A path has at most one sibling for each binary digit of the last position. -/
theorem path_length (xs : List A) (i : Nat) :
    (path node empty i xs).length ≤ Nat.size (xs.length - 1) := by
  induction length : xs.length using Nat.strongRecOn generalizing xs i with
  | ind n ih =>
    subst length
    rw [path]
    by_cases two : 2 ≤ xs.length
    · obtain ⟨t, eq, below, above⟩ := split_bounds two
      have positive := Nat.two_pow_pos t
      have digits : t < Nat.size (xs.length - 1) := Nat.lt_size.mpr (by omega)
      rw [dif_pos two, eq]
      split
      · have length : (xs.take (2 ^ t)).length = 2 ^ t := List.length_take_of_le (by omega)
        have sub := ih (2 ^ t) below (xs.take (2 ^ t)) i length
        have short : Nat.size (2 ^ t - 1) ≤ t := Nat.size_le.mpr (by omega)
        rw [List.length_append, List.length_singleton]
        omega
      · have length : (xs.drop (2 ^ t)).length = xs.length - 2 ^ t := List.length_drop
        have sub := ih (xs.length - 2 ^ t) (by omega) (xs.drop (2 ^ t)) (i - 2 ^ t) length
        have short : Nat.size (xs.length - 2 ^ t - 1) ≤ t := Nat.size_le.mpr (by omega)
        rw [List.length_append, List.length_singleton]
        omega
    · rw [dif_neg two]
      exact Nat.zero_le _

theorem take_take_below {xs : List A} {m k : Nat} (below : m ≤ k) :
    (xs.take k).take m = xs.take m := by
  rw [List.take_take, Nat.min_eq_left below]

/-- The first sibling starts the fold of both roots, the others lead up. -/
theorem ascend_extension {xs : List A} {m : Nat} (positive : 0 < m) (inside : m ≤ xs.length)
    (full : m = xs.length → ∃ t, m = 2 ^ t) :
    ∃ seed rest, extension node empty m xs false = seed :: rest ∧
      ascendBoth node (seed, seed) (rise (m - 1) (xs.length - 1)) rest =
        some (root node empty (xs.take m), root node empty xs) := by
  induction length : xs.length using Nat.strongRecOn generalizing xs m with
  | ind n ih =>
    subst length
    by_cases all : m = xs.length
    · obtain ⟨t, power⟩ := full all
      refine ⟨root node empty xs, [], ?_, ?_⟩
      · rw [all, extension_all]
        rfl
      · rw [← all, power, rise_full, ← power, all, List.take_length]
        rfl
    · have two : 2 ≤ xs.length := by omega
      have strict : m < xs.length := by omega
      obtain ⟨t, eq, below, above⟩ := split_bounds two
      have whole := root_split node empty two
      rw [eq] at whole
      by_cases left : m ≤ 2 ^ t
      · have length : (xs.take (2 ^ t)).length = 2 ^ t := List.length_take_of_le (by omega)
        obtain ⟨seed, rest, sub, folded⟩ := ih (2 ^ t) below positive (by omega)
          (fun _ => ⟨t, by omega⟩) length
        refine ⟨seed, rest ++ [root node empty (xs.drop (2 ^ t))], ?_, ?_⟩
        · rw [extension_below node empty strict two (by omega), eq, sub]
          rfl
        · rw [rise_below (t := t) (by omega) (by omega) (by omega), ascendBoth_snoc, folded,
            take_take_below left, whole]
          rfl
      · have length : (xs.drop (2 ^ t)).length = xs.length - 2 ^ t := List.length_drop
        have positive' : 0 < m - 2 ^ t := by omega
        have inside' : m - 2 ^ t ≤ (xs.drop (2 ^ t)).length := by omega
        obtain ⟨seed, rest, sub, folded⟩ := ih (xs.length - 2 ^ t) (by omega) positive' inside'
          (fun _ => by omega) length
        refine ⟨seed, rest ++ [root node empty (xs.take (2 ^ t))], ?_, ?_⟩
        · rw [extension_beyond node empty strict two (by omega), eq, sub]
          rfl
        · have way := rise_beyond (t := t) (a := m - 2 ^ t - 1) (b := xs.length - 2 ^ t - 1)
            (by omega) (by omega)
          have front : 2 ^ t + (m - 2 ^ t - 1) = m - 1 := by omega
          have last : 2 ^ t + (xs.length - 2 ^ t - 1) = xs.length - 1 := by omega
          rw [front, last] at way
          rw [way, ascendBoth_snoc, folded, root_take node empty (by omega) inside, eq, whole]
          rfl

/-- A first tree that is no full subtree is not met whole. -/
theorem extension_broken {xs : List A} {m : Nat} (positive : 0 < m) (inside : m < xs.length)
    (broken : ∀ t, m ≠ 2 ^ t) :
    extension node empty m xs true = extension node empty m xs false := by
  induction length : xs.length using Nat.strongRecOn generalizing xs with
  | ind n ih =>
    subst length
    have two : 2 ≤ xs.length := by omega
    obtain ⟨t, eq, below, above⟩ := split_bounds two
    by_cases left : m ≤ split xs.length
    · have length : (xs.take (split xs.length)).length = 2 ^ t := by
        rw [List.length_take_of_le (by omega), eq]
      have strict := broken t
      rw [extension_below node empty inside two left, extension_below node empty inside two left,
        ih (2 ^ t) below (by omega) length]
    · rw [extension_beyond node empty inside two (by omega),
        extension_beyond node empty inside two (by omega)]

/-- A first tree that is a full subtree starts the fold with its own root. -/
theorem ascend_extension_full {xs : List A} {s : Nat} (inside : 2 ^ s ≤ xs.length) :
    ascendBoth node (root node empty (xs.take (2 ^ s)), root node empty (xs.take (2 ^ s)))
        (rise (2 ^ s - 1) (xs.length - 1)) (extension node empty (2 ^ s) xs true) =
      some (root node empty (xs.take (2 ^ s)), root node empty xs) := by
  induction length : xs.length using Nat.strongRecOn generalizing xs with
  | ind n ih =>
    subst length
    have positive := Nat.two_pow_pos s
    by_cases all : 2 ^ s = xs.length
    · rw [all, extension_all, ← all, rise_full, all, List.take_length]
      rfl
    · have two : 2 ≤ xs.length := by omega
      obtain ⟨t, eq, below, above⟩ := split_bounds two
      have whole := root_split node empty two
      rw [eq] at whole
      have order : s < t + 1 := by
        refine (Nat.pow_lt_pow_iff_right (a := 2) (by omega)).mp ?_
        omega
      have left : 2 ^ s ≤ 2 ^ t := Nat.pow_le_pow_right (by omega) (by omega)
      have length : (xs.take (2 ^ t)).length = 2 ^ t := List.length_take_of_le (by omega)
      have sub := ih (2 ^ t) below (by omega) length
      rw [take_take_below left] at sub
      rw [extension_below node empty (by omega) two (by omega), eq,
        rise_below (t := t) (by omega) (by omega) (by omega), ascendBoth_snoc, sub, whole]
      rfl

/-- The pairs that make up the nodes of a tree. -/
def nodes (xs : List A) : List (A × A) :=
  if _two : 2 ≤ xs.length then
    (root node empty (xs.take (split xs.length)), root node empty (xs.drop (split xs.length))) ::
      (nodes (xs.take (split xs.length)) ++ nodes (xs.drop (split xs.length)))
  else []
termination_by xs.length
decreasing_by
  · have := split_lt _two
    simp only [List.length_take]
    omega
  · have := split_pos xs.length
    simp only [List.length_drop]
    omega

/-- The pairs that a fold makes nodes of. -/
def folds (r : A) : List Bool → List A → List (A × A)
  | d :: ds, c :: cs =>
    (if d then (c, r) else (r, c)) :: folds (if d then node c r else node r c) ds cs
  | _, _ => []

/-- The nodes of a tree are its top and the nodes of both parts. -/
theorem nodes_split {xs : List A} (two : 2 ≤ xs.length) : nodes node empty xs =
    (root node empty (xs.take (split xs.length)), root node empty (xs.drop (split xs.length))) ::
      (nodes node empty (xs.take (split xs.length)) ++
        nodes node empty (xs.drop (split xs.length))) := by
  rw [nodes, dif_pos two]

/-- The second of two roots ascends as it would alone. -/
theorem ascendBoth_second {s t : A × A} {ds : List Bool} {cs : List A}
    (folded : ascendBoth node s ds cs = some t) : ascend node s.2 ds cs = some t.2 := by
  induction ds generalizing s cs with
  | nil =>
    cases cs with
    | nil =>
      obtain rfl := Option.some.inj folded
      rfl
    | cons c cs => cases folded
  | cons d ds ih =>
    cases cs with
    | nil => cases folded
    | cons c cs =>
      have rest := ih folded
      cases d
      · exact rest
      · exact rest

/-- The last turn of an ascent adds the pair it joins. -/
theorem folds_snoc {r t : A} {ds : List Bool} {cs : List A}
    (folded : ascend node r ds cs = some t) (d : Bool) (c : A) :
    folds node r (ds ++ [d]) (cs ++ [c]) =
      folds node r ds cs ++ [if d then (c, t) else (t, c)] := by
  induction ds generalizing r cs with
  | nil =>
    cases cs with
    | nil =>
      obtain rfl := Option.some.inj folded
      rfl
    | cons c cs => cases folded
  | cons e ds ih =>
    cases cs with
    | nil => cases folded
    | cons x cs =>
      have rest := ih folded
      simp only [List.cons_append, folds, rest]

/-- Two nodes over `Sized` pairs agree only if the pairs do or `Clash`. One member of the first
pair may be of any size. -/
structure Binding (node : A → A → A) (Sized : A → Prop) (Clash : A × A → A × A → Prop) :
    Prop where
  sized : ∀ a b, Sized (node a b)
  binds : ∀ {a b c d}, Sized a ∨ Sized b → Sized c → Sized d → node a b = node c d →
    (a = c ∧ b = d) ∨ Clash (a, b) (c, d)

/-- Two pairs of the lists clash. -/
def Clashes (Clash : A × A → A × A → Prop) (ps qs : List (A × A)) : Prop :=
  ∃ p ∈ ps, ∃ q ∈ qs, Clash p q

section Binding

variable {node} {Sized : A → Prop} {Clash : A × A → A × A → Prop}

/-- Clashes among fewer nodes are clashes among more. -/
theorem Clashes.mono {ps ps' qs qs' : List (A × A)} (clash : Clashes Clash ps qs)
    (left : ∀ p ∈ ps, p ∈ ps') (right : ∀ q ∈ qs, q ∈ qs') : Clashes Clash ps' qs' := by
  obtain ⟨p, inP, q, inQ, clash⟩ := clash
  exact ⟨p, left p inP, q, right q inQ, clash⟩

theorem nodes_top {xs : List A} {k : Nat} (two : 2 ≤ xs.length) (eq : split xs.length = k) :
    (root node empty (xs.take k), root node empty (xs.drop k)) ∈ nodes node empty xs := by
  subst eq
  rw [nodes_split node empty two]
  exact List.mem_cons_self

theorem nodes_take {xs : List A} {k : Nat} (two : 2 ≤ xs.length) (eq : split xs.length = k) :
    ∀ q ∈ nodes node empty (xs.take k), q ∈ nodes node empty xs := by
  subst eq
  intro q member
  rw [nodes_split node empty two]
  exact List.mem_cons_of_mem _ (List.mem_append_left _ member)

theorem nodes_drop {xs : List A} {k : Nat} (two : 2 ≤ xs.length) (eq : split xs.length = k) :
    ∀ q ∈ nodes node empty (xs.drop k), q ∈ nodes node empty xs := by
  subst eq
  intro q member
  rw [nodes_split node empty two]
  exact List.mem_cons_of_mem _ (List.mem_append_right _ member)

/-- Roots have the size of the hash. -/
theorem root_sized (binding : Binding node Sized Clash) {xs : List A} (some_ : xs ≠ [])
    (leaves : ∀ x ∈ xs, Sized x) : Sized (root node empty xs) := by
  by_cases two : 2 ≤ xs.length
  · rw [root_split node empty two]
    exact binding.sized _ _
  · cases xs with
    | nil => exact absurd rfl some_
    | cons x rest =>
      obtain rfl : rest = [] := by
        apply List.length_eq_zero_iff.mp
        simp only [List.length_cons] at two
        omega
      rw [root_single]
      exact leaves x List.mem_cons_self

theorem sized_take {xs : List A} (leaves : ∀ x ∈ xs, Sized x) (k : Nat) :
    ∀ x ∈ xs.take k, Sized x := fun x member => leaves x (List.mem_of_mem_take member)

theorem sized_drop {xs : List A} (leaves : ∀ x ∈ xs, Sized x) (k : Nat) :
    ∀ x ∈ xs.drop k, Sized x := fun x member => leaves x (List.mem_of_mem_drop member)

theorem root_take_sized (binding : Binding node Sized Clash) {xs : List A} {k : Nat}
    (positive : 0 < k) (inside : k ≤ xs.length) (leaves : ∀ x ∈ xs, Sized x) :
    Sized (root node empty (xs.take k)) := by
  refine root_sized empty binding ?_ (sized_take leaves k)
  intro none_
  have length := List.length_take_of_le inside
  rw [none_, List.length_nil] at length
  omega

theorem root_drop_sized (binding : Binding node Sized Clash) {xs : List A} {k : Nat}
    (inside : k < xs.length) (leaves : ∀ x ∈ xs, Sized x) :
    Sized (root node empty (xs.drop k)) := by
  refine root_sized empty binding ?_ (sized_drop leaves k)
  intro none_
  have length : (xs.drop k).length = xs.length - k := List.length_drop
  rw [none_, List.length_nil] at length
  omega

/-- Lists of one length with one root are equal. -/
theorem root_injective (binding : Binding node Sized Clash) {xs ys : List A}
    (length : xs.length = ys.length) (left : ∀ x ∈ xs, Sized x) (right : ∀ y ∈ ys, Sized y)
    (same : root node empty xs = root node empty ys) :
    xs = ys ∨ Clashes Clash (nodes node empty xs) (nodes node empty ys) := by
  induction size : xs.length using Nat.strongRecOn generalizing xs ys with
  | ind n ih =>
    subst size
    by_cases two : 2 ≤ xs.length
    · have low := split_pos xs.length
      have high := split_lt two
      have two' : 2 ≤ ys.length := length ▸ two
      have eqY : split ys.length = split xs.length := by rw [length]
      have splitX := root_split node empty two
      have splitY := root_split node empty two'
      rw [eqY] at splitY
      rw [splitX, splitY] at same
      have takes : (xs.take (split xs.length)).length = (ys.take (split xs.length)).length := by
        rw [List.length_take, List.length_take, length]
      have drops : (xs.drop (split xs.length)).length = (ys.drop (split xs.length)).length := by
        rw [List.length_drop, List.length_drop, length]
      have shorter : (xs.take (split xs.length)).length < xs.length := by
        rw [List.length_take]
        omega
      have shorter' : (xs.drop (split xs.length)).length < xs.length := by
        rw [List.length_drop]
        omega
      rcases binding.binds (.inl (root_take_sized empty binding low (by omega) left))
        (root_take_sized empty binding low (by omega) right)
        (root_drop_sized empty binding (by omega) right) same with ⟨front, back⟩ | clash
      · rcases ih _ shorter takes (sized_take left _) (sized_take right _) front rfl with
          front | clash
        · rcases ih _ shorter' drops (sized_drop left _) (sized_drop right _) back rfl with
            back | clash
          · left
            rw [← List.take_append_drop (split xs.length) xs, front, back,
              List.take_append_drop]
          · exact .inr (clash.mono (nodes_drop empty two rfl) (nodes_drop empty two' eqY))
        · exact .inr (clash.mono (nodes_take empty two rfl) (nodes_take empty two' eqY))
      · exact .inr ⟨_, nodes_top empty two rfl, _, nodes_top empty two' eqY, clash⟩
    · cases xs with
      | nil => exact .inl (List.length_eq_zero_iff.mp length.symm).symm
      | cons x rest =>
        obtain rfl : rest = [] := by
          apply List.length_eq_zero_iff.mp
          simp only [List.length_cons] at two
          omega
        obtain ⟨y, rfl⟩ := List.length_eq_one_iff.mp length.symm
        rw [root_single, root_single] at same
        exact .inl (by rw [same])

/-- Ascents stay among values of the size of the hash. -/
theorem ascend_sized (binding : Binding node Sized Clash) {r t : A} {ds : List Bool}
    {cs : List A} (folded : ascend node r ds cs = some t) (start : Sized r) : Sized t := by
  induction ds generalizing r cs with
  | nil =>
    cases cs with
    | nil =>
      obtain rfl := Option.some.inj folded
      exact start
    | cons c cs => cases folded
  | cons d ds ih =>
    cases cs with
    | nil => cases folded
    | cons c cs =>
      refine ih folded ?_
      split
      · exact binding.sized _ _
      · exact binding.sized _ _

/-- If a fold ends in the root of all leaves, it has carried the root of the first `m`. -/
theorem extension_sound (binding : Binding node Sized Clash) {xs cs : List A} {m : Nat}
    {seed r : A} (positive : 0 < m) (inside : m ≤ xs.length)
    (full : m = xs.length → ∃ t, m = 2 ^ t) (leaves : ∀ x ∈ xs, Sized x) (start : Sized seed)
    (folded : ascendBoth node (seed, seed) (rise (m - 1) (xs.length - 1)) cs =
      some (r, root node empty xs)) : r = root node empty (xs.take m) ∨
    Clashes Clash (folds node seed (rise (m - 1) (xs.length - 1)) cs) (nodes node empty xs) := by
  induction length : xs.length using Nat.strongRecOn generalizing xs cs m r with
  | ind n ih =>
    subst length
    by_cases all : m = xs.length
    · obtain ⟨t, power⟩ := full all
      rw [← all, power, rise_full] at folded
      cases cs with
      | nil =>
        obtain ⟨rfl, same⟩ := Prod.mk.inj (Option.some.inj folded)
        rw [all, List.take_length]
        exact .inl same
      | cons c cs => cases folded
    · have two : 2 ≤ xs.length := by omega
      obtain ⟨t, eq, below, above⟩ := split_bounds two
      have low := Nat.two_pow_pos t
      have whole := root_split node empty two
      rw [eq] at whole
      have sizedLeft := root_take_sized empty binding low (by omega) leaves
      have sizedRight := root_drop_sized empty binding below leaves
      by_cases left : m ≤ 2 ^ t
      · have way : rise (m - 1) (xs.length - 1) = rise (m - 1) (2 ^ t - 1) ++ [false] :=
          rise_below (by omega) (by omega) (by omega)
        rw [way] at folded ⊢
        obtain ⟨init, c, ⟨fr, sr⟩, rfl, sub, step⟩ := ascendBoth_last node folded
        obtain ⟨rfl, top⟩ : r = fr ∧ root node empty xs = node sr c := Prod.mk.inj step
        rw [whole] at top
        have climbed : ascend node seed (rise (m - 1) (2 ^ t - 1)) init = some sr :=
          ascendBoth_second node sub
        rw [folds_snoc node climbed]
        rcases binding.binds (.inl (ascend_sized binding climbed start)) sizedLeft sizedRight
          top.symm with ⟨same, -⟩ | clash
        · have length : (xs.take (2 ^ t)).length = 2 ^ t := List.length_take_of_le (by omega)
          rw [same] at sub
          have known := ih (2 ^ t) below positive (by omega) (fun _ => ⟨t, by omega⟩)
            (sized_take leaves _) (by rw [length]; exact sub) length
          rw [take_take_below left] at known
          exact known.imp_right fun clash =>
            clash.mono (fun p => List.mem_append_left _) (nodes_take empty two eq)
        · exact .inr ⟨_, List.mem_append_right _ List.mem_cons_self, _, nodes_top empty two eq,
            clash⟩
      · have way := rise_beyond (t := t) (a := m - 2 ^ t - 1) (b := xs.length - 2 ^ t - 1)
          (by omega) (by omega)
        have front : 2 ^ t + (m - 2 ^ t - 1) = m - 1 := by omega
        have last : 2 ^ t + (xs.length - 2 ^ t - 1) = xs.length - 1 := by omega
        rw [front, last] at way
        rw [way] at folded ⊢
        obtain ⟨init, c, ⟨fr, sr⟩, rfl, sub, step⟩ := ascendBoth_last node folded
        obtain ⟨rfl, top⟩ : r = node c fr ∧ root node empty xs = node c sr := Prod.mk.inj step
        rw [whole] at top
        have climbed : ascend node seed (rise (m - 2 ^ t - 1) (xs.length - 2 ^ t - 1)) init =
            some sr := ascendBoth_second node sub
        rw [folds_snoc node climbed]
        rcases binding.binds (.inr (ascend_sized binding climbed start)) sizedLeft sizedRight
          top.symm with ⟨sibling, same⟩ | clash
        · have length : (xs.drop (2 ^ t)).length = xs.length - 2 ^ t := List.length_drop
          rw [same] at sub
          have positive' : 0 < m - 2 ^ t := by omega
          have inside' : m - 2 ^ t ≤ (xs.drop (2 ^ t)).length := by omega
          rcases ih (xs.length - 2 ^ t) (by omega) positive' inside' (fun _ => by omega)
            (sized_drop leaves _) (by rw [length]; exact sub) length with known | clash
          · left
            rw [root_take node empty (by omega) inside, eq, known, sibling]
          · exact .inr (clash.mono (fun p => List.mem_append_left _) (nodes_drop empty two eq))
        · exact .inr ⟨_, List.mem_append_right _ List.mem_cons_self, _, nodes_top empty two eq,
            clash⟩

/-- If a fold along the way of leaf `i` ends in the root, it started at that leaf and its
siblings are those of the tree. -/
theorem path_sound (binding : Binding node Sized Clash) {xs cs : List A} {i : Nat} {r : A}
    (inside : i < xs.length) (leaves : ∀ x ∈ xs, Sized x) (start : Sized r)
    (folded : ascend node r (turns i (xs.length - 1)) cs = some (root node empty xs)) :
    (r = xs[i] ∧ cs = path node empty i xs) ∨
    Clashes Clash (folds node r (turns i (xs.length - 1)) cs) (nodes node empty xs) := by
  induction length : xs.length using Nat.strongRecOn generalizing xs cs i with
  | ind n ih =>
    subst length
    by_cases two : 2 ≤ xs.length
    · obtain ⟨t, eq, below, above⟩ := split_bounds two
      have low := Nat.two_pow_pos t
      have whole := root_split node empty two
      rw [eq] at whole
      have sizedLeft := root_take_sized empty binding low (by omega) leaves
      have sizedRight := root_drop_sized empty binding below leaves
      by_cases left : i < 2 ^ t
      · have way : turns i (xs.length - 1) = turns i (2 ^ t - 1) ++ [false] :=
          turns_below left (by omega) (by omega)
        rw [way] at folded ⊢
        obtain ⟨init, c, top, rfl, climbed, same⟩ := ascend_last node folded
        rw [folds_snoc node climbed]
        rw [whole] at same
        rcases binding.binds (.inl (ascend_sized binding climbed start)) sizedLeft sizedRight
          same.symm with ⟨equal, sibling⟩ | clash
        · have length : (xs.take (2 ^ t)).length = 2 ^ t := List.length_take_of_le (by omega)
          have fits : i < (xs.take (2 ^ t)).length := by omega
          rw [equal] at climbed
          rcases ih (2 ^ t) below fits (sized_take leaves _) (by rw [length]; exact climbed) length
            with ⟨first, rest⟩ | clash
          · left
            rw [path, dif_pos two, eq, if_pos left, ← rest, sibling, first, List.getElem_take]
            exact ⟨rfl, rfl⟩
          · exact .inr (clash.mono (fun p => List.mem_append_left _) (nodes_take empty two eq))
        · exact .inr ⟨_, List.mem_append_right _ List.mem_cons_self, _, nodes_top empty two eq,
            clash⟩
      · have way := turns_beyond (t := t) (a := i - 2 ^ t) (b := xs.length - 2 ^ t - 1)
          (by omega) (by omega)
        have back : 2 ^ t + (i - 2 ^ t) = i := by omega
        have last : 2 ^ t + (xs.length - 2 ^ t - 1) = xs.length - 1 := by omega
        rw [back, last] at way
        rw [way] at folded ⊢
        obtain ⟨init, c, top, rfl, climbed, same⟩ := ascend_last node folded
        rw [folds_snoc node climbed]
        rw [whole] at same
        rcases binding.binds (.inr (ascend_sized binding climbed start)) sizedLeft sizedRight
          same.symm with ⟨sibling, equal⟩ | clash
        · have length : (xs.drop (2 ^ t)).length = xs.length - 2 ^ t := List.length_drop
          have fits : i - 2 ^ t < (xs.drop (2 ^ t)).length := by omega
          rw [equal] at climbed
          rcases ih (xs.length - 2 ^ t) (by omega) fits (sized_drop leaves _)
            (by rw [length]; exact climbed) length with ⟨first, rest⟩ | clash
          · left
            simp only [List.getElem_drop, back] at first
            rw [path, dif_pos two, eq, if_neg left, ← rest, sibling]
            exact ⟨first, rfl⟩
          · exact .inr (clash.mono (fun p => List.mem_append_left _) (nodes_drop empty two eq))
        · exact .inr ⟨_, List.mem_append_right _ List.mem_cons_self, _, nodes_top empty two eq,
            clash⟩
    · obtain ⟨x, rfl⟩ := List.length_eq_one_iff.mp (show xs.length = 1 by omega)
      obtain rfl : i = 0 := by
        simp only [List.length_singleton] at inside
        omega
      rw [List.length_singleton, Nat.sub_self, turns_zero] at folded
      cases cs with
      | nil =>
        left
        rw [path, dif_neg two]
        rw [root_single] at folded
        exact ⟨Option.some.inj folded, rfl⟩
      | cons c cs => cases folded

end Binding

end HashTree
