import Mathlib.Data.List.Basic
import Custody.Effects

/-!
# Files and directories

A tree maps paths to files and directories. What an operation may touch is stated by the
paths that it keeps: whichever way it ends, the nodes there are those of the start.
-/

namespace DirectoryTree

open Effects

abbrev Path := List String

inductive Node (C : Type) where
  | file (content : C)
  | dir
  deriving DecidableEq

abbrev Tree (C : Type) := Path → Option (Node C)

variable {C E A B : Type}

def Tree.put (t : Tree C) (p : Path) (n : Option (Node C)) : Tree C :=
  fun q => if q = p then n else t q

@[simp] theorem put_self (t : Tree C) (p : Path) (n : Option (Node C)) : t.put p n p = n := by
  simp [Tree.put]

theorem put_other (t : Tree C) {p q : Path} (n : Option (Node C)) (other : q ≠ p) :
    t.put p n q = t q := by
  simp [Tree.put, other]

/-- What a file holds. -/
def contentAt (t : Tree C) (p : Path) : Option C :=
  match t p with
  | some (.file c) => some c
  | _ => none

/-- A computation on what the tree holds now. -/
def reading (f : Tree C → Except E A) : EStateM E (Tree C) A := fun t => lift (f t) t

/-- A new file, which must not be there yet. -/
def create (taken : E) (p : Path) (c : C) : EStateM E (Tree C) Unit := fun t =>
  match t p with
  | none => .ok () (t.put p (some (.file c)))
  | some _ => .error taken t

/-- A new directory. -/
def makeDir (taken : E) (p : Path) : EStateM E (Tree C) Unit := fun t =>
  match t p with
  | none => .ok () (t.put p (some .dir))
  | some _ => .error taken t

/-- A directory, unless there is one already. -/
def ensureDir (taken : E) (p : Path) : EStateM E (Tree C) Unit := fun t =>
  match t p with
  | none => .ok () (t.put p (some .dir))
  | some .dir => .ok () t
  | some (.file _) => .error taken t

/-- The file at `p` replaces what file is at `q`. -/
def replace (failed : E) (p q : Path) : EStateM E (Tree C) Unit := fun t =>
  match t p, t q with
  | some (.file _), some .dir => .error failed t
  | some (.file c), _ => .ok () ((t.put p none).put q (some (.file c)))
  | _, _ => .error failed t

theorem create_new {taken : E} {p : Path} {c : C} {t : Tree C} (absent : t p = none) :
    create taken p c t = .ok () (t.put p (some (.file c))) := by
  rw [create, absent]

theorem replace_file {failed : E} {p q : Path} {c : C} {t : Tree C}
    (there : t p = some (.file c)) (isFile : t q ≠ some .dir) :
    replace failed p q t = .ok () ((t.put p none).put q (some (.file c))) := by
  rw [replace, there]
  cases at_ : t q with
  | none => rfl
  | some n => cases n with
    | file c' => rfl
    | dir => exact absurd at_ isFile

def Keeps (P : Path → Prop) (x : EStateM E (Tree C) A) : Prop :=
  ∀ t p, P p → final (x t) p = t p

theorem keeps_pure {P : Path → Prop} (a : A) : Keeps P (pure a : EStateM E (Tree C) A) :=
  fun _ _ _ => rfl

theorem keeps_reading {P : Path → Prop} (f : Tree C → Except E A) : Keeps P (reading f) := by
  intro t p _
  change final (lift (f t) t) p = t p
  cases f t with
  | ok a => rfl
  | error e => rfl

theorem keeps_bind {P : Path → Prop} {x : EStateM E (Tree C) A} {f : A → EStateM E (Tree C) B}
    (first : Keeps P x) (rest : ∀ a, Keeps P (f a)) : Keeps P (x >>= f) := by
  intro t p protected_
  have before := first t p protected_
  change final (EStateM.bind x f t) p = t p
  rw [EStateM.bind]
  cases done : x t with
  | ok a t' =>
    rw [done] at before
    exact (rest a t' p protected_).trans before
  | error e t' =>
    rw [done] at before
    exact before

theorem keeps_create {P : Path → Prop} {taken : E} {q : Path} {c : C} (outside : ¬ P q) :
    Keeps P (create taken q c) := by
  intro t p protected_
  have other : p ≠ q := fun same => outside (same ▸ protected_)
  rw [create]
  cases t q with
  | none => exact put_other t _ other
  | some n => rfl

theorem keeps_makeDir {P : Path → Prop} {taken : E} {q : Path} (outside : ¬ P q) :
    Keeps P (makeDir taken q : EStateM E (Tree C) Unit) := by
  intro t p protected_
  have other : p ≠ q := fun same => outside (same ▸ protected_)
  rw [makeDir]
  cases t q with
  | none => exact put_other t _ other
  | some n => rfl

theorem keeps_ensureDir {P : Path → Prop} {taken : E} {q : Path} (outside : ¬ P q) :
    Keeps P (ensureDir taken q : EStateM E (Tree C) Unit) := by
  intro t p protected_
  have other : p ≠ q := fun same => outside (same ▸ protected_)
  rw [ensureDir]
  cases t q with
  | none => exact put_other t _ other
  | some n => cases n with
    | file c => rfl
    | dir => rfl

theorem keeps_forM {P : Path → Prop} {f : A → EStateM E (Tree C) Unit} : ∀ {xs : List A},
    (∀ x ∈ xs, Keeps P (f x)) → Keeps P (xs.forM f)
  | [], _ => keeps_pure ()
  | x :: xs, each => by
    change Keeps P (f x >>= fun _ => xs.forM f)
    apply keeps_bind (each x List.mem_cons_self)
    intro _
    exact keeps_forM fun y later => each y (List.mem_cons_of_mem _ later)

end DirectoryTree
