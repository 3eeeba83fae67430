import Mathlib.Data.List.Infix
import Mathlib.Data.List.Perm.Basic

/-!
# Dynamically typed values

Statements arrive as decoded JSON and are never checked field by field, so the
programs below run on untyped values and an ill-typed use raises. Values are the
JSON ones, with dictionaries as insertion-ordered association lists whose keys
are scalars. A Boolean equals the integer 0 or 1, as in the source language.
-/

namespace PyValue

inductive Value where
  | null
  | bool (b : Bool)
  | int (n : Int)
  | str (s : String)
  | list (xs : List Value)
  | dict (kvs : List (Value × Value))
  deriving Inhabited

abbrev Dict := List (Value × Value)

/-- Exceptions. Only texts written in the source are kept as messages, and `nonAsciiKey` what
its text is made of. It and `unicodeDecodeError` are kinds of `ValueError`. -/
inductive PyErr where
  | typeError
  | attributeError
  | keyError
  | recursionError
  | valueError (message : String)
  | unicodeDecodeError
  | nonAsciiKey (key path : String)
  | runtimeError (message : String)
  | interruptedError (message : String)
  | registrationRefused (reasons : List String)
  | serviceUnavailable (message : String)
  deriving DecidableEq

abbrev Py := Except PyErr

/-- A sequence returns exactly if both of its parts do. -/
theorem bind_ok {A B : Type} {x : Py A} {f : A → Py B} {b : B} :
    (x >>= f) = .ok b ↔ ∃ a, x = .ok a ∧ f a = .ok b := by
  cases x with
  | error e => simp [bind, Except.bind]
  | ok a => simp [bind, Except.bind]

@[simp] theorem ok_bind {A B : Type} (a : A) (f : A → Py B) :
    ((Except.ok a : Py A) >>= f) = f a := rfl

@[simp] theorem error_bind {A B : Type} (e : PyErr) (f : A → Py B) :
    ((Except.error e : Py A) >>= f) = .error e := rfl

@[simp] theorem pure_ok {A : Type} (a : A) : (pure a : Py A) = .ok a := rfl

@[simp] theorem throw_error {A : Type} (e : PyErr) : (throw e : Py A) = .error e := rfl

def Returns {A : Type} (x : Py A) : Prop := ∃ a, x = .ok a

@[simp] theorem returns_ok {A : Type} (a : A) : Returns (Except.ok a : Py A) := ⟨a, rfl⟩

@[simp] theorem not_returns_error {A : Type} (e : PyErr) :
    ¬ Returns (Except.error e : Py A) := by
  rintro ⟨a, ha⟩
  cases ha

theorem returns_bind {A B : Type} {x : Py A} {f : A → Py B} :
    Returns (x >>= f) ↔ ∃ a, x = .ok a ∧ Returns (f a) := by
  cases x with
  | error e => simp
  | ok a => simp

instance {A : Type} (x : Py A) : Decidable (Returns x) :=
  match x with
  | .ok a => .isTrue ⟨a, rfl⟩
  | .error e => .isFalse (not_returns_error e)

theorem map_ok {A B : Type} {x : Py A} {f : A → B} {b : B} (h : x.map f = .ok b) :
    ∃ a, x = .ok a ∧ f a = b := by
  cases x with
  | error e => cases h
  | ok a => exact ⟨a, rfl, Except.ok.inj h⟩

theorem mapM_ok_length {A B : Type} {f : A → Py B} {xs : List A} {ys : List B}
    (h : xs.mapM f = .ok ys) : ys.length = xs.length := by
  induction xs generalizing ys with
  | nil => simp [← Except.ok.inj h]
  | cons x xs ih =>
    rw [List.mapM_cons] at h
    obtain ⟨y, -, h⟩ := bind_ok.mp h
    obtain ⟨rest, made, h⟩ := bind_ok.mp h
    obtain rfl := Except.ok.inj h
    simp [ih made]

/-- Every result of a loop comes from one of its elements. -/
theorem mem_mapM_ok {A B : Type} {f : A → Py B} {xs : List A} {ys : List B}
    (h : xs.mapM f = .ok ys) {y : B} (member : y ∈ ys) : ∃ x ∈ xs, f x = .ok y := by
  induction xs generalizing ys with
  | nil =>
    obtain rfl := Except.ok.inj h
    cases member
  | cons x xs ih =>
    rw [List.mapM_cons] at h
    obtain ⟨first, made, h⟩ := bind_ok.mp h
    obtain ⟨rest, later, h⟩ := bind_ok.mp h
    obtain rfl := Except.ok.inj h
    rcases List.mem_cons.mp member with rfl | member
    · exact ⟨x, by simp, made⟩
    · obtain ⟨x', inside, made⟩ := ih later member
      exact ⟨x', by simp [inside], made⟩

theorem mapM_ok_mem {A B : Type} {f : A → Py B} {xs : List A} {ys : List B}
    (h : xs.mapM f = .ok ys) {x : A} (member : x ∈ xs) : ∃ y ∈ ys, f x = .ok y := by
  induction xs generalizing ys with
  | nil => cases member
  | cons x' xs ih =>
    rw [List.mapM_cons] at h
    obtain ⟨first, made, h⟩ := bind_ok.mp h
    obtain ⟨rest, later, h⟩ := bind_ok.mp h
    obtain rfl := Except.ok.inj h
    rcases List.mem_cons.mp member with rfl | member
    · exact ⟨first, List.mem_cons_self, made⟩
    · obtain ⟨y, inside, made⟩ := ih later member
      exact ⟨y, List.mem_cons_of_mem _ inside, made⟩

/-- A loop keeps the places of its elements. -/
theorem mapM_ok_get {A B : Type} {f : A → Py B} {xs : List A} {ys : List B}
    (h : xs.mapM f = .ok ys) {i : Nat} {x : A} (found : xs[i]? = some x) :
    ∃ y, ys[i]? = some y ∧ f x = .ok y := by
  induction xs generalizing ys i with
  | nil => cases found
  | cons x' xs ih =>
    rw [List.mapM_cons] at h
    obtain ⟨first, made, h⟩ := bind_ok.mp h
    obtain ⟨rest, later, h⟩ := bind_ok.mp h
    obtain rfl := Except.ok.inj h
    cases i with
    | zero =>
      obtain rfl := Option.some.inj found
      exact ⟨first, rfl, made⟩
    | succ i => exact ih later found

/-- A loop returns if its body does on every element. -/
theorem mapM_returns {A B : Type} {f : A → Py B} {xs : List A} :
    Returns (xs.mapM f) ↔ ∀ x ∈ xs, Returns (f x) := by
  induction xs with
  | nil => simp
  | cons x xs ih =>
    rw [List.mapM_cons, returns_bind]
    constructor
    · rintro ⟨y, hy, rest⟩ z member
      obtain ⟨ys, hys, -⟩ := returns_bind.mp rest
      rcases List.mem_cons.mp member with rfl | member
      · exact ⟨y, hy⟩
      · exact ih.mp ⟨ys, hys⟩ z member
    · intro each
      obtain ⟨y, hy⟩ := each x List.mem_cons_self
      obtain ⟨ys, hys⟩ := ih.mpr fun z hz => each z (List.mem_cons_of_mem _ hz)
      exact ⟨y, hy, by simp [hys]⟩

/-- If the body returns with a property on each element, so does the loop. -/
theorem mapM_each {A B : Type} {f : A → Py B} {P : B → Prop} {xs : List A}
    (each : ∀ x ∈ xs, ∃ y, f x = .ok y ∧ P y) : ∃ ys, xs.mapM f = .ok ys ∧ ∀ y ∈ ys, P y := by
  induction xs with
  | nil => exact ⟨[], rfl, by simp⟩
  | cons x xs ih =>
    obtain ⟨y, made, holds⟩ := each x List.mem_cons_self
    obtain ⟨ys, rest, all⟩ := ih fun x' later => each x' (List.mem_cons_of_mem _ later)
    refine ⟨y :: ys, ?_, fun y' inside => ?_⟩
    · rw [List.mapM_cons, made, ok_bind, rest]
      rfl
    · rcases List.mem_cons.mp inside with rfl | later
      · exact holds
      · exact all y' later

theorem mapM_append_ok {A B : Type} {f : A → Py B} {xs ys : List A} {us vs : List B}
    (hx : xs.mapM f = .ok us) (hy : ys.mapM f = .ok vs) : (xs ++ ys).mapM f = .ok (us ++ vs) := by
  induction xs generalizing us with
  | nil =>
    obtain rfl := Except.ok.inj hx
    exact hy
  | cons x xs ih =>
    rw [List.mapM_cons] at hx
    obtain ⟨u, hu, hx⟩ := bind_ok.mp hx
    obtain ⟨rest, hr, hx⟩ := bind_ok.mp hx
    obtain rfl := Except.ok.inj hx
    rw [List.cons_append, List.mapM_cons, hu, ok_bind, ih hr]
    rfl

/-- The order of the calls only changes the order of the results. -/
theorem mapM_perm {A B : Type} {f : A → Py B} {xs ys : List A} (order : xs.Perm ys)
    {us : List B} (made : xs.mapM f = .ok us) : ∃ vs, ys.mapM f = .ok vs ∧ us.Perm vs := by
  induction order generalizing us with
  | nil => exact ⟨us, made, List.Perm.refl _⟩
  | cons x _ ih =>
    rw [List.mapM_cons] at made
    obtain ⟨u, first, made⟩ := bind_ok.mp made
    obtain ⟨rest, later, made⟩ := bind_ok.mp made
    obtain rfl := Except.ok.inj made
    obtain ⟨vs, others, perm⟩ := ih later
    refine ⟨u :: vs, ?_, perm.cons u⟩
    rw [List.mapM_cons, first, ok_bind, others]
    rfl
  | swap x y zs =>
    rw [List.mapM_cons] at made
    obtain ⟨u, first, made⟩ := bind_ok.mp made
    obtain ⟨rest, made', made⟩ := bind_ok.mp made
    obtain rfl := Except.ok.inj made
    rw [List.mapM_cons] at made'
    obtain ⟨w, second, made'⟩ := bind_ok.mp made'
    obtain ⟨rest', later, made'⟩ := bind_ok.mp made'
    obtain rfl := Except.ok.inj made'
    refine ⟨w :: u :: rest', ?_, List.Perm.swap w u rest'⟩
    rw [List.mapM_cons, second, ok_bind, List.mapM_cons, first, ok_bind, later]
    rfl
  | trans _ _ ih ih' =>
    obtain ⟨vs, made', perm⟩ := ih made
    obtain ⟨ws, made'', perm'⟩ := ih' made'
    exact ⟨ws, made'', perm.trans perm'⟩

namespace Value

def hashable : Value → Bool
  | .list _ => false
  | .dict _ => false
  | _ => true

/-- Equality of scalars. Containers are never equal here: they are not hashable,
so no dictionary has one as a key. -/
def scalarEq : Value → Value → Bool
  | .null, .null => true
  | .bool a, .bool b => a == b
  | .bool a, .int n => (if a then 1 else 0) == n
  | .int n, .bool a => n == (if a then 1 else 0)
  | .int m, .int n => m == n
  | .str s, .str t => s == t
  | _, _ => false

end Value

def find {A : Type} : List (Value × A) → Value → Option A
  | [], _ => none
  | (k, v) :: rest, x => if k.scalarEq x then some v else find rest x

/-- `d[k] = v`: the first key stays where it is, a new key goes last. -/
def insert {A : Type} : List (Value × A) → Value → A → List (Value × A)
  | [], k, v => [(k, v)]
  | (k', v') :: rest, k, v =>
    if k'.scalarEq k then (k', v) :: rest else (k', v') :: insert rest k v

namespace Value

mutual
/-- `==`. Dictionaries are compared without regard to insertion order. -/
def eq : Value → Value → Bool
  | .list xs, .list ys => eqList xs ys
  | .dict xs, .dict ys => xs.length == ys.length && eqDict xs ys
  | a, b => scalarEq a b
termination_by structural a _ => a

def eqList : List Value → List Value → Bool
  | [], [] => true
  | x :: xs, y :: ys => eq x y && eqList xs ys
  | _, _ => false
termination_by structural a _ => a

def eqDict : List (Value × Value) → List (Value × Value) → Bool
  | [], _ => true
  | (k, v) :: xs, ys => (match find ys k with
    | some w => eq v w
    | none => false) && eqDict xs ys
termination_by structural a _ => a
end

def truthy : Value → Bool
  | .null => false
  | .bool b => b
  | .int n => n != 0
  | .str s => s != ""
  | .list xs => !xs.isEmpty
  | .dict kvs => !kvs.isEmpty

/-- `v.get(k, default)` on a value that must be a dictionary. -/
def get : Value → String → Value → Py Value
  | .dict kvs, k, default => .ok ((find kvs (.str k)).getD default)
  | _, _, _ => .error .attributeError

/-- `v[k]` with a string key. -/
def item : Value → String → Py Value
  | .dict kvs, k => match find kvs (.str k) with
    | some v => .ok v
    | none => .error .keyError
  | _, _ => .error .typeError

/-- `list(v)`. -/
def iterate : Value → Py (List Value)
  | .list xs => .ok xs
  | .str s => .ok (s.toList.map fun c => .str (String.singleton c))
  | .dict kvs => .ok (kvs.map Prod.fst)
  | _ => .error .typeError

def isNone : Value → Bool
  | .null => true
  | _ => false

def ofStrings (xs : List String) : Value := .list (xs.map .str)

end Value

open Value

@[simp] theorem scalarEq_str (s t : String) : scalarEq (.str s) (.str t) = (s == t) := rfl

@[simp] theorem eq_str_str (s t : String) : eq (.str s) (.str t) = (s == t) := rfl

@[simp] theorem eq_null (v : Value) : eq .null v = true ↔ v = .null := by
  cases v <;> simp [eq, scalarEq]

/-- Only the text itself equals a text. -/
@[simp] theorem eq_str (s : String) (v : Value) : eq (.str s) v = true ↔ v = .str s := by
  cases v with
  | str t =>
    rw [eq_str_str, beq_iff_eq, Value.str.injEq]
    exact eq_comm
  | _ => simp [eq, scalarEq]

@[simp] theorem eq_str_right (s : String) (v : Value) : eq v (.str s) = true ↔ v = .str s := by
  cases v <;> simp [eq, scalarEq]

theorem isNone_iff (v : Value) : v.isNone = true ↔ v = .null := by
  cases v <;> simp [Value.isNone]

theorem isNone_false_iff (v : Value) : v.isNone = false ↔ v ≠ .null := by
  cases v <;> simp [Value.isNone]

/-- A key is found where it was inserted. -/
theorem find_insert_self {A : Type} (d : List (Value × A)) {k : Value}
    (self : scalarEq k k = true) (v : A) : find (insert d k v) k = some v := by
  induction d with
  | nil => simp [insert, find, self]
  | cons p rest ih =>
    obtain ⟨k', v'⟩ := p
    by_cases h : scalarEq k' k = true
    · simp [insert, find, h]
    · simpa [insert, find, h] using ih

/-- A new key is appended. -/
theorem insert_absent {A : Type} {d : List (Value × A)} {k : Value} (absent : find d k = none)
    (a : A) : insert d k a = d ++ [(k, a)] := by
  induction d with
  | nil => rfl
  | cons x d ih =>
    obtain ⟨k', b⟩ := x
    rw [find] at absent
    split at absent
    · cases absent
    next other =>
      rw [insert, if_neg other, ih absent]
      rfl

/-- Inserting one name hides no other. -/
theorem find_insert_str_ne {A : Type} (d : List (Value × A)) {s t : String} (different : s ≠ t)
    (v : A) : find (insert d (.str s) v) (.str t) = find d (.str t) := by
  induction d with
  | nil => simp [insert, find, different]
  | cons p rest ih =>
    obtain ⟨k', v'⟩ := p
    cases k' with
    | str r =>
      by_cases h : r = s
      · subst r
        simp [insert, find, different]
      · simp [insert, find, h, ih]
    | _ => simp [insert, find, scalarEq, ih]

/-- A dictionary written with string keys. -/
def fields (xs : List (String × Value)) : Dict := xs.map fun x => (.str x.1, x.2)

/-- `d[k]` on a dictionary. -/
def getItem (d : Dict) (k : String) : Py Value :=
  match find d (.str k) with
  | some v => .ok v
  | none => .error .keyError

/-- `d.get(k)` on a dictionary. -/
def getOr (d : Dict) (k : String) : Value := (find d (.str k)).getD .null

def hasKey (d : Dict) (k : String) : Bool := (find d (.str k)).isSome

/-- `d.get(k) if d else None`, for a payload that may be absent. -/
def field : Option Dict → String → Value
  | some d, k => getOr d k
  | none, _ => .null

/-- `d.get(x)` for a computed key, which must be hashable. -/
def lookup {A : Type} (d : List (Value × A)) (x : Value) : Py (Option A) :=
  if x.hashable then .ok (find d x) else .error .typeError

/-- A lookup in a dict needs a hashable key. -/
theorem lookup_find {A : Type} {d : List (Value × A)} {x : Value} {found : Option A}
    (h : lookup d x = .ok found) : x.hashable = true ∧ found = find d x := by
  unfold lookup at h
  split at h
  next keyed => exact ⟨keyed, (Except.ok.inj h).symm⟩
  next => cases h

theorem lookup_hashable {A : Type} {d : List (Value × A)} {x : Value}
    (hashable : x.hashable = true) : lookup d x = .ok (find d x) := by
  rw [lookup, if_pos hashable]

/-- `x in xs` for a list or a tuple. -/
def memberOf (x : Value) (xs : List Value) : Bool := xs.any fun y => eq x y

/-- `x in container`. -/
def isIn (x : Value) : Value → Py Bool
  | .list xs => .ok (memberOf x xs)
  | .str t => match x with
    | .str s => .ok (decide (s.toList <:+: t.toList))
    | _ => .error .typeError
  | .dict kvs => if x.hashable then .ok (find kvs x).isSome else .error .typeError
  | _ => .error .typeError

/-- A text is a member only as itself. -/
theorem memberOf_str {c : String} {xs : List Value} :
    memberOf (.str c) xs = true ↔ .str c ∈ xs := by
  rw [memberOf, List.any_eq_true]
  constructor
  · rintro ⟨x, inside, same⟩
    rwa [(eq_str _ _).mp same] at inside
  · intro inside
    exact ⟨_, inside, by simp⟩

/-- `dict(v)`: a dictionary is copied, any other iterable must consist of pairs. -/
def dictOf : Value → Py Dict
  | .dict kvs => .ok kvs
  | v => do
    let pairs ← v.iterate
    pairs.foldlM (fun d p => do
      let kv ← p.iterate
      match kv with
      | [k, x] => if k.hashable then pure (insert d k x) else throw .typeError
      | _ => throw (.valueError "dictionary update sequence element has the wrong length")) []

theorem getItem_getOr {d : Dict} {k : String} {v : Value} (h : getItem d k = .ok v) :
    getOr d k = v := by
  unfold getItem at h
  unfold getOr
  cases found : find d (.str k) with
  | none => simp [found] at h
  | some w =>
    simp only [found, Except.ok.injEq] at h
    simp [h]

def number : Value → Option Int
  | .int n => some n
  | .bool b => some (if b then 1 else 0)
  | _ => none

def charsLt : List Char → List Char → Bool
  | [], [] => false
  | [], _ :: _ => true
  | _ :: _, [] => false
  | c :: cs, d :: ds => if c = d then charsLt cs ds else decide (c.toNat < d.toNat)

def scalarLess (orEqual : Bool) (a b : Value) : Py Bool :=
  match number a, number b with
  | some m, some n => .ok (if orEqual then decide (m ≤ n) else decide (m < n))
  | _, _ => match a, b with
    | .str s, .str t =>
      .ok (charsLt s.toList t.toList || (orEqual && s == t))
    | _, _ => .error .typeError

mutual
/-- `a < b`, or `a <= b` when `orEqual` is set. Lists compare at the first
position where they differ. -/
def less (orEqual : Bool) : Value → Value → Py Bool
  | .list xs, .list ys => lessList orEqual xs ys
  | a, b => scalarLess orEqual a b
termination_by structural a _ => a

def lessList (orEqual : Bool) : List Value → List Value → Py Bool
  | [], [] => .ok orEqual
  | [], _ :: _ => .ok true
  | _ :: _, [] => .ok false
  | x :: xs, y :: ys => if Value.eq x y then lessList orEqual xs ys else less orEqual x y
termination_by structural a _ => a
end

/-- `a > b`. -/
def greater (a b : Value) : Py Bool := less false b a

def insertSorted {A : Type} (key : A → Value) (x : A) : List A → Py (List A)
  | [] => .ok [x]
  | y :: ys => do
    if ← less false (key x) (key y) then pure (x :: y :: ys)
    else pure (y :: (← insertSorted key x ys))

/-- `sorted(xs, key=key)`, stable; a comparison that is not supported raises. -/
def sortedBy {A : Type} (key : A → Value) (xs : List A) : Py (List A) :=
  xs.foldlM (fun acc x => insertSorted key x acc) []

/-- The blanks of the language beyond ASCII. -/
def wideBlank (n : Nat) : Bool :=
  [0x85, 0xa0, 0x1680, 0x2028, 0x2029, 0x202f, 0x205f, 0x3000].contains n ||
    (0x2000 ≤ n && n ≤ 0x200a)

/-- Where the decimal digits of each script begin; its ten digits follow one another. -/
def digitZeros : List Nat :=
  [0x30, 0x660, 0x6f0, 0x7c0, 0x966, 0x9e6, 0xa66, 0xae6, 0xb66, 0xbe6, 0xc66, 0xce6, 0xd66,
   0xde6, 0xe50, 0xed0, 0xf20, 0x1040, 0x1090, 0x17e0, 0x1810, 0x1946, 0x19d0, 0x1a80, 0x1a90,
   0x1b50, 0x1bb0, 0x1c40, 0x1c50, 0xa620, 0xa8d0, 0xa900, 0xa9d0, 0xa9f0, 0xaa50, 0xabf0,
   0xff10, 0x104a0, 0x10d30, 0x11066, 0x110f0, 0x11136, 0x111d0, 0x112f0, 0x11450, 0x114d0,
   0x11650, 0x116c0, 0x11730, 0x118e0, 0x11950, 0x11c50, 0x11d50, 0x11da0, 0x11f50, 0x16a60,
   0x16ac0, 0x16b50, 0x1d7ce, 0x1d7d8, 0x1d7e2, 0x1d7ec, 0x1d7f6, 0x1e140, 0x1e2f0, 0x1e4f0,
   0x1e950, 0x1fbf0]

/-- The decimal digit that a character stands for, in any script. -/
def decimalDigit (n : Nat) : Option Nat :=
  (digitZeros.find? fun first => first ≤ n && n < first + 10).map fun first => n - first

/-- A character as `int` reads it: the blanks and digits beyond ASCII count as those of ASCII,
and anything else there as a question mark. -/
def asciiDecimal (c : Char) : Char :=
  if c.toNat < 127 then c
  else if wideBlank c.toNat then ' '
  else match decimalDigit c.toNat with
    | some d => Char.ofNat (48 + d)
    | none => '?'

/-- The blanks that `int` leaves out at both ends. -/
def endBlank (c : Char) : Bool := c = ' ' || (9 ≤ c.toNat && c.toNat ≤ 13)

def trimBlanks (cs : List Char) : List Char :=
  ((cs.dropWhile endBlank).reverse.dropWhile endBlank).reverse

/-- The digits of a run in which each underscore stands before a digit. -/
def ungrouped : List Char → Option (List Char)
  | [] => some []
  | '_' :: c :: cs => if c.isDigit then (ungrouped cs).map (c :: ·) else none
  | c :: cs => if c.isDigit then (ungrouped cs).map (c :: ·) else none

/-- `sys.int_info.default_max_str_digits`. -/
def maxStrDigits : Nat := 4300

/-- The number that a run of digits writes. No underscore comes first, and neither no digit nor
more of them than the interpreter converts is a number. -/
def digitsValue (cs : List Char) : Option Nat := do
  if cs.head? = some '_' then none
  let digits ← ungrouped cs
  if digits.isEmpty || maxStrDigits < digits.length then none
  else some (digits.foldl (fun n c => 10 * n + (c.toNat - 48)) 0)

def notNumber : PyErr := .valueError "invalid literal for int()"

/-- `int(s)`: an optional sign and digits, blanks at both ends aside. -/
def intOfText (s : String) : Py Int :=
  match trimBlanks (s.toList.map asciiDecimal) with
  | '-' :: cs => match digitsValue cs with
    | some n => .ok (-(n : Int))
    | none => .error notNumber
  | '+' :: cs => match digitsValue cs with
    | some n => .ok n
    | none => .error notNumber
  | cs => match digitsValue cs with
    | some n => .ok n
    | none => .error notNumber

/-- `int(v)`. -/
def intOf : Value → Py Int
  | .int n => .ok n
  | .bool b => .ok (if b then 1 else 0)
  | .str s => intOfText s
  | _ => .error .typeError

example : (intOfText "\u2003-1_0\n", intOfText "\u0661\u0662", intOfText "1__0") =
    (.ok (-10), .ok 12, .error notNumber) := by decide

end PyValue
