import Custody.CanonicalForm

/-!
# Equality of values

Python's `==` is an equivalence on scalars, among which a truth value equals its number,
and transitive on all values. Keys that are equal find the same entry.
-/

namespace Equality

open PyValue CanonicalForm

/-- What a scalar is compared by. -/
def scalarCode : Value → Option (Option (Int ⊕ String))
  | .null => some none
  | .bool b => some (some (.inl (if b then 1 else 0)))
  | .int n => some (some (.inl n))
  | .str s => some (some (.inr s))
  | _ => none

theorem scalarEq_iff (a b : Value) :
    a.scalarEq b = true ↔ scalarCode a = scalarCode b ∧ (scalarCode a).isSome = true := by
  cases a <;> cases b <;> simp [Value.scalarEq, scalarCode]
  case bool.bool x y => cases x <;> cases y <;> decide

theorem scalarEq_refl {v : Value} (hashable : v.hashable = true) : v.scalarEq v = true := by
  cases v with
  | list xs => cases hashable
  | dict kvs => cases hashable
  | _ => simp [Value.scalarEq]

theorem scalarEq_trans {a b c : Value} (first : a.scalarEq b = true)
    (second : b.scalarEq c = true) : a.scalarEq c = true := by
  rw [scalarEq_iff] at first second ⊢
  exact ⟨first.1.trans second.1, first.2⟩

theorem scalarEq_symm {a b : Value} (same : a.scalarEq b = true) : b.scalarEq a = true := by
  rw [scalarEq_iff] at same ⊢
  exact ⟨same.1.symm, same.1 ▸ same.2⟩

theorem eq_scalar {a : Value} (scalar : a.hashable = true) (b : Value) :
    Value.eq a b = a.scalarEq b := by
  cases a <;> cases b <;> first | rfl | cases scalar

theorem hashable_of_scalarEq {a b : Value} (same : a.scalarEq b = true) : b.hashable = true := by
  cases a <;> cases b <;> first | rfl | cases same

theorem scalarEq_str_left {s : String} {v : Value} (h : Value.scalarEq (.str s) v = true) :
    v = .str s := by
  cases v with
  | str t =>
    rw [scalarEq_str, beq_iff_eq] at h
    rw [h]
  | _ => cases h

/-- Values that equal one value equal each other. -/
theorem eq_of_common {a b c : Value} (left : a.hashable = true) (right : b.hashable = true)
    (first : a.eq c = true) (second : b.eq c = true) : b.eq a = true := by
  rw [eq_scalar left] at first
  rw [eq_scalar right] at second ⊢
  exact scalarEq_trans second (scalarEq_symm first)

theorem find_mem {A : Type} {d : List (Value × A)} {x : Value} {a : A} (h : find d x = some a) :
    ∃ k, (k, a) ∈ d ∧ k.scalarEq x = true := by
  induction d with
  | nil => cases h
  | cons p rest ih =>
    obtain ⟨k, b⟩ := p
    by_cases same : k.scalarEq x = true
    · rw [find, if_pos same] at h
      obtain rfl := Option.some.inj h
      exact ⟨k, List.mem_cons_self, same⟩
    · rw [find, if_neg same] at h
      obtain ⟨k', inside, same⟩ := ih h
      exact ⟨k', List.mem_cons_of_mem _ inside, same⟩

theorem find_any {A : Type} (d : List (Value × A)) (k : Value) :
    (find d k).isSome = d.any fun x => x.1.scalarEq k := by
  induction d with
  | nil => rfl
  | cons x d ih =>
    obtain ⟨k', v⟩ := x
    by_cases same : k'.scalarEq k = true
    · simp [find, same]
    · simp [find, same, ih]

/-- Equal keys find the same entry. -/
theorem find_congr {A : Type} (d : List (Value × A)) {k k' : Value}
    (same : k.scalarEq k' = true) : find d k = find d k' := by
  induction d with
  | nil => rfl
  | cons p rest ih =>
    rw [find, find, ih]
    have alike : p.1.scalarEq k = p.1.scalarEq k' := by
      rw [Bool.eq_iff_iff]
      constructor
      · exact fun here => scalarEq_trans here same
      · exact fun here => scalarEq_trans here (scalarEq_symm same)
    rw [alike]

theorem eqDict_iff (xs ys : List (Value × Value)) : Value.eqDict xs ys = true ↔
    ∀ p ∈ xs, ∃ w, find ys p.1 = some w ∧ Value.eq p.2 w = true := by
  rw [eqDict_all, List.all_eq_true]
  apply forall₂_congr
  intro p _
  cases find ys p.1 with
  | none => simp
  | some w => simp

mutual
/-- `==` is transitive, whatever the order of the keys. -/
theorem eq_trans : ∀ (a : Value) {b c : Value}, Value.eq a b = true → Value.eq b c = true →
    Value.eq a c = true
  | .list xs, .list ys, .list zs, first, second => by
    rw [Value.eq] at first second ⊢
    exact eqList_trans xs first second
  | .dict xs, .dict ys, .dict zs, first, second => by
    simp only [Value.eq, Bool.and_eq_true, beq_iff_eq] at first second ⊢
    refine ⟨first.1.trans second.1, ?_⟩
    rw [eqDict_iff]
    exact eqDict_trans xs ((eqDict_iff xs ys).mp first.2) ((eqDict_iff ys zs).mp second.2)
  | .null, b, c, first, second | .bool _, b, c, first, second | .int _, b, c, first, second
  | .str _, b, c, first, second => by
    rw [eq_scalar rfl] at first ⊢
    rw [eq_scalar (hashable_of_scalarEq first)] at second
    exact scalarEq_trans first second
  | .list _, .null, _, first, _ | .list _, .bool _, _, first, _ | .list _, .int _, _, first, _
  | .list _, .str _, _, first, _ | .list _, .dict _, _, first, _ | .dict _, .null, _, first, _
  | .dict _, .bool _, _, first, _ | .dict _, .int _, _, first, _ | .dict _, .str _, _, first, _
  | .dict _, .list _, _, first, _ => by cases first
  | .list _, .list _, .null, _, second | .list _, .list _, .bool _, _, second
  | .list _, .list _, .int _, _, second | .list _, .list _, .str _, _, second
  | .list _, .list _, .dict _, _, second | .dict _, .dict _, .null, _, second
  | .dict _, .dict _, .bool _, _, second | .dict _, .dict _, .int _, _, second
  | .dict _, .dict _, .str _, _, second | .dict _, .dict _, .list _, _, second => by cases second
termination_by structural a => a

theorem eqList_trans : ∀ (xs : List Value) {ys zs : List Value}, Value.eqList xs ys = true →
    Value.eqList ys zs = true → Value.eqList xs zs = true
  | [], [], _, _, second => second
  | [], _ :: _, _, first, _ | _ :: _, [], _, first, _ => by cases first
  | _ :: _, _ :: _, [], _, second => by cases second
  | x :: xs, y :: ys, z :: zs, first, second => by
    rw [Value.eqList, Bool.and_eq_true] at first second ⊢
    exact ⟨eq_trans x first.1 second.1, eqList_trans xs first.2 second.2⟩
termination_by structural xs => xs

theorem eqDict_trans : ∀ (xs : List (Value × Value)) {ys zs : List (Value × Value)},
    (∀ p ∈ xs, ∃ w, find ys p.1 = some w ∧ Value.eq p.2 w = true) →
    (∀ p ∈ ys, ∃ w, find zs p.1 = some w ∧ Value.eq p.2 w = true) →
    ∀ p ∈ xs, ∃ w, find zs p.1 = some w ∧ Value.eq p.2 w = true
  | [], _, _, _, _ => fun p inside => nomatch inside
  | (k, v) :: xs, ys, zs, first, second => by
    intro p inside
    rcases List.mem_cons.mp inside with rfl | inside
    · obtain ⟨w, found, same⟩ := first (k, v) List.mem_cons_self
      obtain ⟨k', member, alike⟩ := find_mem found
      obtain ⟨u, found', same'⟩ := second (k', w) member
      exact ⟨u, find_congr zs alike ▸ found', eq_trans v same same'⟩
    · exact eqDict_trans xs (fun q later => first q (List.mem_cons_of_mem _ later)) second p inside
termination_by structural xs => xs
end

end Equality
