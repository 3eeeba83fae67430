import Custody.CanonicalJson

/-!
# Reading back canonical JSON

What is written as canonical JSON and read back is the canonical form of the
value. The form is its own canonical form and has the same text.
-/

namespace CanonicalForm

open PyValue HexBytes CanonicalJson

theorem charsLt_asymm {cs ds : List Char} (less : charsLt cs ds = true) :
    charsLt ds cs = false := by
  induction cs generalizing ds with
  | nil => cases ds with
    | nil => rfl
    | cons d ds => rfl
  | cons c cs ih => cases ds with
    | nil => cases less
    | cons d ds =>
      by_cases same : c = d
      · simp only [charsLt, same, if_true] at less ⊢
        exact ih less
      · have other : ¬ d = c := fun h => same h.symm
        simp only [charsLt, if_neg same, decide_eq_true_eq] at less
        simp only [charsLt, if_neg other, decide_eq_false_iff_not]
        omega

/-- What is not smaller than something not smaller is not smaller. -/
theorem charsLt_total {as bs cs : List Char} (first : charsLt bs as = false)
    (second : charsLt cs bs = false) : charsLt cs as = false := by
  induction as generalizing bs cs with
  | nil => cases cs with
    | nil => rfl
    | cons c cs => rfl
  | cons a as ih => cases bs with
    | nil => cases first
    | cons b bs => cases cs with
      | nil => cases second
      | cons c cs =>
        by_cases ab : b = a
        · subst ab
          by_cases cb : c = b
          · subst cb
            simp only [charsLt, if_true] at first second ⊢
            exact ih first second
          · simp only [charsLt, if_neg cb] at second ⊢
            exact second
        · simp only [charsLt, if_neg ab, decide_eq_false_iff_not] at first
          by_cases cb : c = b
          · subst cb
            simp only [charsLt, if_neg ab, decide_eq_false_iff_not]
            exact first
          · simp only [charsLt, if_neg cb, decide_eq_false_iff_not] at second
            have order : a.toNat ≤ c.toNat := by omega
            by_cases ca : c = a
            · subst ca
              exact absurd (Char.toNat_inj.mp (by omega)) ab
            · simp only [charsLt, if_neg ca, decide_eq_false_iff_not]
              omega

theorem keyLt_asymm {k l : Value} (less : keyLt k l = true) : keyLt l k = false := by
  cases k with
  | str s => cases l with
    | str t => exact charsLt_asymm less
    | _ => rfl
  | _ => cases l with
    | _ => rfl

theorem keyLt_total {a b c : Value} (text : textKey b = true) (first : keyLt b a = false)
    (second : keyLt c b = false) : keyLt c a = false := by
  cases c with
  | str u => cases a with
    | str s => cases b with
      | str t => exact charsLt_total first second
      | _ => cases text
    | _ => rfl
  | _ => rfl

/-- No later key is smaller. -/
def Ordered (kvs : List (Value × Value)) : Prop :=
  kvs.Pairwise fun p q => keyLt q.1 p.1 = false

theorem insertKey_ordered {p : Value × Value} {kvs : List (Value × Value)}
    (texts : ∀ q ∈ kvs, textKey q.1 = true) (ordered : Ordered kvs) :
    Ordered (insertKey p kvs) := by
  induction kvs with
  | nil => exact List.pairwise_singleton _ p
  | cons q rest ih =>
    obtain ⟨front, back⟩ := List.pairwise_cons.mp ordered
    rw [insertKey]
    split
    next smaller =>
      refine List.pairwise_cons.mpr
        ⟨?_, ih (fun r member => texts r (List.mem_cons_of_mem _ member)) back⟩
      intro r member
      rcases (mem_insertKey p r rest).mp member with rfl | inside
      · exact keyLt_asymm smaller
      · exact front r inside
    next notSmaller =>
      refine List.pairwise_cons.mpr ⟨?_, ordered⟩
      intro r member
      have first : keyLt q.1 p.1 = false := Bool.eq_false_iff.mpr notSmaller
      rcases List.mem_cons.mp member with rfl | inside
      · exact first
      · exact keyLt_total (texts q List.mem_cons_self) first (front r inside)

theorem sortKeys_ordered {kvs : List (Value × Value)} (texts : ∀ q ∈ kvs, textKey q.1 = true) :
    Ordered (sortKeys kvs) := by
  induction kvs with
  | nil => exact .nil
  | cons p rest ih =>
    have others := fun q member => texts q (List.mem_cons_of_mem p member)
    rw [sortKeys]
    refine insertKey_ordered ?_ (ih others)
    intro q member
    exact others q ((mem_sortKeys q rest).mp member)

theorem sortKeys_of_ordered {kvs : List (Value × Value)} (ordered : Ordered kvs) :
    sortKeys kvs = kvs := by
  induction kvs with
  | nil => rfl
  | cons p rest ih =>
    obtain ⟨front, back⟩ := List.pairwise_cons.mp ordered
    rw [sortKeys, ih back]
    cases rest with
    | nil => rfl
    | cons q rest =>
      rw [insertKey, if_neg]
      rw [front q List.mem_cons_self]
      decide

theorem canonDict_map (kvs : List (Value × Value)) :
    canonDict kvs = kvs.map fun p => (p.1, canon p.2) := by
  induction kvs with
  | nil => rfl
  | cons p rest ih =>
    obtain ⟨k, v⟩ := p
    rw [canonDict, ih]
    rfl

theorem canonList_map (xs : List Value) : canonList xs = xs.map canon := by
  induction xs with
  | nil => rfl
  | cons x rest ih =>
    rw [canonList, ih]
    rfl

theorem canonDict_texts {kvs : List (Value × Value)} (h : keyedDict kvs = true) :
    ∀ q ∈ canonDict kvs, textKey q.1 = true := by
  intro q member
  rw [canonDict_map] at member
  obtain ⟨p, inside, rfl⟩ := List.mem_map.mp member
  exact ((keyedDict_iff kvs).mp h p inside).1

mutual
theorem canon_canon : ∀ v : Value, keyed v = true → canon (canon v) = canon v
  | .null, _ | .bool _, _ | .int _, _ | .str _, _ => by simp [canon]
  | .list xs, h => by
    rw [keyed] at h
    rw [canon, canon, canonList_canonList xs h]
  | .dict kvs, h => by
    rw [keyed] at h
    have fixed : canonDict (sortKeys (canonDict kvs)) = sortKeys (canonDict kvs) := by
      rw [canonDict_map]
      refine List.map_congr_left ?_ |>.trans (List.map_id _)
      intro p member
      rw [canonDict_fixed kvs h p ((mem_sortKeys p _).mp member)]
      rfl
    rw [canon, canon, fixed, sortKeys_of_ordered (sortKeys_ordered (canonDict_texts h))]

theorem canonList_canonList : ∀ xs : List Value, keyedList xs = true →
    canonList (canonList xs) = canonList xs
  | [], _ => by rw [canonList, canonList]
  | x :: xs, h => by
    simp only [keyedList, Bool.and_eq_true] at h
    rw [canonList, canonList, canon_canon x h.1, canonList_canonList xs h.2]

theorem canonDict_fixed : ∀ kvs : List (Value × Value), keyedDict kvs = true →
    ∀ p ∈ canonDict kvs, canon p.2 = p.2
  | [], _, p, member => by
    rw [canonDict] at member
    cases member
  | (k, v) :: rest, h, p, member => by
    simp only [keyedDict, Bool.and_eq_true] at h
    rw [canonDict] at member
    rcases List.mem_cons.mp member with rfl | inside
    · exact canon_canon v h.2.1
    · exact canonDict_fixed rest h.2.2 p inside
end

theorem checkDict_iff (path : String) (kvs : List (Value × Value)) :
    checkDict path kvs = .ok () ↔ ∀ p ∈ kvs, (∃ s, p.1 = .str s ∧ isAscii s = true) ∧
      ∀ q, check q p.2 = .ok () := by
  induction kvs with
  | nil => simp [checkDict]
  | cons p rest ih =>
    obtain ⟨k, v⟩ := p
    rw [List.forall_mem_cons, ← ih]
    cases k with
    | str s =>
      simp only [checkDict]
      by_cases ascii : isAscii s = true
      · rw [if_pos ascii, bind_ok]
        constructor
        · rintro ⟨u, here, later⟩
          exact ⟨⟨⟨s, rfl, ascii⟩, fun q => check_anywhere _ q v here⟩, later⟩
        · rintro ⟨⟨-, here⟩, later⟩
          exact ⟨(), here _, later⟩
      · rw [if_neg ascii]
        constructor
        · intro bad
          cases bad
        · rintro ⟨⟨⟨t, same, good⟩, -⟩, -⟩
          obtain rfl := Value.str.inj same
          exact absurd good ascii
    | _ => simp [checkDict]

mutual
/-- A value that passes the check passes it after sorting. -/
theorem check_canon : ∀ (p : String) (v : Value), check p v = .ok () → check p (canon v) = .ok ()
  | _, .null, _ | _, .bool _, _ | _, .int _, _ | _, .str _, _ => by simp [canon, check]
  | p, .list xs, h => by
    rw [check] at h
    rw [canon, check]
    exact checkList_canon p 0 xs h
  | p, .dict kvs, h => by
    rw [check] at h
    rw [canon, check, checkDict_iff]
    intro x member
    exact (checkDict_iff p _).mp (checkDict_canon p kvs h) x ((mem_sortKeys x _).mp member)

theorem checkList_canon : ∀ (p : String) (i : Nat) (xs : List Value),
    checkList p i xs = .ok () → checkList p i (canonList xs) = .ok ()
  | _, _, [], _ => by rw [canonList, checkList]
  | p, i, x :: xs, h => by
    rw [checkList, bind_ok] at h
    obtain ⟨_, hx, hxs⟩ := h
    rw [canonList, checkList, check_canon _ x hx, ok_bind]
    exact checkList_canon p (i + 1) xs hxs

theorem checkDict_canon : ∀ (p : String) (kvs : List (Value × Value)),
    checkDict p kvs = .ok () → checkDict p (canonDict kvs) = .ok ()
  | _, [], _ => by rw [canonDict, checkDict]
  | p, (.str s, v) :: rest, h => by
    simp only [checkDict] at h
    split at h
    next ascii =>
      rw [bind_ok] at h
      obtain ⟨_, hv, hrest⟩ := h
      rw [canonDict]
      simp only [checkDict]
      rw [if_pos ascii, check_canon _ v hv, ok_bind]
      exact checkDict_canon p rest hrest
    next => cases h
  | _, (.null, _) :: _, h | _, (.bool _, _) :: _, h | _, (.int _, _) :: _, h
  | _, (.list _, _) :: _, h | _, (.dict _, _) :: _, h => by simp [checkDict] at h
end

/-- What is read back is written as the same bytes. -/
theorem canonicalJson_canon {v : Value} {b : Bytes} (written : canonicalJson v = .ok b) :
    canonicalJson (canon v) = .ok b := by
  obtain ⟨u, checked, text⟩ := bind_ok.mp written
  have same := canon_canon v (check_keyed _ v checked)
  rw [canonicalJson, check_canon _ v checked, ok_bind, same]
  exact text

/-- A field is found after sorting, sorted itself. -/
theorem item_canon {v w : Value} {k : String} (found : v.item k = .ok w) :
    (canon v).item k = .ok (canon w) := by
  cases v with
  | dict kvs =>
    rw [Value.item] at found
    rw [canon, Value.item, find_sortKeys, find_canonDict]
    cases here : find kvs (.str k) with
    | none => simp [here] at found
    | some w' =>
      simp only [here] at found
      obtain rfl := Except.ok.inj found
      rfl
  | _ => cases found

/-- A field found after sorting was there before. -/
theorem item_of_canon {v w : Value} {k : String} (found : (canon v).item k = .ok w) :
    ∃ v', v.item k = .ok v' ∧ w = canon v' := by
  cases v with
  | dict kvs =>
    rw [canon, Value.item, find_sortKeys, find_canonDict] at found
    rw [Value.item]
    cases here : find kvs (.str k) with
    | none => simp [here] at found
    | some v' =>
      rw [here] at found
      exact ⟨v', rfl, (Except.ok.inj found).symm⟩
  | null => simp [canon, Value.item] at found
  | bool b => simp [canon, Value.item] at found
  | int n => simp [canon, Value.item] at found
  | str t => simp [canon, Value.item] at found
  | list xs => simp [canon, Value.item] at found

theorem canon_truthy {v : Value} (truthy : v.truthy = true) : (canon v).truthy = true := by
  cases v with
  | list xs => cases xs with
    | nil => cases truthy
    | cons x xs => rfl
  | dict kvs => cases kvs with
    | nil => cases truthy
    | cons x kvs =>
      have member : (x.1, canon x.2) ∈ sortKeys (canonDict (x :: kvs)) :=
        (mem_sortKeys _ _).mpr (by rw [canonDict_map]; exact List.mem_cons_self)
      rw [canon, Value.truthy, Bool.not_eq_true', List.isEmpty_eq_false_iff]
      exact List.ne_nil_of_mem member
  | _ => exact truthy

/-- Python compares dicts by looking each key up in the other. -/
theorem eqDict_all (xs ys : List (Value × Value)) : Value.eqDict xs ys =
    xs.all fun p => match find ys p.1 with
      | some w => Value.eq p.2 w
      | none => false := by
  induction xs with
  | nil => rfl
  | cons p rest ih =>
    obtain ⟨k, v⟩ := p
    rw [Value.eqDict, ih]
    rfl

theorem all_sortKeys (f : Value × Value → Bool) (kvs : List (Value × Value)) :
    (sortKeys kvs).all f = kvs.all f := by
  rw [Bool.eq_iff_iff, List.all_eq_true, List.all_eq_true]
  constructor
  · exact fun each p member => each p ((mem_sortKeys p kvs).mpr member)
  · exact fun each p member => each p ((mem_sortKeys p kvs).mp member)

theorem sortKeys_length (kvs : List (Value × Value)) : (sortKeys kvs).length = kvs.length := by
  have insert_ : ∀ (p : Value × Value) (rest : List (Value × Value)),
      (insertKey p rest).length = rest.length + 1 := by
    intro p rest
    induction rest with
    | nil => rfl
    | cons q rest ih =>
      rw [insertKey]
      split
      next => rw [List.length_cons, ih, List.length_cons]
      next => rfl
  induction kvs with
  | nil => rfl
  | cons p rest ih => rw [sortKeys, insert_, ih, List.length_cons]

theorem find_keyed {kvs : List (Value × Value)} (keyed_ : keyedDict kvs = true) {k v : Value}
    (found : find kvs k = some v) : keyed v = true := by
  induction kvs with
  | nil => cases found
  | cons p rest ih =>
    obtain ⟨k', v'⟩ := p
    simp only [keyedDict, Bool.and_eq_true] at keyed_
    rw [find] at found
    split at found
    next => exact Option.some.inj found ▸ keyed_.2.1
    next => exact ih keyed_.2.2 found

mutual
/-- Sorting both sides changes no comparison; the induction is on the first. -/
theorem eq_canon : ∀ a b : Value, keyed a = true → keyed b = true →
    Value.eq (canon a) (canon b) = Value.eq a b
  | .list xs, .list ys, ha, hb => by
    rw [keyed] at ha hb
    rw [canon, canon, Value.eq, Value.eq]
    exact eqList_canon xs ys ha hb
  | .dict xs, .dict ys, ha, hb => by
    rw [keyed] at ha hb
    rw [canon, canon, Value.eq, Value.eq, sortKeys_length, sortKeys_length, canonDict_map,
      canonDict_map, List.length_map, List.length_map, ← canonDict_map, ← canonDict_map,
      eqDict_all, all_sortKeys, eqDict_canon xs ys ha hb]
  | .null, b, _, _ | .bool _, b, _, _ | .int _, b, _, _ | .str _, b, _, _ => by
    cases b <;> simp [canon, Value.eq, Value.scalarEq]
  | .list xs, .null, _, _ | .list xs, .bool _, _, _ | .list xs, .int _, _, _
  | .list xs, .str _, _, _ | .list xs, .dict _, _, _ | .dict xs, .null, _, _
  | .dict xs, .bool _, _, _ | .dict xs, .int _, _, _ | .dict xs, .str _, _, _
  | .dict xs, .list _, _, _ => by simp [canon, Value.eq, Value.scalarEq]

theorem eqList_canon : ∀ xs ys : List Value, keyedList xs = true → keyedList ys = true →
    Value.eqList (canonList xs) (canonList ys) = Value.eqList xs ys
  | [], ys, _, _ => by cases ys <;> simp [canonList, Value.eqList]
  | x :: xs, [], _, _ => by simp [canonList, Value.eqList]
  | x :: xs, y :: ys, ha, hb => by
    simp only [keyedList, Bool.and_eq_true] at ha hb
    rw [canonList, canonList, Value.eqList, Value.eqList, eq_canon x y ha.1 hb.1,
      eqList_canon xs ys ha.2 hb.2]

/-- The comparison of two dicts does not depend on the order of their keys. -/
theorem eqDict_canon : ∀ xs ys : List (Value × Value), keyedDict xs = true →
    keyedDict ys = true →
    ((canonDict xs).all fun p => match find (sortKeys (canonDict ys)) p.1 with
      | some w => Value.eq p.2 w
      | none => false) = Value.eqDict xs ys
  | [], ys, _, _ => by simp [canonDict, Value.eqDict]
  | (k, v) :: xs, ys, ha, hb => by
    simp only [keyedDict, Bool.and_eq_true] at ha
    rw [canonDict, List.all_cons, eqDict_canon xs ys ha.2.2 hb, Value.eqDict]
    congr 1
    cases k with
    | str s =>
      rw [find_sortKeys, find_canonDict]
      cases found : find ys (.str s) with
      | none => rfl
      | some w => exact eq_canon v w ha.2.1 (find_keyed hb found)
    | _ => cases ha.1
end

/-- A dictionary whose keys differ equals itself. -/
theorem eqDict_self {kvs : List (Value × Value)} (texts : ∀ p ∈ kvs, textKey p.1 = true)
    (distinct : kvs.Pairwise fun p q => p.1.scalarEq q.1 = false)
    (each : ∀ p ∈ kvs, Value.eq p.2 p.2 = true) : Value.eqDict kvs kvs = true := by
  have found : ∀ p ∈ kvs, find kvs p.1 = some p.2 := by
    clear each
    induction kvs with
    | nil => exact fun p none_ => by cases none_
    | cons q rest ih =>
      obtain ⟨front, back⟩ := List.pairwise_cons.mp distinct
      intro p member
      rw [find]
      rcases List.mem_cons.mp member with rfl | inside
      · have text := texts p List.mem_cons_self
        cases key : p.1 with
        | str s => simp
        | _ =>
          rw [key] at text
          cases text
      · rw [if_neg (by rw [front p inside]; decide)]
        exact ih (fun r later => texts r (List.mem_cons_of_mem _ later)) back p inside
  rw [eqDict_all, List.all_eq_true]
  intro p member
  rw [found p member]
  exact each p member

end CanonicalForm
