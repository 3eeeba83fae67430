import Mathlib.Data.List.Perm.Basic
import Custody.CborMeaning
import Custody.JsonReader

/-!
# Canonical JSON is read back

The reader takes exactly one written value off the front of a text. So canonical
JSON is read back as the canonical form of the value that was written, and what was
read at all can be written, sent on and read again.
-/

namespace JsonRoundTrip

open PyValue HexBytes CanonicalJson CanonicalForm JsonReader

theorem digitsOf_digits {ds r : List Char} (digits : ∀ c ∈ ds, c.isDigit = true)
    (stop : StopsNumber r) : digitsOf (ds ++ r) = (ds, r) := by
  have behind : r.takeWhile Char.isDigit = [] ∧ r.dropWhile Char.isDigit = r := by
    cases r with
    | nil => exact ⟨rfl, rfl⟩
    | cons c cs => simp [stop c cs rfl]
  rw [digitsOf, List.span_eq_takeWhile_dropWhile, List.takeWhile_append_of_pos digits,
    List.dropWhile_append_of_pos digits, behind.1, behind.2, List.append_nil]

/-- Only the number zero is written with a leading zero, and it has no other digit. -/
theorem decimal_zero {fuel n : Nat} (enough : n < fuel) {cs : List Char}
    (zero : decimal fuel n = '0' :: cs) : n = 0 ∧ cs = [] := by
  induction fuel generalizing n cs with
  | zero => omega
  | succ fuel ih =>
    rw [decimal] at zero
    split at zero
    next small =>
      obtain ⟨head, rfl⟩ := List.cons.inj zero
      have digit := (nibbleChar_digit n small).2
      rw [head] at digit
      have : ('0' : Char).toNat = 48 := rfl
      exact ⟨by omega, rfl⟩
    next large =>
      cases front : decimal fuel (n / 10) with
      | nil =>
        have value := @decimal_value fuel (n / 10) (by omega)
        rw [front] at value
        simp only [decimalValue, List.foldl_nil] at value
        omega
      | cons d ds =>
        rw [front, List.cons_append] at zero
        obtain ⟨rfl, -⟩ := List.cons.inj zero
        have := (ih (by omega) front).1
        omega

/-- The reader takes back the digits of a number, up to what ends it. -/
theorem readNat_natChars (n : Nat) {r : List Char} (stop : StopsNumber r) :
    readNat (natChars n ++ r) = .ok (n, r) := by
  have digits := decimal_digits (n + 1) n
  have value := @decimal_value (n + 1) n (by omega)
  obtain ⟨c, cs, written, digit⟩ := natChars_head n
  rw [natChars] at written
  rw [natChars, written, List.cons_append]
  by_cases zero : c = '0'
  · subst zero
    obtain ⟨rfl, rfl⟩ := decimal_zero (by omega) written
    rfl
  · have read := digitsOf_digits digits stop
    rw [written] at read value
    rw [readNat]
    · rw [if_pos digit, ← List.cons_append, read]
      exact congrArg (fun m => Except.ok (m, r)) value
    · exact zero

theorem readInt_intChars (n : Int) {r : List Char} (stop : StopsNumber r) :
    readInt (intChars n ++ r) = .ok (n, r) := by
  rw [intChars]
  split
  next negative =>
    have back : -(n.natAbs : Int) = n := by omega
    rw [List.cons_append, readInt, readNat_natChars _ stop, ok_bind]
    exact congrArg (fun m => Except.ok (m, r)) back
  next =>
    obtain ⟨c, cs, written, digit⟩ := natChars_head n.natAbs
    have read := readNat_natChars n.natAbs stop
    rw [written, List.cons_append] at read ⊢
    have back : (n.natAbs : Int) = n := by omega
    rw [readInt]
    · rw [read, ok_bind]
      exact congrArg (fun m => Except.ok (m, r)) back
    · rintro _ ⟨⟩
      cases digit

/-- One escaped character is read as the character itself. -/
theorem piece_escape (c : Char) (r : List Char) : piece (escape c ++ r) = .char c r := by
  unfold escape
  split_ifs with h1 h2 h3 h4 h5 h6 h7 h8
  · subst h1; rfl
  · subst h2; rfl
  · subst h3; rfl
  · subst h4; rfl
  · subst h5; rfl
  · rw [char_of_toNat h6]; rfl
  · rw [char_of_toNat h7]; rfl
  · have zero : charNibble '0' = some 0 := rfl
    have high := (nibble_round_trip (c.toNat / 16) (by omega)).1
    have low := (nibble_round_trip (c.toNat % 16) (by omega)).1
    have number : hex4 '0' '0' (nibbleChar (c.toNat / 16)) (nibbleChar (c.toNat % 16)) =
        some c.toNat := by
      simp only [hex4, zero, high, low, Option.pure_def, Option.bind_eq_bind, Option.bind_some,
        Option.some.injEq]
      omega
    have plain : isHigh c.toNat = false := by
      rw [isHigh, decide_eq_false (by omega), Bool.false_and]
    have itself : charAt c.toNat = some c := by
      have valid : c.toNat.isValidChar := c.valid
      rw [charAt, if_pos valid, Char.ofNat_toNat]
    simp only [List.cons_append, List.nil_append, piece, unicodeEscape, number, plain, itself,
      Option.map_some]
    rfl
  · rw [List.singleton_append, piece] <;> simp_all

/-- The body of a string is read back by any fuel longer than the text. -/
theorem readString_escapeAll (cs : List Char) (r : List Char) {fuel : Nat}
    (enough : cs.length < fuel) :
    readString fuel (escapeAll cs ++ '"' :: r) = .ok (cs, r) := by
  induction cs generalizing fuel with
  | nil => cases fuel with
    | zero => cases enough
    | succ fuel => rfl
  | cons c cs ih => cases fuel with
    | zero => cases enough
    | succ fuel =>
      rw [escapeAll, List.append_assoc, readString, piece_escape]
      simp only
      rw [ih (Nat.lt_of_succ_lt_succ enough)]
      rfl

theorem escapeAll_length (cs : List Char) : cs.length ≤ (escapeAll cs).length := by
  induction cs with
  | nil => exact Nat.le_refl 0
  | cons c cs ih =>
    obtain ⟨d, ds, written, -⟩ := escape_head c
    rw [escapeAll, written, List.length_append, List.length_cons, List.length_cons]
    omega

/-- A text is read back from behind its opening quote. -/
theorem readString_quote (s : String) (r : List Char) :
    let rest := escapeAll s.toList ++ '"' :: r
    readString (rest.length + 1) rest = .ok (s.toList, r) := by
  refine readString_escapeAll s.toList r ?_
  have := escapeAll_length s.toList
  rw [List.length_append, List.length_cons]
  omega

-- A written value begins with no blank, and what follows it ends a number. The reader
-- takes it off the front with whatever blanks there are between its tokens.

theorem skipWs_solid {c : Char} {cs : List Char} (solid : isWs c = false) :
    skipWs (c :: cs) = c :: cs := by
  rw [skipWs, List.dropWhile_cons_of_neg (by rw [solid]; decide)]

theorem solid_of_kind {c : Char} (kind : charKind c < 7) : isWs c = false := by
  rw [Bool.eq_false_iff]
  intro blank
  simp only [isWs, Bool.or_eq_true, decide_eq_true_eq] at blank
  rcases blank with ((rfl | rfl) | rfl) | rfl <;> exact absurd kind (by decide)

/-- Only blanks. -/
def Blank (cs : List Char) : Prop := ∀ c ∈ cs, isWs c = true

theorem blank_nil : Blank [] := fun _ none_ => by cases none_

/-- Blanks in front of a token are passed over. -/
theorem skipWs_blank {b : List Char} (blank : Blank b) (r : List Char) :
    skipWs (b ++ r) = skipWs r := by
  rw [skipWs, List.dropWhile_append_of_pos blank]
  rfl

theorem blank_digit {c : Char} (blank : isWs c = true) : c.isDigit = false := by
  simp only [isWs, Bool.or_eq_true, decide_eq_true_eq] at blank
  rcases blank with ((rfl | rfl) | rfl) | rfl <;> rfl

/-- What closes a list or a dictionary ends a number, whatever blanks stand before it. -/
theorem stopsNumber_blank {b : List Char} (blank : Blank b) {c : Char} {r : List Char}
    (other : c.isDigit = false) : StopsNumber (b ++ c :: r) := by
  intro d ds begins
  cases b with
  | nil =>
    obtain ⟨rfl, -⟩ := List.cons.inj begins
    exact other
  | cons e es =>
    obtain ⟨rfl, -⟩ := List.cons.inj begins
    exact blank_digit (blank e List.mem_cons_self)

theorem valueKind_lt (v : Value) : valueKind v < 7 := by
  cases v with
  | bool b => cases b <;> decide
  | _ => simp [valueKind]

theorem skipWs_keyChars {k : Value} (text : textKey k = true) (r : List Char) :
    skipWs (keyChars k ++ r) = keyChars k ++ r := by
  cases k with
  | str s => rw [keyChars, quote, List.cons_append, skipWs_solid (by decide)]
  | _ => cases text

/-- A dict without repeated keys is what `pairs` builds from its items. -/
theorem pairs_once {kvs : Dict} (once_ : onceDict kvs = true) : pairs kvs = .ok (.dict kvs) := by
  rw [pairs, if_pos (((onceDict_iff kvs).mp once_).1)]

/-- A number is read where no other value begins. -/
theorem readValue_int {fuel : Nat} (n : Int) {r : List Char} (stop : StopsNumber r) :
    readValue (fuel + 1) (intChars n ++ r) = .ok (.int n, r) := by
  obtain ⟨c, cs, written, digit⟩ := intChars_head n
  have read := readInt_intChars n stop
  have kind := digit_kind digit
  have other : ∀ {d : Char} {ds : List Char}, charKind d ≠ 6 → c :: (cs ++ r) ≠ d :: ds := by
    intro d ds off same
    exact off ((List.cons.inj same).1 ▸ kind)
  rw [written, List.cons_append] at read ⊢
  rw [readValue]
  · rw [read]
    rfl
  all_goals exact fun _ => other (by decide)

section layout

variable {blank : Nat → List Char} {colon : List Char}

/-- The first character of a written value tells which kind of value it is, as the reader decides.
-/
theorem layout_begins (level : Nat) (v : Value) :
    ∃ c cs, layout blank colon level v = c :: cs ∧ charKind c = valueKind v := by
  cases v with
  | int n =>
    rw [layout, ← dump]
    exact dump_head (.int n)
  | bool b =>
    rw [layout]
    exact dump_head (.bool b)
  | list xs => cases xs <;> exact ⟨_, _, by rw [layout], rfl⟩
  | dict kvs => rcases kvs with _ | ⟨⟨k, v⟩, rest⟩ <;> exact ⟨_, _, by rw [layout], rfl⟩
  | str s => exact ⟨_, _, by rw [layout, quote], rfl⟩
  | null => exact ⟨_, _, by rw [layout, dump], rfl⟩

theorem layout_solid (level : Nat) (v : Value) (r : List Char) :
    skipWs (layout blank colon level v ++ r) = layout blank colon level v ++ r := by
  obtain ⟨c, cs, written, kind⟩ := @layout_begins blank colon level v
  rw [written, List.cons_append, skipWs_solid (solid_of_kind (kind ▸ valueKind_lt v))]

theorem layout_length (level : Nat) (v : Value) : 0 < (layout blank colon level v).length := by
  obtain ⟨c, cs, written, -⟩ := @layout_begins blank colon level v
  rw [written, List.length_cons]
  omega

/-- No value begins with a closing bracket, so an array that is not empty is not read as empty. -/
theorem layout_not_closing (level : Nat) (v : Value) {c : Char} {cs r : List Char}
    (close : charKind c = 7) : layout blank colon level v ++ r ≠ c :: cs := by
  intro same
  obtain ⟨d, ds, written, kind⟩ := @layout_begins blank colon level v
  rw [written, List.cons_append] at same
  rw [(List.cons.inj same).1, close] at kind
  have := valueKind_lt v
  omega

theorem stopsNumber_layoutTail (blanks : ∀ n, Blank (blank n)) (level : Nat) (xs : List Value)
    (r : List Char) : StopsNumber (layoutTail blank colon level xs ++ r) := by
  cases xs with
  | nil =>
    rw [layoutTail, List.append_assoc]
    exact stopsNumber_blank (blanks level) rfl
  | cons x xs =>
    rw [layoutTail]
    exact stopsNumber_blank blank_nil rfl

theorem stopsNumber_layoutItems (blanks : ∀ n, Blank (blank n)) (level : Nat) (kvs : Dict)
    (r : List Char) : StopsNumber (layoutItems blank colon level kvs ++ r) := by
  rcases kvs with _ | ⟨⟨k, v⟩, rest⟩
  · rw [layoutItems, List.append_assoc]
    exact stopsNumber_blank (blanks level) rfl
  · rw [layoutItems]
    exact stopsNumber_blank blank_nil rfl

mutual
/-- The reader takes one written value off the front. -/
theorem readValue_layout (blanks : ∀ n, Blank (blank n)) (behind : Blank colon) :
    ∀ (v : Value) {level fuel : Nat} {r : List Char}, keyed v = true → once v = true →
    StopsNumber r → 2 * (layout blank colon level v).length ≤ fuel →
    readValue fuel (layout blank colon level v ++ r) = .ok (v, r)
  | v, level, 0, r, _, _, _, enough => by
    have := @layout_length blank colon level v
    omega
  | .null, _, fuel + 1, r, _, _, _, _ => by rw [layout, dump]; rfl
  | .bool true, _, fuel + 1, r, _, _, _, _ => by rw [layout, dump]; rfl
  | .bool false, _, fuel + 1, r, _, _, _, _ => by rw [layout, dump]; rfl
  | .int n, _, fuel + 1, r, _, _, stop, _ => by
    rw [layout]
    exact readValue_int n stop
  | .str s, _, fuel + 1, r, _, _, _, _ => by
    have read := readString_quote s r
    rw [layout, quote, List.cons_append, List.append_assoc, List.singleton_append, readValue]
    simp only at read ⊢
    rw [read, ok_bind]
    simp only [String.ofList_toList, pure_ok]
  | .list [], _, fuel + 1, r, _, _, _, _ => by rw [layout]; rfl
  | .list (x :: xs), level, fuel + 1, r, hk, ho, _, enough => by
    rw [layout] at enough ⊢
    rw [List.length_cons, List.length_append, List.length_append] at enough
    have read := @readElems_layout blanks behind x xs level fuel r hk ho (by omega)
    simp only [List.cons_append, List.append_assoc]
    rw [readValue, skipWs_blank (blanks _), layout_solid]
    split
    next begins => exact absurd begins (layout_not_closing _ x (by decide))
    next =>
      rw [read]
      rfl
  | .dict [], _, fuel + 1, r, _, _, _, _ => by rw [layout]; rfl
  | .dict ((k, v) :: rest), level, fuel + 1, r, hk, ho, _, enough => by
    rw [layout] at enough ⊢
    simp only [List.length_cons, List.length_append] at enough
    have read := @readItems_layout blanks behind k v rest level fuel r hk ho (by omega)
    rw [keyed, keyedDict, Bool.and_eq_true] at hk
    simp only [List.cons_append, List.append_assoc]
    rw [readValue, skipWs_blank (blanks _), skipWs_keyChars hk.1]
    split
    next begins => exact absurd begins (keyChars_not_closing hk.1)
    next =>
      rw [read, ok_bind]
      simp only
      rw [pairs_once ho]
      rfl

/-- The elements of an array behind the opening bracket, by induction with the value reader. -/
theorem readElems_layout (blanks : ∀ n, Blank (blank n)) (behind : Blank colon) :
    ∀ (x : Value) (xs : List Value) {level fuel : Nat} {r : List Char},
    keyedList (x :: xs) = true → onceList (x :: xs) = true →
    2 * ((layout blank colon (level + 1) x).length + (layoutTail blank colon level xs).length) <
      fuel →
    readElems fuel (layout blank colon (level + 1) x ++ (layoutTail blank colon level xs ++ r)) =
      .ok (x :: xs, r)
  | x, xs, _, 0, r, _, _, enough => by omega
  | x, xs, level, fuel + 1, r, hk, ho, enough => by
    rw [keyedList, Bool.and_eq_true] at hk
    rw [onceList, Bool.and_eq_true] at ho
    have first := @readValue_layout blanks behind x (level + 1) fuel _ hk.1 ho.1
      (@stopsNumber_layoutTail blank colon blanks level xs r) (by omega)
    rw [readElems, first, ok_bind]
    simp only
    cases xs with
    | nil =>
      rw [layoutTail, List.append_assoc, skipWs_blank (blanks _), List.singleton_append,
        skipWs_solid (by decide)]
      rfl
    | cons y ys =>
      rw [layoutTail] at enough ⊢
      simp only [List.length_cons, List.length_append] at enough
      have later := @readElems_layout blanks behind y ys level fuel r hk.2 ho.2 (by omega)
      simp only [List.cons_append, List.append_assoc]
      rw [skipWs_solid (by decide)]
      simp only
      rw [skipWs_blank (blanks _), layout_solid, later]
      rfl

/-- The members of an object, each key first and its value behind the colon. -/
theorem readItems_layout (blanks : ∀ n, Blank (blank n)) (behind : Blank colon) :
    ∀ (k v : Value) (rest : Dict) {level fuel : Nat} {r : List Char},
    keyedDict ((k, v) :: rest) = true → onceDict ((k, v) :: rest) = true →
    2 * ((keyChars k).length + (layout blank colon (level + 1) v).length +
      (layoutItems blank colon level rest).length) < fuel →
    readItems fuel (keyChars k ++ ':' :: (colon ++ (layout blank colon (level + 1) v ++
      (layoutItems blank colon level rest ++ r)))) = .ok ((k, v) :: rest, r)
  | k, v, rest, _, 0, r, _, _, enough => by omega
  | .str s, v, rest, level, fuel + 1, r, hk, ho, enough => by
    rw [keyedDict, Bool.and_eq_true, Bool.and_eq_true] at hk
    rw [onceDict, Bool.and_eq_true, Bool.and_eq_true] at ho
    have first := @readValue_layout blanks behind v (level + 1) fuel _ hk.2.1 ho.2.1
      (@stopsNumber_layoutItems blank colon blanks level rest r) (by omega)
    have read := readString_quote s (':' :: (colon ++ (layout blank colon (level + 1) v ++
      (layoutItems blank colon level rest ++ r))))
    simp only at read
    simp only [keyChars, quote, List.cons_append, List.append_assoc, List.nil_append]
    rw [readItems, read, ok_bind]
    simp only
    rw [skipWs_solid (by decide)]
    simp only
    rw [skipWs_blank behind, layout_solid, first, ok_bind]
    simp only [String.ofList_toList]
    rcases rest with _ | ⟨⟨k', v'⟩, rest⟩
    · rw [layoutItems, List.append_assoc, skipWs_blank (blanks _), List.singleton_append,
        skipWs_solid (by decide)]
      rfl
    · rw [layoutItems] at enough ⊢
      simp only [List.length_cons, List.length_append] at enough
      have later := @readItems_layout blanks behind k' v' rest level fuel r hk.2.2 ho.2.2 (by omega)
      have key : textKey k' = true := by
        have := hk.2.2
        rw [keyedDict, Bool.and_eq_true] at this
        exact this.1
      simp only [List.cons_append, List.append_assoc]
      rw [skipWs_solid (by decide)]
      simp only
      rw [skipWs_blank (blanks _), skipWs_keyChars key, later]
      rfl
  | .null, _, _, _, _ + 1, _, hk, _, _ | .bool _, _, _, _, _ + 1, _, hk, _, _
  | .int _, _, _, _, _ + 1, _, hk, _, _ | .list _, _, _, _, _ + 1, _, hk, _, _
  | .dict _, _, _, _, _ + 1, _, hk, _, _ => by
    rw [keyedDict, Bool.and_eq_true] at hk
    cases hk.1
end

/-- Reading takes one written value, with nothing behind it. -/
theorem loads_layout (blanks : ∀ n, Blank (blank n)) (behind : Blank colon) {level : Nat}
    {v : Value} (hk : keyed v = true) (ho : once v = true) :
    loads (layout blank colon level v) = .ok v := by
  have front := @layout_solid blank colon level v []
  have read := @readValue_layout blank colon blanks behind v level
    (fuelFor (layout blank colon level v)) [] hk ho (fun _ _ none_ => by cases none_)
    (by rw [fuelFor]; omega)
  rw [List.append_nil] at front read
  rw [loads]
  simp only
  rw [front, read]
  rfl

end layout

-- Canonical JSON is the text without any blanks.

mutual
/-- Without blanks the layout is the compact text that `dump` writes. -/
theorem layout_dump : ∀ (v : Value) (level : Nat), layout (fun _ => []) [] level v = dump v
  | .null, _ | .bool _, _ => by rw [layout]
  | .int _, _ | .str _, _ | .list [], _ | .dict [], _ => by rw [layout, dump]
  | .list (x :: xs), level => by
    rw [layout, dump, layout_dump x, layoutTail_dump xs]
    rfl
  | .dict ((k, v) :: rest), level => by
    rw [layout, dump, layout_dump v, layoutItems_dump rest]
    rfl

theorem layoutTail_dump : ∀ (xs : List Value) (level : Nat),
    layoutTail (fun _ => []) [] level xs = dumpTail xs
  | [], _ => by rw [layoutTail, dumpTail]; rfl
  | x :: xs, level => by
    rw [layoutTail, dumpTail, layout_dump x, layoutTail_dump xs]
    rfl

theorem layoutItems_dump : ∀ (kvs : Dict) (level : Nat),
    layoutItems (fun _ => []) [] level kvs = dumpItems kvs
  | [], _ => by rw [layoutItems, dumpItems]; rfl
  | (k, v) :: rest, level => by
    rw [layoutItems, dumpItems, layout_dump v, layoutItems_dump rest]
    rfl
end

theorem insertKey_perm (p : Value × Value) (kvs : Dict) : (insertKey p kvs).Perm (p :: kvs) := by
  induction kvs with
  | nil => exact List.Perm.refl _
  | cons q rest ih =>
    rw [insertKey]
    split
    next => exact (ih.cons q).trans (List.Perm.swap p q rest)
    next => exact List.Perm.refl _

theorem sortKeys_perm (kvs : Dict) : (sortKeys kvs).Perm kvs := by
  induction kvs with
  | nil => exact List.Perm.refl _
  | cons p rest ih => exact (insertKey_perm p _).trans (ih.cons p)

theorem scalarEq_comm (k l : Value) : k.scalarEq l = l.scalarEq k := by
  cases k <;> cases l <;> simp only [Value.scalarEq] <;> exact BEq.comm

mutual
/-- Sorting the keys keeps them distinct. -/
theorem once_canon : ∀ v : Value, once v = true → once (canon v) = true
  | .null, _ | .bool _, _ | .int _, _ | .str _, _ => by simp [canon, once]
  | .list xs, h => by
    rw [once] at h
    rw [canon, once]
    exact onceList_canon xs h
  | .dict kvs, h => by
    rw [once, onceDict_iff] at h
    rw [canon, once, onceDict_iff]
    have order := sortKeys_perm (canonDict kvs)
    have keys : (canonDict kvs).map Prod.fst = kvs.map Prod.fst := by
      rw [canonDict_map, List.map_map]
      rfl
    refine ⟨?_, fun p member => onceDict_canon kvs h.2 p (order.mem_iff.mp member)⟩
    rw [(order.map Prod.fst).pairwise_iff fun {k l} h => by rw [scalarEq_comm, h], keys]
    exact h.1

theorem onceList_canon : ∀ xs : List Value, onceList xs = true → onceList (canonList xs) = true
  | [], _ => by rw [canonList, onceList]
  | x :: xs, h => by
    rw [onceList, Bool.and_eq_true] at h
    rw [canonList, onceList, once_canon x h.1, onceList_canon xs h.2]
    rfl

theorem onceDict_canon : ∀ kvs : Dict, (∀ p ∈ kvs, once p.2 = true) →
    ∀ p ∈ canonDict kvs, once p.2 = true
  | [], _, p, member => by
    rw [canonDict] at member
    cases member
  | (k, v) :: rest, h, p, member => by
    rw [canonDict] at member
    rcases List.mem_cons.mp member with rfl | inside
    · exact once_canon v (h (k, v) List.mem_cons_self)
    · exact onceDict_canon rest (fun q later => h q (List.mem_cons_of_mem _ later)) p inside
end

/-- A character other than NUL has no zero byte, so a written text is never taken for UTF-16 or
UTF-32. -/
theorem utf8EncodeChar_nonzero {c : Char} (nonzero : c.toNat ≠ 0) :
    ∀ b ∈ String.utf8EncodeChar c, b ≠ 0 := by
  have small : ∀ n, 0 < n → n < 256 → UInt8.ofNat n ≠ 0 := by
    intro n positive bound zero
    have value : (UInt8.ofNat n).toNat = 0 := by rw [zero]; rfl
    rw [UInt8.toNat_ofNat', Nat.mod_eq_of_lt bound] at value
    omega
  have number : c.val.toNat ≠ 0 := nonzero
  unfold String.utf8EncodeChar
  intro b member
  simp only at member
  split_ifs at member
  all_goals
    simp only [List.mem_cons, List.not_mem_nil, or_false] at member
    rcases member with rfl | rfl | rfl | rfl <;> exact small _ (by omega) (by omega)

/-- No character is the zero character. -/
def Nonzero (cs : List Char) : Prop := ∀ c ∈ cs, 0 < c.toNat

theorem Nonzero.append {cs ds : List Char} (front : Nonzero cs) (back : Nonzero ds) :
    Nonzero (cs ++ ds) := by
  intro c member
  exact (List.mem_append.mp member).elim (front c) (back c)

theorem Nonzero.cons {c : Char} {cs : List Char} (head : 0 < c.toNat) (tail : Nonzero cs) :
    Nonzero (c :: cs) := by
  intro d member
  rcases List.mem_cons.mp member with rfl | later
  · exact head
  · exact tail d later

theorem nonzero_nil : Nonzero [] := fun _ none_ => by cases none_

theorem nonzero_of_all {cs : List Char} (all : cs.all (fun c => Nat.ble 1 c.toNat) = true) :
    Nonzero cs :=
  fun c member => Nat.le_of_ble_eq_true (List.all_eq_true.mp all c member)

theorem Blank.nonzero {b : List Char} (blank : Blank b) : Nonzero b := by
  intro c member
  have := blank c member
  simp only [isWs, Bool.or_eq_true, decide_eq_true_eq] at this
  rcases this with ((rfl | rfl) | rfl) | rfl <;> decide

theorem intChars_nonzero (n : Int) : Nonzero (intChars n) := by
  have digits : Nonzero (natChars n.natAbs) := by
    intro c member
    have digit := decimal_digits _ _ c member
    rw [Char.isDigit, Bool.and_eq_true, decide_eq_true_eq] at digit
    have low : (48 : UInt32).toNat ≤ c.val.toNat := digit.1
    have : (48 : UInt32).toNat = 48 := rfl
    show 0 < c.val.toNat
    omega
  rw [intChars]
  split
  · exact digits.cons (by decide)
  · exact digits

theorem nibbleChar_nonzero : ∀ n, n < 16 → 0 < (nibbleChar n).toNat := by decide

/-- Control characters are written as escapes. -/
theorem escape_nonzero (c : Char) : Nonzero (escape c) := by
  have short : ∀ d : Char, 0 < d.toNat → Nonzero ['\\', d] := fun d high =>
    .cons (by decide) (.cons high nonzero_nil)
  unfold escape
  split_ifs with h1 h2 h3 h4 h5 h6 h7 h8
  · exact short '"' (by decide)
  · exact short '\\' (by decide)
  · exact short 'n' (by decide)
  · exact short 'r' (by decide)
  · exact short 't' (by decide)
  · exact short 'b' (by decide)
  · exact short 'f' (by decide)
  · have high := nibbleChar_nonzero (c.toNat / 16) (by omega)
    have low := nibbleChar_nonzero (c.toNat % 16) (by omega)
    have zero : 0 < ('0' : Char).toNat := by decide
    exact (short 'u' (by decide)).append (.cons zero (.cons zero (.cons high (.cons low
      nonzero_nil))))
  · exact .cons (by omega) nonzero_nil

theorem escapeAll_nonzero (cs : List Char) : Nonzero (escapeAll cs) := by
  induction cs with
  | nil => exact nonzero_nil
  | cons c cs ih => exact (escape_nonzero c).append ih

theorem quote_nonzero (s : String) : Nonzero (quote s) :=
  .cons (by decide) ((escapeAll_nonzero s.toList).append (.cons (by decide) nonzero_nil))

theorem keyChars_nonzero (k : Value) : Nonzero (keyChars k) := by
  cases k with
  | str s => exact quote_nonzero s
  | _ => exact nonzero_nil

section octets

variable {blank : Nat → List Char} {colon : List Char}

mutual
/-- No character of a written value is NUL, which `detect_encoding` looks for. -/
theorem layout_nonzero (blanks : ∀ n, Blank (blank n)) (behind : Blank colon) :
    ∀ (v : Value) (level : Nat), Nonzero (layout blank colon level v)
  | .null, _ | .bool true, _ | .bool false, _ => by
    rw [layout, dump]
    exact nonzero_of_all rfl
  | .list [], _ | .dict [], _ => by
    rw [layout]
    exact nonzero_of_all rfl
  | .int n, _ => by rw [layout]; exact intChars_nonzero n
  | .str s, _ => by rw [layout]; exact quote_nonzero s
  | .list (x :: xs), level => by
    rw [layout]
    exact .cons (by decide) ((blanks _).nonzero.append
      ((layout_nonzero blanks behind x _).append (layoutTail_nonzero blanks behind xs _)))
  | .dict ((k, v) :: rest), level => by
    rw [layout]
    exact .cons (by decide) ((blanks _).nonzero.append ((keyChars_nonzero k).append
      (.cons (by decide) (behind.nonzero.append
        ((layout_nonzero blanks behind v _).append (layoutItems_nonzero blanks behind rest _))))))

theorem layoutTail_nonzero (blanks : ∀ n, Blank (blank n)) (behind : Blank colon) :
    ∀ (xs : List Value) (level : Nat), Nonzero (layoutTail blank colon level xs)
  | [], level => by
    rw [layoutTail]
    exact (blanks level).nonzero.append (.cons (by decide) nonzero_nil)
  | x :: xs, level => by
    rw [layoutTail]
    exact .cons (by decide) ((blanks _).nonzero.append
      ((layout_nonzero blanks behind x _).append (layoutTail_nonzero blanks behind xs _)))

theorem layoutItems_nonzero (blanks : ∀ n, Blank (blank n)) (behind : Blank colon) :
    ∀ (kvs : Dict) (level : Nat), Nonzero (layoutItems blank colon level kvs)
  | [], level => by
    rw [layoutItems]
    exact (blanks level).nonzero.append (.cons (by decide) nonzero_nil)
  | (k, v) :: rest, level => by
    rw [layoutItems]
    exact .cons (by decide) ((blanks _).nonzero.append ((keyChars_nonzero k).append
      (.cons (by decide) (behind.nonzero.append
        ((layout_nonzero blanks behind v _).append (layoutItems_nonzero blanks behind rest _))))))
end

end octets

theorem charKind_ascii {c : Char} (kind : charKind c < 7) : c.toNat < 128 := by
  by_contra high
  have other : ∀ d : Char, d.toNat < 128 → c ≠ d := by
    rintro d low rfl
    exact high low
  have digit : c.isDigit = false := by
    rw [Bool.eq_false_iff]
    intro digit
    rw [Char.isDigit, Bool.and_eq_true, decide_eq_true_eq, decide_eq_true_eq] at digit
    exact high (Nat.lt_of_le_of_lt (m := 57) digit.2 (by decide))
  simp [charKind, other 'n' (by decide), other 't' (by decide), other 'f' (by decide),
    other '"' (by decide), other '[' (by decide), other '{' (by decide), other '-' (by decide),
    digit] at kind

theorem utf8_cons (c : Char) (cs : List Char) : utf8 (c :: cs) =
    String.utf8EncodeChar c ++ utf8 cs := List.flatMap_cons

/-- Plain text without a zero octet is read as UTF-8. -/
theorem detectEncoding_plain {b : UInt8} {bs : Bytes} (first : b.toNat < 128)
    (nonzero : ∀ x ∈ b :: bs, x ≠ 0) : detectEncoding (b :: bs) = (.utf8, 0) := by
  have head := nonzero b List.mem_cons_self
  have mark : ∀ (n : UInt8) (ns : Bytes), 128 ≤ n.toNat →
      (n :: ns).isPrefixOf (b :: bs) = false := by
    intro n ns high
    have other : (n == b) = false := beq_false_of_ne (by rintro rfl; omega)
    rw [List.isPrefixOf, other, Bool.false_and]
  have zero : ∀ ns : Bytes, (0 :: ns).isPrefixOf (b :: bs) = false := by
    intro ns
    have other : (0 == b) = false := beq_false_of_ne (Ne.symm head)
    rw [List.isPrefixOf, other, Bool.false_and]
  rw [detectEncoding, zero, mark 255 _ (by decide), mark 254 _ (by decide),
    mark 255 _ (by decide), mark 239 _ (by decide)]
  have guess : unmarked (b :: bs) = .utf8 := by
    rcases bs with _ | ⟨b₁, _ | ⟨b₂, _ | ⟨b₃, bs⟩⟩⟩
    · rfl
    · have second := nonzero b₁ (by simp)
      simp only [unmarked, if_neg head, if_neg second]
    · rfl
    · have second := nonzero b₁ (by simp)
      simp only [unmarked, if_neg head, if_neg second]
  rw [guess]
  rfl

section decoding

variable {blank : Nat → List Char} {colon : List Char}

/-- The octets of a written value: the first is plain, and none is zero. -/
theorem utf8_layout (blanks : ∀ n, Blank (blank n)) (behind : Blank colon) (level : Nat)
    (v : Value) : ∃ b bs, utf8 (layout blank colon level v) = b :: bs ∧ b.toNat < 128 ∧
      ∀ x ∈ b :: bs, x ≠ 0 := by
  have characters := layout_nonzero blanks behind v level
  obtain ⟨c, cs, written, kind⟩ := @layout_begins blank colon level v
  have number : c.val.toNat < 128 := charKind_ascii (kind ▸ valueKind_lt v)
  have single : String.utf8EncodeChar c = [UInt8.ofNat c.val.toNat] := by
    rw [String.utf8EncodeChar, if_pos (by omega)]
  have nonzero : ∀ x ∈ utf8 (layout blank colon level v), x ≠ 0 := by
    intro x member
    obtain ⟨d, inside, octet⟩ := List.mem_flatMap.mp member
    have := characters d inside
    exact utf8EncodeChar_nonzero (by omega) x octet
  rw [written, utf8_cons, single, List.singleton_append] at nonzero ⊢
  refine ⟨_, _, rfl, ?_, nonzero⟩
  rw [UInt8.toNat_ofNat', Nat.mod_eq_of_lt (by omega)]
  exact number

/-- `json.loads` of the written bytes decodes them as UTF-8. -/
theorem decoded_layout (blanks : ∀ n, Blank (blank n)) (behind : Blank colon) (level : Nat)
    (v : Value) :
    decoded (utf8 (layout blank colon level v)) = .ok (layout blank colon level v) := by
  have text : Cbor.utf8Text (utf8 (layout blank colon level v)) =
      .ok (String.ofList (layout blank colon level v)) := by
    rw [CborMeaning.utf8Text_ok]
    simp [Cbor.utf8Bytes, utf8, List.utf8Encode]
  have plain : detectEncoding (utf8 (layout blank colon level v)) = (.utf8, 0) := by
    obtain ⟨b, bs, octets, first, nonzero⟩ := utf8_layout blanks behind level v
    rw [octets]
    exact detectEncoding_plain first nonzero
  rw [decoded, plain]
  simp only [List.drop_zero, text]
  exact congrArg Except.ok (String.toList_ofList (l := layout blank colon level v))

/-- A written value that has a canonical text is read back as it is, keys in their order. -/
theorem jsonLoads_layout (blanks : ∀ n, Blank (blank n)) (behind : Blank colon) {level : Nat}
    {v : Value} {b : Bytes} (ho : once v = true) (written : canonicalJson v = .ok b) :
    jsonLoads (utf8 (layout blank colon level v)) = .ok v := by
  obtain ⟨u, checked, -⟩ := bind_ok.mp written
  rw [jsonLoads, decoded_layout blanks behind, ok_bind,
    loads_layout blanks behind (check_keyed _ v checked) ho, ok_bind, written, ok_bind, pure_ok]

end decoding

theorem canonicalJson_nonempty {v : Value} {b : Bytes} (written : canonicalJson v = .ok b) :
    0 < b.length := by
  obtain ⟨u, checked, text⟩ := bind_ok.mp written
  obtain rfl := Except.ok.inj text
  obtain ⟨b, bs, octets, -⟩ := @utf8_layout (fun _ => []) [] (fun _ => blank_nil) blank_nil 0
    (canon v)
  rw [layout_dump] at octets
  rw [octets]
  exact Nat.succ_pos _

/-- Canonical JSON is read back as the canonical form of what was written. -/
theorem jsonLoads_canonicalJson {v : Value} {b : Bytes} (ho : once v = true)
    (written : canonicalJson v = .ok b) : jsonLoads b = .ok (canon v) := by
  have again := canonicalJson_canon written
  obtain ⟨u, checked, text⟩ := bind_ok.mp written
  obtain rfl := Except.ok.inj text
  have read := @jsonLoads_layout (fun _ => []) [] (fun _ => blank_nil) blank_nil 0 (canon v) _
    (once_canon v ho) again
  rwa [layout_dump] at read

-- Each reader leaves less than it was given, so twice the length of the text is as
-- good as any more: no text is refused for want of fuel.

theorem skipWs_le (cs : List Char) : (skipWs cs).length ≤ cs.length :=
  (List.dropWhile_sublist isWs).length_le

theorem lowHalf_shorter {high : Nat} {cs : List Char} {one : Char × List Char}
    (read : lowHalf high cs = some one) : one.2.length < cs.length := by
  unfold lowHalf at read
  split at read
  next =>
    split at read
    next =>
      split at read
      next =>
        obtain rfl := Option.some.inj read
        simp only [List.length_cons]
        omega
      next => cases read
    next => cases read
  next => cases read

theorem unicodeEscape_shorter {cs : List Char} {one : Char × List Char}
    (read : unicodeEscape cs = some one) : one.2.length < cs.length := by
  unfold unicodeEscape at read
  split at read
  next =>
    split at read
    next =>
      split at read
      next =>
        have := lowHalf_shorter read
        simp only [List.length_cons]
        omega
      next =>
        obtain ⟨c, -, rfl⟩ := Option.map_eq_some_iff.mp read
        simp only [List.length_cons]
        omega
    next => cases read
  next => cases read

theorem ofOption_char {one : Option (Char × List Char)} {c : Char} {r : List Char}
    (read : Piece.ofOption one = .char c r) : one = some (c, r) := by
  cases one with
  | none => cases read
  | some p =>
    obtain ⟨rfl, rfl⟩ := Piece.char.inj read
    rfl

theorem ofOption_open (one : Option (Char × List Char)) (r : List Char) :
    Piece.ofOption one ≠ .close r := by
  intro read
  cases one with
  | none => cases read
  | some p => cases read

/-- Reading one character takes at least one from the text. -/
theorem piece_shorter {cs : List Char} {c : Char} {r : List Char} (read : piece cs = .char c r) :
    r.length < cs.length := by
  unfold piece at read
  split at read
  next => cases read
  next =>
    have := unicodeEscape_shorter (ofOption_char read)
    simp only [List.length_cons] at this ⊢
    omega
  next =>
    obtain ⟨d, -, same⟩ := Option.map_eq_some_iff.mp (ofOption_char read)
    obtain rfl := congrArg Prod.snd same
    simp only [List.length_cons]
    omega
  next =>
    split at read
    next => cases read
    next =>
      cases read
      exact Nat.lt_succ_self _
  next => cases read

theorem piece_close {cs r : List Char} (read : piece cs = .close r) : r.length < cs.length := by
  unfold piece at read
  split at read
  next =>
    cases read
    exact Nat.lt_succ_self _
  next => exact absurd read (ofOption_open _ r)
  next => exact absurd read (ofOption_open _ r)
  next =>
    split at read
    next => cases read
    next => cases read
  next => cases read

/-- A string that was read has taken at least its closing quote. -/
theorem readString_shorter {fuel : Nat} {cs text r : List Char}
    (read : readString fuel cs = .ok (text, r)) : r.length < cs.length := by
  induction fuel generalizing cs text with
  | zero => cases read
  | succ fuel ih =>
    rw [readString] at read
    split at read
    next closed =>
      cases read
      exact piece_close closed
    next one =>
      obtain ⟨⟨rest, r'⟩, later, made⟩ := bind_ok.mp read
      cases made
      exact (ih later).trans (piece_shorter one)
    next => cases read

theorem readNat_shorter {cs : List Char} {n : Nat} {r : List Char}
    (read : readNat cs = .ok (n, r)) : r.length < cs.length := by
  unfold readNat at read
  split at read
  next =>
    cases read
    exact Nat.lt_succ_self _
  next c rest _ =>
    split at read
    next digit =>
      have behind : (digitsOf (c :: rest)).2 = r := congrArg Prod.snd (Except.ok.inj read)
      rw [← behind, digitsOf, List.span_eq_takeWhile_dropWhile, List.dropWhile_cons_of_pos digit]
      exact Nat.lt_succ_of_le (List.dropWhile_sublist _).length_le
    next => cases read
  next => cases read

theorem readInt_shorter {cs : List Char} {n : Int} {r : List Char}
    (read : readInt cs = .ok (n, r)) : r.length < cs.length := by
  unfold readInt at read
  split at read
  next =>
    obtain ⟨⟨m, r'⟩, number, made⟩ := bind_ok.mp read
    cases made
    exact Nat.lt_succ_of_lt (readNat_shorter number)
  next =>
    obtain ⟨⟨m, r'⟩, number, made⟩ := bind_ok.mp read
    cases made
    exact readNat_shorter number

/-- What is left behind a value, the elements of a list and the items of a dictionary. -/
structure Shortens (fuel : Nat) : Prop where
  value : ∀ {cs v r}, readValue fuel cs = .ok (v, r) → r.length < cs.length
  elems : ∀ {cs xs r}, readElems fuel cs = .ok (xs, r) → r.length < cs.length
  items : ∀ {cs kvs r}, readItems fuel cs = .ok (kvs, r) → r.length < cs.length

theorem behind_blanks {cs r : List Char} {c : Char} (begins : skipWs cs = c :: r) :
    r.length < cs.length := by
  have := skipWs_le cs
  rw [begins, List.length_cons] at this
  omega

/-- A value that was read has taken at least one character, given that smaller fuel does. -/
theorem value_shorter {fuel : Nat} (ih : Shortens fuel) {cs : List Char} {v : Value}
    {r : List Char} (read : readValue (fuel + 1) cs = .ok (v, r)) : r.length < cs.length := by
  rw [readValue.eq_def] at read
  simp only at read
  split at read
  next =>
    obtain ⟨⟨text, rest⟩, inside, made⟩ := bind_ok.mp read
    cases made
    exact Nat.lt_succ_of_lt (readString_shorter inside)
  next =>
    split at read
    next closed =>
      obtain ⟨w, -, same⟩ := bind_ok.mp read
      cases same
      exact Nat.lt_succ_of_lt (behind_blanks closed)
    next rest _ =>
      obtain ⟨⟨kvs, rest⟩, inside, read⟩ := bind_ok.mp read
      obtain ⟨w, -, same⟩ := bind_ok.mp read
      cases same
      exact Nat.lt_succ_of_lt ((ih.items inside).trans_le (skipWs_le _))
  next =>
    split at read
    next closed =>
      cases read
      exact Nat.lt_succ_of_lt (behind_blanks closed)
    next =>
      obtain ⟨⟨xs, rest⟩, inside, made⟩ := bind_ok.mp read
      cases made
      exact Nat.lt_succ_of_lt ((ih.elems inside).trans_le (skipWs_le _))
  next =>
    cases read
    simp only [List.length_cons]
    omega
  next =>
    cases read
    simp only [List.length_cons]
    omega
  next =>
    cases read
    simp only [List.length_cons]
    omega
  next =>
    obtain ⟨⟨n, rest⟩, inside, made⟩ := bind_ok.mp read
    cases made
    exact readInt_shorter inside

theorem elems_shorter {fuel : Nat} (ih : Shortens fuel) {cs : List Char} {xs : List Value}
    {r : List Char} (read : readElems (fuel + 1) cs = .ok (xs, r)) : r.length < cs.length := by
  rw [readElems] at read
  obtain ⟨⟨x, rest⟩, first, read⟩ := bind_ok.mp read
  have front := ih.value first
  simp only at read
  split at read
  next begins =>
    obtain ⟨⟨ys, rest'⟩, later, made⟩ := bind_ok.mp read
    cases made
    have last := (ih.elems later).trans_le (skipWs_le _)
    exact (last.trans (behind_blanks begins)).trans front
  next begins =>
    cases read
    exact (behind_blanks begins).trans front
  next => cases read

theorem items_shorter {fuel : Nat} (ih : Shortens fuel) {cs : List Char} {kvs : Dict}
    {r : List Char} (read : readItems (fuel + 1) cs = .ok (kvs, r)) : r.length < cs.length := by
  rw [readItems.eq_def] at read
  simp only at read
  split at read
  next =>
    obtain ⟨⟨key, rest⟩, text, read⟩ := bind_ok.mp read
    have front := readString_shorter text
    simp only at read
    split at read
    next colon =>
      obtain ⟨⟨v, rest'⟩, first, read⟩ := bind_ok.mp read
      have := behind_blanks colon
      have := (ih.value first).trans_le (skipWs_le _)
      simp only [List.length_cons]
      simp only at read
      split at read
      next begins =>
        obtain ⟨⟨others, rest''⟩, later, made⟩ := bind_ok.mp read
        cases made
        have last := (ih.items later).trans_le (skipWs_le _)
        have := last.trans (behind_blanks begins)
        simp only at *
        omega
      next begins =>
        cases read
        have := behind_blanks begins
        omega
      next => cases read
    next => cases read
  next => cases read

/-- Every reader takes at least one character, whatever the fuel. -/
theorem shortens (fuel : Nat) : Shortens fuel := by
  induction fuel with
  | zero =>
    constructor
    all_goals
      intro cs x r read
      cases read
  | succ fuel ih => exact ⟨value_shorter ih, elems_shorter ih, items_shorter ih⟩

/-- Two amounts of fuel that are enough for a text give the same. -/
structure Alike (f g : Nat) : Prop where
  value : ∀ cs : List Char, 2 * cs.length < f → 2 * cs.length < g →
    readValue f cs = readValue g cs
  elems : ∀ cs : List Char, 2 * cs.length + 1 < f → 2 * cs.length + 1 < g →
    readElems f cs = readElems g cs
  items : ∀ cs : List Char, 2 * cs.length + 1 < f → 2 * cs.length + 1 < g →
    readItems f cs = readItems g cs

/-- Two continuations that agree on the values a computation returns agree behind it. -/
theorem bind_alike {A B : Type} {x : Py A} {f g : A → Py B}
    (same : ∀ a, x = .ok a → f a = g a) : (x >>= f) = (x >>= g) := by
  cases x with
  | error e => rfl
  | ok a => exact same a rfl

/-- Two fuels that exceed twice the text read the same value. -/
theorem value_alike {f g : Nat} (ih : Alike f g) (cs : List Char) (hf : 2 * cs.length < f + 1)
    (hg : 2 * cs.length < g + 1) : readValue (f + 1) cs = readValue (g + 1) cs := by
  rw [readValue.eq_def, readValue.eq_def]
  simp only
  split
  any_goals rfl
  next r =>
    split
    next => rfl
    next =>
      have := skipWs_le r
      simp only [List.length_cons] at hf hg
      rw [ih.items (skipWs r) (by omega) (by omega)]
  next r =>
    split
    next => rfl
    next =>
      have := skipWs_le r
      simp only [List.length_cons] at hf hg
      rw [ih.elems (skipWs r) (by omega) (by omega)]

theorem elems_alike {f g : Nat} (ih : Alike f g) (cs : List Char)
    (hf : 2 * cs.length + 1 < f + 1) (hg : 2 * cs.length + 1 < g + 1) :
    readElems (f + 1) cs = readElems (g + 1) cs := by
  rw [readElems, readElems, ih.value cs (by omega) (by omega)]
  refine bind_alike fun p first => ?_
  have front := (shortens g).value first
  simp only
  split
  any_goals rfl
  next r begins =>
    have := behind_blanks begins
    have := skipWs_le r
    rw [ih.elems (skipWs r) (by omega) (by omega)]

theorem items_alike {f g : Nat} (ih : Alike f g) (cs : List Char)
    (hf : 2 * cs.length + 1 < f + 1) (hg : 2 * cs.length + 1 < g + 1) :
    readItems (f + 1) cs = readItems (g + 1) cs := by
  rw [readItems.eq_def, readItems.eq_def]
  simp only
  split
  any_goals rfl
  refine bind_alike fun p text => ?_
  have front := readString_shorter text
  simp only [List.length_cons] at hf hg
  split
  any_goals rfl
  next r colon =>
    have := behind_blanks colon
    have := skipWs_le r
    rw [ih.value (skipWs r) (by omega) (by omega)]
    refine bind_alike fun q first => ?_
    have := (shortens g).value first
    split
    any_goals rfl
    next r' begins =>
      have := behind_blanks begins
      have := skipWs_le r'
      rw [ih.items (skipWs r') (by omega) (by omega)]

/-- No reader depends on its fuel once that is larger than twice the text. -/
theorem alike (f g : Nat) : Alike f g := by
  induction f generalizing g with
  | zero => exact ⟨fun _ none_ => by omega, fun _ none_ => by omega, fun _ none_ => by omega⟩
  | succ f ih => cases g with
    | zero =>
      exact ⟨fun _ _ none_ => by omega, fun _ _ none_ => by omega, fun _ _ none_ => by omega⟩
    | succ g => exact ⟨value_alike (ih g), elems_alike (ih g), items_alike (ih g)⟩

/-- No text is refused for want of fuel. -/
theorem readValue_fuel {fuel : Nat} (cs : List Char) (enough : 2 * cs.length < fuel) :
    readValue fuel cs = readValue (fuelFor cs) cs :=
  (alike _ _).value cs enough (Nat.lt_succ_self _)

/-- The dict built from the items read is those items, and no two keys are equal. -/
theorem pairs_ok {kvs : Dict} {v : Value} (built : pairs kvs = .ok v) :
    v = .dict kvs ∧ (kvs.map Prod.fst).Pairwise fun k l => k.scalarEq l = false := by
  rw [pairs] at built
  split at built
  next distinct => exact ⟨(Except.ok.inj built).symm, distinct⟩
  next => cases built

/-- What each of the three readers returns, whatever fuel it has. -/
structure Reads (fuel : Nat) : Prop where
  value : ∀ {cs v r}, readValue fuel cs = .ok (v, r) → once v = true
  elems : ∀ {cs xs r}, readElems fuel cs = .ok (xs, r) → onceList xs = true
  items : ∀ {cs kvs r}, readItems fuel cs = .ok (kvs, r) → ∀ p ∈ kvs, once p.2 = true

/-- A value that was read repeats no key, given that the smaller fuel reads such values. -/
theorem value_once {fuel : Nat} (ih : Reads fuel) {cs : List Char} {v : Value} {r : List Char}
    (read : readValue (fuel + 1) cs = .ok (v, r)) : once v = true := by
  have built : ∀ {kvs : Dict} {w : Value}, (∀ p ∈ kvs, once p.2 = true) →
      pairs kvs = .ok w → once w = true := by
    intro kvs w each made
    obtain ⟨rfl, distinct⟩ := pairs_ok made
    rw [once, onceDict_iff]
    exact ⟨distinct, each⟩
  rw [readValue.eq_def] at read
  simp only at read
  split at read
  next =>
    obtain ⟨⟨text, rest⟩, -, made⟩ := bind_ok.mp read
    cases made
    simp [once]
  next =>
    split at read
    next =>
      obtain ⟨w, made, same⟩ := bind_ok.mp read
      cases same
      exact built (fun p none_ => by cases none_) made
    next =>
      obtain ⟨⟨kvs, rest⟩, inside, read⟩ := bind_ok.mp read
      obtain ⟨w, made, same⟩ := bind_ok.mp read
      cases same
      exact built (ih.items inside) made
  next =>
    split at read
    next =>
      cases read
      rw [once, onceList]
    next =>
      obtain ⟨⟨xs, rest⟩, inside, made⟩ := bind_ok.mp read
      cases made
      rw [once]
      exact ih.elems inside
  next =>
    cases read
    simp [once]
  next =>
    cases read
    simp [once]
  next =>
    cases read
    simp [once]
  next =>
    obtain ⟨⟨n, rest⟩, -, made⟩ := bind_ok.mp read
    cases made
    simp [once]

theorem elems_once {fuel : Nat} (ih : Reads fuel) {cs : List Char} {xs : List Value}
    {r : List Char} (read : readElems (fuel + 1) cs = .ok (xs, r)) : onceList xs = true := by
  rw [readElems] at read
  obtain ⟨⟨x, rest⟩, first, read⟩ := bind_ok.mp read
  simp only at read
  split at read
  next =>
    obtain ⟨⟨ys, rest⟩, later, made⟩ := bind_ok.mp read
    cases made
    rw [onceList, ih.value first, ih.elems later]
    rfl
  next =>
    cases read
    rw [onceList, ih.value first, onceList]
    rfl
  next => cases read

theorem items_once {fuel : Nat} (ih : Reads fuel) {cs : List Char} {kvs : Dict}
    {r : List Char} (read : readItems (fuel + 1) cs = .ok (kvs, r)) :
    ∀ p ∈ kvs, once p.2 = true := by
  rw [readItems.eq_def] at read
  simp only at read
  split at read
  next =>
    obtain ⟨⟨key, rest⟩, -, read⟩ := bind_ok.mp read
    simp only at read
    split at read
    next =>
      obtain ⟨⟨v, rest⟩, first, read⟩ := bind_ok.mp read
      simp only at read
      split at read
      next =>
        obtain ⟨⟨others, rest⟩, later, made⟩ := bind_ok.mp read
        cases made
        exact List.forall_mem_cons.mpr ⟨ih.value first, ih.items later⟩
      next =>
        cases read
        exact List.forall_mem_cons.mpr ⟨ih.value first, fun p none_ => by cases none_⟩
      next => cases read
    next => cases read
  next => cases read

/-- No accepted text has an object with a repeated key. -/
theorem reads (fuel : Nat) : Reads fuel := by
  induction fuel with
  | zero =>
    constructor
    all_goals
      intro cs x r read
      cases read
  | succ fuel ih => exact ⟨value_once ih, elems_once ih, items_once ih⟩

theorem loads_once {cs : List Char} {v : Value} (read : loads cs = .ok v) : once v = true := by
  rw [loads] at read
  obtain ⟨⟨w, rest⟩, first, read⟩ := bind_ok.mp read
  simp only at read
  split at read
  next =>
    cases read
    exact (reads _).value first
  next => cases read

/-- What was written is read back in key order, and from then on writing and reading change
nothing. -/
theorem written_value_read_back {v : Value} {b : Bytes} (ho : once v = true)
    (written : canonicalJson v = .ok b) :
    jsonLoads b = .ok (canon v) ∧ canonicalJson (canon v) = .ok b :=
  ⟨jsonLoads_canonicalJson ho written, canonicalJson_canon written⟩

/-- The keys are put in order. -/
theorem written_value_read_back_sorted : ∃ b,
    jsonLoads b = .ok (canon (.dict [(.str "b", .int (-7)), (.str "a", .bool true)])) ∧
      canonicalJson (canon (.dict [(.str "b", .int (-7)), (.str "a", .bool true)])) = .ok b :=
  ⟨_, written_value_read_back rfl rfl⟩

/-- What `json.loads` accepts can be written again. -/
theorem jsonLoads_once {b : Bytes} {v : Value} (read : jsonLoads b = .ok v) :
    once v = true ∧ ∃ text, canonicalJson v = .ok text := by
  obtain ⟨cs, -, read⟩ := bind_ok.mp read
  obtain ⟨w, first, read⟩ := bind_ok.mp read
  obtain ⟨text, written, same⟩ := bind_ok.mp read
  cases same
  exact ⟨loads_once first, text, written⟩

/-- What is read, from any text, has no key twice and a canonical text, which is read as the same
value in key order. -/
theorem accepted_text_read_again {b : Bytes} {v : Value} (read : jsonLoads b = .ok v) :
    once v = true ∧ ∃ text, canonicalJson v = .ok text ∧ jsonLoads text = .ok (canon v) := by
  obtain ⟨ho, text, written⟩ := jsonLoads_once read
  exact ⟨ho, text, written, jsonLoads_canonicalJson ho written⟩

/-- A text in two octets a character, with a blank in it. -/
theorem accepted_text_read_again_wide : ∃ text,
    canonicalJson (.list [.int 1, .dict [(.str "a", .list [])]]) = .ok text ∧
      jsonLoads text = .ok (canon (.list [.int 1, .dict [(.str "a", .list [])]])) :=
  (@accepted_text_read_again [91, 0, 32, 0, 49, 0, 44, 0, 123, 0, 34, 0, 97, 0, 34, 0, 58, 0, 91, 0,
    93, 0, 125, 0, 93, 0] _ rfl).2

end JsonRoundTrip
