import Custody.HexBytes
import Custody.PyValue

/-!
# Canonical JSON

`canonical_json` writes sorted keys, no blanks and plain UTF-8, and refuses keys
that are not ASCII text. The text determines the value up to the order of the
keys, which is what a signature over the bytes is later read as.
-/

namespace CanonicalJson

open PyValue HexBytes

def isAscii (s : String) : Bool := s.toList.all fun c => decide (c.toNat < 128)

mutual
/-- `_check(obj, path)`. -/
def check (path : String) : Value → Py Unit
  | .list xs => checkList path 0 xs
  | .dict kvs => checkDict path kvs
  | _ => .ok ()
termination_by structural v => v

def checkList (path : String) (i : Nat) : List Value → Py Unit
  | [] => .ok ()
  | x :: xs => do
    check (path ++ "[" ++ toString i ++ "]") x
    checkList path (i + 1) xs
termination_by structural v => v

def checkDict (path : String) : List (Value × Value) → Py Unit
  | [] => .ok ()
  | (k, v) :: rest => match k with
    | .str s =>
      if isAscii s then do
        check (path ++ "." ++ s) v
        checkDict path rest
      else .error (.nonAsciiKey s path)
    | _ => .error (.valueError ("non-string key at " ++ path))
termination_by structural v => v
end

def keyLt : Value → Value → Bool
  | .str s, .str t => charsLt s.toList t.toList
  | _, _ => false

def insertKey (p : Value × Value) : List (Value × Value) → List (Value × Value)
  | [] => [p]
  | q :: rest => if keyLt q.1 p.1 then q :: insertKey p rest else p :: q :: rest

/-- `sorted(d.items())`: stable, so equal keys keep their order. -/
def sortKeys : List (Value × Value) → List (Value × Value)
  | [] => []
  | p :: rest => insertKey p (sortKeys rest)

mutual
/-- The value with every dictionary in key order. -/
def canon : Value → Value
  | .list xs => .list (canonList xs)
  | .dict kvs => .dict (sortKeys (canonDict kvs))
  | v => v
termination_by structural v => v

def canonList : List Value → List Value
  | [] => []
  | x :: xs => canon x :: canonList xs
termination_by structural v => v

def canonDict : List (Value × Value) → List (Value × Value)
  | [] => []
  | (k, v) :: rest => (k, canon v) :: canonDict rest
termination_by structural v => v
end

def decimal : Nat → Nat → List Char
  | 0, _ => []
  | fuel + 1, n =>
    if n < 10 then [nibbleChar n] else decimal fuel (n / 10) ++ [nibbleChar (n % 10)]

def natChars (n : Nat) : List Char := decimal (n + 1) n

def intChars (n : Int) : List Char :=
  if n < 0 then '-' :: natChars n.natAbs else natChars n.natAbs

def escape (c : Char) : List Char :=
  if c = '"' then ['\\', '"']
  else if c = '\\' then ['\\', '\\']
  else if c = '\n' then ['\\', 'n']
  else if c = '\r' then ['\\', 'r']
  else if c = '\t' then ['\\', 't']
  else if c.toNat = 8 then ['\\', 'b']
  else if c.toNat = 12 then ['\\', 'f']
  else if c.toNat < 32 then
    ['\\', 'u', '0', '0', nibbleChar (c.toNat / 16), nibbleChar (c.toNat % 16)]
  else [c]

def escapeAll : List Char → List Char
  | [] => []
  | c :: cs => escape c ++ escapeAll cs

def quote (s : String) : List Char := '"' :: (escapeAll s.toList ++ ['"'])

def keyChars : Value → List Char
  | .str s => quote s
  | _ => []

mutual
def dump : Value → List Char
  | .null => ['n', 'u', 'l', 'l']
  | .bool true => ['t', 'r', 'u', 'e']
  | .bool false => ['f', 'a', 'l', 's', 'e']
  | .int n => intChars n
  | .str s => quote s
  | .list [] => ['[', ']']
  | .list (x :: xs) => '[' :: (dump x ++ dumpTail xs)
  | .dict [] => ['{', '}']
  | .dict ((k, v) :: rest) => '{' :: (keyChars k ++ ':' :: (dump v ++ dumpItems rest))
termination_by structural v => v

def dumpTail : List Value → List Char
  | [] => [']']
  | x :: xs => ',' :: (dump x ++ dumpTail xs)
termination_by structural v => v

def dumpItems : List (Value × Value) → List Char
  | [] => ['}']
  | (k, v) :: rest => ',' :: (keyChars k ++ ':' :: (dump v ++ dumpItems rest))
termination_by structural v => v
end

def utf8 (cs : List Char) : Bytes := cs.flatMap String.utf8EncodeChar

/-- `canonical_json(obj)`. -/
def canonicalJson (v : Value) : Py Bytes := do
  check "$" v
  pure (utf8 (dump (canon v)))

-- Each lemma below reads one written piece off the front of a text: if two texts start
-- with such a piece, the pieces agree and so do the remainders.

/-- UTF-8 tells texts apart. -/
theorem utf8_injective {cs ds : List Char} (same : utf8 cs = utf8 ds) : cs = ds := by
  have bytes : String.ofList cs = String.ofList ds := by
    rw [← String.toByteArray_inj]
    simpa [utf8, List.utf8Encode] using congrArg List.toByteArray same
  simpa using congrArg String.toList bytes

def StopsNumber (r : List Char) : Prop := ∀ c cs, r = c :: cs → c.isDigit = false

theorem stopsNumber_of_head {c : Char} {cs : List Char} (stop : c.isDigit = false) :
    StopsNumber (c :: cs) := by
  rintro d ds ⟨rfl, rfl⟩
  exact stop

theorem nibbleChar_digit : ∀ n, n < 10 → (nibbleChar n).isDigit = true ∧
    (nibbleChar n).toNat = 48 + n := by
  decide

def decimalValue (cs : List Char) : Nat := cs.foldl (fun n c => 10 * n + (c.toNat - 48)) 0

/-- The decimal digits of a number give it back. -/
theorem decimal_value {fuel n : Nat} (enough : n < fuel) :
    decimalValue (decimal fuel n) = n := by
  induction fuel generalizing n with
  | zero => omega
  | succ fuel ih =>
    rw [decimal]
    split
    · rename_i small
      simp [decimalValue, (nibbleChar_digit n small).2]
    · have rest := ih (n := n / 10) (by omega)
      have digit := (nibbleChar_digit (n % 10) (by omega)).2
      simp only [decimalValue, List.foldl_append, List.foldl_cons, List.foldl_nil] at rest ⊢
      rw [rest, digit]
      omega

theorem decimal_digits (fuel n : Nat) : ∀ c ∈ decimal fuel n, c.isDigit = true := by
  induction fuel generalizing n with
  | zero => simp [decimal]
  | succ fuel ih =>
    rw [decimal]
    split
    · rename_i small
      simp [(nibbleChar_digit n small).1]
    · intro c hc
      rcases List.mem_append.mp hc with old | new
      · exact ih _ c old
      · rw [List.mem_singleton.mp new]
        exact (nibbleChar_digit (n % 10) (by omega)).1

/-- Two runs of digits that end in the same way are the same. -/
theorem digits_front {xs ys r r' : List Char} (hx : ∀ c ∈ xs, c.isDigit = true)
    (hy : ∀ c ∈ ys, c.isDigit = true) (hr : StopsNumber r) (hr' : StopsNumber r')
    (same : xs ++ r = ys ++ r') : xs = ys ∧ r = r' := by
  induction xs generalizing ys with
  | nil =>
    cases ys with
    | nil => exact ⟨rfl, same⟩
    | cons d ds =>
      have bad := hr d (ds ++ r') same
      rw [hy d List.mem_cons_self] at bad
      cases bad
  | cons c cs ih =>
    cases ys with
    | nil =>
      have bad := hr' c (cs ++ r) same.symm
      rw [hx c List.mem_cons_self] at bad
      cases bad
    | cons d ds =>
      obtain ⟨rfl, tails⟩ := List.cons.inj same
      obtain ⟨rfl, rest⟩ := ih (fun a ha => hx a (List.mem_cons_of_mem _ ha))
        (fun a ha => hy a (List.mem_cons_of_mem _ ha)) tails
      exact ⟨rfl, rest⟩

/-- A number is determined by any text that begins with it and goes on with no digit. -/
theorem natChars_front {m n : Nat} {r r' : List Char} (hr : StopsNumber r)
    (hr' : StopsNumber r') (same : natChars m ++ r = natChars n ++ r') : m = n ∧ r = r' := by
  obtain ⟨texts, rest⟩ := digits_front (decimal_digits _ _) (decimal_digits _ _) hr hr' same
  have values := congrArg decimalValue texts
  rw [decimal_value (Nat.lt_succ_self m), decimal_value (Nat.lt_succ_self n)] at values
  exact ⟨values, rest⟩

theorem natChars_head (n : Nat) : ∃ c cs, natChars n = c :: cs ∧ c.isDigit = true := by
  have nonempty : natChars n ≠ [] := by
    rw [natChars, decimal]
    split <;> simp
  obtain ⟨c, cs, h⟩ := List.exists_cons_of_ne_nil nonempty
  exact ⟨c, cs, h, decimal_digits _ _ c (by rw [← natChars, h]; exact List.mem_cons_self)⟩

theorem intChars_head (n : Int) :
    ∃ c cs, intChars n = c :: cs ∧ (c = '-' ∨ c.isDigit = true) := by
  obtain ⟨c, cs, h, digit⟩ := natChars_head n.natAbs
  rw [intChars]
  split
  · exact ⟨'-', _, rfl, Or.inl rfl⟩
  · exact ⟨c, cs, h, Or.inr digit⟩

theorem intChars_front {m n : Int} {r r' : List Char} (hr : StopsNumber r)
    (hr' : StopsNumber r') (same : intChars m ++ r = intChars n ++ r') : m = n ∧ r = r' := by
  obtain ⟨c, cs, hm, cdigit⟩ := natChars_head m.natAbs
  obtain ⟨d, ds, hn, ddigit⟩ := natChars_head n.natAbs
  have minus : ('-' : Char).isDigit = false := by decide
  by_cases negm : m < 0
  · by_cases negn : n < 0
    · simp only [intChars, negm, negn, if_true, List.cons_append] at same
      obtain ⟨habs, rest⟩ := natChars_front hr hr' (List.cons.inj same).2
      exact ⟨by omega, rest⟩
    · simp only [intChars, negm, negn, if_true, if_false, hn, List.cons_append] at same
      rw [← (List.cons.inj same).1, minus] at ddigit
      cases ddigit
  · by_cases negn : n < 0
    · simp only [intChars, negm, negn, if_true, if_false, hm, List.cons_append] at same
      rw [(List.cons.inj same).1, minus] at cdigit
      cases cdigit
    · simp only [intChars, negm, negn, if_false] at same
      obtain ⟨habs, rest⟩ := natChars_front hr hr' same
      exact ⟨by omega, rest⟩

/-- Reads back one written character. -/
def unescape : List Char → Option (Char × List Char)
  | '\\' :: 'u' :: '0' :: '0' :: h :: l :: r =>
    match charNibble h, charNibble l with
    | some a, some b => some (Char.ofNat (16 * a + b), r)
    | _, _ => none
  | '\\' :: 'n' :: r => some ('\n', r)
  | '\\' :: 'r' :: r => some ('\r', r)
  | '\\' :: 't' :: r => some ('\t', r)
  | '\\' :: 'b' :: r => some (Char.ofNat 8, r)
  | '\\' :: 'f' :: r => some (Char.ofNat 12, r)
  | '\\' :: c :: r => some (c, r)
  | c :: r => some (c, r)
  | [] => none

theorem char_of_toNat {c : Char} {n : Nat} (h : c.toNat = n) : c = Char.ofNat n := by
  rw [← h, Char.ofNat_toNat]

/-- An escaped character is recovered together with what follows it. -/
theorem unescape_escape (c : Char) (r : List Char) : unescape (escape c ++ r) = some (c, r) := by
  unfold escape
  split_ifs with h1 h2 h3 h4 h5 h6 h7 h8
  · subst h1; rfl
  · subst h2; rfl
  · subst h3; rfl
  · subst h4; rfl
  · subst h5; rfl
  · rw [char_of_toNat h6]; rfl
  · rw [char_of_toNat h7]; rfl
  · have high := (nibble_round_trip (c.toNat / 16) (by omega)).1
    have low := (nibble_round_trip (c.toNat % 16) (by omega)).1
    simp only [List.cons_append, List.nil_append, unescape, high, low]
    rw [Nat.div_add_mod, Char.ofNat_toNat]
  · rw [List.singleton_append, unescape] <;> simp_all

theorem escape_head (c : Char) : ∃ d ds, escape c = d :: ds ∧ d ≠ '"' := by
  unfold escape
  split_ifs with h1
  all_goals exact ⟨_, _, rfl, by first | exact h1 | decide⟩

/-- Escaping is uniquely readable from the front. -/
theorem escape_front {c d : Char} {r r' : List Char}
    (same : escape c ++ r = escape d ++ r') : c = d ∧ r = r' := by
  have h := congrArg unescape same
  rw [unescape_escape, unescape_escape, Option.some.injEq, Prod.mk.injEq] at h
  exact h

theorem escapeAll_front {cs ds r r' : List Char}
    (same : escapeAll cs ++ '"' :: r = escapeAll ds ++ '"' :: r') : cs = ds ∧ r = r' := by
  induction cs generalizing ds with
  | nil =>
    cases ds with
    | nil => exact ⟨rfl, (List.cons.inj same).2⟩
    | cons d ds =>
      obtain ⟨e, es, he, quoted⟩ := escape_head d
      simp only [escapeAll, he, List.nil_append, List.cons_append, List.append_assoc] at same
      exact absurd (List.cons.inj same).1.symm quoted
  | cons c cs ih =>
    cases ds with
    | nil =>
      obtain ⟨e, es, he, quoted⟩ := escape_head c
      simp only [escapeAll, he, List.nil_append, List.cons_append, List.append_assoc] at same
      exact absurd (List.cons.inj same).1 quoted
    | cons d ds =>
      simp only [escapeAll, List.append_assoc] at same
      obtain ⟨rfl, tails⟩ := escape_front same
      obtain ⟨rfl, rest⟩ := ih tails
      exact ⟨rfl, rest⟩

/-- A quoted string is determined by any text that begins with it. -/
theorem quote_front {s t : String} {r r' : List Char}
    (same : quote s ++ r = quote t ++ r') : s = t ∧ r = r' := by
  simp only [quote, List.cons_append, List.append_assoc, List.nil_append] at same
  obtain ⟨texts, rest⟩ := escapeAll_front (List.cons.inj same).2
  exact ⟨String.toList_inj.mp texts, rest⟩

/-- Every dictionary key is text. -/
def textKey : Value → Bool
  | .str _ => true
  | _ => false

mutual
def keyed : Value → Bool
  | .list xs => keyedList xs
  | .dict kvs => keyedDict kvs
  | _ => true
termination_by structural v => v

def keyedList : List Value → Bool
  | [] => true
  | x :: xs => keyed x && keyedList xs
termination_by structural v => v

def keyedDict : List (Value × Value) → Bool
  | [] => true
  | (k, v) :: rest => textKey k && (keyed v && keyedDict rest)
termination_by structural v => v
end

/-- The first character of a written value tells its constructor. -/
def charKind (c : Char) : Nat :=
  if c = 'n' then 0 else if c = 't' then 1 else if c = 'f' then 2
  else if c = '"' then 3 else if c = '[' then 4 else if c = '{' then 5
  else if c = '-' || c.isDigit then 6 else 7

def valueKind : Value → Nat
  | .null => 0
  | .bool true => 1
  | .bool false => 2
  | .str _ => 3
  | .list _ => 4
  | .dict _ => 5
  | .int _ => 6

theorem digit_kind {c : Char} (h : c = '-' ∨ c.isDigit = true) : charKind c = 6 := by
  rcases h with rfl | h
  · decide
  · have other : ∀ d : Char, d.isDigit = false → c ≠ d := by
      rintro d hd rfl
      rw [hd] at h
      cases h
    have hn := other 'n' (by decide)
    have ht := other 't' (by decide)
    have hf := other 'f' (by decide)
    have hq := other '"' (by decide)
    have hl := other '[' (by decide)
    have hb := other '{' (by decide)
    simp [charKind, hn, ht, hf, hq, hl, hb, h]

theorem dump_head (v : Value) : ∃ c cs, dump v = c :: cs ∧ charKind c = valueKind v := by
  cases v with
  | null => exact ⟨_, _, by rw [dump], by decide⟩
  | bool b => cases b <;> exact ⟨_, _, by rw [dump], by decide⟩
  | int n =>
    obtain ⟨c, cs, h, digit⟩ := intChars_head n
    exact ⟨c, cs, by rw [dump, h], digit_kind digit⟩
  | str s => exact ⟨_, _, by rw [dump, quote], by simp [charKind, valueKind]⟩
  | list xs => cases xs <;> exact ⟨_, _, by rw [dump], by simp [charKind, valueKind]⟩
  | dict kvs =>
    rcases kvs with _ | ⟨⟨k, v⟩, rest⟩ <;>
      exact ⟨_, _, by rw [dump], by simp [charKind, valueKind]⟩

/-- Texts that agree in front begin with values of one kind. -/
theorem dump_same_kind {v w : Value} {r r' : List Char} (same : dump v ++ r = dump w ++ r') :
    valueKind v = valueKind w := by
  obtain ⟨c, cs, hv, kv⟩ := dump_head v
  obtain ⟨d, ds, hw, kw⟩ := dump_head w
  rw [hv, hw] at same
  rw [← kv, ← kw, (List.cons.inj same).1]

theorem stopsNumber_dumpTail (xs : List Value) (r : List Char) :
    StopsNumber (dumpTail xs ++ r) := by
  cases xs with
  | nil => rw [dumpTail]; exact stopsNumber_of_head (by decide)
  | cons x xs => rw [dumpTail]; exact stopsNumber_of_head (by decide)

theorem stopsNumber_dumpItems (kvs : List (Value × Value)) (r : List Char) :
    StopsNumber (dumpItems kvs ++ r) := by
  rcases kvs with _ | ⟨⟨k, v⟩, rest⟩
  · rw [dumpItems]; exact stopsNumber_of_head (by decide)
  · rw [dumpItems]; exact stopsNumber_of_head (by decide)

theorem keyChars_front {k l : Value} {r r' : List Char} (hk : textKey k = true)
    (hl : textKey l = true) (same : keyChars k ++ r = keyChars l ++ r') : k = l ∧ r = r' := by
  cases k with
  | str s => cases l with
    | str t =>
      obtain ⟨rfl, rest⟩ := quote_front same
      exact ⟨rfl, rest⟩
    | _ => cases hl
  | _ => cases hk

/-- No value begins with a closing bracket. -/
theorem dump_not_closing (v : Value) {c : Char} {cs r : List Char} (close : charKind c = 7) :
    dump v ++ r ≠ c :: cs := by
  intro same
  obtain ⟨d, ds, hd, kind⟩ := dump_head v
  rw [hd, List.cons_append] at same
  rw [(List.cons.inj same).1, close] at kind
  cases v with
  | bool b => cases b <;> cases kind
  | _ => cases kind

theorem keyChars_not_closing {k : Value} {cs r : List Char} (hk : textKey k = true) :
    keyChars k ++ r ≠ '}' :: cs := by
  cases k with
  | str s =>
    intro same
    exact absurd (List.cons.inj same).1 (by decide)
  | _ => cases hk

mutual
/-- A value is determined by any text that begins with it; the induction is on the value. -/
theorem dump_front : ∀ (v w : Value) {r r' : List Char}, keyed v = true → keyed w = true →
    StopsNumber r → StopsNumber r' → dump v ++ r = dump w ++ r' → v = w ∧ r = r'
  | .null, w, r, r', _, _, _, _, same => by
    have kind := dump_same_kind same
    cases w with
    | null => exact ⟨rfl, by simpa [dump] using same⟩
    | bool b => cases b <;> simp [valueKind] at kind
    | _ => simp [valueKind] at kind
  | .bool b, w, r, r', _, _, _, _, same => by
    have kind := dump_same_kind same
    cases w with
    | bool c => cases b <;> cases c <;> simp_all [valueKind, dump]
    | _ => cases b <;> simp [valueKind] at kind
  | .int m, w, r, r', _, _, hr, hr', same => by
    have kind := dump_same_kind same
    cases w with
    | int n =>
      simp only [dump] at same
      obtain ⟨rfl, rest⟩ := intChars_front hr hr' same
      exact ⟨rfl, rest⟩
    | bool b => cases b <;> simp [valueKind] at kind
    | _ => simp [valueKind] at kind
  | .str s, w, r, r', _, _, _, _, same => by
    have kind := dump_same_kind same
    cases w with
    | str t =>
      simp only [dump] at same
      obtain ⟨rfl, rest⟩ := quote_front same
      exact ⟨rfl, rest⟩
    | bool b => cases b <;> simp [valueKind] at kind
    | _ => simp [valueKind] at kind
  | .list xs, w, r, r', hv, hw, hr, hr', same => by
    have kind := dump_same_kind same
    cases w with
    | list ys =>
      obtain ⟨rfl, rest⟩ := dumpList_front xs ys hv hw same
      exact ⟨rfl, rest⟩
    | bool b => cases b <;> simp [valueKind] at kind
    | _ => simp [valueKind] at kind
  | .dict kvs, w, r, r', hv, hw, hr, hr', same => by
    have kind := dump_same_kind same
    cases w with
    | dict lws =>
      obtain ⟨rfl, rest⟩ := dumpDict_front kvs lws hv hw same
      exact ⟨rfl, rest⟩
    | bool b => cases b <;> simp [valueKind] at kind
    | _ => simp [valueKind] at kind

theorem dumpList_front : ∀ (xs ys : List Value) {r r' : List Char}, keyedList xs = true →
    keyedList ys = true → dump (.list xs) ++ r = dump (.list ys) ++ r' → xs = ys ∧ r = r'
  | [], [], r, r', _, _, same => ⟨rfl, by simpa [dump] using same⟩
  | [], y :: ys, r, r', _, _, same => by
    simp only [dump, List.cons_append, List.append_assoc] at same
    exact absurd (List.cons.inj same).2.symm (dump_not_closing y (by decide))
  | x :: xs, [], r, r', _, _, same => by
    simp only [dump, List.cons_append, List.append_assoc] at same
    exact absurd (List.cons.inj same).2 (dump_not_closing x (by decide))
  | x :: xs, y :: ys, r, r', hx, hy, same => by
    simp only [keyedList, Bool.and_eq_true] at hx hy
    simp only [dump, List.cons_append, List.append_assoc] at same
    obtain ⟨rfl, tails⟩ := dump_front x y hx.1 hy.1 (stopsNumber_dumpTail xs r)
      (stopsNumber_dumpTail ys r') (List.cons.inj same).2
    obtain ⟨rfl, rest⟩ := dumpTail_front xs ys hx.2 hy.2 tails
    exact ⟨rfl, rest⟩

/-- The remaining elements of an array are determined in the same way. -/
theorem dumpTail_front : ∀ (xs ys : List Value) {r r' : List Char}, keyedList xs = true →
    keyedList ys = true → dumpTail xs ++ r = dumpTail ys ++ r' → xs = ys ∧ r = r'
  | [], [], r, r', _, _, same => ⟨rfl, by simpa [dumpTail] using same⟩
  | [], y :: ys, r, r', _, _, same => by
    simp only [dumpTail, List.cons_append] at same
    exact absurd (List.cons.inj same).1 (by decide)
  | x :: xs, [], r, r', _, _, same => by
    simp only [dumpTail, List.cons_append] at same
    exact absurd (List.cons.inj same).1 (by decide)
  | x :: xs, y :: ys, r, r', hx, hy, same => by
    simp only [keyedList, Bool.and_eq_true] at hx hy
    simp only [dumpTail, List.cons_append, List.append_assoc] at same
    obtain ⟨rfl, tails⟩ := dump_front x y hx.1 hy.1 (stopsNumber_dumpTail xs r)
      (stopsNumber_dumpTail ys r') (List.cons.inj same).2
    obtain ⟨rfl, rest⟩ := dumpTail_front xs ys hx.2 hy.2 tails
    exact ⟨rfl, rest⟩

theorem dumpDict_front : ∀ (xs ys : List (Value × Value)) {r r' : List Char},
    keyedDict xs = true → keyedDict ys = true →
    dump (.dict xs) ++ r = dump (.dict ys) ++ r' → xs = ys ∧ r = r'
  | [], [], r, r', _, _, same => ⟨rfl, by simpa [dump] using same⟩
  | [], (l, w) :: ys, r, r', _, hy, same => by
    simp only [keyedDict, Bool.and_eq_true] at hy
    simp only [dump, List.cons_append, List.append_assoc] at same
    exact absurd (List.cons.inj same).2.symm (keyChars_not_closing hy.1)
  | (k, v) :: xs, [], r, r', hx, _, same => by
    simp only [keyedDict, Bool.and_eq_true] at hx
    simp only [dump, List.cons_append, List.append_assoc] at same
    exact absurd (List.cons.inj same).2 (keyChars_not_closing hx.1)
  | (k, v) :: xs, (l, w) :: ys, r, r', hx, hy, same => by
    simp only [keyedDict, Bool.and_eq_true] at hx hy
    simp only [dump, List.cons_append, List.append_assoc] at same
    obtain ⟨rfl, values⟩ := keyChars_front hx.1 hy.1 (List.cons.inj same).2
    obtain ⟨rfl, tails⟩ := dump_front v w hx.2.1 hy.2.1 (stopsNumber_dumpItems xs r)
      (stopsNumber_dumpItems ys r') (List.cons.inj values).2
    obtain ⟨rfl, rest⟩ := dumpItems_front xs ys hx.2.2 hy.2.2 tails
    exact ⟨rfl, rest⟩

/-- So are the remaining members of an object. -/
theorem dumpItems_front : ∀ (xs ys : List (Value × Value)) {r r' : List Char},
    keyedDict xs = true → keyedDict ys = true →
    dumpItems xs ++ r = dumpItems ys ++ r' → xs = ys ∧ r = r'
  | [], [], r, r', _, _, same => ⟨rfl, by simpa [dumpItems] using same⟩
  | [], (l, w) :: ys, r, r', _, _, same => by
    simp only [dumpItems, List.cons_append] at same
    exact absurd (List.cons.inj same).1 (by decide)
  | (k, v) :: xs, [], r, r', _, _, same => by
    simp only [dumpItems, List.cons_append] at same
    exact absurd (List.cons.inj same).1 (by decide)
  | (k, v) :: xs, (l, w) :: ys, r, r', hx, hy, same => by
    simp only [keyedDict, Bool.and_eq_true] at hx hy
    simp only [dumpItems, List.cons_append, List.append_assoc] at same
    obtain ⟨rfl, values⟩ := keyChars_front hx.1 hy.1 (List.cons.inj same).2
    obtain ⟨rfl, tails⟩ := dump_front v w hx.2.1 hy.2.1 (stopsNumber_dumpItems xs r)
      (stopsNumber_dumpItems ys r') (List.cons.inj values).2
    obtain ⟨rfl, rest⟩ := dumpItems_front xs ys hx.2.2 hy.2.2 tails
    exact ⟨rfl, rest⟩
end

mutual
/-- What passes the check has text keys throughout. -/
theorem check_keyed : ∀ (path : String) (v : Value), check path v = .ok () → keyed v = true
  | _, .null, _ | _, .bool _, _ | _, .int _, _ | _, .str _, _ => by simp [keyed]
  | path, .list xs, h => by
    rw [check] at h
    rw [keyed]
    exact checkList_keyed path 0 xs h
  | path, .dict kvs, h => by
    rw [check] at h
    rw [keyed]
    exact checkDict_keyed path kvs h

theorem checkList_keyed : ∀ (path : String) (i : Nat) (xs : List Value),
    checkList path i xs = .ok () → keyedList xs = true
  | _, _, [], _ => by rw [keyedList]
  | path, i, x :: xs, h => by
    rw [checkList, bind_ok] at h
    obtain ⟨_, hx, hxs⟩ := h
    rw [keyedList, check_keyed _ x hx, checkList_keyed path (i + 1) xs hxs]
    rfl

theorem checkDict_keyed : ∀ (path : String) (kvs : List (Value × Value)),
    checkDict path kvs = .ok () → keyedDict kvs = true
  | _, [], _ => by rw [keyedDict]
  | path, (.str s, v) :: rest, h => by
    simp only [checkDict] at h
    split at h
    · rw [bind_ok] at h
      obtain ⟨_, hv, hrest⟩ := h
      rw [keyedDict, check_keyed _ v hv, checkDict_keyed path rest hrest]
      rfl
    · cases h
  | _, (.null, _) :: _, h | _, (.bool _, _) :: _, h | _, (.int _, _) :: _, h
  | _, (.list _, _) :: _, h | _, (.dict _, _) :: _, h => by simp [checkDict] at h
end

-- Where a value stands changes the text of an error and not whether there is one.

mutual
/-- The check accepts a value under one path exactly when it does under any other. -/
theorem check_anywhere : ∀ (p q : String) (v : Value), check p v = .ok () → check q v = .ok ()
  | _, _, .null, _ | _, _, .bool _, _ | _, _, .int _, _ | _, _, .str _, _ => by simp [check]
  | p, q, .list xs, h => by
    rw [check] at h ⊢
    exact checkList_anywhere p q 0 0 xs h
  | p, q, .dict kvs, h => by
    rw [check] at h ⊢
    exact checkDict_anywhere p q kvs h

theorem checkList_anywhere : ∀ (p q : String) (i j : Nat) (xs : List Value),
    checkList p i xs = .ok () → checkList q j xs = .ok ()
  | _, _, _, _, [], _ => by rw [checkList]
  | p, q, i, j, x :: xs, h => by
    rw [checkList, bind_ok] at h
    obtain ⟨_, hx, hxs⟩ := h
    rw [checkList, check_anywhere _ (q ++ "[" ++ toString j ++ "]") x hx, ok_bind]
    exact checkList_anywhere p q (i + 1) (j + 1) xs hxs

theorem checkDict_anywhere : ∀ (p q : String) (kvs : List (Value × Value)),
    checkDict p kvs = .ok () → checkDict q kvs = .ok ()
  | _, _, [], _ => by rw [checkDict]
  | p, q, (.str s, v) :: rest, h => by
    simp only [checkDict] at h ⊢
    split at h
    next ascii =>
      rw [bind_ok] at h
      obtain ⟨_, hv, hrest⟩ := h
      rw [if_pos ascii, check_anywhere _ (q ++ "." ++ s) v hv, ok_bind]
      exact checkDict_anywhere p q rest hrest
    next => cases h
  | _, _, (.null, _) :: _, h | _, _, (.bool _, _) :: _, h | _, _, (.int _, _) :: _, h
  | _, _, (.list _, _) :: _, h | _, _, (.dict _, _) :: _, h => by simp [checkDict] at h
end

/-- The value under a key of an admitted dictionary is admitted. -/
theorem checkDict_find {p : String} {kvs : List (Value × Value)}
    (checked : checkDict p kvs = .ok ())
    {s : String} {v : Value} (found : find kvs (.str s) = some v) (q : String) :
    check q v = .ok () := by
  induction kvs with
  | nil => cases found
  | cons x rest ih =>
    obtain ⟨k, w⟩ := x
    cases k with
    | str t =>
      simp only [checkDict] at checked
      split at checked
      next =>
        rw [bind_ok] at checked
        obtain ⟨_, here, later⟩ := checked
        by_cases same : t = s
        · have first : w = v := by simpa [find, same] using found
          exact first ▸ check_anywhere _ q w here
        · exact ih later (by simpa [find, same] using found)
      next => cases checked
    | _ => simp [checkDict] at checked

/-- A record with ASCII names passes if each of its fields does. -/
theorem checkDict_fields {xs : List (String × Value)} (ascii : ∀ x ∈ xs, isAscii x.1 = true)
    (each : ∀ x ∈ xs, ∀ q, check q x.2 = .ok ()) (p : String) :
    checkDict p (fields xs) = .ok () := by
  induction xs with
  | nil => rfl
  | cons x xs ih =>
    have rest := ih (fun y member => ascii y (List.mem_cons_of_mem _ member))
      fun y member => each y (List.mem_cons_of_mem _ member)
    have here := ascii x List.mem_cons_self
    simp only [fields, List.map_cons, checkDict, here, if_true,
      each x List.mem_cons_self (p ++ "." ++ x.1), ok_bind]
    exact rest

theorem keyedDict_iff (kvs : List (Value × Value)) :
    keyedDict kvs = true ↔ ∀ p ∈ kvs, textKey p.1 = true ∧ keyed p.2 = true := by
  induction kvs with
  | nil => simp [keyedDict]
  | cons p rest ih => simp [keyedDict, ih, and_assoc]

theorem mem_insertKey (p q : Value × Value) (kvs : List (Value × Value)) :
    q ∈ insertKey p kvs ↔ q = p ∨ q ∈ kvs := by
  induction kvs with
  | nil => simp [insertKey]
  | cons r rest ih =>
    rw [insertKey]
    split
    · simp only [List.mem_cons, ih]
      tauto
    · simp only [List.mem_cons]

theorem mem_sortKeys (q : Value × Value) (kvs : List (Value × Value)) :
    q ∈ sortKeys kvs ↔ q ∈ kvs := by
  induction kvs with
  | nil => simp [sortKeys]
  | cons p rest ih => simp [sortKeys, mem_insertKey, ih]

mutual
/-- Sorting leaves the keys texts. -/
theorem canon_keyed : ∀ v : Value, keyed v = true → keyed (canon v) = true
  | .null, _ | .bool _, _ | .int _, _ | .str _, _ => by simp [canon, keyed]
  | .list xs, h => by
    rw [keyed] at h
    rw [canon, keyed]
    exact canonList_keyed xs h
  | .dict kvs, h => by
    rw [keyed] at h
    rw [canon, keyed, keyedDict_iff]
    intro p hp
    exact (keyedDict_iff _).mp (canonDict_keyed kvs h) p ((mem_sortKeys p _).mp hp)

theorem canonList_keyed : ∀ xs : List Value, keyedList xs = true →
    keyedList (canonList xs) = true
  | [], _ => by rw [canonList, keyedList]
  | x :: xs, h => by
    simp only [keyedList, Bool.and_eq_true] at h
    rw [canonList, keyedList, canon_keyed x h.1, canonList_keyed xs h.2]
    rfl

theorem canonDict_keyed : ∀ kvs : List (Value × Value), keyedDict kvs = true →
    keyedDict (canonDict kvs) = true
  | [], _ => by rw [canonDict, keyedDict]
  | (k, v) :: rest, h => by
    simp only [keyedDict, Bool.and_eq_true] at h
    rw [canonDict, keyedDict, h.1, canon_keyed v h.2.1, canonDict_keyed rest h.2.2]
    rfl
end

/-- Equal canonical bytes mean equal values, up to the order of dictionary keys. -/
theorem canonicalJson_injective {v w : Value} {b : Bytes} (hv : canonicalJson v = .ok b)
    (hw : canonicalJson w = .ok b) : canon v = canon w := by
  rw [canonicalJson, bind_ok] at hv hw
  obtain ⟨_, checkv, textv⟩ := hv
  obtain ⟨_, checkw, textw⟩ := hw
  have texts : dump (canon v) = dump (canon w) :=
    utf8_injective ((Except.ok.inj textv).trans (Except.ok.inj textw).symm)
  have stop : StopsNumber [] := by rintro c cs ⟨⟩
  exact (dump_front (canon v) (canon w) (canon_keyed v (check_keyed _ v checkv))
    (canon_keyed w (check_keyed _ w checkw)) stop stop (by rw [texts])).1

theorem charsLt_irrefl (cs : List Char) : charsLt cs cs = false := by
  induction cs with
  | nil => rfl
  | cons c cs ih => simp [charsLt, ih]

/-- A key passed over on insertion is a different key. -/
theorem keyLt_different {k l : Value} (smaller : keyLt k l = true) (s : String)
    (hk : k.scalarEq (.str s) = true) : l.scalarEq (.str s) = false := by
  cases k with
  | str t => cases l with
    | str u =>
      have ht : t = s := by simpa using hk
      subst t
      rw [Value.scalarEq, beq_eq_false_iff_ne]
      rintro rfl
      simp [keyLt, charsLt_irrefl] at smaller
    | _ => simp [keyLt] at smaller
  | _ => simp [keyLt] at smaller

theorem find_insertKey (p : Value × Value) (kvs : List (Value × Value)) (s : String) :
    find (insertKey p kvs) (.str s) = find (p :: kvs) (.str s) := by
  obtain ⟨k, v⟩ := p
  induction kvs with
  | nil => rfl
  | cons q rest ih =>
    obtain ⟨k', v'⟩ := q
    rw [insertKey]
    split
    · rename_i smaller
      by_cases hq : k'.scalarEq (.str s) = true
      · have hp := keyLt_different smaller s hq
        simp [find, hq, hp]
      · rw [find, if_neg hq, ih]
        simp [find, hq]
    · rfl

theorem find_sortKeys (kvs : List (Value × Value)) (s : String) :
    find (sortKeys kvs) (.str s) = find kvs (.str s) := by
  induction kvs with
  | nil => rfl
  | cons p rest ih =>
    obtain ⟨k, v⟩ := p
    rw [sortKeys, find_insertKey, find, find, ih]

/-- Sorting changes no field, up to sorting inside it. -/
theorem find_canonDict (kvs : List (Value × Value)) (k : Value) :
    find (canonDict kvs) k = (find kvs k).map canon := by
  induction kvs with
  | nil => simp [canonDict, find]
  | cons p rest ih =>
    obtain ⟨k', v⟩ := p
    rw [canonDict, find, find, ih]
    split <;> rfl

/-- Dictionaries with the same canonical form have the same fields, up to the
order of keys further down. -/
theorem find_of_canon {d e : Dict} (same : canon (.dict d) = canon (.dict e)) (s : String) :
    (find d (.str s)).map canon = (find e (.str s)).map canon := by
  rw [canon, canon, Value.dict.injEq] at same
  rw [← find_canonDict, ← find_canonDict, ← find_sortKeys (canonDict d),
    ← find_sortKeys (canonDict e), same]

@[simp] theorem canon_str (s : String) : canon (.str s) = .str s := by simp [canon]

@[simp] theorem canon_null : canon .null = .null := by simp [canon]

/-- A field that is a text after sorting was that text before. -/
theorem canon_eq_str {v : Value} {s : String} (h : canon v = .str s) : v = .str s := by
  cases v <;> simp_all [canon]

end CanonicalJson
