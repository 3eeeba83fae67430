import Mathlib.Data.List.Basic

/-!
# Byte strings and their hexadecimal texts

Reading is more liberal than writing: it takes either letter case and skips
blanks between two bytes, so a text of 64 characters need not hold 32 bytes.
-/

namespace HexBytes

abbrev Bytes := List UInt8

def nibbleChar (n : Nat) : Char :=
  if n < 10 then Char.ofNat (48 + n) else Char.ofNat (87 + n)

def charNibble (c : Char) : Option Nat :=
  if '0' ≤ c ∧ c ≤ '9' then some (c.toNat - 48)
  else if 'a' ≤ c ∧ c ≤ 'f' then some (c.toNat - 87)
  else if 'A' ≤ c ∧ c ≤ 'F' then some (c.toNat - 55)
  else none

def isBlank (c : Char) : Bool :=
  c = ' ' || c = '\t' || c = '\n' || c = '\r' || c.toNat = 11 || c.toNat = 12

def hexChars : Bytes → List Char
  | [] => []
  | b :: bs => nibbleChar (b.toNat / 16) :: nibbleChar (b.toNat % 16) :: hexChars bs

/-- `bytes.hex()`. -/
def hex (b : Bytes) : String := String.ofList (hexChars b)

def fromHexChars : List Char → Option Bytes
  | [] => some []
  | [c] => if isBlank c then some [] else none
  | c :: d :: rest =>
    if isBlank c then fromHexChars (d :: rest)
    else match charNibble c, charNibble d with
      | some h, some l => (fromHexChars rest).map (UInt8.ofNat (16 * h + l) :: ·)
      | _, _ => none

/-- `bytes.fromhex(s)`; `none` where it raises a `ValueError`. -/
def fromHex (s : String) : Option Bytes := fromHexChars s.toList

theorem nibble_round_trip : ∀ n, n < 16 →
    charNibble (nibbleChar n) = some n ∧ isBlank (nibbleChar n) = false := by
  decide

theorem byte_of_nibbles (b : UInt8) : UInt8.ofNat (16 * (b.toNat / 16) + b.toNat % 16) = b := by
  rw [Nat.div_add_mod]
  exact UInt8.ofNat_toNat

theorem fromHexChars_hexChars (b : Bytes) : fromHexChars (hexChars b) = some b := by
  induction b with
  | nil => rfl
  | cons b bs ih =>
    have low : b.toNat < 256 := b.toNat_lt
    obtain ⟨high, blank⟩ := nibble_round_trip (b.toNat / 16) (by omega)
    obtain ⟨rest, _⟩ := nibble_round_trip (b.toNat % 16) (by omega)
    simp only [hexChars, fromHexChars, high, rest, blank, ih, Bool.false_eq_true, if_false,
      Option.map_some, byte_of_nibbles]

@[simp] theorem fromHex_hex (b : Bytes) : fromHex (hex b) = some b := by
  simp [fromHex, hex, fromHexChars_hexChars]

theorem hex_injective {a b : Bytes} (same : hex a = hex b) : a = b := by
  have h := congrArg fromHex same
  simpa using h

theorem hexChars_length (b : Bytes) : (hexChars b).length = 2 * b.length := by
  induction b with
  | nil => rfl
  | cons b bs ih =>
    simp only [hexChars, List.length_cons, ih]
    omega

theorem hex_length (b : Bytes) : (hex b).length = 2 * b.length := by
  simp [hex, hexChars_length]

/-- The digits of a text, whatever their case and the blanks between them. -/
def digits (s : String) : List Nat := s.toList.filterMap charNibble

def nibbles (b : Bytes) : List Nat := b.flatMap fun x => [x.toNat / 16, x.toNat % 16]

theorem charNibble_blank {c : Char} (blank : isBlank c = true) : charNibble c = none := by
  have small : c.toNat ≤ 32 := by
    simp only [isBlank, Bool.or_eq_true, decide_eq_true_eq] at blank
    rcases blank with ((((rfl | rfl) | rfl) | rfl) | h) | h
    any_goals decide
    all_goals omega
  have above : ∀ d : Char, 32 < d.toNat → ¬ d ≤ c := by
    intro d big le
    have := (Char.le_def.mp le)
    exact absurd (show d.toNat ≤ c.toNat from this) (by omega)
  rw [charNibble, if_neg (fun h => above '0' (by decide) h.1),
    if_neg (fun h => above 'a' (by decide) h.1), if_neg (fun h => above 'A' (by decide) h.1)]

theorem charNibble_lt {c : Char} {n : Nat} (read : charNibble c = some n) : n < 16 := by
  have upper : ∀ {d : Char}, c ≤ d → c.toNat ≤ d.toNat := fun le => Char.le_def.mp le
  rw [charNibble] at read
  split at read
  next h =>
    have := upper h.2
    have bound : ('9' : Char).toNat = 57 := rfl
    have := Option.some.inj read
    omega
  next =>
    split at read
    next h =>
      have := upper h.2
      have bound : ('f' : Char).toNat = 102 := rfl
      have := Option.some.inj read
      omega
    next =>
      split at read
      next h =>
        have := upper h.2
        have bound : ('F' : Char).toNat = 70 := rfl
        have := Option.some.inj read
        omega
      next => cases read

theorem fromHexChars_digits {cs : List Char} {b : Bytes} (read : fromHexChars cs = some b) :
    cs.filterMap charNibble = nibbles b := by
  induction cs using fromHexChars.induct generalizing b with
  | case1 =>
    obtain rfl := Option.some.inj read
    rfl
  | case2 c blank =>
    rw [fromHexChars, if_pos blank] at read
    obtain rfl := Option.some.inj read
    simp [charNibble_blank blank, nibbles]
  | case3 c other =>
    rw [fromHexChars, if_neg other] at read
    cases read
  | case4 c d rest blank ih =>
    rw [fromHexChars, if_pos blank] at read
    rw [List.filterMap_cons_none (charNibble_blank blank)]
    exact ih read
  | case5 c d rest other h l low high ih =>
    rw [fromHexChars, if_neg other, high, low] at read
    obtain ⟨more, later, rfl⟩ := Option.map_eq_some_iff.mp read
    have hh := charNibble_lt high
    have hl := charNibble_lt low
    have byte : (UInt8.ofNat (16 * h + l)).toNat = 16 * h + l := by
      rw [UInt8.toNat_ofNat']
      omega
    rw [List.filterMap_cons_some high, List.filterMap_cons_some low, ih later, nibbles,
      nibbles, List.flatMap_cons, byte]
    have first : (16 * h + l) / 16 = h := by omega
    have second : (16 * h + l) % 16 = l := by omega
    rw [first, second]
    rfl
  | case6 c d rest other none_ =>
    rw [fromHexChars, if_neg other] at read
    split at read
    next h l high low => exact absurd low (none_ h l high)
    next => cases read

theorem nibbles_injective {a b : Bytes} (same : nibbles a = nibbles b) : a = b := by
  induction a generalizing b with
  | nil =>
    cases b with
    | nil => rfl
    | cons y b => cases same
  | cons x a ih =>
    cases b with
    | nil => cases same
    | cons y b =>
      simp only [nibbles, List.flatMap_cons, List.cons_append, List.nil_append,
        List.cons.injEq] at same
      obtain ⟨high, low, rest⟩ := same
      rw [ih rest, ← byte_of_nibbles x, ← byte_of_nibbles y, high, low]

/-- Two texts are read as the same bytes exactly when they have the same digits. -/
theorem fromHex_same_iff {s t : String} {a b : Bytes} (first : fromHex s = some a)
    (second : fromHex t = some b) : a = b ↔ digits s = digits t := by
  rw [digits, digits, fromHexChars_digits first, fromHexChars_digits second]
  constructor
  · rintro rfl
    rfl
  · exact nibbles_injective

/-- Two digits make a byte, and blanks make nothing. -/
theorem fromHexChars_length {cs : List Char} {b : Bytes} (read : fromHexChars cs = some b) :
    cs.length = 2 * b.length + cs.countP isBlank := by
  induction cs using fromHexChars.induct generalizing b with
  | case1 =>
    obtain rfl := Option.some.inj read
    rfl
  | case2 c blank =>
    rw [fromHexChars, if_pos blank] at read
    obtain rfl := Option.some.inj read
    simp [blank]
  | case3 c other =>
    rw [fromHexChars, if_neg other] at read
    cases read
  | case4 c d rest blank ih =>
    rw [fromHexChars, if_pos blank] at read
    rw [List.length_cons, ih read, List.countP_cons_of_pos blank]
    omega
  | case5 c d rest other h l low high ih =>
    rw [fromHexChars, if_neg other, high, low] at read
    obtain ⟨more, later, rfl⟩ := Option.map_eq_some_iff.mp read
    have second : ¬ isBlank d = true := by
      intro blank
      rw [charNibble_blank blank] at low
      cases low
    rw [List.length_cons, List.length_cons, ih later, List.countP_cons_of_neg other,
      List.countP_cons_of_neg second, List.length_cons]
    omega
  | case6 c d rest other none_ =>
    rw [fromHexChars, if_neg other] at read
    split at read
    next h l high low => exact absurd low (none_ h l high)
    next => cases read

/-- An even number of digits can be read. -/
theorem fromHexChars_of_digits {cs : List Char} (even : cs.length % 2 = 0)
    (digits : ∀ c ∈ cs, (charNibble c).isSome = true) : (fromHexChars cs).isSome = true := by
  induction cs using fromHexChars.induct with
  | case1 => rfl
  | case2 c blank => cases even
  | case3 c other => cases even
  | case4 c d rest blank ih =>
    have digit := digits c List.mem_cons_self
    rw [charNibble_blank blank] at digit
    cases digit
  | case5 c d rest other h l low high ih =>
    rw [List.length_cons, List.length_cons] at even
    rw [List.forall_mem_cons, List.forall_mem_cons] at digits
    rw [fromHexChars, if_neg other, high, low]
    simp only [Option.isSome_map, ih (by omega) digits.2.2]
  | case6 c d rest other none_ =>
    rw [List.forall_mem_cons, List.forall_mem_cons] at digits
    obtain ⟨h, high⟩ := Option.isSome_iff_exists.mp digits.1
    obtain ⟨l, low⟩ := Option.isSome_iff_exists.mp digits.2.1
    exact absurd low (none_ h l high)

/-- A text that can be read consists of digits and blanks. -/
theorem fromHexChars_chars {cs : List Char} {b : Bytes} (read : fromHexChars cs = some b) :
    ∀ c ∈ cs, isBlank c = true ∨ (charNibble c).isSome = true := by
  induction cs using fromHexChars.induct generalizing b with
  | case1 => simp
  | case2 c blank => simp [blank]
  | case3 c other =>
    rw [fromHexChars, if_neg other] at read
    cases read
  | case4 c d rest blank ih =>
    rw [fromHexChars, if_pos blank] at read
    rw [List.forall_mem_cons]
    exact ⟨.inl blank, ih read⟩
  | case5 c d rest other h l low high ih =>
    rw [fromHexChars, if_neg other, high, low] at read
    obtain ⟨more, later, -⟩ := Option.map_eq_some_iff.mp read
    rw [List.forall_mem_cons, List.forall_mem_cons, high, low]
    exact ⟨.inr rfl, .inr rfl, ih later⟩
  | case6 c d rest other none_ =>
    rw [fromHexChars, if_neg other] at read
    split at read
    next h l high low => exact absurd low (none_ h l high)
    next => cases read

end HexBytes
