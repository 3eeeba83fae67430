import Custody.Cbor
import Mathlib.Algebra.Group.Int.Defs

/-!
# What CBOR items denote

Reading is parsing an item and taking its meaning: `decode` returns a value exactly
for the bytes of an item that denotes it. A map denotes a dictionary when its keys
can be hashed, differ, and ascend in the order of their bytes.
-/

namespace CborMeaning

open PyValue HexBytes CborItems CborItems.Item Cbor

/-- No key equals another. -/
def Distinct (kvs : List (Obj × Obj)) : Prop :=
  kvs.Pairwise fun a b => a.1.keyEq b.1 = false

def Ascending (kvs : List (Item × Item)) : Prop :=
  (kvs.map fun p => p.1.bytes).Pairwise (· < ·)

instance (kvs : List (Obj × Obj)) : Decidable (Distinct kvs) :=
  inferInstanceAs (Decidable (List.Pairwise _ _))

instance (kvs : List (Item × Item)) : Decidable (Ascending kvs) :=
  inferInstanceAs (Decidable (List.Pairwise _ _))

def denoteSimple (n : Nat) : Option Obj :=
  if n = 20 then some (.bool false)
  else if n = 21 then some (.bool true)
  else if n = 22 then some .none
  else none

mutual
def denote : Item → Option Obj
  | .uint n => some (.int n)
  | .nint n => some (.int (-n - 1))
  | .bstr b => some (.bytes b)
  | .tstr b => (String.fromUTF8? ⟨b.toArray⟩).map .text
  | .array xs => (denoteAll xs).map .list
  | .map kvs => (denoteEntries kvs).bind fun es =>
    if Ascending kvs ∧ Distinct es ∧ ∀ p ∈ es, p.1.hashable then some (.dict es) else none
  | .tag n x => (denote x).map (.tagged n)
  | .simple n => denoteSimple n
termination_by structural x => x

def denoteAll : List Item → Option (List Obj)
  | [] => some []
  | x :: xs => (denote x).bind fun v => (denoteAll xs).map (v :: ·)
termination_by structural xs => xs

def denoteEntries : List (Item × Item) → Option (List (Obj × Obj))
  | [] => some []
  | (k, v) :: rest => (denote k).bind fun key => (denote v).bind fun value =>
    (denoteEntries rest).map ((key, value) :: ·)
termination_by structural kvs => kvs
end

theorem denoteAll_cons {x : Item} {xs : List Item} {vs : List Obj} :
    denoteAll (x :: xs) = some vs ↔
      ∃ v rest, denote x = some v ∧ denoteAll xs = some rest ∧ vs = v :: rest := by
  simp only [denoteAll, Option.bind_eq_some_iff, Option.map_eq_some_iff]
  constructor
  · rintro ⟨v, hv, rest, hr, rfl⟩
    exact ⟨v, rest, hv, hr, rfl⟩
  · rintro ⟨v, rest, hv, hr, rfl⟩
    exact ⟨v, hv, rest, hr, rfl⟩

theorem denoteEntries_cons {k v : Item} {rest : List (Item × Item)} {es : List (Obj × Obj)} :
    denoteEntries ((k, v) :: rest) = some es ↔
      ∃ key value later, denote k = some key ∧ denote v = some value ∧
        denoteEntries rest = some later ∧ es = (key, value) :: later := by
  simp only [denoteEntries, Option.bind_eq_some_iff, Option.map_eq_some_iff]
  constructor
  · rintro ⟨key, hk, value, hv, later, hl, rfl⟩
    exact ⟨key, value, later, hk, hv, hl, rfl⟩
  · rintro ⟨key, value, later, hk, hv, hl, rfl⟩
    exact ⟨key, hk, value, hv, later, hl, rfl⟩

/-- A map means its entries, if they ascend and their keys are distinct. -/
theorem denote_map {kvs : List (Item × Item)} {v : Obj} :
    denote (.map kvs) = some v ↔ ∃ es, denoteEntries kvs = some es ∧ Ascending kvs ∧
      Distinct es ∧ (∀ p ∈ es, p.1.hashable = true) ∧ v = .dict es := by
  rw [denote, Option.bind_eq_some_iff]
  constructor
  · rintro ⟨es, entries, checked⟩
    split at checked
    next facts => exact ⟨es, entries, facts.1, facts.2.1, facts.2.2, (Option.some.inj checked).symm⟩
    next => cases checked
  · rintro ⟨es, entries, ascending, distinct, hashable, rfl⟩
    exact ⟨es, entries, by rw [if_pos ⟨ascending, distinct, hashable⟩]⟩

theorem utf8Text_ok {b : Bytes} {s : String} : utf8Text b = .ok s ↔ utf8Bytes s = b := by
  rw [utf8Text, String.fromUTF8?, utf8Bytes]
  constructor
  · intro h
    split at h
    next found =>
      split at found
      · obtain rfl := Except.ok.inj h
        obtain rfl := Option.some.inj found
        rfl
      · cases found
    next => cases h
  · rintro rfl
    have valid : ByteArray.IsValidUTF8 ⟨s.toByteArray.data.toList.toArray⟩ := s.isValidUTF8
    simp only [dif_pos valid]
    rfl

theorem denote_tstr {b : Bytes} {v : Obj} :
    denote (.tstr b) = some v ↔ ∃ s, utf8Text b = .ok s ∧ v = .text s := by
  rw [denote, utf8Text, Option.map_eq_some_iff]
  constructor
  · rintro ⟨s, found, rfl⟩
    exact ⟨s, by rw [found], rfl⟩
  · rintro ⟨s, read, rfl⟩
    split at read
    next found =>
      obtain rfl := Except.ok.inj read
      exact ⟨_, found, rfl⟩
    next => cases read

section readers

variable {A B : Type}

/-- A reader in sequence passes on what the first has left. -/
theorem reader_bind {x : Reader A} {f : A → Reader B} {rest : Bytes} {r : B × Bytes} :
    (x >>= f) rest = .ok r ↔ ∃ a rest', x rest = .ok (a, rest') ∧ f a rest' = .ok r := by
  change (x rest >>= fun p => f p.1 p.2) = .ok r ↔ _
  rw [bind_ok]
  constructor
  · rintro ⟨⟨a, rest'⟩, first, second⟩
    exact ⟨a, rest', first, second⟩
  · rintro ⟨a, rest', first, second⟩
    exact ⟨(a, rest'), first, second⟩

/-- A step whose outcome is known. -/
theorem reader_step {x : Reader A} {f : A → Reader B} {rest rest' : Bytes} {a : A}
    (step : x rest = .ok (a, rest')) : (x >>= f) rest = f a rest' := by
  change (x rest >>= fun p => f p.1 p.2) = _
  rw [step]
  rfl

theorem reader_pure {a : A} {rest : Bytes} {r : A × Bytes} :
    (pure a : Reader A) rest = .ok r ↔ r = (a, rest) := by
  change Except.ok (a, rest) = .ok r ↔ _
  rw [Except.ok.injEq, eq_comm]

theorem reader_throw {e : PyErr} {rest : Bytes} {r : A × Bytes} :
    ¬ (throw e : Reader A) rest = .ok r := by
  intro h
  cases h

theorem reader_lift {x : Py A} {rest : Bytes} {r : A × Bytes} :
    (liftM x : Reader A) rest = .ok r ↔ ∃ a, x = .ok a ∧ r = (a, rest) := by
  change (x >>= fun a => Except.ok (a, rest)) = .ok r ↔ _
  rw [bind_ok]
  constructor
  · rintro ⟨a, value, same⟩
    exact ⟨a, value, (Except.ok.inj same).symm⟩
  · rintro ⟨a, value, rfl⟩
    exact ⟨a, value, rfl⟩

/-- Taking bytes splits the input. -/
theorem take_ok {n : Nat} {rest : Bytes} {r : Bytes × Bytes} :
    take n rest = .ok r ↔ rest = r.1 ++ r.2 ∧ r.1.length = n := by
  rw [take]
  constructor
  · intro h
    split at h
    next => cases h
    next enough =>
      obtain rfl := Except.ok.inj h
      exact ⟨(List.take_append_drop n rest).symm, by rw [List.length_take]; omega⟩
  · rintro ⟨rfl, rfl⟩
    have enough : ¬ (r.1 ++ r.2).length < r.1.length := by
      rw [List.length_append]
      omega
    rw [if_neg enough, List.take_left, List.drop_left]

end readers

/-- The initial byte is the major type and the low five bits. -/
theorem major_or {major n : Nat} (small : n < 32) : major <<< 5 ||| n = major * 32 + n := by
  rw [← Nat.shiftLeft_add_eq_or_of_lt (show n < 2 ^ 5 from small), Nat.shiftLeft_eq]

/-- `_head` is the shortest head, for arguments below `2 ^ 64`. -/
theorem head_ok {major : Nat} {value : Int} {b : Bytes} :
    Cbor.head major value = .ok b ↔
      0 ≤ value ∧ value < 2 ^ 64 ∧ b = CborItems.head major value.toNat := by
  unfold Cbor.head
  by_cases negative : value < 0
  · rw [if_pos negative]
    constructor
    · intro h
      cases h
    · intro h
      omega
  rw [if_neg negative]
  obtain ⟨n, rfl⟩ := Int.eq_ofNat_of_zero_le (Int.not_lt.mp negative)
  have cast : ((n : Int) < 2 ^ 64) ↔ n < 2 ^ 64 := by omega
  simp only [Int.toNat_natCast, cast, CborItems.head, info, widths, List.find?_cons, List.find?_nil]
  by_cases small : n < 24
  · simp only [if_pos small, major_or (show n < 32 by omega), widthOf, bigEndian,
      Except.ok.injEq]
    constructor
    · rintro rfl
      exact ⟨by omega, by omega, rfl⟩
    · rintro ⟨-, -, rfl⟩
      rfl
  rw [if_neg small, if_neg small]
  by_cases one : n < 256
  · simp [one, major_or, widthOf, eq_comm]
    omega
  by_cases two : n < 65536
  · simp [one, two, major_or, widthOf, eq_comm]
    omega
  by_cases four : n < 4294967296
  · simp [one, two, four, major_or, widthOf, eq_comm]
    omega
  by_cases eight : n < 18446744073709551616
  · simp [one, two, four, eight, major_or, widthOf, eq_comm]
  · simp [one, two, four, eight]

theorem widthOf_wide {code : Nat} (wide : ¬ code < 24) : widthOf code = 1 <<< (code - 24) := by
  rw [widthOf, if_neg wide, Nat.shiftLeft_eq, Nat.one_mul]

theorem and_31 (n : Nat) : n &&& 0x1F = n % 32 := Nat.and_two_pow_sub_one_eq_mod n 5

theorem shift_5 (n : Nat) : n >>> 5 = n / 32 := Nat.shiftRight_eq_div_pow n 5

/-- Only one code has a given width. -/
theorem code_of_width {n code : Nat} (wide : ¬ code < 24) (low : code < 28)
    (same : widthOf (info n) = widthOf code) : info n = code := by
  have bound := info_lt n
  rw [widthOf, widthOf, if_neg wide] at same
  split at same
  · exact absurd same.symm (Nat.two_pow_pos _).ne'
  · have exponents := Nat.pow_right_injective (Nat.le_refl 2) same
    omega

/-- An argument that was read is the shortest form of its number. -/
theorem argument_ok {initial : Nat} {rest rest' : Bytes} {n : Nat} (byte : initial < 256)
    (read : Cbor.argument initial rest = .ok (n, rest')) :
    n < 2 ^ 64 ∧ initial % 32 = info n ∧ rest = bigEndian (widthOf (info n)) n ++ rest' := by
  rw [Cbor.argument, and_31, shift_5] at read
  split at read
  next small =>
    cases reader_pure.mp read
    have same : info (initial % 32) = initial % 32 := by rw [info, if_pos small]
    refine ⟨by omega, same.symm, ?_⟩
    rw [same, widthOf, if_pos small]
    rfl
  next wide =>
    split at read
    next => exact absurd read reader_throw
    split at read
    next => exact absurd read reader_throw
    next =>
      obtain ⟨taken, rest₁, first, read⟩ := reader_bind.mp read
      obtain ⟨split, length⟩ := take_ok.mp first
      obtain ⟨minimal, rest₂, second, read⟩ := reader_bind.mp read
      obtain ⟨b, shortest, same⟩ := reader_lift.mp second
      cases same
      obtain ⟨-, fits, rfl⟩ := head_ok.mp shortest
      split at read
      next => exact absurd read reader_throw
      next minimal =>
        cases reader_pure.mp read
        simp only [Int.toNat_natCast] at minimal
        have code : info (ofBigEndian taken) = initial % 32 := by
          apply code_of_width wide (by omega)
          rw [head_length] at minimal
          rw [widthOf_wide wide]
          omega
        refine ⟨by omega, code.symm, ?_⟩
        have width : widthOf (info (ofBigEndian taken)) = taken.length := by
          rw [code, widthOf_wide wide, length]
        rw [width, bigEndian_ofBigEndian]
        exact split

/-- Conversely the shortest form is read. -/
theorem argument_of {major n : Nat} {r : Bytes} (small : major < 8) (fits : n < 2 ^ 64) :
    Cbor.argument (major * 32 + info n) (bigEndian (widthOf (info n)) n ++ r) = .ok (n, r) := by
  have bound := info_lt n
  have low : (major * 32 + info n) % 32 = info n := by omega
  have high : (major * 32 + info n) / 32 = major := by omega
  rw [Cbor.argument, and_31, shift_5, low, high]
  by_cases wide : info n < 24
  · have none_ : widthOf (info n) = 0 := by rw [widthOf, if_pos wide]
    rw [if_pos wide, reader_pure, none_, info_small wide]
    rfl
  · rw [if_neg wide, if_neg (show info n ≠ 31 by omega), if_neg (show ¬ 27 < info n by omega)]
    have value := ofBigEndian_bigEndian (lt_of_info fits (Nat.not_lt.mp wide))
    have shortest : Cbor.head major n = .ok (CborItems.head major n) := by
      rw [head_ok]
      exact ⟨by omega, by omega, rfl⟩
    apply reader_bind.mpr
    refine ⟨bigEndian (widthOf (info n)) n, r, ?_, ?_⟩
    · rw [take_ok, bigEndian_length, widthOf_wide wide]
      exact ⟨rfl, rfl⟩
    apply reader_bind.mpr
    refine ⟨CborItems.head major n, r, ?_, ?_⟩
    · rw [reader_lift, value]
      exact ⟨_, shortest, rfl⟩
    · rw [value, head_length, widthOf_wide wide, if_neg (by simp)]
      rfl

/-- The reader reads items and returns what they denote. -/
def Reads (read : Reader Obj) : Prop :=
  ∀ rest v rest', read rest = .ok (v, rest') →
    ∃ t : Item, t.Fits ∧ rest = t.bytes ++ rest' ∧ denote t = some v

/-- An array that was read is the items it was read from. -/
theorem readMany_ok {read : Reader Obj} (reads : Reads read) {n : Nat} {rest rest' : Bytes}
    {vs : List Obj} (h : readMany read n rest = .ok (vs, rest')) :
    ∃ ts : List Item, ts.length = n ∧ FitsAll ts ∧ rest = bytesAll ts ++ rest' ∧
      denoteAll ts = some vs := by
  induction n generalizing rest vs with
  | zero =>
    cases reader_pure.mp h
    exact ⟨[], rfl, trivial, rfl, rfl⟩
  | succ n ih =>
    obtain ⟨v, rest₁, first, h⟩ := reader_bind.mp h
    obtain ⟨later, rest₂, more, h⟩ := reader_bind.mp h
    cases reader_pure.mp h
    obtain ⟨t, fits, rfl, meaning⟩ := reads _ _ _ first
    obtain ⟨ts, length, fitsAll, rfl, meanings⟩ := ih more
    refine ⟨t :: ts, by rw [List.length_cons, length], ⟨fits, fitsAll⟩, ?_, ?_⟩
    · rw [bytesAll, List.append_assoc]
    · exact denoteAll_cons.mpr ⟨v, later, meaning, meanings, rfl⟩

/-- The key is later than the one before it. -/
def After (previous : Option Bytes) (kvs : List (Item × Item)) : Prop :=
  ∀ p, previous = some p → ∀ kv ∈ kvs, p < kv.1.bytes

theorem member_ok {key : Obj} {out : List (Obj × Obj)} (h : member key out = .ok false) :
    key.hashable = true ∧ ∀ o ∈ out, o.1.keyEq key = false := by
  rw [member] at h
  split at h
  next hashable =>
    refine ⟨hashable, ?_⟩
    intro o inside
    have none_ := Except.ok.inj h
    rw [List.any_eq_false] at none_
    simpa using none_ o inside
  next => cases h

/-- A map that was read is the items it was read from, with its keys in order. -/
theorem readEntries_ok {read : Reader Obj} (reads : Reads read) {n : Nat}
    {out es : List (Obj × Obj)} {previous : Option Bytes} {rest rest' : Bytes}
    (h : readEntries read n out previous rest = .ok (es, rest')) :
    ∃ kvs new, es = out ++ new ∧ kvs.length = n ∧ FitsEntries kvs ∧
      rest = bytesEntries kvs ++ rest' ∧ denoteEntries kvs = some new ∧ After previous kvs ∧
      Ascending kvs ∧ Distinct new ∧ (∀ p ∈ new, p.1.hashable = true) ∧
      ∀ o ∈ out, ∀ p ∈ new, o.1.keyEq p.1 = false := by
  induction n generalizing out previous rest with
  | zero =>
    cases reader_pure.mp h
    exact ⟨[], [], by simp, rfl, trivial, rfl, rfl, by simp [After], by simp [Ascending],
      List.Pairwise.nil, by simp, by simp⟩
  | succ n ih =>
    obtain ⟨start, rest₁, got, h⟩ := reader_bind.mp h
    cases got
    obtain ⟨key, rest₁, first, h⟩ := reader_bind.mp h
    obtain ⟨after, rest₂, got, h⟩ := reader_bind.mp h
    cases got
    obtain ⟨known, rest₂, checked, h⟩ := reader_bind.mp h
    obtain ⟨b, fresh, same⟩ := reader_lift.mp checked
    cases same
    obtain ⟨k, fitsKey, rfl, meansKey⟩ := reads _ _ _ first
    have encoded : (k.bytes ++ rest₁).take ((k.bytes ++ rest₁).length - rest₁.length) =
      k.bytes := by
      simp
    rw [encoded] at h
    cases known with
    | true => exact absurd h reader_throw
    | false =>
      rw [if_neg (by decide)] at h
      split at h
      next => exact absurd h reader_throw
      next ordered =>
        obtain ⟨value, rest₃, second, remaining⟩ := reader_bind.mp h
        obtain ⟨v, fitsValue, rfl, meansValue⟩ := reads _ _ _ second
        obtain ⟨kvs, new, rfl, length, fits, rfl, meanings, later, ascending, distinct, hashable,
          apart⟩ := ih remaining
        obtain ⟨hash, differs⟩ := member_ok fresh
        have above : ∀ kv ∈ kvs, k.bytes < kv.1.bytes := later k.bytes rfl
        refine ⟨(k, v) :: kvs, (key, value) :: new, by simp, by rw [List.length_cons, length],
          ⟨fitsKey, fitsValue, fits⟩, ?_, ?_, ?_, ?_, ?_, ?_, ?_⟩
        · simp only [bytesEntries, List.append_assoc]
        · exact denoteEntries_cons.mpr ⟨key, value, new, meansKey, meansValue, meanings, rfl⟩
        · rintro p rfl kv inside
          have low : p < k.bytes := by
            simp only [outOfOrder, decide_eq_true_eq] at ordered
            exact List.not_le.mp ordered
          rcases List.mem_cons.mp inside with rfl | inside
          · exact low
          · exact List.lt_trans low (above kv inside)
        · rw [Ascending, List.map_cons, List.pairwise_cons]
          refine ⟨?_, ascending⟩
          intro b inside
          obtain ⟨kv, member, rfl⟩ := List.mem_map.mp inside
          exact above kv member
        · apply List.Pairwise.cons _ distinct
          intro p inside
          exact apart (key, value) (by simp) p inside
        · intro p inside
          rcases List.mem_cons.mp inside with rfl | inside
          · exact hash
          · exact hashable p inside
        · intro o held p inside
          rcases List.mem_cons.mp inside with rfl | inside
          · exact differs o held
          · exact apart o (by simp [held]) p inside

theorem simple_ok {n : Nat} {v : Obj} : Cbor.simple n = .ok v ↔ denoteSimple n = some v := by
  rw [Cbor.simple, denoteSimple]
  split
  · simp
  split
  · simp
  split
  · simp
  split <;> simp

/-- What follows a head is the body of one item. -/
theorem content_ok {read : Reader Obj} (reads : Reads read) {major n : Nat} (fits : n < 2 ^ 64)
    {rest rest' : Bytes} {v : Obj} (h : content read major n rest = .ok (v, rest')) :
    ∃ t : Item, t.major = major ∧ t.argument = n ∧ t.Fits ∧ rest = t.body ++ rest' ∧
      denote t = some v := by
  match major with
  | 0 =>
    cases reader_pure.mp h
    exact ⟨.uint n, rfl, rfl, fits, rfl, rfl⟩
  | 1 =>
    cases reader_pure.mp h
    exact ⟨.nint n, rfl, rfl, fits, rfl, rfl⟩
  | 2 =>
    obtain ⟨b, rest₁, taken, h⟩ := reader_bind.mp h
    cases reader_pure.mp h
    obtain ⟨rfl, rfl⟩ := take_ok.mp taken
    exact ⟨.bstr b, rfl, rfl, fits, rfl, rfl⟩
  | 3 =>
    obtain ⟨b, rest₁, taken, h₁⟩ := reader_bind.mp h
    obtain ⟨s, rest₂, decoded, h₂⟩ := reader_bind.mp h₁
    obtain ⟨s', valid, same⟩ := reader_lift.mp decoded
    cases same
    cases reader_pure.mp h₂
    obtain ⟨rfl, rfl⟩ := take_ok.mp taken
    exact ⟨.tstr b, rfl, rfl, fits, rfl, denote_tstr.mpr ⟨s, valid, rfl⟩⟩
  | 4 =>
    obtain ⟨vs, rest₁, many, h⟩ := reader_bind.mp h
    cases reader_pure.mp h
    obtain ⟨ts, rfl, fitsAll, rfl, meanings⟩ := readMany_ok reads many
    exact ⟨.array ts, rfl, rfl, ⟨fits, fitsAll⟩, rfl, by rw [denote, meanings]; rfl⟩
  | 5 =>
    obtain ⟨es, rest₁, many, h⟩ := reader_bind.mp h
    cases reader_pure.mp h
    obtain ⟨kvs, new, same, rfl, fitsAll, rfl, meanings, -, ascending, distinct, hashable, -⟩ :=
      readEntries_ok reads many
    obtain rfl : es = new := same
    exact ⟨.map kvs, rfl, rfl, ⟨fits, fitsAll⟩, rfl,
      denote_map.mpr ⟨es, meanings, ascending, distinct, hashable, rfl⟩⟩
  | 6 =>
    obtain ⟨value, rest₁, one, h⟩ := reader_bind.mp h
    cases reader_pure.mp h
    obtain ⟨t, fitsValue, rfl, meaning⟩ := reads _ _ _ one
    exact ⟨.tag n t, rfl, rfl, ⟨fits, fitsValue⟩, rfl, by rw [denote, meaning]; rfl⟩
  | _ + 7 => exact absurd h reader_throw

theorem initial_byte {b : UInt8} : ofBigEndian [b] = b.toNat := by
  simp [ofBigEndian]

/-- What the reader accepts is the encoding of an item; the induction is on the depth. -/
theorem item_ok (depth : Nat) : Reads (item depth) := by
  induction depth with
  | zero =>
    intro rest v rest' h
    exact absurd h reader_throw
  | succ depth ih =>
    intro rest v rest' h
    obtain ⟨first, rest₁, taken, h₁⟩ := reader_bind.mp h
    obtain ⟨whole, one⟩ := take_ok.mp taken
    obtain ⟨b, rfl⟩ := List.length_eq_one_iff.mp one
    subst whole
    have byte : b.toNat < 256 := b.toNat_lt
    simp only [initial_byte, shift_5, and_31] at h₁
    split at h₁
    next special =>
      obtain ⟨v', meaning, same⟩ := reader_lift.mp h₁
      cases same
      have meaning' := simple_ok.mp meaning
      have low : b.toNat % 32 < 24 := by
        rw [denoteSimple] at meaning'
        split at meaning'
        · omega
        split at meaning'
        · omega
        split at meaning'
        · omega
        · cases meaning'
      refine ⟨.simple (b.toNat % 32), low, ?_, meaning'⟩
      have code : info (b.toNat % 32) = b.toNat % 32 := by rw [info, if_pos low]
      have whole : 7 * 32 + b.toNat % 32 = b.toNat := by omega
      rw [bytes, CborItems.head, code, whole, widthOf, if_pos low, UInt8.ofNat_toNat]
      rfl
    next ordinary =>
      obtain ⟨n, rest₂, head_, content_⟩ := reader_bind.mp h₁
      obtain ⟨fits, code, split_⟩ := argument_ok byte head_
      obtain ⟨t, major_, argument_, fitsItem, body_, meaning⟩ := content_ok ih fits content_
      refine ⟨t, fitsItem, ?_, meaning⟩
      have whole : b.toNat / 32 * 32 + info n = b.toNat := by omega
      rw [bytes_eq, major_, argument_, CborItems.head, whole, UInt8.ofNat_toNat, split_, body_]
      simp

theorem member_of {key : Obj} {out : List (Obj × Obj)} (hashable : key.hashable = true)
    (apart : ∀ o ∈ out, o.1.keyEq key = false) : member key out = .ok false := by
  rw [member, if_pos hashable, List.any_eq_false.mpr]
  intro o inside
  rw [apart o inside]
  decide

/-- A simple value is read from its head. -/
theorem special_head {depth n : Nat} {v : Obj} {r : Bytes} (meaning : denoteSimple n = some v)
    (fits : n < 24) : item (depth + 1) (CborItems.head 7 n ++ r) = .ok (v, r) := by
  have code : info n = n := by rw [info, if_pos fits]
  rw [CborItems.head, code, widthOf, if_pos fits]
  apply reader_bind.mpr
  refine ⟨[UInt8.ofNat (7 * 32 + n)], r, take_ok.mpr ⟨rfl, rfl⟩, ?_⟩
  have byte : (UInt8.ofNat (7 * 32 + n)).toNat = 7 * 32 + n := by
    rw [UInt8.toNat_ofNat']
    omega
  rw [initial_byte, byte, shift_5, and_31, if_pos (by omega), reader_lift]
  have low : (7 * 32 + n) % 32 = n := by omega
  exact ⟨v, by rw [low]; exact simple_ok.mpr meaning, rfl⟩

/-- After a head the reader goes on with what it announces. -/
theorem item_head {depth major n : Nat} {r : Bytes} (small : major < 7) (fits : n < 2 ^ 64) :
    item (depth + 1) (CborItems.head major n ++ r) = content (item depth) major n r := by
  have byte := @initial_toNat major n (by omega)
  have bound := info_lt n
  have taken : take 1 (CborItems.head major n ++ r) = .ok ([UInt8.ofNat (major * 32 + info n)],
      bigEndian (widthOf (info n)) n ++ r) := take_ok.mpr ⟨rfl, rfl⟩
  have argument_ := @argument_of major n r (by omega) fits
  have high : (major * 32 + info n) >>> 5 = major := by rw [shift_5]; omega
  rw [item, reader_step taken, initial_byte, byte, high, if_neg (by omega), reader_step argument_]

/-- One entry is read, and the loop goes on behind it. -/
theorem entry_step {read : Reader Obj} {n : Nat} {out : List (Obj × Obj)}
    {previous : Option Bytes} {encoded rest rest' : Bytes} {key value : Obj}
    (first : read (encoded ++ rest) = .ok (key, rest)) (fresh : member key out = .ok false)
    (ordered : outOfOrder previous encoded = false) (second : read rest = .ok (value, rest')) :
    readEntries read (n + 1) out previous (encoded ++ rest) =
      readEntries read n (out ++ [(key, value)]) (some encoded) rest' := by
  have got : ∀ bs : Bytes, (get : Reader Bytes) bs = .ok (bs, bs) := fun _ => rfl
  have spent : (encoded ++ rest).take ((encoded ++ rest).length - rest.length) = encoded := by
    rw [List.length_append, Nat.add_sub_cancel, List.take_left]
  have known : (liftM (member key out) : Reader Bool) rest = .ok (false, rest) :=
    reader_lift.mpr ⟨false, fresh, rfl⟩
  rw [readEntries, reader_step (got _), reader_step first, reader_step (got _), spent,
    reader_step known, if_neg (by decide), ordered, if_neg (by decide), reader_step second]

/-- The bytes of the last key of some entries, or of the one before them. -/
def lastKey (previous : Option Bytes) (kvs : List (Item × Item)) : Option Bytes :=
  kvs.foldl (fun _ kv => some kv.1.bytes) previous

/-- A key that sorts behind the previous one is in order. -/
theorem ordered_of {previous : Option Bytes} {encoded : Bytes}
    (after : ∀ p, previous = some p → p < encoded) : outOfOrder previous encoded = false := by
  cases previous with
  | none => rfl
  | some p => exact decide_eq_false (List.not_le.mpr (after p rfl))

mutual
/-- An item that denotes a value is read as it, at any depth its bytes leave room for. The entries
of a map may be followed by others. -/
theorem item_of : ∀ (t : Item) {v : Obj} {depth : Nat} {r : Bytes}, t.Fits →
    denote t = some v → t.bytes.length ≤ depth → item depth (t.bytes ++ r) = .ok (v, r)
  | .simple n, v, depth, r, fits, meaning, room => by
    have positive := bytes_pos (.simple n)
    obtain ⟨depth, rfl⟩ := Nat.exists_eq_succ_of_ne_zero (show depth ≠ 0 by omega)
    exact special_head meaning fits
  | .uint n, v, depth, r, fits, meaning, room => by
    have positive := bytes_pos (.uint n)
    obtain ⟨depth, rfl⟩ := Nat.exists_eq_succ_of_ne_zero (show depth ≠ 0 by omega)
    obtain rfl := Option.some.inj meaning
    exact item_head (by decide) fits
  | .nint n, v, depth, r, fits, meaning, room => by
    have positive := bytes_pos (.nint n)
    obtain ⟨depth, rfl⟩ := Nat.exists_eq_succ_of_ne_zero (show depth ≠ 0 by omega)
    obtain rfl := Option.some.inj meaning
    exact item_head (by decide) fits
  | .bstr b, v, depth, r, fits, meaning, room => by
    have positive := bytes_pos (.bstr b)
    obtain ⟨depth, rfl⟩ := Nat.exists_eq_succ_of_ne_zero (show depth ≠ 0 by omega)
    obtain rfl := Option.some.inj meaning
    rw [bytes, List.append_assoc, item_head (by decide) fits]
    apply reader_bind.mpr
    exact ⟨b, r, take_ok.mpr ⟨rfl, rfl⟩, rfl⟩
  | .tstr b, v, depth, r, fits, meaning, room => by
    have positive := bytes_pos (.tstr b)
    obtain ⟨depth, rfl⟩ := Nat.exists_eq_succ_of_ne_zero (show depth ≠ 0 by omega)
    obtain ⟨s, valid, rfl⟩ := denote_tstr.mp meaning
    rw [bytes, List.append_assoc, item_head (by decide) fits]
    apply reader_bind.mpr
    refine ⟨b, r, take_ok.mpr ⟨rfl, rfl⟩, ?_⟩
    apply reader_bind.mpr
    exact ⟨s, r, reader_lift.mpr ⟨s, valid, rfl⟩, rfl⟩
  | .array xs, v, depth, r, fits, meaning, room => by
    have positive := bytes_pos (.array xs)
    obtain ⟨depth, rfl⟩ := Nat.exists_eq_succ_of_ne_zero (show depth ≠ 0 by omega)
    obtain ⟨vs, meanings, rfl⟩ := Option.map_eq_some_iff.mp meaning
    rw [bytes, List.length_append, head_length] at room
    rw [bytes, List.append_assoc, item_head (by decide) fits.1]
    apply reader_bind.mpr
    exact ⟨vs, r, items_of xs fits.2 meanings (by omega), rfl⟩
  | .map kvs, v, depth, r, fits, meaning, room => by
    have positive := bytes_pos (.map kvs)
    obtain ⟨depth, rfl⟩ := Nat.exists_eq_succ_of_ne_zero (show depth ≠ 0 by omega)
    obtain ⟨es, meanings, ascending, distinct, hashable, rfl⟩ := denote_map.mp meaning
    rw [bytes, List.length_append, head_length] at room
    rw [bytes, List.append_assoc, item_head (by decide) fits.1]
    apply reader_bind.mpr
    refine ⟨es, r, ?_, rfl⟩
    exact @entries_of kvs es [] none depth r 0 fits.2 meanings (by omega) (by simp [After])
      ascending distinct hashable (by simp)
  | .tag n x, v, depth, r, fits, meaning, room => by
    have positive := bytes_pos (.tag n x)
    obtain ⟨depth, rfl⟩ := Nat.exists_eq_succ_of_ne_zero (show depth ≠ 0 by omega)
    obtain ⟨value, inner, rfl⟩ := Option.map_eq_some_iff.mp meaning
    rw [bytes, List.length_append, head_length] at room
    rw [bytes, List.append_assoc, item_head (by decide) fits.1]
    apply reader_bind.mpr
    exact ⟨value, r, item_of x fits.2 inner (by omega), rfl⟩
termination_by structural t => t

/-- A list of items is read back. -/
theorem items_of : ∀ (ts : List Item) {vs : List Obj} {depth : Nat} {r : Bytes}, FitsAll ts →
    denoteAll ts = some vs → (bytesAll ts).length ≤ depth →
    readMany (item depth) ts.length (bytesAll ts ++ r) = .ok (vs, r)
  | [], vs, depth, r, _, meaning, _ => by
    obtain rfl := Option.some.inj meaning
    rfl
  | t :: ts, vs, depth, r, fits, meaning, room => by
    obtain ⟨v, rest, first, later, rfl⟩ := denoteAll_cons.mp meaning
    rw [bytesAll, List.length_append] at room
    rw [bytesAll, List.append_assoc, List.length_cons, readMany]
    apply reader_bind.mpr
    refine ⟨v, bytesAll ts ++ r, item_of t fits.1 first (by omega), ?_⟩
    apply reader_bind.mpr
    exact ⟨rest, r, items_of ts fits.2 later (by omega), rfl⟩
termination_by structural ts => ts

/-- The entries of a map are read back, behind those already read. -/
theorem entries_of : ∀ (kvs : List (Item × Item)) {es out : List (Obj × Obj)}
    {previous : Option Bytes} {depth : Nat} {r : Bytes} (n : Nat), FitsEntries kvs →
    denoteEntries kvs = some es → (bytesEntries kvs).length ≤ depth → After previous kvs →
    Ascending kvs → Distinct es → (∀ p ∈ es, p.1.hashable = true) →
    (∀ o ∈ out, ∀ p ∈ es, o.1.keyEq p.1 = false) →
    readEntries (item depth) (kvs.length + n) out previous (bytesEntries kvs ++ r) =
      readEntries (item depth) n (out ++ es) (lastKey previous kvs) r
  | [], es, out, previous, depth, r, n, _, meaning, _, _, _, _, _, _ => by
    obtain rfl := Option.some.inj meaning
    rw [List.length_nil, Nat.zero_add, bytesEntries, List.nil_append, List.append_nil]
    rfl
  | (k, v) :: rest, es, out, previous, depth, r, n, fits, meaning, room, after, ascending,
      distinct, hashable, apart => by
    obtain ⟨key, value, later, meansKey, meansValue, meanings, rfl⟩ := denoteEntries_cons.mp meaning
    rw [bytesEntries, List.length_append, List.length_append] at room
    have first := @item_of k key depth (v.bytes ++ (bytesEntries rest ++ r)) fits.1 meansKey
      (by omega)
    have second := @item_of v value depth (bytesEntries rest ++ r) fits.2.1 meansValue (by omega)
    rw [Ascending, List.map_cons, List.pairwise_cons] at ascending
    obtain ⟨lowest, ascending⟩ := ascending
    obtain ⟨differs, distinct⟩ := List.pairwise_cons.mp distinct
    have next := @entries_of rest later (out ++ [(key, value)]) (some k.bytes) depth r n fits.2.2
      meanings (by omega)
      (by
        rintro p same kv inside
        obtain rfl := Option.some.inj same
        exact lowest _ (List.mem_map_of_mem inside))
      ascending distinct (fun p inside => hashable p (List.mem_cons_of_mem _ inside))
      (by
        intro o held p inside
        rcases List.mem_append.mp held with held | new
        · exact apart o held p (List.mem_cons_of_mem _ inside)
        · obtain rfl := List.mem_singleton.mp new
          exact differs p inside)
    have fresh : member key out = .ok false :=
      member_of (hashable (key, value) List.mem_cons_self)
        fun o held => apart o held (key, value) List.mem_cons_self
    have ordered : outOfOrder previous k.bytes = false :=
      ordered_of fun p same => after p same (k, v) List.mem_cons_self
    rw [List.length_cons, Nat.add_right_comm, bytesEntries, List.append_assoc, List.append_assoc,
      entry_step first fresh ordered second, next, List.append_assoc]
    rfl
termination_by structural kvs => kvs
end

/-- `decode` reads exactly the bytes of items that denote something. -/
theorem decode_ok {data : Bytes} {v : Obj} :
    decode data = .ok v ↔ ∃ t : Item, t.Fits ∧ t.bytes = data ∧ denote t = some v := by
  rw [decode, bind_ok]
  constructor
  · rintro ⟨⟨value, rest⟩, read, whole⟩
    obtain ⟨t, fits, split_, meaning⟩ := item_ok _ _ _ _ read
    cases rest with
    | nil =>
      obtain rfl := Except.ok.inj whole
      exact ⟨t, fits, by rw [split_, List.append_nil], meaning⟩
    | cons b rest => cases whole
  · rintro ⟨t, fits, rfl, meaning⟩
    refine ⟨(v, []), ?_, rfl⟩
    have read := @item_of t v (t.bytes.length + 1) [] fits meaning (by omega)
    rw [List.append_nil] at read
    exact read

end CborMeaning
