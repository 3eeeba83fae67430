import Custody.Der
import Custody.DerItems

/-!
# Reading what was written

What the reader accepts is what the writer produces, byte for byte, wherever it stands
in the data. Integers are read back, and an integer that is read was written.
-/

namespace DerRoundTrip

open HexBytes CborItems DerItems Der

theorem high_bit {n : ℕ} (small : n < 256) : n &&& 0x80 ≠ 0 ↔ 128 ≤ n := by
  have power : 0x80 = 2 ^ 7 := rfl
  rw [power]
  constructor
  · intro set
    by_contra below
    refine set (Nat.eq_of_testBit_eq fun i => ?_)
    rw [Nat.testBit_and, Nat.zero_testBit]
    by_cases seventh : 7 = i
    · subst seventh
      rw [Nat.testBit_lt_two_pow (by omega), Bool.false_and]
    · rw [Nat.testBit_two_pow_of_ne seventh, Bool.and_false]
  · intro large none_
    have bit : (n &&& 2 ^ 7).testBit 7 = (0 : ℕ).testBit 7 := by rw [none_]
    rw [Nat.testBit_and, Nat.testBit_two_pow_self, Bool.and_true, Nat.zero_testBit,
      Nat.testBit_eq_decide_div_mod_eq, decide_eq_false_iff_not] at bit
    omega

theorem low_bits (n : ℕ) : n &&& 0x7F = n % 128 := Nat.and_two_pow_sub_one_eq_mod n 7

theorem set_bit {n : ℕ} (small : n < 128) : 0x80 ||| n = 128 + n :=
  (Nat.two_pow_add_eq_or_of_lt (i := 7) small 1).symm

theorem byte_ok {n : ℕ} (small : n < 256) : byte n = .ok (UInt8.ofNat n) := if_pos small

theorem toBytes_ok {n k : ℕ} (fits : n < 256 ^ k) : toBytes k n = .ok (bigEndian k n) := by
  rw [toBytes, if_pos ⟨Int.natCast_nonneg n, by exact_mod_cast fits⟩, Int.toNat_natCast]

theorem byteCount_natCast (n : ℕ) : byteCount n = width n := rfl

/-- Every length below 2^32 is written in the shortest octets. -/
theorem lengthBytes_ok {n : ℕ} (fits : n < 2 ^ 32) : lengthBytes n = .ok (lengthOctets n) := by
  rw [lengthBytes]
  by_cases short : n < 128
  · rw [if_pos short, lengthOctets_short short, byte_ok (by omega)]
    rfl
  · have narrow : width n ≤ 4 := width_le_iff.mpr fits
    have written : toBytes (byteCount n) n = .ok (shortest n) := toBytes_ok (width_le_iff.mp le_rfl)
    rw [if_neg short, lengthOctets_long short, written]
    simp only [bind, Except.bind]
    rw [shortest_length, set_bit (by omega), byte_ok (by omega)]
    rfl

/-- A value is written behind its tag and its length. -/
theorem der_ok {tag : ℕ} {value : Bytes} (known : tag < 256) (fits : value.length < 2 ^ 32) :
    der tag value = .ok (UInt8.ofNat tag :: (lengthOctets value.length ++ value)) := by
  rw [der, lengthBytes_ok fits, byte_ok known]
  rfl

theorem getElem?_of_drop {data rest : Bytes} {i : ℕ} {b : UInt8} (here : data.drop i = b :: rest) :
    data[i]? = some b := by
  have same : (data.drop i)[0]? = data[i + 0]? := List.getElem?_drop
  rw [here] at same
  exact same.symm

theorem byteAt_of_drop {r : Reader} {i : ℕ} {b : UInt8} {rest : Bytes}
    (here : r.data.drop i = b :: rest) : r.byteAt i = .ok b.toNat := by
  rw [Reader.byteAt, getElem?_of_drop here]

theorem length_of_drop {r : Reader} {i : ℕ} {b : UInt8} {rest : Bytes}
    (here : r.data.drop i = b :: rest) : r.data.length = i + 1 + rest.length := by
  have total := congrArg List.length here
  rw [List.length_drop, List.length_cons] at total
  omega

theorem drop_succ {r : Reader} {i : ℕ} {b : UInt8} {rest : Bytes}
    (here : r.data.drop i = b :: rest) : r.data.drop (i + 1) = rest := by
  rw [← List.drop_drop, here]
  rfl

/-- The octets of a length, read off what follows the tag. -/
theorem length_eq {r : Reader} {l : UInt8} {tail : Bytes}
    (here : r.data.drop (r.offset + 1) = l :: tail) : r.length =
      if 128 ≤ l.toNat then
        if ¬(1 ≤ l.toNat - 128 ∧ l.toNat - 128 ≤ 4) ∨ l.toNat - 128 > tail.length then
          .error (.tsaError "invalid DER length")
        else if tail.head? = some 0 then .error (.tsaError "non-canonical DER length")
        else if ofBigEndian (tail.take (l.toNat - 128)) < 128 then
          .error (.tsaError "non-canonical DER length")
        else .ok (r.offset + 2 + (l.toNat - 128), ofBigEndian (tail.take (l.toNat - 128)))
      else .ok (r.offset + 2, l.toNat) := by
  have small : l.toNat < 256 := l.toNat_lt
  have total := length_of_drop here
  have after : r.data.drop (r.offset + 2) = tail := drop_succ here
  rw [Reader.length, byteAt_of_drop here]
  simp only [bind, Except.bind]
  by_cases long : 128 ≤ l.toNat
  · have count : l.toNat &&& 0x7F = l.toNat - 128 := by
      rw [low_bits]
      omega
    have room : r.offset + 2 + (l.toNat - 128) > r.data.length ↔ l.toNat - 128 > tail.length := by
      omega
    rw [if_pos ((high_bit small).mpr long), if_pos long, count, after]
    simp only [room]
    split
    · rfl
    next bounds =>
      cases tail with
      | nil =>
        simp only [List.length_nil, not_or, not_not] at bounds
        omega
      | cons b rest =>
        rw [byteAt_of_drop after, List.head?_cons]
        have zero : b.toNat = 0 ↔ some b = some 0 := by
          rw [Option.some.injEq, ← UInt8.toNat_inj]
          rfl
        simp only [zero]
        rfl
  · rw [if_neg (fun set => long ((high_bit small).mp set)), if_neg long]
    rfl

/-- A length is read where its octets stand. -/
theorem length_written {r : Reader} {size : ℕ} {rest : Bytes} (fits : size < 2 ^ 32)
    (here : r.data.drop (r.offset + 1) = lengthOctets size ++ rest) :
    r.length = .ok (r.offset + 1 + (lengthOctets size).length, size) := by
  by_cases short : size < 128
  · rw [lengthOctets_short short] at here ⊢
    have small : (UInt8.ofNat size).toNat = size := by
      rw [UInt8.toNat_ofNat']
      omega
    rw [length_eq here, if_neg (by omega), small]
    rfl
  · have narrow : width size ≤ 4 := width_le_iff.mpr fits
    obtain ⟨b, bs, shape, first, count⟩ := shortest_cons (n := size) (by omega)
    have value := ofBigEndian_shortest size
    rw [lengthOctets_long short, shape] at here ⊢
    rw [List.cons_append] at here
    rw [shape] at value
    have announced : (UInt8.ofNat (128 + width size)).toNat - 128 = bs.length + 1 := by
      rw [UInt8.toNat_ofNat']
      omega
    have marked : 128 ≤ (UInt8.ofNat (128 + width size)).toNat := by
      rw [UInt8.toNat_ofNat']
      omega
    have octets : (b :: bs ++ rest).take (bs.length + 1) = b :: bs :=
      List.take_left' (List.length_cons)
    have room : ¬(¬(1 ≤ bs.length + 1 ∧ bs.length + 1 ≤ 4) ∨
        bs.length + 1 > (b :: bs ++ rest).length) := by
      rw [List.length_append, List.length_cons]
      omega
    have nonzero : ¬(b :: bs ++ rest).head? = some 0 := fun zero => first (Option.some.inj zero)
    have place : r.offset + 2 + (bs.length + 1) = r.offset + 1 + (bs.length + 1 + 1) := by omega
    rw [length_eq here, if_pos marked, announced, if_neg room, octets, value, if_neg nonzero,
      if_neg short, List.length_cons, List.length_cons, place]

/-- Whatever is read as a length has the octets of that length. -/
theorem length_octets {r : Reader} {l : UInt8} {tail : Bytes}
    (here : r.data.drop (r.offset + 1) = l :: tail) {start size : ℕ}
    (read : r.length = .ok (start, size)) :
    size < 2 ^ 32 ∧ ∃ rest, l :: tail = lengthOctets size ++ rest := by
  have byte : l.toNat < 256 := l.toNat_lt
  rw [length_eq here] at read
  split at read
  next long =>
    split at read
    · cases read
    next bounds =>
      split at read
      · cases read
      next nonzero =>
        split at read
        · cases read
        next large =>
          obtain ⟨-, rfl⟩ := Prod.mk.inj (Except.ok.inj read)
          obtain ⟨⟨one, four⟩, room⟩ := not_or.mp bounds |>.imp not_not.mp not_lt.mp
          obtain ⟨k, count⟩ := Nat.exists_eq_add_of_le' one
          rw [count] at large room four ⊢
          cases tail with
          | nil => cases room
          | cons b rest =>
            have first : b ≠ 0 := fun zero => nonzero (by rw [zero]; rfl)
            have whole : (rest.take k).length = k := by
              rw [List.length_take]
              rw [List.length_cons] at room
              omega
            rw [List.take_succ_cons] at large ⊢
            have below := ofBigEndian_lt (b :: rest.take k)
            rw [List.length_cons, whole] at below
            refine ⟨below.trans_le (Nat.pow_le_pow_right (by decide) four), rest.drop k, ?_⟩
            have announced : UInt8.ofNat (128 + (k + 1)) = l := by
              rw [← count, Nat.add_sub_cancel' long, UInt8.ofNat_toNat]
            rw [lengthOctets_ofBigEndian first large, whole, announced, List.cons_append,
              List.cons_append, List.take_append_drop]
  next short =>
    obtain ⟨-, rfl⟩ := Prod.mk.inj (Except.ok.inj read)
    refine ⟨by omega, tail, ?_⟩
    rw [lengthOctets_short (by omega), UInt8.ofNat_toNat]
    rfl

/-- A length that cannot be read raises `TSAError`. -/
theorem length_error {r : Reader} {l : UInt8} {tail : Bytes}
    (here : r.data.drop (r.offset + 1) = l :: tail) {e : Raised} (raised : r.length = .error e) :
    ∃ message, e = .tsaError message := by
  rw [length_eq here] at raised
  split at raised
  · split at raised
    · exact ⟨_, (Except.error.inj raised).symm⟩
    split at raised
    · exact ⟨_, (Except.error.inj raised).symm⟩
    split at raised
    · exact ⟨_, (Except.error.inj raised).symm⟩
    · cases raised
  · cases raised

theorem peek_of_drop {r : Reader} {b : UInt8} {rest : Bytes}
    (here : r.data.drop r.offset = b :: rest) : r.peek = some b.toNat := by
  rw [Reader.peek, getElem?_of_drop here]
  rfl

/-- Behind a tag that is accepted there is an octet of the length. -/
theorem tag_octets {r : Reader} {tag : ℕ}
    (accepted : ¬(r.peek ≠ some tag ∨ r.offset + 2 > r.data.length)) :
    ∃ t l tail, r.data.drop r.offset = t :: l :: tail ∧ t.toNat = tag := by
  obtain ⟨seen, room⟩ := not_or.mp accepted
  have size := List.length_drop (l := r.data) (i := r.offset)
  cases here : r.data.drop r.offset with
  | nil =>
    rw [here, List.length_nil] at size
    omega
  | cons t rest =>
    rw [peek_of_drop here] at seen
    cases rest with
    | nil =>
      rw [here, List.length_singleton] at size
      omega
    | cons l tail => exact ⟨t, l, tail, rfl, Option.some.inj (not_not.mp seen)⟩

/-- What the writer produces is read, and the reader moves behind it. -/
theorem read_written {r : Reader} {tag : ℕ} {v b rest : Bytes} (known : tag < 256)
    (fits : v.length < 2 ^ 32) (written : der tag v = .ok b)
    (here : r.data.drop r.offset = b ++ rest) :
    r.read tag = ({ r with offset := r.offset + b.length }, .ok v) := by
  rw [der_ok known fits, Except.ok.injEq] at written
  subst written
  rw [List.cons_append, List.append_assoc] at here
  have after := drop_succ here
  have total := length_of_drop here
  have seen : r.peek = some tag := by
    rw [peek_of_drop here, UInt8.toNat_ofNat', Nat.mod_eq_of_lt known]
  have nonempty : 1 ≤ (lengthOctets v.length).length := by
    rw [lengthOctets]
    split
    · simp
    · simp
  rw [List.length_append, List.length_append] at total
  have accepted : ¬(r.peek ≠ some tag ∨ r.offset + 2 > r.data.length) := by
    rw [seen]
    simp only [ne_eq, not_true_eq_false, false_or]
    omega
  have room : ¬(r.offset + 1 + (lengthOctets v.length).length + v.length > r.data.length) := by
    omega
  have value : (r.data.drop (r.offset + 1 + (lengthOctets v.length).length)).take v.length = v := by
    rw [← List.drop_drop, after, List.drop_left, List.take_left]
  have bounds : r.span tag = .ok (r.offset + 1 + (lengthOctets v.length).length,
      r.offset + 1 + (lengthOctets v.length).length + v.length) := by
    rw [Reader.span, if_neg accepted, length_written fits after]
    simp only [bind, Except.bind, if_neg room]
    rfl
  rw [Reader.read, bounds]
  simp only [Nat.add_sub_cancel_left, value, List.length_cons, List.length_append]
  congr 2
  omega

/-- Whatever is read was written by the writer, and the reader has moved behind it. -/
theorem read_ok {r after : Reader} {tag : ℕ} {v : Bytes} (read : r.read tag = (after, .ok v)) :
    v.length < 2 ^ 32 ∧ ∃ b, der tag v = .ok b ∧ b <+: r.data.drop r.offset ∧
      after = { r with offset := r.offset + b.length } := by
  cases bounds : r.span tag with
  | error e =>
    rw [Reader.read, bounds] at read
    cases (Prod.mk.inj read).2
  | ok ends =>
    rw [Reader.span] at bounds
    split at bounds
    · cases bounds
    next accepted =>
      obtain ⟨t, l, tail, here, same⟩ := tag_octets accepted
      have known : tag < 256 := same ▸ t.toNat_lt
      have later := drop_succ here
      cases measured : r.length with
      | error e =>
        rw [measured] at bounds
        cases bounds
      | ok pair =>
        obtain ⟨start, size⟩ := pair
        obtain ⟨fits, rest, octets⟩ := length_octets later measured
        rw [octets] at later
        have total := length_of_drop here
        rw [octets, List.length_append] at total
        have place := length_written fits later
        rw [measured, Except.ok.injEq, Prod.mk.injEq] at place
        rw [measured] at bounds
        simp only [bind, Except.bind] at bounds
        split at bounds
        · cases bounds
        next room =>
          rw [not_lt] at room
          have whole : (rest.take size).length = size := by
            rw [List.length_take]
            omega
          have written := der_ok known (show (rest.take size).length < 2 ^ 32 by omega)
          have tagged : UInt8.ofNat tag = t := by rw [← same, UInt8.ofNat_toNat]
          rw [whole, tagged] at written
          have follows : r.data.drop r.offset =
              t :: (lengthOctets size ++ rest.take size) ++ rest.drop size := by
            rw [here, octets, List.cons_append, List.append_assoc, List.take_append_drop]
          have again := read_written known (by omega) written follows
          rw [read, Prod.mk.injEq, Except.ok.injEq] at again
          obtain ⟨moved, rfl⟩ := again
          exact ⟨by omega, _, written, ⟨_, follows.symm⟩, moved⟩

/-- What is not read leaves the reader where it is. -/
theorem read_error {r after : Reader} {tag : ℕ} {e : Raised}
    (read : r.read tag = (after, .error e)) :
    after = r ∧ ∃ message, e = .tsaError message := by
  cases bounds : r.span tag with
  | ok ends =>
    rw [Reader.read, bounds] at read
    cases (Prod.mk.inj read).2
  | error raised =>
    rw [Reader.read, bounds] at read
    obtain ⟨rfl, same⟩ := Prod.mk.inj read
    obtain rfl := Except.error.inj same
    refine ⟨rfl, ?_⟩
    rw [Reader.span] at bounds
    split at bounds
    · exact ⟨_, (Except.error.inj bounds).symm⟩
    next accepted =>
      obtain ⟨t, l, tail, here, -⟩ := tag_octets accepted
      have later := drop_succ here
      cases measured : r.length with
      | error e =>
        rw [measured] at bounds
        obtain rfl := Except.error.inj bounds
        exact length_error later measured
      | ok pair =>
        rw [measured] at bounds
        simp only [bind, Except.bind] at bounds
        split at bounds
        · exact ⟨_, (Except.error.inj bounds).symm⟩
        · cases bounds

theorem integer_eq (n : ℕ) : integer n = der 0x02 (contents n) := by
  have fits : n < 256 ^ max 1 (width n) := width_le_iff.mp (le_max_right _ _)
  have size := bigEndian_length (max 1 (width n)) n
  rw [integer, byteCount_natCast, toBytes_ok fits, contents]
  cases shape : bigEndian (max 1 (width n)) n with
  | nil =>
    rw [shape, List.length_nil] at size
    omega
  | cons b bs =>
    simp only [bind, Except.bind]
    have bit : b.toNat < 128 ↔ ¬(b.toNat &&& 0x80 ≠ 0) := by
      rw [high_bit b.toNat_lt, not_le]
    by_cases clear : b.toNat < 128
    · rw [if_neg (bit.mp clear), if_pos clear]
    · rw [if_pos (not_not.mp (mt bit.mpr clear)), if_neg clear]

/-- The reader accepts the minimal contents of non-negative integers of at most 33 octets. -/
theorem badInteger_iff (data : Bytes) :
    Reader.badInteger data = false ↔ MinimalContents data ∧ data.length ≤ 33 := by
  have bit : ∀ b : UInt8, (b.toNat &&& 0x80 != 0) = false ↔ b.toNat < 128 := by
    intro b
    rw [bne_eq_false_iff_eq, ← not_iff_not, ← ne_eq, high_bit b.toNat_lt, not_lt]
  have clear : ∀ b : UInt8, (b.toNat &&& 0x80 == 0) = false ↔ 128 ≤ b.toNat := by
    intro b
    rw [beq_eq_false_iff_ne, high_bit b.toNat_lt]
  cases data with
  | nil => simp [Reader.badInteger, MinimalContents]
  | cons b rest =>
    cases rest with
    | nil =>
      rw [Reader.badInteger, Bool.or_eq_false_iff, Bool.or_eq_false_iff, bit]
      simp [MinimalContents]
    | cons c rest =>
      rw [Reader.badInteger, Bool.or_eq_false_iff, Bool.or_eq_false_iff, bit,
        Bool.and_eq_false_iff, clear, beq_eq_false_iff_ne, decide_eq_false_iff_not, MinimalContents,
          not_lt]
      constructor
      · rintro ⟨⟨long, first⟩, second⟩
        exact ⟨⟨first, fun zero => second.resolve_left fun other => other zero⟩, long⟩
      · rintro ⟨⟨first, second⟩, long⟩
        exact ⟨⟨long, first⟩, (em (b = 0)).symm.imp id second⟩

/-- An integer that fits is read back. -/
theorem integer_written {n : ℕ} (fits : n < 2 ^ 263) : ∃ b, integer n = .ok b ∧
    ∀ {r : Reader} {rest : Bytes}, r.data.drop r.offset = b ++ rest →
      r.integer = ({ r with offset := r.offset + b.length }, .ok n) := by
  have power : 2 ^ 263 = 128 * 256 ^ 32 := by
    have bits : 128 * 256 ^ 32 = 2 ^ 7 * (2 ^ 8) ^ 32 := rfl
    rw [bits, ← pow_mul, ← pow_add]
  have small : (contents n).length ≤ 33 := contents_length (power ▸ fits)
  have written : der 0x02 (contents n) = .ok _ := der_ok (by decide) (by omega)
  refine ⟨_, (integer_eq n).trans written, ?_⟩
  intro r rest here
  have good := (badInteger_iff _).mpr ⟨contents_minimal n, small⟩
  rw [Reader.integer, read_written (by decide) (by omega) written here]
  simp only [good, Bool.false_eq_true, if_false, ofBigEndian_contents]

/-- An integer that is read was written as that integer. -/
theorem integer_ok {r after : Reader} {n : ℕ} (read : r.integer = (after, .ok n)) :
    ∃ b, integer n = .ok b ∧ b <+: r.data.drop r.offset ∧
      after = { r with offset := r.offset + b.length } := by
  rw [Reader.integer] at read
  cases taken : r.read 0x02 with
  | mk moved result =>
    rw [taken] at read
    cases result with
    | error e => cases (Prod.mk.inj read).2
    | ok data =>
      simp only at read
      split at read
      · cases (Prod.mk.inj read).2
      next good =>
        obtain ⟨minimal, -⟩ := (badInteger_iff data).mp (Bool.not_eq_true _ ▸ good)
        obtain ⟨rfl, same⟩ := Prod.mk.inj read
        obtain rfl := Except.ok.inj same
        obtain ⟨-, b, written, follows, moved⟩ := read_ok taken
        refine ⟨b, ?_, follows, moved⟩
        rw [integer_eq, contents_ofBigEndian minimal, written]

/-- `_single` accepts the one value that was written, with nothing behind it. -/
theorem single_ok_iff {d v : Bytes} {tag : ℕ} (known : tag < 256) :
    single d tag = .ok v ↔ v.length < 2 ^ 32 ∧ der tag v = .ok d := by
  constructor
  · intro accepted
    rw [single] at accepted
    cases taken : Reader.read { data := d } tag with
    | mk after result =>
      rw [taken] at accepted
      cases result with
      | error e => cases accepted
      | ok value =>
        obtain ⟨fits, b, written, ⟨rest, follows⟩, rfl⟩ := read_ok taken
        rw [List.drop_zero] at follows
        simp only [Reader.finish, Reader.peek, Nat.zero_add] at accepted follows
        cases rest with
        | nil =>
          rw [List.append_nil] at follows
          subst follows
          rw [List.getElem?_eq_none le_rfl] at accepted
          obtain rfl := Except.ok.inj accepted
          exact ⟨fits, written⟩
        | cons c rest =>
          subst follows
          rw [List.getElem?_append_right le_rfl, Nat.sub_self] at accepted
          cases accepted
  · rintro ⟨fits, written⟩
    have whole : (Reader.mk d 0).data.drop (Reader.mk d 0).offset = d ++ [] :=
      (List.append_nil d).symm
    rw [single, read_written known fits written whole]
    simp only [Reader.finish, Reader.peek, Nat.zero_add]
    rw [List.getElem?_eq_none le_rfl]
    rfl

/-- Two values that begin alike are one value, and what follows them is the same. -/
theorem written_unambiguous {tag : ℕ} {v v' b b' rest rest' : Bytes} (known : tag < 256)
    (fits : v.length < 2 ^ 32) (fits' : v'.length < 2 ^ 32) (written : der tag v = .ok b)
    (written' : der tag v' = .ok b') (same : b ++ rest = b' ++ rest') : v = v' ∧ rest = rest' := by
  have first := @read_written ⟨b ++ rest, 0⟩ _ _ _ _ known fits written rfl
  have second := @read_written ⟨b ++ rest, 0⟩ _ _ _ _ known fits' written' same
  rw [first, Prod.mk.injEq, Except.ok.injEq] at second
  obtain ⟨-, rfl⟩ := second
  obtain rfl := Except.ok.inj (written.symm.trans written')
  exact ⟨rfl, List.append_cancel_left same⟩

/-- An integer is determined by any bytes that begin with it. -/
theorem integer_unambiguous {n n' : ℕ} {b b' rest rest' : Bytes} (fits : n < 2 ^ 263)
    (fits' : n' < 2 ^ 263) (written : integer n = .ok b) (written' : integer n' = .ok b')
    (same : b ++ rest = b' ++ rest') : n = n' ∧ rest = rest' := by
  obtain ⟨c, made, reads⟩ := integer_written fits
  obtain ⟨c', made', reads'⟩ := integer_written fits'
  obtain rfl := Except.ok.inj (written.symm.trans made)
  obtain rfl := Except.ok.inj (written'.symm.trans made')
  have first := @reads ⟨b ++ rest, 0⟩ rest rfl
  have second := @reads' ⟨b ++ rest, 0⟩ rest' same
  rw [first, Prod.mk.injEq, Except.ok.injEq] at second
  obtain ⟨-, rfl⟩ := second
  obtain rfl := Except.ok.inj (written.symm.trans written')
  exact ⟨rfl, List.append_cancel_left same⟩

/-- The reader accepts what the writer produces and nothing else, and integers go through
both unchanged. -/
theorem reader_accepts_written :
    (∀ (d : Bytes) (offset tag : ℕ), tag < 256 →
      (∀ v, (∃ after, Reader.read ⟨d, offset⟩ tag = (after, .ok v)) ↔
        v.length < 2 ^ 32 ∧ ∃ b, der tag v = .ok b ∧ b <+: d.drop offset) ∧
      (∀ after v, Reader.read ⟨d, offset⟩ tag = (after, .ok v) →
        ∃ b, der tag v = .ok b ∧ after = ⟨d, offset + b.length⟩) ∧
      (∀ after e, Reader.read ⟨d, offset⟩ tag = (after, .error e) →
        (∃ message, e = .tsaError message) ∧ after = ⟨d, offset⟩)) ∧
    (∀ n : ℕ, n < 2 ^ 263 →
      ∃ b, integer n = .ok b ∧ ∃ after, Reader.integer ⟨b, 0⟩ = (after, .ok n)) ∧
    (∀ (d : Bytes) (after : Reader) (n : ℕ), Reader.integer ⟨d, 0⟩ = (after, .ok n) →
      ∃ b, integer n = .ok b ∧ b <+: d) := by
  refine ⟨fun d offset tag known => ⟨fun v => ⟨?_, ?_⟩, ?_, ?_⟩, ?_, ?_⟩
  · rintro ⟨after, read⟩
    obtain ⟨fits, b, written, follows, -⟩ := read_ok read
    exact ⟨fits, b, written, follows⟩
  · rintro ⟨fits, b, written, rest, follows⟩
    exact ⟨_, read_written known fits written follows.symm⟩
  · intro after v read
    obtain ⟨-, b, written, -, moved⟩ := read_ok read
    exact ⟨b, written, moved⟩
  · intro after e read
    obtain ⟨stays, raised⟩ := read_error read
    exact ⟨raised, stays⟩
  · intro n fits
    obtain ⟨b, written, reads⟩ := integer_written fits
    have whole : (Reader.mk b 0).data.drop (Reader.mk b 0).offset = b ++ [] :=
      (List.append_nil b).symm
    exact ⟨b, written, _, reads whole⟩
  · intro d after n read
    obtain ⟨b, written, follows, -⟩ := integer_ok read
    exact ⟨b, written, follows⟩

end DerRoundTrip
