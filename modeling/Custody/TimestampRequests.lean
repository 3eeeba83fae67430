import Custody.DerRoundTrip

/-!
# Time-stamp requests

A request is built exactly for a digest and a nonce in range, and anything else is refused
by name. The octets of a request say which digest and which nonce it is about.
-/

namespace TimestampRequests

open PyValue HexBytes DerItems Der DerRoundTrip

/-- The octets `_der` puts around a value that fits. -/
def item (tag : ℕ) (value : Bytes) : Bytes :=
  UInt8.ofNat tag :: (lengthOctets value.length ++ value)

theorem der_item {tag : ℕ} {value : Bytes} (known : tag < 256) (fits : value.length < 2 ^ 32) :
    der tag value = .ok (item tag value) := der_ok known fits

theorem item_length {tag : ℕ} {value : Bytes} (fits : value.length < 2 ^ 32) :
    (item tag value).length ≤ value.length + 6 := by
  have narrow : width value.length ≤ 4 := width_le_iff.mpr fits
  have octets : (lengthOctets value.length).length ≤ 5 := by
    by_cases short : value.length < 128
    · rw [lengthOctets_short short]
      simp
    · rw [lengthOctets_long short, List.length_cons, shortest_length]
      omega
  rw [item, List.length_cons, List.length_append]
  omega

/-- What stands in front of other items is read off them. -/
theorem item_append_inj {tag : ℕ} {v v' rest rest' : Bytes} (known : tag < 256)
    (fits : v.length < 2 ^ 32) (fits' : v'.length < 2 ^ 32)
    (same : item tag v ++ rest = item tag v' ++ rest') : v = v' ∧ rest = rest' :=
  written_unambiguous known fits fits' (der_item known fits) (der_item known fits') same

/-- The nonce of a request, given or drawn. -/
def chosen (nonce : Value) (drawn : ℕ) : Value :=
  if nonce.isNone then .int (if drawn = 0 then 1 else drawn) else nonce

/-- What a request is built for. -/
structure Asked (rootHash nonce : Value) (drawn : ℕ) (root : Bytes) (k : ℕ) : Prop where
  root : rootBytes rootHash = .ok root
  nonce : chosen nonce drawn = .int k
  positive : 0 < k
  bounded : k < 2 ^ 160

theorem rootBytes_length {rootHash : Value} {root : Bytes} (read : rootBytes rootHash = .ok root) :
    root.length ≤ 32 := by
  cases rootHash with
  | str s =>
    rw [rootBytes] at read
    split at read
    next digits =>
      cases value : fromHex s with
      | none =>
        rw [value] at read
        cases read
      | some b =>
        rw [value] at read
        obtain rfl := Except.ok.inj read
        have size := fromHexChars_length value
        omega
    next => cases read
  | _ => cases read

/-- Text of 64 digits can always be read, so a digest is refused by name only. -/
theorem rootBytes_error {rootHash : Value} {e : Raised} (refused : rootBytes rootHash = .error e) :
    ∃ message, e = .tsaError message := by
  cases rootHash with
  | str s =>
    rw [rootBytes] at refused
    split at refused
    next digits =>
      have readable : (fromHex s).isSome = true := by
        refine fromHexChars_of_digits ?_ (List.all_eq_true.mp digits.2)
        rw [digits.1]
      obtain ⟨b, value⟩ := Option.isSome_iff_exists.mp readable
      rw [value] at refused
      cases refused
    next => exact ⟨_, (Except.error.inj refused).symm⟩
  | _ => exact ⟨_, (Except.error.inj refused).symm⟩

def algorithm : Bytes := item 0x30 (item 0x06 sha256Oid ++ item 0x05 [])

def imprint (root : Bytes) : Bytes := item 0x30 (algorithm ++ item 0x04 root)

def requestFields (root : Bytes) (k : ℕ) : Bytes :=
  item 0x02 (contents 1) ++ imprint root ++ item 0x02 (contents k) ++ item 0x01 [0xff]

theorem contents_fit {k : ℕ} (bounded : k < 2 ^ 160) : (contents k).length ≤ 21 :=
  contents_length (bounded.trans_le (by decide))

theorem integer_item {k : ℕ} (bounded : k < 2 ^ 160) :
    integer k = .ok (item 0x02 (contents k)) := by
  have small := contents_fit bounded
  rw [integer_eq, der_item (by decide) (by omega)]

theorem parts_length : (item 0x06 sha256Oid ++ item 0x05 []).length ≤ 21 := by
  have oid : (item 0x06 sha256Oid).length ≤ 9 + 6 := item_length (by decide)
  have parameters : (item 0x05 []).length ≤ 0 + 6 := item_length (by decide)
  rw [List.length_append]
  omega

theorem digest_length {root : Bytes} (fits : root.length ≤ 32) :
    (algorithm ++ item 0x04 root).length ≤ 65 := by
  have parts := parts_length
  have first : algorithm.length ≤ _ + 6 := item_length (by omega)
  have second := @item_length 0x04 root (by omega)
  rw [List.length_append]
  omega

theorem requestFields_length {root : Bytes} {k : ℕ} (fits : root.length ≤ 32)
    (bounded : k < 2 ^ 160) : (requestFields root k).length < 2 ^ 32 := by
  have digest := digest_length fits
  have one := contents_fit (k := 1) (by norm_num)
  have number := contents_fit bounded
  have version := @item_length 0x02 (contents 1) (by omega)
  have about : (imprint root).length ≤ _ + 6 := item_length (by omega)
  have nonce := @item_length 0x02 (contents k) (by omega)
  have flag : (item 0x01 [0xff]).length ≤ 1 + 6 := item_length (by decide)
  rw [requestFields, List.length_append, List.length_append, List.length_append]
  omega

/-- Nothing that is asked for is too long to be written. -/
theorem request_built {rootHash nonce : Value} {drawn k : ℕ} {root : Bytes}
    (asked : Asked rootHash nonce drawn root k) :
    buildTimestampRequest rootHash nonce drawn = .ok (item 0x30 (requestFields root k)) := by
  have fits := rootBytes_length asked.root
  have parts := parts_length
  have digest : (item 0x30 (item 0x06 sha256Oid ++ item 0x05 []) ++ item 0x04 root).length ≤ 65 :=
    digest_length fits
  have range : ¬¬((0 : ℤ) < k ∧ (k : ℤ) < 2 ^ 160) :=
    not_not.mpr ⟨by exact_mod_cast asked.positive, by exact_mod_cast asked.bounded⟩
  have number : (if nonce.isNone = true then Value.int (if drawn = 0 then 1 else drawn)
      else nonce) = .int k := asked.nonce
  have version : integer 1 = .ok (item 0x02 (contents 1)) := integer_item (k := 1) (by norm_num)
  rw [buildTimestampRequest, asked.root]
  simp only [bind, Except.bind, number]
  rw [if_neg range, der_item (by decide) (by decide)]
  simp only
  rw [der_item (by decide) (by decide)]
  simp only
  rw [der_item (by decide) (by omega)]
  simp only
  rw [der_item (by decide) (by omega)]
  simp only
  rw [der_item (by decide) (by omega)]
  simp only
  rw [version, integer_item asked.bounded, der_item (by decide) (by decide)]
  exact der_item (by decide) (requestFields_length fits asked.bounded)

/-- Anything else is refused with a `TSAError`. -/
theorem request_refused {rootHash nonce : Value} {drawn : ℕ}
    (unasked : ¬∃ root k, Asked rootHash nonce drawn root k) :
    ∃ message, buildTimestampRequest rootHash nonce drawn = .error (.tsaError message) := by
  rw [buildTimestampRequest]
  cases read : rootBytes rootHash with
  | error e =>
    obtain ⟨message, rfl⟩ := rootBytes_error read
    exact ⟨message, rfl⟩
  | ok root =>
    have number : (if nonce.isNone = true then Value.int (if drawn = 0 then 1 else drawn)
        else nonce) = chosen nonce drawn := rfl
    simp only [bind, Except.bind, number]
    cases given : chosen nonce drawn with
    | int n =>
      have range : ¬((0 : ℤ) < n ∧ n < 2 ^ 160) := by
        rintro ⟨positive, bounded⟩
        lift n to ℕ using positive.le
        exact unasked ⟨root, n, read, given, by exact_mod_cast positive, by exact_mod_cast bounded⟩
      exact ⟨_, if_pos range⟩
    | _ => exact ⟨_, rfl⟩

/-- The octets of a request say what was asked. -/
theorem request_determines {rootHash nonce rootHash' nonce' : Value} {drawn drawn' k k' : ℕ}
    {root root' : Bytes} (asked : Asked rootHash nonce drawn root k)
    (asked' : Asked rootHash' nonce' drawn' root' k')
    (same : buildTimestampRequest rootHash nonce drawn =
      buildTimestampRequest rootHash' nonce' drawn') : root = root' ∧ k = k' := by
  have fits := rootBytes_length asked.root
  have fits' := rootBytes_length asked'.root
  have digest := digest_length fits
  have digest' := digest_length fits'
  rw [request_built asked, request_built asked', Except.ok.injEq] at same
  have fields := (item_append_inj (by decide) (requestFields_length fits asked.bounded)
    (requestFields_length fits' asked'.bounded) (congrArg (· ++ []) same)).1
  rw [requestFields, requestFields, List.append_assoc, List.append_assoc, List.append_assoc,
    List.append_assoc, List.append_cancel_left_eq] at fields
  obtain ⟨about, rest⟩ := item_append_inj (by decide) (by omega) (by omega) fields
  have octets := List.append_cancel_left about
  obtain ⟨rfl, -⟩ := item_append_inj (by decide) (by omega) (by omega) (congrArg (· ++ []) octets)
  have larger : 2 ^ 160 < 2 ^ 263 := by
    apply Nat.pow_lt_pow_right
    · decide
    · decide
  have nonces := integer_unambiguous (asked.bounded.trans larger) (asked'.bounded.trans larger)
    (integer_item asked.bounded) (integer_item asked'.bounded) rest
  exact ⟨rfl, nonces.1⟩

/-- Two requests are the same octets exactly when they ask for the same hash and nonce. -/
theorem requests_same_iff {rootHash nonce rootHash' nonce' : Value} {drawn drawn' k k' : ℕ}
    {root root' : Bytes} (asked : Asked rootHash nonce drawn root k)
    (asked' : Asked rootHash' nonce' drawn' root' k') :
    buildTimestampRequest rootHash nonce drawn = buildTimestampRequest rootHash' nonce' drawn' ↔
      root = root' ∧ k = k' := by
  constructor
  · exact request_determines asked asked'
  · rintro ⟨rfl, rfl⟩
    rw [request_built asked, request_built asked']

def zeroDigest : String := String.ofList (List.replicate 64 '0')

/-- A nonce that is given, and the same one drawn. -/
theorem requests_same_iff_drawn : buildTimestampRequest (.str zeroDigest) (.int 7) 0 =
    buildTimestampRequest (.str zeroDigest) .null 7 :=
  (@requests_same_iff (.str zeroDigest) (.int 7) (.str zeroDigest) .null 0 7 7 7 _ _
    { root := rfl, nonce := rfl, positive := by decide, bounded := by decide }
    { root := rfl, nonce := rfl, positive := by decide, bounded := by decide }).mpr ⟨rfl, rfl⟩

end TimestampRequests
