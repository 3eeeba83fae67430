import Custody.CborMeaning

/-!
# How decoding fails

Everything that the reader checks raises `CBORError`. Two operations of the host raise
something else: decoding a text that is not UTF-8, and looking up a key that has no hash.
Which byte strings lead the reader there can be said of their items alone.
-/

namespace CborFailures

open PyValue HexBytes CborItems CborItems.Item Cbor CborMeaning

/-- `CBORError`, as opposed to the `UnicodeDecodeError` of a text, the `TypeError` of a key, and
running out of depth. -/
def IsCborError : PyErr → Prop
  | .valueError _ => True
  | _ => False

instance : DecidablePred IsCborError
  | .valueError _ => inferInstanceAs (Decidable True)
  | .typeError | .attributeError | .keyError | .recursionError | .unicodeDecodeError
  | .nonAsciiKey _ _ | .runtimeError _ | .interruptedError _ | .registrationRefused _
  | .serviceUnavailable _ => inferInstanceAs (Decidable False)

/-- Whatever `m` raises is a `CBORError`. -/
def Documented {A : Type} (m : Py A) : Prop := ∀ e, m = .error e → IsCborError e

theorem documented_ok {A : Type} (a : A) : Documented (.ok a : Py A) := by
  intro e failed
  cases failed

theorem documented_error {A : Type} {e : PyErr} (documented : IsCborError e) :
    Documented (.error e : Py A) := by
  intro e' failed
  cases failed
  exact documented

/-- Writing a head fails only in the documented way. -/
theorem documented_head (major : Nat) (value : Int) : Documented (Cbor.head major value) := by
  unfold Cbor.head
  split
  · exact documented_error (by decide)
  dsimp only
  split
  · exact documented_ok _
  split
  · exact documented_ok _
  · exact documented_error (by decide)

theorem documented_simple (n : Nat) : Documented (Cbor.simple n) := by
  rw [Cbor.simple]
  split
  · exact documented_ok _
  split
  · exact documented_ok _
  split
  · exact documented_ok _
  split
  · exact documented_error (by decide)
  · exact documented_error trivial

section readers

variable {A B : Type}

/-- A sequence of readers fails where its first or its second part does. -/
theorem reader_error {x : Reader A} {f : A → Reader B} {rest : Bytes} {e : PyErr} :
    (x >>= f) rest = .error e ↔
      x rest = .error e ∨ ∃ a rest', x rest = .ok (a, rest') ∧ f a rest' = .error e := by
  change (x rest >>= fun p => f p.1 p.2) = .error e ↔ _
  cases read : x rest with
  | error e' => simp
  | ok p =>
    obtain ⟨a, rest'⟩ := p
    simp

theorem reader_lift_error {x : Py A} {rest : Bytes} {e : PyErr} :
    (liftM x : Reader A) rest = .error e ↔ x = .error e := by
  change (x >>= fun a => Except.ok (a, rest)) = .error e ↔ _
  cases x <;> simp

/-- Missing bytes are reported as documented. -/
theorem documented_take (n : Nat) (rest : Bytes) : Documented (take n rest) := by
  rw [take]
  split
  · exact documented_error (by decide)
  · exact documented_ok _

/-- A malformed argument is reported as documented. -/
theorem documented_argument (initial : Nat) (rest : Bytes) :
    Documented (Cbor.argument initial rest) := by
  rw [Cbor.argument]
  split
  · exact documented_ok _
  split
  · exact documented_error (by decide)
  split
  · exact documented_error trivial
  intro e failed
  rcases reader_error.mp failed with short | ⟨taken, rest₁, -, failed⟩
  · exact documented_take _ _ e short
  rcases reader_error.mp failed with large | ⟨minimal, rest₂, -, failed⟩
  · exact documented_head _ _ e (reader_lift_error.mp large)
  split at failed
  · cases failed
    decide
  · cases failed

end readers

/-- The entries of a map that have been read, in order and without a repeated key. -/
structure Entries (kvs : List (Item × Item)) (es : List (Obj × Obj)) : Prop where
  fits : FitsEntries kvs
  meaning : denoteEntries kvs = some es
  ascending : Ascending kvs
  distinct : Distinct es
  hashable : ∀ p ∈ es, p.1.hashable = true

/-- A key that may follow entries. -/
structure NextKey (kvs : List (Item × Item)) (es : List (Obj × Obj)) (k : Item) (key : Obj) :
    Prop where
  fits : k.Fits
  meaning : denote k = some key
  hashable : key.hashable = true
  fresh : ∀ p ∈ es, p.1.keyEq key = false
  later : ∀ kv ∈ kvs, kv.1.bytes < k.bytes

/-- Reading these bytes gets, behind items that are all well-formed, to a text that is not UTF-8
or to a map key that is itself an array, a map or a tagged item. -/
inductive Trips : Bytes → Prop where
  | text {b r : Bytes} (fits : b.length < 2 ^ 64)
      (invalid : String.fromUTF8? ⟨b.toArray⟩ = none) :
      Trips (CborItems.head 3 b.length ++ (b ++ r))
  | element {n : Nat} {xs : List Item} {vs : List Obj} {rest : Bytes} (small : n < 2 ^ 64)
      (room : xs.length < n) (fits : FitsAll xs) (meaning : denoteAll xs = some vs)
      (trips : Trips rest) : Trips (CborItems.head 4 n ++ (bytesAll xs ++ rest))
  | key {n : Nat} {kvs : List (Item × Item)} {es : List (Obj × Obj)} {rest : Bytes}
      (small : n < 2 ^ 64) (room : kvs.length < n) (read : Entries kvs es)
      (trips : Trips rest) : Trips (CborItems.head 5 n ++ (bytesEntries kvs ++ rest))
  | container {n : Nat} {kvs : List (Item × Item)} {es : List (Obj × Obj)} {k : Item}
      {key : Obj} {rest : Bytes} (small : n < 2 ^ 64) (room : kvs.length < n)
      (read : Entries kvs es) (fits : k.Fits) (meaning : denote k = some key)
      (unhashable : key.hashable = false) :
      Trips (CborItems.head 5 n ++ (bytesEntries kvs ++ (k.bytes ++ rest)))
  | value {n : Nat} {kvs : List (Item × Item)} {es : List (Obj × Obj)} {k : Item} {key : Obj}
      {rest : Bytes} (small : n < 2 ^ 64) (room : kvs.length < n) (read : Entries kvs es)
      (next : NextKey kvs es k key) (trips : Trips rest) :
      Trips (CborItems.head 5 n ++ (bytesEntries kvs ++ (k.bytes ++ rest)))
  | tagged {n : Nat} {rest : Bytes} (small : n < 2 ^ 64) (trips : Trips rest) :
      Trips (CborItems.head 6 n ++ rest)

/-- Elements that have been read do not change how the rest of an array fails. -/
theorem many_fails {depth n : Nat} {e : PyErr} {rest : Bytes} :
    ∀ (xs : List Item) {vs : List Obj}, FitsAll xs → denoteAll xs = some vs →
      (bytesAll xs).length ≤ depth → item depth rest = .error e →
      readMany (item depth) (xs.length + (n + 1)) (bytesAll xs ++ rest) = .error e
  | [], vs, _, _, _, failed => by
    rw [List.length_nil, Nat.zero_add, bytesAll, List.nil_append, readMany]
    exact reader_error.mpr (.inl failed)
  | x :: xs, vs, fits, meaning, room, failed => by
    obtain ⟨v, later, first, meanings, rfl⟩ := denoteAll_cons.mp meaning
    rw [bytesAll, List.length_append] at room
    have read := @item_of x v depth (bytesAll xs ++ rest) fits.1 first (by omega)
    have fails := @many_fails depth n e rest xs later fits.2 meanings (by omega) failed
    rw [List.length_cons, Nat.add_right_comm, bytesAll, List.append_assoc, readMany,
      reader_step read]
    exact reader_error.mpr (.inl fails)

/-- An error that is no `CBORError` and not for want of depth. -/
def Undocumented (e : PyErr) : Prop := ¬ IsCborError e ∧ e ≠ .recursionError

theorem last_below {kvs : List (Item × Item)} {b : Bytes} (later : ∀ kv ∈ kvs, kv.1.bytes < b) :
    ∀ p, lastKey none kvs = some p → p < b := by
  have fold : ∀ (kvs : List (Item × Item)) (previous : Option Bytes),
      (∀ q, previous = some q → q < b) → (∀ kv ∈ kvs, kv.1.bytes < b) →
      ∀ p, lastKey previous kvs = some p → p < b := by
    intro kvs
    induction kvs with
    | nil => exact fun previous below _ => below
    | cons kv rest ih =>
      intro previous below each
      apply ih (some kv.1.bytes) _ fun x inside => each x (List.mem_cons_of_mem _ inside)
      rintro q same
      obtain rfl := Option.some.inj same
      exact each kv List.mem_cons_self
  exact fold kvs none (fun q none_ => by cases none_) later

/-- What has been read of a map leaves the loop at its next entry. -/
theorem entries_left (rest : Bytes) {kvs : List (Item × Item)} {es : List (Obj × Obj)}
    {depth n : Nat} (read : Entries kvs es) (room : kvs.length < n)
    (depth_ : (bytesEntries kvs).length ≤ depth) :
    ∃ m, readEntries (item depth) n [] none (bytesEntries kvs ++ rest) =
      readEntries (item depth) (m + 1) es (lastKey none kvs) rest := by
  obtain ⟨m, rfl⟩ := Nat.exists_eq_add_of_lt room
  have left := @entries_of kvs es [] none depth rest (m + 1) read.fits read.meaning depth_
    (by simp [After]) read.ascending read.distinct read.hashable (by simp)
  exact ⟨m, left⟩

/-- What has been read of a key leaves the loop at the lookup. -/
theorem key_read {k : Item} {key : Obj} {depth m : Nat} {rest : Bytes} {out : List (Obj × Obj)}
    {previous : Option Bytes} {e : PyErr} (fits : k.Fits) (meaning : denote k = some key)
    (depth_ : k.bytes.length ≤ depth)
    (failed : member key out = .error e ∨ member key out = .ok false ∧
      outOfOrder previous k.bytes = false ∧ item depth rest = .error e) :
    readEntries (item depth) (m + 1) out previous (k.bytes ++ rest) = .error e := by
  have got : ∀ bs : Bytes, (get : Reader Bytes) bs = .ok (bs, bs) := fun _ => rfl
  have spent : (k.bytes ++ rest).take ((k.bytes ++ rest).length - rest.length) = k.bytes := by
    rw [List.length_append, Nat.add_sub_cancel, List.take_left]
  have first := @item_of k key depth rest fits meaning depth_
  rw [readEntries, reader_step (got _), reader_step first, reader_step (got _), spent]
  rcases failed with unhashable | ⟨fresh, ordered, failed⟩
  · exact reader_error.mpr (.inl (reader_lift_error.mpr unhashable))
  · have known : (liftM (member key out) : Reader Bool) rest = .ok (false, rest) :=
      reader_lift.mpr ⟨false, fresh, rfl⟩
    rw [reader_step known, if_neg (by decide), ordered, if_neg (by decide)]
    exact reader_error.mpr (.inl failed)

/-- Bytes that trip the reader make it fail with something undocumented, at any sufficient depth. -/
theorem trips_fails {bs : Bytes} (trips : Trips bs) :
    ∃ e, Undocumented e ∧ ∀ depth, bs.length < depth → item depth bs = .error e := by
  induction trips with
  | @text b r fits invalid =>
    have error : utf8Text b = .error .unicodeDecodeError := by
      rw [utf8Text, invalid]
    refine ⟨.unicodeDecodeError, ⟨by decide, by decide⟩, fun depth deep => ?_⟩
    obtain ⟨depth, rfl⟩ := Nat.exists_eq_succ_of_ne_zero (show depth ≠ 0 by omega)
    have taken : take b.length (b ++ r) = .ok (b, r) := take_ok.mpr ⟨rfl, rfl⟩
    rw [item_head (by decide) fits, content, reader_step taken]
    exact reader_error.mpr (.inl (reader_lift_error.mpr error))
  | @element n xs vs rest small room fits meaning trips ih =>
    obtain ⟨e, undocumented, fails⟩ := ih
    refine ⟨e, undocumented, fun depth deep => ?_⟩
    obtain ⟨depth, rfl⟩ := Nat.exists_eq_succ_of_ne_zero (show depth ≠ 0 by omega)
    rw [List.length_append, head_length, List.length_append] at deep
    obtain ⟨m, rfl⟩ := Nat.exists_eq_add_of_lt room
    rw [item_head (by decide) small, content]
    exact reader_error.mpr (.inl (many_fails xs fits meaning (by omega) (fails depth (by omega))))
  | @key n kvs es rest small room read trips ih =>
    obtain ⟨e, undocumented, fails⟩ := ih
    refine ⟨e, undocumented, fun depth deep => ?_⟩
    obtain ⟨depth, rfl⟩ := Nat.exists_eq_succ_of_ne_zero (show depth ≠ 0 by omega)
    rw [List.length_append, head_length, List.length_append] at deep
    obtain ⟨m, left⟩ := entries_left rest read room (show _ ≤ depth by omega)
    have got : (get : Reader Bytes) rest = .ok (rest, rest) := rfl
    rw [item_head (by decide) small, content]
    refine reader_error.mpr (.inl ?_)
    rw [left, readEntries, reader_step got]
    exact reader_error.mpr (.inl (fails depth (by omega)))
  | @container n kvs es k key rest small room read fits meaning unhashable =>
    refine ⟨.typeError, ⟨by decide, by decide⟩, fun depth deep => ?_⟩
    obtain ⟨depth, rfl⟩ := Nat.exists_eq_succ_of_ne_zero (show depth ≠ 0 by omega)
    rw [List.length_append, head_length, List.length_append, List.length_append] at deep
    obtain ⟨m, left⟩ := entries_left (k.bytes ++ rest) read room (show _ ≤ depth by omega)
    have error : member key es = .error .typeError := by
      rw [member, unhashable, if_neg (by decide)]
    rw [item_head (by decide) small, content]
    refine reader_error.mpr (.inl ?_)
    rw [left]
    exact key_read fits meaning (by omega) (.inl error)
  | @value n kvs es k key rest small room read next trips ih =>
    obtain ⟨e, undocumented, fails⟩ := ih
    refine ⟨e, undocumented, fun depth deep => ?_⟩
    obtain ⟨depth, rfl⟩ := Nat.exists_eq_succ_of_ne_zero (show depth ≠ 0 by omega)
    rw [List.length_append, head_length, List.length_append, List.length_append] at deep
    obtain ⟨m, left⟩ := entries_left (k.bytes ++ rest) read room (show _ ≤ depth by omega)
    rw [item_head (by decide) small, content]
    refine reader_error.mpr (.inl ?_)
    rw [left]
    exact key_read next.fits next.meaning (by omega) (.inr ⟨member_of next.hashable next.fresh,
      ordered_of (last_below next.later), fails depth (by omega)⟩)
  | @tagged n rest small trips ih =>
    obtain ⟨e, undocumented, fails⟩ := ih
    refine ⟨e, undocumented, fun depth deep => ?_⟩
    obtain ⟨depth, rfl⟩ := Nat.exists_eq_succ_of_ne_zero (show depth ≠ 0 by omega)
    rw [List.length_append, head_length] at deep
    rw [item_head (by decide) small, content]
    exact reader_error.mpr (.inl (fails depth (by omega)))

/-- An array fails where one of its elements does. -/
theorem many_error {read : Reader Obj} (reads : Reads read) {n : Nat} {rest : Bytes} {e : PyErr}
    (failed : readMany read n rest = .error e) :
    ∃ xs vs rest', xs.length < n ∧ FitsAll xs ∧ denoteAll xs = some vs ∧
      rest = bytesAll xs ++ rest' ∧ read rest' = .error e := by
  induction n generalizing rest with
  | zero => cases failed
  | succ n ih =>
    rcases reader_error.mp failed with here | ⟨v, rest₁, first, failed⟩
    · exact ⟨[], [], rest, by simp, trivial, rfl, rfl, here⟩
    rcases reader_error.mp failed with later | ⟨vs, rest₂, -, failed⟩
    · obtain ⟨x, fits, rfl, meaning⟩ := reads _ _ _ first
      obtain ⟨xs, vs, rest', room, fitsAll, meanings, rfl, there⟩ := ih later
      refine ⟨x :: xs, v :: vs, rest', ?_, ⟨fits, fitsAll⟩, ?_, ?_, there⟩
      · rw [List.length_cons]
        omega
      · exact denoteAll_cons.mpr ⟨v, vs, meaning, meanings, rfl⟩
      · rw [bytesAll, List.append_assoc]
    · cases failed

/-- Where the loop over a map's entries fails: in a key, at its lookup, or in its value. -/
inductive Stops (read : Reader Obj) (out : List (Obj × Obj)) (kvs : List (Item × Item))
    (previous : Option Bytes) (e : PyErr) : Bytes → Prop where
  | key {rest : Bytes} (failed : read rest = .error e) : Stops read out kvs previous e rest
  | container {rest : Bytes} (k : Item) (key : Obj) (fits : k.Fits) (meaning : denote k = some key)
      (unhashable : key.hashable = false) : Stops read out kvs previous e (k.bytes ++ rest)
  | value {rest : Bytes} (k : Item) (key : Obj) (next : NextKey kvs out k key)
      (after : ∀ p, previous = some p → p < k.bytes) (failed : read rest = .error e) :
      Stops read out kvs previous e (k.bytes ++ rest)

theorem stops_cons {read : Reader Obj} {out new : List (Obj × Obj)} {kvs : List (Item × Item)}
    {previous : Option Bytes} {e : PyErr} {rest : Bytes} {k v : Item} {key value : Obj}
    (after : ∀ p, previous = some p → p < k.bytes)
    (stops : Stops read ((out ++ [(key, value)]) ++ new) kvs (some k.bytes) e rest) :
    Stops read (out ++ (key, value) :: new) ((k, v) :: kvs) previous e rest := by
  rw [List.append_assoc, List.singleton_append] at stops
  cases stops with
  | key failed => exact .key failed
  | container k' key' fits meaning unhashable => exact .container k' key' fits meaning unhashable
  | value k' key' next above failed =>
    have higher : k.bytes < k'.bytes := above k.bytes rfl
    refine .value k' key' ⟨next.fits, next.meaning, next.hashable, next.fresh, ?_⟩ ?_ failed
    · intro kv inside
      rcases List.mem_cons.mp inside with rfl | inside
      · exact higher
      · exact next.later kv inside
    · exact fun p same => List.lt_trans (after p same) higher

/-- An entry in front of entries that are read. -/
theorem entries_cons {k v : Item} {key value : Obj} {kvs : List (Item × Item)}
    {new : List (Obj × Obj)} (fitsKey : k.Fits) (meansKey : denote k = some key)
    (hashable : key.hashable = true) (fitsValue : v.Fits) (meansValue : denote v = some value)
    (above : After (some k.bytes) kvs) (differs : ∀ p ∈ new, key.keyEq p.1 = false)
    (read : Entries kvs new) : Entries ((k, v) :: kvs) ((key, value) :: new) := by
  refine ⟨⟨fitsKey, fitsValue, read.fits⟩, ?_, ?_, .cons differs read.distinct, ?_⟩
  · exact denoteEntries_cons.mpr ⟨key, value, new, meansKey, meansValue, read.meaning, rfl⟩
  · rw [Ascending, List.map_cons, List.pairwise_cons]
    refine ⟨?_, read.ascending⟩
    intro b inside
    obtain ⟨kv, member, rfl⟩ := List.mem_map.mp inside
    exact above k.bytes rfl kv member
  · intro p inside
    rcases List.mem_cons.mp inside with rfl | inside
    · exact hashable
    · exact read.hashable p inside

/-- A key that is not hashable raises `TypeError`; any other is looked up. -/
theorem member_cases {key : Obj} {out : List (Obj × Obj)} :
    (key.hashable = false ∧ member key out = .error .typeError) ∨
      key.hashable = true ∧ ∃ known, member key out = .ok known := by
  cases hashable : key.hashable with
  | false => exact .inl ⟨rfl, by rw [member, hashable, if_neg (by decide)]⟩
  | true => exact .inr ⟨rfl, _, by rw [member, hashable, if_pos rfl]⟩

/-- The loop over the entries raises a `CBORError`, or it stops behind entries that are read. -/
theorem entries_error {read : Reader Obj} (reads : Reads read) {n : Nat}
    {out : List (Obj × Obj)} {previous : Option Bytes} {rest : Bytes} {e : PyErr}
    (failed : readEntries read n out previous rest = .error e) :
    IsCborError e ∨ ∃ kvs new rest', kvs.length < n ∧ Entries kvs new ∧ After previous kvs ∧
      (∀ o ∈ out, ∀ p ∈ new, o.1.keyEq p.1 = false) ∧ rest = bytesEntries kvs ++ rest' ∧
      Stops read (out ++ new) kvs previous e rest' := by
  have nothing : Entries [] [] :=
    ⟨trivial, rfl, by simp [Ascending], List.Pairwise.nil, by simp⟩
  induction n generalizing out previous rest with
  | zero => cases failed
  | succ n ih =>
    have here : ∀ {rest}, Stops read out [] previous e rest →
        ∃ kvs new rest', kvs.length < n + 1 ∧ Entries kvs new ∧ After previous kvs ∧
          (∀ o ∈ out, ∀ p ∈ new, o.1.keyEq p.1 = false) ∧ rest = bytesEntries kvs ++ rest' ∧
          Stops read (out ++ new) kvs previous e rest' := by
      intro rest stops
      exact ⟨[], [], rest, by simp, nothing, by simp [After], by simp, rfl, by simpa using stops⟩
    have got : ∀ bs : Bytes, (get : Reader Bytes) bs = .ok (bs, bs) := fun _ => rfl
    rw [readEntries, reader_step (got _)] at failed
    rcases reader_error.mp failed with inKey | ⟨key, rest₁, first, failed⟩
    · exact .inr (here (.key inKey))
    obtain ⟨k, fitsKey, rfl, meansKey⟩ := reads _ _ _ first
    have spent : (k.bytes ++ rest₁).take ((k.bytes ++ rest₁).length - rest₁.length) = k.bytes := by
      rw [List.length_append, Nat.add_sub_cancel, List.take_left]
    rw [reader_step (got _), spent] at failed
    rcases @member_cases key out with ⟨unhashable, -⟩ | ⟨hashable, known, looked⟩
    · exact .inr (here (.container k key fitsKey meansKey unhashable))
    have step : (liftM (member key out) : Reader Bool) rest₁ = .ok (known, rest₁) :=
      reader_lift.mpr ⟨known, looked, rfl⟩
    rw [reader_step step] at failed
    cases known with
    | true =>
      cases failed
      exact .inl (by decide)
    | false =>
      rw [if_neg (by decide)] at failed
      obtain ⟨-, differs⟩ := member_ok looked
      split at failed
      next =>
        cases failed
        exact .inl (by decide)
      next ordered =>
      have after : ∀ p, previous = some p → p < k.bytes := by
        rintro p rfl
        simp only [outOfOrder, decide_eq_true_eq] at ordered
        exact List.not_le.mp ordered
      have next : NextKey [] out k key := ⟨fitsKey, meansKey, hashable, differs, by simp⟩
      rcases reader_error.mp failed with inValue | ⟨value, rest₂, second, later⟩
      · exact .inr (here (.value k key next after inValue))
      obtain ⟨v, fitsValue, rfl, meansValue⟩ := reads _ _ _ second
      rcases ih later with documented | ⟨kvs, new, rest', room, read_, above, apart, rfl, stops⟩
      · exact .inl documented
      refine .inr ⟨(k, v) :: kvs, (key, value) :: new, rest', ?_, ?_, ?_, ?_, ?_,
        stops_cons after stops⟩
      · rw [List.length_cons]
        omega
      · exact entries_cons fitsKey meansKey hashable fitsValue meansValue above
          (apart (key, value) (by simp)) read_
      · rintro p same kv inside
        rcases List.mem_cons.mp inside with rfl | inside
        · exact after p same
        · exact List.lt_trans (after p same) (above k.bytes rfl kv inside)
      · intro o held p inside
        rcases List.mem_cons.mp inside with rfl | inside
        · exact differs o held
        · exact apart o (by simp [held]) p inside
      · simp only [bytesEntries, List.append_assoc]

/-- What a reader raises, if there is depth enough, it raises at a place that trips. -/
def TripsOnly (read : Reader Obj) (depth : Nat) : Prop :=
  ∀ rest e, rest.length < depth → read rest = .error e → IsCborError e ∨ Trips rest

/-- What stands behind a head fails as documented, unless it trips. -/
theorem content_error {depth major n : Nat} {rest : Bytes} {e : PyErr} (small : n < 2 ^ 64)
    (inner : TripsOnly (item depth) depth) (deep : rest.length < depth)
    (failed : content (item depth) major n rest = .error e) :
    IsCborError e ∨ Trips (CborItems.head major n ++ rest) := by
  match major with
  | 0 => cases failed
  | 1 => cases failed
  | 2 =>
    rcases reader_error.mp failed with short | ⟨b, rest₁, -, failed⟩
    · exact .inl (documented_take _ _ e short)
    · cases failed
  | 3 =>
    rcases reader_error.mp failed with short | ⟨b, rest₁, taken, failed⟩
    · exact .inl (documented_take _ _ e short)
    rcases reader_error.mp failed with invalid | ⟨s, rest₂, -, failed⟩
    · obtain ⟨rfl, rfl⟩ := take_ok.mp taken
      have undecodable := reader_lift_error.mp invalid
      rw [utf8Text] at undecodable
      split at undecodable
      next => cases undecodable
      next none_ => exact .inr (.text small none_)
    · cases failed
  | 4 =>
    rcases reader_error.mp failed with inside | ⟨vs, rest₁, -, failed⟩
    · obtain ⟨xs, vs, rest', room, fits, meaning, rfl, there⟩ := many_error (item_ok depth) inside
      rw [List.length_append] at deep
      rcases inner rest' e (by omega) there with documented | trips
      · exact .inl documented
      · exact .inr (.element small room fits meaning trips)
    · cases failed
  | 5 =>
    rcases reader_error.mp failed with inside | ⟨es, rest₁, -, failed⟩
    · rcases entries_error (item_ok depth) inside with documented |
        ⟨kvs, new, rest', room, read, -, -, rfl, stops⟩
      · exact .inl documented
      rw [List.length_append] at deep
      cases stops with
      | key there =>
        rcases inner rest' e (by omega) there with documented | trips
        · exact .inl documented
        · exact .inr (.key small room read trips)
      | container k key fits meaning unhashable =>
        exact .inr (.container small room read fits meaning unhashable)
      | @value rest'' k key next after there =>
        rw [List.length_append] at deep
        rcases inner rest'' e (by omega) there with documented | trips
        · exact .inl documented
        · exact .inr (.value small room read next trips)
    · cases failed
  | 6 =>
    rcases reader_error.mp failed with inside | ⟨v, rest₁, -, failed⟩
    · rcases inner rest e deep inside with documented | trips
      · exact .inl documented
      · exact .inr (.tagged small trips)
    · cases failed
  | major + 7 =>
    cases failed
    exact .inl trivial

/-- An item fails as documented, unless it trips; the induction is on the depth. -/
theorem item_error (depth : Nat) : TripsOnly (item depth) depth := by
  induction depth with
  | zero =>
    intro rest e deep
    cases deep
  | succ depth ih =>
    intro rest e deep failed
    rcases reader_error.mp failed with short | ⟨first, rest₁, taken, later⟩
    · exact .inl (documented_take _ _ e short)
    obtain ⟨whole, one⟩ := take_ok.mp taken
    obtain ⟨b, rfl⟩ := List.length_eq_one_iff.mp one
    subst whole
    have byte : b.toNat < 256 := b.toNat_lt
    simp only [initial_byte, shift_5, and_31] at later
    split at later
    next special => exact .inl (documented_simple _ e (reader_lift_error.mp later))
    next ordinary =>
      rcases reader_error.mp later with malformed | ⟨n, rest₂, head_, content_⟩
      · exact .inl (documented_argument _ _ e malformed)
      obtain ⟨small, code, split_⟩ := argument_ok byte head_
      have whole : b.toNat / 32 * 32 + info n = b.toNat := by omega
      have start : [b] ++ rest₁ = CborItems.head (b.toNat / 32) n ++ rest₂ := by
        rw [CborItems.head, whole, UInt8.ofNat_toNat, split_]
        simp
      rw [start, List.length_append, head_length] at deep
      rw [start]
      exact content_error small ih (by omega) content_

/-- What a call leaves is what stood behind the bytes it took. -/
def Consumes {A : Type} (m : Reader A) : Prop :=
  ∀ rest a rest', m rest = .ok (a, rest') → rest' <:+ rest

/-- What is left behind both readers stood behind what the first has left. -/
theorem consumes_bind {A B : Type} {x : Reader A} {f : A → Reader B} (first : Consumes x)
    (then_ : ∀ a, Consumes (f a)) : Consumes (x >>= f) := by
  intro rest b rest' read
  obtain ⟨a, rest₁, one, two⟩ := reader_bind.mp read
  exact (then_ a _ _ _ two).trans (first _ _ _ one)

theorem consumes_pure {A : Type} (a : A) : Consumes (pure a : Reader A) := by
  intro rest a' rest' read
  cases reader_pure.mp read
  exact List.suffix_refl _

theorem consumes_throw {A : Type} (e : PyErr) : Consumes (throw e : Reader A) :=
  fun _ _ _ read => absurd read reader_throw

theorem consumes_lift {A : Type} (x : Py A) : Consumes (liftM x : Reader A) := by
  intro rest a rest' read
  obtain ⟨a', -, same⟩ := reader_lift.mp read
  cases same
  exact List.suffix_refl _

theorem consumes_take (n : Nat) : Consumes (take n) := by
  intro rest chunk rest' read
  obtain ⟨whole, -⟩ := take_ok.mp read
  exact ⟨chunk, whole.symm⟩

theorem consumes_argument (initial : Nat) : Consumes (Cbor.argument initial) := by
  rw [Cbor.argument]
  split
  · exact consumes_pure _
  split
  · exact consumes_throw _
  split
  · exact consumes_throw _
  refine consumes_bind (consumes_take _) fun taken => consumes_bind (consumes_lift _) fun m => ?_
  split
  · exact consumes_throw _
  · exact consumes_pure _

structure AsDocumented (b : Bytes) : Prop where
  outcome : (∃ v, decode b = .ok v) ∨ ∃ e, decode b = .error e ∧ IsCborError e
  /-- A chunk that is taken lies within the input. -/
  chunks : ∀ n rest chunk rest', take n rest = .ok (chunk, rest') →
    rest = chunk ++ rest' ∧ chunk.length = n
  arguments : ∀ initial, Consumes (Cbor.argument initial)
  items : ∀ depth rest v rest', item depth rest = .ok (v, rest') →
    rest' <:+ rest ∧ rest'.length < rest.length

theorem not_documented {b : Bytes} {e : PyErr} (failed : decode b = .error e)
    (undocumented : ¬ IsCborError e) : ¬ AsDocumented b := by
  intro documented
  rcases documented.outcome with ⟨v, read⟩ | ⟨e', failed', isCbor⟩
  · cases failed.symm.trans read
  · cases failed.symm.trans failed'
    exact undocumented isCbor

theorem trips_undocumented {b : Bytes} (trips : Trips b) :
    ∃ e, decode b = .error e ∧ ¬ IsCborError e := by
  obtain ⟨e, ⟨undocumented, -⟩, fails⟩ := trips_fails trips
  refine ⟨e, ?_, undocumented⟩
  rw [decode, fails _ (Nat.lt_succ_self _)]
  rfl

/-- Decoding fails as documented, except where it trips over a text or a key. -/
theorem decode_documented_iff (b : Bytes) : AsDocumented b ↔ ¬ Trips b := by
  constructor
  · intro documented trips
    obtain ⟨e, failed, undocumented⟩ := trips_undocumented trips
    exact not_documented failed undocumented documented
  · intro steady
    refine ⟨?_, fun n rest chunk rest' read => take_ok.mp read, consumes_argument, ?_⟩
    · cases read : item (b.length + 1) b with
      | error e =>
        have documented := (item_error (b.length + 1) b e (Nat.lt_succ_self _) read).resolve_right
          steady
        exact .inr ⟨e, by rw [decode, read]; rfl, documented⟩
      | ok p =>
        obtain ⟨v, rest⟩ := p
        cases rest with
        | nil => exact .inl ⟨v, by rw [decode, read]; rfl⟩
        | cons x rest =>
          exact .inr ⟨.valueError "trailing bytes after top-level item",
            by rw [decode, read]; rfl, by decide⟩
    · intro depth rest v rest' read
      obtain ⟨t, -, rfl, -⟩ := item_ok depth rest v rest' read
      have positive := bytes_pos t
      refine ⟨List.suffix_append _ _, ?_⟩
      rw [List.length_append]
      omega

/-- A map with an array as its key raises `TypeError`, and a text of the byte `ff`
`UnicodeDecodeError`. -/
theorem decode_undocumented :
    decode [0xa1, 0x80, 0x00] = .error .typeError ∧ ¬ AsDocumented [0xa1, 0x80, 0x00] ∧
    decode [0x61, 0xff] = .error .unicodeDecodeError ∧ ¬ AsDocumented [0x61, 0xff] := by
  have array : decode [0xa1, 0x80, 0x00] = .error .typeError := by rfl
  have text : decode [0x61, 0xff] = .error .unicodeDecodeError := by rfl
  exact ⟨array, not_documented array (by decide), text, not_documented text (by decide)⟩

end CborFailures
