import Custody.CborMeaning

/-!
# Round trips of CBOR

What is decoded encodes to the bytes it came from, unless a map has null as a key:
the decoder takes any key that can be hashed, the encoder none but numbers, texts and
byte strings. What is encoded decodes to the value with lists for tuples, byte strings
for byte arrays and dictionaries in the order of their encoded keys.
-/

namespace CborRoundTrip

open PyValue HexBytes CborItems CborItems.Item Cbor CborMeaning

def isNull : Item → Bool
  | .simple n => n == 22
  | _ => false

mutual
/-- No map has null as a key, at any depth. -/
def nullFree : Item → Bool
  | .array xs => nullFreeAll xs
  | .map kvs => nullFreeEntries kvs
  | .tag _ x => nullFree x
  | _ => true
termination_by structural x => x

def nullFreeAll : List Item → Bool
  | [] => true
  | x :: xs => nullFree x && nullFreeAll xs
termination_by structural xs => xs

def nullFreeEntries : List (Item × Item) → Bool
  | [] => true
  | (k, v) :: rest => !isNull k && nullFree k && nullFree v && nullFreeEntries rest
termination_by structural kvs => kvs
end

/-- The bytes are not those of an item in which a map has null as a key. -/
def NullFree (data : Bytes) : Prop :=
  ∀ t : Item, t.Fits → t.bytes = data → nullFree t = true

theorem encode_head {major : Nat} {n : Nat} (fits : n < 2 ^ 64) :
    Cbor.head major n = .ok (CborItems.head major n) := by
  rw [head_ok]
  exact ⟨by omega, by omega, rfl⟩

/-- The simple values are written as their one byte. -/
theorem encode_simple {n : Nat} {v : Obj} (meaning : denoteSimple n = some v) :
    encode v = .ok (Item.simple n).bytes := by
  rw [denoteSimple] at meaning
  split at meaning
  next same =>
    subst same
    obtain rfl := Option.some.inj meaning
    rfl
  split at meaning
  next same =>
    subst same
    obtain rfl := Option.some.inj meaning
    rfl
  split at meaning
  next same =>
    subst same
    obtain rfl := Option.some.inj meaning
    rfl
  next => cases meaning

/-- The keys that a map can have are those of `encode`, and null. -/
theorem isKey_of {k : Item} {key : Obj} (meaning : denote k = some key)
    (hashable : key.hashable = true) : key.isKey = !isNull k := by
  cases k with
  | uint n =>
    obtain rfl := Option.some.inj meaning
    rfl
  | nint n =>
    obtain rfl := Option.some.inj meaning
    rfl
  | bstr b =>
    obtain rfl := Option.some.inj meaning
    rfl
  | tstr b =>
    obtain ⟨s, -, rfl⟩ := denote_tstr.mp meaning
    rfl
  | array xs =>
    obtain ⟨vs, -, rfl⟩ := Option.map_eq_some_iff.mp meaning
    cases hashable
  | map kvs =>
    obtain ⟨es, -, -, -, -, rfl⟩ := denote_map.mp meaning
    cases hashable
  | tag n x =>
    obtain ⟨v, -, rfl⟩ := Option.map_eq_some_iff.mp meaning
    cases hashable
  | simple n =>
    have meaning' : denoteSimple n = some key := meaning
    rw [denoteSimple] at meaning'
    split at meaning'
    next same =>
      subst same
      obtain rfl := Option.some.inj meaning'
      rfl
    split at meaning'
    next same =>
      subst same
      obtain rfl := Option.some.inj meaning'
      rfl
    split at meaning'
    next same =>
      subst same
      obtain rfl := Option.some.inj meaning'
      rfl
    next => cases meaning'

/-- The entries of a map as `encodeEntries` collects them. -/
def collected (kvs : List (Item × Item)) : List (Bytes × Py Bytes) :=
  kvs.map fun p => (p.1.bytes, .ok p.2.bytes)

/-- The parts of a map are its keys and values, one behind the other. -/
theorem parts_flatten (kvs : List (Item × Item)) :
    ((collected kvs).mapM fun x => do pure (x.1 ++ (← x.2))) =
      Except.ok (kvs.map fun p => p.1.bytes ++ p.2.bytes) := by
  induction kvs with
  | nil => rfl
  | cons p rest ih =>
    rw [collected, List.map_cons, List.mapM_cons]
    change (_ >>= fun _ => (collected rest).mapM _ >>= _) = _
    rw [ih]
    rfl

theorem bytesEntries_flatten (kvs : List (Item × Item)) :
    (kvs.map fun p => p.1.bytes ++ p.2.bytes).flatten = bytesEntries kvs := by
  induction kvs with
  | nil => rfl
  | cons p rest ih =>
    rw [List.map_cons, List.flatten_cons, ih, bytesEntries, List.append_assoc]

/-- Collected entries with distinct keys are written in the order of the keys. -/
theorem encodeEntries_of {pairs : List (Obj × Py Bytes × Py Bytes)} {kvs : List (Item × Item)}
    {items : List (Bytes × Py Bytes)}
    (made : (pairs.mapM fun x =>
      if x.1.isKey then do pure (← x.2.1, x.2.2)
      else throw (.valueError ("unsupported map key type " ++ x.1.typeName))) = Except.ok items)
    (sorted : (items.insertionSort fun a b => a.1 ≤ b.1) = collected kvs)
    (distinct : (items.map Prod.fst).Nodup) (fits : kvs.length < 2 ^ 64) :
    encodeEntries pairs = .ok (Item.map kvs).bytes := by
  have length : items.length = kvs.length := by
    rw [← List.length_insertionSort (fun a b : Bytes × Py Bytes => a.1 ≤ b.1) items, sorted,
      collected, List.length_map]
  rw [encodeEntries, made, ok_bind, if_neg (not_not.mpr distinct), length, encode_head fits,
    ok_bind, sorted, parts_flatten, ok_bind, bytesEntries_flatten, bytes]
  rfl

/-- What `encodeEntries` collects first. -/
def collect (pairs : List (Obj × Py Bytes × Py Bytes)) : Py (List (Bytes × Py Bytes)) :=
  pairs.mapM fun x =>
    if x.1.isKey then do pure (← x.2.1, x.2.2)
    else throw (.valueError ("unsupported map key type " ++ x.1.typeName))

/-- A map in ascending order is not sorted again. -/
theorem sorted_collected {kvs : List (Item × Item)} (ascending : Ascending kvs) :
    ((collected kvs).insertionSort fun a b => a.1 ≤ b.1) = collected kvs ∧
    ((collected kvs).map Prod.fst).Nodup := by
  have keys : (collected kvs).map Prod.fst = kvs.map fun p => p.1.bytes := by
    rw [collected, List.map_map]
    rfl
  constructor
  · apply List.Pairwise.insertionSort_eq
    have below : ((collected kvs).map Prod.fst).Pairwise (· ≤ ·) := by
      rw [keys]
      exact ascending.imp fun less => List.le_of_lt less
    exact List.pairwise_map.mp below
  · rw [keys]
    apply ascending.imp
    intro a b less same
    exact List.lt_irrefl b (same ▸ less)

mutual
/-- An item without null keys is what encoding its meaning writes; the induction is on the item. -/
theorem encode_of_denote : ∀ (t : Item) {v : Obj}, t.Fits → denote t = some v →
    nullFree t = true → encode v = .ok t.bytes
  | .uint n, v, fits, meaning, free => by
    obtain rfl := Option.some.inj meaning
    rw [encode, if_pos (by omega), encode_head fits, bytes]
  | .nint n, v, fits, meaning, free => by
    obtain rfl := Option.some.inj meaning
    have back : -(-(n : Int) - 1) - 1 = n := by omega
    rw [encode, if_neg (by omega), back, encode_head fits, bytes]
  | .bstr b, v, fits, meaning, free => by
    obtain rfl := Option.some.inj meaning
    rw [encode, encode_head fits, bytes]
    rfl
  | .tstr b, v, fits, meaning, free => by
    obtain ⟨s, valid, rfl⟩ := denote_tstr.mp meaning
    rw [encode, utf8Text_ok.mp valid, encode_head fits, bytes]
    rfl
  | .array xs, v, fits, meaning, free => by
    obtain ⟨vs, meanings, rfl⟩ := Option.map_eq_some_iff.mp meaning
    obtain ⟨length, written⟩ := encodeAll_of_denote xs fits.2 meanings free
    rw [encode, length, encode_head fits.1, written, bytes]
    rfl
  | .map kvs, v, fits, meaning, free => by
    obtain ⟨es, meanings, ascending, -, hashable, rfl⟩ := denote_map.mp meaning
    obtain ⟨sorted, distinct⟩ := sorted_collected ascending
    rw [encode]
    exact encodeEntries_of (encodePairs_of_denote kvs fits.2 meanings hashable free) sorted
      distinct fits.1
  | .tag n x, v, fits, meaning, free => by
    obtain ⟨value, inner, rfl⟩ := Option.map_eq_some_iff.mp meaning
    rw [encode, encode_head fits.1, encode_of_denote x fits.2 inner free, bytes]
    rfl
  | .simple n, v, fits, meaning, free => encode_simple meaning
termination_by structural t => t

theorem encodeAll_of_denote : ∀ (ts : List Item) {vs : List Obj}, FitsAll ts →
    denoteAll ts = some vs → nullFreeAll ts = true →
    vs.length = ts.length ∧ encodeAll vs = .ok (bytesAll ts)
  | [], vs, fits, meaning, free => by
    obtain rfl := Option.some.inj meaning
    exact ⟨rfl, rfl⟩
  | t :: ts, vs, fits, meaning, free => by
    obtain ⟨v, rest, first, later, rfl⟩ := denoteAll_cons.mp meaning
    rw [nullFreeAll, Bool.and_eq_true] at free
    obtain ⟨length, written⟩ := encodeAll_of_denote ts fits.2 later free.2
    refine ⟨by rw [List.length_cons, length, List.length_cons], ?_⟩
    rw [encodeAll, encode_of_denote t fits.1 first free.1, written, bytesAll]
    rfl
termination_by structural ts => ts

/-- The same for the entries of a map. -/
theorem encodePairs_of_denote : ∀ (kvs : List (Item × Item)) {es : List (Obj × Obj)},
    FitsEntries kvs → denoteEntries kvs = some es → (∀ p ∈ es, p.1.hashable = true) →
    nullFreeEntries kvs = true → collect (encodePairs es) = .ok (collected kvs)
  | [], es, fits, meaning, hashable, free => by
    obtain rfl := Option.some.inj meaning
    rfl
  | (k, v) :: rest, es, fits, meaning, hashable, free => by
    obtain ⟨key, value, later, meansKey, meansValue, meanings, rfl⟩ := denoteEntries_cons.mp meaning
    simp only [nullFreeEntries, Bool.and_eq_true] at free
    obtain ⟨⟨⟨notNull, freeKey⟩, freeValue⟩, freeRest⟩ := free
    have isKey : key.isKey = true := by
      rw [isKey_of meansKey (hashable (key, value) List.mem_cons_self), notNull]
    have more := encodePairs_of_denote rest fits.2.2 meanings
      (fun p inside => hashable p (List.mem_cons_of_mem _ inside)) freeRest
    rw [encodePairs, collect, List.mapM_cons, if_pos isKey,
      encode_of_denote k fits.1 meansKey freeKey, encode_of_denote v fits.2.1 meansValue freeValue]
    change (_ >>= fun first => collect (encodePairs later) >>= _) = _
    rw [more]
    rfl
termination_by structural kvs => kvs
end

theorem mem_insertionSort_mapM {items : List (Bytes × Py Bytes)} {parts : List Bytes}
    (made : ((items.insertionSort fun a b => a.1 ≤ b.1).mapM fun x => do
      pure (x.1 ++ (← x.2))) = Except.ok parts) :
    ∀ x ∈ items, ∃ b, x.2 = .ok b := by
  intro x inside
  obtain ⟨part, -, made⟩ := mapM_ok_mem made ((List.mem_insertionSort _).mpr inside)
  obtain ⟨b, written, -⟩ := bind_ok.mp made
  exact ⟨b, written⟩

/-- Every key is of a kind that is written, and every key and value is written. -/
theorem encodePairs_each : ∀ {kvs : List (Obj × Obj)} {items : List (Bytes × Py Bytes)},
    collect (encodePairs kvs) = .ok items → (∀ x ∈ items, ∃ b, x.2 = .ok b) →
    ∀ p ∈ kvs, p.1.isKey = true ∧ (∃ b, encode p.1 = .ok b) ∧ ∃ b, encode p.2 = .ok b := by
  intro kvs
  induction kvs with
  | nil =>
    intro items _ _ p inside
    cases inside
  | cons kv rest ih =>
    intro items made written p inside
    obtain ⟨key, value⟩ := kv
    rw [encodePairs, collect, List.mapM_cons] at made
    obtain ⟨first, head_, made⟩ := bind_ok.mp made
    obtain ⟨later, rest_, made⟩ := bind_ok.mp made
    obtain rfl := Except.ok.inj made
    rcases List.mem_cons.mp inside with rfl | inside
    · split at head_
      next isKey =>
        obtain ⟨b, keyWritten, same⟩ := bind_ok.mp head_
        obtain rfl := Except.ok.inj same
        exact ⟨isKey, ⟨b, keyWritten⟩, written _ List.mem_cons_self⟩
      next => cases head_
    · exact ih rest_ (fun x member => written x (List.mem_cons_of_mem _ member)) p inside

/-- Entries that were written have distinct keys of the allowed kinds. -/
theorem encodeEntries_ok {kvs : List (Obj × Obj)} {b : Bytes}
    (written : encodeEntries (encodePairs kvs) = .ok b) :
    ∃ items, collect (encodePairs kvs) = .ok items ∧ (items.map Prod.fst).Nodup ∧
      items.length < 2 ^ 64 ∧
      ∀ p ∈ kvs, p.1.isKey = true ∧ (∃ b, encode p.1 = .ok b) ∧ ∃ b, encode p.2 = .ok b := by
  obtain ⟨items, made, written⟩ := bind_ok.mp written
  split at written
  next => cases written
  next distinct =>
    obtain ⟨start, counted, written⟩ := bind_ok.mp written
    obtain ⟨parts, joined, written⟩ := bind_ok.mp written
    obtain ⟨-, fits, -⟩ := head_ok.mp counted
    exact ⟨items, made, not_not.mp distinct, by omega,
      encodePairs_each made (mem_insertionSort_mapM joined)⟩

mutual
/-- A value that can be written has no null key. -/
theorem nullFree_of_encode : ∀ (t : Item) {v : Obj} {b : Bytes}, denote t = some v →
    encode v = .ok b → nullFree t = true
  | .uint n, _, _, _, _ | .nint n, _, _, _, _ | .bstr _, _, _, _, _ | .tstr _, _, _, _, _
  | .simple _, _, _, _, _ => rfl
  | .array xs, v, b, meaning, written => by
    obtain ⟨vs, meanings, rfl⟩ := Option.map_eq_some_iff.mp meaning
    rw [encode] at written
    obtain ⟨start, -, written⟩ := bind_ok.mp written
    obtain ⟨rest, written, -⟩ := bind_ok.mp written
    exact nullFreeAll_of_encode xs meanings written
  | .map kvs, v, b, meaning, written => by
    obtain ⟨es, meanings, -, -, hashable, rfl⟩ := denote_map.mp meaning
    rw [encode] at written
    obtain ⟨items, -, -, -, each⟩ := encodeEntries_ok written
    exact nullFreeEntries_of_encode kvs meanings hashable each
  | .tag n x, v, b, meaning, written => by
    obtain ⟨value, inner, rfl⟩ := Option.map_eq_some_iff.mp meaning
    rw [encode] at written
    obtain ⟨start, -, written⟩ := bind_ok.mp written
    obtain ⟨rest, written, -⟩ := bind_ok.mp written
    exact nullFree_of_encode x inner written
termination_by structural t => t

theorem nullFreeAll_of_encode : ∀ (ts : List Item) {vs : List Obj} {b : Bytes},
    denoteAll ts = some vs → encodeAll vs = .ok b → nullFreeAll ts = true
  | [], _, _, _, _ => rfl
  | t :: ts, vs, b, meaning, written => by
    obtain ⟨v, rest, first, later, rfl⟩ := denoteAll_cons.mp meaning
    rw [encodeAll] at written
    obtain ⟨start, head_, written⟩ := bind_ok.mp written
    obtain ⟨tail, rest_, -⟩ := bind_ok.mp written
    rw [nullFreeAll, nullFree_of_encode t first head_, nullFreeAll_of_encode ts later rest_]
    rfl
termination_by structural ts => ts

theorem nullFreeEntries_of_encode : ∀ (kvs : List (Item × Item)) {es : List (Obj × Obj)},
    denoteEntries kvs = some es → (∀ p ∈ es, p.1.hashable = true) →
    (∀ p ∈ es, p.1.isKey = true ∧ (∃ b, encode p.1 = .ok b) ∧ ∃ b, encode p.2 = .ok b) →
    nullFreeEntries kvs = true
  | [], _, _, _, _ => rfl
  | (k, v) :: rest, es, meaning, hashable, each => by
    obtain ⟨key, value, later, meansKey, meansValue, meanings, rfl⟩ := denoteEntries_cons.mp meaning
    obtain ⟨isKey, ⟨bk, keyWritten⟩, ⟨bv, valueWritten⟩⟩ := each (key, value) List.mem_cons_self
    have notNull : isNull k = false := by
      rw [isKey_of meansKey (hashable (key, value) List.mem_cons_self)] at isKey
      simpa using isKey
    rw [nullFreeEntries, notNull, nullFree_of_encode k meansKey keyWritten,
      nullFree_of_encode v meansValue valueWritten,
      nullFreeEntries_of_encode rest meanings
        (fun p inside => hashable p (List.mem_cons_of_mem _ inside))
        (fun p inside => each p (List.mem_cons_of_mem _ inside))]
    rfl
termination_by structural kvs => kvs
end

/-- Decoding is undone by encoding exactly where no map has null as a key. -/
theorem decode_undone_iff {data : Bytes} {v : Obj} (read : decode data = .ok v) :
    encode v = .ok data ↔ NullFree data := by
  obtain ⟨t, fits, rfl, meaning⟩ := decode_ok.mp read
  constructor
  · intro written t' fits' same
    have whole : t'.bytes ++ [] = t.bytes ++ [] := by rw [same]
    obtain ⟨rfl, -⟩ := bytes_inj t' t fits' fits whole
    exact nullFree_of_encode t' meaning written
  · intro free
    exact encode_of_denote t fits meaning (free t fits rfl)

theorem decode_undone_sample :
    encode (.dict [(.text "a", .int 1)]) = .ok [0xa1, 0x61, 0x61, 0x01] ↔
      NullFree [0xa1, 0x61, 0x61, 0x01] := by
  apply decode_undone_iff
  apply decode_ok.mpr
  refine ⟨.map [(.tstr [0x61], .uint 1)], by simp [Fits, FitsEntries], rfl, ?_⟩
  rfl

/-- A map with null as a key is accepted, and cannot be written again. -/
theorem null_key_accepted : ∃ v, decode [0xa1, 0xf6, 0x00] = .ok v ∧
    encode v ≠ .ok [0xa1, 0xf6, 0x00] := by
  refine ⟨.dict [(.none, .int 0)], rfl, ?_⟩
  intro written
  cases written

mutual
/-- Dictionaries have keys that can be hashed and differ, as they always have. -/
def Formed : Obj → Prop
  | .list xs => FormedAll xs
  | .tuple xs => FormedAll xs
  | .dict kvs => Distinct kvs ∧ FormedEntries kvs
  | .tagged _ v => Formed v
  | _ => True
termination_by structural v => v

def FormedAll : List Obj → Prop
  | [] => True
  | x :: xs => Formed x ∧ FormedAll xs
termination_by structural xs => xs

def FormedEntries : List (Obj × Obj) → Prop
  | [] => True
  | (k, v) :: rest => k.hashable = true ∧ Formed v ∧ FormedEntries rest
termination_by structural kvs => kvs
end

/-- What a key is sorted by. -/
def keyBytes (k : Obj) : Bytes :=
  match encode k with
  | .ok b => b
  | .error _ => []

mutual
/-- Lists for tuples, byte strings for byte arrays, dictionaries in the order of their encoded
keys. -/
def plain : Obj → Obj
  | .bytearray b => .bytes b
  | .list xs => .list (plainAll xs)
  | .tuple xs => .list (plainAll xs)
  | .dict kvs => .dict ((plainEntries kvs).insertionSort fun a b => keyBytes a.1 ≤ keyBytes b.1)
  | .tagged n v => .tagged n (plain v)
  | v => v
termination_by structural v => v

def plainAll : List Obj → List Obj
  | [] => []
  | x :: xs => plain x :: plainAll xs
termination_by structural xs => xs

def plainEntries : List (Obj × Obj) → List (Obj × Obj)
  | [] => []
  | (k, v) :: rest => (k, plain v) :: plainEntries rest
termination_by structural kvs => kvs
end

mutual
/-- The second value is the first one up to tuples, byte arrays and the order of dictionaries. -/
inductive Same : Obj → Obj → Prop where
  | refl (v : Obj) : Same v v
  | bytearray (b : Bytes) : Same (.bytearray b) (.bytes b)
  | list {xs ys : List Obj} (each : SameAll xs ys) : Same (.list xs) (.list ys)
  | tuple {xs ys : List Obj} (each : SameAll xs ys) : Same (.tuple xs) (.list ys)
  | dict {kvs kvs' kvs'' : List (Obj × Obj)} (each : SameEntries kvs kvs')
      (order : kvs'.Perm kvs'') : Same (.dict kvs) (.dict kvs'')
  | tagged (n : Int) {v w : Obj} (inner : Same v w) : Same (.tagged n v) (.tagged n w)

inductive SameAll : List Obj → List Obj → Prop where
  | nil : SameAll [] []
  | cons {v w : Obj} {vs ws : List Obj} (first : Same v w) (rest : SameAll vs ws) :
      SameAll (v :: vs) (w :: ws)

inductive SameEntries : List (Obj × Obj) → List (Obj × Obj) → Prop where
  | nil : SameEntries [] []
  | cons (k : Obj) {v w : Obj} {vs ws : List (Obj × Obj)} (first : Same v w)
      (rest : SameEntries vs ws) : SameEntries ((k, v) :: vs) ((k, w) :: ws)
end

mutual
/-- Tuples read back as lists are the same value. -/
theorem same_plain : ∀ v : Obj, Same v (plain v)
  | .none | .bool _ | .int _ | .bytes _ | .text _ | .other _ => .refl _
  | .bytearray b => .bytearray b
  | .list xs => .list (same_plainAll xs)
  | .tuple xs => .tuple (same_plainAll xs)
  | .dict kvs => .dict (same_plainEntries kvs) (List.perm_insertionSort _ _).symm
  | .tagged n v => .tagged n (same_plain v)
termination_by structural v => v

theorem same_plainAll : ∀ xs : List Obj, SameAll xs (plainAll xs)
  | [] => .nil
  | x :: xs => .cons (same_plain x) (same_plainAll xs)
termination_by structural xs => xs

theorem same_plainEntries : ∀ kvs : List (Obj × Obj), SameEntries kvs (plainEntries kvs)
  | [] => .nil
  | (k, v) :: rest => .cons k (same_plain v) (same_plainEntries rest)
termination_by structural kvs => kvs
end

theorem keyEq_symm (a b : Obj) : a.keyEq b = b.keyEq a := by
  cases a <;> cases b <;> simp [Obj.keyEq, Bool.beq_comm]

/-- An entry of a dictionary with the items its key and value are written as. -/
structure Written where
  key : Obj
  value : Obj
  keyItem : Item
  valueItem : Item

/-- The key and the plain value are what the items denote. -/
structure Sound (q : Written) : Prop where
  fitsKey : q.keyItem.Fits
  fitsValue : q.valueItem.Fits
  key : denote q.keyItem = some q.key
  value : denote q.valueItem = some q.value
  written : encode q.key = .ok q.keyItem.bytes

/-- The entries that were written mean themselves. -/
theorem denoteEntries_written {qs : List Written} (sound : ∀ q ∈ qs, Sound q) :
    denoteEntries (qs.map fun q => (q.keyItem, q.valueItem)) =
      some (qs.map fun q => (q.key, q.value)) ∧
    FitsEntries (qs.map fun q => (q.keyItem, q.valueItem)) := by
  induction qs with
  | nil => exact ⟨rfl, trivial⟩
  | cons q rest ih =>
    have first := sound q List.mem_cons_self
    obtain ⟨later, fits⟩ := ih fun q' member => sound q' (List.mem_cons_of_mem _ member)
    constructor
    · exact denoteEntries_cons.mpr ⟨q.key, q.value, _, first.key, first.value, later, rfl⟩
    · exact ⟨first.fitsKey, first.fitsValue, fits⟩

theorem keyBytes_written {q : Written} (sound : Sound q) : keyBytes q.key = q.keyItem.bytes := by
  rw [keyBytes, sound.written]

def sortWritten (qs : List Written) : List Written :=
  qs.insertionSort fun a b => a.keyItem.bytes ≤ b.keyItem.bytes

/-- Sorting what was written sorts the entries by their encoded keys. -/
theorem sortWritten_entries {qs : List Written} (sound : ∀ q ∈ qs, Sound q) :
    (sortWritten qs).map (fun q => (q.key, q.value)) =
      (qs.map fun q => (q.key, q.value)).insertionSort fun a b => keyBytes a.1 ≤ keyBytes b.1 := by
  apply List.map_insertionSort
  intro a ha b hb
  rw [keyBytes_written (sound a ha), keyBytes_written (sound b hb)]

/-- The order is that of the encoded keys. -/
theorem sortWritten_collected (qs : List Written) :
    ((qs.map fun q => (q.keyItem.bytes, (Except.ok q.valueItem.bytes : Py Bytes))).insertionSort
      fun a b => a.1 ≤ b.1) =
      collected ((sortWritten qs).map fun q => (q.keyItem, q.valueItem)) := by
  rw [collected, List.map_map]
  symm
  apply List.map_insertionSort
  intro a _ b _
  exact Iff.rfl

/-- Sorted and without repetition, the keys ascend. -/
theorem sortWritten_ascending {qs : List Written}
    (distinct : (qs.map fun q => q.keyItem.bytes).Nodup) :
    Ascending ((sortWritten qs).map fun q => (q.keyItem, q.valueItem)) := by
  have sorted : (sortWritten qs).Pairwise fun a b => a.keyItem.bytes ≤ b.keyItem.bytes := by
    have instTotal : Std.Total fun a b : Written => a.keyItem.bytes ≤ b.keyItem.bytes :=
      ⟨fun a b => List.le_total _ _⟩
    have instTrans : IsTrans Written fun a b => a.keyItem.bytes ≤ b.keyItem.bytes :=
      ⟨fun a b c => List.le_trans⟩
    exact List.pairwise_insertionSort _ qs
  have differ : ((sortWritten qs).map fun q => q.keyItem.bytes).Nodup :=
    ((List.perm_insertionSort _ qs).map _).nodup_iff.mpr distinct
  rw [Ascending, List.map_map, List.pairwise_map]
  apply (sorted.and (List.pairwise_map.mp differ)).imp
  rintro a b ⟨below, different⟩
  apply List.not_le.mp
  intro above
  exact different (List.le_antisymm below above)

/-- Reading tuples as lists keeps the keys distinct. -/
theorem plainEntries_distinct {kvs : List (Obj × Obj)} (distinct : Distinct kvs) :
    Distinct (plainEntries kvs) := by
  induction kvs with
  | nil => exact List.Pairwise.nil
  | cons p rest ih =>
    obtain ⟨differs, later⟩ := List.pairwise_cons.mp distinct
    apply List.Pairwise.cons _ (ih later)
    intro q inside
    have keys : ∀ kvs : List (Obj × Obj), ∀ q ∈ plainEntries kvs, ∃ p ∈ kvs, p.1 = q.1 := by
      intro kvs
      induction kvs with
      | nil =>
        intro q inside
        cases inside
      | cons p rest ih =>
        intro q inside
        rcases List.mem_cons.mp inside with rfl | inside
        · exact ⟨p, List.mem_cons_self, rfl⟩
        · obtain ⟨p', member, same⟩ := ih q inside
          exact ⟨p', List.mem_cons_of_mem _ member, same⟩
    obtain ⟨p', member, same⟩ := keys rest q inside
    rw [← same]
    exact differs p' member

theorem plainEntries_hashable : ∀ {kvs : List (Obj × Obj)}, FormedEntries kvs →
    ∀ p ∈ plainEntries kvs, p.1.hashable = true
  | (k, v) :: rest, formed, p, inside => by
    rcases List.mem_cons.mp inside with rfl | inside
    · exact formed.1
    · exact plainEntries_hashable formed.2.2 p inside

/-- A key is read back as itself. -/
theorem plain_key {k : Obj} (isKey : k.isKey = true) (hashable : k.hashable = true) :
    plain k = k ∧ Formed k := by
  cases k <;> simp_all [Obj.isKey, Obj.hashable, plain, Formed]

/-- A dictionary whose entries are written is written as one map, which it denotes. -/
theorem map_of_entries {kvs : List (Obj × Obj)} {qs : List Written} {b : Bytes}
    (distinct : Distinct kvs) (formed : FormedEntries kvs) (sound : ∀ q ∈ qs, Sound q)
    (entries : qs.map (fun q => (q.key, q.value)) = plainEntries kvs)
    (made : collect (encodePairs kvs) =
      .ok (qs.map fun q => (q.keyItem.bytes, .ok q.valueItem.bytes)))
    (written : encodeEntries (encodePairs kvs) = .ok b) :
    ∃ t : Item, t.Fits ∧ t.bytes = b ∧ denote t = some (plain (.dict kvs)) := by
  obtain ⟨items, made', nodup, fits, -⟩ := encodeEntries_ok written
  obtain rfl := Except.ok.inj (made.symm.trans made')
  have member : ∀ q ∈ sortWritten qs, q ∈ qs := fun q inside => (List.mem_insertionSort _).mp inside
  obtain ⟨meanings, fitsEntries⟩ := denoteEntries_written fun q inside => sound q (member q inside)
  have count : ((sortWritten qs).map fun q => (q.keyItem, q.valueItem)).length < 2 ^ 64 := by
    rw [List.length_map] at fits
    rwa [List.length_map, sortWritten, List.length_insertionSort]
  have order := List.perm_insertionSort (fun a b : Obj × Obj => keyBytes a.1 ≤ keyBytes b.1)
    (plainEntries kvs)
  refine ⟨.map ((sortWritten qs).map fun q => (q.keyItem, q.valueItem)), ⟨count, fitsEntries⟩, ?_,
    ?_⟩
  · have whole := encodeEntries_of made (sortWritten_collected qs) nodup count
    exact Except.ok.inj (whole.symm.trans written)
  · apply denote_map.mpr
    refine ⟨_, meanings, sortWritten_ascending ?_, ?_, ?_, ?_⟩
    · rw [List.map_map] at nodup
      exact nodup
    · rw [sortWritten_entries sound, entries]
      apply (order.pairwise_iff ?_).mpr (plainEntries_distinct distinct)
      intro x y apart
      rw [keyEq_symm]
      exact apart
    · intro p inside
      rw [sortWritten_entries sound, entries] at inside
      exact plainEntries_hashable formed p (order.mem_iff.mp inside)
    · rw [sortWritten_entries sound, entries, plain]

mutual
/-- Whatever is written is an item, and the item denotes the plain value. -/
theorem item_of_encode : ∀ (v : Obj) {b : Bytes}, Formed v → encode v = .ok b →
    ∃ t : Item, t.Fits ∧ t.bytes = b ∧ denote t = some (plain v)
  | .none, b, _, written => by
    obtain rfl := Except.ok.inj written
    exact ⟨.simple 22, (by decide : 22 < 24), rfl, rfl⟩
  | .bool true, b, _, written => by
    obtain rfl := Except.ok.inj written
    exact ⟨.simple 21, (by decide : 21 < 24), rfl, rfl⟩
  | .bool false, b, _, written => by
    obtain rfl := Except.ok.inj written
    exact ⟨.simple 20, (by decide : 20 < 24), rfl, rfl⟩
  | .int n, b, _, written => by
    rw [encode] at written
    split at written
    next positive =>
      obtain ⟨-, fits, rfl⟩ := head_ok.mp written
      refine ⟨.uint n.toNat, (by omega : n.toNat < 2 ^ 64), rfl, ?_⟩
      have back : (n.toNat : Int) = n := by omega
      rw [denote, back]
      rfl
    next negative =>
      obtain ⟨-, fits, rfl⟩ := head_ok.mp written
      refine ⟨.nint (-n - 1).toNat, (by omega : (-n - 1).toNat < 2 ^ 64), rfl, ?_⟩
      have back : -((-n - 1).toNat : Int) - 1 = n := by omega
      rw [denote, back]
      rfl
  | .bytes c, b, _, written => by
    obtain ⟨start, counted, written⟩ := bind_ok.mp written
    obtain rfl := Except.ok.inj written
    obtain ⟨-, fits, rfl⟩ := head_ok.mp counted
    exact ⟨.bstr c, (by omega : c.length < 2 ^ 64), rfl, rfl⟩
  | .bytearray c, b, _, written => by
    obtain ⟨start, counted, written⟩ := bind_ok.mp written
    obtain rfl := Except.ok.inj written
    obtain ⟨-, fits, rfl⟩ := head_ok.mp counted
    exact ⟨.bstr c, (by omega : c.length < 2 ^ 64), rfl, rfl⟩
  | .text s, b, _, written => by
    obtain ⟨start, counted, written⟩ := bind_ok.mp written
    obtain rfl := Except.ok.inj written
    obtain ⟨-, fits, rfl⟩ := head_ok.mp counted
    exact ⟨.tstr (utf8Bytes s), (by omega : (utf8Bytes s).length < 2 ^ 64), rfl,
      denote_tstr.mpr ⟨s, utf8Text_ok.mpr rfl, rfl⟩⟩
  | .list xs, b, formed, written => by
    obtain ⟨start, counted, written⟩ := bind_ok.mp written
    obtain ⟨rest, each, written⟩ := bind_ok.mp written
    obtain rfl := Except.ok.inj written
    obtain ⟨-, fits, rfl⟩ := head_ok.mp counted
    obtain ⟨ts, length, fitsAll, rfl, meanings⟩ := items_of_encode xs formed each
    refine ⟨.array ts, ⟨by omega, fitsAll⟩, by rw [bytes, length]; rfl, ?_⟩
    rw [denote, meanings]
    rfl
  | .tuple xs, b, formed, written => by
    obtain ⟨start, counted, written⟩ := bind_ok.mp written
    obtain ⟨rest, each, written⟩ := bind_ok.mp written
    obtain rfl := Except.ok.inj written
    obtain ⟨-, fits, rfl⟩ := head_ok.mp counted
    obtain ⟨ts, length, fitsAll, rfl, meanings⟩ := items_of_encode xs formed each
    refine ⟨.array ts, ⟨by omega, fitsAll⟩, by rw [bytes, length]; rfl, ?_⟩
    rw [denote, meanings]
    rfl
  | .dict kvs, b, formed, written => by
    obtain ⟨items, -, -, -, each⟩ := encodeEntries_ok written
    obtain ⟨qs, sound, entries, made⟩ := entries_of_encode kvs formed.2 each
    exact map_of_entries formed.1 formed.2 sound entries made written
  | .tagged n v, b, formed, written => by
    obtain ⟨start, counted, written⟩ := bind_ok.mp written
    obtain ⟨rest, inner, written⟩ := bind_ok.mp written
    obtain rfl := Except.ok.inj written
    obtain ⟨positive, fits, rfl⟩ := head_ok.mp counted
    obtain ⟨t, fitsItem, rfl, meaning⟩ := item_of_encode v formed inner
    refine ⟨.tag n.toNat t, ⟨by omega, fitsItem⟩, rfl, ?_⟩
    have back : (n.toNat : Int) = n := by omega
    rw [denote, meaning, plain, ← back]
    rfl
  | .other name, b, _, written => by
    rw [encode] at written
    split at written <;> cases written
termination_by structural v => v

/-- A list that can be written is a list of items. -/
theorem items_of_encode : ∀ (xs : List Obj) {b : Bytes}, FormedAll xs → encodeAll xs = .ok b →
    ∃ ts : List Item, ts.length = xs.length ∧ FitsAll ts ∧ bytesAll ts = b ∧
      denoteAll ts = some (plainAll xs)
  | [], b, _, written => by
    obtain rfl := Except.ok.inj written
    exact ⟨[], rfl, trivial, rfl, rfl⟩
  | x :: xs, b, formed, written => by
    obtain ⟨first, head_, written⟩ := bind_ok.mp written
    obtain ⟨rest, tail, written⟩ := bind_ok.mp written
    obtain rfl := Except.ok.inj written
    obtain ⟨t, fits, rfl, meaning⟩ := item_of_encode x formed.1 head_
    obtain ⟨ts, length, fitsAll, rfl, meanings⟩ := items_of_encode xs formed.2 tail
    exact ⟨t :: ts, by rw [List.length_cons, length, List.length_cons], ⟨fits, fitsAll⟩, rfl,
      denoteAll_cons.mpr ⟨_, _, meaning, meanings, rfl⟩⟩
termination_by structural xs => xs

/-- The entries of a map that can be written are items with sound keys. -/
theorem entries_of_encode : ∀ (kvs : List (Obj × Obj)), FormedEntries kvs →
    (∀ p ∈ kvs, p.1.isKey = true ∧ (∃ b, encode p.1 = .ok b) ∧ ∃ b, encode p.2 = .ok b) →
    ∃ qs : List Written, (∀ q ∈ qs, Sound q) ∧
      qs.map (fun q => (q.key, q.value)) = plainEntries kvs ∧
      collect (encodePairs kvs) =
        .ok (qs.map fun q => (q.keyItem.bytes, .ok q.valueItem.bytes))
  | [], _, _ => ⟨[], by simp, rfl, rfl⟩
  | (k, v) :: rest, formed, each => by
    obtain ⟨isKey, ⟨bk, keyWritten⟩, ⟨bv, valueWritten⟩⟩ := each (k, v) List.mem_cons_self
    obtain ⟨same, formedKey⟩ := plain_key isKey formed.1
    obtain ⟨tk, fitsKey, rfl, meansKey⟩ := item_of_encode k formedKey keyWritten
    obtain ⟨tv, fitsValue, rfl, meansValue⟩ := item_of_encode v formed.2.1 valueWritten
    obtain ⟨qs, sound, entries, made⟩ := entries_of_encode rest formed.2.2
      fun p inside => each p (List.mem_cons_of_mem _ inside)
    rw [same] at meansKey
    refine ⟨⟨k, plain v, tk, tv⟩ :: qs, ?_, ?_, ?_⟩
    · intro q inside
      rcases List.mem_cons.mp inside with rfl | inside
      · exact ⟨fitsKey, fitsValue, meansKey, meansValue, keyWritten⟩
      · exact sound q inside
    · rw [List.map_cons, entries, plainEntries]
    · rw [encodePairs, collect, List.mapM_cons, if_pos isKey, keyWritten, valueWritten]
      change (_ >>= fun first => collect (encodePairs rest) >>= _) = _
      rw [made]
      rfl
termination_by structural kvs => kvs
end

/-- What is encoded decodes to the same value, and two values that differ otherwise than in
tuples, byte arrays or the order of dictionaries have different encodings. -/
theorem encode_undone {v : Obj} {b : Bytes} (formed : Formed v) (written : encode v = .ok b) :
    decode b = .ok (plain v) ∧ Same v (plain v) ∧
    ∀ w, Formed w → encode w = .ok b → plain w = plain v := by
  have back : ∀ w, Formed w → encode w = .ok b → decode b = .ok (plain w) :=
    fun w formed written => decode_ok.mpr (item_of_encode w formed written)
  refine ⟨back v formed written, same_plain v, ?_⟩
  intro w formed' written'
  exact Except.ok.inj ((back w formed' written').symm.trans (back v formed written))

theorem encode_undone_sample :
    decode [0xa2, 0x61, 0x62, 0x80, 0x62, 0x61, 0x61, 0x20] =
      .ok (plain (.dict [(.text "aa", .int (-1)), (.text "b", .tuple [])])) := by
  apply (encode_undone ?_ ?_).1
  · simp [Formed, FormedEntries, FormedAll, Distinct, Obj.keyEq, Obj.hashable]
  · decide +kernel

end CborRoundTrip
