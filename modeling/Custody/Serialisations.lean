import Custody.CanonicalForm
import Custody.CborRoundTrip

/-!
# The two serialisations

A value that both canonical JSON and deterministic CBOR accept is distinguished by
the one exactly from what it is distinguished from by the other, although they sort
keys in different orders and delimit them in different ways.
-/

namespace Serialisations

open PyValue HexBytes CanonicalJson CanonicalForm Cbor CborRoundTrip

mutual
/-- `_check(obj, path)`. -/
def checkObj (path : String) : Obj → Py Unit
  | .none => .ok ()
  | .bool _ => .ok ()
  | .int _ => .ok ()
  | .text _ => .ok ()
  | .list xs => checkObjs path 0 xs
  | .tuple xs => checkObjs path 0 xs
  | .dict kvs => checkEntries path kvs
  | .bytes _ => .error (.valueError ("unsupported type bytes at " ++ path))
  | .bytearray _ => .error (.valueError ("unsupported type bytearray at " ++ path))
  | .tagged _ _ => .error (.valueError ("unsupported type Tagged at " ++ path))
  | .other name =>
    if name = "float" then .error (.valueError ("float not allowed at " ++ path))
    else .error (.valueError ("unsupported type " ++ name ++ " at " ++ path))
termination_by structural v => v

def checkObjs (path : String) (i : Nat) : List Obj → Py Unit
  | [] => .ok ()
  | x :: xs => do
    checkObj (path ++ "[" ++ toString i ++ "]") x
    checkObjs path (i + 1) xs
termination_by structural xs => xs

def checkEntries (path : String) : List (Obj × Obj) → Py Unit
  | [] => .ok ()
  | (k, v) :: rest => match k with
    | .text s =>
      if isAscii s then do
        checkObj (path ++ "." ++ s) v
        checkEntries path rest
      else .error (.valueError ("non-ascii key '" ++ s ++ "' at " ++ path))
    | _ => .error (.valueError ("non-string key at " ++ path))
termination_by structural kvs => kvs
end

mutual
/-- The value as `json.dumps` writes it: tuples are lists. -/
def toValue : Obj → Value
  | .bool b => .bool b
  | .int n => .int n
  | .text s => .str s
  | .list xs => .list (toValues xs)
  | .tuple xs => .list (toValues xs)
  | .dict kvs => .dict (toEntries kvs)
  | _ => .null
termination_by structural v => v

def toValues : List Obj → List Value
  | [] => []
  | x :: xs => toValue x :: toValues xs
termination_by structural xs => xs

def toEntries : List (Obj × Obj) → List (Value × Value)
  | [] => []
  | (k, v) :: rest => (toValue k, toValue v) :: toEntries rest
termination_by structural kvs => kvs
end

/-- `canonical_json(obj)`. -/
def canonicalJsonObj (v : Obj) : Py Bytes := do
  checkObj "$" v
  pure (utf8 (dump (canon (toValue v))))

mutual
/-- What `_check` lets through. -/
def JsonOk : Obj → Prop
  | .none => True
  | .bool _ => True
  | .int _ => True
  | .text _ => True
  | .list xs => JsonOkAll xs
  | .tuple xs => JsonOkAll xs
  | .dict kvs => JsonOkEntries kvs
  | _ => False
termination_by structural v => v

def JsonOkAll : List Obj → Prop
  | [] => True
  | x :: xs => JsonOk x ∧ JsonOkAll xs
termination_by structural xs => xs

def JsonOkEntries : List (Obj × Obj) → Prop
  | [] => True
  | (k, v) :: rest => (∃ s, k = .text s) ∧ JsonOk v ∧ JsonOkEntries rest
termination_by structural kvs => kvs
end

mutual
theorem checkObj_ok : ∀ (path : String) (v : Obj), checkObj path v = .ok () →
    JsonOk v ∧ check path (toValue v) = .ok ()
  | path, .none, _ | path, .bool _, _ | path, .int _, _ | path, .text _, _ => ⟨trivial, rfl⟩
  | path, .list xs, h => checkObjs_ok path 0 xs h
  | path, .tuple xs, h => checkObjs_ok path 0 xs h
  | path, .dict kvs, h => checkEntries_ok path kvs h
  | path, .bytes _, h | path, .bytearray _, h | path, .tagged _ _, h => by cases h
  | path, .other name, h => by
    rw [checkObj] at h
    split at h <;> cases h
termination_by structural _ v => v

theorem checkObjs_ok : ∀ (path : String) (i : Nat) (xs : List Obj), checkObjs path i xs = .ok () →
    JsonOkAll xs ∧ checkList path i (toValues xs) = .ok ()
  | path, i, [], _ => ⟨trivial, rfl⟩
  | path, i, x :: xs, h => by
    obtain ⟨u, first, rest⟩ := bind_ok.mp h
    obtain ⟨ok, checked⟩ := checkObj_ok _ x first
    obtain ⟨oks, checks⟩ := checkObjs_ok path (i + 1) xs rest
    refine ⟨⟨ok, oks⟩, ?_⟩
    rw [toValues, checkList, checked]
    exact checks
termination_by structural _ _ xs => xs

theorem checkEntries_ok : ∀ (path : String) (kvs : List (Obj × Obj)),
    checkEntries path kvs = .ok () →
    JsonOkEntries kvs ∧ checkDict path (toEntries kvs) = .ok ()
  | path, [], _ => ⟨trivial, rfl⟩
  | path, (k, v) :: rest, h => by
    cases k with
    | text s =>
      simp only [checkEntries] at h
      split at h
      next ascii =>
        obtain ⟨u, first, later⟩ := bind_ok.mp h
        obtain ⟨ok, checked⟩ := checkObj_ok _ v first
        obtain ⟨oks, checks⟩ := checkEntries_ok path rest later
        refine ⟨⟨⟨s, rfl⟩, ok, oks⟩, ?_⟩
        rw [toEntries, toValue, checkDict]
        simp only [ascii, if_true, checked]
        exact checks
      next => cases h
    | _ => cases h
termination_by structural _ kvs => kvs
end

/-- What is written is the canonical JSON of the value with lists for tuples. -/
theorem canonicalJsonObj_ok {v : Obj} {b : Bytes} (written : canonicalJsonObj v = .ok b) :
    JsonOk v ∧ canonicalJson (toValue v) = .ok b := by
  obtain ⟨u, checked, text⟩ := bind_ok.mp written
  obtain ⟨ok, checks⟩ := checkObj_ok _ v checked
  refine ⟨ok, ?_⟩
  rw [canonicalJson, checks]
  exact text

/-- Entries with distinct keys are sorted into one list, however they are given. -/
theorem insertionSort_perm {xs ys : List (Bytes × Py Bytes)} (order : xs.Perm ys)
    (distinct : (xs.map Prod.fst).Nodup) :
    (ys.insertionSort fun a b => a.1 ≤ b.1) = xs.insertionSort fun a b => a.1 ≤ b.1 := by
  have instTotal : Std.Total fun a b : Bytes × Py Bytes => a.1 ≤ b.1 :=
    ⟨fun a b => List.le_total _ _⟩
  have instTrans : IsTrans (Bytes × Py Bytes) fun a b => a.1 ≤ b.1 := ⟨fun a b c => List.le_trans⟩
  have sorted : (ys.insertionSort fun a b => a.1 ≤ b.1).Perm
      (xs.insertionSort fun a b => a.1 ≤ b.1) :=
    ((List.perm_insertionSort _ ys).trans order.symm).trans (List.perm_insertionSort _ xs).symm
  apply sorted.eq_of_pairwise _ (List.pairwise_insertionSort _ ys)
    (List.pairwise_insertionSort _ xs)
  intro a b ha hb below above
  have inA : a ∈ xs := order.mem_iff.mpr ((List.mem_insertionSort _).mp ha)
  have inB : b ∈ xs := (List.mem_insertionSort _).mp hb
  exact List.inj_on_of_nodup_map distinct inA inB (List.le_antisymm below above)

theorem encodeEntries_perm {pairs pairs' : List (Obj × Py Bytes × Py Bytes)}
    (order : pairs.Perm pairs') {b : Bytes} (written : encodeEntries pairs = .ok b) :
    encodeEntries pairs' = .ok b := by
  obtain ⟨items, made, written⟩ := bind_ok.mp written
  obtain ⟨items', made', perm⟩ := mapM_perm order made
  split at written
  next => cases written
  next distinct =>
    have nodup := not_not.mp distinct
    have nodup' : (items'.map Prod.fst).Nodup := (perm.map Prod.fst).nodup_iff.mp nodup
    rw [encodeEntries, made', ok_bind, if_neg (not_not.mpr nodup'), ← perm.length_eq,
      insertionSort_perm perm nodup]
    exact written

mutual
/-- A value read back from JSON. -/
def ofValue : Value → Obj
  | .null => .none
  | .bool b => .bool b
  | .int n => .int n
  | .str s => .text s
  | .list xs => .list (ofValues xs)
  | .dict kvs => .dict (ofEntries kvs)
termination_by structural v => v

def ofValues : List Value → List Obj
  | [] => []
  | x :: xs => ofValue x :: ofValues xs
termination_by structural xs => xs

def ofEntries : List (Value × Value) → List (Obj × Obj)
  | [] => []
  | (k, v) :: rest => (ofValue k, ofValue v) :: ofEntries rest
termination_by structural kvs => kvs
end

theorem ofEntries_map (kvs : List (Value × Value)) :
    ofEntries kvs = kvs.map fun p => (ofValue p.1, ofValue p.2) := by
  induction kvs with
  | nil => rfl
  | cons p rest ih => rw [ofEntries, ih, List.map_cons]

theorem encodePairs_map (kvs : List (Obj × Obj)) :
    encodePairs kvs = kvs.map fun p => (p.1, encode p.1, encode p.2) := by
  induction kvs with
  | nil => rfl
  | cons p rest ih => rw [encodePairs, ih, List.map_cons]

theorem insertKey_perm (p : Value × Value) (kvs : List (Value × Value)) :
    (insertKey p kvs).Perm (p :: kvs) := by
  induction kvs with
  | nil => exact List.Perm.refl _
  | cons q rest ih =>
    rw [insertKey]
    split
    · exact (ih.cons q).trans (List.Perm.swap p q rest)
    · exact List.Perm.refl _

theorem sortKeys_perm (kvs : List (Value × Value)) : (sortKeys kvs).Perm kvs := by
  induction kvs with
  | nil => exact List.Perm.refl _
  | cons p rest ih => exact (insertKey_perm p _).trans (ih.cons p)

/-- The entries as they are read back, before they are sorted. -/
def reread (kvs : List (Obj × Obj)) : List (Obj × Obj) :=
  kvs.map fun p => (p.1, ofValue (canon (toValue p.2)))

theorem ofEntries_canon {kvs : List (Obj × Obj)} (ok : JsonOkEntries kvs) :
    (ofEntries (sortKeys (canonDict (toEntries kvs)))).Perm (reread kvs) := by
  have unsorted : ofEntries (canonDict (toEntries kvs)) = reread kvs := by
    induction kvs with
    | nil => rfl
    | cons p rest ih =>
      obtain ⟨⟨s, same⟩, -, oks⟩ := ok
      rw [toEntries, canonDict, ofEntries, ih oks, reread, reread, List.map_cons, same, toValue,
        ofValue]
  rw [← unsorted, ofEntries_map, ofEntries_map]
  exact (sortKeys_perm _).map _

mutual
/-- A value keeps its encoding when it goes through JSON. -/
theorem encode_reread : ∀ (v : Obj) {b : Bytes}, JsonOk v → encode v = .ok b →
    encode (ofValue (canon (toValue v))) = .ok b
  | .none, b, _, written | .bool _, b, _, written | .int _, b, _, written
  | .text _, b, _, written => by
    simpa [toValue, canon, ofValue] using written
  | .list xs, b, ok, written => by
    obtain ⟨start, counted, written⟩ := bind_ok.mp written
    obtain ⟨rest, each, written⟩ := bind_ok.mp written
    obtain ⟨length, again⟩ := encodeAll_reread xs ok each
    rw [toValue, canon, ofValue, encode, length, counted, again]
    exact written
  | .tuple xs, b, ok, written => by
    obtain ⟨start, counted, written⟩ := bind_ok.mp written
    obtain ⟨rest, each, written⟩ := bind_ok.mp written
    obtain ⟨length, again⟩ := encodeAll_reread xs ok each
    rw [toValue, canon, ofValue, encode, length, counted, again]
    exact written
  | .dict kvs, b, ok, written => by
    obtain ⟨items, -, -, -, each⟩ := encodeEntries_ok written
    have again := encodePairs_reread kvs ok fun p inside => (each p inside).2.2
    rw [toValue, canon, ofValue, encode]
    apply @encodeEntries_perm (encodePairs (reread kvs))
    · rw [encodePairs_map, encodePairs_map]
      exact (ofEntries_canon ok).symm.map _
    · change (collect (encodePairs (reread kvs)) >>= _) = _
      rw [again]
      exact written
  | .bytes _, _, ok, _ | .bytearray _, _, ok, _ | .tagged _ _, _, ok, _
  | .other _, _, ok, _ => ok.elim
termination_by structural v => v

theorem encodeAll_reread : ∀ (xs : List Obj) {b : Bytes}, JsonOkAll xs → encodeAll xs = .ok b →
    (ofValues (canonList (toValues xs))).length = xs.length ∧
    encodeAll (ofValues (canonList (toValues xs))) = .ok b
  | [], b, _, written => ⟨rfl, written⟩
  | x :: xs, b, ok, written => by
    obtain ⟨first, head_, written⟩ := bind_ok.mp written
    obtain ⟨rest, tail, written⟩ := bind_ok.mp written
    obtain ⟨length, again⟩ := encodeAll_reread xs ok.2 tail
    rw [toValues, canonList, ofValues, encodeAll, encode_reread x ok.1 head_, again]
    exact ⟨by rw [List.length_cons, length, List.length_cons], written⟩
termination_by structural xs => xs

theorem encodePairs_reread : ∀ (kvs : List (Obj × Obj)), JsonOkEntries kvs →
    (∀ p ∈ kvs, ∃ b, encode p.2 = .ok b) → collect (encodePairs (reread kvs)) =
      collect (encodePairs kvs)
  | [], _, _ => rfl
  | (k, v) :: rest, ok, each => by
    obtain ⟨b, written⟩ := each (k, v) List.mem_cons_self
    have later := encodePairs_reread rest ok.2.2
      fun p inside => each p (List.mem_cons_of_mem _ inside)
    rw [reread, List.map_cons, encodePairs, encodePairs, encode_reread v ok.2.1 written, written,
      collect, collect, List.mapM_cons, List.mapM_cons]
    change (_ >>= fun first => collect (encodePairs (reread rest)) >>= _) = _
    rw [later]
    rfl
termination_by structural kvs => kvs
end

theorem charsLt_trichotomous {cs ds : List Char} (first : charsLt cs ds = false)
    (second : charsLt ds cs = false) : cs = ds := by
  induction cs generalizing ds with
  | nil => cases ds with
    | nil => rfl
    | cons d ds => cases first
  | cons c cs ih => cases ds with
    | nil => cases second
    | cons d ds =>
      by_cases same : c = d
      · subst same
        simp only [charsLt, if_true] at first second
        rw [ih first second]
      · have other : ¬ d = c := fun h => same h.symm
        simp only [charsLt, if_neg same, if_neg other, decide_eq_false_iff_not] at first second
        exact absurd (Char.toNat_inj.mp (by omega)) same

/-- Entries with distinct text keys are sorted into one list, however they are given. -/
theorem sortKeys_of_perm {kvs kvs' : List (Value × Value)} (order : kvs.Perm kvs')
    (texts : ∀ p ∈ kvs, textKey p.1 = true) (distinct : (kvs.map Prod.fst).Nodup) :
    sortKeys kvs = sortKeys kvs' := by
  have sorted : (sortKeys kvs).Perm (sortKeys kvs') :=
    ((sortKeys_perm kvs).trans order).trans (sortKeys_perm kvs').symm
  have texts' : ∀ p ∈ kvs', textKey p.1 = true :=
    fun p inside => texts p (order.mem_iff.mpr inside)
  apply sorted.eq_of_pairwise _ (sortKeys_ordered texts) (sortKeys_ordered texts')
  intro p q hp hq below above
  have inP : p ∈ kvs := (mem_sortKeys p kvs).mp hp
  have inQ : q ∈ kvs := order.mem_iff.mpr ((mem_sortKeys q kvs').mp hq)
  apply List.inj_on_of_nodup_map distinct inP inQ
  have textP := texts p inP
  have textQ := texts q inQ
  cases keyP : p.1 with
  | str s =>
    cases keyQ : q.1 with
    | str t =>
      rw [keyP, keyQ] at below above
      exact congrArg Value.str (String.toList_inj.mp (charsLt_trichotomous above below))
    | _ => simp [keyQ, textKey] at textQ
  | _ => simp [keyP, textKey] at textP

theorem toEntries_map (kvs : List (Obj × Obj)) :
    toEntries kvs = kvs.map fun p => (toValue p.1, toValue p.2) := by
  induction kvs with
  | nil => rfl
  | cons p rest ih => rw [toEntries, ih, List.map_cons]

theorem toEntries_texts {kvs : List (Obj × Obj)} (ok : JsonOkEntries kvs) :
    ∀ p ∈ canonDict (toEntries kvs), textKey p.1 = true := by
  induction kvs with
  | nil =>
    intro p inside
    cases inside
  | cons kv rest ih =>
    obtain ⟨⟨s, same⟩, -, oks⟩ := ok
    intro p inside
    rw [toEntries, canonDict, same, toValue] at inside
    rcases List.mem_cons.mp inside with rfl | inside
    · rfl
    · exact ih oks p inside

theorem toEntries_distinct {kvs : List (Obj × Obj)} (ok : JsonOkEntries kvs)
    (distinct : CborMeaning.Distinct kvs) :
    ((canonDict (toEntries kvs)).map Prod.fst).Nodup := by
  have keys : ∀ kvs : List (Obj × Obj), (canonDict (toEntries kvs)).map Prod.fst =
      kvs.map fun p => toValue p.1 := by
    intro kvs
    rw [canonDict_map, toEntries_map, List.map_map, List.map_map]
    rfl
  rw [keys]
  induction kvs with
  | nil => exact List.nodup_nil
  | cons kv rest ih =>
    obtain ⟨⟨s, same⟩, -, oks⟩ := ok
    obtain ⟨differs, later⟩ := List.pairwise_cons.mp distinct
    rw [List.map_cons, List.nodup_cons]
    refine ⟨?_, ih oks later⟩
    intro clash
    obtain ⟨p, member, equal⟩ := List.mem_map.mp clash
    have apart := differs p member
    have text : ∃ t, p.1 = .text t := by
      clear differs later distinct ih clash apart
      induction rest with
      | nil => cases member
      | cons q rest ih =>
        rcases List.mem_cons.mp member with rfl | member
        · exact oks.1
        · exact ih oks.2.2 member
    obtain ⟨t, key⟩ := text
    rw [same, key, toValue, toValue] at equal
    obtain rfl := Value.str.inj equal
    rw [same, key] at apart
    simp [Obj.keyEq] at apart

mutual
/-- Reordering its dictionaries does not change the canonical form of a value. -/
theorem canon_plain : ∀ v : Obj, JsonOk v → Formed v →
    canon (toValue (plain v)) = canon (toValue v)
  | .none, _, _ | .bool _, _, _ | .int _, _, _ | .text _, _, _ => rfl
  | .list xs, ok, formed => by
    rw [plain, toValue, toValue, canon, canon, canon_plainAll xs ok formed]
  | .tuple xs, ok, formed => by
    rw [plain, toValue, toValue, canon, canon, canon_plainAll xs ok formed]
  | .dict kvs, ok, formed => by
    have values := canon_plainEntries kvs ok formed.2
    have order : (canonDict (toEntries kvs)).Perm (canonDict (toEntries
        ((plainEntries kvs).insertionSort fun a b => keyBytes a.1 ≤ keyBytes b.1))) := by
      rw [← values, canonDict_map, canonDict_map, toEntries_map, toEntries_map]
      exact ((List.perm_insertionSort _ _).symm.map _).map _
    rw [plain, toValue, toValue, canon, canon,
      sortKeys_of_perm order (toEntries_texts ok) (toEntries_distinct ok formed.1)]
  | .bytes _, ok, _ | .bytearray _, ok, _ | .tagged _ _, ok, _ | .other _, ok, _ => ok.elim
termination_by structural v => v

theorem canon_plainAll : ∀ xs : List Obj, JsonOkAll xs → FormedAll xs →
    canonList (toValues (plainAll xs)) = canonList (toValues xs)
  | [], _, _ => rfl
  | x :: xs, ok, formed => by
    rw [plainAll, toValues, toValues, canonList, canonList, canon_plain x ok.1 formed.1,
      canon_plainAll xs ok.2 formed.2]
termination_by structural xs => xs

theorem canon_plainEntries : ∀ kvs : List (Obj × Obj), JsonOkEntries kvs → FormedEntries kvs →
    canonDict (toEntries (plainEntries kvs)) = canonDict (toEntries kvs)
  | [], _, _ => rfl
  | (k, v) :: rest, ok, formed => by
    rw [plainEntries, toEntries, toEntries, canonDict, canonDict, canon_plain v ok.2.1 formed.2.1,
      canon_plainEntries rest ok.2.2 formed.2.2]
termination_by structural kvs => kvs
end

/-- What both serialisations accept, both distinguish alike. -/
theorem same_distinctions {v w : Obj} {a a' b b' : Bytes} (formed : Formed v) (formed' : Formed w)
    (json : canonicalJsonObj v = .ok a) (json' : canonicalJsonObj w = .ok a')
    (cbor : encode v = .ok b) (cbor' : encode w = .ok b') : a = a' ↔ b = b' := by
  obtain ⟨ok, text⟩ := canonicalJsonObj_ok json
  obtain ⟨ok', text'⟩ := canonicalJsonObj_ok json'
  constructor
  · rintro rfl
    have same := canonicalJson_injective text text'
    have first := encode_reread v ok cbor
    rw [same, encode_reread w ok' cbor'] at first
    exact (Except.ok.inj first).symm
  · rintro rfl
    obtain ⟨-, -, alike⟩ := encode_undone formed cbor
    have same : canon (toValue v) = canon (toValue w) := by
      rw [← canon_plain v ok formed, ← canon_plain w ok' formed', alike w formed' cbor']
    obtain ⟨u, -, shown⟩ := bind_ok.mp json
    obtain ⟨u', -, shown'⟩ := bind_ok.mp json'
    rw [← Except.ok.inj shown, ← Except.ok.inj shown', same]

/-- Two orders of insertion, and a tuple for a list. -/
def oneWay : Obj := .dict [(.text "aa", .int 1), (.text "b", .tuple [.none])]

def otherWay : Obj := .dict [(.text "b", .list [.none]), (.text "aa", .int 1)]

theorem same_distinctions_sample : ∃ a a' b b', canonicalJsonObj oneWay = .ok a ∧
    canonicalJsonObj otherWay = .ok a' ∧ encode oneWay = .ok b ∧ encode otherWay = .ok b' ∧
    (a = a' ↔ b = b') := by
  have written : Returns (canonicalJsonObj oneWay) ∧ Returns (canonicalJsonObj otherWay) ∧
      Returns (encode oneWay) ∧ Returns (encode otherWay) := by
    decide +kernel
  obtain ⟨⟨a, json⟩, ⟨a', json'⟩, ⟨b, cbor⟩, ⟨b', cbor'⟩⟩ := written
  refine ⟨a, a', b, b', json, json', cbor, cbor', same_distinctions ?_ ?_ json json' cbor cbor'⟩
  · simp [oneWay, Formed, FormedEntries, FormedAll, CborMeaning.Distinct, Obj.keyEq, Obj.hashable]
  · simp [otherWay, Formed, FormedEntries, FormedAll, CborMeaning.Distinct, Obj.keyEq,
      Obj.hashable]

end Serialisations
