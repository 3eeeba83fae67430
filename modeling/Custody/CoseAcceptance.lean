import Custody.CborMeaning
import Custody.CborRoundTrip
import Custody.CoseSign1

/-!
# Which messages are accepted

`verify_signature` looks headers up in dictionaries of the host, where the key `True` is the
key `1`. What it accepts is a grammar over items, once with the label `1` for the algorithm
and once with the simple value `true` in its place.
-/

namespace CoseAcceptance

open PyValue HexBytes Commitments CborItems CborItems.Item Cbor CborMeaning CborRoundTrip CoseSign1

theorem denote_simple {m : Nat} {v : Obj} : denote (.simple m) = some v ↔
    m = 20 ∧ v = .bool false ∨ m = 21 ∧ v = .bool true ∨ m = 22 ∧ v = .none := by
  rw [denote, denoteSimple]
  split
  next h => simp [h, eq_comm]
  split
  next h => simp [h, eq_comm]
  split
  next h => simp [h, eq_comm]
  next h₀ h₁ h₂ => simp [h₀, h₁, h₂]

/-- An integer is written as an unsigned or as a negative item. -/
theorem denote_int {t : Item} {n : Int} :
    denote t = some (.int n) ↔
      (∃ m : Nat, t = .uint m ∧ n = m) ∨ ∃ m : Nat, t = .nint m ∧ n = -m - 1 := by
  cases t with
  | uint m => simp [denote, eq_comm]
  | nint m => simp [denote, eq_comm]
  | simple m => simp [denote_simple]
  | map kvs => simp [denote_map]
  | _ => simp [denote]

/-- A label is the unsigned item of that number. -/
theorem denote_label {t : Item} {n : Nat} : denote t = some (.int n) ↔ t = .uint n := by
  rw [denote_int]
  constructor
  · rintro (⟨m, rfl, same⟩ | ⟨m, rfl, same⟩)
    · rw [Int.ofNat_inj.mp same]
    · omega
  · rintro rfl
    exact .inl ⟨n, rfl, rfl⟩

/-- The number `-8` of the algorithm. -/
theorem denote_alg {t : Item} : denote t = some (.int algEddsa) ↔ t = .nint 7 := by
  rw [denote_int, algEddsa]
  constructor
  · rintro (⟨m, rfl, same⟩ | ⟨m, rfl, same⟩)
    · omega
    · have seven : m = 7 := by omega
      rw [seven]
  · rintro rfl
    exact .inr ⟨7, rfl, rfl⟩

theorem denote_true {t : Item} : denote t = some (.bool true) ↔ t = .simple 21 := by
  cases t with
  | simple m => simp [denote_simple]
  | map kvs => simp [denote_map]
  | _ => simp [denote]

theorem denote_false {t : Item} : denote t = some (.bool false) ↔ t = .simple 20 := by
  cases t with
  | simple m => simp [denote_simple]
  | map kvs => simp [denote_map]
  | _ => simp [denote]

/-- A byte string is written in one way. -/
theorem denote_bytes {t : Item} {b : Bytes} : denote t = some (.bytes b) ↔ t = .bstr b := by
  cases t with
  | bstr m => simp [denote]
  | simple m => simp [denote_simple]
  | map kvs => simp [denote_map]
  | _ => simp [denote]

theorem denote_dict {t : Item} {es : List (Obj × Obj)} (meaning : denote t = some (.dict es)) :
    ∃ kvs, t = .map kvs := by
  cases t with
  | map kvs => exact ⟨kvs, rfl⟩
  | simple m => simp [denote_simple] at meaning
  | _ => simp [denote] at meaning

theorem denote_list {t : Item} {vs : List Obj} (meaning : denote t = some (.list vs)) :
    ∃ xs, t = .array xs ∧ denoteAll xs = some vs := by
  cases t with
  | array xs => exact ⟨xs, rfl, by simpa [denote] using meaning⟩
  | map kvs => simp [denote_map] at meaning
  | simple m => simp [denote_simple] at meaning
  | _ => simp [denote] at meaning

/-- A tagged value is a tag over what it holds. -/
theorem denote_tagged {t : Item} {n : Int} {v : Obj} (meaning : denote t = some (.tagged n v)) :
    ∃ (m : Nat) (x : Item), t = .tag m x ∧ n = m ∧ denote x = some v := by
  cases t with
  | tag m x =>
    rw [denote, Option.map_eq_some_iff] at meaning
    obtain ⟨w, inner, same⟩ := meaning
    cases same
    exact ⟨m, x, rfl, rfl, inner⟩
  | map kvs => simp [denote_map] at meaning
  | simple m => simp [denote_simple] at meaning
  | _ => simp [denote] at meaning

theorem denoteAll_forall₂ : ∀ {xs : List Item} {vs : List Obj}, denoteAll xs = some vs →
    List.Forall₂ (fun x v => denote x = some v) xs vs
  | [], vs, meaning => by
    obtain rfl := Option.some.inj meaning
    exact .nil
  | x :: xs, vs, meaning => by
    obtain ⟨v, rest, first, later, rfl⟩ := denoteAll_cons.mp meaning
    exact .cons first (denoteAll_forall₂ later)

/-- Each entry of a map denotes one of the dictionary, and the other way round. -/
theorem denoteEntries_forall₂ : ∀ {kvs : List (Item × Item)} {es : List (Obj × Obj)},
    denoteEntries kvs = some es →
    List.Forall₂ (fun kv p => denote kv.1 = some p.1 ∧ denote kv.2 = some p.2) kvs es
  | [], es, meaning => by
    obtain rfl := Option.some.inj meaning
    exact .nil
  | (k, v) :: rest, es, meaning => by
    obtain ⟨key, value, later, meansKey, meansValue, meanings, rfl⟩ := denoteEntries_cons.mp meaning
    exact .cons ⟨meansKey, meansValue⟩ (denoteEntries_forall₂ meanings)

/-- Every item of a map is an entry of what it means. -/
theorem entry_denoted {kvs : List (Item × Item)} {es : List (Obj × Obj)}
    (meaning : denoteEntries kvs = some es) {kv : Item × Item} (inside : kv ∈ kvs) :
    ∃ p ∈ es, denote kv.1 = some p.1 ∧ denote kv.2 = some p.2 := by
  obtain ⟨i, bound, rfl⟩ := List.getElem_of_mem inside
  have each := denoteEntries_forall₂ meaning
  have bound' : i < es.length := each.length_eq ▸ bound
  exact ⟨es[i], List.getElem_mem bound', each.get bound bound'⟩

/-- Every entry of what a map means is one of its items. -/
theorem entry_of_denoted {kvs : List (Item × Item)} {es : List (Obj × Obj)}
    (meaning : denoteEntries kvs = some es) {p : Obj × Obj} (inside : p ∈ es) :
    ∃ kv ∈ kvs, denote kv.1 = some p.1 ∧ denote kv.2 = some p.2 := by
  obtain ⟨i, bound, rfl⟩ := List.getElem_of_mem inside
  have each := denoteEntries_forall₂ meaning
  have bound' : i < kvs.length := each.length_eq ▸ bound
  exact ⟨kvs[i], List.getElem_mem bound', each.get bound' bound⟩

/-- The keys that a lookup of a number finds: the number, or the Boolean that equals it. -/
theorem keyEq_int {k : Obj} {n : Int} : k.keyEq (.int n) = true ↔
    k = .int n ∨ k = .bool true ∧ n = 1 ∨ k = .bool false ∧ n = 0 := by
  cases k with
  | bool b =>
    have one : (1 = n) = (n = 1) := propext eq_comm
    have zero : (0 = n) = (n = 0) := propext eq_comm
    cases b <;> simp [Obj.keyEq, one, zero]
  | int m => simp [Obj.keyEq]
  | _ => simp [Obj.keyEq]

theorem keyEq_of_int {a b : Obj} {n : Int} (ha : a.keyEq (.int n) = true)
    (hb : b.keyEq (.int n) = true) : a.keyEq b = true := by
  rw [keyEq_int] at ha hb
  rcases ha with rfl | ⟨rfl, rfl⟩ | ⟨rfl, rfl⟩ <;>
    rcases hb with rfl | ⟨rfl, hb⟩ | ⟨rfl, hb⟩ <;> simp_all [Obj.keyEq]

/-- A hashable key equals itself. -/
theorem keyEq_self {a : Obj} (hashable : a.hashable = true) : a.keyEq a = true := by
  cases a <;> simp_all [Obj.hashable, Obj.keyEq]

/-- Distinct keys tell their entries apart. -/
theorem distinct_unique {es : List (Obj × Obj)} (distinct : Distinct es) {a b : Obj × Obj}
    (ha : a ∈ es) (hb : b ∈ es) (same : a.1.keyEq b.1 = true) : a = b := by
  induction es with
  | nil => cases ha
  | cons x rest ih =>
    obtain ⟨apart, distinct⟩ := List.pairwise_cons.mp distinct
    rcases List.mem_cons.mp ha with rfl | later <;> rcases List.mem_cons.mp hb with rfl | later'
    · rfl
    · rw [apart b later'] at same
      cases same
    · rw [keyEq_symm, apart a later] at same
      cases same
    · exact ih distinct later later'

/-- A label is found exactly where some key equals it, `True` as 1 included. -/
theorem label_iff {header : List (Obj × Obj)} (distinct : Distinct header) {n : Int} {v : Obj} :
    label header n = some v ↔ ∃ k, (k, v) ∈ header ∧ k.keyEq (.int n) = true := by
  rw [label, Option.map_eq_some_iff]
  constructor
  · rintro ⟨p, found, rfl⟩
    have equal : p.1.keyEq (.int n) = true := by simpa using List.find?_some found
    exact ⟨p.1, List.mem_of_find?_eq_some found, equal⟩
  · rintro ⟨k, inside, equal⟩
    cases found : header.find? fun p => p.1.keyEq (.int n) with
    | none =>
      have none_ := List.find?_eq_none.mp found (k, v) inside
      exact absurd equal none_
    | some p =>
      have equal' : p.1.keyEq (.int n) = true := by simpa using List.find?_some found
      have same := distinct_unique distinct (List.mem_of_find?_eq_some found) inside
        (keyEq_of_int equal' equal)
      exact ⟨p, rfl, by rw [same]⟩

/-- What a lookup of a number finds in the dictionary of a map. -/
theorem label_item {kvs : List (Item × Item)} {header : List (Obj × Obj)}
    (meaning : denote (.map kvs) = some (.dict header)) {n : Nat} {v : Obj} :
    label header n = some v ↔ ∃ k t, (k, t) ∈ kvs ∧ denote t = some v ∧
      (k = .uint n ∨ k = .simple 21 ∧ n = 1 ∨ k = .simple 20 ∧ n = 0) := by
  obtain ⟨es, entries, -, distinct, -, same⟩ := denote_map.mp meaning
  obtain rfl := Obj.dict.inj same
  rw [label_iff distinct]
  constructor
  · rintro ⟨key, inside, equal⟩
    obtain ⟨⟨k, t⟩, member, meansKey, meansValue⟩ := entry_of_denoted entries inside
    refine ⟨k, t, member, meansValue, ?_⟩
    rcases keyEq_int.mp equal with rfl | ⟨rfl, one⟩ | ⟨rfl, zero⟩
    · exact .inl (denote_label.mp meansKey)
    · exact .inr (.inl ⟨denote_true.mp meansKey, by omega⟩)
    · exact .inr (.inr ⟨denote_false.mp meansKey, by omega⟩)
  · rintro ⟨k, t, member, meansValue, which⟩
    obtain ⟨⟨key, value⟩, inside, meansKey, meansValue'⟩ := entry_denoted entries member
    obtain rfl := Option.some.inj (meansValue.symm.trans meansValue')
    refine ⟨key, inside, keyEq_int.mpr ?_⟩
    rcases which with rfl | ⟨rfl, rfl⟩ | ⟨rfl, rfl⟩
    · exact .inl (Option.some.inj meansKey).symm
    · exact .inr (.inl ⟨(Option.some.inj meansKey).symm, rfl⟩)
    · exact .inr (.inr ⟨(Option.some.inj meansKey).symm, rfl⟩)

section labels

variable {kvs : List (Item × Item)} {header : List (Obj × Obj)}
  (meaning : denote (.map kvs) = some (.dict header))
include meaning

/-- The algorithm may stand under 1 or under the simple value true. -/
theorem label_alg : label header hdrAlg = some (.int algEddsa) ↔
    (.uint 1, .nint 7) ∈ kvs ∨ (.simple 21, .nint 7) ∈ kvs := by
  have one : hdrAlg = (1 : Nat) := rfl
  rw [one, label_item meaning]
  constructor
  · rintro ⟨k, t, member, value, which⟩
    obtain rfl := denote_alg.mp value
    rcases which with rfl | ⟨rfl, -⟩ | ⟨-, impossible⟩
    · exact .inl member
    · exact .inr member
    · cases impossible
  · rintro (member | member)
    · exact ⟨_, _, member, denote_alg.mpr rfl, .inl rfl⟩
    · exact ⟨_, _, member, denote_alg.mpr rfl, .inr (.inl ⟨rfl, rfl⟩)⟩

/-- The key identifier stands under 4 only, where no simple value equals it. -/
theorem label_kid {b : Bytes} :
    label header hdrKid = some (.bytes b) ↔ (.uint 4, .bstr b) ∈ kvs := by
  have four : hdrKid = (4 : Nat) := rfl
  rw [four, label_item meaning]
  constructor
  · rintro ⟨k, t, member, value, which⟩
    obtain rfl := denote_bytes.mp value
    rcases which with rfl | ⟨-, impossible⟩ | ⟨-, impossible⟩
    · exact member
    · cases impossible
    · cases impossible
  · intro member
    exact ⟨_, _, member, denote_bytes.mpr rfl, .inl rfl⟩

/-- No critical header means no item under 2. -/
theorem label_crit : label header hdrCrit = none ↔ ∀ t, (.uint 2, t) ∉ kvs := by
  have two : hdrCrit = (2 : Nat) := rfl
  obtain ⟨es, entries, -⟩ := denote_map.mp meaning
  constructor
  · intro absent t member
    obtain ⟨p, -, -, value⟩ := entry_denoted entries member
    rw [two] at absent
    have found := (label_item meaning).mpr ⟨_, t, member, value, .inl rfl⟩
    cases absent.symm.trans found
  · intro absent
    rw [Option.eq_none_iff_forall_not_mem]
    intro v found
    rw [two] at found
    obtain ⟨k, t, member, -, which⟩ := (label_item meaning).mp found
    rcases which with rfl | ⟨-, impossible⟩ | ⟨-, impossible⟩
    · exact absent t member
    · cases impossible
    · cases impossible

end labels

/-- No label of one header equals a label of the other. -/
def Apart (header unprotected : List (Obj × Obj)) : Prop :=
  ∀ a ∈ header, ∀ b ∈ unprotected, a.1.keyEq b.1 = false

theorem shared_nil (xs ys : List (Obj × Obj)) :
    ((xs.map Prod.fst).filter fun k => ys.any fun p => p.1.keyEq k) = [] ↔
      ∀ x ∈ xs, ∀ y ∈ ys, y.1.keyEq x.1 = false := by
  simp only [List.filter_eq_nil_iff, List.forall_mem_map, List.any_eq_true, not_exists, not_and,
    Bool.not_eq_true]

/-- No label stands in both headers. -/
theorem overlap_nil {header unprotected : List (Obj × Obj)} :
    overlap header unprotected = [] ↔ Apart header unprotected := by
  rw [overlap]
  dsimp only
  split
  · rw [shared_nil]
    exact forall₂_congr fun a _ => forall₂_congr fun b _ => by rw [keyEq_symm]
  · rw [shared_nil]
    exact ⟨fun apart a ha b hb => apart b hb a ha, fun apart b hb a ha => apart a ha b hb⟩

/-- What the header check accepts, and the key identifier it returns. -/
theorem checkHeader_ok {repr : List Obj → String} {header unprotected : List (Obj × Obj)}
    {kid : Bytes} : checkHeader repr header unprotected = .ok kid ↔
      Apart header unprotected ∧ label header hdrCrit = none ∧
      label header hdrAlg = some (.int algEddsa) ∧ label header hdrKid = some (.bytes kid) := by
  rw [checkHeader, ← overlap_nil]
  by_cases shared : overlap header unprotected = []
  · rw [if_neg (not_not_intro shared)]
    cases crit : label header hdrCrit with
    | some v => simp [shared]
    | none =>
      cases alg : label header hdrAlg with
      | none => simp [shared]
      | some a =>
        cases a with
        | int n =>
          by_cases eddsa : n = algEddsa
          · cases found : label header hdrKid with
            | none => simp [eddsa]
            | some k => cases k <;> simp [shared, eddsa]
          · simp [eddsa]
        | _ => simp
  · rw [if_pos shared]
    constructor
    · intro read
      obtain ⟨sorted, -, read⟩ := bind_ok.mp read
      cases read
    · exact fun facts => absurd facts.1 shared

theorem decodeOr_ok {context : String} {data : Bytes} {v : Obj} :
    decodeOr context data = .ok v ↔ decode data = .ok v := by
  rw [decodeOr]
  split
  next reason failed =>
    rw [failed]
    simp
  next => rfl

/-- The protected bytes are empty or an encoded map. -/
theorem protectedMap_ok {p : Bytes} {header : List (Obj × Obj)} :
    protectedMap p = .ok header ↔
      p = [] ∧ header = [] ∨ p ≠ [] ∧ decode p = .ok (.dict header) := by
  rw [protectedMap]
  cases p with
  | nil =>
    rw [List.isEmpty_nil, if_pos rfl]
    constructor
    · intro read
      exact .inl ⟨rfl, (Except.ok.inj read).symm⟩
    · rintro (⟨-, rfl⟩ | ⟨nonempty, -⟩)
      · rfl
      · exact absurd rfl nonempty
  | cons b bs =>
    rw [List.isEmpty_cons, if_neg (by decide), bind_ok]
    constructor
    · rintro ⟨v, decoded, read⟩
      refine .inr ⟨List.cons_ne_nil b bs, ?_⟩
      cases v with
      | dict es =>
        obtain rfl := Except.ok.inj read
        exact decodeOr_ok.mp decoded
      | _ => cases read
    · rintro (⟨empty, -⟩ | ⟨-, decoded⟩)
      · cases empty
      · exact ⟨.dict header, decodeOr_ok.mpr decoded, rfl⟩

/-- The parts of a message with a payload, as they are decoded. -/
structure Decoded (data p m s : Bytes) (unprotected header : List (Obj × Obj)) : Prop where
  whole : decode data =
    .ok (.tagged tagSign1 (.list [.bytes p, .dict unprotected, .bytes m, .bytes s]))
  inner : protectedMap p = .ok header

/-- A message that parses is a tagged array of four with a checked header. -/
theorem parse_ok {repr : List Obj → String} {data : Bytes} {r : Parsed} {m : Bytes}
    (read : parse repr data = .ok r) (attached : r.payload = some m) :
    Decoded data r.protectedBytes m r.signature r.unprotected r.header ∧
      ∃ kid, checkHeader repr r.header r.unprotected = .ok kid ∧ utf8Text kid = .ok r.kid := by
  rw [parse] at read
  obtain ⟨whole, decoded, read⟩ := bind_ok.mp read
  have decoded := decodeOr_ok.mp decoded
  cases whole with
  | tagged code body =>
    by_cases eighteen : code = tagSign1
    · subst eighteen
      have same : ¬ tagSign1 ≠ tagSign1 := by decide
      cases body with
      | list xs =>
        rcases xs with _ | ⟨first, _ | ⟨second, _ | ⟨third, _ | ⟨fourth, _ | ⟨fifth, xs⟩⟩⟩⟩⟩ <;>
          simp only [if_neg same] at read <;> try cases read
        cases first with
        | bytes p => cases second with
          | dict unprotected => cases third with
            | none =>
              simp only [pure_ok, ok_bind] at read
              cases fourth with
              | bytes signature =>
                obtain ⟨header, -, read⟩ := bind_ok.mp read
                obtain ⟨kid, -, read⟩ := bind_ok.mp read
                obtain ⟨name, -, read⟩ := bind_ok.mp read
                obtain rfl := Except.ok.inj read
                cases attached
              | _ => cases read
            | bytes payload =>
              simp only [pure_ok, ok_bind] at read
              cases fourth with
              | bytes signature =>
                obtain ⟨header, inner, read⟩ := bind_ok.mp read
                obtain ⟨kid, checked, read⟩ := bind_ok.mp read
                obtain ⟨name, valid, read⟩ := bind_ok.mp read
                obtain rfl := Except.ok.inj read
                obtain rfl := Option.some.inj attached
                exact ⟨⟨decoded, inner⟩, kid, checked, valid⟩
              | _ => cases read
            | _ => cases read
          | _ => cases read
        | _ => cases read
      | _ =>
        simp only [if_neg same] at read
        cases read
    · simp only [if_pos eighteen] at read
      cases read
  | _ => cases read

/-- Conversely such a message parses. -/
theorem parse_of {repr : List Obj → String} {data p m s kid : Bytes} {name : String}
    {unprotected header : List (Obj × Obj)} (decoded : Decoded data p m s unprotected header)
    (checked : checkHeader repr header unprotected = .ok kid) (valid : utf8Text kid = .ok name) :
    ∃ r, parse repr data = .ok r ∧ r.payload = some m ∧ r.protectedBytes = p ∧ r.signature = s := by
  refine ⟨⟨p, header, unprotected, some m, s, name, (label header hdrContentType).getD .none⟩, ?_,
    rfl, rfl, rfl⟩
  rw [parse, decodeOr_ok.mpr decoded.whole]
  simp only [ok_bind]
  rw [if_neg (by decide)]
  simp only [pure_ok, ok_bind]
  rw [decoded.inner, ok_bind, checked, ok_bind]
  rw [valid]
  rfl

/-- The parts of a message as items: `d` is the deterministic encoding of tag 18 over the array
of `p`, `us`, `m` and `s`, and `p` that of the map `kvs`. -/
structure Layout (d p m s : Bytes) (us kvs : List (Item × Item))
    (unprotected header : List (Obj × Obj)) : Prop where
  whole : d = (Item.tag 18 (.array [.bstr p, .map us, .bstr m, .bstr s])).bytes
  fits : (Item.tag 18 (.array [.bstr p, .map us, .bstr m, .bstr s])).Fits
  unprotected : denote (.map us) = some (.dict unprotected)
  inner : p = (Item.map kvs).bytes
  innerFits : (Item.map kvs).Fits
  header : denote (.map kvs) = some (.dict header)

theorem denote_message {us : List (Item × Item)} {p m s : Bytes} {unprotected : List (Obj × Obj)}
    (meaning : denote (.map us) = some (.dict unprotected)) :
    denote (.tag 18 (.array [.bstr p, .map us, .bstr m, .bstr s])) =
      some (.tagged tagSign1 (.list [.bytes p, .dict unprotected, .bytes m, .bytes s])) := by
  have parts : denoteAll [.bstr p, .map us, .bstr m, .bstr s] =
      some [.bytes p, .dict unprotected, .bytes m, .bytes s] := by
    have bytes : ∀ b, denote (.bstr b) = some (.bytes b) := fun b => rfl
    simp [denoteAll, bytes, meaning]
  rw [denote, denote, parts]
  rfl

/-- Decoded parts fix how the message is laid out. -/
theorem layout_of_decoded {d p m s : Bytes} {unprotected header : List (Obj × Obj)}
    (decoded : Decoded d p m s unprotected header) (nonempty : header ≠ []) :
    ∃ us kvs, Layout d p m s us kvs unprotected header := by
  obtain ⟨whole, inner⟩ := decoded
  obtain ⟨t, fits, rfl, meaning⟩ := decode_ok.mp whole
  obtain ⟨n, x, rfl, eighteen, inside⟩ := denote_tagged meaning
  obtain ⟨xs, rfl, elements⟩ := denote_list inside
  obtain rfl : n = 18 := by
    rw [tagSign1] at eighteen
    omega
  cases denoteAll_forall₂ elements with
  | cons first rest => cases rest with
  | cons second rest => cases rest with
  | cons third rest => cases rest with
  | cons fourth rest =>
    cases rest
    obtain rfl := denote_bytes.mp first
    obtain ⟨us, rfl⟩ := denote_dict second
    obtain rfl := denote_bytes.mp third
    obtain rfl := denote_bytes.mp fourth
    rcases protectedMap_ok.mp inner with ⟨-, empty⟩ | ⟨-, read⟩
    · exact absurd empty nonempty
    · obtain ⟨u, innerFits, rfl, header_⟩ := decode_ok.mp read
      obtain ⟨kvs, rfl⟩ := denote_dict header_
      exact ⟨us, kvs, rfl, fits, second, rfl, innerFits, header_⟩

/-- A message laid out in this way decodes to its parts. -/
theorem decoded_of_layout {d p m s : Bytes} {us kvs : List (Item × Item)}
    {unprotected header : List (Obj × Obj)} (layout : Layout d p m s us kvs unprotected header) :
    Decoded d p m s unprotected header := by
  obtain ⟨rfl, fits, unprotected_, rfl, innerFits, header_⟩ := layout
  refine ⟨decode_ok.mpr ⟨_, fits, rfl, denote_message unprotected_⟩, protectedMap_ok.mpr (.inr ?_)⟩
  refine ⟨?_, decode_ok.mpr ⟨_, innerFits, rfl, header_⟩⟩
  have positive := bytes_pos (.map kvs)
  exact List.ne_nil_of_length_pos positive

/-- The bytes of a message determine its parts. -/
theorem layout_unique {d p p' m m' s s' : Bytes} {us us' kvs kvs' : List (Item × Item)}
    {unprotected unprotected' header header' : List (Obj × Obj)}
    (one : Layout d p m s us kvs unprotected header)
    (other : Layout d p' m' s' us' kvs' unprotected' header') : kvs = kvs' := by
  have same : (Item.tag 18 (.array [.bstr p, .map us, .bstr m, .bstr s])).bytes ++ [] =
      (Item.tag 18 (.array [.bstr p', .map us', .bstr m', .bstr s'])).bytes ++ [] := by
    rw [← one.whole, ← other.whole]
  obtain ⟨items, -⟩ := bytes_inj _ _ one.fits other.fits same
  simp only [Item.tag.injEq, Item.array.injEq, List.cons.injEq, Item.bstr.injEq] at items
  have inner : (Item.map kvs).bytes ++ [] = (Item.map kvs').bytes ++ [] := by
    rw [← one.inner, ← other.inner, items.2.1]
  obtain ⟨maps, -⟩ := bytes_inj _ _ one.innerFits other.innerFits inner
  exact Item.map.inj maps

/-- What the headers and the signature of a message have to be, with the algorithm under the
label `alg`. -/
structure Fields (K : Primitives) (alg : Item) (publicKey p m s : Bytes)
    (kvs : List (Item × Item)) : Prop where
  algorithm : (alg, .nint 7) ∈ kvs
  kid : ∃ b, (.uint 4, .bstr b) ∈ kvs ∧ Returns (utf8Text b)
  uncritical : ∀ t, (.uint 2, t) ∉ kvs
  signed : ∃ b, sigStructure p m = .ok b ∧ K.verify publicKey b s = true

/-- The grammar of the profile: the algorithm is under the integer `1`, and no label is in both
headers. -/
def Conforms (K : Primitives) (d publicKey : Bytes) : Prop :=
  ∃ p m s us kvs unprotected header, Layout d p m s us kvs unprotected header ∧
    Fields K (.uint 1) publicKey p m s kvs ∧ ∀ a ∈ kvs, ∀ b ∈ us, a.1 ≠ b.1

/-- What the host accepts with the algorithm under the label `alg`: it compares the labels of the
headers as keys of a dictionary. -/
def Accepted (K : Primitives) (alg : Item) (d publicKey : Bytes) : Prop :=
  ∃ p m s us kvs unprotected header, Layout d p m s us kvs unprotected header ∧
    Fields K alg publicKey p m s kvs ∧ Apart header unprotected

variable {K : Primitives}

/-- An accepted message with the algorithm under 1 conforms. -/
theorem conforms_of_accepted {d publicKey : Bytes} (accepted : Accepted K (.uint 1) d publicKey) :
    Conforms K d publicKey := by
  obtain ⟨p, m, s, us, kvs, unprotected, header, layout, fields_, apart⟩ := accepted
  refine ⟨p, m, s, us, kvs, unprotected, header, layout, fields_, ?_⟩
  obtain ⟨es, entries, -, -, hashable, same⟩ := denote_map.mp layout.header
  cases same
  obtain ⟨es', entries', -, -, -, same⟩ := denote_map.mp layout.unprotected
  cases same
  rintro ⟨a, ta⟩ ha ⟨b, tb⟩ hb equal
  obtain rfl : a = b := equal
  obtain ⟨x, hx, keyx, -⟩ := entry_denoted entries ha
  obtain ⟨y, hy, keyy, -⟩ := entry_denoted entries' hb
  have keys : x.1 = y.1 := Option.some.inj (keyx.symm.trans keyy)
  have differ := apart x hx y hy
  rw [← keys, keyEq_self (hashable x hx)] at differ
  cases differ

/-- A signature is accepted exactly for the grammar, with either label. -/
theorem verifySignature_iff {repr : List Obj → String} {d publicKey : Bytes} :
    Returns (verifySignature K repr d publicKey) ↔
      Accepted K (.uint 1) d publicKey ∨ Accepted K (.simple 21) d publicKey := by
  constructor
  · rintro ⟨r, verified⟩
    obtain ⟨parsed, read, verified⟩ := bind_ok.mp verified
    cases payload : parsed.payload with
    | none =>
      rw [payload] at verified
      cases verified
    | some m =>
      rw [payload] at verified
      obtain ⟨b, structure_, verified⟩ := bind_ok.mp verified
      split at verified
      next genuine =>
        obtain ⟨decoded, kid, checked, name⟩ := parse_ok read payload
        obtain ⟨apart, crit, alg, kid_⟩ := checkHeader_ok.mp checked
        have nonempty : parsed.header ≠ [] := by
          intro empty
          rw [empty] at alg
          cases alg
        obtain ⟨us, kvs, layout⟩ := layout_of_decoded decoded nonempty
        have fields_ : ∀ label, (label, .nint 7) ∈ kvs →
            Fields K label publicKey parsed.protectedBytes m parsed.signature kvs :=
          fun label member => ⟨member, ⟨kid, (label_kid layout.header).mp kid_, _, name⟩,
            (label_crit layout.header).mp crit, b, structure_, genuine⟩
        rcases (label_alg layout.header).mp alg with one | true_
        · exact .inl ⟨_, m, _, us, kvs, _, _, layout, fields_ _ one, apart⟩
        · exact .inr ⟨_, m, _, us, kvs, _, _, layout, fields_ _ true_, apart⟩
      next => cases verified
  · have accepts : ∀ alg : Item, alg = .uint 1 ∨ alg = .simple 21 →
        Accepted K alg d publicKey → Returns (verifySignature K repr d publicKey) := by
      rintro alg which ⟨p, m, s, us, kvs, unprotected, header, layout, fields_, apart⟩
      obtain ⟨algorithm, ⟨kid, member, name, valid⟩, uncritical, b, structure_, genuine⟩ := fields_
      have alg_ : label header hdrAlg = some (.int algEddsa) := by
        rw [label_alg layout.header]
        rcases which with rfl | rfl
        · exact .inl algorithm
        · exact .inr algorithm
      have checked : checkHeader repr header unprotected = .ok kid :=
        checkHeader_ok.mpr ⟨apart, (label_crit layout.header).mpr uncritical, alg_,
          (label_kid layout.header).mpr member⟩
      obtain ⟨r, read, payload, rfl, rfl⟩ := parse_of (decoded_of_layout layout) checked valid
      refine ⟨(r, m), ?_⟩
      rw [verifySignature, read, ok_bind, payload]
      simp only [structure_, ok_bind, genuine, if_true, pure_ok]
    rintro (accepted | accepted)
    · exact accepts _ (.inl rfl) accepted
    · exact accepts _ (.inr rfl) accepted

/-- With the algorithm under `true` a message does not conform. -/
theorem not_conforms {d publicKey : Bytes} (accepted : Accepted K (.simple 21) d publicKey) :
    ¬ Conforms K d publicKey := by
  rintro ⟨p', m', s', us', kvs', unprotected', header', layout', fields', -⟩
  obtain ⟨p, m, s, us, kvs, unprotected, header, layout, fields_, -⟩ := accepted
  obtain rfl := layout_unique layout layout'
  obtain ⟨es, entries, -, distinct, -, same⟩ := denote_map.mp layout.header
  cases same
  obtain ⟨x, hx, keyx, -⟩ := entry_denoted entries fields_.algorithm
  obtain ⟨y, hy, keyy, -⟩ := entry_denoted entries fields'.algorithm
  have bool : x.1 = .bool true := (Option.some.inj keyx).symm
  have one : y.1 = .int 1 := (Option.some.inj keyy).symm
  have equal : x.1.keyEq y.1 = true := by rw [bool, one]; rfl
  have together := distinct_unique distinct hx hy equal
  rw [together, one] at bool
  cases bool

/-- Whatever is accepted conforms, unless it is a message that is in order except for the label
`true` in the place of `1`. -/
theorem accepted_conforms_iff (repr : List Obj → String) (d publicKey : Bytes) :
    (∀ r, verifySignature K repr d publicKey = .ok r → Conforms K d publicKey) ↔
      ¬ Accepted K (.simple 21) d publicKey := by
  constructor
  · intro conforms accepted
    obtain ⟨r, verified⟩ := verifySignature_iff.mpr (.inr accepted)
    exact not_conforms accepted (conforms r verified)
  · intro none_ r verified
    exact conforms_of_accepted ((verifySignature_iff.mp ⟨r, verified⟩).resolve_right none_)

/-- A signed message whose protected header is `{4: b"u", true: -8}`. -/
def trueMessage : Bytes :=
  [0xd2, 0x84, 0x46, 0xa2, 0x04, 0x41, 0x75, 0xf5, 0x27, 0xa0, 0x40, 0x41, 0x01]

def trueHeader : List (Item × Item) := [(.uint 4, .bstr [0x75]), (.simple 21, .nint 7)]

theorem trueMessage_layout : Layout trueMessage (Item.map trueHeader).bytes [] [1] [] trueHeader []
    [(.int 4, .bytes [0x75]), (.bool true, .int (-8))] where
  whole := rfl
  fits := by
    have six : (Item.map trueHeader).bytes.length = 6 := rfl
    simp [Fits, FitsAll, FitsEntries, six]
  unprotected := rfl
  inner := rfl
  innerFits := by simp [trueHeader, Fits, FitsEntries]
  header := rfl

theorem trueMessage_accepted : Accepted toy (.simple 21) trueMessage [1] := by
  refine ⟨_, [], [1], [], trueHeader, [], _, trueMessage_layout, ⟨?_, ⟨[0x75], ?_, _, rfl⟩, ?_,
    _, rfl, rfl⟩, ?_⟩
  · simp [trueHeader]
  · simp [trueHeader]
  · simp [trueHeader]
  · simp [Apart]

theorem trueMessage_verified :
    Returns (verifySignature toy (fun _ => "") trueMessage [1]) ∧
      ¬ Conforms toy trueMessage [1] :=
  ⟨verifySignature_iff.mpr (.inr trueMessage_accepted), not_conforms trueMessage_accepted⟩

end CoseAcceptance
