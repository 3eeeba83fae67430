import Custody.Equality
import Custody.Retention

/-!
# What expiry removes

Between a preview and its application anything may happen to the store. What is
then removed is the private content of the records that were previewed and are
still the same, and nothing else. A record that is in use is never among them.
-/

namespace PrivateContent

open PyValue HexBytes CanonicalJson CanonicalForm Commitments Delivery Execution Auditing Equality
  Retention

/-- A write inserts the sorted value and nothing else. -/
theorem put_spec {s next : Store} {key : String} {value : Value}
    (written : s.put key value = .ok next) :
    next.kv = s.kv.insert key (canon value) ∧ next.outbox = s.outbox ∧
      ∃ bytes, canonicalJson value = .ok bytes := by
  rw [Store.put] at written
  split at written
  · cases written
  · rename_i bytes canonical
    obtain rfl := Except.ok.inj written
    exact ⟨rfl, rfl, bytes, canonical⟩

theorem get_some {s : Store} {key : String} {v : Value} (found : s.kv.lookup key = some v) :
    s.get key = v := by
  rw [Store.get, found]
  rfl

/-- A dict that was read is stored. -/
theorem get_dict {s : Store} {key : String} {d : Dict} (read : s.get key = .dict d) :
    s.kv.lookup key = some (.dict d) := by
  rw [Store.get] at read
  cases found : s.kv.lookup key with
  | none => rw [found] at read; cases read
  | some v =>
    rw [found] at read
    exact congrArg some read

/-- The items under a head are the rows whose key begins with it. -/
theorem mem_items {s : Store} {head key : String} {v : Value} :
    (key, v) ∈ s.items head ↔ s.kv.lookup key = some v ∧ like head key = true := by
  have listed : s.kv.lookup key = some v ↔ Sigma.mk key v ∈ s.kv.entries := AList.mem_lookup_iff
  rw [Store.items, List.mem_insertionSort, List.mem_filter, List.mem_map, listed]
  constructor
  · rintro ⟨⟨⟨k, w⟩, inside, same⟩, matches_⟩
    obtain ⟨rfl, rfl⟩ := Prod.mk.inj same
    exact ⟨inside, matches_⟩
  · rintro ⟨inside, matches_⟩
    exact ⟨⟨_, inside, rfl⟩, matches_⟩

/-- No key is of two kinds. -/
theorem like_apart {key : String} (request : like requestHead key = true) :
    key ≠ previewKey ∧ like versionHead key = false := by
  have starts : ∃ rest, key.toList.map Char.toLower = 'r' :: 'e' :: 'q' :: rest := by
    rw [like, List.isPrefixOf_iff_prefix] at request
    obtain ⟨rest, whole⟩ := request
    exact ⟨_, whole.symm⟩
  obtain ⟨rest, whole⟩ := starts
  constructor
  · rintro rfl
    have other : previewKey.toList.map Char.toLower = 'r' :: 'e' :: 't' ::
        "ention-preview".toList := by decide
    rw [other] at whole
    cases whole
  · rw [like, whole]
    rfl

variable {K : Primitives}

/-- An item of a plan. -/
structure Lists (item : Value) (key hash : String) : Prop where
  key : item.item "key" = .ok (.str key)
  hash : item.item "hash" = .ok (.str hash)

/-- What the preview saw of a record it lists. -/
structure Selected (K : Primitives) (before : Store) (item : Value) (key hash : String) : Prop where
  lists : Lists item key hash
  request : like requestHead key = true
  record : ∃ record, before.kv.lookup key = some record ∧ fingerprint K record = .ok hash ∧
    ∃ state, record.item "state" = .ok state ∧ state.eq (.str "pending") = false

theorem listing_lists (key hash : String) : Lists (canon (listing key hash)) key hash := by
  have keyed : (listing key hash).item "key" = .ok (.str key) := by
    simp [listing, fields, Value.item, find]
  have hashed : (listing key hash).item "hash" = .ok (.str hash) := by
    simp [listing, fields, Value.item, find]
  have key_ := item_canon keyed
  have hash_ := item_canon hashed
  rw [canon_str] at key_ hash_
  exact ⟨key_, hash_⟩

/-- A record that is free is not pending. -/
theorem free_decided {pending : List Value} {record : Value}
    (free : withheld pending record = .ok false) :
    ∃ state, record.item "state" = .ok state ∧ state.eq (.str "pending") = false := by
  obtain ⟨state, read, rest⟩ := bind_ok.mp free
  refine ⟨state, read, ?_⟩
  cases same : state.eq (.str "pending") with
  | false => rfl
  | true =>
    rw [same] at rest
    cases rest

/-- Each selected item lists a row that is old enough and free. -/
theorem select_spec {pending : List Value} {cutoff : Int} {rows : List (String × Value)}
    {selected : List Value} {n : Nat} (made : select K pending cutoff rows = .ok (selected, n)) :
    ∀ item ∈ selected, ∃ key record hash, item = listing key hash ∧ (key, record) ∈ rows ∧
      fingerprint K record = .ok hash ∧ withheld pending record = .ok false := by
  induction rows generalizing selected n with
  | nil =>
    obtain ⟨rfl, -⟩ := Prod.mk.inj (Except.ok.inj made)
    intro item inside
    cases inside
  | cons row rest ih =>
    obtain ⟨key, record⟩ := row
    have later : ∀ {chosen m}, select K pending cutoff rest = .ok (chosen, m) → ∀ item ∈ chosen,
        ∃ key' record' hash, item = listing key' hash ∧ (key', record') ∈ (key, record) :: rest ∧
          fingerprint K record' = .ok hash ∧ withheld pending record' = .ok false := by
      intro chosen m chosen_ item inside
      obtain ⟨key', record', hash, is, at_, printed, free⟩ := ih chosen_ item inside
      exact ⟨key', record', hash, is, List.mem_cons_of_mem _ at_, printed, free⟩
    rw [select] at made
    obtain ⟨skip, -, made⟩ := bind_ok.mp made
    cases skip with
    | true => exact later made
    | false =>
      obtain ⟨held, free, made⟩ := bind_ok.mp made
      cases held with
      | true =>
        obtain ⟨⟨chosen, m⟩, chosen_, made⟩ := bind_ok.mp made
        obtain ⟨rfl, -⟩ := Prod.mk.inj (Except.ok.inj made)
        exact later chosen_
      | false =>
        obtain ⟨hash, printed, made⟩ := bind_ok.mp made
        obtain ⟨⟨chosen, m⟩, chosen_, made⟩ := bind_ok.mp made
        obtain ⟨rfl, -⟩ := Prod.mk.inj (Except.ok.inj made)
        intro item inside
        rcases List.mem_cons.mp inside with rfl | inside
        · exact ⟨key, record, hash, rfl, List.mem_cons_self, printed, free⟩
        · exact later chosen_ item inside

/-- The plan in the store after a preview, and what the preview saw of each of its items. -/
structure Planned (K : Primitives) (before : Store) (plan : Value) (items : List Value) :
    Prop where
  records : plan.item "records" = .ok (.list items)
  selected : ∀ item ∈ items, ∃ key hash, Selected K before item key hash

/-- A preview stores its plan and shows it. -/
theorem preview_planned {before mid : Store} {retentionDays now created : Int} {shown : Dict}
    (made : preview K before retentionDays now created = .ok (mid, shown)) :
    ∃ plan items, mid.kv.lookup previewKey = some plan ∧ Planned K before plan items := by
  obtain ⟨pending, -, made⟩ := bind_ok.mp made
  obtain ⟨⟨selected, n⟩, chosen, made⟩ := bind_ok.mp made
  obtain ⟨token, -, made⟩ := bind_ok.mp made
  obtain ⟨next, stored, made⟩ := bind_ok.mp made
  obtain ⟨rfl, -⟩ := Prod.mk.inj (Except.ok.inj made)
  obtain ⟨kv, -, -⟩ := put_spec stored
  refine ⟨_, selected.map canon, by rw [kv, AList.lookup_insert], ?_, ?_⟩
  · refine (item_canon (w := .list selected) ?_).trans ?_
    · simp [fields, Value.item, find]
    · rw [canon, canonList_map]
  · intro item inside
    obtain ⟨listed, there, rfl⟩ := List.mem_map.mp inside
    obtain ⟨key, record, hash, rfl, at_, printed, free⟩ := select_spec chosen listed there
    obtain ⟨found, request⟩ := mem_items.mp at_
    exact ⟨key, hash, listing_lists key hash, request, record, found, printed, free_decided free⟩

/-- The fields that expiry changes. -/
def prunedFields : List String := ["private", "quarantined_body", "response", "content_pruned_at"]

/-- `left` is the record without its private content, and otherwise the same. -/
structure ContentPruned (record left : Dict) : Prop where
  private_ : hasKey left "private" = false
  body : hasKey left "quarantined_body" = false
  response : find left (.str "response") = some .null
  stamp : ∃ t : Int, find left (.str "content_pruned_at") = some (.int t)
  others : ∀ f, f ∉ prunedFields → find left (.str f) = find record (.str f)

theorem find_pop_self (d : Dict) (k : String) : find (pop d k) (.str k) = none := by
  induction d with
  | nil => rfl
  | cons p rest ih =>
    obtain ⟨k', v⟩ := p
    cases same : k'.scalarEq (.str k) with
    | true => simpa [pop, same] using ih
    | false => simpa [pop, same, find] using ih

theorem find_pop_ne (d : Dict) {k f : String} (different : f ≠ k) :
    find (pop d k) (.str f) = find d (.str f) := by
  induction d with
  | nil => rfl
  | cons p rest ih =>
    obtain ⟨k', v⟩ := p
    cases same : k'.scalarEq (.str k) with
    | true =>
      have other : k'.scalarEq (.str f) = false := by
        cases k' with
        | str t =>
          obtain rfl : t = k := by simpa using same
          simpa using different.symm
        | _ => simp [Value.scalarEq] at same
      have skip : pop ((k', v) :: rest) k = pop rest k := by simp [pop, same]
      rw [skip, ih, find, other]
      rfl
    | false =>
      have keep : pop ((k', v) :: rest) k = (k', v) :: pop rest k := by simp [pop, same]
      rw [keep, find, find, ih]

/-- Pruning leaves the other fields. -/
theorem find_withoutContent (d : Dict) (now : Int) {f : String} (other : f ∉ prunedFields) :
    find (withoutContent d now) (.str f) = find d (.str f) := by
  simp only [prunedFields, List.mem_cons, List.not_mem_nil, or_false, not_or] at other
  obtain ⟨first, second, third, fourth⟩ := other
  rw [withoutContent, find_insert_str_ne _ (Ne.symm fourth), find_insert_str_ne _ (Ne.symm third),
    find_pop_ne _ second, find_pop_ne _ first]

/-- A row is read back as it was written, field by field. -/
theorem written_field {d : Dict} (written : Written (.dict d)) (f : String) :
    (find d (.str f)).map canon = find d (.str f) := by
  obtain ⟨u, bytes, canonical, same⟩ := written
  obtain ⟨_, checked, -⟩ := bind_ok.mp canonical
  have fixed : canon (.dict d) = .dict d := by
    rw [same]
    exact canon_canon u (check_keyed _ u checked)
  rw [canon] at fixed
  rw [← find_canonDict, ← find_sortKeys, Value.dict.inj fixed]

/-- The record written back is pruned. -/
theorem pruned_of_written {d left : Dict} (written : Written (.dict d)) (now : Int)
    (left_ : canon (.dict (withoutContent d now)) = .dict left) : ContentPruned d left := by
  have read : ∀ f, find left (.str f) = (find (withoutContent d now) (.str f)).map canon := by
    intro f
    rw [canon] at left_
    rw [← Value.dict.inj left_, find_sortKeys, find_canonDict]
  have absent : ∀ f, f = "private" ∨ f = "quarantined_body" →
      find (withoutContent d now) (.str f) = none := by
    rintro f (rfl | rfl)
    · rw [withoutContent, find_insert_str_ne _ (by decide), find_insert_str_ne _ (by decide),
        find_pop_ne _ (by decide), find_pop_self]
    · rw [withoutContent, find_insert_str_ne _ (by decide), find_insert_str_ne _ (by decide),
        find_pop_self]
  constructor
  · rw [hasKey, read, absent _ (.inl rfl)]
    rfl
  · rw [hasKey, read, absent _ (.inr rfl)]
    rfl
  · rw [read, withoutContent, find_insert_str_ne _ (by decide), find_insert_self _ (by simp)]
    simp
  · refine ⟨now, ?_⟩
    rw [read, withoutContent, find_insert_self _ (by simp)]
    simp [canon]
  · intro f other
    rw [read, find_withoutContent d now other, written_field written]

/-- The record can go: no item of the outbox is of it. -/
def Free (s : Store) (record : Value) : Prop :=
  ∃ sub, record.item "sub" = .ok sub ∧
    ∀ row ∈ s.outbox, ∀ own, subOf row.item = .ok own → own.scalarEq sub = false

/-- One turn of the loop of `apply`, on a listed item. -/
structure Revised (K : Primitives) (s : Store) (key hash : String) (change : String × Value)
    (salts : List Value) : Prop where
  named : change.1 = key
  record : ∃ d now, s.kv.lookup key = some (.dict d) ∧ change.2 = .dict (withoutContent d now) ∧
    fingerprint K (.dict d) = .ok hash ∧ saltsOf (.dict d) = .ok salts ∧ Free s (.dict d)

/-- The subject of every waiting item is pending. -/
theorem pendingSubs_mem {s : Store} {pending : List Value} (read : pendingSubs s = .ok pending)
    {row : Pending} (inside : row ∈ s.outbox) {own : Value} (of : subOf row.item = .ok own) :
    own ∈ pending := by
  obtain ⟨found, member, made⟩ := mapM_ok_mem read inside
  rw [of, ok_bind, element] at made
  split at made
  · obtain rfl := Except.ok.inj made
    exact member
  · cases made

theorem inSet_ok {x : Value} {xs : List Value} {b : Bool} (decided : inSet x xs = .ok b) :
    (xs.any fun y => y.scalarEq x) = b := by
  rw [inSet] at decided
  split at decided
  · exact Except.ok.inj decided
  · cases decided

/-- A subject that is not pending is free. -/
theorem free_of_inSet {s : Store} {pending : List Value} (read : pendingSubs s = .ok pending)
    {record sub : Value} (of : record.item "sub" = .ok sub) (out : inSet sub pending = .ok false) :
    Free s record := by
  refine ⟨sub, of, fun row inside own of_ => ?_⟩
  have none_ := List.any_eq_false.mp (inSet_ok out) own (pendingSubs_mem read inside of_)
  exact Bool.eq_false_iff.mpr none_

/-- Revising one item changes the record it lists, or nothing. -/
theorem revise_spec {s : Store} {pending : List Value} (read : pendingSubs s = .ok pending)
    {item : Value} {key hash : String} (lists : Lists item key hash) {now : Int}
    {change : String × Value} {salts : List Value}
    (revised : revise K s pending item now = .ok (change, salts)) :
    Revised K s key hash change salts := by
  rw [revise, lists.key, ok_bind] at revised
  obtain ⟨named, text, revised⟩ := bind_ok.mp revised
  obtain rfl : key = named := Except.ok.inj text
  obtain ⟨hash', printed, revised⟩ := bind_ok.mp revised
  rw [lists.hash, ok_bind, eq_str_str] at revised
  cases same : hash' == hash with
  | false =>
    rw [same] at revised
    cases revised
  | true =>
    obtain rfl := beq_iff_eq.mp same
    rw [same] at revised
    obtain ⟨sub, of, revised⟩ := bind_ok.mp revised
    obtain ⟨used, free, revised⟩ := bind_ok.mp revised
    cases used with
    | true => cases revised
    | false =>
      obtain ⟨own, salted, revised⟩ := bind_ok.mp revised
      obtain ⟨d, form, revised⟩ := bind_ok.mp revised
      obtain ⟨rfl, rfl⟩ := Prod.mk.inj (Except.ok.inj revised)
      have record : s.get key = .dict d := by
        cases stored : s.get key with
        | dict d' =>
          rw [stored] at form
          exact congrArg Value.dict (Except.ok.inj form)
        | _ =>
          rw [stored] at form
          cases form
      rw [record] at printed of salted
      exact ⟨rfl, d, now, get_dict record, rfl, printed, salted, free_of_inSet read of free⟩

/-- The key an item of a plan names. -/
def keyOf (item : Value) : Py String := do textOf (← item.item "key")

/-- The whole loop: every item is revised, and the salts are those of the records. -/
structure RevisedAll (K : Primitives) (s : Store) (items : List Value)
    (changes : List (String × Value)) (salts : List Value) : Prop where
  keys : items.mapM keyOf = .ok (changes.map (·.1))
  revised : ∀ change ∈ changes, ∃ item ∈ items, ∃ key hash own, Lists item key hash ∧
    Revised K s key hash change own ∧ ∀ salt ∈ own, salt ∈ salts
  salted : ∀ salt ∈ salts, ∃ change ∈ changes, ∃ d own, s.kv.lookup change.1 = some (.dict d) ∧
    saltsOf (.dict d) = .ok own ∧ salt ∈ own

/-- Revising all items changes only records they list. -/
theorem reviseAll_spec {s : Store} {pending : List Value} (read : pendingSubs s = .ok pending)
    {clock : Nat → Int} {items : List Value}
    (listed : ∀ item ∈ items, ∃ key hash, Lists item key hash) {n : Nat}
    {changes : List (String × Value)} {salts : List Value}
    (revised : reviseAll K s pending clock items n = .ok (changes, salts)) :
    RevisedAll K s items changes salts := by
  induction items generalizing n changes salts with
  | nil =>
    obtain ⟨rfl, rfl⟩ := Prod.mk.inj (Except.ok.inj revised)
    exact ⟨rfl, fun _ inside => (nomatch inside), fun _ inside => (nomatch inside)⟩
  | cons item rest ih =>
    obtain ⟨⟨change, own⟩, first, revised⟩ := bind_ok.mp revised
    obtain ⟨⟨more, others⟩, later, revised⟩ := bind_ok.mp revised
    obtain ⟨rfl, rfl⟩ := Prod.mk.inj (Except.ok.inj revised)
    obtain ⟨key, hash, lists⟩ := listed item List.mem_cons_self
    have one := revise_spec read lists first
    have all := ih (fun i inside => listed i (List.mem_cons_of_mem _ inside)) later
    constructor
    · have named : keyOf item = .ok key := by
        rw [keyOf, lists.key, ok_bind]
        rfl
      rw [List.mapM_cons, named, ok_bind, all.keys, ok_bind, List.map_cons, one.named]
      rfl
    · intro c inside
      rcases List.mem_cons.mp inside with rfl | inside
      · exact ⟨item, List.mem_cons_self, key, hash, own, lists, one,
          fun _ there => List.mem_append_left _ there⟩
      · obtain ⟨i, member, k, h, o, lists', revised', sub⟩ := all.revised c inside
        exact ⟨i, List.mem_cons_of_mem _ member, k, h, o, lists', revised',
          fun _ there => List.mem_append_right _ (sub _ there)⟩
    · intro salt inside
      rcases List.mem_append.mp inside with inside | inside
      · obtain ⟨d, now, found, -, -, salted, -⟩ := one.record
        rw [← one.named] at found
        exact ⟨change, List.mem_cons_self, d, own, found, salted, inside⟩
      · obtain ⟨c, member, d, o, found, salted, there⟩ := all.salted salt inside
        exact ⟨c, List.mem_cons_of_mem _ member, d, o, found, salted, there⟩

theorem update_spec {s next : Store} {key : String} {value : Value} (present : key ∈ s.kv)
    (updated : s.update key value = .ok next) :
    next.kv = s.kv.insert key (canon value) ∧ next.outbox = s.outbox := by
  obtain ⟨put_, stored, updated⟩ := bind_ok.mp updated
  rw [if_pos present] at updated
  obtain rfl := Except.ok.inj updated
  obtain ⟨kv, outbox, -⟩ := put_spec stored
  exact ⟨kv, outbox⟩

/-- The updates change the rows they name. -/
theorem updates_spec {changes : List (String × Value)} {s next : Store}
    (present : ∀ change ∈ changes, change.1 ∈ s.kv)
    (updated : changes.foldlM (fun s change => s.update change.1 change.2) s = .ok next) :
    next.outbox = s.outbox ∧
    (∀ key, key ∉ changes.map (·.1) → next.kv.lookup key = s.kv.lookup key) ∧
    ∀ key, key ∈ changes.map (·.1) →
      ∃ value, (key, value) ∈ changes ∧ next.kv.lookup key = some (canon value) := by
  induction changes generalizing s with
  | nil =>
    obtain rfl := Except.ok.inj updated
    exact ⟨rfl, fun _ _ => rfl, fun _ inside => (nomatch inside)⟩
  | cons change rest ih =>
    rw [List.foldlM_cons] at updated
    obtain ⟨mid, first, later⟩ := bind_ok.mp updated
    obtain ⟨kv, outbox⟩ := update_spec (present change List.mem_cons_self) first
    have still : ∀ c ∈ rest, c.1 ∈ mid.kv := by
      intro c inside
      rw [kv, AList.mem_insert]
      exact .inr (present c (List.mem_cons_of_mem _ inside))
    obtain ⟨outbox', same, written⟩ := ih still later
    refine ⟨outbox'.trans outbox, fun key absent => ?_, fun key inside => ?_⟩
    · rw [List.map_cons, List.mem_cons, not_or] at absent
      rw [same key absent.2, kv, AList.lookup_insert_ne absent.1]
    · by_cases again : key ∈ rest.map (·.1)
      · obtain ⟨value, there, found⟩ := written key again
        exact ⟨value, List.mem_cons_of_mem _ there, found⟩
      · rw [List.map_cons, List.mem_cons, or_iff_left again] at inside
        subst inside
        exact ⟨change.2, List.mem_cons_self, by rw [same _ again, kv, AList.lookup_insert]⟩

/-- The deletions remove the versions they name. -/
theorem deletes_spec (versions : List String) (s : Store) (key : String) :
    (versions.foldl Store.delete s).outbox = s.outbox ∧
    (versions.foldl Store.delete s).kv.lookup key =
      if key ∈ versions then none else s.kv.lookup key := by
  induction versions generalizing s with
  | nil => simp
  | cons version rest ih =>
    obtain ⟨outbox, found⟩ := ih (s.delete version)
    refine ⟨outbox, ?_⟩
    rw [List.foldl_cons, found]
    by_cases same : key = version
    · subst same
      simp [Store.delete, AList.lookup_erase]
    · simp [Store.delete, same]

/-- The store after the transaction. -/
structure Committed (s next : Store) (changes : List (String × Value)) (versions : List String) :
    Prop where
  outbox : next.outbox = s.outbox
  preview : next.kv.lookup previewKey = none
  deleted : ∀ key ∈ versions, next.kv.lookup key = none
  changed : ∀ key ∈ changes.map (·.1), key ≠ previewKey → key ∉ versions →
    ∃ value, (key, value) ∈ changes ∧ next.kv.lookup key = some (canon value)
  others : ∀ key, key ∉ changes.map (·.1) → key ≠ previewKey → key ∉ versions →
    next.kv.lookup key = s.kv.lookup key

/-- A commit that returned has made all its changes. -/
theorem commit_spec {s next : Store} {changes : List (String × Value)} {versions : List String}
    (present : ∀ change ∈ changes, change.1 ∈ s.kv)
    (committed : commit s changes versions = .ok next) : Committed s next changes versions := by
  obtain ⟨mid, updated, committed⟩ := bind_ok.mp committed
  obtain rfl := Except.ok.inj committed
  obtain ⟨outbox, same, written⟩ := updates_spec present updated
  have last : ∀ key, key ≠ previewKey →
      ((versions.foldl Store.delete mid).delete previewKey).kv.lookup key =
        if key ∈ versions then none else mid.kv.lookup key := by
    intro key other
    rw [Store.delete, AList.lookup_erase_ne other, (deletes_spec versions mid key).2]
  constructor
  · exact (deletes_spec versions mid previewKey).1.trans outbox
  · exact AList.lookup_erase _ _
  · intro key inside
    by_cases plan : key = previewKey
    · rw [plan]
      exact AList.lookup_erase _ _
    · rw [last key plan, if_pos inside]
  · intro key inside plan kept
    obtain ⟨value, there, found⟩ := written key inside
    exact ⟨value, there, by rw [last key plan, if_neg kept, found]⟩
  · intro key absent plan kept
    rw [last key plan, if_neg kept, same key absent]

/-- Whatever may happen to a store, other than a new preview. -/
inductive Changed (K : Primitives) (mid : Store) : Store → Prop where
  | refl : Changed K mid mid
  | put {s next : Store} {key : String} {value : Value} (other : key ≠ previewKey) :
      Changed K mid s → s.put key value = .ok next → Changed K mid next
  | delete {s : Store} (key : String) : Changed K mid s → Changed K mid (s.delete key)
  | outbox {s : Store} (rows : List Pending) :
      Changed K mid s → Changed K mid { s with outbox := rows }
  | apply {s : Store} (token : Value) (clock : Nat → Int) :
      Changed K mid s → Changed K mid (apply K s token clock).1

/-- A plan is used once. -/
theorem applied_consumes {s next : Store} {token : Value} {clock : Nat → Int} {out : Dict}
    (returned : applied K s token clock = .ok (next, out)) :
    next.kv.lookup previewKey = none := by
  obtain ⟨plan, -, returned⟩ := bind_ok.mp returned
  obtain ⟨pending, -, returned⟩ := bind_ok.mp returned
  obtain ⟨records, -, returned⟩ := bind_ok.mp returned
  obtain ⟨items, -, returned⟩ := bind_ok.mp returned
  obtain ⟨⟨changes, salts⟩, -, returned⟩ := bind_ok.mp returned
  obtain ⟨versions, -, returned⟩ := bind_ok.mp returned
  obtain ⟨next', committed, returned⟩ := bind_ok.mp returned
  obtain ⟨rfl, -⟩ := Prod.mk.inj (Except.ok.inj returned)
  obtain ⟨mid, -, committed⟩ := bind_ok.mp committed
  obtain rfl := Except.ok.inj committed
  exact AList.lookup_erase _ _

/-- The plan is still the one that was made, or it is gone. -/
theorem changed_plan {mid s : Store} (changed : Changed K mid s) :
    s.kv.lookup previewKey = none ∨ s.kv.lookup previewKey = mid.kv.lookup previewKey := by
  induction changed with
  | refl => exact .inr rfl
  | put other _ stored ih =>
    rw [(put_spec stored).1, AList.lookup_insert_ne other.symm]
    exact ih
  | @delete s key _ ih =>
    by_cases same : previewKey = key
    · rw [← same]
      exact .inl (AList.lookup_erase _ _)
    · rw [Store.delete, AList.lookup_erase_ne same]
      exact ih
  | outbox rows _ ih => exact ih
  | @apply s token clock _ ih =>
    rw [Retention.apply]
    cases returned : applied K s token clock with
    | error e => exact ih
    | ok pair => exact .inl (applied_consumes returned)

/-- A private version of one of the records. -/
def Salted (s : Store) (keys : List String) (key : String) : Prop :=
  like versionHead key = true ∧ ∃ version salt, s.kv.lookup key = some version ∧
    version.item "salt" = .ok salt ∧ ∃ k ∈ keys, ∃ record own, s.kv.lookup k = some record ∧
      saltsOf record = .ok own ∧ ∃ x ∈ own, x.scalarEq salt = true

/-- What `apply` does to the records with the given keys, and that it does nothing else. -/
structure Pruned (K : Primitives) (before s next : Store) (keys : List String) : Prop where
  records : ∀ key ∈ keys, ∃ record left, s.kv.lookup key = some (.dict record) ∧
    next.kv.lookup key = some (.dict left) ∧ ContentPruned record left
  versions : ∀ key, Salted s keys key → next.kv.lookup key = none
  preview : next.kv.lookup previewKey = none
  others : ∀ key, key ∉ keys → key ≠ previewKey → ¬ Salted s keys key →
    next.kv.lookup key = s.kv.lookup key
  outbox : next.outbox = s.outbox
  free : ∀ key ∈ keys, ∀ record, s.kv.lookup key = some record → Free s record
  /-- A record that is being worked on now would have the hash of the one that was listed. -/
  decided : ∀ key ∈ keys, ∀ record, s.kv.lookup key = some record →
    record.item "state" = .ok (.str "pending") → ∃ old bytes bytes',
      before.kv.lookup key = some old ∧ canonicalJson old = .ok bytes ∧
      canonicalJson record = .ok bytes' ∧ Collision K [bytes, bytes']

/-- The keys that a plan lists. -/
def listed (plan : Value) : Py (List String) := do
  (← (← plan.item "records").iterate).mapM keyOf

/-- The versions deleted are those salted with a pruned salt. -/
theorem mem_versions {s : Store} {salts : List Value} {versions : List String}
    (found : versionsOf s salts = .ok versions) (key : String) :
    key ∈ versions ↔ like versionHead key = true ∧ ∃ version salt,
      s.kv.lookup key = some version ∧ version.item "salt" = .ok salt ∧
      ∃ x ∈ salts, x.scalarEq salt = true := by
  obtain ⟨rows, judged, found⟩ := bind_ok.mp found
  obtain rfl := Except.ok.inj found
  rw [List.mem_map]
  constructor
  · rintro ⟨⟨k, flag⟩, inside, rfl⟩
    obtain ⟨member, rfl⟩ := List.mem_filter.mp inside
    obtain ⟨⟨k', version⟩, row, made⟩ := mem_mapM_ok judged member
    obtain ⟨salt, of, made⟩ := bind_ok.mp made
    obtain ⟨flag, one, made⟩ := bind_ok.mp made
    obtain ⟨rfl, rfl⟩ := Prod.mk.inj (Except.ok.inj made)
    obtain ⟨stored, kind⟩ := mem_items.mp row
    exact ⟨kind, version, salt, stored, of, List.any_eq_true.mp (inSet_ok one)⟩
  · rintro ⟨kind, version, salt, stored, of, one⟩
    obtain ⟨⟨k, flag⟩, member, made⟩ := mapM_ok_mem judged (mem_items.mpr ⟨stored, kind⟩)
    rw [of, ok_bind] at made
    obtain ⟨flag', decided, made⟩ := bind_ok.mp made
    obtain ⟨rfl, rfl⟩ := Prod.mk.inj (Except.ok.inj made)
    refine ⟨(key, flag'), List.mem_filter.mpr ⟨member, ?_⟩, rfl⟩
    rw [← inSet_ok decided]
    exact List.any_eq_true.mpr one

/-- Two records of one fingerprint have one state, or their encodings collide. -/
theorem state_kept {old record : Value} {hash : String} (listed : fingerprint K old = .ok hash)
    (now : fingerprint K record = .ok hash) {state : Value} (was : old.item "state" = .ok state)
    (other : state.eq (.str "pending") = false)
    (pending : record.item "state" = .ok (.str "pending")) :
    ∃ bytes bytes', canonicalJson old = .ok bytes ∧ canonicalJson record = .ok bytes' ∧
      Collision K [bytes, bytes'] := by
  obtain ⟨bytes, first, made⟩ := bind_ok.mp listed
  obtain ⟨bytes', second, made'⟩ := bind_ok.mp now
  have same := (Except.ok.inj made).trans (Except.ok.inj made').symm
  refine ⟨bytes, bytes', first, second, ?_⟩
  rcases contentHash_binding same with rfl | collision
  · have alike := canonicalJson_injective first second
    have there := item_canon pending
    rw [← alike] at there
    obtain ⟨v, read, back⟩ := item_of_canon there
    obtain rfl := Except.ok.inj (was.symm.trans read)
    rw [canon_str] at back
    rw [canon_eq_str back.symm, eq_str_str] at other
    cases other
  · exact collision

/-- What an `apply` that returns has done, step by step. -/
theorem applied_parts {s next : Store} {token : Value} {clock : Nat → Int} {out : Dict}
    (returned : applied K s token clock = .ok (next, out)) :
    ∃ plan pending items records changes salts versions,
      currentPlan s token (clock 0) = .ok plan ∧ pendingSubs s = .ok pending ∧
      plan.item "records" = .ok records ∧ records.iterate = .ok items ∧
      reviseAll K s pending clock items 1 = .ok (changes, salts) ∧
      versionsOf s salts = .ok versions ∧ commit s changes versions = .ok next := by
  obtain ⟨plan, current, returned⟩ := bind_ok.mp returned
  obtain ⟨pending, read, returned⟩ := bind_ok.mp returned
  obtain ⟨records, has, returned⟩ := bind_ok.mp returned
  obtain ⟨items, walked, returned⟩ := bind_ok.mp returned
  obtain ⟨⟨changes, salts⟩, revised, returned⟩ := bind_ok.mp returned
  obtain ⟨versions, found, returned⟩ := bind_ok.mp returned
  obtain ⟨next', committed, returned⟩ := bind_ok.mp returned
  obtain ⟨rfl, -⟩ := Prod.mk.inj (Except.ok.inj returned)
  exact ⟨plan, pending, items, records, changes, salts, versions, current, read, has, walked,
    revised, found, committed⟩

/-- A plan that is used is the one in the store. -/
theorem currentPlan_stored {s : Store} {token plan : Value} {now : Int}
    (current : currentPlan s token now = .ok plan) : s.kv.lookup previewKey = some plan := by
  rw [currentPlan] at current
  cases stored : s.kv.lookup previewKey with
  | none =>
    rw [Store.get, stored] at current
    cases current
  | some v =>
    rw [get_some stored] at current
    cases truthy : v.truthy with
    | false =>
      rw [truthy] at current
      cases current
    | true =>
      rw [truthy] at current
      obtain ⟨expected, -, current⟩ := bind_ok.mp current
      cases fits : token.eq expected with
      | false =>
        rw [fits] at current
        cases current
      | true =>
        rw [fits] at current
        obtain ⟨created, -, current⟩ := bind_ok.mp current
        obtain ⟨late, -, current⟩ := bind_ok.mp current
        cases late with
        | true => cases current
        | false => exact congrArg some (Except.ok.inj current)

/-- A change is of a record that was listed and is what it was. -/
structure Expired (K : Primitives) (before s : Store) (salts : List Value)
    (change : String × Value) : Prop where
  request : like requestHead change.1 = true
  record : ∃ d now hash own, s.kv.lookup change.1 = some (.dict d) ∧
    change.2 = .dict (withoutContent d now) ∧ fingerprint K (.dict d) = .ok hash ∧
    saltsOf (.dict d) = .ok own ∧ (∀ x ∈ own, x ∈ salts) ∧ Free s (.dict d) ∧
    ∃ old state, before.kv.lookup change.1 = some old ∧ fingerprint K old = .ok hash ∧
      old.item "state" = .ok state ∧ state.eq (.str "pending") = false

/-- A record that is revised had expired in the preview. -/
theorem expired_of_revised {before s : Store} {plan : Value} {items : List Value}
    (planned : Planned K before plan items) {changes : List (String × Value)}
    {salts : List Value} (all : RevisedAll K s items changes salts) {change : String × Value}
    (inside : change ∈ changes) : Expired K before s salts change := by
  obtain ⟨item, member, key, hash, own, lists, revised, sub⟩ := all.revised change inside
  obtain ⟨key', hash', selected⟩ := planned.selected item member
  obtain rfl := Value.str.inj (Except.ok.inj (lists.key.symm.trans selected.lists.key))
  obtain rfl := Value.str.inj (Except.ok.inj (lists.hash.symm.trans selected.lists.hash))
  obtain ⟨d, now, stored, value, printed, salted, free⟩ := revised.record
  obtain ⟨old, was, listed, state, of, other⟩ := selected.record
  have named := revised.named
  subst named
  exact ⟨selected.request, d, now, hash, own, stored, value, printed, salted, sub, free, old,
    state, was, listed, of, other⟩

/-- The versions that are deleted are those of the records that are changed. -/
theorem salted_iff {before s : Store} {items : List Value} {changes : List (String × Value)}
    {salts : List Value} (all : RevisedAll K s items changes salts)
    (expired : ∀ change ∈ changes, Expired K before s salts change) {versions : List String}
    (found : versionsOf s salts = .ok versions) (key : String) :
    key ∈ versions ↔ Salted s (changes.map (·.1)) key := by
  rw [mem_versions found key]
  constructor
  · rintro ⟨kind, version, salt, stored, of, x, inside, same⟩
    obtain ⟨change, member, d, own, record, salted, there⟩ := all.salted x inside
    exact ⟨kind, version, salt, stored, of, change.1, List.mem_map_of_mem member, .dict d, own,
      record, salted, x, there, same⟩
  · rintro ⟨kind, version, salt, stored, of, k, member, record, own, there, salted, x, inside, same⟩
    obtain ⟨change, listed, rfl⟩ := List.mem_map.mp member
    obtain ⟨d, -, -, own', record', -, -, salted', sub, -⟩ := (expired change listed).record
    obtain rfl := Option.some.inj (there.symm.trans record')
    obtain rfl := Except.ok.inj (salted.symm.trans salted')
    exact ⟨kind, version, salt, stored, of, x, sub x inside, same⟩

/-- What a commit leaves is the pruned store. -/
theorem pruned_of_committed {before s next : Store} {items : List Value}
    {changes : List (String × Value)} {salts : List Value}
    (all : RevisedAll K s items changes salts)
    (expired : ∀ change ∈ changes, Expired K before s salts change) {versions : List String}
    (found : versionsOf s salts = .ok versions)
    (committed : Committed s next changes versions) :
    Pruned K before s next (changes.map (·.1)) := by
  have apart : ∀ key ∈ changes.map (·.1), key ≠ previewKey ∧ key ∉ versions := by
    intro key inside
    obtain ⟨change, member, rfl⟩ := List.mem_map.mp inside
    obtain ⟨plan, version⟩ := like_apart (expired change member).request
    refine ⟨plan, fun gone => ?_⟩
    rw [mem_versions found, version] at gone
    cases gone.1
  have same : ∀ key ∈ changes.map (·.1), ∀ record, s.kv.lookup key = some record →
      ∃ change ∈ changes, change.1 = key ∧ Expired K before s salts change := by
    intro key inside record stored
    obtain ⟨change, member, rfl⟩ := List.mem_map.mp inside
    exact ⟨change, member, rfl, expired change member⟩
  constructor
  · intro key inside
    obtain ⟨plan, version⟩ := apart key inside
    obtain ⟨value, there, stored⟩ := committed.changed key inside plan version
    obtain ⟨d, now, -, -, record, made, -⟩ := (expired (key, value) there).record
    have left : canon value = .dict (sortKeys (canonDict (withoutContent d now))) := by
      have value_ : value = .dict (withoutContent d now) := made
      rw [value_, canon]
    rw [left] at stored
    refine ⟨d, _, record, stored, pruned_of_written (s.written key _ record) now ?_⟩
    rw [canon]
  · intro key salted
    exact committed.deleted key ((salted_iff all expired found key).mpr salted)
  · exact committed.preview
  · intro key absent plan kept
    exact committed.others key absent plan fun gone =>
      kept ((salted_iff all expired found key).mp gone)
  · exact committed.outbox
  · intro key inside record stored
    obtain ⟨change, member, rfl, one⟩ := same key inside record stored
    obtain ⟨d, -, -, -, stored', -, -, -, -, free, -⟩ := one.record
    obtain rfl := Option.some.inj (stored.symm.trans stored')
    exact free
  · intro key inside record stored pending
    obtain ⟨change, member, rfl, one⟩ := same key inside record stored
    obtain ⟨d, -, hash, -, stored', -, printed, -, -, -, old, state, was, listed, of, other⟩ :=
      one.record
    obtain rfl := Option.some.inj (stored.symm.trans stored')
    obtain ⟨bytes, bytes', first, second, collision⟩ :=
      state_kept listed printed of other pending
    exact ⟨old, bytes, bytes', was, first, second, collision⟩

/-- An `apply` that raises changes nothing, and without a preview it raises. One that returns,
whatever happened since the preview, removes the private content of the records that were
listed, with their private versions and the preview, and nothing else. -/
theorem retention_exact :
    (∀ (s : Store) (token : Value) (clock : Nat → Int) (e : PyErr),
      (apply K s token clock).2 = .error e → (apply K s token clock).1 = s) ∧
    (∀ (s : Store) (token : Value) (clock : Nat → Int), s.kv.lookup previewKey = none →
      ∃ e, (apply K s token clock).2 = .error e) ∧
    ∀ (before mid s : Store) (retentionDays now created : Int) (shown : Dict),
      preview K before retentionDays now created = .ok (mid, shown) → Changed K mid s →
      ∀ (token : Value) (clock : Nat → Int) (out : Dict), (apply K s token clock).2 = .ok out →
        ∃ keys, listed (mid.get previewKey) = .ok keys ∧
          Pruned K before s (apply K s token clock).1 keys := by
  refine ⟨?_, ?_, ?_⟩
  · intro s token clock e raised
    rw [apply] at raised ⊢
    cases made : applied K s token clock with
    | error e' => rfl
    | ok pair =>
      rw [made] at raised
      cases raised
  · intro s token clock none_
    rw [apply]
    cases made : applied K s token clock with
    | error e => exact ⟨e, rfl⟩
    | ok pair =>
      obtain ⟨plan, _, _, _, _, _, _, current, -⟩ := applied_parts made
      rw [currentPlan_stored current] at none_
      cases none_
  · intro before mid s retentionDays now created shown made changed token clock out returned
    rw [apply] at returned ⊢
    cases done : applied K s token clock with
    | error e =>
      rw [done] at returned
      cases returned
    | ok pair =>
      obtain ⟨next, out'⟩ := pair
      obtain ⟨plan, pending, items, records, changes, salts, versions, current, read, has, walked,
        revised, found, committed⟩ := applied_parts done
      obtain ⟨planned_, items', stored, planned⟩ := preview_planned made
      have kept : mid.kv.lookup previewKey = some plan := by
        have here := currentPlan_stored current
        rcases changed_plan changed with gone | same
        · rw [gone] at here
          cases here
        · exact same.symm.trans here
      obtain rfl := Option.some.inj (stored.symm.trans kept)
      obtain rfl := Except.ok.inj (has.symm.trans planned.records)
      obtain rfl := Except.ok.inj walked
      have all := reviseAll_spec read (fun item inside => by
        obtain ⟨key, hash, selected⟩ := planned.selected item inside
        exact ⟨key, hash, selected.lists⟩) revised
      have expired : ∀ change ∈ changes, Expired K before s salts change :=
        fun change inside => expired_of_revised planned all inside
      have present : ∀ change ∈ changes, change.1 ∈ s.kv := by
        intro change inside
        obtain ⟨d, -, -, -, record, -⟩ := (expired change inside).record
        exact AList.lookup_isSome.mp (Option.isSome_of_eq_some record)
      refine ⟨changes.map (·.1), ?_, pruned_of_committed all expired found
        (commit_spec present committed)⟩
      rw [get_some kept, listed, planned.records, ok_bind]
      exact all.keys

def emptyStore : Store where
  written := fun _ _ found => by simp at found

def aMonthLater : Int := 40 * dayMs

/-- A record of a request that was accepted long ago, and its private version. -/
def agedStore : Py Store := do
  let s ← emptyStore.put "request:1" (.dict (fields [("sub", .str "urn:itx:req:1"),
    ("state", .str "accept"), ("started_at", .int 0), ("response", .str "text"),
    ("private", .dict (fields [("salt", .str "aa")])),
    ("gate", .dict (fields [("action", .str "accept")]))]))
  s.put "private-version:1" (.dict (fields [("salt", .str "aa")]))

/-- The record is listed, and the application returns. -/
def expires (before : Store) : Bool :=
  match preview toy before 30 aMonthLater aMonthLater with
  | .error _ => false
  | .ok (mid, shown) =>
    match listed (mid.get previewKey), (apply toy mid (getOr shown "token") fun _ =>
      aMonthLater).2 with
    | .ok keys, .ok _ => keys == ["request:1"]
    | _, _ => false

theorem agedStore_expires : (match agedStore with
    | .ok before => expires before
    | .error _ => false) = true := by
  decide +kernel

theorem retention_exact_month : ∃ before mid shown, agedStore = .ok before ∧
    preview toy before 30 aMonthLater aMonthLater = .ok (mid, shown) ∧
    Pruned toy before mid (apply toy mid (getOr shown "token") fun _ => aMonthLater).1
      ["request:1"] := by
  have ran := agedStore_expires
  cases aged : agedStore with
  | error e =>
    rw [aged] at ran
    cases ran
  | ok before =>
    rw [aged] at ran
    simp only [expires] at ran
    cases made : preview toy before 30 aMonthLater aMonthLater with
    | error e =>
      rw [made] at ran
      cases ran
    | ok pair =>
      obtain ⟨mid, shown⟩ := pair
      rw [made] at ran
      cases done : (apply toy mid (getOr shown "token") fun _ => aMonthLater).2 with
      | error e => simp [done] at ran
      | ok out =>
        obtain ⟨keys, named, pruned⟩ := retention_exact.2.2 before mid mid 30 aMonthLater
          aMonthLater shown made .refl (getOr shown "token") (fun _ => aMonthLater) out done
        simp only [named, done, beq_iff_eq] at ran
        subst ran
        exact ⟨before, mid, shown, rfl, made, pruned⟩

end PrivateContent
