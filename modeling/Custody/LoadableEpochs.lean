import Custody.Configuration
import Custody.LineageSoundness
import Mathlib.Data.List.Pairwise

/-!
# Endorsed epochs that can be loaded

`verify_deployment` and `load_config` are two validators written apart. The first compares
the signing keys of the roles as texts and never looks at their identifiers, the second
needs four different identifiers and keys of 32 bytes.
-/

namespace LoadableEpochs

open PyValue Equality HexBytes CanonicalJson CanonicalForm Commitments Statements Schemas
  TransparencyLog ReplayAudit Identity Auditing RegisteredEvidence PassedVerdict Enrollment
  Configuration Lineage LineageSoundness

variable {K : Primitives} {N : Network} {files : Files}

def Admitted (v : Value) : Prop := ∀ path, check path v = .ok ()

theorem admitted_of_written {v : Value} {b : Bytes} (written : canonicalJson v = .ok b) :
    Admitted v := by
  obtain ⟨⟨⟩, checked, -⟩ := bind_ok.mp written
  exact fun path => check_anywhere _ path v checked

theorem admitted_hashed {v : Value} (hash : Returns (fingerprint K v)) : Admitted v := by
  obtain ⟨h, hash⟩ := hash
  obtain ⟨b, written, -⟩ := bind_ok.mp hash
  exact admitted_of_written written

theorem written_of_admitted {v : Value} (admitted : Admitted v) : Returns (canonicalJson v) := by
  rw [canonicalJson, admitted "$", ok_bind]
  exact returns_ok _

theorem admitted_dict {kvs : List (Value × Value)} : Admitted (.dict kvs) ↔
    ∀ x ∈ kvs, (∃ s, x.1 = .str s ∧ isAscii s = true) ∧ Admitted x.2 := by
  constructor
  · intro admitted x member
    exact (checkDict_iff "$" kvs).mp (admitted "$") x member
  · intro each path
    rw [check, checkDict_iff]
    exact each

theorem admitted_fields {xs : List (String × Value)} : Admitted (.dict (fields xs)) ↔
    ∀ x ∈ xs, isAscii x.1 = true ∧ Admitted x.2 := by
  rw [admitted_dict, fields, List.forall_mem_map]
  apply forall₂_congr
  intro x _
  simp

theorem admitted_list {xs : List Value} (each : ∀ x ∈ xs, Admitted x) : Admitted (.list xs) := by
  intro path
  rw [check]
  have all : ∀ (i : Nat) (ys : List Value), (∀ y ∈ ys, Admitted y) →
      checkList path i ys = .ok () := by
    intro i ys
    induction ys generalizing i with
    | nil => exact fun _ => rfl
    | cons y ys ih =>
      intro inside
      rw [checkList, inside y List.mem_cons_self, ok_bind]
      exact ih (i + 1) fun z later => inside z (List.mem_cons_of_mem _ later)
  exact all 0 xs each

/-- What a loaded value contains is itself admitted. -/
theorem admitted_item {v w : Value} {k : String} (admitted : Admitted v)
    (found : v.item k = .ok w) : Admitted w := by
  cases v with
  | dict kvs =>
    obtain ⟨k', member, -⟩ := find_mem (item_dict.mp found)
    exact (admitted_dict.mp admitted _ member).2
  | _ => cases found

theorem admitted_str (s : String) : Admitted (.str s) := fun _ => rfl

theorem admitted_entry {bundle entry : Value} (made : historyEntry K bundle = .ok entry) :
    Admitted entry := by
  obtain ⟨p, held, made⟩ := bind_ok.mp made
  obtain ⟨epoch, h₁, made⟩ := bind_ok.mp made
  obtain ⟨hash, h₂, made⟩ := bind_ok.mp made
  obtain ⟨previousHash, h₃, made⟩ := bind_ok.mp made
  obtain ⟨checkpoint, h₄, last⟩ := bind_ok.mp made
  obtain rfl := Except.ok.inj last
  have whole := admitted_hashed ⟨hash, h₂⟩
  rw [admitted_fields]
  simp only [List.forall_mem_cons]
  exact ⟨⟨by decide, admitted_item whole h₁⟩, ⟨by decide, admitted_str hash⟩,
    ⟨by decide, admitted_item whole h₃⟩, ⟨by decide, admitted_item whole h₄⟩, by simp⟩

/-- The history of an accepted bundle is admitted. -/
theorem admitted_history {bundle : Value} {entries : List Value}
    (made : history K bundle = .ok entries) : Admitted (.list entries) := by
  apply admitted_list
  cases there : bundle.truthy with
  | false =>
    rw [history_falsy there] at made
    obtain rfl := Except.ok.inj made
    simp
  | true =>
    have each := history_entries bundle there made
    clear made there
    generalize lineage bundle = bundles at each
    induction each with
    | nil => simp
    | cons first _ ih => exact List.forall_mem_cons.mpr ⟨admitted_entry first, ih⟩

/-- The local part of a configuration, which the deployment does not write. -/
def localFields : List String := ["role", "config_path", "directory", "ca_files"] ++ pathFields

/-- A configuration, by the fields that `load_config` checks. -/
structure Written (K : Primitives) (p : Value) (d : Dict) : Prop where
  version : find d (.str "version") = some (.int 1)
  lab : find d (.str "lab") = some (.bool false)
  created : ∃ v, p.item "created_at" = .ok v ∧ find d (.str "created_at") = some v
  expires : ∃ v, p.item "expires_at" = .ok v ∧ find d (.str "policy_expires_at") = some v
  timeout : ∃ v, p.item "strict_timeout_ms" = .ok v ∧ find d (.str "strict_timeout_ms") = some v
  identities : ∃ cards identities, p.item "cards" = .ok (.dict cards) ∧
    (cards.mapM fun x => do pure (x.1, ← identityOf x.2)) = .ok identities ∧
    find d (.str "identities") = some (.dict identities)
  unset : ∀ k ∈ localFields, find d (.str k) = none
  admitted : ∀ s, p.item "model_id" = .ok (.str s) → (Admitted (.dict d) ↔ isAscii s = true)

/-- The identities are admitted if the cards they are taken from are. -/
theorem admitted_identities {cards identities : List (Value × Value)}
    (whole : Admitted (.dict cards))
    (mapped : (cards.mapM fun x => do pure (x.1, ← identityOf x.2)) = .ok identities) :
    Admitted (.dict identities) := by
  rw [admitted_dict]
  intro y member
  obtain ⟨x, inside, made⟩ := mem_mapM_ok mapped member
  obtain ⟨t, identity, made⟩ := bind_ok.mp made
  obtain rfl := Except.ok.inj made
  obtain ⟨key, card⟩ := admitted_dict.mp whole x inside
  obtain ⟨body, iss, kid, publicKey, hb, h₁, h₂, h₃, rfl⟩ := identityOf_ok identity
  have inBody := admitted_item card hb
  refine ⟨key, ?_⟩
  rw [admitted_fields]
  simp only [List.forall_mem_cons]
  exact ⟨⟨by decide, admitted_item inBody h₁⟩, ⟨by decide, admitted_item inBody h₂⟩,
    ⟨by decide, admitted_item inBody h₃⟩, by simp⟩

theorem admitted_endpoints {cards endpoints : List (Value × Value)}
    (whole : Admitted (.dict cards))
    (mapped : ((cards.filter fun x => !isU x.1).mapM fun x => do pure (x.1, ← endpointOf x.2)) =
      .ok endpoints) : Admitted (.dict endpoints) := by
  rw [admitted_dict]
  intro y member
  obtain ⟨x, inside, made⟩ := mem_mapM_ok mapped member
  obtain ⟨t, endpoint, made⟩ := bind_ok.mp made
  obtain rfl := Except.ok.inj made
  obtain ⟨key, card⟩ := admitted_dict.mp whole x (List.mem_filter.mp inside).1
  obtain ⟨body, hb, he⟩ := bind_ok.mp endpoint
  exact ⟨key, admitted_item (admitted_item card hb) he⟩

/-- The configuration written for a bundle has the fields of its proposal. -/
theorem configuration_written {bundle p cfg : Value} (held : bundle.item "proposal" = .ok p)
    (made : configuration K bundle = .ok cfg) : ∃ d, cfg = .dict d ∧ Written K p d := by
  obtain ⟨p', h₀, made⟩ := bind_ok.mp made
  obtain rfl := Except.ok.inj (h₀.symm.trans held)
  obtain ⟨epochs, recorded, made⟩ := bind_ok.mp made
  obtain ⟨created, h₁, made⟩ := bind_ok.mp made
  obtain ⟨expires, h₂, made⟩ := bind_ok.mp made
  obtain ⟨logId, h₃, made⟩ := bind_ok.mp made
  obtain ⟨epoch, h₄, made⟩ := bind_ok.mp made
  obtain ⟨hash, h₅, made⟩ := bind_ok.mp made
  obtain ⟨cardsValue, h₆, made⟩ := bind_ok.mp made
  obtain ⟨cards, h₇, made⟩ := bind_ok.mp made
  obtain ⟨identities, h₈, made⟩ := bind_ok.mp made
  obtain ⟨endpoints, h₉, made⟩ := bind_ok.mp made
  obtain ⟨modelId, h₁₀, made⟩ := bind_ok.mp made
  obtain ⟨modelHash, h₁₁, made⟩ := bind_ok.mp made
  split at made
  next => cases made
  next =>
    obtain ⟨kind, h₁₂, made⟩ := bind_ok.mp made
    obtain ⟨name, h₁₃, made⟩ := bind_ok.mp made
    obtain ⟨preExec, h₁₄, made⟩ := bind_ok.mp made
    obtain ⟨timeout, h₁₅, made⟩ := bind_ok.mp made
    obtain ⟨entries, h₁₆, made⟩ := bind_ok.mp made
    obtain ⟨days, h₁₇, last⟩ := bind_ok.mp made
    obtain rfl := Except.ok.inj last
    cases cardsValue with
    | dict kvs =>
      obtain rfl := Except.ok.inj h₇
      have whole := admitted_hashed ⟨hash, h₅⟩
      have inCards := admitted_item whole h₆
      obtain ⟨text_, rfl⟩ := logIdOf_text h₃
      refine ⟨_, rfl, rfl, rfl, ⟨created, h₁, rfl⟩, ⟨expires, h₂, rfl⟩, ⟨timeout, h₁₅, rfl⟩,
        ⟨kvs, identities, h₆, h₈, rfl⟩, ?_, ?_⟩
      · intro k local_
        simp only [localFields, pathFields, List.cons_append, List.nil_append, List.mem_cons,
          List.not_mem_nil, or_false] at local_
        rcases local_ with rfl | rfl | rfl | rfl | rfl | rfl | rfl | rfl | rfl
        all_goals rfl
      · intro s named
        obtain rfl := Except.ok.inj (h₁₀.symm.trans named)
        rw [admitted_fields]
        simp only [List.forall_mem_cons]
        have hashes : Admitted (.dict [(Value.str s, modelHash)]) ↔ isAscii s = true := by
          rw [admitted_dict]
          simp [admitted_item whole h₁₁]
        rw [hashes]
        have scalar : ∀ n, Admitted (.int n) := fun _ _ => rfl
        have flag : ∀ b, Admitted (.bool b) := fun _ _ => rfl
        simp [isAscii, scalar, flag, admitted_str, admitted_item whole h₁, admitted_item whole h₂,
          admitted_item whole h₄, admitted_history recorded, admitted_identities inCards h₈,
          admitted_endpoints inCards h₉, admitted_item whole h₁₂, admitted_item whole h₁₃,
          admitted_item whole h₁₄, admitted_item whole h₁₅, admitted_item whole h₁₆,
          admitted_item whole h₁₇]
    | _ => cases h₇

/-- The configuration as `load_config` completes it when no file is named in it. -/
def completed (path directory : String) (d : Dict) (role : Value) : Dict :=
  insert (insert (insert (insert d (.str "role") role) (.str "config_path") (.str path))
    (.str "directory") (.str directory)) (.str "ca_files") (.dict [])

/-- Completing a configuration changes only the paths and the role. -/
theorem completed_find {path directory : String} {d : Dict} {role : Value} {k : String}
    (other : k ∉ ["role", "config_path", "directory", "ca_files"]) :
    find (completed path directory d role) (.str k) = find d (.str k) := by
  simp only [List.mem_cons, List.not_mem_nil, or_false, not_or] at other
  obtain ⟨h₁, h₂, h₃, h₄⟩ := other
  rw [completed, find_insert_str_ne _ (Ne.symm h₄), find_insert_str_ne _ (Ne.symm h₃),
    find_insert_str_ne _ (Ne.symm h₂), find_insert_str_ne _ (Ne.symm h₁)]

/-- A configuration without paths has none to resolve. -/
theorem resolveFields_unset {config : Dict} : ∀ {names : List String},
    (∀ k ∈ names, find config (.str k) = none) →
    names.foldlM (resolveField files) config = .ok config
  | [], _ => rfl
  | k :: names, unset => by
    rw [List.foldlM_cons, resolveField, unset k List.mem_cons_self]
    exact resolveFields_unset fun k' later => unset k' (List.mem_cons_of_mem _ later)

theorem insert_unset {d : Dict} {k : String} (unset : find d (.str k) = none) (v : Value) :
    insert d (.str k) v = d ++ [(.str k, v)] := by
  induction d with
  | nil => rfl
  | cons x d ih =>
    obtain ⟨k', v'⟩ := x
    rw [find] at unset
    split at unset
    next => cases unset
    next other =>
      rw [PyValue.insert, if_neg other, ih unset]
      rfl

theorem admitted_role {d : Dict} {role : String} (unset : find d (.str "role") = none) :
    Admitted (.dict (insert d (.str "role") (.str role))) ↔ Admitted (.dict d) := by
  rw [insert_unset unset, admitted_dict, admitted_dict, List.forall_mem_append]
  simp [isAscii, admitted_str]

/-- The configuration written for a role loads exactly if its values are admitted and its checks
pass. -/
theorem loadConfig_role {p : Value} {d : Dict} {role path directory : String}
    (written : Written K p d) (known : role ∈ roles) :
    Returns (loadConfig K N files path directory (.dict (insert d (.str "role") (.str role)))) ↔
      Admitted (.dict d) ∧
      Returns (checkConfig K N files (completed path directory d (.str role))) := by
  have unset : ∀ k ∈ pathFields, find (insert (insert (insert d (.str "role") (.str role))
      (.str "config_path") (.str path)) (.str "directory") (.str directory)) (.str k) = none := by
    intro k listed
    have other : k ∉ ["role", "config_path", "directory", "ca_files"] := by
      revert k
      decide
    simp only [List.mem_cons, List.not_mem_nil, or_false, not_or] at other
    rw [find_insert_str_ne _ (Ne.symm other.2.2.1), find_insert_str_ne _ (Ne.symm other.2.1),
      find_insert_str_ne _ (Ne.symm other.1)]
    exact written.unset k (List.mem_append_right _ listed)
  have authorities : resolveAuthorities files (insert (insert (insert d (.str "role") (.str role))
      (.str "config_path") (.str path)) (.str "directory") (.str directory)) =
      .ok (completed path directory d (.str role)) := by
    have none_ := written.unset "ca_files" (by decide)
    rw [resolveAuthorities, find_insert_str_ne _ (by decide), find_insert_str_ne _ (by decide),
      find_insert_str_ne _ (by decide), none_]
    rfl
  have version : find (insert d (.str "role") (.str role)) (.str "version") = some (.int 1) := by
    rw [find_insert_str_ne _ (by decide)]
    exact written.version
  have listed : memberOf (.str role) (texts roles) = true := memberOf_texts.mpr ⟨role, known, rfl⟩
  have self : find (insert d (.str "role") (.str role)) (.str "role") = some (.str role) :=
    find_insert_self d (by simp) _
  have inRole : Admitted (.dict (insert d (.str "role") (.str role))) ↔ Admitted (.dict d) :=
    admitted_role (written.unset "role" (by decide))
  rw [← inRole]
  constructor
  · rintro ⟨v, loaded⟩
    obtain ⟨raw, read, loaded⟩ := bind_ok.mp loaded
    obtain ⟨b, text_, read⟩ := bind_ok.mp read
    obtain rfl := Except.ok.inj read
    refine ⟨admitted_of_written text_, ?_⟩
    simp only [Value.get, version, self, ok_bind, Option.getD_some, listed, items,
      resolveFields_unset unset, authorities] at loaded
    obtain ⟨⟨⟩, -, loaded⟩ := bind_ok.mp loaded
    obtain ⟨⟨⟩, checked, -⟩ := bind_ok.mp loaded
    exact ⟨(), checked⟩
  · rintro ⟨admitted, ⟨⟨⟩, checked⟩⟩
    obtain ⟨b, text_⟩ := written_of_admitted admitted
    have passed : refuseIf (!(Value.int 1).eq (.int 1) || !true) "지원하지 않는 연결 설정입니다." =
        .ok () := by
      decide
    rw [loadConfig, jsonLoads, text_, ok_bind, pure_ok, ok_bind]
    simp only [Value.get, version, self, ok_bind, Option.getD_some, listed, items, passed,
      resolveFields_unset unset, authorities, checked]
    exact returns_ok _

/-- A field of the body of a card. -/
def bodyItem (card : Value) (name : String) : Py Value := do (← card.item "body").item name

/-- The same of the card of a role. -/
def valueIn (cards : List (Value × Value)) (name role : String) : Py Value :=
  match find cards (.str role) with
  | some card => bodyItem card name
  | none => .error .keyError

/-- A loop over the items of a dict finds for each key what it computed there. -/
theorem find_mapM {A B : Type} {f : A → Py B} {xs : List (Value × A)} {ys : List (Value × B)}
    (made : (xs.mapM fun x => do pure (x.1, ← f x.2)) = .ok ys) {k : Value} {a : A}
    (found : find xs k = some a) : ∃ b, f a = .ok b ∧ find ys k = some b := by
  induction xs generalizing ys with
  | nil => cases found
  | cons x xs ih =>
    rw [List.mapM_cons] at made
    obtain ⟨y, first, made⟩ := bind_ok.mp made
    obtain ⟨rest, later, made⟩ := bind_ok.mp made
    obtain rfl := Except.ok.inj made
    obtain ⟨b, here, first⟩ := bind_ok.mp first
    obtain rfl := Except.ok.inj first
    rw [find] at found ⊢
    split at found
    next same =>
      obtain rfl := Option.some.inj found
      exact ⟨b, here, if_pos same⟩
    next other =>
      rw [if_neg other]
      exact ih later found

/-- The loaded configuration has the identity of the card it was written from. -/
theorem identityIn_completed (path directory : String) (role : Value) {p : Value} {d : Dict}
    {cards : List (Value × Value)} {card : Value} {r : String} (written : Written K p d)
    (held : p.item "cards" = .ok (.dict cards)) (found : find cards (.str r) = some card) :
    ∃ t, identityIn (completed path directory d role) r = .ok t ∧
      ∀ name ∈ ["iss", "kid", "public_key"], t.item name = bodyItem card name := by
  obtain ⟨cards', identities, held', mapped, kept⟩ := written.identities
  obtain rfl := Value.dict.inj (Except.ok.inj (held'.symm.trans held))
  obtain ⟨t, read, inIdentities⟩ := find_mapM mapped found
  refine ⟨t, ?_, ?_⟩
  · rw [identityIn, getItem, completed_find (by decide), kept]
    exact item_dict.mpr inIdentities
  · obtain ⟨body, iss, kid, publicKey, hb, h₁, h₂, h₃, rfl⟩ := identityOf_ok read
    intro name listed
    simp only [List.mem_cons, List.not_mem_nil, or_false] at listed
    rw [bodyItem, hb, ok_bind]
    rcases listed with rfl | rfl | rfl
    · exact h₁.symm
    · exact h₂.symm
    · exact h₃.symm

theorem mapM_congr {A B : Type} {f g : A → Py B} : ∀ {xs : List A},
    (∀ x ∈ xs, f x = g x) → xs.mapM f = xs.mapM g
  | [], _ => rfl
  | x :: xs, same => by
    rw [List.mapM_cons, List.mapM_cons, same x List.mem_cons_self,
      mapM_congr fun y later => same y (List.mem_cons_of_mem _ later)]

/-- Comparing all parties' fields in the configuration is comparing them on the cards. -/
theorem differ_completed (path directory : String) (role : Value) {p : Value} {d : Dict}
    {cards : List (Value × Value)} {name : String} (written : Written K p d)
    (held : p.item "cards" = .ok (.dict cards))
    (complete : ∀ r ∈ parties, ∃ card, find cards (.str r) = some card)
    (listed : name ∈ ["iss", "kid", "public_key"]) :
    differ (completed path directory d role) name =
      parties.mapM (valueIn cards name) >>= distinct := by
  rw [differ]
  congr 1
  apply mapM_congr
  intro r party
  obtain ⟨card, found⟩ := complete r party
  obtain ⟨t, read, same⟩ := identityIn_completed path directory role written held found
  rw [read, ok_bind, same name listed, valueIn, found]

/-- A list of hashable values without repetition is what the check accepts. -/
theorem distinct_ok {xs : List Value} : distinct xs = .ok true ↔
    (∀ x ∈ xs, x.hashable = true) ∧ xs.Pairwise fun x y => x.eq y = false := by
  rw [distinct, hashed, ← List.all_eq_true]
  cases xs.all Value.hashable with
  | false => simp
  | true => simp

/-- A relation between the results of a loop is one between its inputs. -/
theorem mapM_pairwise {A B : Type} {f : A → Py B} {R : B → B → Prop} : ∀ {xs : List A}
    {ys : List B}, xs.mapM f = .ok ys →
    (ys.Pairwise R ↔ xs.Pairwise fun x x' => ∀ y y', f x = .ok y → f x' = .ok y' → R y y')
  | [], ys, made => by
    obtain rfl := Except.ok.inj made
    simp
  | x :: xs, ys, made => by
    rw [List.mapM_cons] at made
    obtain ⟨y, first, made⟩ := bind_ok.mp made
    obtain ⟨rest, later, made⟩ := bind_ok.mp made
    obtain rfl := Except.ok.inj made
    rw [List.pairwise_cons, List.pairwise_cons, mapM_pairwise later]
    apply and_congr_left
    intro _
    constructor
    · intro each x' member z z' hz hz'
      obtain rfl := Except.ok.inj (hz.symm.trans first)
      obtain ⟨w, inside, hw⟩ := mapM_ok_mem later member
      obtain rfl := Except.ok.inj (hw.symm.trans hz')
      exact each w inside
    · intro each w inside
      obtain ⟨x', member, hw⟩ := mem_mapM_ok later inside
      exact each x' member y w first hw

/-- Two different members of a pairwise list are related one way or the other. -/
theorem pairwise_either {A : Type} {R : A → A → Prop} {l : List A} (pairs : l.Pairwise R) {a b : A}
    (first : a ∈ l) (second : b ∈ l) (other : a ≠ b) : R a b ∨ R b a := by
  have closed : l.Pairwise fun x y => R x y ∨ R y x := pairs.imp Or.inl
  have : Std.Symm fun x y => R x y ∨ R y x := ⟨fun _ _ => Or.symm⟩
  exact List.Pairwise.forall closed first second other

theorem eq_comm_of_hashable {a b : Value} (scalar : a.hashable = true)
    (differs : b.eq a = false) : a.eq b = false := by
  rw [Bool.eq_false_iff] at differs ⊢
  intro same
  rw [eq_scalar scalar] at same
  have back := scalarEq_symm same
  rw [← eq_scalar (hashable_of_scalarEq same)] at back
  exact differs back

theorem find_named {r : String} : ∀ {kvs : List (Value × Value)}, .str r ∈ kvs.map Prod.fst →
    ∃ v, find kvs (.str r) = some v ∧ (.str r, v) ∈ kvs
  | [], listed => nomatch listed
  | (k, v) :: rest, listed => by
    rw [find]
    split
    next here =>
      obtain rfl : k = .str r := scalarEq_str_left (scalarEq_symm here)
      exact ⟨v, rfl, List.mem_cons_self⟩
    next other =>
      rcases List.mem_cons.mp listed with same | later
      · obtain rfl : Value.str r = k := same
        simp at other
      · obtain ⟨w, found, member⟩ := find_named later
        exact ⟨w, found, List.mem_cons_of_mem _ member⟩

/-- The values that a field has in two of these cards differ. -/
def Differs (name : String) (x y : Value × Value) : Prop :=
  ∀ v w, bodyItem x.2 name = .ok v → bodyItem y.2 name = .ok w → v.eq w = false

/-- The check over the parties' fields passes exactly if all their values differ. -/
theorem parties_distinct_iff {cards : List (Value × Value)} {name : String}
    (complete : ∀ r ∈ parties, .str r ∈ cards.map Prod.fst)
    (given : ∀ x ∈ cards, Returns (bodyItem x.2 name)) (pairs : cards.Pairwise (Differs name)) :
    (parties.mapM (valueIn cards name) >>= distinct) = .ok true ↔
      ∀ r ∈ parties, ∀ v, valueIn cards name r = .ok v → v.hashable = true := by
  have each : ∀ r ∈ parties, Returns (valueIn cards name r) := by
    intro r party
    obtain ⟨card, found, member⟩ := find_named (complete r party)
    rw [valueIn, found]
    exact given _ member
  obtain ⟨vs, read⟩ := mapM_returns.mpr each
  rw [read, ok_bind, distinct_ok]
  have scalars : (∀ v ∈ vs, v.hashable = true) ↔
      ∀ r ∈ parties, ∀ v, valueIn cards name r = .ok v → v.hashable = true := by
    constructor
    · intro all r party v here
      obtain ⟨w, inside, same⟩ := mapM_ok_mem read party
      obtain rfl := Except.ok.inj (here.symm.trans same)
      exact all v inside
    · intro all v inside
      obtain ⟨r, party, here⟩ := mem_mapM_ok read inside
      exact all r party v here
  rw [scalars, and_iff_left_iff_imp, mapM_pairwise read]
  intro hashables
  have separate : parties.Nodup := by decide
  refine separate.imp_of_mem ?_
  intro r s first second other v w hv hw
  obtain ⟨card, found, member⟩ := find_named (complete r first)
  obtain ⟨card', found', member'⟩ := find_named (complete s second)
  have hv' := hv
  rw [valueIn, found] at hv
  rw [valueIn, found'] at hw
  have apart : (Value.str r, card) ≠ (Value.str s, card') := by
    intro same
    exact other (Value.str.inj (Prod.mk.inj same).1)
  rcases pairwise_either pairs member member' apart with forwards | backwards
  · exact forwards v w hv hw
  · exact eq_comm_of_hashable (hashables r first v hv') (backwards w v hw hv)

def cardsOf (bundle : Value) : Py Dict := do items (← (← bundle.item "proposal").item "cards")

/-- Two cards do not write one key in two ways. -/
def OtherKey (x y : Value × Value) : Prop :=
  ∀ s t, bodyItem x.2 "public_key" = .ok (.str s) → bodyItem y.2 "public_key" = .ok (.str t) →
    digits s ≠ digits t

/-- What the two validators agree about. -/
structure Agreed (bundle : Value) : Prop where
  readable : Readable bundle
  model : ∃ p s, bundle.item "proposal" = .ok p ∧ p.item "model_id" = .ok (.str s) ∧
    isAscii s = true
  cards : ∃ cards, cardsOf bundle = .ok cards ∧ cards.Pairwise OtherKey ∧
    cards.Pairwise (Differs "kid") ∧
    ∀ r ∈ parties, ∀ kid, valueIn cards "kid" r = .ok kid → kid.hashable = true

/-- The keys and the identifiers of the roles are their own, and every role loads the
configuration of the bundle. -/
structure Loadable (K : Primitives) (N : Network) (files : Files) (path directory : String)
    (bundle : Value) : Prop where
  keys : ∃ cards keys, cardsOf bundle = .ok cards ∧
    (cards.mapM fun x => bodyItem x.2 "public_key" >>= fromHexValue) = .ok keys ∧
    keys.Pairwise (· ≠ ·) ∧ ∀ key ∈ keys, key.length = 32
  kids : ∃ cards kids, cardsOf bundle = .ok cards ∧
    (cards.mapM fun x => bodyItem x.2 "kid") = .ok kids ∧
    kids.Pairwise fun kid kid' => kid.eq kid' = false
  loads : ∃ cards d, cardsOf bundle = .ok cards ∧ configuration K bundle = .ok (.dict d) ∧
    ∀ x ∈ cards,
      Returns (loadConfig K N files path directory (.dict (insert d (.str "role") x.1)))

/-- An accepted epoch with what its checks establish. -/
structure Checked (K : Primitives) (N : Network) (bundle p : Value) (cards : List (Value × Value)) :
    Prop where
  proposal : bundle.item "proposal" = .ok p
  held : p.item "cards" = .ok (.dict cards)
  checked : ∃ n created expires names, Proposal p n created expires names ∧
    Cards K N p expires cards ∧ cards.map Prod.fst = texts names

/-- An accepted bundle passed all checks of its cards. -/
theorem checked_of_accepted {levels : Nat} {bundle p previous : Value}
    (level : Accepted K N levels bundle p previous) : ∃ cards, Checked K N bundle p cards := by
  obtain ⟨n, created, expires, names, checked⟩ := checkProposal_ok level.checked
  obtain ⟨cards, each⟩ := checkCards_ok checked.expires level.cards
  exact ⟨cards, level.proposal, each.held, n, created, expires, names, checked, each,
    cards_named each.held checked.cards⟩

section Checked

variable {bundle p : Value} {cards : List (Value × Value)}

theorem cardsOf_checked (c : Checked K N bundle p cards) : cardsOf bundle = .ok cards := by
  rw [cardsOf, c.proposal, ok_bind, c.held]
  rfl

/-- Every party has a card. -/
theorem party_card (c : Checked K N bundle p cards) : ∀ r ∈ parties,
    .str r ∈ cards.map Prod.fst := by
  obtain ⟨n, created, expires, names, checked, -, named⟩ := c.checked
  intro r party
  rw [named]
  exact List.mem_map_of_mem (checked.complete r party)

/-- The name and the key in a card, which is the one that signed it. -/
theorem card_key (c : Checked K N bundle p cards) {x : Value × Value} (member : x ∈ cards) :
    ∃ r s key, x.1 = .str r ∧ r ∈ roles ∧ bodyItem x.2 "iss" = .ok (.str (partyOf r)) ∧
      bodyItem x.2 "public_key" = .ok (.str s) ∧ fromHex s = some key ∧
      ∃ msg sig, K.verify key msg sig = true := by
  obtain ⟨n, created, expires, names, checked, each, named⟩ := c.checked
  obtain ⟨r, body, card⟩ := each.each x member
  obtain ⟨r', known, own, iss, -⟩ := card.accepted.role
  obtain rfl := Value.str.inj (Except.ok.inj (own.symm.trans card.own))
  obtain ⟨key, encoded, signature, decoded, -, -, valid⟩ := card.accepted.signed
  obtain ⟨keyText, given, decoded⟩ := bind_ok.mp decoded
  cases keyText with
  | str s =>
    rw [fromHexValue] at decoded
    split at decoded
    next read =>
      obtain rfl := Except.ok.inj decoded
      refine ⟨r', s, _, card.role, known, ?_, ?_, read, encoded, signature, valid⟩
      · rw [bodyItem, card.accepted.held, ok_bind, iss]
      · rw [bodyItem, card.accepted.held, ok_bind, given]
    next => cases decoded
  | _ => cases decoded

/-- No two cards state the same public key. -/
theorem keys_differ (c : Checked K N bundle p cards) : cards.Pairwise (Differs "public_key") := by
  obtain ⟨n, created, expires, names, checked, each, named⟩ := c.checked
  obtain ⟨keys, read, own⟩ := each.keys
  have pairs := (distinct_ok.mp own).2
  rw [mapM_pairwise read] at pairs
  exact pairs

/-- The keys differ as bytes exactly when no key is written in two ways. -/
theorem keys_iff (c : Checked K N bundle p cards)
    (strict : ∀ key msg sig, K.verify key msg sig = true → key.length = 32) :
    (∃ keys, (cards.mapM fun x => bodyItem x.2 "public_key" >>= fromHexValue) = .ok keys ∧
      keys.Pairwise (· ≠ ·) ∧ ∀ key ∈ keys, key.length = 32) ↔ cards.Pairwise OtherKey := by
  have reads : ∀ x ∈ cards, ∃ s key, bodyItem x.2 "public_key" = .ok (.str s) ∧
      fromHex s = some key ∧ (bodyItem x.2 "public_key" >>= fromHexValue) = .ok key ∧
      key.length = 32 := by
    intro x member
    obtain ⟨r, s, key, -, -, -, given, read, msg, sig, valid⟩ := card_key c member
    refine ⟨s, key, given, read, ?_, strict key msg sig valid⟩
    rw [given, ok_bind, fromHexValue, read]
  obtain ⟨keys, made, long⟩ := mapM_each (P := fun key => key.length = 32)
    (f := fun x : Value × Value => bodyItem x.2 "public_key" >>= fromHexValue) (by
      intro x (member : x ∈ cards)
      obtain ⟨s, key, -, -, read, long⟩ := reads x member
      exact ⟨key, read, long⟩)
  have same : keys.Pairwise (· ≠ ·) ↔ cards.Pairwise OtherKey := by
    rw [mapM_pairwise made]
    constructor
    · intro pairs
      refine pairs.imp_of_mem ?_
      intro x y first second apart s t hs ht
      obtain ⟨s', key, given, read, decoded, -⟩ := reads x first
      obtain ⟨t', key', given', read', decoded', -⟩ := reads y second
      obtain rfl := Value.str.inj (Except.ok.inj (hs.symm.trans given))
      obtain rfl := Value.str.inj (Except.ok.inj (ht.symm.trans given'))
      exact fun equal => apart key key' decoded decoded' ((fromHex_same_iff read read').mpr equal)
    · intro pairs
      refine pairs.imp_of_mem ?_
      intro x y first second apart key key' hk hk'
      obtain ⟨s, _, given, read, decoded, -⟩ := reads x first
      obtain ⟨t, _, given', read', decoded', -⟩ := reads y second
      obtain rfl := Except.ok.inj (hk.symm.trans decoded)
      obtain rfl := Except.ok.inj (hk'.symm.trans decoded')
      exact fun equal => apart s t given given' ((fromHex_same_iff read read').mp equal)
  constructor
  · rintro ⟨keys', made', pairs, -⟩
    obtain rfl := Except.ok.inj (made'.symm.trans made)
    exact same.mp pairs
  · intro pairs
    exact ⟨keys, made, same.mpr pairs, long⟩

variable {d : Dict}

/-- The pinned keys of an accepted bundle pass the check of the configuration. -/
theorem checkPinned_completed (path directory : String) (role : Value)
    (c : Checked K N bundle p cards) (written : Written K p d)
    (strict : ∀ key msg sig, K.verify key msg sig = true → key.length = 32) {r : String}
    (party : r ∈ parties) : checkPinned (completed path directory d role) r = .ok () := by
  obtain ⟨card, found, member⟩ := find_named (party_card c r party)
  obtain ⟨t, read, same⟩ := identityIn_completed path directory role written c.held found
  obtain ⟨r', s, key, named, -, iss, publicKey, decoded, msg, sig, valid⟩ := card_key c member
  obtain rfl := Value.str.inj named
  have long := strict key msg sig valid
  rw [checkPinned, read, ok_bind, same "iss" (by simp), iss, ok_bind,
    refuseIf_passed (by rw [(eq_str_right _ _).mpr rfl]; rfl), ok_bind,
    same "public_key" (by simp), publicKey, ok_bind, fromHexValue, decoded]
  exact refuseIf_passed (by simp [long])

/-- So does its period of validity. -/
theorem checkPeriod_completed (path directory : String) (role : Value)
    (c : Checked K N bundle p cards) (written : Written K p d) :
    checkPeriod (completed path directory d role) = .ok () := by
  obtain ⟨n, created, expires, names, checked, each, -⟩ := c.checked
  obtain ⟨ms, timed, low, high⟩ := checked.timeout
  obtain ⟨v, timed', h₁⟩ := written.timeout
  obtain ⟨w, dated, h₂⟩ := written.expires
  obtain ⟨u, dated', h₃⟩ := written.created
  obtain rfl := Except.ok.inj (timed'.symm.trans timed)
  obtain rfl := Except.ok.inj (dated.symm.trans checked.expires)
  obtain rfl := Except.ok.inj (dated'.symm.trans checked.created)
  have less := checked.ordered
  have h₄ := written.lab
  rw [checkPeriod]
  simp only [getOr, completed_find (show "strict_timeout_ms" ∉ _ by decide),
    completed_find (show "policy_expires_at" ∉ _ by decide),
    completed_find (show "created_at" ∉ _ by decide), completed_find (show "lab" ∉ _ by decide),
    h₁, h₂, h₃, h₄, Option.getD_some]
  rw [refuseIf_passed (by simp [low, high]), ok_bind]
  exact refuseIf_passed (by simp [isBool, less])

/-- So do its key identifiers, where they differ. -/
theorem checkSeparate_completed (path directory : String) (role : Value)
    (c : Checked K N bundle p cards) (written : Written K p d)
    (given : ∀ x ∈ cards, Returns (bodyItem x.2 "kid")) (pairs : cards.Pairwise (Differs "kid")) :
    Returns (checkSeparate (completed path directory d role)) ↔
      ∀ r ∈ parties, ∀ kid, valueIn cards "kid" r = .ok kid → kid.hashable = true := by
  have complete : ∀ r ∈ parties, ∃ card, find cards (.str r) = some card := by
    intro r party
    obtain ⟨card, found, -⟩ := find_named (party_card c r party)
    exact ⟨card, found⟩
  have keysGiven : ∀ x ∈ cards, Returns (bodyItem x.2 "public_key") := by
    intro x member
    obtain ⟨r, s, key, -, -, -, publicKey, -⟩ := card_key c member
    exact ⟨.str s, publicKey⟩
  have keys : differ (completed path directory d role) "public_key" = .ok true := by
    rw [differ_completed path directory role written c.held complete (by simp),
      parties_distinct_iff (party_card c) keysGiven (keys_differ c)]
    intro r party v here
    obtain ⟨card, found, member⟩ := find_named (party_card c r party)
    obtain ⟨_, s, key, -, -, -, publicKey, -⟩ := card_key c member
    rw [valueIn, found] at here
    obtain rfl := Except.ok.inj (here.symm.trans publicKey)
    rfl
  rw [← parties_distinct_iff (party_card c) given pairs,
    ← differ_completed path directory role written c.held complete (by simp), checkSeparate]
  constructor
  · rintro ⟨u, checked⟩
    obtain ⟨separate, kids, checked⟩ := bind_ok.mp checked
    obtain ⟨⟨⟩, passed, -⟩ := bind_ok.mp checked
    have own := refuseIf_ok.mp passed
    rw [Bool.not_eq_false'] at own
    rw [kids, own]
  · intro kids
    rw [kids, keys]
    exact returns_ok ()

/-- So does the deployment itself. -/
theorem checkDeployment_completed (path directory : String) (role : Value)
    (written : Written K p d) :
    checkDeployment K N files (completed path directory d role) = .ok () := by
  have unset := written.unset "deployment_file" (by decide)
  rw [checkDeployment, getOr, completed_find (by decide), unset]
  rfl

/-- Taken together, an accepted bundle with differing key identifiers passes. -/
theorem checkConfig_completed (path directory : String) (role : Value)
    (c : Checked K N bundle p cards) (written : Written K p d)
    (strict : ∀ key msg sig, K.verify key msg sig = true → key.length = 32)
    (given : ∀ x ∈ cards, Returns (bodyItem x.2 "kid")) (pairs : cards.Pairwise (Differs "kid")) :
    Returns (checkConfig K N files (completed path directory d role)) ↔
      ∀ r ∈ parties, ∀ kid, valueIn cards "kid" r = .ok kid → kid.hashable = true := by
  rw [← checkSeparate_completed path directory role c written given pairs]
  have pinned : Returns (parties.mapM (checkPinned (completed path directory d role))) := by
    rw [mapM_returns]
    intro r party
    exact ⟨(), checkPinned_completed path directory role c written strict party⟩
  obtain ⟨us, pinned⟩ := pinned
  rw [checkConfig, pinned, ok_bind, returns_bind]
  constructor
  · rintro ⟨u, separate, -⟩
    exact ⟨u, separate⟩
  · rintro ⟨u, separate⟩
    refine ⟨u, separate, ?_⟩
    rw [checkPeriod_completed path directory role c written, ok_bind,
      checkDeployment_completed path directory role written]
    exact returns_ok ()

end Checked

/-- For an accepted bundle, the operators' keys and identifiers are their own and every role loads
the configuration exactly when the two validators agree about it. -/
theorem endorsed_loadable_iff {bundle : Value} {h path directory : String}
    (strict : ∀ key msg sig, K.verify key msg sig = true → key.length = 32)
    (accepted : verifyDeployment K N bundle = .ok h) :
    Loadable K N files path directory bundle ↔ Agreed bundle := by
  obtain ⟨p, previous, level⟩ := verifyLevels_ok accepted
  obtain ⟨cards, c⟩ := checked_of_accepted level
  obtain ⟨s, named⟩ := (checkModel_ok level.model).id
  have listed := cardsOf_checked c
  constructor
  · rintro ⟨⟨_, keys, h₁, read, apart⟩, ⟨_, kids, h₂, kidsRead, separate⟩, ⟨_, d, h₃, made, loads⟩⟩
    obtain rfl := Except.ok.inj (h₁.symm.trans listed)
    obtain rfl := Except.ok.inj (h₂.symm.trans listed)
    obtain rfl := Except.ok.inj (h₃.symm.trans listed)
    obtain ⟨_, same, written⟩ := configuration_written level.proposal made
    obtain rfl := Value.dict.inj same
    obtain ⟨card, -, member⟩ := find_named (party_card c "U" (by decide))
    obtain ⟨admitted, checked⟩ :=
      (loadConfig_role written (by decide : "U" ∈ roles)).mp (loads _ member)
    have pairs := (mapM_pairwise kidsRead).mp separate
    have given := mapM_returns.mp ⟨kids, kidsRead⟩
    refine ⟨readable_of_configuration level.nested level.proposal c.held made,
      ⟨p, s, level.proposal, named, (written.admitted s named).mp admitted⟩,
      _, listed, (keys_iff c strict).mp ⟨keys, read, apart⟩, pairs, ?_⟩
    exact (checkConfig_completed path directory (.str "U") c written strict given pairs).mp checked
  · rintro ⟨readable, ⟨p', s', h₁, h₂, ascii⟩, ⟨_, h₃, others, pairs, hashables⟩⟩
    obtain rfl := Except.ok.inj (h₁.symm.trans level.proposal)
    obtain rfl := Value.str.inj (Except.ok.inj (h₂.symm.trans named))
    obtain rfl := Except.ok.inj (h₃.symm.trans listed)
    obtain ⟨cfg, made⟩ := configuration_of_readable level readable
    obtain ⟨d, rfl, written⟩ := configuration_written level.proposal made
    obtain ⟨q, cards', h₄, h₅, -, kidsGiven⟩ := readable.fields
    obtain rfl := Except.ok.inj (h₄.symm.trans level.proposal)
    obtain rfl := Value.dict.inj (Except.ok.inj (h₅.symm.trans c.held))
    obtain ⟨kids, kidsRead⟩ := mapM_returns.mpr kidsGiven
    obtain ⟨keys, read, apart⟩ := (keys_iff c strict).mpr others
    refine ⟨⟨cards', keys, listed, read, apart⟩,
      ⟨cards', kids, listed, kidsRead, (mapM_pairwise kidsRead).mpr pairs⟩,
      ⟨cards', d, listed, made, ?_⟩⟩
    intro x member
    obtain ⟨r, _, _, role, known, -⟩ := card_key c member
    rw [role, loadConfig_role written known]
    exact ⟨(written.admitted s' named).mpr ascii,
      (checkConfig_completed path directory (.str r) c written strict kidsGiven pairs).mpr
        hashables⟩

/-- A seed of 32 bytes is its own public key. -/
def seedKey (seed : Bytes) : Bytes := if seed.length = 32 then seed else List.replicate 32 0

theorem seedKey_length (seed : Bytes) : (seedKey seed).length = 32 := by
  rw [seedKey]
  split
  next long => exact long
  next => simp

/-- Signatures of keys of 32 bytes. -/
def lengthChecked : Primitives where
  sha256 := toy.sha256
  sha256_length := toy.sha256_length
  publicKey := seedKey
  sign := fun seed _ => (seedKey seed).take 1
  verify := fun key _ sig => key.length == 32 && sig == key.take 1
  verify_sign := fun seed _ => by simp [seedKey_length]
  repr := toy.repr

theorem lengthChecked_strict (key msg sig : Bytes)
    (valid : lengthChecked.verify key msg sig = true) : key.length = 32 := by
  simp only [lengthChecked, Bool.and_eq_true, beq_iff_eq] at valid
  exact valid.1

def longKey (high low : Char) : String :=
  String.ofList (List.replicate 32 [high, low]).flatten

/-- R and M have one key, which their cards write in different letter cases. -/
def sharedKeys : List String := [longKey '0' '1', longKey 'a' 'b', longKey 'A' 'B', longKey '0' '2']

/-- All roles have one identifier. -/
def sharedKid (_ : String) : List (String × Value) := [("kid", .str "k")]

def sharedBundle : Value :=
  sampleBundle (sampleProposal 1 .null .null sharedKid sharedKeys) .null sharedKeys sharedKeys

theorem sharedBundle_accepted :
    Returns (verifyDeployment lengthChecked sampleNetwork sharedBundle) := by
  decide +kernel

/-- A directory in which no further file is read. -/
def sampleFiles : Files where
  resolve := id
  document := fun _ => .error .keyError

/-- The relay and the model may be endorsed with one key and one identifier, and then no role can
load the configuration. -/
theorem accepted_with_shared_key :
    (∃ h, verifyDeployment lengthChecked sampleNetwork sharedBundle = .ok h) ∧
      ¬ Loadable lengthChecked sampleNetwork sampleFiles "config.json" "epochs" sharedBundle := by
  refine ⟨sharedBundle_accepted, ?_⟩
  rintro ⟨-, ⟨cards, kids, listed, read, separate⟩, -⟩
  have same : (do
      let cards ← cardsOf sharedBundle
      let kids ← cards.mapM fun x => bodyItem x.2 "kid"
      pure (decide (kids.Pairwise fun kid kid' => kid.eq kid' = false))) =
        (.ok false : Py Bool) := by
    decide +kernel
  rw [listed, ok_bind, read, ok_bind] at same
  exact of_decide_eq_false (Except.ok.inj same) separate

theorem endorsed_loadable_iff_sample :
    Loadable lengthChecked sampleNetwork sampleFiles "config.json" "epochs" sharedBundle ↔
      Agreed sharedBundle := by
  obtain ⟨h, accepted⟩ := sharedBundle_accepted
  exact endorsed_loadable_iff lengthChecked_strict accepted

end LoadableEpochs
