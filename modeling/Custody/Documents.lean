import Custody.JsonRoundTrip
import Custody.PagedExport

/-!
# Documents on disk

Cards, bundles, configurations and audit packages are kept as JSON with an indent.
A document is read back as the value that was written, its keys in the order they
were written in, so that a document may be read and written any number of times.
-/

namespace Documents

open PyValue HexBytes CanonicalJson CanonicalForm JsonReader JsonRoundTrip PagedExport

/-- A key as `json.dumps` writes it. -/
def keyText : Value → Py Value
  | .str s => .ok (.str s)
  | .int n => .ok (.str (String.ofList (intChars n)))
  | .bool true => .ok (.str "true")
  | .bool false => .ok (.str "false")
  | .null => .ok (.str "null")
  | _ => .error .typeError

mutual
def textKeys : Value → Py Value
  | .list xs => do pure (.list (← textKeysList xs))
  | .dict kvs => do pure (.dict (← textKeysDict kvs))
  | v => .ok v
termination_by structural v => v

def textKeysList : List Value → Py (List Value)
  | [] => .ok []
  | x :: xs => do
    let y ← textKeys x
    pure (y :: (← textKeysList xs))
termination_by structural xs => xs

def textKeysDict : List (Value × Value) → Py Dict
  | [] => .ok []
  | (k, v) :: rest => do
    let k ← keyText k
    let w ← textKeys v
    pure ((k, w) :: (← textKeysDict rest))
termination_by structural kvs => kvs
end

/-- The break before an element of a list or a dictionary, two blanks deeper than around it. -/
def newline (level : Nat) : List Char := '\n' :: List.replicate (2 * level) ' '

/-- `json.dumps(value, ensure_ascii=False, indent=2).encode("utf-8")`, which `write_document`
writes. -/
def documentText (value : Value) : Py Bytes := do
  let v ← textKeys value
  pure (utf8 (layout newline [' '] 0 v))

/-- `read_document` of a file that holds these octets. -/
def readDocument (raw : Bytes) : Py Value :=
  if 2 * maxAuditBytes < raw.length then
    .error (.valueError "document exceeds the local size limit")
  else jsonLoads raw

mutual
/-- Text keys are written as they are. -/
theorem textKeys_keyed : ∀ v : Value, keyed v = true → textKeys v = .ok v
  | .null, _ | .bool _, _ | .int _, _ | .str _, _ => rfl
  | .list xs, hk => by
    rw [keyed] at hk
    rw [textKeys, textKeysList_keyed xs hk]
    rfl
  | .dict kvs, hk => by
    rw [keyed] at hk
    rw [textKeys, textKeysDict_keyed kvs hk]
    rfl

theorem textKeysList_keyed : ∀ xs : List Value, keyedList xs = true → textKeysList xs = .ok xs
  | [], _ => by rw [textKeysList]
  | x :: xs, hk => by
    rw [keyedList, Bool.and_eq_true] at hk
    rw [textKeysList, textKeys_keyed x hk.1, ok_bind, textKeysList_keyed xs hk.2]
    rfl

theorem textKeysDict_keyed : ∀ kvs : Dict, keyedDict kvs = true → textKeysDict kvs = .ok kvs
  | [], _ => by rw [textKeysDict]
  | (k, v) :: rest, hk => by
    rw [keyedDict, Bool.and_eq_true, Bool.and_eq_true] at hk
    have key : keyText k = .ok k := by
      cases k with
      | str s => rfl
      | _ => cases hk.1
    rw [textKeysDict, key, ok_bind, textKeys_keyed v hk.2.1, ok_bind,
      textKeysDict_keyed rest hk.2.2]
    rfl
end

theorem newline_blank (level : Nat) : Blank (newline level) := by
  intro c member
  rcases List.mem_cons.mp member with rfl | later
  · decide
  · obtain rfl := List.eq_of_mem_replicate later
    decide

theorem space_blank : Blank [' '] := by
  intro c member
  obtain rfl := List.mem_singleton.mp member
  decide

/-- A document that is not too large is read back as the value that was written, exactly when the
value has no key twice and a canonical text. -/
theorem document_read_back {v : Value} {raw : Bytes} (written : documentText v = .ok raw)
    (fits : raw.length ≤ 2 * maxAuditBytes) :
    readDocument raw = .ok v ↔ once v = true ∧ ∃ b, canonicalJson v = .ok b := by
  rw [readDocument, if_neg (by omega)]
  constructor
  · exact jsonLoads_once
  · rintro ⟨ho, b, canonical⟩
    obtain ⟨u, checked, -⟩ := bind_ok.mp canonical
    rw [documentText, textKeys_keyed v (check_keyed _ v checked), ok_bind] at written
    obtain rfl := Except.ok.inj written
    exact jsonLoads_layout newline_blank space_blank ho canonical

/-- The keys stay in the order in which they were written. -/
theorem document_read_back_unsorted : ∃ raw,
    documentText (.list [.int 1, .dict [(.str "b", .null), (.str "a", .list [])]]) = .ok raw ∧
      readDocument raw = .ok (.list [.int 1, .dict [(.str "b", .null), (.str "a", .list [])]]) :=
  ⟨_, rfl, (document_read_back rfl (by decide)).mpr ⟨rfl, _, rfl⟩⟩

end Documents
