import Custody.CoseSign1

/-!
# Export and import of signed CBOR

What `to_sign1` returns, `from_sign1` turns back into the statement it was issued
for; and the two byte strings that are signed, the protected header and the payload,
determine all six fields.
-/

namespace CoseRoundTrip

open PyValue HexBytes CanonicalJson CanonicalForm Commitments Statements Cbor CborMeaning
  CborRoundTrip Serialisations CoseSign1

variable {K : Primitives}

mutual
theorem toValue_ofValue : ∀ v : Value, toValue (ofValue v) = v
  | .null | .bool _ | .int _ | .str _ => rfl
  | .list xs => by rw [ofValue, toValue, toValues_ofValues xs]
  | .dict kvs => by rw [ofValue, toValue, toEntries_ofEntries kvs]
termination_by structural v => v

theorem toValues_ofValues : ∀ xs : List Value, toValues (ofValues xs) = xs
  | [] => rfl
  | x :: xs => by rw [ofValues, toValues, toValue_ofValue x, toValues_ofValues xs]
termination_by structural xs => xs

theorem toEntries_ofEntries : ∀ kvs : List (Value × Value), toEntries (ofEntries kvs) = kvs
  | [] => rfl
  | (k, v) :: rest => by
    rw [ofEntries, toEntries, toValue_ofValue k, toValue_ofValue v, toEntries_ofEntries rest]
termination_by structural kvs => kvs
end

mutual
theorem jsonOk_ofValue : ∀ v : Value, keyed v = true → JsonOk (ofValue v)
  | .null, _ | .bool _, _ | .int _, _ | .str _, _ => trivial
  | .list xs, texts => jsonOk_ofValues xs texts
  | .dict kvs, texts => jsonOk_ofEntries kvs texts
termination_by structural v => v

theorem jsonOk_ofValues : ∀ xs : List Value, keyedList xs = true → JsonOkAll (ofValues xs)
  | [], _ => trivial
  | x :: xs, texts => by
    rw [keyedList, Bool.and_eq_true] at texts
    exact ⟨jsonOk_ofValue x texts.1, jsonOk_ofValues xs texts.2⟩
termination_by structural xs => xs

theorem jsonOk_ofEntries : ∀ kvs : List (Value × Value), keyedDict kvs = true →
    JsonOkEntries (ofEntries kvs)
  | [], _ => trivial
  | (k, v) :: rest, texts => by
    rw [keyedDict, Bool.and_eq_true, Bool.and_eq_true] at texts
    cases k with
    | str s => exact ⟨⟨s, rfl⟩, jsonOk_ofValue v texts.2.1, jsonOk_ofEntries rest texts.2.2⟩
    | _ => cases texts.1
termination_by structural kvs => kvs
end

/-- A payload of the JSON profile (integers, texts, Booleans, null, lists and objects): a dictionary
that its check lets through, with the distinct keys that a dictionary has at every depth. -/
structure Profiled (payload : Dict) : Prop where
  checked : check "$" (.dict payload) = .ok ()
  formed : Formed (ofValue (.dict payload))

/-- The payload that is read back is the same, up to the order of its keys. -/
theorem Profiled.read_back {payload : Dict} (profiled : Profiled payload) :
    canon (toValue (plain (ofValue (.dict payload)))) = canon (.dict payload) := by
  have texts := check_keyed _ _ profiled.checked
  rw [canon_plain _ (jsonOk_ofValue _ texts) profiled.formed, toValue_ofValue]

/-- The envelope fields are texts. -/
structure Textual (s : SignedStatement) (iss sub contentType kid : String) : Prop where
  iss : s.iss = .str iss
  sub : s.sub = .str sub
  contentType : s.contentType = .str contentType
  kid : s.kid = .str kid

/-- The protected header and the payload that `to_sign1` signs. -/
structure Parts (key : KeyPair) (s : SignedStatement) (protectedBytes payload : Bytes) : Prop where
  kid : s.kid = .str key.kid
  header : encode (protectedHeader key s) = .ok protectedBytes
  body : encode (ofValue (.dict s.payload)) = .ok payload

theorem toSign1_ok {key : KeyPair} {s : SignedStatement} {data : Bytes}
    (exported : toSign1 K key s = .ok data) : ∃ protectedBytes payload signed,
      Parts key s protectedBytes payload ∧ sigStructure protectedBytes payload = .ok signed ∧
      encode (message protectedBytes payload (key.sign K signed)) = .ok data := by
  rw [toSign1] at exported
  split at exported
  next => cases exported
  next same =>
    obtain ⟨protectedBytes, header, exported⟩ := bind_ok.mp exported
    obtain ⟨payload, body, exported⟩ := bind_ok.mp exported
    obtain ⟨signed, structure_, exported⟩ := bind_ok.mp exported
    have kid : s.kid = .str key.kid := by
      rw [Decidable.not_not, eq_str] at same
      exact same
    exact ⟨protectedBytes, payload, signed, ⟨kid, header, body⟩, structure_, exported⟩

section envelope

variable {key : KeyPair} {s : SignedStatement} {iss sub contentType kid : String}

/-- The header is written in the order that the reader demands. -/
theorem plain_protectedHeader (textual : Textual s iss sub contentType kid) :
    plain (protectedHeader key s) = .dict [(.int 1, .int (-8)), (.int 3, .text contentType),
      (.int 4, .bytes (utf8Bytes key.kid)),
      (.int 15, .dict [(.int 1, .text iss), (.int 2, .text sub), (.int 6, .int s.issuedAt)])] := by
  rw [protectedHeader, cwtClaims, textual.iss, textual.sub, textual.contentType]
  rfl

theorem formed_protectedHeader (textual : Textual s iss sub contentType kid) :
    Formed (protectedHeader key s) := by
  rw [protectedHeader, cwtClaims, textual.iss, textual.sub, textual.contentType]
  simp [Formed, FormedEntries, Distinct, ofValue, Obj.keyEq, Obj.hashable, hdrAlg, hdrContentType,
    hdrKid, hdrCwtClaims, cwtIss, cwtSub, cwtIat]

end envelope

theorem plain_message (protectedBytes payload signature : Bytes) :
    plain (message protectedBytes payload signature) =
      message protectedBytes payload signature := rfl

theorem formed_message (protectedBytes payload signature : Bytes) :
    Formed (message protectedBytes payload signature) := by
  simp [message, Formed, FormedAll, FormedEntries, Distinct]

theorem decode_nil : decode [] = .error (.valueError "truncated input") := rfl

section reading

variable {key : KeyPair} {s : SignedStatement} {iss sub contentType kid : String}
  {protectedBytes payload : Bytes}

theorem Parts.decode_header (parts : Parts key s protectedBytes payload)
    (textual : Textual s iss sub contentType kid) :
    decode protectedBytes = .ok (plain (protectedHeader key s)) :=
  (encode_undone (formed_protectedHeader textual) parts.header).1

theorem Parts.protectedMap_ok (parts : Parts key s protectedBytes payload)
    (textual : Textual s iss sub contentType kid) :
    protectedMap protectedBytes = .ok [(.int 1, .int (-8)), (.int 3, .text contentType),
      (.int 4, .bytes (utf8Bytes key.kid)),
      (.int 15, .dict [(.int 1, .text iss), (.int 2, .text sub), (.int 6, .int s.issuedAt)])] := by
  have read := parts.decode_header textual
  rw [plain_protectedHeader textual] at read
  cases protectedBytes with
  | nil =>
    rw [decode_nil] at read
    cases read
  | cons b bs =>
    rw [protectedMap, List.isEmpty_cons, if_neg (by decide), decodeOr, read]
    rfl

/-- The message is parsed into the parts that it was put together from. -/
theorem Parts.parse_ok (parts : Parts key s protectedBytes payload)
    (textual : Textual s iss sub contentType kid) {signature data : Bytes}
    (written : encode (message protectedBytes payload signature) = .ok data)
    (repr : List Obj → String) : parse repr data = .ok ⟨protectedBytes,
      [(.int 1, .int (-8)), (.int 3, .text contentType), (.int 4, .bytes (utf8Bytes key.kid)),
        (.int 15, .dict [(.int 1, .text iss), (.int 2, .text sub), (.int 6, .int s.issuedAt)])],
      [], some payload, signature, key.kid, .text contentType⟩ := by
  have whole := (encode_undone (formed_message protectedBytes payload signature) written).1
  have name : utf8Text (utf8Bytes key.kid) = .ok key.kid := utf8Text_ok.mpr rfl
  rw [plain_message, message] at whole
  rw [parse, decodeOr, whole]
  simp only [ok_bind]
  rw [if_neg (by decide)]
  simp only [pure_ok, ok_bind]
  rw [parts.protectedMap_ok textual, ok_bind]
  change (utf8Text (utf8Bytes key.kid) >>= _) = _
  rw [name]
  rfl

/-- What was exported is imported again: the same envelope, and the payload read back. -/
theorem Parts.restored (parts : Parts key s protectedBytes payload)
    (textual : Textual s iss sub contentType kid) (profiled : Profiled s.payload)
    {signed data : Bytes} (structure_ : sigStructure protectedBytes payload = .ok signed)
    (written : encode (message protectedBytes payload (key.sign K signed)) = .ok data)
    (repr : List Obj → String) : fromSign1 K repr data (key.publicKey K) =
      .ok ⟨.text iss, .text sub, contentType, key.kid, .int s.issuedAt,
        plain (ofValue (.dict s.payload)), hex (key.sign K signed)⟩ := by
  have body := (encode_undone profiled.formed parts.body).1
  have genuine : K.verify (key.publicKey K) signed (key.sign K signed) = true :=
    K.verify_sign key.seed signed
  rw [fromSign1, verifySignature, parts.parse_ok textual written repr]
  simp only [ok_bind, structure_, genuine, if_true, pure_ok]
  change (decode payload >>= _) = _
  rw [body]
  rfl

end reading

/-- Equal header bytes come from equal envelopes. -/
theorem Parts.envelope {key key' : KeyPair} {s s' : SignedStatement}
    {iss iss' sub sub' contentType contentType' kid kid' : String}
    {protectedBytes payload payload' : Bytes} (parts : Parts key s protectedBytes payload)
    (parts' : Parts key' s' protectedBytes payload')
    (textual : Textual s iss sub contentType kid)
    (textual' : Textual s' iss' sub' contentType' kid') :
    iss = iss' ∧ sub = sub' ∧ contentType = contentType' ∧ key.kid = key'.kid ∧
      s.issuedAt = s'.issuedAt := by
  have first := parts.decode_header textual
  have second := parts'.decode_header textual'
  rw [plain_protectedHeader textual] at first
  rw [plain_protectedHeader textual', first] at second
  have same := Except.ok.inj second
  simp only [Obj.dict.injEq, List.cons.injEq, Prod.mk.injEq, true_and, and_true, Obj.text.injEq,
    Obj.bytes.injEq, Obj.int.injEq] at same
  obtain ⟨contentType_, kids, iss_, sub_, issuedAt⟩ := same
  refine ⟨iss_, sub_, contentType_, ?_, issuedAt⟩
  have name : utf8Text (utf8Bytes key.kid) = .ok key.kid := utf8Text_ok.mpr rfl
  rw [kids] at name
  exact (Except.ok.inj (name.symm.trans (utf8Text_ok.mpr rfl)))

/-- What `to_sign1` returns, `from_sign1` reads back as the same statement; and two statements
that are signed over the same bytes have the same six fields, payloads up to the order of their
keys. -/
theorem imported_as_exported {key : KeyPair} {s : SignedStatement}
    {iss sub contentType kid : String} {data : Bytes} (repr : List Obj → String)
    (textual : Textual s iss sub contentType kid) (profiled : Profiled s.payload)
    (exported : toSign1 K key s = .ok data) :
    (∃ r, fromSign1 K repr data (key.publicKey K) = .ok r ∧
      r.iss = .text iss ∧ r.sub = .text sub ∧ r.contentType = contentType ∧ r.kid = kid ∧
      r.issuedAt = .int s.issuedAt ∧ Same (ofValue (.dict s.payload)) r.payload ∧
      canon (toValue r.payload) = canon (.dict s.payload)) ∧
    ∀ {key' s' iss' sub' contentType' kid' protectedBytes payload},
      Textual s' iss' sub' contentType' kid' → Profiled s'.payload →
      Parts key s protectedBytes payload → Parts key' s' protectedBytes payload →
      s.iss = s'.iss ∧ s.sub = s'.sub ∧ s.contentType = s'.contentType ∧ s.kid = s'.kid ∧
      s.issuedAt = s'.issuedAt ∧ canon (.dict s.payload) = canon (.dict s'.payload) := by
  constructor
  · obtain ⟨protectedBytes, payload, signed, parts, structure_, written⟩ := toSign1_ok exported
    have kids : key.kid = kid := Value.str.inj (parts.kid.symm.trans textual.kid)
    refine ⟨_, parts.restored textual profiled structure_ written repr, rfl, rfl, rfl, kids, rfl,
      same_plain _, profiled.read_back⟩
  · intro key' s' iss' sub' contentType' kid' protectedBytes payload textual' profiled' parts
      parts'
    obtain ⟨rfl, rfl, rfl, kids, issuedAt⟩ := parts.envelope parts' textual textual'
    refine ⟨textual.iss.trans textual'.iss.symm, textual.sub.trans textual'.sub.symm,
      textual.contentType.trans textual'.contentType.symm, ?_, issuedAt, ?_⟩
    · rw [parts.kid, parts'.kid, kids]
    · have alike := (encode_undone profiled.formed parts.body).2.2 _ profiled'.formed parts'.body
      rw [← profiled.read_back, ← profiled'.read_back, alike]

def sampleKey : KeyPair := ⟨"u", [1]⟩

/-- A statement with this payload, its keys in either order. -/
def sampleStatement (payload : Dict) : SignedStatement :=
  ⟨.str "U", .str "s", .str ctContract, .str "u", 7, payload, .str ""⟩

def oneOrder : Dict := fields [("b", .null), ("a", .list [.int 1])]

def otherOrder : Dict := fields [("a", .list [.int 1]), ("b", .null)]

theorem imported_as_exported_sample : ∃ data r,
    fromSign1 toy (fun _ => "") data (sampleKey.publicKey toy) = .ok r ∧ r.iss = .text "U" ∧
    canon (.dict oneOrder) = canon (.dict otherOrder) := by
  have texts : ∀ payload, Textual (sampleStatement payload) "U" "s" ctContract "u" :=
    fun payload => ⟨rfl, rfl, rfl, rfl⟩
  have first : Profiled oneOrder := by
    refine ⟨rfl, ?_⟩
    simp [oneOrder, fields, ofValue, ofEntries, ofValues, Formed, FormedEntries, FormedAll,
      Distinct, Obj.keyEq, Obj.hashable]
  have second : Profiled otherOrder := by
    refine ⟨rfl, ?_⟩
    simp [otherOrder, fields, ofValue, ofEntries, ofValues, Formed, FormedEntries, FormedAll,
      Distinct, Obj.keyEq, Obj.hashable]
  have written : Returns (toSign1 toy sampleKey (sampleStatement oneOrder)) := by
    decide +kernel
  obtain ⟨data, exported⟩ := written
  obtain ⟨protectedBytes, payload, -, parts, -, -⟩ := toSign1_ok exported
  have reordered : Parts sampleKey (sampleStatement otherOrder) protectedBytes payload :=
    ⟨rfl, parts.header, parts.body⟩
  have both := imported_as_exported (fun _ => "") (texts oneOrder) first exported
  obtain ⟨r, imported, iss, -⟩ := both.1
  exact ⟨data, r, imported, iss, (both.2 (texts otherOrder) second parts reordered).2.2.2.2.2⟩

end CoseRoundTrip
