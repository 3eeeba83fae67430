import Custody.AppendOnly
import Custody.CanonicalForm

/-!
# Statements and receipts read back

A statement that was accepted is accepted again after it has been written as
canonical JSON and read back: its signed bytes and its leaf are the same, and no
check sees the order of keys. A receipt is read back as it was written.
-/

namespace RereadStatements

open PyValue HexBytes CanonicalJson CanonicalForm Commitments Statements Schemas Engine Merkle
  TransparencyLog AppendOnly

variable {K : Primitives}

/-- A dictionary as it is read back. -/
def canonPayload (d : Dict) : Dict := sortKeys (canonDict d)

/-- The statement as it is read back. -/
def reread (s : SignedStatement) : SignedStatement :=
  { iss := canon s.iss, sub := canon s.sub, contentType := canon s.contentType,
    kid := canon s.kid, issuedAt := s.issuedAt, payload := canonPayload s.payload,
    signature := canon s.signature }

theorem canon_dict (d : Dict) : canon (.dict d) = .dict (canonPayload d) := by
  rw [canon, canonPayload]

/-- A statement whose fields were sorted is read again. -/
theorem fromDict_canon (s : SignedStatement) :
    SignedStatement.fromDict (canon s.toDict) = .ok (reread s) := by
  have iss : s.toDict.item "iss" = .ok s.iss := rfl
  have sub : s.toDict.item "sub" = .ok s.sub := rfl
  have contentType : s.toDict.item "content_type" = .ok s.contentType := rfl
  have kid : s.toDict.item "kid" = .ok s.kid := rfl
  have issuedAt : s.toDict.item "issued_at" = .ok (.int s.issuedAt) := rfl
  have payload : s.toDict.item "payload" = .ok (.dict s.payload) := rfl
  have number_ : intOf (canon (.int s.issuedAt)) = .ok s.issuedAt := by simp [canon, intOf]
  have signature : (canon s.toDict).get "signature" (.str "") = .ok (canon s.signature) := by
    rw [SignedStatement.toDict, canon, Value.get, find_sortKeys, find_canonDict]
    rfl
  rw [SignedStatement.fromDict, item_canon iss, ok_bind, item_canon sub, ok_bind,
    item_canon contentType, ok_bind, item_canon kid, ok_bind, item_canon issuedAt, ok_bind,
    number_, ok_bind, item_canon payload, ok_bind, canon_dict, signature]
  rfl

/-- Dictionaries whose values are in canonical form have the same canonical text. -/
theorem canonicalJson_values {d : Dict} {b : Bytes} (written : canonicalJson (.dict d) = .ok b) :
    canonicalJson (.dict (canonDict d)) = .ok b := by
  obtain ⟨u, checked, text⟩ := bind_ok.mp written
  have keyed_ := check_keyed _ _ checked
  rw [check] at checked
  rw [keyed] at keyed_
  have again : check "$" (.dict (canonDict d)) = .ok () := by
    rw [check]
    exact checkDict_canon _ d checked
  have fixed : canonDict (canonDict d) = canonDict d := by
    rw [canonDict_map (canonDict d)]
    refine (List.map_congr_left ?_).trans (List.map_id _)
    intro p member
    rw [canonDict_fixed d keyed_ p member]
    rfl
  rw [canonicalJson, again, ok_bind, canon, fixed, ← canon]
  exact text

/-- The bytes that were signed do not depend on the order of the fields. -/
theorem toBeSigned_reread {s : SignedStatement} {b : Bytes} (written : s.toBeSigned = .ok b) :
    (reread s).toBeSigned = .ok b := by
  have values : (reread s).header = canonDict s.header := by
    simp [SignedStatement.header, reread, fields, canonDict, canon, canonPayload]
  rw [SignedStatement.toBeSigned, values]
  exact canonicalJson_values written

/-- Neither do the bytes of the leaf. -/
theorem leafBytes_reread {s : SignedStatement} {b : Bytes} (written : s.leafBytes = .ok b) :
    (reread s).leafBytes = .ok b := by
  have values : (reread s).toDict =
      .dict (canonDict (s.header ++ fields [("signature", s.signature)])) := by
    simp [SignedStatement.toDict, SignedStatement.header, reread, fields, canonDict, canon,
      canonPayload]
  rw [SignedStatement.leafBytes, values]
  exact canonicalJson_values written

/-- Neither does the hash of the statement. -/
theorem statementHash_reread {s : SignedStatement} {hash : String}
    (hashed : s.statementHash K = .ok hash) : (reread s).statementHash K = .ok hash := by
  obtain ⟨b, written, made⟩ := bind_ok.mp hashed
  rw [SignedStatement.statementHash, toBeSigned_reread written, ok_bind]
  exact made

/-- So a signature stays valid. -/
theorem verifyWith_reread {s : SignedStatement} {publicKey : Bytes}
    (valid : s.verifyWith K publicKey = .ok true) :
    (reread s).verifyWith K publicKey = .ok true := by
  cases signature : s.signature with
  | str hexText =>
    have same : (reread s).signature = .str hexText := by
      simp [reread, signature]
    simp only [SignedStatement.verifyWith, signature] at valid
    simp only [SignedStatement.verifyWith, same]
    split at valid
    next => cases valid
    next given =>
      rw [if_neg given]
      cases digits : fromHex hexText with
      | none => simp [digits] at valid
      | some sig =>
        simp only [digits] at valid ⊢
        obtain ⟨message, written, valid⟩ := bind_ok.mp valid
        rw [toBeSigned_reread written, ok_bind]
        exact valid
  | _ =>
    simp only [SignedStatement.verifyWith, signature] at valid
    split at valid
    next => cases valid
    next => cases valid

/-- A statement that has a leaf has text keys only. -/
theorem leaf_keyed {s : SignedStatement} {b : Bytes} (written : s.leafBytes = .ok b) :
    keyed s.toDict = true := by
  obtain ⟨u, checked, -⟩ := bind_ok.mp written
  exact check_keyed _ _ checked

/-- What a statement with a leaf holds is keyed by texts. -/
theorem toDict_keyed {s : SignedStatement} (keyed_ : keyed s.toDict = true) :
    keyed s.iss = true ∧ keyed s.sub = true ∧ keyed s.contentType = true ∧ keyed s.kid = true ∧
    keyedDict s.payload = true ∧ keyed s.signature = true := by
  simp [SignedStatement.toDict, SignedStatement.header, fields, keyed, keyedDict, textKey]
    at keyed_
  tauto

theorem canon_reread {s : SignedStatement} (keyed_ : keyed s.toDict = true) :
    canon (reread s).toDict = canon s.toDict := by
  obtain ⟨iss, sub, contentType, kid, payload, signature⟩ := toDict_keyed keyed_
  have payload' := canon_canon (.dict s.payload) (by rw [keyed]; exact payload)
  have number_ : ∀ n : Int, canon (.int n) = .int n := by
    intro n
    simp [canon]
  rw [canon_dict] at payload'
  simp only [SignedStatement.toDict, SignedStatement.header, reread, fields, List.map_cons,
    List.map_nil, List.cons_append, List.nil_append, canon_dict, canonPayload, canonDict,
    canon_canon _ iss, canon_canon _ sub, canon_canon _ contentType, canon_canon _ kid,
    canon_canon _ signature, number_] at payload' ⊢
  rw [payload']

/-- A statement with a leaf has a hash. -/
theorem leaf_hashed {s : SignedStatement} {b : Bytes} (written : s.leafBytes = .ok b) :
    ∃ hash, s.statementHash K = .ok hash := by
  obtain ⟨u, checked, -⟩ := bind_ok.mp written
  rw [SignedStatement.toDict, check, checkDict_iff] at checked
  have header : check "$" (.dict s.header) = .ok () := by
    rw [check, checkDict_iff]
    exact fun p member => checked p (List.mem_append_left _ member)
  exact ⟨_, by
    rw [SignedStatement.statementHash, SignedStatement.toBeSigned, canonicalJson, header]
    rfl⟩

/-- Sorting a payload sorts inside its fields and loses none. -/
theorem find_canonPayload (d : Dict) (k : String) :
    find (canonPayload d) (.str k) = (find d (.str k)).map canon := by
  rw [canonPayload, find_sortKeys, find_canonDict]

theorem getItem_canonPayload {d : Dict} {k : String} {v : Value} (found : getItem d k = .ok v) :
    getItem (canonPayload d) k = .ok (canon v) := by
  rw [getItem] at found
  rw [getItem, find_canonPayload]
  cases here : find d (.str k) with
  | none => simp [here] at found
  | some w =>
    simp only [here] at found
    obtain rfl := Except.ok.inj found
    rfl

theorem getOr_canonPayload (d : Dict) (k : String) :
    getOr (canonPayload d) k = canon (getOr d k) := by
  rw [getOr, getOr, find_canonPayload]
  cases find d (.str k) with
  | none => simp
  | some v => rfl

theorem hasKey_canonPayload (d : Dict) (k : String) :
    hasKey (canonPayload d) k = hasKey d k := by
  rw [hasKey, hasKey, find_canonPayload, Option.isSome_map]

/-- A hex text is recognised after sorting. -/
theorem isHex_canon (v : Value) (n : Nat) : isHex (canon v) n = isHex v n := by
  cases v <;> simp [canon, isHex]

theorem isNone_canon (v : Value) : (canon v).isNone = v.isNone := by
  cases v <;> simp [canon, Value.isNone]

theorem eq_str_canon (v : Value) (s : String) : (canon v).eq (.str s) = v.eq (.str s) := by
  cases v <;> simp [canon, Value.eq, Value.scalarEq]

theorem memberOf_texts_canon (v : Value) (xs : List String) :
    memberOf (canon v) (texts xs) = memberOf v (texts xs) := by
  induction xs with
  | nil => rfl
  | cons s xs ih =>
    simp only [memberOf, texts, List.map_cons, List.any_cons, eq_str_canon]
    rw [← memberOf, ← memberOf, ← texts, ih]

theorem hexField_canon {d : Dict} {k : String} {errors : List String}
    (checked : hexField d k = .ok errors) : hexField (canonPayload d) k = .ok errors := by
  obtain ⟨v, found, made⟩ := bind_ok.mp checked
  rw [hexField, getItem_canonPayload found, ok_bind, isHex_canon]
  exact made

theorem hexFieldOrNull_canon {d : Dict} {k suffix : String} {errors : List String}
    (checked : hexFieldOrNull d k suffix = .ok errors) :
    hexFieldOrNull (canonPayload d) k suffix = .ok errors := by
  obtain ⟨v, found, made⟩ := bind_ok.mp checked
  rw [hexFieldOrNull, getItem_canonPayload found, ok_bind, isNone_canon, isHex_canon]
  exact made

/-- A choice among texts is checked alike after sorting. -/
theorem choiceField_canon {d : Dict} {k message : String} {choices : List Value}
    {errors : List String} (checked : choiceField d k choices message = .ok errors)
    (named : ∃ xs, choices = texts xs) :
    choiceField (canonPayload d) k choices message = .ok errors := by
  obtain ⟨xs, rfl⟩ := named
  obtain ⟨v, found, made⟩ := bind_ok.mp checked
  rw [choiceField, getItem_canonPayload found, ok_bind, memberOf_texts_canon]
  exact made

theorem getItem_keyed {d : Dict} {k : String} {v : Value} (keyed_ : keyedDict d = true)
    (found : getItem d k = .ok v) : keyed v = true := by
  rw [getItem] at found
  cases here : find d (.str k) with
  | none => simp [here] at found
  | some w =>
    simp only [here] at found
    obtain rfl := Except.ok.inj found
    exact find_keyed keyed_ here

/-- Membership is decided alike after sorting. -/
theorem memberOf_canon {x : Value} (xs : List Value) (hx : keyed x = true)
    (hxs : keyedList xs = true) : memberOf (canon x) (canonList xs) = memberOf x xs := by
  induction xs with
  | nil => rw [canonList]; rfl
  | cons y ys ih =>
    simp only [keyedList, Bool.and_eq_true] at hxs
    rw [canonList, memberOf, memberOf, List.any_cons, List.any_cons, eq_canon x y hx hxs.1,
      ← memberOf, ← memberOf, ih hxs.2]

theorem find_scalar_canonPayload {kvs : Dict} (keyed_ : keyedDict kvs = true) {x : Value}
    (hashable : x.hashable = true) : (find (canonPayload kvs) x).isSome = (find kvs x).isSome := by
  have absent : ∀ (d : Dict), keyedDict d = true → (∀ s, x ≠ .str s) → find d x = none := by
    intro d keyed_ other
    induction d with
    | nil => rfl
    | cons p rest ih =>
      obtain ⟨k, v⟩ := p
      simp only [keyedDict, Bool.and_eq_true] at keyed_
      rw [find, ih keyed_.2.2]
      cases k with
      | str t => cases x with
        | str s => exact absurd rfl (other s)
        | _ => rfl
      | _ => cases keyed_.1
  cases x with
  | str s => rw [find_canonPayload, Option.isSome_map]
  | list xs => cases hashable
  | dict d => cases hashable
  | _ =>
    have sorted := canon_keyed (.dict kvs) (by rw [keyed]; exact keyed_)
    rw [canon_dict, keyed] at sorted
    rw [absent _ sorted (by intro s same; cases same),
      absent _ keyed_ (by intro s same; cases same)]

/-- Sorting leaves hashable values alone. -/
theorem canon_hashable {x : Value} (hashable : x.hashable = true) : canon x = x := by
  cases x with
  | list xs => cases hashable
  | dict d => cases hashable
  | _ => simp [canon]

/-- `in` answers alike after sorting, where it answers. -/
theorem isIn_canon {x container : Value} {b : Bool} (hx : keyed x = true)
    (hc : keyed container = true) (asked : isIn x container = .ok b) :
    isIn (canon x) (canon container) = .ok b := by
  cases container with
  | list xs =>
    rw [keyed] at hc
    rw [canon, isIn, memberOf_canon xs hx hc]
    exact asked
  | str t => cases x with
    | str s => simpa [canon] using asked
    | _ => cases asked
  | dict kvs =>
    rw [keyed] at hc
    rw [isIn] at asked
    split at asked
    next hashable =>
      rw [canon_dict, canon_hashable hashable, isIn, if_pos hashable,
        find_scalar_canonPayload hc hashable]
      exact asked
    next => cases asked
  | _ => cases asked

/-- A contract's errors are the same after sorting. -/
theorem contractErrors_canon {d : Dict} {errors : List String} (keyed_ : keyedDict d = true)
    (checked : contractErrors d = .ok errors) : contractErrors (canonPayload d) = .ok errors := by
  obtain ⟨nonce, hNonce, checked⟩ := bind_ok.mp checked
  obtain ⟨reqCommit, hReq, checked⟩ := bind_ok.mp checked
  obtain ⟨fallback, hFallback, checked⟩ := bind_ok.mp checked
  obtain ⟨mode, hMode, checked⟩ := bind_ok.mp checked
  obtain ⟨requested, hRequested, checked⟩ := bind_ok.mp checked
  obtain ⟨models, hModels, checked⟩ := bind_ok.mp checked
  obtain ⟨allowed, hAllowed, checked⟩ := bind_ok.mp checked
  rw [contractErrors, hexField_canon hNonce, ok_bind, hexField_canon hReq, ok_bind,
    choiceField_canon hFallback ⟨_, rfl⟩, ok_bind, choiceField_canon hMode ⟨_, rfl⟩, ok_bind,
    getItem_canonPayload hRequested, ok_bind, getItem_canonPayload hModels, ok_bind,
    isIn_canon (getItem_keyed keyed_ hRequested) (getItem_keyed keyed_ hModels) hAllowed]
  exact checked

/-- A relay record's errors are the same after sorting. -/
theorem relayErrors_canon {d : Dict} {errors : List String}
    (checked : relayErrors d = .ok errors) : relayErrors (canonPayload d) = .ok errors := by
  obtain ⟨inCommit, hIn, checked⟩ := bind_ok.mp checked
  obtain ⟨outCommit, hOut, checked⟩ := bind_ok.mp checked
  obtain ⟨respIn, hRespIn, checked⟩ := bind_ok.mp checked
  obtain ⟨respOut, hRespOut, checked⟩ := bind_ok.mp checked
  obtain ⟨nonce, hNonce, checked⟩ := bind_ok.mp checked
  obtain ⟨decision, hDecision, checked⟩ := bind_ok.mp checked
  rw [relayErrors, hexField_canon hIn, ok_bind, hexField_canon hOut, ok_bind,
    hexFieldOrNull_canon hRespIn, ok_bind, hexFieldOrNull_canon hRespOut, ok_bind,
    hexFieldOrNull_canon hNonce, ok_bind, choiceField_canon hDecision ⟨_, rfl⟩]
  exact checked

theorem badAttestation_canon (v : Value) : badAttestation (canon v) = badAttestation v := by
  cases v with
  | dict att => rw [canon_dict, badAttestation, badAttestation, getOr_canonPayload, eq_str_canon]
  | _ => simp [canon, badAttestation]

/-- A receipt's errors are the same after sorting. -/
theorem receiptErrors_canon {d : Dict} {errors : List String}
    (checked : receiptErrors d = .ok errors) : receiptErrors (canonPayload d) = .ok errors := by
  obtain ⟨mode, hMode, checked⟩ := bind_ok.mp checked
  obtain ⟨request, hRequest, checked⟩ := bind_ok.mp checked
  obtain ⟨response, hResponse, checked⟩ := bind_ok.mp checked
  obtain ⟨model, hModel, checked⟩ := bind_ok.mp checked
  obtain ⟨nonce, hNonce, checked⟩ := bind_ok.mp checked
  obtain ⟨att, hAtt, checked⟩ := bind_ok.mp checked
  obtain ⟨decision, hDecision, checked⟩ := bind_ok.mp checked
  rw [receiptErrors, choiceField_canon hMode ⟨_, rfl⟩, ok_bind, hexFieldOrNull_canon hRequest,
    ok_bind, hexFieldOrNull_canon hResponse, ok_bind, hexFieldOrNull_canon hModel, ok_bind,
    hexFieldOrNull_canon hNonce, ok_bind, getItem_canonPayload hAtt, ok_bind,
    choiceField_canon hDecision ⟨_, rfl⟩, badAttestation_canon]
  exact checked

/-- A verdict's errors are the same after sorting. -/
theorem verdictErrors_canon {d : Dict} {errors : List String}
    (checked : verdictErrors d = .ok errors) : verdictErrors (canonPayload d) = .ok errors := by
  obtain ⟨status, hStatus, checked⟩ := bind_ok.mp checked
  obtain ⟨assurance, hAssurance, checked⟩ := bind_ok.mp checked
  obtain ⟨mode, hMode, checked⟩ := bind_ok.mp checked
  obtain ⟨completeness, hCompleteness, checked⟩ := bind_ok.mp checked
  rw [verdictErrors, choiceField_canon hStatus ⟨_, rfl⟩, ok_bind, choiceField_canon hAssurance
    ⟨_, rfl⟩, ok_bind,
    choiceField_canon hMode ⟨_, rfl⟩, ok_bind, choiceField_canon hCompleteness ⟨_, rfl⟩]
  exact checked

theorem badContentTypes_canon (v : Value) : badContentTypes (canon v) = badContentTypes v := by
  cases v with
  | list xs =>
    rw [canon, badContentTypes, badContentTypes, canonList_map, List.any_map]
    simp only [Function.comp_def, memberOf_texts_canon]
  | _ => simp [canon, badContentTypes]

theorem isDict_canon (v : Value) : Schemas.isDict (canon v) = Schemas.isDict v := by
  cases v <;> simp [canon, Schemas.isDict]

/-- The texts of the errors follow the order of the keys, so only their absence is kept. -/
theorem policyErrors_canon {d : Dict} (checked : policyErrors K d = .ok []) :
    policyErrors K (canonPayload d) = .ok [] := by
  obtain ⟨trusted, hTrusted, checked⟩ := bind_ok.mp checked
  obtain ⟨rights, hRights, checked⟩ := bind_ok.mp checked
  have none_ := Except.ok.inj checked
  rw [policyErrors, getItem_canonPayload hTrusted, ok_bind, getItem_canonPayload hRights, ok_bind,
    isDict_canon]
  cases rights with
  | dict ict =>
    rw [canon_dict]
    obtain ⟨known, listed⟩ := List.append_eq_nil_iff.mp none_
    have each : (canonPayload ict).flatMap (fun x => errorIf (badContentTypes x.2)
        ("issuer_content_types[" ++ text K x.1 ++ "] must list known content types")) = [] := by
      rw [List.flatMap_eq_nil_iff] at listed ⊢
      intro x member
      rw [canonPayload, mem_sortKeys, canonDict_map] at member
      obtain ⟨p, inside, rfl⟩ := List.mem_map.mp member
      simp only [badContentTypes_canon]
      exact listed p inside
    simp only [known, each, List.append_nil]
    rfl
  | _ =>
    obtain ⟨-, bad⟩ := List.append_eq_nil_iff.mp none_
    cases bad

/-- Content without errors has none after sorting. -/
theorem contentErrors_canon {contentType : Value} {d : Dict} (keyed_ : keyedDict d = true)
    (checked : contentErrors K contentType d = .ok []) :
    contentErrors K contentType (canonPayload d) = .ok [] := by
  rw [contentErrors] at checked ⊢
  split at checked
  next contract =>
    rw [if_pos contract]
    exact contractErrors_canon keyed_ checked
  next notContract =>
    rw [if_neg notContract]
    split at checked
    next relay =>
      rw [if_pos relay]
      exact relayErrors_canon checked
    next notRelay =>
      rw [if_neg notRelay]
      split at checked
      next receipt =>
        rw [if_pos receipt]
        exact receiptErrors_canon checked
      next notReceipt =>
        rw [if_neg notReceipt]
        split at checked
        next observation =>
          rw [if_pos observation]
          exact hexField_canon checked
        next notObservation =>
          rw [if_neg notObservation]
          split at checked
          next verdict =>
            rw [if_pos verdict]
            exact verdictErrors_canon checked
          next notVerdict =>
            rw [if_neg notVerdict]
            split at checked
            next policy =>
              rw [if_pos policy]
              exact policyErrors_canon checked
            next notPolicy =>
              rw [if_neg notPolicy]

/-- `str` of a list or a dictionary starts with a bracket, never with the profile's name. -/
def Bracketed (K : Primitives) : Prop :=
  (∀ xs, startsWith (K.repr (.list xs)) profileVersion = false) ∧
  ∀ kvs, startsWith (K.repr (.dict kvs)) profileVersion = false

theorem profile_canon (bracketed : Bracketed K) {v : Value}
    (named : startsWith (text K v) profileVersion = true) : canon v = v := by
  cases v with
  | list xs =>
    have bad : startsWith (K.repr (.list xs)) profileVersion = true := named
    rw [bracketed.1 xs] at bad
    cases bad
  | dict kvs =>
    have bad : startsWith (K.repr (.dict kvs)) profileVersion = true := named
    rw [bracketed.2 kvs] at bad
    cases bad
  | _ => simp [canon]

/-- A valid payload stays valid after sorting. -/
theorem validatePayload_canon (bracketed : Bracketed K) {contentType : Value} {d : Dict}
    (keyed_ : keyedDict d = true) (valid : validatePayload K contentType d = .ok []) :
    validatePayload K contentType (canonPayload d) = .ok [] := by
  obtain ⟨required, profile, listed, complete, stated, named, checked⟩ := validatePayload_nil valid
  have absent : (required.flatMap fun k => errorIf (!hasKey (canonPayload d) k)
      ("missing field " ++ k)) = [] := by
    rw [List.flatMap_eq_nil_iff]
    intro k member
    rw [hasKey_canonPayload, complete k member]
    rfl
  rw [validatePayload, listed, ok_bind]
  simp only [absent, List.isEmpty_nil, Bool.not_true, Bool.false_eq_true, if_false]
  rw [getItem_canonPayload stated, ok_bind, contentErrors_canon keyed_ checked, ok_bind,
    profile_canon bracketed named, named]
  rfl

theorem inSet_hashable {x : Value} {xs : List Value} {b : Bool} (asked : inSet x xs = .ok b) :
    x.hashable = true := by
  rw [inSet] at asked
  split at asked
  next hashable => exact hashable
  next => cases asked

/-- A statement that the policy admits is admitted as it is read back. -/
theorem checkPolicy_reread (bracketed : Bracketed K) {log : Log} {s : SignedStatement}
    (keyed_ : keyedDict s.payload = true) (admitted : log.checkPolicy K s = .ok []) :
    log.checkPolicy K (reread s) = .ok [] := by
  obtain ⟨known, hKnown, admitted⟩ := bind_ok.mp admitted
  obtain ⟨matched, hMatched, admitted⟩ := bind_ok.mp admitted
  obtain ⟨key, hKey, admitted⟩ := bind_ok.mp admitted
  obtain ⟨rights, hRights, admitted⟩ := bind_ok.mp admitted
  obtain ⟨schema, hSchema, admitted⟩ := bind_ok.mp admitted
  have none_ := Except.ok.inj admitted
  obtain ⟨rest, schemaNone⟩ := List.append_eq_nil_iff.mp none_
  obtain ⟨rest', issuerNone⟩ := List.append_eq_nil_iff.mp rest
  obtain ⟨rest'', keyNone⟩ := List.append_eq_nil_iff.mp rest'
  subst schemaNone keyNone
  have contentType : (reread s).contentType = s.contentType :=
    canon_hashable (inSet_hashable hKnown)
  have iss : (reread s).iss = s.iss := canon_hashable (lookup_find hRights).1
  have sub : (reread s).sub = s.sub := by
    cases given : s.sub with
    | str t => simp [reread, given]
    | _ =>
      rw [given] at hMatched
      cases hMatched
  have signed : log.keyErrors K (reread s) = .ok [] := by
    obtain ⟨found, looked, hKey⟩ := bind_ok.mp hKey
    have kid : (reread s).kid = s.kid := canon_hashable (lookup_find looked).1
    rw [Log.keyErrors, kid, looked, ok_bind]
    cases found with
    | none => cases Except.ok.inj hKey
    | some x =>
      simp only [iss]
      simp only at hKey
      split at hKey
      next => cases Except.ok.inj hKey
      next bound =>
        rw [if_neg bound]
        obtain ⟨valid, verified, hKey⟩ := bind_ok.mp hKey
        cases valid with
        | false => cases Except.ok.inj hKey
        | true =>
          rw [verifyWith_reread verified]
          rfl
  rw [Log.checkPolicy, contentType, hKnown, ok_bind, sub, hMatched, ok_bind, signed, ok_bind, iss,
    hRights, ok_bind]
  have payload : (reread s).payload = canonPayload s.payload := rfl
  rw [payload, validatePayload_canon bracketed keyed_ hSchema, ok_bind]
  exact admitted

/-- A field that canonical JSON leaves as it is. -/
def Settled (v : Value) : Prop := keyed v = true ∧ canon v = v

/-- A receipt that reads back as it was written. -/
structure Whole (rc : RegistrationReceipt) : Prop where
  logId : Settled rc.logId
  leafIndex : Settled rc.leafIndex
  treeSize : Settled rc.treeSize
  rootHash : Settled rc.rootHash
  leafHash : Settled rc.leafHash
  registeredAt : Settled rc.registeredAt
  tsKid : Settled rc.tsKid
  inclusionProof : Settled rc.inclusionProof
  signature : Settled rc.signature

/-- A whole receipt is read back from its sorted form. -/
theorem whole_read {rc : RegistrationReceipt} (whole : Whole rc) :
    RegistrationReceipt.fromDict (canon rc.toDict) = .ok rc := by
  have logId : rc.toDict.item "log_id" = .ok rc.logId := rfl
  have leafIndex : rc.toDict.item "leaf_index" = .ok rc.leafIndex := rfl
  have treeSize : rc.toDict.item "tree_size" = .ok rc.treeSize := rfl
  have rootHash : rc.toDict.item "root_hash" = .ok rc.rootHash := rfl
  have leafHash : rc.toDict.item "leaf_hash" = .ok rc.leafHash := rfl
  have registeredAt : rc.toDict.item "registered_at" = .ok rc.registeredAt := rfl
  have tsKid : rc.toDict.item "ts_kid" = .ok rc.tsKid := rfl
  have inclusionProof : rc.toDict.item "inclusion_proof" = .ok rc.inclusionProof := rfl
  have signature : rc.toDict.item "signature" = .ok rc.signature := rfl
  rw [RegistrationReceipt.fromDict, item_canon logId, ok_bind, item_canon leafIndex, ok_bind,
    item_canon treeSize, ok_bind, item_canon rootHash, ok_bind, item_canon leafHash, ok_bind,
    item_canon registeredAt, ok_bind, item_canon tsKid, ok_bind, item_canon inclusionProof,
    ok_bind, item_canon signature, ok_bind, whole.logId.2, whole.leafIndex.2, whole.treeSize.2,
    whole.rootHash.2, whole.leafHash.2, whole.registeredAt.2, whole.tsKid.2,
    whole.inclusionProof.2, whole.signature.2]
  rfl

theorem whole_keyed {rc : RegistrationReceipt} (whole : Whole rc) : keyed rc.toDict = true := by
  simp [RegistrationReceipt.toDict, RegistrationReceipt.body, fields, keyed, keyedDict, textKey,
    whole.logId.1, whole.leafIndex.1, whole.treeSize.1, whole.rootHash.1, whole.leafHash.1,
    whole.registeredAt.1, whole.tsKid.1, whole.inclusionProof.1, whole.signature.1]

theorem settled_strings (xs : List String) : Settled (.ofStrings xs) := by
  refine ⟨?_, ?_⟩
  · rw [Value.ofStrings, keyed]
    induction xs with
    | nil => rfl
    | cons x xs ih => simp [keyedList, keyed, ih]
  · rw [Value.ofStrings, canon, canonList_map]
    simp

/-- What the log issues reads back as it was written, and names its leaf. -/
theorem receiptFor_whole {policy : LogPolicy} {tree : MerkleTree} {index : Nat} {leaf : Bytes}
    {at_ : Int} {rc : RegistrationReceipt}
    (made : receiptFor K policy tree index leaf at_ = .ok rc) :
    Whole rc ∧ rc.leafHash = .str (hex leaf) := by
  obtain ⟨message, -, signed⟩ := receiptFor_ok (K := K) policy tree index leaf at_
  rw [signed] at made
  obtain rfl := Except.ok.inj made
  have str_ : ∀ t, Settled (.str t) := fun t => ⟨by simp [keyed], by simp [canon]⟩
  have int_ : ∀ n, Settled (.int n) := fun n => ⟨by simp [keyed], by simp [canon]⟩
  exact ⟨⟨str_ _, int_ _, int_ _, str_ _, str_ _, int_ _, str_ _, settled_strings _, str_ _⟩, rfl⟩

/-- A receipt that is accepted for a statement names its leaf. -/
theorem verified_leaf {rc : RegistrationReceipt} {s : SignedStatement} {pub : Bytes}
    {why : String} (verified : verifyReceipt K rc s pub = .ok (true, why)) :
    ∃ data, s.leafBytes = .ok data ∧ rc.leafHash = .str (hex (leafHash K data)) := by
  obtain ⟨message, -, verified⟩ := bind_ok.mp verified
  obtain ⟨signature, -, verified⟩ := bind_ok.mp verified
  split at verified
  next => cases verified
  next =>
    obtain ⟨data, leaf, verified⟩ := bind_ok.mp verified
    split at verified
    next => cases verified
    next same =>
      refine ⟨data, leaf, ?_⟩
      rw [Bool.not_eq_true, Bool.not_eq_false'] at same
      exact (eq_str _ _).mp same

/-- The check of a receipt reads nothing of the statement but its leaf. -/
theorem verifyReceipt_leaf {s t : SignedStatement} {data : Bytes} (left : s.leafBytes = .ok data)
    (right : t.leafBytes = .ok data) (rc : RegistrationReceipt) (pub : Bytes) :
    verifyReceipt K rc s pub = verifyReceipt K rc t pub := by
  rw [verifyReceipt, verifyReceipt, left, right]

end RereadStatements
