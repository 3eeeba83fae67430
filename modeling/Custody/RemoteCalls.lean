import Custody.RereadStatements
import Custody.Rpc

/-!
# A call is as good as local

A call that is admitted reaches the service with the payload as its canonical JSON
is read back, and the result comes back the same way. What fails on the way comes
back as a status. Nothing but an admitted message changes the state of a service.
-/

namespace RemoteCalls

open PyValue HexBytes CanonicalJson CanonicalForm Commitments Identity PagedExport JsonReader
  JsonRoundTrip RereadStatements Effects Rpc

variable {K : Primitives}

theorem insertKey_filter (keep : Value × Value → Bool) (p : Value × Value) {kvs : Dict}
    (texts : ∀ q ∈ kvs, textKey q.1 = true) (ordered : Ordered kvs) :
    (insertKey p kvs).filter keep =
      if keep p then insertKey p (kvs.filter keep) else kvs.filter keep := by
  induction kvs with
  | nil => simp [insertKey, List.filter_cons]
  | cons q rest ih =>
    obtain ⟨front, back⟩ := List.pairwise_cons.mp ordered
    have later := ih (fun r member => texts r (List.mem_cons_of_mem _ member)) back
    by_cases smaller : keyLt q.1 p.1 = true
    · rw [insertKey, if_pos smaller, List.filter_cons, later]
      by_cases first : keep q = true <;> by_cases new : keep p = true <;>
        simp [first, new, insertKey, smaller]
    · rw [insertKey, if_neg smaller, List.filter_cons]
      split
      next new =>
        -- what is left of the list is not smaller than its old head
        cases left : (q :: rest).filter keep with
        | nil => rfl
        | cons r others =>
          have member : r ∈ q :: rest :=
            List.mem_of_mem_filter (left ▸ List.mem_cons_self)
          have above : keyLt r.1 p.1 = false := by
            have first : keyLt q.1 p.1 = false := Bool.eq_false_iff.mpr smaller
            rcases List.mem_cons.mp member with rfl | inside
            · exact first
            · exact keyLt_total (texts q List.mem_cons_self) first (front r inside)
          rw [insertKey, if_neg (by rw [above]; decide)]
      next => rfl

theorem sortKeys_filter (keep : Value × Value → Bool) {kvs : Dict}
    (texts : ∀ q ∈ kvs, textKey q.1 = true) :
    (sortKeys kvs).filter keep = sortKeys (kvs.filter keep) := by
  induction kvs with
  | nil => rfl
  | cons p rest ih =>
    have others := fun q member => texts q (List.mem_cons_of_mem p member)
    rw [sortKeys, insertKey_filter keep p (fun q member =>
      others q ((mem_sortKeys q rest).mp member))
      (sortKeys_ordered others), ih others, List.filter_cons]
    split
    next => rfl
    next => rfl

/-- Leaving out the signature is the same before and after the message has travelled. -/
theorem bodyOf_canonPayload {d : Dict} (keyed_ : keyedDict d = true) :
    bodyOf (canonPayload d) = canonPayload (bodyOf d) := by
  have same : (canonDict d).filter (fun x => !x.1.eq (.str "signature")) =
      canonDict (d.filter fun x => !x.1.eq (.str "signature")) := by
    rw [canonDict_map, canonDict_map, List.filter_map]
    rfl
  rw [bodyOf, canonPayload, sortKeys_filter _ (canonDict_texts keyed_), same]
  rfl

theorem hasExactly_canonPayload (names : List String) (d : Dict) :
    hasExactly names (canonPayload d) = hasExactly names d := by
  have keys : names.all (hasKey (canonPayload d)) = names.all (hasKey d) :=
    List.all_congr rfl fun k => hasKey_canonPayload d k
  rw [hasExactly, hasExactly, keys, canonPayload, all_sortKeys, canonDict_map, List.all_map]
  rfl

/-- A message that passes every check of the server. -/
structure Valid (K : Primitives) (P : Party) (now : Int) (d : Dict) (a : Admitted) : Prop where
  keys : hasExactly rpcKeys d = true
  actor : getOr d "actor" = .str a.actor
  target : getOr d "target" = .str P.role
  timely : timely now (getOr d "time") = true
  signed : ∃ publicKey, find P.keys (.str a.actor) = some publicKey ∧
    checkSignature K publicKey d = .ok ()
  operation : getOr d "operation" = .str a.operation
  entitled : ∃ operations, operationsOf P.role a.actor = .ok operations ∧ a.operation ∈ operations
  payload : getOr d "payload" = a.payload

theorem identified_ok_iff {P : Party} {d : Dict} {actor publicKey : String} :
    identified P d = .ok (actor, publicKey) ↔ getOr d "actor" = .str actor ∧
      find P.keys (.str actor) = some publicKey ∧ getOr d "target" = .str P.role := by
  rw [identified, bind_ok]
  constructor
  · rintro ⟨found, looked, h⟩
    obtain ⟨-, rfl⟩ := lookup_find looked
    split at h
    next key name held here =>
      split at h
      next target =>
        obtain ⟨rfl, rfl⟩ := Prod.mk.inj (Except.ok.inj h)
        exact ⟨here, here ▸ held, (eq_str_right _ _).mp target⟩
      next => cases h
    next => cases h
  · rintro ⟨here, found, target⟩
    refine ⟨some publicKey, ?_, ?_⟩
    · rw [here, lookup_hashable rfl, found]
    · rw [here, target]
      simp only [eq_str_str, beq_self_eq_true, if_true]
      rfl

theorem authorized_ok_iff {P : Party} {actor name : String} {operation : Value} :
    authorized P actor operation = .ok name ↔ operation = .str name ∧
      ∃ operations, operationsOf P.role actor = .ok operations ∧ name ∈ operations := by
  rw [authorized, bind_ok]
  constructor
  · rintro ⟨operations, listed, h⟩
    cases operation with
    | str name' =>
      simp only at h
      split at h
      next member =>
        obtain rfl := Except.ok.inj h
        exact ⟨rfl, operations, listed, member⟩
      next => cases h
    | _ => cases h
  · rintro ⟨rfl, operations, listed, member⟩
    refine ⟨operations, listed, ?_⟩
    simp only
    rw [if_pos member]
    rfl

theorem verifyRpc_ok_iff {P : Party} {rpc : Value} {now : Int} {a : Admitted} :
    verifyRpc K P rpc now = .ok a ↔ ∃ d, rpc = .dict d ∧ Valid K P now d a := by
  cases rpc with
  | dict d =>
    constructor
    · intro h
      simp only [verifyRpc] at h
      split at h
      next => cases h
      next exact_ =>
        obtain ⟨⟨actor, publicKey⟩, known, h⟩ := bind_ok.mp h
        obtain ⟨here, found, target⟩ := identified_ok_iff.mp known
        simp only at h
        split at h
        next => cases h
        next fresh =>
          obtain ⟨u, signed, h⟩ := bind_ok.mp h
          obtain ⟨operation, allowed_, h⟩ := bind_ok.mp h
          obtain rfl := Except.ok.inj h
          obtain ⟨named, entitled⟩ := authorized_ok_iff.mp allowed_
          exact ⟨d, rfl, by simpa using exact_, here, target, by simpa using fresh,
            ⟨publicKey, found, signed⟩, named, entitled, rfl⟩
    · rintro ⟨e, ⟨rfl⟩, keys, actor, target, fresh, ⟨publicKey, found, signed⟩, operation, entitled,
        payload⟩
      have known := identified_ok_iff.mpr ⟨actor, found, target⟩
      have allowed_ := authorized_ok_iff.mpr ⟨rfl, entitled⟩
      simp only [verifyRpc, keys, known, fresh, Bool.not_true, Bool.false_eq_true, if_false,
        ok_bind, signed, operation, allowed_, payload, pure_ok]
  | _ =>
    constructor
    · intro h
      cases h
    · rintro ⟨d, none_, -⟩
      cases none_

variable (C : Caller) (c : Call)

theorem signed_append (message : Bytes) : Rpc.signed K C c message =
    unsigned C c ++ [(.str "signature", .str (hex (C.key.sign K message)))] :=
  insert_absent rfl _

theorem bodyOf_signed (message : Bytes) : bodyOf (Rpc.signed K C c message) = unsigned C c := by
  rw [signed_append, bodyOf, List.filter_append]
  rfl

theorem signed_once (message : Bytes) (payload : once c.payload = true) :
    once (.dict (Rpc.signed K C c message)) = true := by
  rw [signed_append]
  simp [unsigned, fields, once, onceDict, payload, Value.scalarEq]

/-- The request that is sent, and the parts of it. -/
theorem outgoing_ok {path : String} {raw : Bytes} (sent_ : outgoing K C c = .ok (path, raw)) :
    ∃ endpoint message, C.endpoints.lookup c.target = some endpoint ∧ path = endpoint.rpcPath ∧
      canonicalJson (.dict (unsigned C c)) = .ok message ∧
      canonicalJson (.dict (Rpc.signed K C c message)) = .ok raw := by
  rw [outgoing] at sent_
  split at sent_
  next => cases sent_
  next endpoint known =>
    split at sent_
    next => cases sent_
    next =>
      obtain ⟨message, body, sent_⟩ := bind_ok.mp sent_
      obtain ⟨raw', text, sent_⟩ := bind_ok.mp sent_
      obtain ⟨rfl, rfl⟩ := Prod.mk.inj (Except.ok.inj sent_)
      exact ⟨endpoint, message, known, rfl, body, text⟩

/-- The server knows the caller, is the one that is called, and lets it do what it asks for; the
two clocks agree well enough. -/
structure Reaches (K : Primitives) (C : Caller) (P : Party) (now : Int) (c : Call) : Prop where
  key : find P.keys (.str C.role) = some (C.key.publicHex K)
  target : P.role = c.target
  clock : (now - c.time).natAbs ≤ timeWindow
  entitled : ∃ operations, operationsOf c.target C.role = .ok operations ∧ c.operation ∈ operations

variable {C c}

theorem fromHexValue_hex (b : Bytes) : fromHexValue (.str (hex b)) = .ok b := by
  rw [fromHexValue, fromHex_hex]

theorem valid_signed {P : Party} {now : Int} {message raw : Bytes} (reaches : Reaches K C P now c)
    (body : canonicalJson (.dict (unsigned C c)) = .ok message)
    (text : canonicalJson (.dict (Rpc.signed K C c message)) = .ok raw) :
    Valid K P now (canonPayload (Rpc.signed K C c message))
      { actor := C.role, operation := c.operation, payload := canon c.payload } := by
  obtain ⟨u, checked, -⟩ := bind_ok.mp text
  have keyed_ : keyedDict (Rpc.signed K C c message) = true := by
    have := check_keyed _ _ checked
    rwa [keyed] at this
  have field_ : ∀ k v, getOr (unsigned C c ++
      [(.str "signature", .str (hex (C.key.sign K message)))]) k = v →
      getOr (canonPayload (Rpc.signed K C c message)) k = canon v := by
    intro k v here
    rw [getOr_canonPayload, signed_append, here]
  constructor
  · rw [hasExactly_canonPayload, signed_append]
    rfl
  · rw [field_ "actor" (.str C.role) rfl, canon_str]
  · rw [field_ "target" (.str c.target) rfl, canon_str, reaches.target]
  · rw [field_ "time" (.int c.time) rfl]
    simp only [canon, timely, decide_eq_true_eq]
    exact reaches.clock
  · refine ⟨_, reaches.key, ?_⟩
    have again : canonicalJson (.dict (bodyOf (canonPayload (Rpc.signed K C c message)))) =
        .ok message := by
      rw [bodyOf_canonPayload keyed_, bodyOf_signed, ← canon_dict]
      exact canonicalJson_canon body
    have signature := field_ "signature" (.str (hex (C.key.sign K message))) rfl
    rw [checkSignature, KeyPair.publicHex, fromHexValue_hex, ok_bind, again, ok_bind, signature,
      canon_str, fromHexValue_hex, ok_bind, KeyPair.publicKey, KeyPair.sign, K.verify_sign]
    rfl
  · rw [field_ "operation" (.str c.operation) rfl, canon_str]
  · rw [reaches.target]
    exact reaches.entitled
  · rw [field_ "payload" c.payload rfl]

/-- A call that reaches the server is admitted. -/
theorem admission_outgoing {P : Party} {now : Int} {path : String} {raw : Bytes}
    (sent_ : outgoing K C c = .ok (path, raw)) (plain : path = "/rpc")
    (fits : raw.length ≤ maxWire) (payload : once c.payload = true)
    (reaches : Reaches K C P now c) :
    admission K P now { path, contentLength := .ok raw.length, body := raw } =
      .ok { actor := C.role, operation := c.operation, payload := canon c.payload } := by
  obtain ⟨endpoint, message, -, -, body, text⟩ := outgoing_ok C c sent_
  have positive := canonicalJson_nonempty text
  have read : received { path, contentLength := .ok raw.length, body := raw } = .ok raw := by
    have fits' : (0 : Int) < raw.length ∧ (raw.length : Int) ≤ maxWire := by omega
    have framed : ¬ (path ≠ "/rpc" ∨ given none = true) := by
      rw [plain]
      decide
    simp only [received, if_neg framed, ne_eq, not_true_eq_false, if_false, ok_bind,
      Int.toNat_natCast, List.take_length, fits', and_self, pure_ok]
  rw [admission, read, ok_bind, jsonLoads_canonicalJson (signed_once C c message payload) text,
    ok_bind, verifyRpc_ok_iff]
  exact ⟨_, canon_dict _, valid_signed reaches body text⟩

def answerOf (result : Value) : Dict := fields [("ok", .bool true), ("result", result)]

theorem incoming_success {target : String} {result : Value} {output : Bytes}
    (result_ : once result = true) (made : success result = .ok output) :
    incoming K target (.response output) = .ok (canon result) := by
  obtain ⟨text, written, made⟩ := bind_ok.mp made
  split at made
  next => cases made
  next fits =>
    obtain rfl := Except.ok.inj made
    have once_ : once (.dict (answerOf result)) = true := by
      simp [answerOf, fields, once, onceDict, result_, Value.scalarEq]
    have read : answered target (.response text) =
      .ok (.dict (canonPayload (answerOf result))) := by
      have whole : text.take (maxWire + 1) = text := List.take_of_length_le (by omega)
      rw [answered, whole, if_neg fits, ← canon_dict]
      exact jsonLoads_canonicalJson once_ written
    have ok_ : find (canonPayload (answerOf result)) (.str "ok") = some (canon (.bool true)) := by
      rw [find_canonPayload]
      rfl
    have result' : find (canonPayload (answerOf result)) (.str "result") = some (canon result) := by
      rw [find_canonPayload]
      rfl
    have truthy : (canon (.bool true)).truthy = true := by
      simp [canon, Value.truthy]
    rw [incoming, read, ok_bind]
    simp only [Value.get, Value.item, ok_, result', Option.getD_some, ok_bind, truthy,
      Bool.not_true, Bool.false_eq_true, if_false]

variable {S : Type}

/-- What the caller is left with, by what the service did. -/
def carried (target : String) : EStateM.Result PyErr S Value → Py Value × S
  | .ok result s => match success result with
    | .ok _ => (.ok (canon result), s)
    | .error e => (.error (httpFailure target (refusal e).code), s)
  | .error e s => (.error (httpFailure target (refusal e).code), s)

theorem refusal_code (e : PyErr) : (refusal e).code ≠ 200 := by
  have caller : (400 : Nat) ≠ 200 := by decide
  have service : (503 : Nat) ≠ 200 := by decide
  cases e with
  | valueError _ | unicodeDecodeError | nonAsciiKey _ _ | keyError | typeError | recursionError =>
    exact caller
  | _ => exact service

theorem incoming_refusal (target : String) (e : PyErr) :
    incoming K target (refusal e).received = .error (httpFailure target (refusal e).code) := by
  rw [HttpReply.received, if_neg (refusal_code e)]
  rfl

/-- A call over the network is the service's own operation on what travels as canonical JSON. -/
theorem remote_carried {P : Party} {handle : Handle S} {now : Int} {path : String} {raw : Bytes}
    {s : S} (sent_ : outgoing K C c = .ok (path, raw)) (plain : path = "/rpc")
    (fits : raw.length ≤ maxWire) (payload : once c.payload = true)
    (reaches : Reaches K C P now c)
    (proper : ∀ a result s', handle a s = .ok result s' → once result = true) :
    remote K C P handle now c s = carried c.target
      (handle { actor := C.role, operation := c.operation, payload := canon c.payload } s) := by
  have admitted := admission_outgoing sent_ plain fits payload reaches
  rw [remote, sent_]
  cases done : handle { actor := C.role, operation := c.operation, payload := canon c.payload }
    s with
  | error e s' =>
    have shape : serve K P handle now { path, contentLength := .ok raw.length, body := raw } s =
        .error e s' := by
      simp only [serve, admitted, bind, EStateM.bind, lift, done]
    simp only [doPost, shape, carried, incoming_refusal]
  | ok result s' =>
    have shape : serve K P handle now { path, contentLength := .ok raw.length, body := raw } s =
        lift (success result) s' := by
      simp only [serve, admitted, bind, EStateM.bind, lift, done]
    cases made : success result with
    | error e => simp only [doPost, shape, carried, lift, made, incoming_refusal]
    | ok output =>
      simp only [doPost, shape, carried, lift, made]
      exact congrArg (·, s') (incoming_success (proper _ _ _ done) made)

def asker : Caller where
  role := "U"
  key := { kid := "", seed := [] }
  endpoints := [("T", { scheme := "https" })]

def ping : Call where
  target := "T"
  operation := "health"
  payload := .dict (fields [("b", .int 1), ("a", .int 2)])
  id := ""
  time := 0

/-- A service that keeps what it is asked. -/
def keeping : Handle (List Value) := fun a => do
  modify (· ++ [a.payload])
  pure (.str a.operation)

/-- The fields of the payload arrive in order. -/
theorem remote_carried_ping :
    remote toy asker { role := "T", identities := [("U", "")] } keeping 5 ping [] =
      carried "T" (keeping
        { actor := "U", operation := "health",
          payload := .dict (fields [("a", .int 2), ("b", .int 1)]) } []) :=
  remote_carried rfl rfl (by decide) rfl
    { key := rfl
      target := rfl
      clock := by decide
      entitled := ⟨_, rfl, by decide⟩ }
    fun a result s' done => by
      obtain rfl : Value.str a.operation = result := by
        cases done
        rfl
      rfl

theorem doPost_refused {P : Party} {handle : Handle S} {now : Int} {p : Posted} {e : PyErr} {s : S}
    (refused : admission K P now p = .error e) : doPost K P handle now p s = (refusal e, s) := by
  have shape : serve K P handle now p s = .error e s := by
    simp only [serve, refused, bind, EStateM.bind, lift]
  rw [doPost, shape]

theorem doPost_admitted {P : Party} {handle : Handle S} {now : Int} {p : Posted} {a : Admitted}
    {s : S} (admitted : admission K P now p = .ok a) :
    (doPost K P handle now p s).2 = final (handle a s) := by
  cases done : handle a s with
  | error e s' =>
    have shape : serve K P handle now p s = .error e s' := by
      simp only [serve, admitted, bind, EStateM.bind, lift, done]
    rw [doPost, shape]
    rfl
  | ok result s' =>
    have shape : serve K P handle now p s = lift (success result) s' := by
      simp only [serve, admitted, bind, EStateM.bind, lift, done]
    rw [doPost, shape]
    cases success result with
    | error e => rfl
    | ok output => rfl

theorem admission_valid {P : Party} {now : Int} {p : Posted} {a : Admitted}
    (admitted : admission K P now p = .ok a) : ∃ d, Valid K P now d a := by
  obtain ⟨raw, -, admitted⟩ := bind_ok.mp admitted
  obtain ⟨rpc, -, admitted⟩ := bind_ok.mp admitted
  obtain ⟨d, -, valid⟩ := verifyRpc_ok_iff.mp admitted
  exact ⟨d, valid⟩

theorem lookup_mem {A B : Type} [BEq A] [LawfulBEq A] {xs : List (A × B)} {a : A} {b : B}
    (found : xs.lookup a = some b) : (a, b) ∈ xs := by
  obtain ⟨front, back, rfl, -⟩ := List.lookup_eq_some_iff.mp found
  exact List.mem_append_right _ List.mem_cons_self

/-- The roles and operations that are in the table. -/
theorem operationsOf_listed {role actor operation : String} {operations : List String}
    (listed : operationsOf role actor = .ok operations) (member : operation ∈ operations) :
    ∃ actors, (role, actors) ∈ allowed ∧ (actor, operations) ∈ actors := by
  rw [operationsOf] at listed
  split at listed
  next actors found =>
    obtain rfl := Except.ok.inj listed
    refine ⟨actors, lookup_mem found, ?_⟩
    cases rights : actors.lookup actor with
    | none =>
      rw [rights] at member
      cases member
    | some operations => exact lookup_mem rights
  next => cases listed

end RemoteCalls
