import Custody.Effects
import Custody.JsonRoundTrip
import Custody.PagedExport

/-!
# Calls between roles

A role calls another over HTTPS with one signed message and reads one answer. The
server parses the message, checks who signed it and for whom, hands the payload to
the service behind it and writes what that returns. Every failure is one of two
fixed answers, so a caller learns no more than a status from it.
-/

namespace Rpc

open PyValue HexBytes CanonicalJson Commitments Identity PagedExport JsonReader Effects

variable (K : Primitives)

/-- An address, as `urlsplit` takes it apart. -/
structure Endpoint where
  scheme : String
  username : Option String := none
  password : Option String := none
  path : String := ""
  query : String := ""
  fragment : String := ""

/-- A part of an address that is there. -/
def given (part : Option String) : Bool := part.any (· != "")

def Endpoint.explicit (e : Endpoint) : Bool :=
  e.scheme == "https" && !given e.username && !given e.password && e.query == "" &&
    e.fragment == ""

/-- `endpoint.rstrip("/") + "/rpc"`, of an address that ends with its path. -/
def Endpoint.rpcPath (e : Endpoint) : String :=
  String.ofList (e.path.toList.reverse.dropWhile (· == '/')).reverse ++ "/rpc"

/-- What a `Peer` has. -/
structure Caller where
  role : String
  key : KeyPair
  endpoints : List (String × Endpoint)

/-- What a call is made with, and the identifier and time it draws. -/
structure Call where
  target : String
  operation : String
  payload : Value
  id : String
  time : Int

/-- The fields that are signed. -/
def unsigned (C : Caller) (c : Call) : Dict :=
  fields [("actor", .str C.role), ("target", .str c.target), ("operation", .str c.operation),
    ("id", .str c.id), ("time", .int c.time), ("payload", c.payload)]

def signed (C : Caller) (c : Call) (message : Bytes) : Dict :=
  insert (unsigned C c) (.str "signature") (.str (hex (C.key.sign K message)))

/-- `Peer.call` up to the request, with the path it goes to. -/
def outgoing (C : Caller) (c : Call) : Py (String × Bytes) :=
  match C.endpoints.lookup c.target with
  | none => .error .keyError
  | some endpoint =>
    if !endpoint.explicit then .error (.valueError "an explicit HTTPS endpoint is required")
    else do
      let message ← canonicalJson (.dict (unsigned C c))
      let raw ← canonicalJson (.dict (signed K C c message))
      pure (endpoint.rpcPath, raw)

/-- What comes back. A redirection is not followed, and fails. -/
inductive Reply where
  | response (raw : Bytes)
  | httpError (code : Nat)
  | failed (e : PyErr)

def httpFailure (target : String) (code : Nat) : PyErr :=
  .runtimeError (target ++ ": HTTP " ++ toString code)

/-- At most one octet more than the limit is read. -/
def answered (target : String) : Reply → Py Value
  | .response raw =>
    let raw := raw.take (maxWire + 1)
    if maxWire < raw.length then .error (.valueError "response too large") else jsonLoads raw
  | .httpError code => .error (httpFailure target code)
  | .failed e => .error e

/-- `Peer.call` from the reply on. -/
def incoming (target : String) (reply : Reply) : Py Value := do
  let result ← answered target reply
  if !(← result.get "ok" .null).truthy then
    throw (.runtimeError (text K (← result.get "error" (.str "remote operation failed"))))
  else result.item "result"

/-- What a server reads of its configuration for its calls. -/
structure Party where
  role : String
  /-- `identities`: role → public key. -/
  identities : List (String × String)

def rpcKeys : List String := ["actor", "target", "operation", "id", "time", "payload", "signature"]

/-- `allowed`. -/
def allowed : List (String × List (String × List String)) :=
  [("T", [("U", ["submit", "verdict", "audit", "audit_head", "audit_page", "consistency",
    "health"]),
      ("R", ["submit"]), ("M", ["submit"]), ("W", ["audit_head", "consistency"])]),
   ("R", [("U", ["infer", "health", "held_receipts"])]),
   ("M", [("R", ["infer"]), ("U", ["health", "held_receipts"])]),
   ("W", [("U", ["witness", "witness_status", "health"])])]

def operationsOf (role actor : String) : Py (List String) :=
  match allowed.lookup role with
  | some actors => .ok ((actors.lookup actor).getD [])
  | none => .error .keyError

/-- `config["identities"]`, in which any hashable value may be looked up. -/
def Party.keys (P : Party) : List (Value × String) := P.identities.map fun x => (.str x.1, x.2)

def invalidIdentity : PyErr := .valueError "invalid RPC identity or audience"

/-- The actor and its pinned key, of a message for this role. -/
def identified (P : Party) (d : Dict) : Py (String × String) := do
  match ← lookup P.keys (getOr d "actor"), getOr d "actor" with
  | some publicKey, .str actor =>
    if (getOr d "target").eq (.str P.role) then pure (actor, publicKey) else throw invalidIdentity
  | _, _ => throw invalidIdentity

/-- How far the clocks of two roles may differ, in milliseconds. -/
def timeWindow : Nat := 60000

def timely (now : Int) : Value → Bool
  | .int time => (now - time).natAbs ≤ timeWindow
  | _ => false

def bodyOf (d : Dict) : Dict := d.filter fun x => !x.1.eq (.str "signature")

/-- The signature is one of the actor over the rest of the message. -/
def checkSignature (publicKey : String) (d : Dict) : Py Unit := do
  let key ← fromHexValue (.str publicKey)
  let message ← canonicalJson (.dict (bodyOf d))
  let signature ← fromHexValue (getOr d "signature")
  if K.verify key message signature then pure ()
  else throw (.valueError "invalid RPC signature")

def unauthorized : PyErr := .valueError "RPC operation not authorized"

def authorized (P : Party) (actor : String) (operation : Value) : Py String := do
  let operations ← operationsOf P.role actor
  match operation with
  | .str name => if name ∈ operations then pure name else throw unauthorized
  | v => throw (if v.hashable then unauthorized else .typeError)

/-- A message that passed every check. -/
structure Admitted where
  actor : String
  operation : String
  payload : Value

/-- `verify_rpc`. -/
def verifyRpc (P : Party) (rpc : Value) (now : Int) : Py Admitted :=
  match rpc with
  | .dict d =>
    if !hasExactly rpcKeys d then .error (.valueError "invalid RPC")
    else do
      let (actor, publicKey) ← identified P d
      if !timely now (getOr d "time") then throw (.valueError "expired RPC")
      else
        checkSignature K publicKey d
        let operation ← authorized P actor (getOr d "operation")
        pure { actor, operation, payload := getOr d "payload" }
  | _ => .error (.valueError "invalid RPC")

/-- A request as the HTTP library hands it over: the length as `int` reads its header, and of the
body what can be read. -/
structure Posted where
  path : String := "/rpc"
  transferEncoding : Option String := none
  contentType : Option String := some "application/json"
  contentLength : Py Int := .ok 0
  body : Bytes

def received (p : Posted) : Py Bytes :=
  if p.path ≠ "/rpc" ∨ given p.transferEncoding = true then
    .error (.valueError "invalid request path or framing")
  else if p.contentType ≠ some "application/json" then .error (.valueError "JSON is required")
  else do
    let length ← p.contentLength
    if ¬ (0 < length ∧ length ≤ maxWire) then throw (.valueError "invalid content length")
    else if ((p.body.take length.toNat).length : Int) ≠ length then
      throw (.valueError "truncated request")
    else pure (p.body.take length.toNat)

/-- The operations of a service, on its own state. -/
abbrev Handle (S : Type) := Admitted → EStateM PyErr S Value

/-- The text of an answer. -/
def success (result : Value) : Py Bytes := do
  let output ← canonicalJson (.dict (fields [("ok", .bool true), ("result", result)]))
  if maxWire < output.length then
    throw (.valueError "export exceeds v1 wire limit; use a smaller deployment")
  else pure output

/-- A message is checked before the service sees any of it. -/
def admission (P : Party) (now : Int) (p : Posted) : Py Admitted := do
  let raw ← received p
  let rpc ← jsonLoads raw
  verifyRpc K P rpc now

/-- The body of `do_POST`. -/
def serve {S : Type} (P : Party) (handle : Handle S) (now : Int) (p : Posted) :
    EStateM PyErr S Bytes := do
  let admitted ← lift (admission K P now p)
  let result ← handle admitted
  lift (success result)

structure HttpReply where
  code : Nat
  output : Bytes

def failure (code : Nat) (message : String) : HttpReply :=
  { code, output := utf8 (dump
    (canon (.dict (fields [("ok", .bool false), ("error", .str message)])))) }

/-- `ValueError`, `KeyError`, `TypeError`, `OverflowError` and `RecursionError` are the caller's. -/
def refusal : PyErr → HttpReply
  | .valueError _ | .unicodeDecodeError | .nonAsciiKey _ _ | .keyError | .typeError
  | .recursionError =>
    failure 400 "invalid or unauthorized input"
  | _ => failure 503 "service unavailable"

/-- `do_POST`. What the service did before it raised stays done. -/
def doPost {S : Type} (P : Party) (handle : Handle S) (now : Int) (p : Posted) (s : S) :
    HttpReply × S :=
  match serve K P handle now p s with
  | .ok output s' => ({ code := 200, output }, s')
  | .error e s' => (refusal e, s')

def HttpReply.received (r : HttpReply) : Reply :=
  if r.code = 200 then .response r.output else .httpError r.code

/-- A call of a role that is reached, on the state of its service. -/
def remote {S : Type} (C : Caller) (P : Party) (handle : Handle S) (now : Int) (c : Call) (s : S) :
    Py Value × S :=
  match outgoing K C c with
  | .error e => (.error e, s)
  | .ok (path, raw) =>
    let (reply, s') := doPost K P handle now
      { path, contentLength := .ok raw.length, body := raw } s
    (incoming K c.target reply.received, s')

end Rpc
