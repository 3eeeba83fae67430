import Custody.Commitments

/-!
# Signed statements

The common envelope of all statement types, and the canonical bytes it is signed
over. A statement read from JSON keeps whatever types its fields have.
-/

namespace Statements

open PyValue HexBytes CanonicalJson Commitments

def ctContract : String := "application/vnd.itx.contract+json"
def ctRelay : String := "application/vnd.itx.relay+json"
def ctReceipt : String := "application/vnd.itx.receipt+json"
def ctObservation : String := "application/vnd.itx.observation+json"
def ctManifest : String := "application/vnd.itx.manifest+json"
def ctVerdict : String := "application/vnd.itx.verdict+json"
def ctPolicy : String := "application/vnd.itx.policy+json"

def allContentTypes : List String :=
  [ctContract, ctRelay, ctReceipt, ctObservation, ctManifest, ctVerdict, ctPolicy]

def profileVersion : String := "itx-profile/0.1"
def checkerVersion : String := "itx-reconcile/0.1.0"
def deploymentMode : String := "evaluation"

structure SignedStatement where
  iss : Value
  sub : Value
  contentType : Value
  kid : Value
  issuedAt : Int
  payload : Dict
  signature : Value

namespace SignedStatement

variable (K : Primitives)

def header (s : SignedStatement) : Dict :=
  fields [("iss", s.iss), ("sub", s.sub), ("content_type", s.contentType), ("kid", s.kid),
    ("issued_at", .int s.issuedAt), ("payload", .dict s.payload)]

def toBeSigned (s : SignedStatement) : Py Bytes := canonicalJson (.dict s.header)

def statementHash (s : SignedStatement) : Py String := do
  pure (sha256Hex K (← s.toBeSigned))

/-- `verify_with(public_key)`: an absent or unreadable signature is just invalid. -/
def verifyWith (s : SignedStatement) (publicKey : Bytes) : Py Bool := do
  if !s.signature.truthy then return false
  match s.signature with
  | .str text => match fromHex text with
    | none => pure false
    | some sig => do
      let message ← s.toBeSigned
      pure (K.verify publicKey message sig)
  | _ => throw .typeError

def toDict (s : SignedStatement) : Value := .dict (s.header ++ fields [("signature", s.signature)])

def fromDict (d : Value) : Py SignedStatement := do
  let iss ← d.item "iss"
  let sub ← d.item "sub"
  let contentType ← d.item "content_type"
  let kid ← d.item "kid"
  let issuedAt ← intOf (← d.item "issued_at")
  let payload ← dictOf (← d.item "payload")
  let signature ← d.get "signature" (.str "")
  pure { iss, sub, contentType, kid, issuedAt, payload, signature }

def leafBytes (s : SignedStatement) : Py Bytes := canonicalJson s.toDict

theorem fromDict_toDict (s : SignedStatement) : fromDict s.toDict = .ok s := by
  simp [fromDict, toDict, header, fields, Value.item, Value.get, find, intOf, dictOf]

end SignedStatement

open SignedStatement

variable (K : Primitives)

/-- The statement before it is signed; its own signature field does not count. -/
def draft (key : KeyPair) (iss sub contentType : Value) (payload : Dict) (issuedAt : Int) :
    SignedStatement :=
  { iss, sub, contentType, kid := .str key.kid, issuedAt, payload, signature := .str "" }

/-- `issue(key, ...)`. -/
def issue (key : KeyPair) (iss sub contentType : Value) (payload : Dict) (issuedAt : Int) :
    Py SignedStatement := do
  let stmt := draft key iss sub contentType payload issuedAt
  let message ← stmt.toBeSigned
  pure { stmt with signature := .str (hex (key.sign K message)) }

variable {K}

theorem issue_ok {key : KeyPair} {iss sub contentType : Value} {payload : Dict}
    {issuedAt : Int} {s : SignedStatement}
    (h : issue K key iss sub contentType payload issuedAt = .ok s) :
    ∃ message, (draft key iss sub contentType payload issuedAt).toBeSigned = .ok message ∧
      s = { draft key iss sub contentType payload issuedAt with
            signature := .str (hex (key.sign K message)) } := by
  rw [issue, bind_ok] at h
  obtain ⟨message, bytes, stmt⟩ := h
  exact ⟨message, bytes, (Except.ok.inj stmt).symm⟩

/-- Equal signed bytes fix the header fields that are text and the payload's fields. -/
theorem toBeSigned_fields {s t : SignedStatement} {b : Bytes} (hs : s.toBeSigned = .ok b)
    (ht : t.toBeSigned = .ok b) :
    canon s.iss = canon t.iss ∧ canon s.sub = canon t.sub ∧
    canon s.contentType = canon t.contentType ∧ canon s.kid = canon t.kid ∧
    canon (.dict s.payload) = canon (.dict t.payload) := by
  have same := find_of_canon (canonicalJson_injective hs ht)
  have iss := same "iss"
  have sub := same "sub"
  have contentType := same "content_type"
  have kid := same "kid"
  have payload := same "payload"
  simp [header, fields, find] at iss sub contentType kid payload
  exact ⟨iss, sub, contentType, kid, payload⟩

end Statements
