import Custody.Serialisations
import Custody.Statements

/-!
# Statements in signed CBOR

`to_sign1` issues a statement again as a COSE_Sign1 message: its envelope goes into
the protected header and a claims map inside it, its payload is encoded apart.
`from_sign1` parses the structure, verifies the signature over header and payload,
and looks the fields up again. What it returns holds whatever CBOR values the claims
have.
-/

namespace CoseSign1

open PyValue HexBytes CanonicalJson CanonicalForm Commitments Statements Cbor CborRoundTrip
  Serialisations

def tagSign1 : Int := 18

def hdrAlg : Int := 1
def hdrCrit : Int := 2
def hdrContentType : Int := 3
def hdrKid : Int := 4
def hdrCwtClaims : Int := 15

def algEddsa : Int := -8

def cwtIss : Int := 1
def cwtSub : Int := 2
def cwtIat : Int := 6

/-- `sig_structure(protected, payload)`: the profile leaves `external_aad` empty. -/
def sigStructure (protectedBytes payload : Bytes) : Py Bytes :=
  encode (.list [.text "Signature1", .bytes protectedBytes, .bytes [], .bytes payload])

variable (K : Primitives)

def cwtClaims (s : SignedStatement) : Obj :=
  .dict [(.int cwtIss, ofValue s.iss), (.int cwtSub, ofValue s.sub), (.int cwtIat, .int s.issuedAt)]

def protectedHeader (key : KeyPair) (s : SignedStatement) : Obj :=
  .dict [(.int hdrAlg, .int algEddsa), (.int hdrContentType, ofValue s.contentType),
    (.int hdrKid, .bytes (utf8Bytes key.kid)), (.int hdrCwtClaims, cwtClaims s)]

def message (protectedBytes payload signature : Bytes) : Obj :=
  .tagged tagSign1 (.list [.bytes protectedBytes, .dict [], .bytes payload, .bytes signature])

/-- `to_sign1(key, stmt)`. -/
def toSign1 (key : KeyPair) (s : SignedStatement) : Py Bytes := do
  if ¬Value.eq (.str key.kid) s.kid then
    throw (.valueError ("키가 진술의 kid 와 다르다: " ++ key.kid ++ " != " ++ text K s.kid))
  else do
    let protectedBytes ← encode (protectedHeader key s)
    let payload ← encode (ofValue (.dict s.payload))
    let signed ← sigStructure protectedBytes payload
    encode (message protectedBytes payload (key.sign K signed))

/-- `header.get(label)`. -/
def label (header : List (Obj × Obj)) (n : Int) : Option Obj :=
  (header.find? fun p => p.1.keyEq (.int n)).map Prod.snd

/-- `a < b` of two labels; labels of different kinds do not compare. -/
def labelLess : Obj → Obj → Py Bool
  | .bool a, .bool b => .ok (!a && b)
  | .bool a, .int n => .ok (decide ((if a then 1 else 0) < n))
  | .int n, .bool a => .ok (decide (n < if a then 1 else 0))
  | .int m, .int n => .ok (decide (m < n))
  | .text s, .text t => .ok (charsLt s.toList t.toList)
  | .bytes a, .bytes b => .ok (decide (a < b))
  | _, _ => .error .typeError

def insertLabel (k : Obj) : List Obj → Py (List Obj)
  | [] => .ok [k]
  | l :: rest => do
    if ← labelLess k l then pure (k :: l :: rest) else pure (l :: (← insertLabel k rest))

/-- `set(header) & set(unprotected)`, with the members of the smaller one. -/
def overlap (header unprotected : List (Obj × Obj)) : List Obj :=
  let shared := fun (xs ys : List (Obj × Obj)) =>
    (xs.map Prod.fst).filter fun k => ys.any fun p => p.1.keyEq k
  if header.length < unprotected.length then shared header unprotected
  else shared unprotected header

structure Parsed where
  protectedBytes : Bytes
  header : List (Obj × Obj)
  unprotected : List (Obj × Obj)
  payload : Option Bytes
  signature : Bytes
  kid : String
  contentType : Obj

/-- `decode(data)` inside `except CBORError`. A text that is not UTF-8 raises an
error of another kind. -/
def decodeOr (context : String) (data : Bytes) : Py Obj :=
  match decode data with
  | .error (.valueError reason) => .error (.valueError (context ++ reason))
  | result => result

/-- What `parse` checks of the headers, with `repr` of the labels that are in both. -/
def checkHeader (repr : List Obj → String) (header unprotected : List (Obj × Obj)) : Py Bytes := do
  let shared := overlap header unprotected
  if shared ≠ [] then
    throw (.valueError ("보호·미보호 헤더에 같은 라벨이 있다: " ++
      repr (← shared.foldlM (fun sorted k => insertLabel k sorted) [])))
  else if (label header hdrCrit).isSome then
    throw (.valueError "critical 헤더를 지원하지 않는다")
  else match (label header hdrAlg).getD .none, (label header hdrKid).getD .none with
    | .int alg, kid =>
      if alg ≠ algEddsa then throw (.valueError "alg 는 EdDSA(-8) 여야 한다")
      else match kid with
        | .bytes kid => pure kid
        | _ => throw (.valueError "kid 는 bstr 이어야 한다")
    | _, _ => throw (.valueError "alg 는 EdDSA(-8) 여야 한다")

/-- The header inside the byte string that protects it. -/
def protectedMap (protectedBytes : Bytes) : Py (List (Obj × Obj)) := do
  let header ← if protectedBytes.isEmpty then pure (.dict [])
    else decodeOr "protected 헤더 디코딩 실패: " protectedBytes
  match header with
  | .dict header => pure header
  | _ => throw (.valueError "protected 헤더는 맵이어야 한다")

/-- `parse(data)`. -/
def parse (repr : List Obj → String) (data : Bytes) : Py Parsed := do
  match ← decodeOr "CBOR 디코딩 실패: " data with
  | .tagged tag body =>
    if tag ≠ tagSign1 then throw (.valueError "COSE_Sign1 태그 18 이 아니다")
    else match body with
    | .list [first, second, third, fourth] => match first with
      | .bytes protectedBytes => match second with
        | .dict unprotected => do
          let payload ← match third with
            | .none => pure none
            | .bytes payload => pure (some payload)
            | _ => throw (.valueError "payload 는 bstr 또는 nil 이어야 한다")
          match fourth with
          | .bytes signature => do
            let header ← protectedMap protectedBytes
            let kid ← utf8Text (← checkHeader repr header unprotected)
            let contentType := (label header hdrContentType).getD .none
            pure ⟨protectedBytes, header, unprotected, payload, signature, kid, contentType⟩
          | _ => throw (.valueError "signature 는 bstr 이어야 한다")
        | _ => throw (.valueError "unprotected 헤더는 맵이어야 한다")
      | _ => throw (.valueError "protected 헤더는 bstr 로 감싸야 한다")
    | _ => throw (.valueError "COSE_Sign1 은 4요소 배열이어야 한다")
  | _ => throw (.valueError "COSE_Sign1 태그 18 이 아니다")

/-- `verify_signature(data, public_key)`, with the payload that was signed. -/
def verifySignature (repr : List Obj → String) (data publicKey : Bytes) : Py (Parsed × Bytes) := do
  let parsed ← parse repr data
  match parsed.payload with
  | none => throw (.valueError "분리 서명(payload nil)은 원본 없이 검증할 수 없다")
  | some payload => do
    let signed ← sigStructure parsed.protectedBytes payload
    if K.verify publicKey signed parsed.signature then pure (parsed, payload)
    else throw (.valueError "서명 검증 실패")

/-- The statement that is built from a message. -/
structure Restored where
  iss : Obj
  sub : Obj
  contentType : String
  kid : String
  issuedAt : Obj
  payload : Obj
  signature : String

def requiredClaims : List (String × Int) := [("iss", cwtIss), ("sub", cwtSub), ("iat", cwtIat)]

/-- `from_sign1(data, public_key)`. -/
def fromSign1 (repr : List Obj → String) (data publicKey : Bytes) : Py Restored := do
  let (parsed, signed) ← verifySignature K repr data publicKey
  match label parsed.header hdrCwtClaims with
  | some (.dict claims) =>
    let missing := requiredClaims.filter fun x => (label claims x.2).isNone
    if missing ≠ [] then
      throw (.valueError ("CWT 필수 클레임 누락: " ++ ", ".intercalate (missing.map Prod.fst)))
    else match parsed.contentType with
    | .text contentType => do
      let payload ← decode signed
      let claim := fun n => (label claims n).getD .none
      pure ⟨claim cwtIss, claim cwtSub, contentType, parsed.kid, claim cwtIat, payload,
        hex parsed.signature⟩
    | _ => throw (.valueError "content type 헤더가 없다")
  | _ => throw (.valueError "CWT 클레임 헤더가 없다")

end CoseSign1
