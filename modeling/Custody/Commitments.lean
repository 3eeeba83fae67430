import Custody.CanonicalJson
import Mathlib.Algebra.Group.Nat.Defs

/-!
# Hashes, salted commitments and signatures

SHA-256 and the signature scheme are parameters: any 32-byte hash, and any
scheme whose own signatures verify. Nothing below assumes that the hash is free
of collisions; results that need it name the byte strings that would collide.
-/

namespace Commitments

open PyValue HexBytes CanonicalJson

structure Primitives where
  sha256 : Bytes → Bytes
  sha256_length : ∀ b, (sha256 b).length = 32
  publicKey : Bytes → Bytes
  sign : Bytes → Bytes → Bytes
  verify : Bytes → Bytes → Bytes → Bool
  verify_sign : ∀ seed msg, verify (publicKey seed) msg (sign seed msg) = true
  /-- `repr(v)`, used in the texts of reasons and errors only. -/
  repr : Value → String

variable (K : Primitives)

/-- `str(v)`, which writes text without quotes. -/
def text : Value → String
  | .str s => s
  | v => K.repr v

def sha256Hex (data : Bytes) : String := hex (K.sha256 data)

/-- `content_hash_hex(canonical_bytes)`. -/
def contentHashHex (canonicalBytes : Bytes) : String := sha256Hex K canonicalBytes

/-- `content_hash_hex(canonical_json(obj))`. -/
def contentHash (obj : Value) : Py String := do
  pure (contentHashHex K (← canonicalJson obj))

/-- `bytes.fromhex(v)`. -/
def fromHexValue : Value → Py Bytes
  | .str s => match fromHex s with
    | some b => .ok b
    | none => .error (.valueError "non-hexadecimal number found in fromhex() arg")
  | _ => .error .typeError

def commit (salt contentHash : Bytes) : Py Bytes := do
  if salt.length ≠ 32 then throw (.valueError "salt must be 32 bytes")
  if contentHash.length ≠ 32 then throw (.valueError "content_hash must be 32 bytes")
  pure (K.sha256 (salt ++ contentHash))

def commitHex (saltHex contentHashHex : Value) : Py String := do
  pure (hex (← commit K (← fromHexValue saltHex) (← fromHexValue contentHashHex)))

/-- Two different members of the list with one hash. -/
def Collision (xs : List Bytes) : Prop :=
  ∃ a ∈ xs, ∃ b ∈ xs, a ≠ b ∧ K.sha256 a = K.sha256 b

variable {K}

theorem Collision.mono {xs ys : List Bytes} (sub : ∀ b ∈ xs, b ∈ ys) (h : Collision K xs) :
    Collision K ys := by
  obtain ⟨a, ha, b, hb, different, same⟩ := h
  exact ⟨a, sub a ha, b, sub b hb, different, same⟩

theorem commit_ok {salt h c : Bytes} :
    commit K salt h = .ok c ↔ salt.length = 32 ∧ h.length = 32 ∧ c = K.sha256 (salt ++ h) := by
  unfold commit
  by_cases hs : salt.length = 32
  · by_cases hh : h.length = 32
    · simp [hs, hh, eq_comm]
    · simp [hs, hh]
  · simp [hs]

theorem commitHex_ok {salt h : Value} {c : String} :
    commitHex K salt h = .ok c ↔ ∃ s x, fromHexValue salt = .ok s ∧ fromHexValue h = .ok x ∧
      s.length = 32 ∧ x.length = 32 ∧ c = hex (K.sha256 (s ++ x)) := by
  simp only [commitHex, bind_ok, commit_ok, pure_ok, Except.ok.injEq]
  constructor
  · rintro ⟨s, hs, x, hx, d, ⟨ls, lx, rfl⟩, rfl⟩
    exact ⟨s, x, hs, hx, ls, lx, rfl⟩
  · rintro ⟨s, x, hs, hx, ls, lx, rfl⟩
    exact ⟨s, hs, x, hx, _, ⟨ls, lx, rfl⟩, rfl⟩

/-- One commitment has one salt and one content hash, unless the hash collides. -/
theorem commit_binding {s s' x x' : Bytes} (hs : s.length = 32) (hs' : s'.length = 32)
    (same : K.sha256 (s ++ x) = K.sha256 (s' ++ x')) :
    (s = s' ∧ x = x') ∨ Collision K [s ++ x, s' ++ x'] := by
  by_cases h : s ++ x = s' ++ x'
  · exact Or.inl (List.append_inj h (hs.trans hs'.symm))
  · exact Or.inr ⟨s ++ x, by simp, s' ++ x', by simp, h, same⟩

/-- One content hash has one text, unless the hash collides. -/
theorem contentHash_binding {a b : Bytes} (same : contentHashHex K a = contentHashHex K b) :
    a = b ∨ Collision K [a, b] := by
  by_cases h : a = b
  · exact Or.inl h
  · exact Or.inr ⟨a, by simp, b, by simp, h, hex_injective same⟩

def digestBytes : Nat → Nat → Bytes
  | 0, _ => []
  | n + 1, x => UInt8.ofNat (x % 256) :: digestBytes n (x / 256)

theorem digestBytes_length (n x : Nat) : (digestBytes n x).length = n := by
  induction n generalizing x with
  | zero => rfl
  | succ n ih => simp [digestBytes, ih]

/-- A polynomial in the bytes, modulo a prime near 2^255. -/
def toyHash (b : Bytes) : Bytes :=
  digestBytes 32 (b.foldl (fun acc x => (acc * 65599 + x.toNat + 1) % (2 ^ 255 - 19)) b.length)

def toyRepr : Value → String
  | .null => "None"
  | .bool true => "True"
  | .bool false => "False"
  | .int n => toString n
  | .str s => "'" ++ s ++ "'"
  | .list _ => "[...]"
  | .dict _ => "(...)"

/-- A small hash, and signatures that only name their key. -/
def toy : Primitives where
  sha256 := toyHash
  sha256_length := fun b => digestBytes_length 32 _
  publicKey := fun seed => seed
  sign := fun seed _ => seed
  verify := fun key _ sig => sig == key
  verify_sign := by simp
  repr := toyRepr

/-- The same with a hash of the first bytes only, for runs that write much. -/
def brief : Primitives :=
  { toy with
    sha256 := fun b => toyHash (b.take 64)
    sha256_length := fun b => digestBytes_length 32 _
    verify_sign := by simp [toy] }

variable (K)

/-- A signing key; `kid` is the identifier written into statement headers. -/
structure KeyPair where
  kid : String
  seed : Bytes

namespace KeyPair

def publicKey (key : KeyPair) : Bytes := K.publicKey key.seed

def publicHex (key : KeyPair) : String := hex (key.publicKey K)

def sign (key : KeyPair) (msg : Bytes) : Bytes := K.sign key.seed msg

end KeyPair

end Commitments
