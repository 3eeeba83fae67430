import Custody.AppendOnly

/-!
# What the tree proofs promise

The prover splits from the top, the verifiers climb from the bottom with two
shifting numbers. Each proof of either kind is accepted, and what is accepted is
what the tree holds, unless two different byte strings have one hash.
-/

namespace TreeProofs

open PyValue HexBytes Commitments Statements TransparencyLog Merkle MerkleProofs AppendOnly

variable {K : Primitives}

/-- Every leaf is proved, with at most one sibling for each digit of the last index. -/
theorem inclusion_proofs_complete (hashes : List Bytes) {m : Nat} (inside : m < hashes.length) :
    verifyInclusion K m hashes.length hashes[m] (inclusionPath K m hashes) (mth K hashes) = true ∧
    (inclusionPath K m hashes).length ≤ Nat.size (hashes.length - 1) := by
  refine ⟨inclusion_complete inside, ?_⟩
  rw [inclusionPath_path]
  exact HashTree.path_length (nodeHash K) (K.sha256 []) hashes m

theorem inclusion_proofs_complete_three :
    verifyInclusion toy 2 3 [2] (inclusionPath toy 2 [[0], [1], [2]]) (mth toy [[0], [1], [2]]) =
      true ∧ (inclusionPath toy 2 [[0], [1], [2]]).length ≤ Nat.size 2 :=
  inclusion_proofs_complete (K := toy) [[0], [1], [2]] (by decide)

/-- The bytes that the verifier hashes on the way from a leaf to the root. -/
def inclusionInputs (K : Primitives) (m n : Nat) (leaf : Bytes) (proof : List Bytes) :
    List Bytes :=
  (HashTree.folds (nodeHash K) leaf (HashTree.turns m (n - 1)) proof).map nodeInput

theorem verifyInclusion_walk {m n : Nat} {leaf root : Bytes} {proof : List Bytes}
    (inside : m < n) : verifyInclusion K m n leaf proof root = true ↔
      HashTree.ascend (nodeHash K) leaf (HashTree.turns m (n - 1)) proof = some root := by
  have last : (n : Int) - 1 = ((n - 1 : Nat) : Int) := by omega
  rw [verifyInclusion, if_neg (by omega), last, ← ascent_walk (show m ≤ n - 1 by omega)]
  cases ascent K ⟨(m : Int), ((n - 1 : Nat) : Int), leaf⟩ proof <;> simp

theorem inclusion_sound {hashes proof : List Bytes} {m : Nat} {leaf : Bytes}
    (inside : m < hashes.length) (leaves : ∀ x ∈ hashes, Sized x) (sized : Sized leaf)
    (accepted : verifyInclusion K m hashes.length leaf proof (mth K hashes) = true) :
    (leaf = hashes[m] ∧ proof = inclusionPath K m hashes) ∨
    Collision K (inclusionInputs K m hashes.length leaf proof ++ treeInputs K hashes) := by
  have folded := (verifyInclusion_walk inside).mp accepted
  rw [mth_root] at folded
  rw [inclusionPath_path]
  exact (HashTree.path_sound (K.sha256 []) nodeHash_binding inside leaves sized folded).imp_right
    collision_of_clashes

/-- What is accepted below the root of a list is its leaf, with the proof the list makes. -/
theorem inclusion_proofs_sound {hashes proof : List Bytes} {m : Nat} {leaf : Bytes}
    (inside : m < hashes.length) (leaves : ∀ x ∈ hashes, x.length = 32) (sized : leaf.length = 32)
    (accepted : verifyInclusion K m hashes.length leaf proof (mth K hashes) = true) :
    (leaf = hashes[m] ∧ proof = inclusionPath K m hashes) ∨
    Collision K (inclusionInputs K m hashes.length leaf proof ++ treeInputs K hashes) :=
  inclusion_sound inside leaves sized accepted

/-- Every prefix is proved. -/
theorem consistency_proofs_complete (hashes : List Bytes) {m : Nat} (inside : m ≤ hashes.length) :
    ∃ proof, consistencyPath K m hashes = .ok proof ∧
      verifyConsistency K m hashes.length (mth K (hashes.take m)) (mth K hashes) proof = true :=
  consistency_complete inside

theorem consistency_proofs_complete_three : ∃ proof,
    consistencyPath toy 2 [[0], [1], [2]] = .ok proof ∧
    verifyConsistency toy 2 3 (mth toy [[0], [1]]) (mth toy [[0], [1], [2]]) proof = true :=
  consistency_proofs_complete (K := toy) [[0], [1], [2]] (m := 2) (by decide)

theorem seedSized_of_all {first : Nat} {firstRoot : Bytes} {proof : List Bytes}
    (root : Sized firstRoot) (each : ∀ p ∈ proof, Sized p) : SeedSized first firstRoot proof := by
  intro seed head
  rw [seeded] at head
  split at head
  next =>
    obtain rfl := Option.some.inj head
    exact root
  next => exact each seed (List.mem_of_mem_head? head)

/-- What is accepted below the root of a list is the root of its prefix. -/
theorem consistency_proofs_sound {hashes proof : List Bytes} {m : Nat} {firstRoot : Bytes}
    (positive : 0 < m) (inside : m ≤ hashes.length) (leaves : ∀ x ∈ hashes, x.length = 32)
    (sized : firstRoot.length = 32) (elements : ∀ p ∈ proof, p.length = 32)
    (accepted : verifyConsistency K m hashes.length firstRoot (mth K hashes) proof = true) :
    firstRoot = mth K (hashes.take m) ∨
    Collision K (proofInputs K m hashes.length firstRoot proof ++ treeInputs K hashes) :=
  consistency_sound positive inside leaves (fun _ => seedSized_of_all sized elements) accepted

/-- Leaf hashes of 32 bytes. -/
def sampleLeaves : List Bytes := [0, 1, 2].map fun b => leafHash toy [b]

theorem sampleLeaves_sized : ∀ x ∈ sampleLeaves, x.length = 32 := by decide +kernel

theorem inclusion_proofs_sound_sample :
    (leafHash toy [2] = sampleLeaves[2] ∧
      inclusionPath toy 2 sampleLeaves = inclusionPath toy 2 sampleLeaves) ∨
    Collision toy (inclusionInputs toy 2 3 (leafHash toy [2]) (inclusionPath toy 2 sampleLeaves) ++
      treeInputs toy sampleLeaves) :=
  inclusion_proofs_sound (K := toy) (by decide) sampleLeaves_sized (leafHash_sized _)
    (by decide +kernel)

theorem consistency_proofs_sound_sample :
    mth toy (sampleLeaves.take 2) = mth toy (sampleLeaves.take 2) ∨
    Collision toy (proofInputs toy 2 3 (mth toy (sampleLeaves.take 2)) [leafHash toy [2]] ++
      treeInputs toy sampleLeaves) :=
  consistency_proofs_sound (K := toy) (by decide) (by decide) sampleLeaves_sized
    (by decide +kernel) (by decide +kernel) (by decide +kernel)

/-- `[bytes.fromhex(p) for p in receipt.inclusion_proof]`. -/
def proofOf (rc : RegistrationReceipt) : Py (List Bytes) := do
  (← rc.inclusionProof.iterate).mapM fromHexValue

/-- What a verified receipt establishes of the statement's leaf bytes. -/
structure Included (K : Primitives) (rc : RegistrationReceipt) (s : SignedStatement) (i n : Int)
    (data : Bytes) (proof : List Bytes) (root : Bytes) : Prop where
  leaf : s.leafBytes = .ok data
  read : proofOf rc = .ok proof
  rooted : fromHexValue rc.rootHash = .ok root
  accepted : verifyInclusion K i n (leafHash K data) proof root = true

theorem verifyReceipt_ok {rc : RegistrationReceipt} {s : SignedStatement} {publicKey : Bytes}
    {i n : Int} (index : rc.leafIndex = .int i) (size : rc.treeSize = .int n)
    (verified : verifyReceipt K rc s publicKey = .ok (true, "ok")) :
    ∃ data proof root, Included K rc s i n data proof root := by
  obtain ⟨message, -, verified⟩ := bind_ok.mp verified
  obtain ⟨signature, -, verified⟩ := bind_ok.mp verified
  split at verified
  next =>
    cases verified
  next =>
    obtain ⟨data, leaf, verified⟩ := bind_ok.mp verified
    split at verified
    next =>
      cases verified
    next =>
      obtain ⟨texts, listed, verified⟩ := bind_ok.mp verified
      obtain ⟨proof, read, verified⟩ := bind_ok.mp verified
      obtain ⟨root, rooted, verified⟩ := bind_ok.mp verified
      obtain ⟨found, included, verified⟩ := bind_ok.mp verified
      cases found with
      | false => cases verified
      | true =>
        refine ⟨data, proof, root, leaf, bind_ok.mpr ⟨texts, listed, read⟩, rooted, ?_⟩
        obtain ⟨beyond, -, included⟩ := bind_ok.mp included
        rw [index, size] at included
        cases beyond with
        | true => cases included
        | false => exact Except.ok.inj included

/-- The receipt's position is one of its tree, and every list of leaf hashes with its size
and its root has the statement's leaf there. -/
def NamesPosition (K : Primitives) (rc : RegistrationReceipt) (s : SignedStatement) (i n : Int) :
    Prop :=
  0 ≤ i ∧ i < n ∧ ∀ leaves : List Bytes, (∀ x ∈ leaves, x.length = 32) →
    (leaves.length : Int) = n → fromHexValue rc.rootHash = .ok (mth K leaves) →
    ∃ data proof, s.leafBytes = .ok data ∧ proofOf rc = .ok proof ∧
      (leaves[i.toNat]? = some (leafHash K data) ∨
        Collision K (inclusionInputs K i.toNat n.toNat (leafHash K data) proof ++
          treeInputs K leaves))

/-- A verified receipt names a position unless its index is negative. -/
theorem verified_position_iff {rc : RegistrationReceipt} {s : SignedStatement} {publicKey : Bytes}
    {i n : Int} (index : rc.leafIndex = .int i) (size : rc.treeSize = .int n)
    (verified : verifyReceipt K rc s publicKey = .ok (true, "ok")) :
    NamesPosition K rc s i n ↔ 0 ≤ i := by
  constructor
  · intro named
    exact named.1
  · intro natural
    obtain ⟨data, proof, root, included⟩ := verifyReceipt_ok index size verified
    have accepted := included.accepted
    have inside : i < n := by
      by_contra beyond
      rw [verifyInclusion, if_pos (by omega)] at accepted
      cases accepted
    refine ⟨natural, inside, ?_⟩
    intro leaves sized length rooted
    refine ⟨data, proof, included.leaf, included.read, ?_⟩
    have same : root = mth K leaves := Except.ok.inj (included.rooted.symm.trans rooted)
    obtain ⟨m, rfl⟩ : ∃ m : Nat, i = (m : Int) := ⟨i.toNat, by omega⟩
    subst length
    rw [same] at accepted
    have fits : m < leaves.length := by omega
    rw [Int.toNat_natCast, Int.toNat_natCast]
    rcases inclusion_sound fits sized (leafHash_sized data) accepted with ⟨leaf, -⟩ | collision
    · left
      rw [List.getElem?_eq_getElem fits, leaf]
    · exact .inr collision

def strayStatement : SignedStatement :=
  { iss := .str "m", sub := .str "r", contentType := .str "c", kid := .str "k", issuedAt := 0,
    payload := [], signature := .str "" }

def strayLeaf : Bytes := leafHash toy (strayStatement.leafBytes.toOption.getD [])

def strayReceipt (index : Int) : RegistrationReceipt :=
  { logId := .str "log", leafIndex := .int index, treeSize := .int 1,
    rootHash := .str (hex strayLeaf), leafHash := .str (hex strayLeaf), registeredAt := .int 0,
    tsKid := .str "t", inclusionProof := .list [], signature := .str (hex [4]) }

/-- A tree of one leaf is also accepted at index -1. -/
theorem negative_index_verified :
    verifyReceipt toy (strayReceipt (-1)) strayStatement [4] = .ok (true, "ok") ∧
    ¬ NamesPosition toy (strayReceipt (-1)) strayStatement (-1) 1 := by
  constructor
  · decide +kernel
  · rintro ⟨natural, -⟩
    omega

def grownLeaves : List Bytes := strayLeaf :: sampleLeaves

/-- The receipt of the first of four leaves, with the two hashes that lead to the root. -/
def firstReceipt : RegistrationReceipt :=
  { strayReceipt 0 with
    treeSize := .int 4
    rootHash := .str (hex (mth toy grownLeaves))
    inclusionProof := .ofStrings ((inclusionPath toy 0 grownLeaves).map hex) }

theorem verified_position_iff_first : (inclusionPath toy 0 grownLeaves).length = 2 ∧
    (NamesPosition toy firstReceipt strayStatement 0 4 ↔ (0 : Int) ≤ 0) :=
  ⟨by decide +kernel, verified_position_iff (K := toy) rfl rfl
    (show verifyReceipt toy firstReceipt strayStatement [4] = .ok (true, "ok") by
      decide +kernel)⟩

end TreeProofs
