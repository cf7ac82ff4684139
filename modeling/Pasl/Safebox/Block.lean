import Pasl.Utils.Binary
import Pasl.Utils.Value

/-!
# `safebox.NewBlock` and `GetOperationsHash`

`NewBlock` copies the operations of the block's metadata and adds up their
fees in a `uint64`, builds the miner's key, and mints five accounts.  The
account numbers are `i + index` for `i < 5`, so consecutive blocks mint
overlapping numbers; the fee wraps modulo `2^64`.  The collaborators outside
this repository (`tx.Tx.GetFee`, `crypto.NewPublic`, `getReward`) are
parameters.

`GetOperationsHash` chains SHA-256 over the operations.  With the digest as a
parameter, two operation lists that hash alike but differ in their encodings
exhibit two of the inputs the loops handed SHA-256 that collide.
-/

namespace Pasl.Safebox

open Pasl.Utils

/-- `accounter.Account`, whose fields `NewBlock` sets. -/
structure Account (Public : Type) where
  number : BitVec 32
  publicKey : Public
  balance : BitVec 64
  updatedIndex : BitVec 32
  operations : BitVec 32

/-- `BlockMetadata`, with the fields `NewBlock` reads. -/
structure BlockMetadata (Tx : Type) where
  index : BitVec 32
  miner : List UInt8
  operations : List Tx

/-- `Block`, with the fields `NewBlock` computes in this repository's code. -/
structure Block (Tx Public : Type) where
  meta : BlockMetadata Tx
  miner : Public
  operations : List Tx
  fee : BitVec 64
  reward : BitVec 64
  accounts : List (Account Public)

/-- What `NewBlock` calls outside the files of this repository. -/
structure Collaborators (Tx Public : Type) where
  getFee : Tx → BitVec 64
  newPublic : List UInt8 → Except String Public
  getReward : BitVec 32 → BitVec 64

section
variable {Tx Public : Type} (env : Collaborators Tx Public)

/-- `fee += operations[index].GetFee()` over the operations, in a `uint64`. -/
def sumFees (operations : List Tx) : BitVec 64 :=
  operations.foldl (fun fee it => fee + env.getFee it) 0

/-- The `Accounts` loop: `Number: i + block.GetIndex()` for `i < 5`. -/
def mintAccounts (miner : Public) (index : BitVec 32) : List (Account Public) :=
  (List.range 5).map fun i =>
    { number := BitVec.ofNat 32 i + index, publicKey := miner, balance := 0,
      updatedIndex := index, operations := 0 }

/-- `safebox.NewBlock(meta)`. -/
def newBlock (meta : BlockMetadata Tx) : Except String (Block Tx Public) := do
  let fee := sumFees env meta.operations
  let miner ← env.newPublic meta.miner
  pure { meta, miner, operations := meta.operations, fee, reward := env.getReward meta.index,
         accounts := mintAccounts miner meta.index }

theorem newBlock_ok {meta : BlockMetadata Tx} {b : Block Tx Public}
    (h : newBlock env meta = .ok b) :
    ∃ miner, env.newPublic meta.miner = .ok miner ∧ b.fee = sumFees env meta.operations ∧
      b.accounts = mintAccounts miner meta.index := by
  obtain ⟨miner, hm, h⟩ := bind_eq_ok.mp h
  cases h
  exact ⟨miner, hm, rfl, rfl⟩

theorem newBlock_accountNumbers {meta : BlockMetadata Tx} {b : Block Tx Public}
    (h : newBlock env meta = .ok b) :
    b.accounts.map (·.number) = (List.range 5).map fun i => BitVec.ofNat 32 i + meta.index := by
  obtain ⟨miner, -, -, hacc⟩ := newBlock_ok env h
  rw [hacc, mintAccounts, List.map_map]
  rfl

end

theorem newBlock_accountNumbers_overlap :
    ∃ b₀ b₁ : Block Unit Unit,
      newBlock ⟨fun _ => 0, fun _ => .ok (), fun _ => 0⟩ ⟨0, [], []⟩ = .ok b₀ ∧
      newBlock ⟨fun _ => 0, fun _ => .ok (), fun _ => 0⟩ ⟨1, [], []⟩ = .ok b₁ ∧
      b₀.accounts.map (·.number) = [0, 1, 2, 3, 4] ∧ b₁.accounts.map (·.number) = [1, 2, 3, 4, 5] := by
  obtain ⟨b₀, h₀⟩ : ∃ b : Block Unit Unit,
      newBlock ⟨fun _ => 0, fun _ => .ok (), fun _ => 0⟩ ⟨0, [], []⟩ = .ok b := ⟨_, rfl⟩
  obtain ⟨b₁, h₁⟩ : ∃ b : Block Unit Unit,
      newBlock ⟨fun _ => 0, fun _ => .ok (), fun _ => 0⟩ ⟨1, [], []⟩ = .ok b := ⟨_, rfl⟩
  refine ⟨b₀, b₁, h₀, h₁, ?_, ?_⟩
  · rw [newBlock_accountNumbers _ h₀]
    decide
  · rw [newBlock_accountNumbers _ h₁]
    decide

section
variable {Tx Public : Type} (env : Collaborators Tx Public)

private theorem foldl_fee_toNat (acc : BitVec 64) (operations : List Tx) :
    (operations.foldl (fun fee it => fee + env.getFee it) acc).toNat =
      (acc.toNat + (operations.map fun it => (env.getFee it).toNat).sum) % 2 ^ 64 := by
  induction operations generalizing acc with
  | nil => simp [Nat.mod_eq_of_lt acc.isLt]
  | cons it operations ih =>
      rw [List.foldl_cons, ih, BitVec.toNat_add, Nat.mod_add_mod, List.map_cons, List.sum_cons,
        Nat.add_assoc]

theorem sumFees_toNat (operations : List Tx) :
    (sumFees env operations).toNat = (operations.map fun it => (env.getFee it).toNat).sum % 2 ^ 64 := by
  rw [sumFees, foldl_fee_toNat, show (0 : BitVec 64).toNat = 0 from rfl, Nat.zero_add]

theorem newBlock_fee {meta : BlockMetadata Tx} {miner : Public}
    (hm : env.newPublic meta.miner = .ok miner) :
    ∃ b, newBlock env meta = .ok b ∧
      b.fee.toNat = (meta.operations.map fun it => (env.getFee it).toNat).sum % 2 ^ 64 :=
  ⟨_, by rw [newBlock, hm]; rfl, sumFees_toNat env meta.operations⟩

end

theorem newBlock_fee_small :
    (⟨id, fun _ => .ok (), fun _ => 0⟩ : Collaborators (BitVec 64) Unit).newPublic [] = .ok () ∧
      ∃ b, newBlock ⟨id, fun _ => .ok (), fun _ => 0⟩ ⟨0, [], [3, 4]⟩ = .ok b ∧
        b.fee.toNat = ([3, 4].map fun it : BitVec 64 => it.toNat).sum % 2 ^ 64 :=
  ⟨rfl, newBlock_fee ⟨id, fun _ => .ok (), fun _ => 0⟩ (by rfl)⟩

theorem newBlock_fee_wraps :
    (newBlock ⟨id, fun _ => .ok (), fun _ => 0⟩
        ⟨0, [], [BitVec.ofNat 64 (2 ^ 64 - 1), 1]⟩ : Except String (Block (BitVec 64) Unit)).map
      Block.fee = .ok 0 := rfl

section
variable {Tx : Type} (sha256 : List UInt8 → List UInt8) (serializeUnderlying : Tx → List UInt8)

/-- `GetOperationsHash(operations)`, with `sha256.Sum256` as `sha256` and the bytes
`it.SerializeUnderlying(h)` feeds `h` as `serializeUnderlying it`: `h.Sum(hash[:])`
appends the digest of those bytes to the running hash. -/
def getOperationsHash (operations : List Tx) : List UInt8 :=
  operations.foldl (fun hash it => sha256 (hash ++ sha256 (serializeUnderlying it))) (sha256 [])

/-- What the loop of `GetOperationsHash` hands SHA-256 from the running hash
`hash` on: per operation, its underlying bytes (through `h`) and then
`h.Sum(hash[:])`. -/
def hashInputsFrom (hash : List UInt8) : List Tx → List (List UInt8)
  | [] => []
  | it :: operations =>
      serializeUnderlying it :: (hash ++ sha256 (serializeUnderlying it)) ::
        hashInputsFrom (sha256 (hash ++ sha256 (serializeUnderlying it))) operations

def getOperationsHashInputs (operations : List Tx) : List (List UInt8) :=
  [] :: hashInputsFrom sha256 serializeUnderlying (sha256 []) operations

theorem getOperationsHash_nil : getOperationsHash sha256 serializeUnderlying [] = sha256 [] := rfl

theorem getOperationsHash_append_singleton (operations : List Tx) (it : Tx) :
    getOperationsHash sha256 serializeUnderlying (operations ++ [it]) =
      sha256 (getOperationsHash sha256 serializeUnderlying operations ++
        sha256 (serializeUnderlying it)) := by
  rw [getOperationsHash, List.foldl_append, List.foldl_cons, List.foldl_nil]
  rfl

private theorem hashInputsFrom_append_singleton (operations : List Tx) (it : Tx) :
    ∀ hash, hashInputsFrom sha256 serializeUnderlying hash (operations ++ [it]) =
      hashInputsFrom sha256 serializeUnderlying hash operations ++
        [serializeUnderlying it,
          operations.foldl (fun hash it => sha256 (hash ++ sha256 (serializeUnderlying it))) hash ++
            sha256 (serializeUnderlying it)] := by
  induction operations with
  | nil => intro hash; rfl
  | cons it' operations ih =>
      intro hash
      rw [List.cons_append, hashInputsFrom, hashInputsFrom, ih, List.foldl_cons, List.cons_append,
        List.cons_append]

theorem getOperationsHashInputs_append_singleton (operations : List Tx) (it : Tx) :
    getOperationsHashInputs sha256 serializeUnderlying (operations ++ [it]) =
      getOperationsHashInputs sha256 serializeUnderlying operations ++
        [serializeUnderlying it,
          getOperationsHash sha256 serializeUnderlying operations ++ sha256 (serializeUnderlying it)] := by
  rw [getOperationsHashInputs, hashInputsFrom_append_singleton]
  rfl

private theorem mem_getOperationsHashInputs (operations : List Tx) (it : Tx) :
    [] ∈ getOperationsHashInputs sha256 serializeUnderlying operations ∧
      serializeUnderlying it ∈ getOperationsHashInputs sha256 serializeUnderlying (operations ++ [it]) ∧
      getOperationsHash sha256 serializeUnderlying operations ++ sha256 (serializeUnderlying it) ∈
        getOperationsHashInputs sha256 serializeUnderlying (operations ++ [it]) := by
  rw [getOperationsHashInputs_append_singleton]
  exact ⟨List.mem_cons_self _ _, by simp, by simp⟩

variable (hlen : ∀ x, (sha256 x).length = 32)
include hlen

private theorem length_getOperationsHash (operations : List Tx) :
    (getOperationsHash sha256 serializeUnderlying operations).length = 32 := by
  induction operations using List.reverseRecOn with
  | nil => exact hlen _
  | append_singleton operations it _ =>
      rw [getOperationsHash_append_singleton]
      exact hlen _

private theorem collision_or_map_eq :
    ∀ operations operations' : List Tx,
      getOperationsHash sha256 serializeUnderlying operations =
        getOperationsHash sha256 serializeUnderlying operations' →
      (∃ x ∈ getOperationsHashInputs sha256 serializeUnderlying operations,
        ∃ y ∈ getOperationsHashInputs sha256 serializeUnderlying operations',
          x ≠ y ∧ sha256 x = sha256 y) ∨
        operations.map serializeUnderlying = operations'.map serializeUnderlying := by
  have hne : ∀ (operations : List Tx) it,
      getOperationsHash sha256 serializeUnderlying operations ++ sha256 (serializeUnderlying it) ≠ [] :=
    fun operations it h => by simpa [hlen] using congrArg List.length h
  have mem := mem_getOperationsHashInputs sha256 serializeUnderlying
  intro operations
  induction operations using List.reverseRecOn with
  | nil =>
      intro operations' h
      rcases List.eq_nil_or_concat operations' with rfl | ⟨rest, it', rfl⟩
      · exact .inr rfl
      · rw [List.concat_eq_append, getOperationsHash_nil, getOperationsHash_append_singleton] at h
        rw [List.concat_eq_append]
        exact .inl ⟨[], (mem [] it').1, _, (mem rest it').2.2, (hne rest it').symm, h⟩
  | append_singleton operations it ih =>
      intro operations' h
      rcases List.eq_nil_or_concat operations' with rfl | ⟨rest, it', rfl⟩
      · rw [getOperationsHash_nil, getOperationsHash_append_singleton] at h
        exact .inl ⟨_, (mem operations it).2.2, [], (mem [] it).1, hne operations it, h⟩
      · rw [List.concat_eq_append, getOperationsHash_append_singleton,
          getOperationsHash_append_singleton] at h
        rw [List.concat_eq_append]
        by_cases hchain : getOperationsHash sha256 serializeUnderlying operations ++
            sha256 (serializeUnderlying it) =
          getOperationsHash sha256 serializeUnderlying rest ++ sha256 (serializeUnderlying it')
        · obtain ⟨hinit, hlast⟩ := List.append_inj hchain
            (by rw [length_getOperationsHash sha256 serializeUnderlying hlen,
              length_getOperationsHash sha256 serializeUnderlying hlen])
          by_cases hit : serializeUnderlying it = serializeUnderlying it'
          · rcases ih rest hinit with ⟨x, hx, y, hy, hxy⟩ | hmap
            · refine .inl ⟨x, ?_, y, ?_, hxy⟩ <;>
                simp [getOperationsHashInputs_append_singleton, hx, hy]
            · exact .inr (by simp [hmap, hit])
          · exact .inl ⟨_, (mem operations it).2.1, _, (mem rest it').2.1, hit, hlast⟩
        · exact .inl ⟨_, (mem operations it).2.2, _, (mem rest it').2.2, hchain, h⟩

theorem getOperationsHash_binding {operations operations' : List Tx}
    (h : getOperationsHash sha256 serializeUnderlying operations =
      getOperationsHash sha256 serializeUnderlying operations')
    (hne : operations.map serializeUnderlying ≠ operations'.map serializeUnderlying) :
    ∃ x ∈ getOperationsHashInputs sha256 serializeUnderlying operations,
      ∃ y ∈ getOperationsHashInputs sha256 serializeUnderlying operations',
        x ≠ y ∧ sha256 x = sha256 y :=
  (collision_or_map_eq sha256 serializeUnderlying hlen _ _ h).resolve_right hne

end

theorem getOperationsHash_binding_constant :
    (∀ x : List UInt8, ((fun _ => List.replicate 32 0 : List UInt8 → List UInt8) x).length = 32) ∧
      getOperationsHash (fun _ => List.replicate 32 0) (fun _ : Unit => [1]) [()] =
        getOperationsHash (fun _ => List.replicate 32 0) (fun _ : Unit => [1]) [] ∧
      [()].map (fun _ : Unit => ([1] : List UInt8)) ≠ ([] : List Unit).map (fun _ => [1]) ∧
      ∃ x ∈ getOperationsHashInputs (fun _ => List.replicate 32 0) (fun _ : Unit => [1]) [()],
        ∃ y ∈ getOperationsHashInputs (fun _ => List.replicate 32 0) (fun _ : Unit => [1]) [],
          x ≠ y ∧ (fun _ => List.replicate 32 0 : List UInt8 → List UInt8) x =
            (fun _ => List.replicate 32 0) y := by
  have h : getOperationsHash (fun _ => List.replicate 32 0) (fun _ : Unit => [1]) [()] =
      getOperationsHash (fun _ => List.replicate 32 0) (fun _ : Unit => [1]) [] := rfl
  have hne : [()].map (fun _ : Unit => ([1] : List UInt8)) ≠ ([] : List Unit).map (fun _ => [1]) := by
    simp
  exact ⟨fun _ => List.length_replicate _ _, h, hne,
    getOperationsHash_binding _ _ (fun _ => List.length_replicate _ _) h hne⟩

end Pasl.Safebox
