import Pasl.Utils.Deserialize
import Pasl.Safebox.Block

/-!
# `Block.GetHash`

`GetHash` serializes a `blockHashBuffer`, made of the block's index, the hash
buffers `GetAccountsSerialized` returns and the block's timestamp, and hashes
the bytes with SHA-256.  The buffer is passed to `Serialize` by value; its
only codecs lie inside the slice of account buffers, so its encoding decodes
back.  Two blocks whose buffers differ but whose hashes agree therefore
exhibit a collision of SHA-256.

`accounter.AccountHashBuffer` lies outside this repository: its type, its
codecs and `Account.GetHashBuffer` are parameters.
-/

namespace Pasl.Safebox

open Pasl.Utils

/-- `blockHashBuffer`, with `accounter.AccountHashBuffer` as `accountTy`. -/
def blockHashBufferTy (accountTy : Ty) : Ty := .struct none [.uint .w32, .slice accountTy, .uint .w32]

/-- `blockHashBuffer{Index, Accounts, Timestamp}`. -/
def blockHashBuffer (index : BitVec 32) (accounts : List Val) (timestamp : BitVec 32) : Val :=
  .struct [.uint index.toNat, .slice accounts, .uint timestamp.toNat]

@[simp] theorem blockHashBuffer_inj {index index' timestamp timestamp' : BitVec 32}
    {accounts accounts' : List Val} :
    blockHashBuffer index accounts timestamp = blockHashBuffer index' accounts' timestamp' ↔
      index = index' ∧ accounts = accounts' ∧ timestamp = timestamp' := by
  simp [blockHashBuffer, ← BitVec.toNat_eq]

section
variable {Tx Public : Type} (getHashBuffer : Account Public → Val)

/-- `Block.GetAccountsSerialized()`: `GetHashBuffer` of every account. -/
def getAccountsSerialized (block : Block Tx Public) : List Val := block.accounts.map getHashBuffer

variable (Γ : Nat → Serializable) (accountTy : Ty) (sha256 : List UInt8 → List UInt8)

/-- `Block.GetHash()`: SHA-256 of `utils.Serialize(blockHashBuffer{...})`.
`timestamp` is `block.Meta.Timestamp`, a field the model of `BlockMetadata`
leaves out. -/
def getHash (fuel : Nat) (block : Block Tx Public) (timestamp : BitVec 32) : Except Fault (List UInt8) :=
  sha256 <$> serialize Γ fuel (blockHashBufferTy accountTy)
    (blockHashBuffer block.meta.index (getAccountsSerialized getHashBuffer block) timestamp) false

end

section
variable {Γ : Nat → Serializable} {accountTy : Ty} {Tx Public : Type}
  {getHashBuffer : Account Public → Val}
  (hΓ : ∀ c fs, ∃ bs, (Γ c).serialize fs = .ok bs) (hc : codecsRoundTrip Γ accountTy)
  (hi : accountTy.noIface = true) (hu : accountTy.isUint8 = false)
  (hbuf : ∀ a, typed accountTy (getHashBuffer a) = true ∧ fits accountTy (getHashBuffer a) = true)
include hΓ hc hi hu hbuf

private theorem blockHashBuffer_roundTrip (block : Block Tx Public) (timestamp : BitVec 32)
    (hlen : block.accounts.length < 2 ^ 32) :
    ∃ payload, Settles (serialize Γ · (blockHashBufferTy accountTy)
        (blockHashBuffer block.meta.index (getAccountsSerialized getHashBuffer block) timestamp) false)
        (.ok payload) ∧
      Settles (deserialize Γ (2 ^ 32) · (blockHashBufferTy accountTy) (blockHashBufferTy accountTy).zero payload)
        (.ok (none, blockHashBuffer block.meta.index (getAccountsSerialized getHashBuffer block)
          timestamp, [])) := by
  have hv : typed (blockHashBufferTy accountTy)
      (blockHashBuffer block.meta.index (getAccountsSerialized getHashBuffer block) timestamp) = true := by
    simp [blockHashBufferTy, blockHashBuffer, getAccountsSerialized, typed, typedFields, hu,
      fun a => (hbuf a).1]
    exact ⟨BitVec.isLt _, BitVec.isLt _⟩
  have hf : fits (blockHashBufferTy accountTy)
      (blockHashBuffer block.meta.index (getAccountsSerialized getHashBuffer block) timestamp) = true := by
    simpa [blockHashBufferTy, blockHashBuffer, getAccountsSerialized, fits, fitsFields, Val.children, hu,
      fun a => (hbuf a).2] using hlen
  exact serialize_deserialize_byValue Γ (2 ^ 32) hΓ hv hf (slicesWithin_of_fits _ _ hf)
    (by simp [blockHashBufferTy, Ty.noIface, Ty.noIfaceFields, hi])
    (by simp [blockHashBufferTy, codecsRoundTrip, codecsRoundTripFields, hc]) rfl

end

end Pasl.Safebox
