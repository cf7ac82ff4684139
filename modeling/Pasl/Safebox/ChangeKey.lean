import Pasl.Safebox.Block
import Pasl.Utils.Serialize

/-!
# `tx.ChangeKey`

A change-key operation moves an account to a new public key for a fee.
`Validate` resolves the source account and the new key, `Apply` turns the
context into the account's deltas, and `getBufferToSign` is the canonical form
the signature covers.

`Validate` accepts exactly when the source account exists, its balance covers
the fee, and the new key parses; it checks neither the operation id nor the
signature.  `Apply` touches the source account only.  The buffer to sign is the
consensus layout: the fixed-width fields, the payload without a length prefix
(through `BytesWithoutLengthPrefix` behind an interface), the plain public key,
and the new key with a `u16` prefix.
-/

namespace Pasl.Safebox

open Pasl.Utils

/-- `tx.ChangeKey`, without its `Signature`, which none of the functions
modelled here reads. -/
structure ChangeKey (Public : Type) where
  source : BitVec 32
  operationId : BitVec 32
  fee : BitVec 64
  payload : List UInt8
  publicKey : Public
  newPublickey : List UInt8

structure ChangeKeyContext (Public : Type) where
  source : Account Public
  newPublic : Public

section
variable {Public : Type}

def ChangeKey.getFee (this : ChangeKey Public) : BitVec 64 := this.fee

/-- `ChangeKey.getSourceInfo()`. -/
def ChangeKey.getSourceInfo (this : ChangeKey Public) : BitVec 32 × BitVec 32 × Public :=
  (this.source, this.operationId, this.publicKey)

/-- `fmt.Errorf("Source account %d not found", this.Source)`. -/
def sourceAccountNotFound (source : BitVec 32) : String :=
  "Source account " ++ toString source.toNat ++ " not found"

/-- `ChangeKey.Validate(getAccount)`, with `crypto.NewPublic` as `newPublic`. -/
def ChangeKey.validate (newPublic : List UInt8 → Except String Public)
    (getAccount : BitVec 32 → Option (Account Public)) (this : ChangeKey Public) :
    Except String (ChangeKeyContext Public) := do
  let some source := getAccount this.source | throw (sourceAccountNotFound this.source)
  if source.balance < this.fee then throw "Insufficient balance"
  let public ← newPublic this.newPublickey
  pure ⟨source, public⟩

theorem ChangeKey.validate_ok_cases {newPublic : List UInt8 → Except String Public}
    {getAccount : BitVec 32 → Option (Account Public)} {this : ChangeKey Public}
    {context : ChangeKeyContext Public} (h : this.validate newPublic getAccount = .ok context) :
    getAccount this.source = some context.source ∧ this.fee ≤ context.source.balance ∧
      newPublic this.newPublickey = .ok context.newPublic := by
  unfold ChangeKey.validate at h
  cases hs : getAccount this.source with
  | none => simp [hs] at h
  | some source =>
      by_cases hb : source.balance < this.fee
      · simp [hs, hb] at h
      · cases hk : newPublic this.newPublickey with
        | error e => simp [hs, hb, hk] at h
        | ok public =>
            simp only [hs, hb, hk, ↓reduceIte] at h
            cases h
            exact ⟨rfl, BitVec.not_lt.mp hb, rfl⟩

theorem ChangeKey.validate_eq_ok (newPublic : List UInt8 → Except String Public)
    (getAccount : BitVec 32 → Option (Account Public)) (this : ChangeKey Public)
    (context : ChangeKeyContext Public) :
    this.validate newPublic getAccount = .ok context ↔
      getAccount this.source = some context.source ∧ this.fee ≤ context.source.balance ∧
        newPublic this.newPublickey = .ok context.newPublic := by
  refine ⟨ChangeKey.validate_ok_cases, fun ⟨hs, hb, hk⟩ => ?_⟩
  simp [ChangeKey.validate, hs, hk, BitVec.not_lt.mpr hb]

theorem ChangeKey.validate_eq_error (newPublic : List UInt8 → Except String Public)
    (getAccount : BitVec 32 → Option (Account Public)) (this : ChangeKey Public) (err : String) :
    this.validate newPublic getAccount = .error err ↔
      (getAccount this.source = none ∧ err = sourceAccountNotFound this.source) ∨
      (∃ source, getAccount this.source = some source ∧
        (source.balance < this.fee ∧ err = "Insufficient balance" ∨
          this.fee ≤ source.balance ∧ newPublic this.newPublickey = .error err)) := by
  unfold ChangeKey.validate
  cases hs : getAccount this.source with
  | none => simp [eq_comm]
  | some source =>
      by_cases hb : source.balance < this.fee
      · simp [hb, eq_comm]
      · cases hk : newPublic this.newPublickey <;> simp [hb, hk, BitVec.not_lt.mp hb]

/-- What `accounter.Account` contributes to `Apply`: the deltas of
`KeyChange(newPublic, index)` and of `BalanceSub(fee, index)`. -/
structure Accounter (Public Micro : Type) where
  keyChange : Account Public → Public → BitVec 32 → List Micro
  balanceSub : Account Public → BitVec 64 → BitVec 32 → List Micro

/-- `ChangeKey.Apply(index, context)`: the map from account numbers to deltas,
with an absent number read as nil. -/
def ChangeKey.apply {Micro : Type} (accounter : Accounter Public Micro) (this : ChangeKey Public)
    (index : BitVec 32) (context : ChangeKeyContext Public) : BitVec 32 → List Micro :=
  fun number =>
    if number = context.source.number then
      accounter.keyChange context.source context.newPublic index ++
        accounter.balanceSub context.source this.fee index
    else []

theorem ChangeKey.apply_validated {Micro : Type} {newPublic : List UInt8 → Except String Public}
    {getAccount : BitVec 32 → Option (Account Public)}
    (hlookup : ∀ number account, getAccount number = some account → account.number = number)
    {this : ChangeKey Public} {context : ChangeKeyContext Public}
    (h : this.validate newPublic getAccount = .ok context)
    (accounter : Accounter Public Micro) (index number : BitVec 32) :
    this.apply accounter index context number =
      if number = this.source then
        accounter.keyChange context.source context.newPublic index ++
          accounter.balanceSub context.source this.fee index
      else [] := by
  rw [ChangeKey.apply, hlookup _ _ (ChangeKey.validate_ok_cases h).1]

end

/-- `changeKeyToSign`, whose `Public` is a `crypto.PublicSerializedPlain` of type
`publicPlainTy`. -/
def changeKeyToSignTy (publicPlainTy : Ty) : Ty :=
  .struct none [.uint .w32, .uint .w32, .uint .w64, .iface, publicPlainTy, .slice (.uint .w8)]

section
variable {Public : Type} (Γ : Nat → Serializable) (bytesWithoutLengthPrefix : Nat)
  (publicPlainTy : Ty) (serializedPlain : Public → Val)

/-- `ChangeKey.getBufferToSign()`: `Serialize` of a `changeKeyToSign` by value.
The payload goes into an interface field as a `*BytesWithoutLengthPrefix`,
which `Γ` knows as codec `bytesWithoutLengthPrefix`. -/
def ChangeKey.getBufferToSign (fuel : Nat) (this : ChangeKey Public) : Except Fault (List UInt8) :=
  serialize Γ fuel (changeKeyToSignTy publicPlainTy)
    (.struct [.uint this.source.toNat, .uint this.operationId.toNat, .uint this.fee.toNat,
      .iface (some (bytesWithoutLengthPrefix, [.bytes this.payload])),
      serializedPlain this.publicKey, .bytes this.newPublickey]) false

theorem ChangeKey.getBufferToSign_eq (hb : Γ bytesWithoutLengthPrefix = BytesWithoutLengthPrefix)
    (ht : ∀ e, publicPlainTy ≠ .slice e) {this : ChangeKey Public} {plain : List UInt8}
    (hv : typed publicPlainTy (serializedPlain this.publicKey) = true)
    (hp : Settles (serialize Γ · publicPlainTy (serializedPlain this.publicKey) false) (.ok plain)) :
    Settles (this.getBufferToSign Γ bytesWithoutLengthPrefix publicPlainTy serializedPlain ·)
      (.ok (littleEndian 4 this.source.toNat ++ littleEndian 4 this.operationId.toNat ++
        littleEndian 8 this.fee.toNat ++ this.payload ++ plain ++
        littleEndian 2 this.newPublickey.length ++ this.newPublickey)) := by
  have htyped : typed (changeKeyToSignTy publicPlainTy)
      (.struct [.uint this.source.toNat, .uint this.operationId.toNat, .uint this.fee.toNat,
        .iface (some (bytesWithoutLengthPrefix, [.bytes this.payload])),
        serializedPlain this.publicKey, .bytes this.newPublickey]) = true := by
    simpa [changeKeyToSignTy, typed, typedFields, Width.bytes, Ty.isUint8, hv] using
      ⟨this.source.isLt, this.operationId.isLt, this.fee.isLt⟩
  obtain ⟨key, hkey⟩ : ∃ key, walkNode (serializeCallback Γ) publicPlainTy [] false
      (serializedPlain this.publicKey) [] = .ok (key, plain) := by
    have h := (serialize_settles_walkNode Γ ht (shaped_of_typed _ false _ hv)).unique hp
    cases hw : walkNode (serializeCallback Γ) publicPlainTy [] false (serializedPlain this.publicKey) [] with
    | error f => rw [hw] at h; cases h
    | ok r => rw [hw] at h; cases h; exact ⟨r.1, rfl⟩
  have h := serialize_settles_walkNode Γ (fun _ h => Ty.noConfusion h) (shaped_of_typed _ false _ htyped)
  simp only [changeKeyToSignTy, walkNode, walkFields, Val.child_struct, Val.setChild_struct,
    List.set_cons_zero, List.set_cons_succ, List.getD_cons_zero, List.getD_cons_succ, serializeCallback,
    Bool.false_and, Bool.false_eq_true, ↓reduceIte, writeOut_pure, writeOut_ok, ok_bind, Ty.isUint8,
    hb, BytesWithoutLengthPrefix, Val.toNat, Val.toBytes, Width.bytes, List.nil_append] at h
  rw [walkNode_serialize_frame publicPlainTy, hkey] at h
  simp only [Except.map_ok, ok_bind, pure_bind] at h
  simpa only [List.append_assoc] using h

end

theorem getBufferToSign_eq_sample :
    ((fun _ => BytesWithoutLengthPrefix) 0 : Serializable) = BytesWithoutLengthPrefix ∧
      (∀ e, Ty.struct none [.uint .w16, .slice (.uint .w8)] ≠ .slice e) ∧
      typed (.struct none [.uint .w16, .slice (.uint .w8)]) (.struct [.uint 714, .bytes [1, 2]]) = true ∧
      Settles (serialize (fun _ => BytesWithoutLengthPrefix) · (.struct none [.uint .w16, .slice (.uint .w8)])
        (.struct [.uint 714, .bytes [1, 2]]) false) (.ok [202, 2, 2, 0, 1, 2]) ∧
      Settles ((⟨1, 2, 3, [9, 9], (), [7]⟩ : ChangeKey Unit).getBufferToSign
          (fun _ => BytesWithoutLengthPrefix) 0 (.struct none [.uint .w16, .slice (.uint .w8)])
          (fun _ => .struct [.uint 714, .bytes [1, 2]]) ·)
        (.ok (littleEndian 4 1 ++ littleEndian 4 2 ++ littleEndian 8 3 ++ [9, 9] ++
          [202, 2, 2, 0, 1, 2] ++ littleEndian 2 1 ++ [7])) :=
  have hp : Settles (serialize (fun _ => BytesWithoutLengthPrefix) · (.struct none [.uint .w16, .slice (.uint .w8)])
      (.struct [.uint 714, .bytes [1, 2]]) false) (.ok [202, 2, 2, 0, 1, 2]) :=
    serialize_settles_walkNode _ (fun _ h => Ty.noConfusion h) rfl
  ⟨rfl, fun _ h => Ty.noConfusion h, rfl, hp,
    ChangeKey.getBufferToSign_eq _ _ _ _ (by rfl) (fun _ h => Ty.noConfusion h) (by rfl) hp⟩

end Pasl.Safebox
