import Pasl.Network.Connection

/-!
# Gossip: `BroadcastBlock`, `BroadcastTx` and their notifications

A node announces a block with `BroadcastBlock` and an operation with
`BroadcastTx`.  Both serialize their packet by value and send it as a
notification.  The peer's `onNewBlockNotification` emits one `NewBlock` event
marked for rebroadcast, and `onNewOperationsNotification` emits one
`NewOperation` event per operation.

What is sent arrives as one event holding the value that was sent: nothing is
lost, duplicated or altered on the way.
-/

namespace Pasl.Network

open Pasl.Utils

/-- `packetNewBlock`.  Modelled from the spec: a `newblock` notification carries one
serialized block, which `packetNewBlock` embeds. -/
def packetNewBlockTy (txTy : Ty) : Ty := .struct none [serializedBlockTy txTy]

/-- `packetNewOperations`.  Modelled from the spec: a `newoperations` notification
carries a list of operations.  `packetNewOperations` embeds
`tx.OperationsNetwork`, whose field `Operations` is that list. -/
def packetNewOperationsTy (txTy : Ty) : Ty := .struct none [.struct none [.slice txTy]]

section
variable (Γ : Nat → Serializable) (maxLen : Nat) (txTy : Ty)

/-- The payload `BroadcastBlock(block)` sends: `Serialize(packetNewBlock{*block})`. -/
def broadcastBlock (fuel : Nat) (block : Val) : Except Fault (List UInt8) :=
  serialize Γ fuel (packetNewBlockTy txTy) (.struct [block]) false

/-- `PascalConnection.onNewBlockNotification(request, payload)`: the connection
after it and the handler's `error`. -/
def onNewBlockNotification (fuel : Nat) (this : PascalConnection) (payload : List UInt8) :
    Except Fault (PascalConnection × Option String) := do
  let (err, packet, _) ←
    deserialize Γ maxLen fuel (packetNewBlockTy txTy) (packetNewBlockTy txTy).zero payload
  match err with
  | some err => pure (this, some err)
  | none => pure (this.send [.newBlock (packet.child 0) true], none)

/-- The payload `BroadcastTx(operation)` sends: `Serialize` of a
`packetNewOperations` holding the one operation. -/
def broadcastTx (fuel : Nat) (operation : Val) : Except Fault (List UInt8) :=
  serialize Γ fuel (packetNewOperationsTy txTy) (.struct [.struct [.slice [operation]]]) false

/-- `PascalConnection.onNewOperationsNotification(request, payload)`: the
connection after it and the handler's `error`. -/
def onNewOperationsNotification (fuel : Nat) (this : PascalConnection) (payload : List UInt8) :
    Except Fault (PascalConnection × Option String) := do
  let (err, packet, _) ←
    deserialize Γ maxLen fuel (packetNewOperationsTy txTy) (packetNewOperationsTy txTy).zero payload
  match err with
  | some err => pure (this, some err)
  | none => pure (this.send (((packet.child 0).child 0).children.map .newOperation), none)

end

section
variable {Γ : Nat → Serializable} {maxLen : Nat} {txTy : Ty} (hΓ : ∀ c fs, ∃ bs, (Γ c).serialize fs = .ok bs)
  (hc : codecsRoundTrip Γ txTy) (hi : txTy.noIface = true)
include hΓ hc hi

theorem broadcastBlock_delivered {block : Val} (hv : typed (serializedBlockTy txTy) block = true)
    (hf : fits (serializedBlockTy txTy) block = true)
    (hm : slicesWithin maxLen (serializedBlockTy txTy) block = true) (this : PascalConnection) :
    ∃ payload, Settles (broadcastBlock Γ txTy · block) (.ok payload) ∧
      Settles (onNewBlockNotification Γ maxLen txTy · this payload)
        (.ok (this.send [.newBlock block true], none)) := by
  have hcodecs : codecsRoundTrip Γ (packetNewBlockTy txTy) := by
    simpa [packetNewBlockTy, codecsRoundTrip, codecsRoundTripFields,
      codecsRoundTrip_serializedBlockTy] using hc
  have hv' : typed (packetNewBlockTy txTy) (.struct [block]) = true := by
    simpa [packetNewBlockTy, typed, typedFields] using hv
  have hf' : fits (packetNewBlockTy txTy) (.struct [block]) = true := by
    simpa [packetNewBlockTy, fits, fitsFields, Val.children] using hf
  have hm' : slicesWithin maxLen (packetNewBlockTy txTy) (.struct [block]) = true := by
    simpa [packetNewBlockTy, slicesWithin, slicesWithinFields, Val.children] using hm
  have hi' : (packetNewBlockTy txTy).noIface = true := by
    simpa [packetNewBlockTy, Ty.noIface, Ty.noIfaceFields, serializedBlockTy_noIface] using hi
  obtain ⟨payload, hs, hd⟩ := serialize_deserialize_byValue Γ maxLen hΓ hv' hf' hm' hi' hcodecs rfl
  obtain ⟨n, hn⟩ := hd.eventually
  refine ⟨payload, hs, Settles.of_eventually (n := n) fun m hm => ?_⟩
  rw [onNewBlockNotification, packetNewBlockTy, hn m hm]
  rfl

theorem broadcastTx_delivered (hu : txTy.isUint8 = false) {operation : Val}
    (hv : typed txTy operation = true) (hf : fits txTy operation = true)
    (hm : slicesWithin maxLen txTy operation = true) (hmax : 0 < maxLen) (this : PascalConnection) :
    ∃ payload, Settles (broadcastTx Γ txTy · operation) (.ok payload) ∧
      Settles (onNewOperationsNotification Γ maxLen txTy · this payload)
        (.ok (this.send [.newOperation operation], none)) := by
  have hv' : typed (packetNewOperationsTy txTy) (.struct [.struct [.slice [operation]]]) = true := by
    simp [packetNewOperationsTy, typed, typedFields, hu, hv]
  have hf' : fits (packetNewOperationsTy txTy) (.struct [.struct [.slice [operation]]]) = true := by
    simp [packetNewOperationsTy, fits, fitsFields, Val.children, hu, hf]
  have hm' : slicesWithin maxLen (packetNewOperationsTy txTy)
      (.struct [.struct [.slice [operation]]]) = true := by
    simp [packetNewOperationsTy, slicesWithin, slicesWithinFields, Val.children, hu, hm]
    omega
  have hi' : (packetNewOperationsTy txTy).noIface = true := by
    simpa [packetNewOperationsTy, Ty.noIface, Ty.noIfaceFields] using hi
  have hcodecs : codecsRoundTrip Γ (packetNewOperationsTy txTy) := by
    simpa [packetNewOperationsTy, codecsRoundTrip, codecsRoundTripFields] using hc
  obtain ⟨payload, hs, hd⟩ := serialize_deserialize_byValue Γ maxLen hΓ hv' hf' hm' hi' hcodecs rfl
  obtain ⟨n, hn⟩ := hd.eventually
  refine ⟨payload, hs, Settles.of_eventually (n := n) fun m hm => ?_⟩
  rw [onNewOperationsNotification, packetNewOperationsTy, hn m hm]
  rfl

end

theorem broadcastBlock_delivered_withOperation :
    (∀ (c : Nat) (fs : List Val), ∃ bs, ((fun _ => uint32Codec) c : Serializable).serialize fs = .ok bs) ∧
      codecsRoundTrip (fun _ => uint32Codec) (.struct (some 0) [.uint .w32]) ∧
      (Ty.struct (some 0) [.uint .w32]).noIface = true ∧
      typed (serializedBlockTy (.struct (some 0) [.uint .w32]))
        (((serializedBlockTy (.struct (some 0) [.uint .w32])).zero.set [0, 2] (.uint 7)).set [1]
          (.slice [.struct [.uint 5]])) = true ∧
      fits (serializedBlockTy (.struct (some 0) [.uint .w32]))
        (((serializedBlockTy (.struct (some 0) [.uint .w32])).zero.set [0, 2] (.uint 7)).set [1]
          (.slice [.struct [.uint 5]])) = true ∧
      slicesWithin (2 ^ 31 - 1) (serializedBlockTy (.struct (some 0) [.uint .w32]))
        (((serializedBlockTy (.struct (some 0) [.uint .w32])).zero.set [0, 2] (.uint 7)).set [1]
          (.slice [.struct [.uint 5]])) = true ∧
      ∃ payload, Settles (broadcastBlock (fun _ => uint32Codec) (.struct (some 0) [.uint .w32]) ·
          (((serializedBlockTy (.struct (some 0) [.uint .w32])).zero.set [0, 2] (.uint 7)).set [1]
            (.slice [.struct [.uint 5]]))) (.ok payload) ∧
        Settles (onNewBlockNotification (fun _ => uint32Codec) (2 ^ 31 - 1) (.struct (some 0) [.uint .w32]) ·
            ⟨[1], none, []⟩ payload)
          (.ok (⟨[1], none, [.newBlock (((serializedBlockTy (.struct (some 0) [.uint .w32])).zero.set
            [0, 2] (.uint 7)).set [1] (.slice [.struct [.uint 5]])) true]⟩, none)) :=
  ⟨fun _ _ => ⟨_, rfl⟩, uint32Codec_roundTrips, rfl, rfl, rfl, rfl,
    broadcastBlock_delivered (by exact fun _ _ => ⟨_, rfl⟩) (by exact uint32Codec_roundTrips) (by rfl)
      (by rfl) (by rfl) (by rfl) ⟨[1], none, []⟩⟩

theorem broadcastTx_delivered_codec :
    (∀ (c : Nat) (fs : List Val), ∃ bs, ((fun _ => uint32Codec) c : Serializable).serialize fs = .ok bs) ∧
      codecsRoundTrip (fun _ => uint32Codec) (.struct (some 0) [.uint .w32]) ∧
      (Ty.struct (some 0) [.uint .w32]).noIface = true ∧
      (Ty.struct (some 0) [.uint .w32]).isUint8 = false ∧
      typed (.struct (some 0) [.uint .w32]) (.struct [.uint 5]) = true ∧
      fits (.struct (some 0) [.uint .w32]) (.struct [.uint 5]) = true ∧
      slicesWithin (2 ^ 31 - 1) (.struct (some 0) [.uint .w32]) (.struct [.uint 5]) = true ∧
      0 < 2 ^ 31 - 1 ∧
      ∃ payload, Settles (broadcastTx (fun _ => uint32Codec) (.struct (some 0) [.uint .w32]) ·
          (.struct [.uint 5])) (.ok payload) ∧
        Settles (onNewOperationsNotification (fun _ => uint32Codec) (2 ^ 31 - 1)
            (.struct (some 0) [.uint .w32]) · ⟨[1], none, []⟩ payload)
          (.ok (⟨[1], none, [.newOperation (.struct [.uint 5])]⟩, none)) :=
  ⟨fun _ _ => ⟨_, rfl⟩, uint32Codec_roundTrips, rfl, rfl, rfl, rfl, rfl, by decide,
    broadcastTx_delivered (by exact fun _ _ => ⟨_, rfl⟩) (by exact uint32Codec_roundTrips) (by rfl)
      (by rfl) (by rfl) (by rfl) (by rfl) (by decide) ⟨[1], none, []⟩⟩

end Pasl.Network
