import Pasl.Utils.Deserialize

/-!
# `pasl.PascalConnection`: packets, peer state and the hello handshake

Packets travel in the codec of `utils`.  Their types live outside the files
modelled here: `SerializedBlockHeader` follows `safebox`, the others follow the
spec.  A connection keeps the peer's height and previous safebox hash, set by
`SetState`, and records what it sends on its channels.  Every handler that
decodes a packet takes `maxLen`, the largest slice `reflect.MakeSlice` can make.

`onHelloCommon` handles a peer's `hello`, both as a request and as the response
to our own.  `Deserialize` returns nil whenever it returns, so the handler never
takes its error branch.  An empty or truncated `hello` leaves zero fields
behind.  Unless the nonce read equals ours, the peer is recorded at the height
and hash read, which are zero for an empty payload.
-/

namespace Pasl.Network

open Pasl.Utils

/-- `common.Version`.  Modelled from the spec: `{major: u16, minor: u16}`. -/
def versionTy : Ty := .struct none [.uint .w16, .uint .w16]

/-- `safebox.SerializedBlockHeader`. -/
def serializedBlockHeaderTy : Ty :=
  .struct none [.uint .w8, versionTy, .uint .w32, .slice (.uint .w8), .uint .w64, .uint .w64,
    .uint .w32, .uint .w32, .uint .w32, .slice (.uint .w8), .slice (.uint .w8),
    .slice (.uint .w8), .slice (.uint .w8)]

/-- `safebox.SerializedBlock`, whose operations are of type `txTy`. -/
def serializedBlockTy (txTy : Ty) : Ty := .struct none [serializedBlockHeaderTy, .slice txTy]

theorem serializedBlockTy_noIface (txTy : Ty) : (serializedBlockTy txTy).noIface = txTy.noIface := by
  simp [serializedBlockTy, serializedBlockHeaderTy, versionTy, Ty.noIface, Ty.noIfaceFields]

theorem codecsRoundTrip_serializedBlockTy (Γ : Nat → Serializable) (txTy : Ty) :
    codecsRoundTrip Γ (serializedBlockTy txTy) ↔ codecsRoundTrip Γ txTy := by
  simp [serializedBlockTy, serializedBlockHeaderTy, versionTy, codecsRoundTrip, codecsRoundTripFields]

def headerIndex (header : Val) : BitVec 32 := BitVec.ofNat 32 (header.child 2).toNat

def headerPrevSafeboxHash (header : Val) : List UInt8 := (header.child 10).toBytes

/-- `packetHello`.  Modelled from the spec: a `hello` carries the nonce, the
pending block's header, a list of peers of type `peerTy` and the user agent. -/
def packetHelloTy (peerTy : Ty) : Ty :=
  .struct none [.slice (.uint .w8), serializedBlockHeaderTy, .slice peerTy, .string]

theorem packetHelloTy_plain (peerTy : Ty) : (packetHelloTy peerTy).plain = true := rfl

/-- The result codes the handlers set.  Modelled from the spec: `success` is the
code 0 of a response, and `invalid_data_buffer_info` the code of a payload that
does not decode. -/
inductive ResultCode where
  | success
  | invalidDataBufferInfo
  deriving DecidableEq, Repr

/-- `requestResponse`, with the result the engine writes into the response frame. -/
structure RequestResponse where
  result : ResultCode
  deriving DecidableEq, Repr

def nilPointerDereference : Fault :=
  .panic "runtime error: invalid memory address or nil pointer dereference"

/-- `request.result.setError(code)`, where `request` may be nil. -/
def setError (request : Option RequestResponse) (code : ResultCode) :
    Except Fault (Option RequestResponse) :=
  match request with
  | some _ => pure (some ⟨code⟩)
  | none => throw nilPointerDereference

structure PascalConnectionState where
  height : BitVec 32
  prevSafeboxHash : List UInt8
  deriving DecidableEq, Repr

/-- A message the connection sends on one of its channels: `onStateUpdate <- this`,
`peerUpdates <- peer`, `onNewBlock <- &eventNewBlock{...}`,
`onNewOperation <- &eventNewOperation{...}` and `downloadingDone <- nil`. -/
inductive Event where
  | stateUpdate
  | peerUpdate (peer : Val)
  | newBlock (serializedBlock : Val) (shouldBroadcast : Bool)
  | newOperation (operation : Val)
  | downloadingDone

/-- The fields of `PascalConnection` that its handlers read and write, and the
messages it has sent, oldest first. -/
structure PascalConnection where
  nonce : List UInt8
  state : Option PascalConnectionState
  sent : List Event

def PascalConnection.send (this : PascalConnection) (events : List Event) : PascalConnection :=
  { this with sent := this.sent ++ events }

@[simp] theorem PascalConnection.send_nil (this : PascalConnection) : this.send [] = this := by
  simp [PascalConnection.send]

/-- Go's `copy(dst, src)`: the first `min(len(dst), len(src))` bytes of `dst`
replaced by those of `src`. -/
def copyBytes (dst src : List UInt8) : List UInt8 := src.take dst.length ++ dst.drop src.length

/-- `PascalConnection.SetState(height, prevSafeboxHash)`: the hash is copied into
32 zero bytes, and the deferred send announces the update. -/
def setState (this : PascalConnection) (height : BitVec 32) (prevSafeboxHash : List UInt8) :
    PascalConnection :=
  ({ this with state := some ⟨height, copyBytes (List.replicate 32 0) prevSafeboxHash⟩ }).send
    [.stateUpdate]

theorem setState_state (this : PascalConnection) (height : BitVec 32) (hash : List UInt8) :
    (setState this height hash).state =
      some ⟨height, hash.take 32 ++ List.replicate (32 - hash.length) 0⟩ := by
  simp only [setState, PascalConnection.send, copyBytes, List.length_replicate, List.drop_replicate]

/-- `PascalConnection.GetState()`: the stored height and hash; a connection that
has stored none dereferences nil. -/
def getState (this : PascalConnection) : Except Fault (BitVec 32 × List UInt8) :=
  match this.state with
  | some state => pure (state.height, state.prevSafeboxHash)
  | none => throw nilPointerDereference

/-- `fmt.Errorf("[P2P %p] Loopback connection", this)`; `%p` stands for the
connection's address. -/
def loopbackConnection : String := "[P2P %p] Loopback connection"

section
variable (Γ : Nat → Serializable) (maxLen : Nat) (peerTy : Ty)

/-- `PascalConnection.onHelloCommon(request, payload)`: the connection and the
request after it, and its `error` result. -/
def onHelloCommon (fuel : Nat) (this : PascalConnection) (request : Option RequestResponse)
    (payload : List UInt8) :
    Except Fault (PascalConnection × Option RequestResponse × Option String) := do
  let (err, packet, _) ←
    deserialize Γ maxLen fuel (packetHelloTy peerTy) (packetHelloTy peerTy).zero payload
  match err with
  | some err =>
      let request ← setError request .invalidDataBufferInfo
      pure (this, request, some err)
  | none =>
      if (packet.child 0).toBytes = this.nonce then pure (this, request, some loopbackConnection)
      else
        let this := setState this (headerIndex (packet.child 1)) (headerPrevSafeboxHash (packet.child 1))
        pure (this.send ((packet.child 2).children.map .peerUpdate), request, none)

theorem onHelloCommon_nil (this : PascalConnection) (request : Option RequestResponse)
    (h : this.nonce ≠ []) :
    Settles (onHelloCommon Γ maxLen peerTy · this request [])
      (.ok ({ this with state := some ⟨0, List.replicate 32 0⟩, sent := this.sent ++ [.stateUpdate] },
        request, none)) := by
  have hd : Settles (deserialize Γ maxLen · (packetHelloTy peerTy) (packetHelloTy peerTy).zero [])
      (.ok (none, (packetHelloTy peerTy).zero, [])) :=
    deserialize_nil Γ maxLen (packetHelloTy_plain peerTy)
  have hzero : (packetHelloTy peerTy).zero =
      .struct [.bytes [], serializedBlockHeaderTy.zero, (Ty.slice peerTy).zero, .bytes []] := rfl
  have hheader : headerIndex serializedBlockHeaderTy.zero = 0 ∧
      headerPrevSafeboxHash serializedBlockHeaderTy.zero = [] := ⟨rfl, rfl⟩
  obtain ⟨n, hn⟩ := hd.eventually
  refine Settles.of_eventually (n := n) fun m hm => ?_
  rw [onHelloCommon, hn m hm, hzero]
  simp only [ok_bind, Val.child_struct, List.getD_cons_zero, List.getD_cons_succ, Val.toBytes,
    Ne.symm h, ↓reduceIte, hheader, Ty.children_zero_slice, List.map_nil, setState,
    PascalConnection.send, List.append_nil]
  rfl

theorem packetHelloTy_codecs : (packetHelloTy peerTy).codecs = peerTy.codecs := by
  simp [packetHelloTy, serializedBlockHeaderTy, versionTy, Ty.codecs, Ty.codecsFields]

end

theorem onHelloCommon_nil_nilRequest :
    ([1] : List UInt8) ≠ [] ∧
      Settles (onHelloCommon (fun _ => BytesWithoutLengthPrefix) (2 ^ 31 - 1) .string ·
          ⟨[1], none, []⟩ none [])
        (.ok (⟨[1], some ⟨0, List.replicate 32 0⟩, [.stateUpdate]⟩, none, none)) :=
  ⟨by decide, onHelloCommon_nil _ _ _ ⟨[1], none, []⟩ none (by decide)⟩

end Pasl.Network
