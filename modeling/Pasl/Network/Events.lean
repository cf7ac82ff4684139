import Pasl.Network.Peer

/-!
# What a run sends

`Incoming.events` computes, from the packet `Deserialize` decodes from a
message's payload, the chunk of events that message's handler sends.  Over a
run that ends without a panic, the events sent are these chunks in the order of
the messages, each computed on the connection's nonce, which no handler
changes.  So the downloader is released exactly once per response to its
request, nil or not, and by no other message.
-/

namespace Pasl.Network

open Pasl.Utils

section
variable (Γ : Nat → Serializable) (maxLen : Nat) (peerTy txTy : Ty) (fuel : Nat) (nonce : List UInt8)

/-- The events `onHelloCommon` sends on a connection with `nonce` for the
`hello` it decodes from `payload`: nothing on a loopback, and otherwise a state
update and one peer update per peer of the packet. -/
def helloEvents (payload : List UInt8) : Except Fault (List Event) := do
  let (_, packet, _) ←
    deserialize Γ maxLen fuel (packetHelloTy peerTy) (packetHelloTy peerTy).zero payload
  pure (if (packet.child 0).toBytes = nonce then []
    else .stateUpdate :: (packet.child 2).children.map .peerUpdate)

/-- The events the handler of one message sends on a connection with `nonce`,
from the packet `Deserialize` decodes: for a `hello` or its response those of
`helloEvents`; for a `getBlocks` request nothing; for a response to
`StartBlocksDownloading`, one `NewBlock` per block of the packet, then
`downloadingDone`; for a new block, one `NewBlock` holding the packet's block;
for new operations, one `NewOperation` per operation of the packet. -/
def Incoming.events : Incoming → Except Fault (List Event)
  | .hello _ payload | .helloResponse _ payload => helloEvents Γ maxLen peerTy fuel nonce payload
  | .getBlocks .. => pure []
  | .blocksResponse none _ => pure [.downloadingDone]
  | .blocksResponse (some _) payload => do
      let (_, packet, _) ← deserialize Γ maxLen fuel (packetGetBlocksResponseTy txTy)
        (packetGetBlocksResponseTy txTy).zero payload
      pure ((packet.child 0).children.map (.newBlock · false) ++ [.downloadingDone])
  | .newBlock payload => do
      let (_, packet, _) ←
        deserialize Γ maxLen fuel (packetNewBlockTy txTy) (packetNewBlockTy txTy).zero payload
      pure [.newBlock (packet.child 0) true]
  | .newOperations payload => do
      let (_, packet, _) ←
        deserialize Γ maxLen fuel (packetNewOperationsTy txTy) (packetNewOperationsTy txTy).zero payload
      pure (((packet.child 0).child 0).children.map .newOperation)

end

def Incoming.isBlocksResponse : Incoming → Bool
  | .blocksResponse .. => true
  | _ => false

def Event.isDownloadingDone : Event → Bool
  | .downloadingDone => true
  | _ => false

section
variable {Γ : Nat → Serializable} {maxLen : Nat} {peerTy txTy : Ty} {fuel : Nat} {nonce : List UInt8}

theorem Incoming.events_downloadingDone {m : Incoming} {events : List Event}
    (h : m.events Γ maxLen peerTy txTy fuel nonce = .ok events) :
    (events.filter Event.isDownloadingDone).length = if m.isBlocksResponse then 1 else 0 := by
  cases m with
  | getBlocks => cases h; rfl
  | blocksResponse response payload =>
      cases response with
      | none => cases h; rfl
      | some _ =>
          obtain ⟨_, -, h⟩ := bind_eq_ok.mp h
          cases h
          simp [Event.isDownloadingDone, Incoming.isBlocksResponse, List.filter_map, Function.comp_def]
  | hello | helloResponse =>
      obtain ⟨_, -, h⟩ := bind_eq_ok.mp (show helloEvents Γ maxLen peerTy fuel nonce _ = _ from h)
      cases h
      split <;> simp [Event.isDownloadingDone, Incoming.isBlocksResponse, List.filter_map,
        Function.comp_def]
  | newBlock | newOperations =>
      obtain ⟨_, -, h⟩ := bind_eq_ok.mp h
      cases h
      simp [Event.isDownloadingDone, Incoming.isBlocksResponse, List.filter_map, Function.comp_def]

theorem downloadingDone_of_mapM : ∀ {messages : List Incoming} {eventss : List (List Event)},
    messages.mapM (Incoming.events Γ maxLen peerTy txTy fuel nonce) = .ok eventss →
    (eventss.flatten.filter Event.isDownloadingDone).length =
      (messages.filter Incoming.isBlocksResponse).length
  | [], _, h => by cases h; rfl
  | m :: messages, _, h => by
      rw [List.mapM_cons] at h
      obtain ⟨events, he, h⟩ := bind_eq_ok.mp h
      obtain ⟨eventss, hs, h⟩ := bind_eq_ok.mp h
      cases h
      rw [List.flatten_cons, List.filter_append, List.length_append, downloadingDone_of_mapM hs,
        Incoming.events_downloadingDone he, List.filter_cons]
      cases m.isBlocksResponse <;> simp [Nat.add_comm]

end

section
variable {Γ : Nat → Serializable} {maxLen : Nat} {peerTy txTy : Ty}
  {getBlock : BitVec 32 → Option Val} {header : Val} {userAgent : List UInt8} {fuel : Nat}
  {this this' : PascalConnection}

theorem onHelloCommon_events {request request' : Option RequestResponse} {payload : List UInt8}
    {err : Option String}
    (h : onHelloCommon Γ maxLen peerTy fuel this request payload = .ok (this', request', err)) :
    ∃ events, helloEvents Γ maxLen peerTy fuel this.nonce payload = .ok events ∧
      this'.sent = this.sent ++ events := by
  rw [onHelloCommon] at h
  obtain ⟨⟨e, packet, rest⟩, hd, h⟩ := bind_eq_ok.mp h
  obtain rfl := deserialize_error_none hd
  dsimp only at h
  split at h
  next hn =>
    cases h
    exact ⟨[], by simp only [helloEvents, hd, ok_bind, if_pos hn]; rfl, (List.append_nil _).symm⟩
  next hn =>
    cases h
    exact ⟨_, by simp only [helloEvents, hd, ok_bind, if_neg hn]; rfl,
      by simp [setState, PascalConnection.send]⟩

theorem onSuccess_events_sent {response : Option RequestResponse} {payload : List UInt8}
    {err : Option String}
    (h : (startBlocksDownloading.onSuccess Γ maxLen txTy fuel this response payload).2 = .ok err) :
    ∃ events, (Incoming.blocksResponse response payload).events Γ maxLen peerTy txTy fuel this.nonce =
      .ok events ∧
      (startBlocksDownloading.onSuccess Γ maxLen txTy fuel this response payload).1.sent =
        this.sent ++ events := by
  cases response with
  | none => exact ⟨_, rfl, rfl⟩
  | some response =>
      simp only [startBlocksDownloading.onSuccess] at h ⊢
      cases hd : deserialize Γ maxLen fuel (packetGetBlocksResponseTy txTy)
        (packetGetBlocksResponseTy txTy).zero payload with
      | error f => simp [hd, deferDownloadingDone] at h
      | ok r =>
          obtain ⟨e, packet, rest⟩ := r
          obtain rfl := deserialize_error_none hd
          exact ⟨_, by simp only [Incoming.events, hd, ok_bind]; rfl, rfl⟩

theorem handle_events {m : Incoming}
    (h : handle Γ maxLen peerTy txTy getBlock header userAgent fuel this m = .ok this') :
    ∃ events, m.events Γ maxLen peerTy txTy fuel this.nonce = .ok events ∧
      this'.sent = this.sent ++ events := by
  cases m with
  | hello request payload =>
      obtain ⟨⟨c, r, out⟩, hr, rfl⟩ := map_eq_ok.mp h
      rw [onHelloRequest] at hr
      obtain ⟨⟨c, r, e⟩, hc, hr⟩ := bind_eq_ok.mp hr
      cases e with
      | some e => cases hr; exact onHelloCommon_events hc
      | none =>
          obtain ⟨_, -, hr⟩ := bind_eq_ok.mp hr
          obtain ⟨_, -, hr⟩ := bind_eq_ok.mp hr
          cases hr
          exact onHelloCommon_events hc
  | helloResponse response payload =>
      obtain ⟨⟨c, r, e⟩, hc, rfl⟩ := map_eq_ok.mp h
      exact onHelloCommon_events hc
  | getBlocks request payload =>
      obtain ⟨_, -, rfl⟩ := map_eq_ok.mp h
      exact ⟨[], rfl, (List.append_nil _).symm⟩
  | blocksResponse response payload =>
      obtain ⟨err, he, rfl⟩ := map_eq_ok.mp h
      exact onSuccess_events_sent he
  | newBlock payload =>
      obtain ⟨⟨c, e⟩, hn, rfl⟩ := map_eq_ok.mp h
      rw [onNewBlockNotification] at hn
      obtain ⟨⟨e, packet, rest⟩, hd, hn⟩ := bind_eq_ok.mp hn
      obtain rfl := deserialize_error_none hd
      cases hn
      exact ⟨_, by simp only [Incoming.events, hd, ok_bind]; rfl, rfl⟩
  | newOperations payload =>
      obtain ⟨⟨c, e⟩, hn, rfl⟩ := map_eq_ok.mp h
      rw [onNewOperationsNotification] at hn
      obtain ⟨⟨e, packet, rest⟩, hd, hn⟩ := bind_eq_ok.mp hn
      obtain rfl := deserialize_error_none hd
      cases hn
      exact ⟨_, by simp only [Incoming.events, hd, ok_bind]; rfl, rfl⟩

theorem Incoming.events_of_run : ∀ {messages : List Incoming} {this this' : PascalConnection},
    run Γ maxLen peerTy txTy getBlock header userAgent fuel this messages = .ok this' →
    ∃ eventss, messages.mapM (Incoming.events Γ maxLen peerTy txTy fuel this.nonce) = .ok eventss ∧
      this'.sent = this.sent ++ eventss.flatten
  | [], this, this', h => by
      cases h
      exact ⟨[], rfl, (List.append_nil _).symm⟩
  | m :: messages, this, this', h => by
      obtain ⟨c, hc, h⟩ := bind_eq_ok.mp h
      obtain ⟨events, he, hsent⟩ := handle_events hc
      obtain ⟨eventss, hall, hsent'⟩ := Incoming.events_of_run h
      obtain ⟨_, hx⟩ := (handle_cases hc).extends
      rw [hx.nonce] at hall
      exact ⟨events :: eventss, by rw [List.mapM_cons, he, hall]; rfl,
        by rw [hsent', hsent, List.flatten_cons, List.append_assoc]⟩

theorem run_sent {messages : List Incoming}
    (h : run Γ maxLen peerTy txTy getBlock header userAgent fuel this messages = .ok this') :
    ∃ eventss, messages.mapM (Incoming.events Γ maxLen peerTy txTy fuel this.nonce) = .ok eventss ∧
      this'.sent = this.sent ++ eventss.flatten ∧
      (this'.sent.filter Event.isDownloadingDone).length =
        (this.sent.filter Event.isDownloadingDone).length +
          (messages.filter Incoming.isBlocksResponse).length := by
  obtain ⟨eventss, hall, hsent⟩ := Incoming.events_of_run h
  refine ⟨eventss, hall, hsent, ?_⟩
  rw [hsent, List.filter_append, List.length_append, downloadingDone_of_mapM hall]

end

theorem run_sent_downloads :
    run (fun _ => uint32Codec) (2 ^ 31 - 1) (.uint .w8) (.uint .w8) (fun _ => none)
        serializedBlockHeaderTy.zero [] 60 ⟨[1], none, []⟩
        [.blocksResponse none [], .newBlock [], .blocksResponse (some ⟨.success⟩) []] =
      .ok ⟨[1], none, [.downloadingDone, .newBlock (serializedBlockTy (.uint .w8)).zero true,
        .downloadingDone]⟩ ∧
    ∃ eventss, [Incoming.blocksResponse none [], .newBlock [],
        .blocksResponse (some ⟨.success⟩) []].mapM
          (Incoming.events (fun _ => uint32Codec) (2 ^ 31 - 1) (.uint .w8) (.uint .w8) 60 [1]) =
        .ok eventss ∧
      [.downloadingDone, .newBlock (serializedBlockTy (.uint .w8)).zero true, .downloadingDone] =
        [] ++ eventss.flatten ∧
      ([Event.downloadingDone, .newBlock (serializedBlockTy (.uint .w8)).zero true,
          .downloadingDone].filter Event.isDownloadingDone).length =
        ([] : List Event).length +
          ([Incoming.blocksResponse none [], .newBlock [],
            .blocksResponse (some ⟨.success⟩) []].filter Incoming.isBlocksResponse).length :=
  have h : run (fun _ => uint32Codec) (2 ^ 31 - 1) (.uint .w8) (.uint .w8) (fun _ => none)
      serializedBlockHeaderTy.zero [] 60 ⟨[1], none, []⟩
      [.blocksResponse none [], .newBlock [], .blocksResponse (some ⟨.success⟩) []] =
      .ok ⟨[1], none, [.downloadingDone, .newBlock (serializedBlockTy (.uint .w8)).zero true,
        .downloadingDone]⟩ := by rfl
  ⟨h, (run_sent h :)⟩

end Pasl.Network
