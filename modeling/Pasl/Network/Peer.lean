import Pasl.Network.GetBlocks
import Pasl.Network.Gossip

/-!
# A connection over a run of messages

`OnOpen` registers one handler per operation in `knownOperations`, and the two
requests a connection sends itself come back to callbacks: the response to its
`hello` to `onHelloCommon`, the response to `StartBlocksDownloading` to
`onSuccess`.  A run is the messages a connection handles, in order; the first
panic ends it.

What one handler can do to the connection is said once, by `handle_cases`:
it sends messages, and a `hello` or its response may first store the peer's
state.  From that step lemma and one induction over the run:

* the nonce never changes, and what has been sent is only ever appended to,
  so no event is lost or reordered;
* a stored state always holds a hash of 32 bytes, and every change of the
  state is announced by a state update among the events sent since;
* a run with no `hello` in it leaves the state as it was.

The handshake of two nodes composes `generateHello`, the peer's
`onHelloRequest`, which answers with its own `generateHello`, and the outgoing
node's `onHelloCommon`: with different nonces, each side records the other's
height and previous safebox hash.
-/

namespace Pasl.Network

open Pasl.Utils

section
variable (Γ : Nat → Serializable) (maxLen : Nat) (peerTy : Ty)

/-- The `packetHello` that `generateHello(0, nonce, header, nil, userAgent)`
fills in: no peers. -/
def helloPacket (nonce : List UInt8) (header : Val) (userAgent : List UInt8) : Val :=
  .struct [.bytes nonce, header, .slice [], .bytes userAgent]

/-- `generateHello(0, nonce, header, nil, userAgent)`.  Modelled from the spec:
the payload is the `packetHello` serialized by value. -/
def generateHello (fuel : Nat) (nonce : List UInt8) (header : Val) (userAgent : List UInt8) :
    Except Fault (List UInt8) :=
  serialize Γ fuel (packetHelloTy peerTy) (helloPacket nonce header userAgent) false

/-- `PascalConnection.onHelloRequest(request, payload)`: the connection and the
request after it, and the handler's results `(out, err)` as `.ok out` or
`.error err`.  `header` stands for
`this.blockchain.GetPendingBlock().SerializeHeader(false)` and `userAgent` for
`defaults.UserAgent`. -/
def onHelloRequest (header : Val) (userAgent : List UInt8) (fuel : Nat) (this : PascalConnection)
    (request : Option RequestResponse) (payload : List UInt8) :
    Except Fault (PascalConnection × Option RequestResponse × Except String (List UInt8)) := do
  let (this, request, err) ← onHelloCommon Γ maxLen peerTy fuel this request payload
  match err with
  | some err => pure (this, request, .error err)
  | none =>
      let out ← generateHello Γ peerTy fuel this.nonce header userAgent
      let request ← setError request .success
      pure (this, request, .ok out)

end

/-- What reaches a connection: a request or a notification of an operation
`OnOpen` registers (`hello`, `getBlocks`, `newBlock`, `newOperations`), or the
response to the `hello` that `OnOpen` sends on an outgoing connection or to
`StartBlocksDownloading`.  The handlers of `errorReport`, `message` and
`getHeaders` only trace, and are left out. -/
inductive Incoming where
  | hello (request : Option RequestResponse) (payload : List UInt8)
  | helloResponse (response : Option RequestResponse) (payload : List UInt8)
  | getBlocks (request : Option RequestResponse) (payload : List UInt8)
  | blocksResponse (response : Option RequestResponse) (payload : List UInt8)
  | newBlock (payload : List UInt8)
  | newOperations (payload : List UInt8)

def Incoming.isHello : Incoming → Bool
  | .hello .. | .helloResponse .. => true
  | _ => false

section
variable (Γ : Nat → Serializable) (maxLen : Nat) (peerTy txTy : Ty)
  (getBlock : BitVec 32 → Option Val) (header : Val) (userAgent : List UInt8)

def handle (fuel : Nat) (this : PascalConnection) : Incoming → Except Fault PascalConnection
  | .hello request payload =>
      (·.1) <$> onHelloRequest Γ maxLen peerTy header userAgent fuel this request payload
  | .helloResponse response payload => (·.1) <$> onHelloCommon Γ maxLen peerTy fuel this response payload
  | .getBlocks request payload =>
      (fun _ => this) <$> onGetBlocksRequest Γ maxLen txTy getBlock fuel request payload
  | .blocksResponse response payload =>
      let r := startBlocksDownloading.onSuccess Γ maxLen txTy fuel this response payload
      (fun _ => r.1) <$> r.2
  | .newBlock payload => (·.1) <$> onNewBlockNotification Γ maxLen txTy fuel this payload
  | .newOperations payload => (·.1) <$> onNewOperationsNotification Γ maxLen txTy fuel this payload

def run (fuel : Nat) : PascalConnection → List Incoming → Except Fault PascalConnection
  | this, [] => pure this
  | this, message :: messages => do
      run fuel (← handle Γ maxLen peerTy txTy getBlock header userAgent fuel this message) messages

end

def Handled (this this' : PascalConnection) (stores : Bool) : Prop :=
  ∃ events, this' = this.send events ∨
    stores = true ∧ ∃ height hash, this' = (setState this height hash).send events

theorem Handled.send (this : PascalConnection) (stores : Bool) (events : List Event) :
    Handled this (this.send events) stores :=
  ⟨events, .inl rfl⟩

theorem Handled.self (this : PascalConnection) (stores : Bool) : Handled this this stores :=
  ⟨[], .inl this.send_nil.symm⟩

section
variable {Γ : Nat → Serializable} {maxLen : Nat} {peerTy txTy : Ty}
  {getBlock : BitVec 32 → Option Val} {header : Val} {userAgent : List UInt8} {fuel : Nat}
  {this this' : PascalConnection}

theorem onHelloCommon_handled {request request' : Option RequestResponse} {payload : List UInt8}
    {err : Option String}
    (h : onHelloCommon Γ maxLen peerTy fuel this request payload = .ok (this', request', err)) :
    Handled this this' true := by
  rw [onHelloCommon] at h
  obtain ⟨⟨e, packet, rest⟩, -, h⟩ := bind_eq_ok.mp h
  cases e with
  | some e =>
    obtain ⟨_, -, h⟩ := bind_eq_ok.mp h
    cases h
    exact .self _ _
  | none =>
    dsimp only at h
    split at h <;> cases h
    · exact .self _ _
    · exact ⟨_, .inr ⟨rfl, _, _, rfl⟩⟩

theorem Handled.deferDownloadingDone (this : PascalConnection) (stores : Bool)
    (r : Except Fault (List Event × Option String)) :
    Handled this (deferDownloadingDone this r).1 stores := by
  cases r <;> exact .send _ _ _

theorem handle_cases {m : Incoming}
    (h : handle Γ maxLen peerTy txTy getBlock header userAgent fuel this m = .ok this') :
    Handled this this' m.isHello := by
  cases m with
  | hello request payload =>
    obtain ⟨⟨c, r, out⟩, hr, rfl⟩ := map_eq_ok.mp h
    rw [onHelloRequest] at hr
    obtain ⟨⟨c, r, e⟩, hc, hr⟩ := bind_eq_ok.mp hr
    cases e with
    | some e => cases hr; exact onHelloCommon_handled hc
    | none =>
      obtain ⟨_, -, hr⟩ := bind_eq_ok.mp hr
      obtain ⟨_, -, hr⟩ := bind_eq_ok.mp hr
      cases hr; exact onHelloCommon_handled hc
  | helloResponse response payload =>
    obtain ⟨⟨c, r, e⟩, hc, rfl⟩ := map_eq_ok.mp h
    exact onHelloCommon_handled hc
  | getBlocks request payload =>
    obtain ⟨_, -, rfl⟩ := map_eq_ok.mp h
    exact .self _ _
  | blocksResponse response payload =>
    obtain ⟨_, -, rfl⟩ := map_eq_ok.mp h
    exact .deferDownloadingDone _ _ _
  | newBlock payload =>
    obtain ⟨⟨c, e⟩, hn, rfl⟩ := map_eq_ok.mp h
    rw [onNewBlockNotification] at hn
    obtain ⟨⟨e, packet, rest⟩, -, hn⟩ := bind_eq_ok.mp hn
    cases e <;> cases hn
    · exact .send _ _ _
    · exact .self _ _
  | newOperations payload =>
    obtain ⟨⟨c, e⟩, hn, rfl⟩ := map_eq_ok.mp h
    rw [onNewOperationsNotification] at hn
    obtain ⟨⟨e, packet, rest⟩, -, hn⟩ := bind_eq_ok.mp hn
    cases e <;> cases hn
    · exact .send _ _ _
    · exact .self _ _

theorem handle_state {m : Incoming} (hm : m.isHello = false)
    (h : handle Γ maxLen peerTy txTy getBlock header userAgent fuel this m = .ok this') :
    this'.state = this.state := by
  obtain ⟨events, rfl | ⟨hs, -⟩⟩ := handle_cases h
  · rfl
  · exact absurd hs (by simp [hm])

theorem run_rel {R : PascalConnection → PascalConnection → Prop} (hrefl : ∀ c, R c c)
    (htrans : ∀ a b c, R a b → R b c → R a c) :
    ∀ {messages : List Incoming} {this this' : PascalConnection},
      (∀ m ∈ messages, ∀ c c',
        handle Γ maxLen peerTy txTy getBlock header userAgent fuel c m = .ok c' → R c c') →
      run Γ maxLen peerTy txTy getBlock header userAgent fuel this messages = .ok this' → R this this'
  | [], this, this', _, h => by
    cases h
    exact hrefl this
  | m :: messages, this, this', hstep, h => by
    obtain ⟨c, hc, h⟩ := bind_eq_ok.mp h
    exact htrans _ _ _ (hstep m (List.mem_cons_self _ _) _ _ hc)
      (run_rel hrefl htrans (fun m' hm' => hstep m' (List.mem_cons_of_mem _ hm')) h)

end

/-- What handling messages may do to a connection, which sends `events`: keep
its nonce and append the events to what it has sent; a changed peer state
holds a hash of 32 bytes, and a state update among the events announces it. -/
structure Extends (this this' : PascalConnection) (events : List Event) : Prop where
  nonce : this'.nonce = this.nonce
  sent : this'.sent = this.sent ++ events
  state : this'.state = this.state ∨
    Event.stateUpdate ∈ events ∧ ∃ state, this'.state = some state ∧ state.prevSafeboxHash.length = 32

theorem Extends.refl (this : PascalConnection) : Extends this this [] :=
  ⟨rfl, this.sent.append_nil.symm, .inl rfl⟩

theorem Extends.trans {a b c : PascalConnection} {es es' : List Event} (h : Extends a b es)
    (h' : Extends b c es') : Extends a c (es ++ es') where
  nonce := h'.nonce.trans h.nonce
  sent := by rw [h'.sent, h.sent, List.append_assoc]
  state := by
    rcases h'.state with hc | ⟨hu, hc⟩
    · rcases h.state with hb | ⟨hu, hb⟩
      · exact .inl (hc.trans hb)
      · exact .inr ⟨List.mem_append_left _ hu, hc ▸ hb⟩
    · exact .inr ⟨List.mem_append_right _ hu, hc⟩

theorem length_copyBytes_replicate (n : Nat) (src : List UInt8) :
    (copyBytes (List.replicate n 0) src).length = n := by
  simp only [copyBytes, List.length_append, List.length_take, List.length_drop, List.length_replicate]
  omega

theorem Handled.extends {this this' : PascalConnection} {stores : Bool} (h : Handled this this' stores) :
    ∃ events, Extends this this' events := by
  obtain ⟨events, rfl | ⟨-, height, hash, rfl⟩⟩ := h
  · exact ⟨events, rfl, rfl, .inl rfl⟩
  · exact ⟨.stateUpdate :: events, rfl, by simp [setState, PascalConnection.send],
      .inr ⟨List.mem_cons_self _ _, _, rfl, length_copyBytes_replicate 32 hash⟩⟩

section
variable {Γ : Nat → Serializable} {maxLen : Nat} {peerTy txTy : Ty}
  {getBlock : BitVec 32 → Option Val} {header : Val} {userAgent : List UInt8} {fuel : Nat}
  {messages : List Incoming} {this this' : PascalConnection}

theorem Extends.of_run
    (h : run Γ maxLen peerTy txTy getBlock header userAgent fuel this messages = .ok this') :
    ∃ events, Extends this this' events :=
  run_rel (fun c => ⟨[], .refl c⟩) (fun _ _ _ ⟨_, hab⟩ ⟨_, hbc⟩ => ⟨_, hab.trans hbc⟩)
    (fun _ _ _ _ hc => (handle_cases hc).extends) h

theorem run_extends
    (h : run Γ maxLen peerTy txTy getBlock header userAgent fuel this messages = .ok this') :
    ∃ events, Extends this this' events :=
  Extends.of_run h

theorem run_state (hm : ∀ m ∈ messages, m.isHello = false)
    (h : run Γ maxLen peerTy txTy getBlock header userAgent fuel this messages = .ok this') :
    this'.state = this.state :=
  run_rel (R := fun c c' => c'.state = c.state) (fun _ => rfl) (fun _ _ _ hab hbc => hbc.trans hab)
    (fun m hm' _ _ hc => handle_state (hm m hm') hc) h

theorem run_getState (hv : ∀ r, getState this = .ok r → r.2.length = 32)
    (h : run Γ maxLen peerTy txTy getBlock header userAgent fuel this messages = .ok this') :
    (∀ r, getState this = .ok r → ∃ r', getState this' = .ok r') ∧
      ∀ r, getState this' = .ok r → r.2.length = 32 := by
  obtain ⟨_, he⟩ := Extends.of_run h
  rcases he.state with hs | ⟨-, state, hs, hlen⟩
  · have hget : getState this' = getState this := by rw [getState, getState, hs]
    exact ⟨fun r hr => ⟨r, hget.trans hr⟩, fun r hr => hv r (hget ▸ hr)⟩
  · have hget : getState this' = .ok (state.height, state.prevSafeboxHash) := by rw [getState, hs]; rfl
    exact ⟨fun _ _ => ⟨_, hget⟩, fun r hr => by cases hget.symm.trans hr; exact hlen⟩

end

section
variable {Γ : Nat → Serializable} {maxLen : Nat} {peerTy : Ty} {userAgent : List UInt8}

theorem onHelloCommon_hello {this : PascalConnection} {request : Option RequestResponse}
    {payload nonce : List UInt8} {header : Val}
    (hd : Settles (deserialize Γ maxLen · (packetHelloTy peerTy) (packetHelloTy peerTy).zero payload)
      (.ok (none, helloPacket nonce header userAgent, [])))
    (hne : nonce ≠ this.nonce) :
    Settles (onHelloCommon Γ maxLen peerTy · this request payload)
      (.ok (setState this (headerIndex header) (headerPrevSafeboxHash header), request, none)) := by
  obtain ⟨n, hn⟩ := hd.eventually
  refine Settles.of_eventually (n := n) fun m hm => ?_
  rw [onHelloCommon, hn m hm]
  simp only [ok_bind, helloPacket, Val.child_struct, List.getD_cons_zero, List.getD_cons_succ,
    Val.toBytes, hne, ↓reduceIte, Val.children, List.map_nil, PascalConnection.send_nil]
  rfl

theorem onHelloRequest_of_common {header : Val} {this this' : PascalConnection}
    {request : RequestResponse} {payload out : List UInt8}
    (h : Settles (onHelloCommon Γ maxLen peerTy · this (some request) payload)
      (.ok (this', some request, none)))
    (hg : Settles (generateHello Γ peerTy · this'.nonce header userAgent) (.ok out)) :
    Settles (onHelloRequest Γ maxLen peerTy header userAgent · this (some request) payload)
      (.ok (this', some ⟨.success⟩, .ok out)) := by
  obtain ⟨n, hn⟩ := h.eventually
  obtain ⟨n', hn'⟩ := hg.eventually
  refine Settles.of_eventually (n := n + n') fun m hm => ?_
  rw [onHelloRequest, hn m (by omega)]
  simp only [ok_bind, hn' m (by omega)]
  rfl

variable (hΓ : ∀ c fs, ∃ bs, (Γ c).serialize fs = .ok bs) (hc : codecsRoundTrip Γ peerTy)
  (hi : peerTy.noIface = true) (hu : peerTy.isUint8 = false) (hua : userAgent.length < 2 ^ 16)
include hΓ hc hi hu hua

theorem generateHello_roundTrip (maxLen : Nat) {nonce : List UInt8} {header : Val}
    (hn : nonce.length < 2 ^ 16)
    (hv : typed serializedBlockHeaderTy header = true) (hf : fits serializedBlockHeaderTy header = true) :
    ∃ payload, Settles (generateHello Γ peerTy · nonce header userAgent) (.ok payload) ∧
      Settles (deserialize Γ maxLen · (packetHelloTy peerTy) (packetHelloTy peerTy).zero payload)
        (.ok (none, helloPacket nonce header userAgent, [])) := by
  have hfp : fits (packetHelloTy peerTy) (helloPacket nonce header userAgent) = true := by
    show (decide (nonce.length < 2 ^ 16) && (fits serializedBlockHeaderTy header &&
      (fits (.slice peerTy) (.slice []) && (decide (userAgent.length < 2 ^ 16) && true)))) = true
    rw [hf]
    simpa [fits, hu, Val.children] using And.intro hn hua
  have hmp : slicesWithin maxLen (packetHelloTy peerTy) (helloPacket nonce header userAgent) = true := by
    show (true && (slicesWithin maxLen serializedBlockHeaderTy header &&
      (slicesWithin maxLen (.slice peerTy) (.slice []) && (true && true)))) = true
    rw [slicesWithin_of_makesNoSlice maxLen serializedBlockHeaderTy rfl header]
    simp [slicesWithin, hu, Val.children]
  exact serialize_deserialize_byValue Γ maxLen hΓ
    (by simp [packetHelloTy, helloPacket, typed, typedFields, hu, hv]; rfl) hfp hmp
    (by simpa [packetHelloTy, serializedBlockHeaderTy, versionTy, Ty.noIface, Ty.noIfaceFields] using hi)
    (by simpa [packetHelloTy, serializedBlockHeaderTy, versionTy, codecsRoundTrip,
      codecsRoundTripFields] using hc) rfl

theorem hello_handshake {a b : PascalConnection} {headerA headerB : Val}
    (hna : a.nonce.length < 2 ^ 16) (hnb : b.nonce.length < 2 ^ 16)
    (hva : typed serializedBlockHeaderTy headerA = true) (hfa : fits serializedBlockHeaderTy headerA = true)
    (hvb : typed serializedBlockHeaderTy headerB = true) (hfb : fits serializedBlockHeaderTy headerB = true)
    (hne : a.nonce ≠ b.nonce) (request response : RequestResponse) :
    ∃ payloadA payloadB,
      Settles (generateHello Γ peerTy · a.nonce headerA userAgent) (.ok payloadA) ∧
      Settles (generateHello Γ peerTy · b.nonce headerB userAgent) (.ok payloadB) ∧
      Settles (onHelloRequest Γ maxLen peerTy headerB userAgent · b (some request) payloadA)
        (.ok (setState b (headerIndex headerA) (headerPrevSafeboxHash headerA), some ⟨.success⟩,
          .ok payloadB)) ∧
      Settles (onHelloCommon Γ maxLen peerTy · a (some response) payloadB)
        (.ok (setState a (headerIndex headerB) (headerPrevSafeboxHash headerB), some response, none)) := by
  obtain ⟨pa, hsa, hda⟩ := generateHello_roundTrip hΓ hc hi hu hua maxLen hna hva hfa
  obtain ⟨pb, hsb, hdb⟩ := generateHello_roundTrip hΓ hc hi hu hua maxLen hnb hvb hfb
  exact ⟨pa, pb, hsa, hsb, onHelloRequest_of_common (onHelloCommon_hello hda hne) hsb,
    onHelloCommon_hello hdb (Ne.symm hne)⟩

end

theorem run_extends_handshake :
    run (fun _ => uint32Codec) (2 ^ 31 - 1) (.uint .w8) (.uint .w8) (fun _ => none)
        serializedBlockHeaderTy.zero [] 60 ⟨[1], none, []⟩ [.helloResponse none [], .newOperations []] =
      .ok ⟨[1], some ⟨0, List.replicate 32 0⟩, [.stateUpdate]⟩ ∧
    ∃ events, Extends ⟨[1], none, []⟩ ⟨[1], some ⟨0, List.replicate 32 0⟩, [.stateUpdate]⟩ events :=
  have h : run (fun _ => uint32Codec) (2 ^ 31 - 1) (.uint .w8) (.uint .w8) (fun _ => none)
      serializedBlockHeaderTy.zero [] 60 ⟨[1], none, []⟩ [.helloResponse none [], .newOperations []] =
      .ok ⟨[1], some ⟨0, List.replicate 32 0⟩, [.stateUpdate]⟩ := by rfl
  ⟨h, run_extends h⟩

theorem run_state_download :
    (∀ m ∈ [Incoming.blocksResponse none [], .newOperations []], m.isHello = false) ∧
      run (fun _ => uint32Codec) (2 ^ 31 - 1) (.uint .w8) (.uint .w8) (fun _ => none)
          serializedBlockHeaderTy.zero [] 60 ⟨[1], some ⟨7, List.replicate 32 0⟩, []⟩
          [.blocksResponse none [], .newOperations []] =
        .ok ⟨[1], some ⟨7, List.replicate 32 0⟩, [.downloadingDone]⟩ ∧
      (⟨[1], some ⟨7, List.replicate 32 0⟩, [.downloadingDone]⟩ : PascalConnection).state =
        (⟨[1], some ⟨7, List.replicate 32 0⟩, []⟩ : PascalConnection).state :=
  have hm : ∀ m ∈ [Incoming.blocksResponse none [], .newOperations []], m.isHello = false := by
    decide
  have h : run (fun _ => uint32Codec) (2 ^ 31 - 1) (.uint .w8) (.uint .w8) (fun _ => none)
      serializedBlockHeaderTy.zero [] 60 ⟨[1], some ⟨7, List.replicate 32 0⟩, []⟩
      [.blocksResponse none [], .newOperations []] =
      .ok ⟨[1], some ⟨7, List.replicate 32 0⟩, [.downloadingDone]⟩ := by rfl
  ⟨hm, h, run_state hm h⟩

theorem run_getState_handshake :
    (∀ r, getState ⟨[1], none, []⟩ = .ok r → r.2.length = 32) ∧
      run (fun _ => uint32Codec) (2 ^ 31 - 1) (.uint .w8) (.uint .w8) (fun _ => none)
          serializedBlockHeaderTy.zero [] 60 ⟨[1], none, []⟩ [.helloResponse none []] =
        .ok ⟨[1], some ⟨0, List.replicate 32 0⟩, [.stateUpdate]⟩ ∧
      (∀ r, getState ⟨[1], none, []⟩ = .ok r →
          ∃ r', getState ⟨[1], some ⟨0, List.replicate 32 0⟩, [.stateUpdate]⟩ = .ok r') ∧
        ∀ r, getState ⟨[1], some ⟨0, List.replicate 32 0⟩, [.stateUpdate]⟩ = .ok r → r.2.length = 32 :=
  have hv : ∀ r, getState ⟨[1], none, []⟩ = .ok r → r.2.length = 32 := fun _ hr => by cases hr
  have h : run (fun _ => uint32Codec) (2 ^ 31 - 1) (.uint .w8) (.uint .w8) (fun _ => none)
      serializedBlockHeaderTy.zero [] 60 ⟨[1], none, []⟩ [.helloResponse none []] =
      .ok ⟨[1], some ⟨0, List.replicate 32 0⟩, [.stateUpdate]⟩ := by rfl
  ⟨hv, h, run_getState hv h⟩

theorem hello_handshake_zeroHeaders :
    (∀ (c : Nat) (fs : List Val), ∃ bs, ((fun _ => uint32Codec) c : Serializable).serialize fs = .ok bs) ∧
      codecsRoundTrip (fun _ => uint32Codec) (.uint .w32) ∧ (Ty.uint .w32).noIface = true ∧
      (Ty.uint .w32).isUint8 = false ∧ ([] : List UInt8).length < 2 ^ 16 ∧
      typed serializedBlockHeaderTy serializedBlockHeaderTy.zero = true ∧
      fits serializedBlockHeaderTy serializedBlockHeaderTy.zero = true ∧ ([1] : List UInt8) ≠ [2] ∧
      ∃ payloadA payloadB,
        Settles (generateHello (fun _ => uint32Codec) (.uint .w32) · [1] serializedBlockHeaderTy.zero [])
          (.ok payloadA) ∧
        Settles (generateHello (fun _ => uint32Codec) (.uint .w32) · [2] serializedBlockHeaderTy.zero [])
          (.ok payloadB) ∧
        Settles (onHelloRequest (fun _ => uint32Codec) (2 ^ 31 - 1) (.uint .w32)
            serializedBlockHeaderTy.zero [] · ⟨[2], none, []⟩ (some ⟨.success⟩) payloadA)
          (.ok (setState ⟨[2], none, []⟩ (headerIndex serializedBlockHeaderTy.zero)
            (headerPrevSafeboxHash serializedBlockHeaderTy.zero), some ⟨.success⟩, .ok payloadB)) ∧
        Settles (onHelloCommon (fun _ => uint32Codec) (2 ^ 31 - 1) (.uint .w32) · ⟨[1], none, []⟩
            (some ⟨.success⟩) payloadB)
          (.ok (setState ⟨[1], none, []⟩ (headerIndex serializedBlockHeaderTy.zero)
            (headerPrevSafeboxHash serializedBlockHeaderTy.zero), some ⟨.success⟩, none)) :=
  ⟨fun _ _ => ⟨_, rfl⟩, trivial, rfl, rfl, by decide, rfl, rfl, by decide,
    hello_handshake (by exact fun _ _ => ⟨_, rfl⟩) (by exact trivial) (by rfl) (by rfl) (by decide)
      (a := ⟨[1], none, []⟩) (b := ⟨[2], none, []⟩) (by decide) (by decide) (by rfl) (by rfl) (by rfl)
      (by rfl) (by decide) ⟨.success⟩ ⟨.success⟩⟩

end Pasl.Network
