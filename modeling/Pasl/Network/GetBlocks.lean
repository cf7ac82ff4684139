import Pasl.Network.Connection

/-!
# Block download: `onGetBlocksRequest` and `StartBlocksDownloading`

`StartBlocksDownloading(from, to)` sends a `getBlocks` request.  The peer's
`onGetBlocksRequest` orders the range, clamps it to `NetworkBlocksPerRequest`
past its lower end, and answers with a list of serialized blocks.  The
requester's response callback emits one `NewBlock` event per entry.

The reply list starts as `make([]SerializedBlock, total)`, which is `total`
zero blocks, and the loop appends to it.  The loop is inclusive, so it asks for
`total + 1` blocks and stops at the first missing one.  `getBlocks_newBlockEvents`
follows one download from the request bytes to the events, over every range
whose clamped upper end lies below `2^32 - 1` and every chain.

`getBlockCalls` records where the loop calls `GetBlock`.  Below the top index
it makes at most `total + 1` calls at consecutive indices.  At `ToIndex =
2^32 - 1` the test `index <= ToIndex` always holds: `index++` wraps to 0 and the
loop goes on from the bottom of the chain until a block is missing, so on a
chain with every block the peer never answers.
-/

namespace Pasl.Network

open Pasl.Utils

/-- `packetGetBlocksRequest`.  Modelled from the spec: `from` and `to` as `u32`, in
the order `StartBlocksDownloading` fills `FromIndex` and `ToIndex`. -/
def packetGetBlocksRequestTy : Ty := .struct none [.uint .w32, .uint .w32]

/-- `packetGetBlocksResponse`.  Modelled from the spec: its one field `Blocks`, a
list of serialized blocks. -/
def packetGetBlocksResponseTy (txTy : Ty) : Ty := .struct none [.slice (serializedBlockTy txTy)]

/-- `defaults.NetworkBlocksPerRequest`.  Modelled from the spec: 100. -/
def networkBlocksPerRequest : BitVec 32 := 100

/-- The range `onGetBlocksRequest` serves, as `(FromIndex, ToIndex, total)`:
`FromIndex` and `ToIndex` swapped into order, then `total = ToIndex - FromIndex`
clamped to `NetworkBlocksPerRequest`, with `ToIndex` moved to
`FromIndex + total`. -/
def blockRange (fromIndex toIndex : BitVec 32) : BitVec 32 × BitVec 32 × BitVec 32 :=
  let (fromIndex, toIndex) :=
    if fromIndex > toIndex then (toIndex, fromIndex) else (fromIndex, toIndex)
  let total := toIndex - fromIndex
  if total > networkBlocksPerRequest then
    (fromIndex, fromIndex + networkBlocksPerRequest, networkBlocksPerRequest)
  else (fromIndex, toIndex, total)

theorem blockRange_toNat (fromIndex toIndex : BitVec 32) :
    (blockRange fromIndex toIndex).1.toNat = min fromIndex.toNat toIndex.toNat ∧
      (blockRange fromIndex toIndex).2.2.toNat =
        min (max fromIndex.toNat toIndex.toNat - min fromIndex.toNat toIndex.toNat) 100 ∧
      (blockRange fromIndex toIndex).2.1.toNat =
        (blockRange fromIndex toIndex).1.toNat + (blockRange fromIndex toIndex).2.2.toNat := by
  have hf := fromIndex.isLt
  have ht := toIndex.isLt
  have h100 : networkBlocksPerRequest.toNat = 100 := rfl
  unfold blockRange
  by_cases hswap : fromIndex > toIndex <;> simp only [hswap, ↓reduceIte] <;> split_ifs <;>
    simp only [BitVec.lt_def, BitVec.toNat_sub, BitVec.toNat_add, h100] at * <;> omega

section
variable (getBlock : BitVec 32 → Option Val)

/-- The loop `for index := FromIndex; index <= ToIndex; index++` of
`onGetBlocksRequest`: `getBlock index` is `GetBlock(index).Serialize()`, or none
where `GetBlock` returns nil, and is appended until a block is missing; `fuel`
bounds the turns. -/
def collectBlocks : Nat → BitVec 32 → BitVec 32 → List Val → Except Fault (List Val)
  | 0, _, _, _ => throw .outOfFuel
  | fuel + 1, index, toIndex, serialized =>
      if index ≤ toIndex then
        match getBlock index with
        | some block => collectBlocks fuel (index + 1) toIndex (serialized ++ [block])
        | none => pure serialized
      else pure serialized

def blocksFrom (index : BitVec 32) : Nat → List Val
  | 0 => []
  | n + 1 =>
      match getBlock index with
      | some block => block :: blocksFrom (index + 1) n
      | none => []

theorem length_blocksFrom_le (index : BitVec 32) (n : Nat) : (blocksFrom getBlock index n).length ≤ n := by
  induction n generalizing index with
  | zero => rfl
  | succ n ih =>
      simp only [blocksFrom]
      split
      · simpa using ih _
      · simp

theorem blocksFrom_found {index : BitVec 32} {n : Nat} {block : Val}
    (h : block ∈ blocksFrom getBlock index n) : ∃ i, getBlock i = some block := by
  induction n generalizing index with
  | zero => cases h
  | succ n ih =>
      simp only [blocksFrom] at h
      split at h
      · rcases List.mem_cons.mp h with rfl | h
        · exact ⟨index, ‹_›⟩
        · exact ih h
      · cases h

/-- The indices at which the loop calls `GetBlock`, in order: the turns of
`collectBlocks`, each recording its call instead of the block it appends. -/
def getBlockCalls : Nat → BitVec 32 → BitVec 32 → Except Fault (List (BitVec 32))
  | 0, _, _ => throw .outOfFuel
  | fuel + 1, index, toIndex =>
      if index ≤ toIndex then
        match getBlock index with
        | some _ => (index :: ·) <$> getBlockCalls fuel (index + 1) toIndex
        | none => pure [index]
      else pure []

theorem collectBlocks_eq_calls : ∀ (fuel : Nat) (index toIndex : BitVec 32) (serialized : List Val),
    collectBlocks getBlock fuel index toIndex serialized =
      (serialized ++ ·.filterMap getBlock) <$> getBlockCalls getBlock fuel index toIndex
  | 0, _, _, _ => rfl
  | fuel + 1, index, toIndex, serialized => by
      simp only [collectBlocks, getBlockCalls, collectBlocks_eq_calls fuel]
      split
      · cases hb : getBlock index with
        | some block =>
            cases getBlockCalls getBlock fuel (index + 1) toIndex <;> simp [Functor.map, Except.map, hb]
        | none => simp [Functor.map, Except.map, pure, Except.pure, hb]
      · simp [Functor.map, Except.map, pure, Except.pure]

def callsFrom (index : BitVec 32) : Nat → List (BitVec 32)
  | 0 => []
  | n + 1 =>
      index :: match getBlock index with
        | some _ => callsFrom (index + 1) n
        | none => []

theorem length_callsFrom_le (index : BitVec 32) (n : Nat) : (callsFrom getBlock index n).length ≤ n := by
  induction n generalizing index with
  | zero => rfl
  | succ n ih =>
      simp only [callsFrom, List.length_cons, Nat.add_le_add_iff_right]
      split
      · exact ih _
      · exact Nat.zero_le _

theorem toNat_add_one {index : BitVec 32} (h : index.toNat + 1 < 2 ^ 32) :
    (index + 1).toNat = index.toNat + 1 := by
  rw [BitVec.toNat_add, show (1 : BitVec 32).toNat = 1 from rfl]
  omega

theorem callsFrom_toNat (index : BitVec 32) (n : Nat) (h : index.toNat + n ≤ 2 ^ 32) :
    (callsFrom getBlock index n).map BitVec.toNat =
      List.range' index.toNat (callsFrom getBlock index n).length := by
  induction n generalizing index with
  | zero => rfl
  | succ n ih =>
      simp only [callsFrom, List.map_cons, List.length_cons, List.range'_succ]
      congr 1
      split
      · cases n with
        | zero => rfl
        | succ n =>
            have hsucc : (index + 1).toNat = index.toNat + 1 := toNat_add_one (by omega)
            rw [ih _ (by omega), hsucc]
      · rfl

theorem getBlockCalls_eq : ∀ (n : Nat) (index toIndex : BitVec 32) (fuel : Nat),
    index.toNat + n = toIndex.toNat + 1 → toIndex.toNat + 1 < 2 ^ 32 → n < fuel →
    getBlockCalls getBlock fuel index toIndex = .ok (callsFrom getBlock index n) := by
  intro n
  induction n with
  | zero =>
      intro index toIndex fuel hn _ hfuel
      obtain ⟨fuel, rfl⟩ : ∃ f, fuel = f + 1 := ⟨fuel - 1, by omega⟩
      have hgt : ¬ index ≤ toIndex := by rw [BitVec.le_def]; omega
      simp only [getBlockCalls, hgt, ↓reduceIte, callsFrom]
      rfl
  | succ n ih =>
      intro index toIndex fuel hn hwrap hfuel
      obtain ⟨fuel, rfl⟩ : ∃ f, fuel = f + 1 := ⟨fuel - 1, by omega⟩
      have hle : index ≤ toIndex := by rw [BitVec.le_def]; omega
      simp only [getBlockCalls, hle, ↓reduceIte, callsFrom]
      split
      · rw [ih _ _ _ (by rw [toNat_add_one (by omega)]; omega) hwrap (by omega)]
        rfl
      · rfl

theorem filterMap_callsFrom (index : BitVec 32) (n : Nat) :
    (callsFrom getBlock index n).filterMap getBlock = blocksFrom getBlock index n := by
  induction n generalizing index with
  | zero => rfl
  | succ n ih =>
      simp only [callsFrom, blocksFrom]
      cases hb : getBlock index <;> simp [hb, ih]

theorem collectBlocks_eq : ∀ (n : Nat) (index toIndex : BitVec 32) (serialized : List Val)
    (fuel : Nat), index.toNat + n = toIndex.toNat + 1 → toIndex.toNat + 1 < 2 ^ 32 → n < fuel →
    collectBlocks getBlock fuel index toIndex serialized =
      .ok (serialized ++ blocksFrom getBlock index n) := fun n index toIndex serialized fuel hn hwrap hfuel => by
  rw [collectBlocks_eq_calls, getBlockCalls_eq getBlock n index toIndex fuel hn hwrap hfuel,
    ← filterMap_callsFrom]
  rfl

theorem le_allOnes (index : BitVec 32) : index ≤ BitVec.allOnes 32 := by
  rw [BitVec.le_def, BitVec.toNat_allOnes]
  have := index.isLt
  omega

theorem add_ofNat_succ (index : BitVec 32) (j : Nat) :
    index + BitVec.ofNat 32 (j + 1) = index + 1 + BitVec.ofNat 32 j := by
  apply BitVec.eq_of_toNat_eq
  simp only [BitVec.toNat_add, BitVec.toNat_ofNat, show (1 : BitVec 32).toNat = 1 from rfl]
  omega

theorem getBlockCalls_allOnes : ∀ (n : Nat) (index : BitVec 32) (fuel : Nat), n < fuel →
    (∀ j < n, getBlock (index + BitVec.ofNat 32 j) ≠ none) → getBlock (index + BitVec.ofNat 32 n) = none →
    getBlockCalls getBlock fuel index (BitVec.allOnes 32) =
      .ok ((List.range (n + 1)).map (index + BitVec.ofNat 32 ·)) := by
  intro n
  induction n with
  | zero =>
      intro index fuel hfuel _ hn
      obtain ⟨fuel, rfl⟩ : ∃ f, fuel = f + 1 := ⟨fuel - 1, by omega⟩
      rw [show index + BitVec.ofNat 32 0 = index from BitVec.add_zero index] at hn
      simp only [getBlockCalls, le_allOnes, ↓reduceIte, hn]
      rw [show List.range (0 + 1) = [0] from rfl, List.map_singleton, BitVec.add_zero]
      rfl
  | succ n ih =>
      intro index fuel hfuel hfound hn
      obtain ⟨fuel, rfl⟩ : ∃ f, fuel = f + 1 := ⟨fuel - 1, by omega⟩
      obtain ⟨block, hb⟩ := Option.ne_none_iff_exists'.mp
        (by simpa using hfound 0 (Nat.succ_pos n))
      have hmap : (List.range (n + 2)).map (index + BitVec.ofNat 32 ·) =
          index :: (List.range (n + 1)).map (index + 1 + BitVec.ofNat 32 ·) := by
        rw [List.range_succ_eq_map, List.map_cons, List.map_map, BitVec.add_zero]
        exact congrArg _ (List.map_congr_left fun j _ => add_ofNat_succ index j)
      simp only [getBlockCalls, le_allOnes, ↓reduceIte, hb]
      rw [ih (index + 1) fuel (by omega)
        (fun j hj => add_ofNat_succ index j ▸ hfound (j + 1) (by omega))
        (add_ofNat_succ index n ▸ hn), hmap]
      rfl

theorem getBlockCalls_allOnes_full (hfull : ∀ i, getBlock i ≠ none) :
    ∀ (fuel : Nat) (index : BitVec 32),
      getBlockCalls getBlock fuel index (BitVec.allOnes 32) = .error .outOfFuel
  | 0, _ => rfl
  | fuel + 1, index => by
      obtain ⟨block, hb⟩ := Option.ne_none_iff_exists'.mp (hfull index)
      simp only [getBlockCalls, le_allOnes, ↓reduceIte, hb, getBlockCalls_allOnes_full hfull fuel]
      rfl

theorem getBlocks_loopCalls {fromIndex toIndex lo hi total : BitVec 32}
    (hr : blockRange fromIndex toIndex = (lo, hi, total)) :
    (hi.toNat < 2 ^ 32 - 1 → ∃ calls, Settles (getBlockCalls getBlock · lo hi) (.ok calls) ∧
        calls.length ≤ min (max fromIndex.toNat toIndex.toNat - min fromIndex.toNat toIndex.toNat) 100 + 1 ∧
        calls.map BitVec.toNat = List.range' lo.toNat calls.length) ∧
      (hi.toNat = 2 ^ 32 - 1 →
        (∀ n, (∀ j < n, getBlock (lo + BitVec.ofNat 32 j) ≠ none) → getBlock (lo + BitVec.ofNat 32 n) = none →
          Settles (getBlockCalls getBlock · lo hi) (.ok ((List.range (n + 1)).map (lo + BitVec.ofNat 32 ·)))) ∧
        ((∀ i, getBlock i ≠ none) → ∀ fuel, getBlockCalls getBlock fuel lo hi = .error .outOfFuel)) := by
  obtain ⟨hlo, htotal, hhi⟩ := blockRange_toNat fromIndex toIndex
  simp only [hr] at hlo htotal hhi
  refine ⟨fun hbelow => ⟨_, ⟨total.toNat + 1, fun k =>
    getBlockCalls_eq getBlock (total.toNat + 1) lo hi _ (by omega) (by omega) (by omega)⟩, ?_, ?_⟩,
    fun htop => ?_⟩
  · exact htotal ▸ length_callsFrom_le getBlock lo _
  · exact callsFrom_toNat getBlock lo _ (by omega)
  · obtain rfl : hi = BitVec.allOnes 32 := BitVec.eq_of_toNat_eq (by rw [htop, BitVec.toNat_allOnes])
    exact ⟨fun n hfound hn => ⟨n, fun k => getBlockCalls_allOnes getBlock n lo _ (by omega) hfound hn⟩,
      fun hfull fuel => getBlockCalls_allOnes_full getBlock hfull fuel lo⟩

end

theorem getBlocks_loopCalls_wrap :
    blockRange 4294967295 4294967295 = (4294967295, 4294967295, 0) ∧
      Settles (getBlockCalls (fun i => if i = 1 then none else some (.uint 0)) · 4294967295 4294967295)
        (.ok [4294967295, 0, 1]) ∧
      ∀ fuel, getBlockCalls (fun _ => some (.uint 0)) fuel 4294967295 4294967295 = .error .outOfFuel := by
  have hr : blockRange 4294967295 4294967295 = (4294967295, 4294967295, 0) := by decide
  have htop : (4294967295 : BitVec 32).toNat = 2 ^ 32 - 1 := rfl
  have hcalls : (List.range (2 + 1)).map ((4294967295 : BitVec 32) + BitVec.ofNat 32 ·) =
      [4294967295, 0, 1] := by decide
  have hfound : ∀ j < 2, (if (4294967295 : BitVec 32) + BitVec.ofNat 32 j = 1 then none
      else some (Val.uint 0)) ≠ none := fun j hj => by
    match j, hj with
    | 0, _ | 1, _ => exact Option.some_ne_none _
  have hwrap := ((getBlocks_loopCalls (fun i => if i = 1 then none else some (.uint 0)) hr).2 htop).1 2
    hfound (if_pos (by decide))
  exact ⟨hr, hcalls ▸ hwrap, ((getBlocks_loopCalls (fun _ => some (.uint 0)) hr).2 htop).2 (by simp)⟩

section
variable (Γ : Nat → Serializable) (maxLen : Nat) (txTy : Ty) (getBlock : BitVec 32 → Option Val)

/-- `PascalConnection.onGetBlocksRequest(request, payload)`: the request after it,
and the handler's results `(out, err)` as `.ok out` or `.error err`. -/
def onGetBlocksRequest (fuel : Nat) (request : Option RequestResponse) (payload : List UInt8) :
    Except Fault (Option RequestResponse × Except String (List UInt8)) := do
  let (err, packet, _) ←
    deserialize Γ maxLen fuel packetGetBlocksRequestTy packetGetBlocksRequestTy.zero payload
  match err with
  | some err => pure (request, .error err)
  | none =>
      let (fromIndex, toIndex, total) :=
        blockRange (BitVec.ofNat 32 (packet.child 0).toNat) (BitVec.ofNat 32 (packet.child 1).toNat)
      let serialized ← collectBlocks getBlock fuel fromIndex toIndex
        (List.replicate total.toNat (serializedBlockTy txTy).zero)
      let out ← serialize Γ fuel (packetGetBlocksResponseTy txTy) (.struct [.slice serialized]) false
      let request ← setError request .success
      pure (request, .ok out)

/-- The payload `StartBlocksDownloading(from, to)` sends: `Serialize` of the
request, passed by value. -/
def startBlocksDownloading (fuel : Nat) (fromIndex toIndex : BitVec 32) : Except Fault (List UInt8) :=
  serialize Γ fuel packetGetBlocksRequestTy (.struct [.uint fromIndex.toNat, .uint toIndex.toNat]) false

/-- The deferred `downloadingDone <- nil` of `onSuccess`: it is sent after what
the callback sent, whether the callback returned or panicked. -/
def deferDownloadingDone (this : PascalConnection) :
    Except Fault (List Event × Option String) → PascalConnection × Except Fault (Option String)
  | .ok (events, err) => (this.send (events ++ [.downloadingDone]), .ok err)
  | .error f => (this.send [.downloadingDone], .error f)

/-- The response callback `onSuccess` of `StartBlocksDownloading`: one `NewBlock`
event per entry of the response, then its deferred `downloadingDone`.  The
connection after it comes back beside the callback's `error` or its panic. -/
def startBlocksDownloading.onSuccess (fuel : Nat) (this : PascalConnection)
    (response : Option RequestResponse) (payload : List UInt8) :
    PascalConnection × Except Fault (Option String) :=
  deferDownloadingDone this <|
    match response with
    | none => pure ([], some "GetBlocks request failed")
    | some _ => do
        let (err, packet, _) ← deserialize Γ maxLen fuel (packetGetBlocksResponseTy txTy)
          (packetGetBlocksResponseTy txTy).zero payload
        match err with
        | some err => pure ([], some err)
        | none => pure ((packet.child 0).children.map (.newBlock · false), none)

/-- The entries of the reply to `getBlocks(from, to)`: `total` zero blocks from
`make`, then the blocks found from the lower end on, at most `total + 1`. -/
def replyBlocks (fromIndex toIndex : BitVec 32) : List Val :=
  List.replicate (blockRange fromIndex toIndex).2.2.toNat (serializedBlockTy txTy).zero ++
    blocksFrom getBlock (blockRange fromIndex toIndex).1 ((blockRange fromIndex toIndex).2.2.toNat + 1)

end

section
variable {Γ : Nat → Serializable} {maxLen : Nat} {txTy : Ty} {getBlock : BitVec 32 → Option Val}

theorem replyBlocks_all {P : Val → Prop} (hzero : P (serializedBlockTy txTy).zero)
    (hblocks : ∀ index block, getBlock index = some block → P block) (fromIndex toIndex : BitVec 32) :
    ∀ x ∈ replyBlocks txTy getBlock fromIndex toIndex, P x := by
  intro x hx
  rcases List.mem_append.mp hx with hx | hx
  · rw [(List.mem_replicate.mp hx).2]
    exact hzero
  · obtain ⟨i, hi⟩ := blocksFrom_found getBlock hx
    exact hblocks i x hi

theorem length_replyBlocks_le (fromIndex toIndex : BitVec 32) :
    (replyBlocks txTy getBlock fromIndex toIndex).length ≤ 201 := by
  have hfound := length_blocksFrom_le getBlock (blockRange fromIndex toIndex).1
    ((blockRange fromIndex toIndex).2.2.toNat + 1)
  have htotal := (blockRange_toNat fromIndex toIndex).2.1
  simp only [replyBlocks, List.length_append, List.length_replicate]
  omega

section
variable (hblocks : ∀ index block, getBlock index = some block →
  typed (serializedBlockTy txTy) block = true ∧ fits (serializedBlockTy txTy) block = true)
include hblocks

theorem typed_reply (fromIndex toIndex : BitVec 32) :
    typed (packetGetBlocksResponseTy txTy)
      (.struct [.slice (replyBlocks txTy getBlock fromIndex toIndex)]) = true := by
  simp only [packetGetBlocksResponseTy, typed, typedFields, serializedBlockTy, Ty.isUint8,
    Bool.not_false, Bool.true_and, Bool.and_true, List.all_eq_true]
  exact replyBlocks_all (typed_zero (serializedBlockTy txTy) rfl) (fun i b h => (hblocks i b h).1)
    fromIndex toIndex

theorem fits_reply (fromIndex toIndex : BitVec 32) :
    fits (packetGetBlocksResponseTy txTy)
      (.struct [.slice (replyBlocks txTy getBlock fromIndex toIndex)]) = true := by
  have hlen : (replyBlocks txTy getBlock fromIndex toIndex).length ≤ 201 :=
    length_replyBlocks_le fromIndex toIndex
  simp only [packetGetBlocksResponseTy, fits, fitsFields, serializedBlockTy, Ty.isUint8,
    Bool.false_eq_true, ↓reduceIte, Val.children, Bool.and_true, Bool.and_eq_true,
    decide_eq_true_eq, List.all_eq_true]
  exact ⟨by omega, replyBlocks_all (fits_zero _) (fun i b h => (hblocks i b h).2) fromIndex toIndex⟩

end

theorem slicesWithin_reply (hmax : 201 ≤ maxLen)
    (hm : ∀ index block, getBlock index = some block →
      slicesWithin maxLen (serializedBlockTy txTy) block = true) (fromIndex toIndex : BitVec 32) :
    slicesWithin maxLen (packetGetBlocksResponseTy txTy)
      (.struct [.slice (replyBlocks txTy getBlock fromIndex toIndex)]) = true := by
  have hlen : (replyBlocks txTy getBlock fromIndex toIndex).length ≤ 201 :=
    length_replyBlocks_le fromIndex toIndex
  simp only [packetGetBlocksResponseTy, slicesWithin, slicesWithinFields, serializedBlockTy,
    Ty.isUint8, Bool.false_eq_true, ↓reduceIte, Val.children, Bool.and_true, Bool.and_eq_true,
    decide_eq_true_eq, List.all_eq_true]
  exact ⟨by omega, replyBlocks_all (slicesWithin_zero maxLen _) hm fromIndex toIndex⟩

theorem startBlocksDownloading_deserialize (maxLen : Nat)
    (hΓ : ∀ c fs, ∃ bs, (Γ c).serialize fs = .ok bs) (fromIndex toIndex : BitVec 32) :
    ∃ payload, Settles (startBlocksDownloading Γ · fromIndex toIndex) (.ok payload) ∧
      Settles (deserialize Γ maxLen · packetGetBlocksRequestTy packetGetBlocksRequestTy.zero payload)
        (.ok (none, .struct [.uint fromIndex.toNat, .uint toIndex.toNat], [])) := by
  have hv : typed packetGetBlocksRequestTy (.struct [.uint fromIndex.toNat, .uint toIndex.toNat]) = true := by
    simpa [packetGetBlocksRequestTy, typed, typedFields, Width.bytes] using
      ⟨fromIndex.isLt, toIndex.isLt⟩
  exact serialize_deserialize_byValue Γ maxLen hΓ hv rfl rfl rfl ⟨trivial, trivial, trivial⟩ rfl

theorem onGetBlocksRequest_reply (hΓ : ∀ c fs, ∃ bs, (Γ c).serialize fs = .ok bs)
    (hblocks : ∀ index block, getBlock index = some block →
      typed (serializedBlockTy txTy) block = true ∧ fits (serializedBlockTy txTy) block = true)
    {fromIndex toIndex : BitVec 32} (hwrap : (blockRange fromIndex toIndex).2.1.toNat + 1 < 2 ^ 32)
    {payload : List UInt8} (request : RequestResponse)
    (hd : Settles (deserialize Γ maxLen · packetGetBlocksRequestTy packetGetBlocksRequestTy.zero payload)
      (.ok (none, .struct [.uint fromIndex.toNat, .uint toIndex.toNat], []))) :
    ∃ out, enc Γ (packetGetBlocksResponseTy txTy)
        (.struct [.slice (replyBlocks txTy getBlock fromIndex toIndex)]) = .ok out ∧
      Settles (onGetBlocksRequest Γ maxLen txTy getBlock · (some request) payload)
        (.ok (some ⟨.success⟩, .ok out)) := by
  obtain ⟨-, -, hhi⟩ := blockRange_toNat fromIndex toIndex
  have hv := typed_reply hblocks fromIndex toIndex
  obtain ⟨out, hout⟩ := enc_ok Γ hΓ _ _ hv
  have hs := serialize_settles_enc Γ (t := packetGetBlocksResponseTy txTy)
    (fun _ h => Ty.noConfusion h) hv (.inr rfl : false = true ∨ _)
  rw [hout] at hs
  obtain ⟨nd, hnd⟩ := hd.eventually
  obtain ⟨ns, hns⟩ := hs.eventually
  refine ⟨out, hout, Settles.of_eventually
    (n := nd + ns + (blockRange fromIndex toIndex).2.2.toNat + 1) fun m hm => ?_⟩
  have hofNat : ∀ x : BitVec 32, BitVec.ofNat 32 (Val.uint x.toNat).toNat = x := fun x => by
    simp [Val.toNat]
  have hloop : collectBlocks getBlock m (blockRange fromIndex toIndex).1 (blockRange fromIndex toIndex).2.1
      (List.replicate (blockRange fromIndex toIndex).2.2.toNat (serializedBlockTy txTy).zero) =
      .ok (replyBlocks txTy getBlock fromIndex toIndex) :=
    collectBlocks_eq getBlock _ _ _ _ m (by omega) hwrap (by omega)
  rw [onGetBlocksRequest, hnd m (by omega)]
  simp only [ok_bind, Val.child_struct, List.getD_cons_zero, List.getD_cons_succ, hofNat, hloop,
    hns m (by omega)]
  rfl

theorem onGetBlocksRequest_diverges (hΓ : ∀ c fs, ∃ bs, (Γ c).serialize fs = .ok bs)
    {fromIndex toIndex : BitVec 32} (htop : (blockRange fromIndex toIndex).2.1.toNat = 2 ^ 32 - 1)
    (hfull : ∀ i, getBlock i ≠ none) (request : Option RequestResponse) :
    ∃ payload, Settles (startBlocksDownloading Γ · fromIndex toIndex) (.ok payload) ∧
      Settles (onGetBlocksRequest Γ maxLen txTy getBlock · request payload) (.error .outOfFuel) := by
  obtain ⟨payload, hp, hd⟩ := startBlocksDownloading_deserialize maxLen hΓ fromIndex toIndex
  obtain ⟨nd, hnd⟩ := hd.eventually
  have hhi : (blockRange fromIndex toIndex).2.1 = BitVec.allOnes 32 :=
    BitVec.eq_of_toNat_eq (by rw [htop, BitVec.toNat_allOnes])
  refine ⟨payload, hp, Settles.of_eventually (n := nd) fun m hm => ?_⟩
  have hofNat : ∀ x : BitVec 32, BitVec.ofNat 32 (Val.uint x.toNat).toNat = x := fun x => by
    simp [Val.toNat]
  have hloop : collectBlocks getBlock m (blockRange fromIndex toIndex).1 (blockRange fromIndex toIndex).2.1
      (List.replicate (blockRange fromIndex toIndex).2.2.toNat (serializedBlockTy txTy).zero) =
      .error .outOfFuel := by
    rw [collectBlocks_eq_calls, hhi, getBlockCalls_allOnes_full getBlock hfull]
    rfl
  rw [onGetBlocksRequest, hnd m hm]
  simp only [ok_bind, Val.child_struct, List.getD_cons_zero, List.getD_cons_succ, hofNat, hloop]
  rfl

theorem onSuccess_events (hc : codecsRoundTrip Γ txTy) (hi : txTy.noIface = true)
    (hblocks : ∀ index block, getBlock index = some block →
      typed (serializedBlockTy txTy) block = true ∧ fits (serializedBlockTy txTy) block = true)
    (hmax : 201 ≤ maxLen)
    (hm : ∀ index block, getBlock index = some block →
      slicesWithin maxLen (serializedBlockTy txTy) block = true)
    {fromIndex toIndex : BitVec 32} {out : List UInt8}
    (hout : enc Γ (packetGetBlocksResponseTy txTy)
      (.struct [.slice (replyBlocks txTy getBlock fromIndex toIndex)]) = .ok out)
    (this : PascalConnection) (response : RequestResponse) :
    Settles (startBlocksDownloading.onSuccess Γ maxLen txTy · this (some response) out)
      (this.send ((replyBlocks txTy getBlock fromIndex toIndex).map (.newBlock · false) ++
        [.downloadingDone]), .ok none) := by
  have hnoIface : (packetGetBlocksResponseTy txTy).noIface = true := by
    simpa [packetGetBlocksResponseTy, Ty.noIface, Ty.noIfaceFields, serializedBlockTy_noIface] using hi
  have hcodecs : codecsRoundTrip Γ (packetGetBlocksResponseTy txTy) := by
    simpa [packetGetBlocksResponseTy, codecsRoundTrip, codecsRoundTripFields,
      codecsRoundTrip_serializedBlockTy] using hc
  have hd : Settles (deserialize Γ maxLen · (packetGetBlocksResponseTy txTy)
      (packetGetBlocksResponseTy txTy).zero (out ++ []))
      (.ok (none, .struct [.slice (replyBlocks txTy getBlock fromIndex toIndex)], [])) :=
    deserialize_settles_enc Γ maxLen [] (typed_reply hblocks fromIndex toIndex)
      (fits_reply hblocks fromIndex toIndex) (slicesWithin_reply hmax hm fromIndex toIndex) hnoIface
      hcodecs hout
  obtain ⟨n, hn⟩ := hd.eventually
  refine Settles.of_eventually (n := n) fun m hm => ?_
  rw [startBlocksDownloading.onSuccess, ← List.append_nil out, hn m hm]
  rfl

theorem getBlocks_newBlockEvents (hΓ : ∀ c fs, ∃ bs, (Γ c).serialize fs = .ok bs)
    (hc : codecsRoundTrip Γ txTy) (hi : txTy.noIface = true)
    (hblocks : ∀ index block, getBlock index = some block →
      typed (serializedBlockTy txTy) block = true ∧ fits (serializedBlockTy txTy) block = true)
    (hmax : 201 ≤ maxLen)
    (hm : ∀ index block, getBlock index = some block →
      slicesWithin maxLen (serializedBlockTy txTy) block = true)
    (fromIndex toIndex : BitVec 32) (hwrap : (blockRange fromIndex toIndex).2.1.toNat + 1 < 2 ^ 32)
    (this : PascalConnection) (request response : RequestResponse) :
    ∃ payload out,
      Settles (startBlocksDownloading Γ · fromIndex toIndex) (.ok payload) ∧
      Settles (onGetBlocksRequest Γ maxLen txTy getBlock · (some request) payload)
        (.ok (some ⟨.success⟩, .ok out)) ∧
      Settles (startBlocksDownloading.onSuccess Γ maxLen txTy · this (some response) out)
        (this.send ((replyBlocks txTy getBlock fromIndex toIndex).map (.newBlock · false) ++
          [.downloadingDone]), .ok none) := by
  obtain ⟨payload, hp, hd⟩ := startBlocksDownloading_deserialize maxLen hΓ fromIndex toIndex
  obtain ⟨out, hout, hr⟩ := onGetBlocksRequest_reply hΓ hblocks hwrap request hd
  exact ⟨payload, out, hp, hr, onSuccess_events hc hi hblocks hmax hm hout this response⟩

end

theorem onGetBlocksRequest_diverges_full :
    (blockRange 4294967295 4294967295).2.1.toNat = 2 ^ 32 - 1 ∧
      ∃ payload, Settles (startBlocksDownloading (fun _ => uint32Codec) · 4294967295 4294967295)
          (.ok payload) ∧
        Settles (onGetBlocksRequest (fun _ => uint32Codec) (2 ^ 31 - 1) (.uint .w8)
          (fun _ => some (serializedBlockTy (.uint .w8)).zero) · none payload) (.error .outOfFuel) := by
  have htop : (blockRange 4294967295 4294967295).2.1.toNat = 2 ^ 32 - 1 := by decide
  have hfull : ∀ i : BitVec 32, (fun _ => some (serializedBlockTy (.uint .w8)).zero) i ≠ none :=
    fun _ => Option.some_ne_none _
  exact ⟨htop, onGetBlocksRequest_diverges (by exact fun _ _ => ⟨_, rfl⟩) htop hfull none⟩

theorem getBlocks_newBlockEvents_twoBlocks :
    (∀ (c : Nat) (fs : List Val), ∃ bs, ((fun _ => uint32Codec) c : Serializable).serialize fs = .ok bs) ∧
      codecsRoundTrip (fun _ => uint32Codec) (.uint .w8) ∧ (Ty.uint .w8).noIface = true ∧
      (∀ (index : BitVec 32) (block : Val), (if index = 0 then some ((serializedBlockTy (.uint .w8)).zero.set [0, 0] (.uint 2))
          else if index = 1 then some ((serializedBlockTy (.uint .w8)).zero.set [0, 2] (.uint 1))
          else none) = some block →
        typed (serializedBlockTy (.uint .w8)) block = true ∧ fits (serializedBlockTy (.uint .w8)) block = true) ∧
      201 ≤ 2 ^ 31 - 1 ∧
      (∀ (index : BitVec 32) (block : Val), (if index = 0 then some ((serializedBlockTy (.uint .w8)).zero.set [0, 0] (.uint 2))
          else if index = 1 then some ((serializedBlockTy (.uint .w8)).zero.set [0, 2] (.uint 1))
          else none) = some block →
        slicesWithin (2 ^ 31 - 1) (serializedBlockTy (.uint .w8)) block = true) ∧
      (blockRange 0 1).2.1.toNat + 1 < 2 ^ 32 ∧
      ∃ payload out,
        Settles (startBlocksDownloading (fun _ => uint32Codec) · 0 1) (.ok payload) ∧
        Settles (onGetBlocksRequest (fun _ => uint32Codec) (2 ^ 31 - 1) (.uint .w8)
            (fun index => if index = 0 then some ((serializedBlockTy (.uint .w8)).zero.set [0, 0] (.uint 2))
              else if index = 1 then some ((serializedBlockTy (.uint .w8)).zero.set [0, 2] (.uint 1))
              else none) · (some ⟨.success⟩) payload)
          (.ok (some ⟨.success⟩, .ok out)) ∧
        Settles (startBlocksDownloading.onSuccess (fun _ => uint32Codec) (2 ^ 31 - 1) (.uint .w8) ·
            ⟨[1], none, []⟩ (some ⟨.success⟩) out)
          (⟨[1], none, [.newBlock (serializedBlockTy (.uint .w8)).zero false,
            .newBlock ((serializedBlockTy (.uint .w8)).zero.set [0, 0] (.uint 2)) false,
            .newBlock ((serializedBlockTy (.uint .w8)).zero.set [0, 2] (.uint 1)) false,
            .downloadingDone]⟩, .ok none) := by
  have hblocks : ∀ index block,
      (if index = (0 : BitVec 32) then some ((serializedBlockTy (.uint .w8)).zero.set [0, 0] (.uint 2))
          else if index = 1 then some ((serializedBlockTy (.uint .w8)).zero.set [0, 2] (.uint 1))
          else none) = some block →
        typed (serializedBlockTy (.uint .w8)) block = true ∧ fits (serializedBlockTy (.uint .w8)) block = true := by
    intro index block h
    split_ifs at h <;> cases h <;> exact ⟨rfl, rfl⟩
  have hm : ∀ index block,
      (if index = (0 : BitVec 32) then some ((serializedBlockTy (.uint .w8)).zero.set [0, 0] (.uint 2))
          else if index = 1 then some ((serializedBlockTy (.uint .w8)).zero.set [0, 2] (.uint 1))
          else none) = some block →
        slicesWithin (2 ^ 31 - 1) (serializedBlockTy (.uint .w8)) block = true := by
    intro index block h
    split_ifs at h <;> cases h <;> rfl
  exact ⟨fun _ _ => ⟨_, rfl⟩, trivial, rfl, hblocks, by decide, hm, by decide,
    getBlocks_newBlockEvents (by exact fun _ _ => ⟨_, rfl⟩) (by trivial) (by rfl) hblocks (by decide) hm
      0 1 (by decide) ⟨[1], none, []⟩ ⟨.success⟩ ⟨.success⟩⟩

end Pasl.Network
