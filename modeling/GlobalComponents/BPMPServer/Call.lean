import GlobalComponents.Library.Window

/-! Calls to the BPMP through the server.

A response crosses three buffers: the one that the server hands to the driver, the memory shared
with the client, and the client's own. The client knows the size of the last one and copies past it.
-/

set_option autoImplicit false

namespace GlobalComponents.BPMPServer

open Library.Window

def einval : Int32 := 22

/-- What `tx2_bpmp_call` returns, and what it puts into the buffer for the response. -/
structure Reply where
  ret : Int32
  bytes : List UInt8

/-- The driver of the BPMP, the badges that the connection gives out, and the size of the server's
own buffer. -/
structure Platform where
  tx2BpmpCall : Int32 → List UInt8 → Nat → Reply
  enumerateBadge : Nat → UInt64
  msgMinSz : Nat

structure Server where
  buf : UInt64 → Nat → UInt8
  bpmpRxBuf : Nat → UInt8

/-- `bpmpserver_interface_data_t`, for the client with the given id. -/
structure InterfaceData where
  client : Nat
  sharedMemSize : Nat

structure Process where
  server : Server
  memory : Nat → UInt8
  log : List String

namespace Server

def writeBuf (s : Server) (badge : UInt64) (cells : List UInt8) : Server :=
  { s with buf := Function.update s.buf badge (store (s.buf badge) 0 cells) }

@[simp] theorem writeBuf_self (s : Server) (badge : UInt64) (cells : List UInt8) :
    (s.writeBuf badge cells).buf badge = store (s.buf badge) 0 cells := by
  simp [writeBuf]

@[simp] theorem writeBuf_bpmpRxBuf (s : Server) (badge : UInt64) (cells : List UInt8) :
    (s.writeBuf badge cells).bpmpRxBuf = s.bpmpRxBuf := rfl

theorem writeBuf_other (s : Server) {badge other : UInt64} (cells : List UInt8)
    (different : other ≠ badge) : (s.writeBuf badge cells).buf other = s.buf other := by
  simp [writeBuf, different]

end Server

def tooLarge : String := "Response received is larger than the buffer supplied"

def Process.logged (p : Process) (line : String) : Process := { p with log := p.log ++ [line] }

section
variable (platform : Platform)

/-- `bytes_rxd` is a null pointer or points to a count; the call leaves it as the second value. -/
def theBpmpCall (s : Server) (clientId : Nat) (mrq : Int32) (txSize : Nat)
    (bytesRxd : Option Nat) : Server × Option Nat × Int32 :=
  match bytesRxd with
  | none => (s, none, -einval)
  | some count =>
    let badge := platform.enumerateBadge clientId
    let reply := platform.tx2BpmpCall mrq (window (s.buf badge) 0 txSize) platform.msgMinSz
    let s := { s with bpmpRxBuf := store s.bpmpRxBuf 0 reply.bytes }
    -- the response is counted by the value of the call, and goes into the dataport
    if 0 ≤ reply.ret then
      let received := reply.ret.toInt.toNat
      (s.writeBuf badge (window s.bpmpRxBuf 0 received), some received, 0)
    else (s, some count, reply.ret)

def bpmpserverCallWrapper (data : InterfaceData) (p : Process) (mrq : Int32)
    (txMsg : Option Nat) (txSize : Nat) (rxMsg : Option Nat) (rxSize : Nat) : Process × Int32 :=
  match txMsg with
  | none => (p.logged "tx_msg is NULL!", -einval)
  | some txMsg =>
    if data.sharedMemSize ≤ txSize then (p.logged "Supplied buffer is too large!", -einval)
    else
      let badge := platform.enumerateBadge data.client
      let cleaned := p.server.writeBuf badge (List.replicate data.sharedMemSize 0)
      let asked := cleaned.writeBuf badge (window p.memory txMsg txSize)
      let (server, bytesReceived, ret) := theBpmpCall platform asked data.client mrq txSize (some 0)
      let p := { p with server }
      match rxMsg with
      | none => (p, ret)
      | some rxMsg =>
        if 0 ≤ ret then
          let received := bytesReceived.getD 0
          let p := if rxSize < received then p.logged tooLarge else p
          -- the warning has no else: the copy is made for either size
          let response := window (server.buf badge) 0 received
          ({ p with memory := store p.memory rxMsg response }, Int32.ofNat received)
        else (p, ret)

end

def reply (platform : Platform) (p : Process) (mrq : Int32) (txMsg txSize : Nat) : Reply :=
  platform.tx2BpmpCall mrq (window p.memory txMsg txSize) platform.msgMinSz

/-- The driver stays in the buffer that it is given, and counts what it puts there. -/
structure Reply.Fits (reply : Reply) (room : Nat) : Prop where
  within : reply.bytes.length ≤ room
  counted : 0 ≤ reply.ret → reply.ret.toInt = reply.bytes.length

theorem ofNat_count {count : Int32} (counts : 0 ≤ count) : Int32.ofNat count.toInt.toNat = count := by
  have positive : 0 ≤ count.toInt := Int32.le_iff_toInt_le.mp counts
  apply Int32.toInt_inj.mp
  rw [← Int32.ofInt_eq_ofNat, Int.toNat_of_nonneg positive, Int32.ofInt_toInt]

namespace Server

theorem writeBuf_request (s : Server) (badge : UInt64) (request : List UInt8) :
    window ((s.writeBuf badge request).buf badge) 0 request.length = request := by
  rw [writeBuf_self, window_store]

theorem writeBuf_outside (s : Server) {badge other : UInt64} {cells : List UInt8} {address : Nat}
    (outside : other = badge → cells.length ≤ address) :
    (s.writeBuf badge cells).buf other address = s.buf other address := by
  by_cases same : other = badge
  · have beyond := outside same
    subst same
    rw [writeBuf_self, store_of_outside _ (.inr (by omega))]
  · rw [writeBuf_other s cells same]

end Server

section
variable {platform : Platform} {s : Server} {clientId : Nat} {mrq : Int32} {txSize : Nat}
  {answer : Reply}

theorem theBpmpCall_failed (count : Nat)
    (answered : platform.tx2BpmpCall mrq (window (s.buf (platform.enumerateBadge clientId)) 0 txSize)
      platform.msgMinSz = answer) (failed : ¬0 ≤ answer.ret) :
    theBpmpCall platform s clientId mrq txSize (some count) =
      ({ s with bpmpRxBuf := store s.bpmpRxBuf 0 answer.bytes }, some count, answer.ret) := by
  simp only [theBpmpCall, answered, if_neg failed]

theorem theBpmpCall_succeeded (count : Nat)
    (answered : platform.tx2BpmpCall mrq (window (s.buf (platform.enumerateBadge clientId)) 0 txSize)
      platform.msgMinSz = answer) (fits : answer.Fits platform.msgMinSz) (success : 0 ≤ answer.ret) :
    theBpmpCall platform s clientId mrq txSize (some count) =
      ({ s with bpmpRxBuf := store s.bpmpRxBuf 0 answer.bytes }.writeBuf
        (platform.enumerateBadge clientId) answer.bytes, some answer.bytes.length, 0) := by
  have received : answer.ret.toInt.toNat = answer.bytes.length := by
    rw [fits.counted success, Int.toNat_natCast]
  simp only [theBpmpCall, answered, if_pos success, received, window_store]

theorem theBpmpCall_outside (count : Nat)
    (answered : platform.tx2BpmpCall mrq (window (s.buf (platform.enumerateBadge clientId)) 0 txSize)
      platform.msgMinSz = answer) (fits : answer.Fits platform.msgMinSz) {badge : UInt64}
    {address : Nat} (outside : badge = platform.enumerateBadge clientId →
      platform.msgMinSz ≤ address) :
    (theBpmpCall platform s clientId mrq txSize (some count)).1.buf badge address =
      s.buf badge address := by
  by_cases success : 0 ≤ answer.ret
  · rw [theBpmpCall_succeeded count answered fits success]
    exact Server.writeBuf_outside _ fun own => Nat.le_trans fits.within (outside own)
  · rw [theBpmpCall_failed count answered success]

end

section
variable {platform : Platform} {data : InterfaceData} {p : Process} {mrq : Int32}
  {txMsg txSize : Nat} (rxMsg rxSize : Nat)

theorem asked_reply (cleaned : Server) (badge : UInt64) :
    platform.tx2BpmpCall mrq
      (window ((cleaned.writeBuf badge (window p.memory txMsg txSize)).buf badge) 0 txSize)
      platform.msgMinSz = reply platform p mrq txMsg txSize := by
  have request := cleaned.writeBuf_request badge (window p.memory txMsg txSize)
  rw [window_length] at request
  rw [request, reply]

theorem wrapper_failed (within : txSize < data.sharedMemSize)
    (failed : ¬0 ≤ (reply platform p mrq txMsg txSize).ret) :
    let after := bpmpserverCallWrapper platform data p mrq (some txMsg) txSize (some rxMsg) rxSize
    after.1.memory = p.memory ∧ after.2 = (reply platform p mrq txMsg txSize).ret := by
  simp only [bpmpserverCallWrapper, if_neg (Nat.not_le.mpr within)]
  rw [theBpmpCall_failed 0 (asked_reply _ _) failed]
  simp only [if_neg failed, and_self]

theorem wrapper_succeeded (within : txSize < data.sharedMemSize)
    (fits : (reply platform p mrq txMsg txSize).Fits platform.msgMinSz)
    (success : 0 ≤ (reply platform p mrq txMsg txSize).ret) :
    let answer := reply platform p mrq txMsg txSize
    let after := bpmpserverCallWrapper platform data p mrq (some txMsg) txSize (some rxMsg) rxSize
    after.1.memory = store p.memory rxMsg answer.bytes ∧ after.2 = answer.ret ∧
      after.1.log = if rxSize < answer.bytes.length then p.log ++ [tooLarge] else p.log := by
  simp only [bpmpserverCallWrapper, if_neg (Nat.not_le.mpr within)]
  rw [theBpmpCall_succeeded 0 (asked_reply _ _) fits success]
  have count : Int32.ofNat (reply platform p mrq txMsg txSize).bytes.length =
      (reply platform p mrq txMsg txSize).ret := by
    rw [← Int.toNat_natCast (List.length _), ← fits.counted success, ofNat_count success]
  simp only [Option.getD_some, Int32.le_refl, if_true, Server.writeBuf_request, count, true_and]
  split
  · exact ⟨rfl, rfl⟩
  · exact ⟨rfl, rfl⟩

/-- Every access to the shared memory is inside of it, and only the caller's own is used. -/
theorem wrapper_shared (within : txSize < data.sharedMemSize)
    (room : platform.msgMinSz ≤ data.sharedMemSize)
    (fits : (reply platform p mrq txMsg txSize).Fits platform.msgMinSz) {badge : UInt64}
    {address : Nat} (outside : badge = platform.enumerateBadge data.client →
      data.sharedMemSize ≤ address) :
    let after := bpmpserverCallWrapper platform data p mrq (some txMsg) txSize (some rxMsg) rxSize
    after.1.server.buf badge address = p.server.buf badge address := by
  -- three writes to the dataport of the caller, each of them inside of it
  let cleaned := p.server.writeBuf (platform.enumerateBadge data.client)
    (List.replicate data.sharedMemSize 0)
  let asked := cleaned.writeBuf (platform.enumerateBadge data.client) (window p.memory txMsg txSize)
  have zeroed : cleaned.buf badge address = p.server.buf badge address := by
    apply Server.writeBuf_outside
    intro own
    rw [List.length_replicate]
    exact outside own
  have copied : asked.buf badge address = cleaned.buf badge address := by
    apply Server.writeBuf_outside
    intro own
    rw [window_length]
    exact Nat.le_trans (Nat.le_of_lt within) (outside own)
  have called : (theBpmpCall platform asked data.client mrq txSize (some 0)).1.buf badge address =
      asked.buf badge address :=
    theBpmpCall_outside 0 (asked_reply cleaned _) fits fun own => Nat.le_trans room (outside own)
  rw [← zeroed, ← copied, ← called]
  simp only [bpmpserverCallWrapper, if_neg (Nat.not_le.mpr within)]
  split
  · split
    · rfl
    · rfl
  · rfl

end

/-- What the caller of `bpmpserver_call_wrapper` may expect of its buffer and of the value. -/
structure Agrees (answer : Reply) (rxMsg rxSize : Nat) (before after : Nat → UInt8) (ret : Int32) :
    Prop where
  failed : answer.ret < 0 → ret = answer.ret
  received : 0 ≤ answer.ret →
    window after rxMsg (min answer.bytes.length rxSize) = answer.bytes.take rxSize
  counted : 0 ≤ answer.ret → answer.bytes.length ≤ rxSize → ret.toInt = answer.bytes.length
  beyond : ∀ i, rxSize ≤ i → after (rxMsg + i) = before (rxMsg + i)

/-- The bytes of the response that the buffer has no room for are in the memory behind it. -/
def ExcessThere (answer : Reply) (rxMsg rxSize : Nat) (memory : Nat → UInt8) : Prop :=
  answer.bytes.drop rxSize = window memory (rxMsg + rxSize) (answer.bytes.length - rxSize)

theorem excessThere_of_fits {answer : Reply} {rxMsg rxSize : Nat} {memory : Nat → UInt8}
    (fits : answer.bytes.length ≤ rxSize) : ExcessThere answer rxMsg rxSize memory := by
  rw [ExcessThere, List.drop_eq_nil_of_le fits, Nat.sub_eq_zero_of_le fits, window_zero]

/-- The call agrees with a direct one exactly when it fails or the excess changes nothing, so in
particular when the response fits. -/
theorem wrapper_agrees_iff (platform : Platform) (data : InterfaceData) (p : Process) (mrq : Int32)
    (txMsg txSize rxMsg rxSize : Nat) (within : txSize < data.sharedMemSize)
    (fits : (reply platform p mrq txMsg txSize).Fits platform.msgMinSz) :
    let answer := reply platform p mrq txMsg txSize
    let after := bpmpserverCallWrapper platform data p mrq (some txMsg) txSize (some rxMsg) rxSize
    (Agrees answer rxMsg rxSize p.memory after.1.memory after.2 ↔
      answer.ret < 0 ∨ ExcessThere answer rxMsg rxSize p.memory) ∧
    (answer.ret < 0 ∨ answer.bytes.length ≤ rxSize →
      Agrees answer rxMsg rxSize p.memory after.1.memory after.2) := by
  intro answer after
  suffices agrees_iff : Agrees answer rxMsg rxSize p.memory after.1.memory after.2 ↔
      answer.ret < 0 ∨ ExcessThere answer rxMsg rxSize p.memory from
    ⟨agrees_iff, fun fits => agrees_iff.mpr (fits.imp_right excessThere_of_fits)⟩
  -- on failure nothing is copied, so only a success can reach beyond the buffer
  by_cases success : 0 ≤ answer.ret
  · obtain ⟨memory, ret, -⟩ := wrapper_succeeded rxMsg rxSize within fits success
    have notFailed : ¬answer.ret < 0 := Int32.not_lt.mpr success
    constructor
    · intro agrees
      have beyond := agrees.beyond
      rw [show after.1.memory = _ from memory] at beyond
      exact .inr ((store_beyond_iff _ _ _ _).mp beyond)
    · rintro (failed | excess)
      · exact absurd failed notFailed
      · refine ⟨fun failed => absurd failed notFailed, fun _ => ?_, fun _ _ => ?_, ?_⟩
        · rw [show after.1.memory = _ from memory, ← window_take _ _ (Nat.min_le_left _ _),
            window_store, Nat.min_comm, ← List.take_eq_take_min]
        · rw [show after.2 = _ from ret, fits.counted success]
        · rw [show after.1.memory = _ from memory]
          exact (store_beyond_iff _ _ _ _).mpr excess
  · obtain ⟨memory, ret⟩ := wrapper_failed rxMsg rxSize within success
    have failed : answer.ret < 0 := Int32.not_le.mp success
    refine ⟨fun _ => .inl failed, fun _ => ?_⟩
    refine ⟨fun _ => ret, fun received => absurd received success,
      fun received => absurd received success, fun i _ => ?_⟩
    exact congrFun memory (rxMsg + i)

def answering (bytes : List UInt8) : Platform where
  tx2BpmpCall _ _ _ := { ret := Int32.ofNat bytes.length, bytes }
  enumerateBadge := UInt64.ofNat
  msgMinSz := 8

def unused : Process where
  server := { buf := fun _ _ => 0, bpmpRxBuf := fun _ => 0 }
  memory _ := 0
  log := []

def sixteenBytes : InterfaceData := { client := 1, sharedMemSize := 16 }

theorem wrapper_agrees_iff_two :
    let after := bpmpserverCallWrapper (answering [7, 8]) sixteenBytes unused 3
      (some 0) 1 (some 4) 2
    Agrees (reply (answering [7, 8]) unused 3 0 1) 4 2 unused.memory after.1.memory after.2 :=
  (wrapper_agrees_iff (answering [7, 8]) sixteenBytes unused 3 0 1 4 2 (by decide)
    ⟨by decide, by decide⟩).2 (.inr (by decide))

/-- A response of four bytes fills the two bytes behind a buffer of two. -/
theorem response_overruns :
    let after := bpmpserverCallWrapper (answering [7, 8, 9, 10]) sixteenBytes unused 3
      (some 0) 1 (some 4) 2
    ¬Agrees (reply (answering [7, 8, 9, 10]) unused 3 0 1) 4 2 unused.memory
      after.1.memory after.2 := by
  intro after agrees
  exact absurd (agrees.beyond 2 (Nat.le_refl 2)) (by decide)

end GlobalComponents.BPMPServer
