import GlobalComponents.Library.Run
import GlobalComponents.PicoServer.Client

/-! The PicoTCP server: its RPC interfaces, the callback of the stack and the queues of asynchronous
messages, as `server.c` has them.

The stack, the heap and the virtqueues answer through the events. `short_be` and the addresses that
the synchronous calls pass on are left out; so are log messages.
-/

set_option autoImplicit false

namespace GlobalComponents.PicoServer

open Library

/-- `(size_t)` of an `int`. -/
def sizeT (x : Int32) : UInt64 := x.toInt64.toUInt64

/-- What a stack function returns; `bytes` is what it stores in the buffer when it receives. -/
structure Answer where
  ret : Int32
  bytes : List UInt8
  srcAddr : UInt32
  remotePort : UInt16

/-- `<interface>_get_sender_id`; `none` is `-1`. -/
def getSenderId (badges : List UInt64) (badge : UInt64) : Option Nat := badges.idxOf? badge

def enumerateBadge (badges : List UInt64) (i : Nat) : UInt64 := (badges[i]?).getD (-1)

def clientCheck (config : Config) (s : Server) : Except Fault Nat :=
  match getSenderId config.controlBadges s.controlBadge with
  | none => .error (.logf "Client ID is greater than the number of clients registered!")
  | some clientId =>
    if config.numClients ≤ clientId then
      .error (.logf "Client ID is greater than the number of clients registered!")
    else .ok clientId

/-- `none` is `-1`. -/
def serverControlCommon (s : Server) (clientId : Nat) (socketFd : Int32) : Option Ptr :=
  if socketFd < 0 then none else clientGetSocket s clientId socketFd

def serverCommunicationCommon (s : Server) (clientId : Nat) (socketFd len bufferOffset : Int32)
    (bufferSize : UInt64) : Option Ptr :=
  if socketFd < 0 ∨ len < 0 ∨ bufferOffset < 0 then none
  else if sizeT (bufferOffset + len) > bufferSize then none
  else clientGetSocket s clientId socketFd

namespace Server

def queue (s : Server) : Dir → Virtqueue
  | .tx => s.tx
  | .rx => s.rx

def setQueue (s : Server) (dir : Dir) (queue : Virtqueue) : Server :=
  match dir with
  | .tx => { s with tx := queue }
  | .rx => { s with rx := queue }

def dequeue (s : Server) (dir : Dir) : Server :=
  s.setQueue dir { s.queue dir with available := (s.queue dir).available.tail }

def setMsg (s : Server) (msg : Ptr) (content : Msg) : Server :=
  { s with msgs := Function.update s.msgs msg content }

@[simp] theorem queue_setQueue (s : Server) (dir : Dir) (queue : Virtqueue) :
    (s.setQueue dir queue).queue dir = queue := by
  cases dir <;> rfl

theorem queue_setQueue_of_ne (s : Server) {dir other : Dir} (different : other ≠ dir)
    (queue : Virtqueue) : (s.setQueue dir queue).queue other = s.queue other := by
  cases dir <;> cases other <;> first | rfl | exact absurd rfl different

@[simp] theorem queue_note (s : Server) (action : Action) (dir : Dir) :
    (s.note action).queue dir = s.queue dir := by
  cases dir <;> rfl

@[simp] theorem queue_setMsg (s : Server) (msg : Ptr) (content : Msg) (dir : Dir) :
    (s.setMsg msg content).queue dir = s.queue dir := by
  cases dir <;> rfl

@[simp] theorem queue_setRecord (s : Server) (record : Ptr) (socket : Socket) (dir : Dir) :
    (s.setRecord record socket).queue dir = s.queue dir := by
  cases dir <;> rfl

@[simp] theorem records_setQueue (s : Server) (dir : Dir) (queue : Virtqueue) :
    (s.setQueue dir queue).records = s.records := by
  cases dir <;> rfl

@[simp] theorem msgs_setQueue (s : Server) (dir : Dir) (queue : Virtqueue) :
    (s.setQueue dir queue).msgs = s.msgs := by
  cases dir <;> rfl

@[simp] theorem journal_setQueue (s : Server) (dir : Dir) (queue : Virtqueue) :
    (s.setQueue dir queue).journal = s.journal := by
  cases dir <;> rfl

end Server

def Async.pending (async : Async) : Dir → Pending
  | .tx => async.tx
  | .rx => async.rx

def Async.setPending (async : Async) (dir : Dir) (pending : Pending) : Async :=
  match dir with
  | .tx => { async with tx := pending }
  | .rx => { async with rx := pending }

/-- `virtqueue_add_used_buf`; `none` when the used ring is full. -/
def Virtqueue.addUsed (queue : Virtqueue) (ringSize : Nat) (handle : UInt32) (len : UInt64) :
    Option Virtqueue :=
  if queue.used.length < ringSize then
    some { queue with
      used := queue.used ++ [(handle, len)]
      lent := queue.lent.eraseP fun entry => entry.1 = handle }
  else none

/-- `tx_complete` and `rx_complete`. `record` and `msg` are only for the journal. -/
def complete (config : Config) (dir : Dir) (s : Server) (record : Option Ptr) (msg : Ptr)
    (cookie : UInt32) (len : UInt64) : Server :=
  let s := { s with emitClientAsync := true }
  match (s.queue dir).addUsed config.ringSize cookie len with
  | some queue => (s.setQueue dir queue).note (.completed dir record cookie len (s.msgs msg))
  | none => s

/-- `..pending_queue = msg->next`, and `..pending_queue_end = NULL` if that was the last message. -/
def Pending.pop (pending : Pending) (msg : Ptr) (next : Option Ptr) : Pending where
  queue := next
  queueEnd := if pending.queueEnd = some msg then none else pending.queueEnd

def popComplete (config : Config) (dir : Dir) (s : Server) (record : Ptr) (socket : Socket)
    (async : Async) (msg : Ptr) (doneLen len : UInt64) : Server :=
  let content := s.msgs msg
  let s := s.setMsg msg { content with doneLen }
  let s := s.setRecord record { socket with
    asyncTransport := some (async.setPending dir ((async.pending dir).pop msg content.next)) }
  complete config dir s (some record) msg content.cookieSave len

/-- The stack may return `-1` or at most what it is asked for; what it receives it stores. -/
def Answer.fits (answer : Answer) (dir : Dir) (requested : UInt64) : Bool :=
  answer.ret = -1 ∨
    (0 ≤ answer.ret ∧ sizeT answer.ret ≤ requested ∧
      (dir = .rx → answer.bytes.length = (sizeT answer.ret).toNat))

def Msg.slice (content : Msg) (offset : UInt64) (len : Nat) : List UInt8 :=
  (List.range len).map fun i => content.buf (offset.toNat + i)

def Msg.store (content : Msg) (offset : UInt64) (bytes : List UInt8) : Msg :=
  { content with
    buf := fun i =>
      if offset.toNat ≤ i then (bytes[i - offset.toNat]?).getD (content.buf i) else content.buf i }

/-- The stack takes bytes of `msg->buf` from `offset` on, or stores bytes there; `recvfrom` also stores
the peer. -/
def transfer (dir : Dir) (s : Server) (protocol : Protocol) (record msg : Ptr) (offset : UInt64)
    (answer : Answer) : Server :=
  match dir with
  | .tx => s.note (.moved .tx record msg offset
      ((s.msgs msg).slice offset (sizeT answer.ret).toNat))
  | .rx =>
    let content := (s.msgs msg).store offset answer.bytes
    let content :=
      match protocol with
      | .udp => { content with srcAddr := answer.srcAddr, remotePort := answer.remotePort }
      | .tcp => content
    (s.setMsg msg content).note (.moved .rx record msg offset answer.bytes)

/-- `pico_socket_send` or `pico_socket_sendto` with `requested` bytes, `pico_socket_recv` or
`pico_socket_recvfrom` with room for as many. -/
def stack (dir : Dir) (s : Server) (protocol : Protocol) (record msg : Ptr)
    (offset requested : UInt64) (answer : Answer) : Except Fault Server :=
  if answer.fits dir requested then
    .ok (if answer.ret = -1 then s else transfer dir s protocol record msg offset answer)
  else .error .answer

/-- One iteration of the loop of `tx_socket`, and whether it goes on. -/
def txSocketIteration (config : Config) (s : Server) (record : Ptr) (socket : Socket)
    (async : Async) (msg : Ptr) (answer : Answer) : Except Fault (Server × Bool) := do
  let content := s.msgs msg
  let requested := content.totalLen - content.doneLen
  let s ← stack .tx s socket.protocol record msg content.doneLen requested answer
  -- `continue`: the next message that waits is tried
  if answer.ret = -1 then
    return (popComplete config .tx s record socket async msg (-1) 0, true)
  -- the stack has no room for more, so the message waits for the next event
  if sizeT answer.ret < requested then
    return (s.setMsg msg { content with doneLen := content.doneLen + sizeT answer.ret }, false)
  return (popComplete config .tx s record socket async msg content.totalLen content.totalLen, true)

/-- One iteration of the loop of `rx_socket`, and whether it goes on. -/
def rxSocketIteration (config : Config) (s : Server) (record : Ptr) (socket : Socket)
    (async : Async) (msg : Ptr) (answer : Answer) : Except Fault (Server × Bool) := do
  let content := s.msgs msg
  let requested := content.totalLen - content.doneLen
  let s ← stack .rx s socket.protocol record msg content.doneLen requested answer
  if answer.ret = -1 then
    -- unlike `tx_socket` the loop ends here
    return (popComplete config .rx s record socket async msg (-1) 0, false)
  let doneLen := content.doneLen + sizeT answer.ret
  if (socket.protocol = .tcp ∧ sizeT answer.ret < requested) ∨
      (socket.protocol = .udp ∧ answer.ret = 0) then
    return (s.setMsg msg { s.msgs msg with doneLen }, false)
  -- the length that is reported is that of the buffer
  return (popComplete config .rx s record socket async msg doneLen content.totalLen, true)

def socketIteration (config : Config) : Dir → Server → Ptr → Socket → Async → Ptr → Answer →
    Except Fault (Server × Bool)
  | .tx => txSocketIteration config
  | .rx => rxSocketIteration config

def socketHead (s : Server) (dir : Dir) (record : Ptr) :
    Except Fault (Option (Socket × Async × Ptr)) := do
  let socket ← s.deref record
  match socket.asyncTransport with
  | none => .error .null
  | some async =>
    match (async.pending dir).queue with
    | none => .ok none
    | some msg => do
      zfLogfIf ((async.pending dir).queueEnd = none) "Inconsistent queue state"
      return some (socket, async, msg)

/-- The loop of `tx_socket` and `rx_socket`. It takes one answer for each iteration and leaves the
rest. -/
def socketLoop (config : Config) (dir : Dir) (record : Ptr) :
    List Answer → Server → Except Fault (Server × List Answer)
  | [], s => do
    match ← socketHead s dir record with
    | none => .ok (s, [])
    | some _ => .error .answer
  | answer :: answers, s => do
    match ← socketHead s dir record with
    | none => .ok (s, answer :: answers)
    | some (socket, async, msg) => do
      let (s, more) ← socketIteration config dir s record socket async msg answer
      if more then socketLoop config dir record answers s else return (s, answers)

def serveSocket (config : Config) (dir : Dir) (s : Server) (record : Ptr) (answers : List Answer) :
    Except Fault (Server × List Answer) := do
  let socket ← s.deref record
  if socket.socket = 0 ∨ socket.asyncTransport = none then return (s, answers)
  socketLoop config dir record answers s

def txSocket (config : Config) := serveSocket config .tx
def rxSocket (config : Config) := serveSocket config .rx

/-- A dequeued message that no asynchronous socket takes goes back at once. -/
def refuse (config : Config) (dir : Dir) (s : Server) (handle : UInt32) (msg : Ptr) : Server :=
  let content := s.msgs msg
  let s := s.note (.took dir none handle msg content)
  complete config dir (s.setMsg msg { content with doneLen := -1 }) none msg handle 0

def append (dir : Dir) (s : Server) (record : Ptr) (socket : Socket) (async : Async)
    (handle : UInt32) (msg queueEnd : Ptr) : Server :=
  let s := s.setMsg queueEnd { s.msgs queueEnd with next := some msg }
  let s := s.setRecord record { socket with
    asyncTransport :=
      some (async.setPending dir { async.pending dir with queueEnd := some msg }) }
  s.setMsg msg { s.msgs msg with next := none, cookieSave := handle }

/-- A message that is served in part waits alone. -/
def park (dir : Dir) (s : Server) (record : Ptr) (socket : Socket) (async : Async)
    (handle : UInt32) (msg : Ptr) (doneLen : UInt64) : Server :=
  let s := s.setMsg msg { s.msgs msg with doneLen, cookieSave := handle, next := none }
  s.setRecord record { socket with
    asyncTransport := some (async.setPending dir ⟨some msg, some msg⟩) }

def finish (config : Config) (dir : Dir) (s : Server) (record : Ptr) (handle : UInt32) (msg : Ptr)
    (doneLen len : UInt64) : Server :=
  complete config dir (s.setMsg msg { s.msgs msg with doneLen }) (some record) msg handle len

/-- The last part of an iteration of `tx_queue_handle`: nothing waits, the message is served at
once. -/
def txDirect (config : Config) (s : Server) (record : Ptr) (socket : Socket) (async : Async)
    (handle : UInt32) (msg : Ptr) (answer : Answer) : Except Fault Server := do
  let totalLen := (s.msgs msg).totalLen
  let s ← stack .tx s socket.protocol record msg 0 totalLen answer
  if answer.ret = -1 then return finish config .tx s record handle msg (-1) 0
  if sizeT answer.ret < totalLen then
    return park .tx s record socket async handle msg (sizeT answer.ret)
  return finish config .tx s record handle msg totalLen totalLen

def rxDirect (config : Config) (s : Server) (record : Ptr) (socket : Socket) (async : Async)
    (handle : UInt32) (msg : Ptr) (answer : Answer) : Except Fault Server := do
  let totalLen := (s.msgs msg).totalLen
  let s ← stack .rx s socket.protocol record msg 0 totalLen answer
  if answer.ret = -1 then return finish config .rx s record handle msg (-1) 0
  if (socket.protocol = .tcp ∧ sizeT answer.ret < totalLen) ∨
      (socket.protocol = .udp ∧ answer.ret = 0) then
    return park .rx s record socket async handle msg (sizeT answer.ret)
  return finish config .rx s record handle msg (sizeT answer.ret) (sizeT answer.ret)

def direct (config : Config) : Dir → Server → Ptr → Socket → Async → UInt32 → Ptr → Answer →
    Except Fault Server
  | .tx => txDirect config
  | .rx => rxDirect config

def badMsgLen : Dir → String
  | .tx => "bad msg len in tx"
  | .rx => "bad msg len in rx"

/-- A dequeued message and the asynchronous socket it is for: it waits behind others, or it is served
at once. -/
def deliver (config : Config) (dir : Dir) (s : Server) (record : Ptr) (socket : Socket)
    (async : Async) (handle : UInt32) (msg : Ptr) (answers : List Answer) :
    Except Fault (Server × List Answer) :=
  let s := s.note (.took dir (some record) handle msg (s.msgs msg))
  -- a message never overtakes those that wait
  if (async.pending dir).queue ≠ none then
    match (async.pending dir).queueEnd with
    | none => .error (.logf "Inconsistent queue state")
    | some queueEnd => .ok (append dir s record socket async handle msg queueEnd, answers)
  else
    match answers with
    | [] => .error .answer
    | answer :: answers => do
      return (← direct config dir s record socket async handle msg answer, answers)

/-- One iteration of the loop of `tx_queue_handle` and `rx_queue_handle`: the first available
descriptor is dequeued. -/
def queueIteration (config : Config) (dir : Dir) (state : Server × List Answer)
    (entry : UInt32 × Ptr) : Except Fault (Server × List Answer) := do
  let (s, answers) := state
  let (handle, msg) := entry
  let s := s.dequeue dir
  zfLogfIf (msg = 0) "msg is null"
  zfLogfIf ((s.msgs msg).totalLen > 1400 ∨ (s.msgs msg).totalLen = 0) (badMsgLen dir)
  -- the client of a message is not looked at: all sockets are those of client 0
  match clientGetSocket s 0 (s.msgs msg).socketFd with
  | none => .ok (refuse config dir s handle msg, answers)
  | some record => do
    let socket ← s.deref record
    if socket.socket = 0 then .ok (refuse config dir s handle msg, answers)
    else match socket.asyncTransport with
      | none => .ok (refuse config dir s handle msg, answers)
      | some async => deliver config dir s record socket async handle msg answers

def queueHandle (config : Config) (dir : Dir) (s : Server) (answers : List Answer) :
    Except Fault (Server × List Answer) :=
  (s.queue dir).available.foldlM (queueIteration config dir) (s, answers)

def txQueueHandle (config : Config) := queueHandle config .tx
def rxQueueHandle (config : Config) := queueHandle config .rx

def picoSockEvRd : UInt16 := 1
def picoSockEvWr : UInt16 := 2

/-- `socket_cb` serves one of the two queues when the event has this bit, and takes the bit away. -/
def serveEvent (config : Config) (dir : Dir) (bit : UInt16) (s : Server) (record : Ptr)
    (ev : UInt16) (answers : List Answer) : Except Fault (Server × UInt16 × List Answer) :=
  if ev &&& bit ≠ 0 then do
    let (s, answers) ← queueHandle config dir s answers
    let (s, answers) ← serveSocket config dir s record answers
    return (s, ev &&& ~~~bit, answers)
  else .ok (s, ev, answers)

def serveAsync (config : Config) (s : Server) (record : Ptr) (ev : UInt16)
    (answers : List Answer) : Except Fault (Server × UInt16) := do
  let (s, ev, answers) ← serveEvent config .rx picoSockEvRd s record ev answers
  let (s, ev, _) ← serveEvent config .tx picoSockEvWr s record ev answers
  return (s, ev)

def reportEvent (s : Server) (clientSocket : Socket) (ev : UInt16) (memory : Bool) :
    Except Fault Server := do
  -- the bits that the queues have handled are gone
  if ev = 0 then return s
  let (s, ret) ← clientPutEvent s clientSocket.clientId clientSocket.socketFd ev memory
  zfLogfIf (ret = -1) "Failed to set the event flags for client's socket"
  return { s with emitClient := true }

def socketCb (config : Config) (s : Server) (ev : UInt16) (socket : Ptr) (answers : List Answer)
    (memory : Bool) : Except Fault Server :=
  match clientGetSocketByAddr s socket with
  -- PicoTCP also calls back for sockets that were never registered
  | none => if socket ≠ 0 then .ok s else .error .null
  | some record => do
    let clientSocket ← s.deref record
    if clientSocket.asyncTransport ≠ none then do
      let (s, ev) ← serveAsync config s record ev answers
      reportEvent s clientSocket ev memory
    else reportEvent s clientSocket ev memory

inductive Reply where
  | int (ret : Int32)
  /-- `picoserver_peer_t` -/
  | peer (result socket : Int32) (peerAddr : UInt32) (peerPort : UInt16)
  | event (event : SocketEvent)
  | address (ret : Int32) (addr : UInt32)
  | none
  deriving DecidableEq

/-- The last part of `pico_control_open` and `pico_control_accept`: a new record is registered. -/
def putNewSocket (config : Config) (s : Server) (clientId : Nat) (record socket : Ptr)
    (protocol : Protocol) (memory : Bool × Bool) : Except Fault (Server × Int32) := do
  let s := (s.setRecord record ⟨protocol, clientId, 0, socket, 0, none⟩).note
    (.born record protocol)
  let (s, ret) ← clientPutSocket config s clientId record memory
  if ret = -1 then return (s.free record, -1)
  let new ← s.deref record
  return (s.setRecord record { new with socketFd := ret }, ret)

/-- `record` is what `calloc` returns and `socket` what `pico_socket_open` returns. -/
def picoControlOpen (config : Config) (s : Server) (isUdp : Bool) (record : Option Ptr)
    (socket : Ptr) (memory : Bool × Bool) : Except Fault (Server × Reply) := do
  let clientId ← clientCheck config s
  match record with
  | none => .ok (s, .int (-1))
  | some record => do
    if socket = 0 then return (s, .int (-1))
    let (s, ret) ←
      putNewSocket config s clientId record socket (if isUdp then .udp else .tcp) memory
    return (s, .int ret)

def picoControlAccept (config : Config) (s : Server) (socketFd : Int32) (socket : Ptr)
    (peerAddr : UInt32) (remotePort : UInt16) (record : Option Ptr) (memory : Bool × Bool) :
    Except Fault (Server × Reply) := do
  let clientId ← clientCheck config s
  match serverControlCommon s clientId socketFd with
  | none => .ok (s, .peer (-1) 0 0 0)
  | some clientSocket => do
    -- the record is read before the stack is asked
    let _ ← s.deref clientSocket
    if socket = 0 then return (s, .peer (-1) 0 0 0)
    match record with
    | none => .ok (s, .peer (-1) 0 0 0)
    | some record => do
      let (s, ret) ← putNewSocket config s clientId record socket .tcp memory
      if ret = -1 then return (s, .peer (-1) 0 0 0)
      return (s, .peer 0 ret peerAddr remotePort)

/-- One of the two loops of `cleanup_async_socket`. No list has more nodes than there are addresses,
so a loop that takes longer goes on for ever. -/
def cleanupLoop (config : Config) (dir : Dir) (record : Ptr) :
    Nat → Server → Except Fault Server
  | 0, _ => .error .loops
  | fuel + 1, s => do
    match ← socketHead s dir record with
    | none => .ok s
    | some (socket, async, msg) =>
      cleanupLoop config dir record fuel (popComplete config dir s record socket async msg (-1) 0)

def cleanupAsyncSocket (config : Config) (s : Server) (record : Ptr) : Except Fault Server := do
  let socket ← s.deref record
  if socket.asyncTransport = none then return s
  let s ← cleanupLoop config .tx record (2 ^ 64 + 1) s
  let s ← cleanupLoop config .rx record (2 ^ 64 + 1) s
  let socket ← s.deref record
  return s.setRecord record { socket with asyncTransport := none }

def picoControlClose (config : Config) (s : Server) (socketFd : Int32) :
    Except Fault (Server × Reply) := do
  let clientId ← clientCheck config s
  match serverControlCommon s clientId socketFd with
  | none => .ok (s, .int (-1))
  | some clientSocket => do
    let s ← cleanupAsyncSocket config s clientSocket
    let (s, ret) ← clientDeleteSocket s clientId socketFd
    return (s, .int ret)

def picoControlSetAsync (config : Config) (s : Server) (socketFd : Int32) (enabled memory : Bool) :
    Except Fault (Server × Reply) := do
  let clientId ← clientCheck config s
  match serverControlCommon s clientId socketFd with
  | none => .ok (s, .int (-1))
  | some clientSocket => do
    let socket ← s.deref clientSocket
    if enabled ∧ socket.asyncTransport = none then
      if !memory then return (s, .int (-1))
      return (s.setRecord clientSocket { socket with
        asyncTransport := some ⟨⟨none, none⟩, ⟨none, none⟩⟩ }, .int 0)
    if !enabled ∧ socket.asyncTransport ≠ none then
      return (← cleanupAsyncSocket config s clientSocket, .int 0)
    return (s, .int 0)

def picoControlEventPoll (config : Config) (s : Server) : Except Fault (Server × Reply) := do
  let clientId ← clientCheck config s
  let (s, event) ← clientGetEvent s clientId
  return (s, .event event)

/-- `pico_control_bind`, `pico_control_connect`, `pico_control_listen` and `pico_control_shutdown`:
`ret` is what the stack returns for the client's socket. -/
def picoControlStack (config : Config) (s : Server) (socketFd ret : Int32) :
    Except Fault (Server × Reply) := do
  let clientId ← clientCheck config s
  match serverControlCommon s clientId socketFd with
  | none => .ok (s, .int (-1))
  | some clientSocket => do
    let _ ← s.deref clientSocket
    return (s, .int ret)

/-- `device` is the address of `eth0`, if there is such a device. -/
def picoControlGetIpv4 (s : Server) (device : Option UInt32) : Server × Reply :=
  match device with
  | none => (s, .int (-1))
  | some addr => (s, .address 0 addr)

/-- The send and receive operations, on the interface with these badges. `ret` is what the stack
returns. -/
def communicate (config : Config) (badges : List UInt64) (bufSize : UInt64 → UInt64)
    (call : StackCall) (s : Server) (issuer : Nat) (socketFd len bufferOffset ret : Int32) :
    Except Fault (Server × Reply) := do
  let clientId ← clientCheck config s
  let badge := enumerateBadge badges clientId
  let s := s.note (.identity issuer call clientId badge)
  match serverCommunicationCommon s clientId socketFd len bufferOffset (bufSize badge) with
  | none => .ok (s, .int (-1))
  | some clientSocket => do
    let socket ← s.deref clientSocket
    return (s.note (.window issuer call clientId socket.socket badge bufferOffset len), .int ret)

def picoSendWrite (config : Config) := communicate config config.sendBadges config.sendBufSize .write
def picoSendSend (config : Config) := communicate config config.sendBadges config.sendBufSize .send
def picoSendSendto (config : Config) :=
  communicate config config.sendBadges config.sendBufSize .sendto
def picoRecvRead (config : Config) := communicate config config.recvBadges config.recvBufSize .read
def picoRecvRecv (config : Config) := communicate config config.recvBadges config.recvBufSize .recv
def picoRecvRecvfrom (config : Config) :=
  communicate config config.recvBadges config.recvBufSize .recvfrom

def notifyClient (s : Server) : Server :=
  let s := if s.emitClient then { s.note (.emitControl 1) with emitClient := false } else s
  if s.emitClientAsync then { s.note .notifyTx with emitClientAsync := false } else s

inductive Control where
  | open (isUdp : Bool) (record : Option Ptr) (socket : Ptr) (memory : Bool × Bool)
  | accept (socketFd : Int32) (socket : Ptr) (peerAddr : UInt32) (remotePort : UInt16)
      (record : Option Ptr) (memory : Bool × Bool)
  | close (socketFd : Int32)
  | setAsync (socketFd : Int32) (enabled memory : Bool)
  | eventPoll
  /-- `bind`, `connect`, `listen` and `shutdown` -/
  | stack (socketFd ret : Int32)
  | getIpv4 (device : Option UInt32)

inductive Event where
  | control (client : Nat) (call : Control)
  /-- The send interface for `write`, `send` and `sendto`, the receive interface for the others. -/
  | communicate (client : Nat) (call : StackCall) (socketFd len bufferOffset ret : Int32)
  /-- The stack calls `socket_cb`. -/
  | callback (ev : UInt16) (socket : Ptr) (answers : List Answer) (memory : Bool)
  /-- An event for a client's socket. -/
  | putEvent (client : Nat) (socketFd : Int32) (ev : UInt16) (memory : Bool)
  /-- `tx_queue_handle_irq` -/
  | irq (answers : List Answer)
  | notify
  /-- The client fills in a message and makes it available. -/
  | submit (dir : Dir) (handle : UInt32) (msg : Ptr) (content : Msg)
  /-- The client takes the first entry of a used ring. -/
  | collect (dir : Dir)

def controlHandleMessage (config : Config) (s : Server) (client : Nat) (call : Control) :
    Except Fault (Server × Reply) :=
  let s := { s with controlBadge := enumerateBadge config.controlBadges client }
  match call with
  | .open isUdp record socket memory => picoControlOpen config s isUdp record socket memory
  | .accept socketFd socket peerAddr remotePort record memory =>
    picoControlAccept config s socketFd socket peerAddr remotePort record memory
  | .close socketFd => picoControlClose config s socketFd
  | .setAsync socketFd enabled memory => picoControlSetAsync config s socketFd enabled memory
  | .eventPoll => picoControlEventPoll config s
  | .stack socketFd ret => picoControlStack config s socketFd ret
  | .getIpv4 device => .ok (picoControlGetIpv4 s device)

def StackCall.sends : StackCall → Bool
  | .write | .send | .sendto => true
  | .read | .recv | .recvfrom => false

def communicateHandleMessage (config : Config) (s : Server) (client : Nat) (call : StackCall)
    (socketFd len bufferOffset ret : Int32) : Except Fault (Server × Reply) :=
  let s :=
    if call.sends then { s with sendBadge := enumerateBadge config.sendBadges client }
    else { s with recvBadge := enumerateBadge config.recvBadges client }
  match call with
  | .write => picoSendWrite config s client socketFd len bufferOffset ret
  | .send => picoSendSend config s client socketFd len bufferOffset ret
  | .sendto => picoSendSendto config s client socketFd len bufferOffset ret
  | .read => picoRecvRead config s client socketFd len bufferOffset ret
  | .recv => picoRecvRecv config s client socketFd len bufferOffset ret
  | .recvfrom => picoRecvRecvfrom config s client socketFd len bufferOffset ret

def Server.step (config : Config) (s : Server) : Event → Except Fault (Server × Reply)
  | .control client call => controlHandleMessage config s client call
  | .communicate client call socketFd len bufferOffset ret =>
    communicateHandleMessage config s client call socketFd len bufferOffset ret
  | .callback ev socket answers memory => do
    return (← socketCb config s ev socket answers memory, .none)
  | .putEvent client socketFd ev memory => do
    let (s, ret) ← clientPutEvent s client socketFd ev memory
    return (s, .int ret)
  | .irq answers => do
    let (s, answers) ← rxQueueHandle config s answers
    let (s, _) ← txQueueHandle config s answers
    return (s, .none)
  | .notify => return (notifyClient s, .none)
  | .submit dir handle msg content =>
    let queue := s.queue dir
    return ((s.setMsg msg content).setQueue dir { queue with
      available := queue.available ++ [(handle, msg)]
      lent := queue.lent ++ [(handle, msg)] }, .none)
  | .collect dir =>
    return (s.setQueue dir { s.queue dir with used := (s.queue dir).used.tail }, .none)

/-- After `picoserver_clients_init`. The messages are what the shared memory holds. -/
def Server.init (msgs : Ptr → Msg) : Server where
  controlBadge := 0
  sendBadge := 0
  recvBadge := 0
  clients := fun _ => .init
  socketAddrTable := .init
  records := fun _ => none
  msgs := msgs
  tx := ⟨[], [], []⟩
  rx := ⟨[], [], []⟩
  emitClient := false
  emitClientAsync := false
  journal := []

/-- RPCs come from the clients, and `calloc` returns memory that is free. -/
def Server.permits (config : Config) (s : Server) : Event → Prop
  | .control client call =>
    client < config.numClients ∧
      match call with
      | .open _ record _ _ | .accept _ _ _ _ record _ => ∀ p ∈ record, s.records p = none
      | _ => True
  | .communicate client _ _ _ _ _ | .putEvent client _ _ _ => client < config.numClients
  | _ => True

instance (config : Config) (s : Server) : (event : Event) → Decidable (s.permits config event)
  | .control client call =>
    match call with
    | .open _ record _ _ | .accept _ _ _ _ record _ =>
      have : Decidable (∀ p ∈ record, s.records p = none) := Option.decidableForallMem record
      inferInstanceAs (Decidable (client < config.numClients ∧ ∀ p ∈ record, s.records p = none))
    | .close _ | .setAsync _ _ _ | .eventPoll | .stack _ _ | .getIpv4 _ =>
      inferInstanceAs (Decidable (client < config.numClients ∧ True))
  | .communicate client _ _ _ _ _ | .putEvent client _ _ _ =>
    inferInstanceAs (Decidable (client < config.numClients))
  | .callback _ _ _ _ | .irq _ | .notify | .submit _ _ _ _ | .collect _ =>
    inferInstanceAs (Decidable True)

def machine (config : Config) : Machine Server Event Reply where
  allowed := Server.permits config
  step s event := (s.step config event).toOption

theorem machine_step {config : Config} {s after : Server} {event : Event} {reply : Reply} :
    (machine config).step s event = some (after, reply) ↔
      s.step config event = .ok (after, reply) := by
  change (s.step config event).toOption = _ ↔ _
  cases s.step config event <;> simp [Except.toOption]

end GlobalComponents.PicoServer
