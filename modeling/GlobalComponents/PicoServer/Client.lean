import GlobalComponents.Library.Except
import GlobalComponents.PicoServer.Table
import Mathlib.Data.UInt

/-! The books of the PicoTCP server: the sockets of each client, the sockets by their PicoTCP address
and the sockets with events, as `picoserver_client.c` keeps them.

A C `int` is an `Int32`. Records of sockets and messages lie at addresses; an access to a record that
has been freed is a fault. Log messages are left out.
-/

set_option autoImplicit false

namespace GlobalComponents.PicoServer

/-- An address; 0 is null. -/
abbrev Ptr := UInt64

inductive Fault where
  /-- `ZF_LOGF` and `ZF_LOGF_IF` with their text. -/
  | logf (text : String)
  /-- A record that is not allocated. -/
  | dangling
  | null
  /-- A bucket behind the `flags` of its table. -/
  | bounds
  | loops
  /-- The stack returns something it may not return, or a loop asks it once more. -/
  | answer
  deriving DecidableEq

inductive Protocol where
  | tcp
  | udp
  deriving DecidableEq

structure Pending where
  queue : Option Ptr
  queueEnd : Option Ptr
  deriving DecidableEq

structure Async where
  rx : Pending
  tx : Pending
  deriving DecidableEq

structure Socket where
  protocol : Protocol
  clientId : Nat
  socketFd : Int32
  socket : Ptr
  events : UInt16
  asyncTransport : Option Async
  deriving DecidableEq

/-- `tx_msg_t`; the client's own cookie is left out. -/
structure Msg where
  socketFd : Int32
  totalLen : UInt64
  doneLen : UInt64
  srcAddr : UInt32
  remotePort : UInt16
  next : Option Ptr
  cookieSave : UInt32
  buf : Nat → UInt8

structure Client where
  bumpIndex : UInt32
  socketTable : Table intHashFunc Ptr
  socketEventSet : Table intHashFunc Unit

/-- `virtqueue_device_t` as its client sees it: what it has made available, what is back in the used
ring with its length, and what it has given and not got back. -/
structure Virtqueue where
  available : List (UInt32 × Ptr)
  used : List (UInt32 × UInt64)
  lent : List (UInt32 × Ptr)

inductive Dir where
  | tx
  | rx
  deriving DecidableEq

inductive StackCall where
  | write
  | send
  | sendto
  | read
  | recv
  | recvfrom
  deriving DecidableEq

inductive Action where
  /-- A send or receive RPC from `issuer` goes by the table of `client` and the dataport `badge`. -/
  | identity (issuer : Nat) (call : StackCall) (client : Nat) (badge : UInt64)
  /-- A stack function works for it on a socket of `client` and a window of the dataport. -/
  | window (issuer : Nat) (call : StackCall) (client : Nat) (socket : Ptr) (badge : UInt64)
      (offset len : Int32)
  /-- A socket record comes into being. -/
  | born (record : Ptr) (protocol : Protocol)
  /-- A message is dequeued for an asynchronous socket, or for none. -/
  | took (dir : Dir) (record : Option Ptr) (handle : UInt32) (msg : Ptr) (content : Msg)
  /-- The stack takes these bytes of a message or stores them there. -/
  | moved (dir : Dir) (record msg : Ptr) (offset : UInt64) (bytes : List UInt8)
  /-- A message goes to the used ring. -/
  | completed (dir : Dir) (record : Option Ptr) (handle : UInt32) (len : UInt64) (content : Msg)
  /-- `pico_control_emit` -/
  | emitControl (badge : UInt32)
  /-- `tx_virtqueue.notify` -/
  | notifyTx

structure Config where
  numClients : Nat
  /-- The badges of the clients on each interface, in the order of the clients. -/
  controlBadges : List UInt64
  sendBadges : List UInt64
  recvBadges : List UInt64
  /-- `pico_send_buf_size` and `pico_recv_buf_size` -/
  sendBufSize : UInt64 → UInt64
  recvBufSize : UInt64 → UInt64
  /-- The number of entries of each used ring. -/
  ringSize : Nat

structure Server where
  controlBadge : UInt64
  sendBadge : UInt64
  recvBadge : UInt64
  clients : Nat → Client
  socketAddrTable : Table int64HashFunc Ptr
  records : Ptr → Option Socket
  msgs : Ptr → Msg
  tx : Virtqueue
  rx : Virtqueue
  emitClient : Bool
  emitClientAsync : Bool
  /-- All that has happened, the oldest first; no step reads it. -/
  journal : List Action

def faultIf (cond : Prop) [Decidable cond] (fault : Fault) : Except Fault Unit :=
  if cond then .error fault else .ok ()

def zfLogfIf (cond : Prop) [Decidable cond] (text : String) : Except Fault Unit :=
  faultIf cond (.logf text)

/-- Inversion of a sequence in which every part succeeds. -/
@[simp] theorem faultIf_ok {cond : Prop} [Decidable cond] {fault : Fault} {done : Unit} :
    faultIf cond fault = .ok done ↔ ¬cond := by
  simp [faultIf]

@[simp] theorem zfLogfIf_ok {cond : Prop} [Decidable cond] {text : String} {done : Unit} :
    zfLogfIf cond text = .ok done ↔ ¬cond := faultIf_ok

namespace Server

def note (s : Server) (action : Action) : Server := { s with journal := s.journal ++ [action] }

def setClient (s : Server) (clientId : Nat) (client : Client) : Server :=
  { s with clients := Function.update s.clients clientId client }

def setSocketTable (s : Server) (clientId : Nat) (table : Table intHashFunc Ptr) : Server :=
  s.setClient clientId { s.clients clientId with socketTable := table }

def setSocketEventSet (s : Server) (clientId : Nat) (set : Table intHashFunc Unit) : Server :=
  s.setClient clientId { s.clients clientId with socketEventSet := set }

def setSocketAddrTable (s : Server) (table : Table int64HashFunc Ptr) : Server :=
  { s with socketAddrTable := table }

def setRecord (s : Server) (record : Ptr) (socket : Socket) : Server :=
  { s with records := Function.update s.records record (some socket) }

def free (s : Server) (record : Ptr) : Server :=
  { s with records := Function.update s.records record none }

def deref (s : Server) (record : Ptr) : Except Fault Socket :=
  match s.records record with
  | some socket => .ok socket
  | none => .error .dangling

theorem deref_ok {s : Server} {record : Ptr} {socket : Socket} :
    s.deref record = .ok socket ↔ s.records record = some socket := by
  rw [deref]
  cases s.records record <;> simp

end Server

/-- The id and the new bump index. The fuel bounds the number of iterations: a loop that has looked at
every index goes on for ever. -/
def findFreeIdLoop (table : Table intHashFunc Ptr) (oldIndex : UInt32) :
    Nat → UInt32 → Except Fault (UInt32 × UInt32)
  | 0, _ => .error .loops
  | fuel + 1, curr =>
    if table.get curr = table.last then .ok (curr, curr + 1)
    else
      let curr := curr + 1
      let curr := if curr = 0x80000000 then 1 else curr
      if oldIndex = curr then .ok (0, oldIndex) else findFreeIdLoop table oldIndex fuel curr

def findFreeId (client : Client) : Except Fault (UInt32 × Client) := do
  let (freeId, bumpIndex) ←
    findFreeIdLoop client.socketTable client.bumpIndex (2 ^ 32) client.bumpIndex
  return (freeId, { client with bumpIndex })

/-- `calloc` and `kh_init`; the bump index starts at the first id. -/
def Client.init : Client where
  bumpIndex := 1
  socketTable := .init
  socketEventSet := .init

def clientGetNumSockets (s : Server) (clientId : Nat) : Nat := (s.clients clientId).socketTable.size

def clientGetSocket (s : Server) (clientId : Nat) (socketId : Int32) : Option Ptr :=
  (s.clients clientId).socketTable.lookup socketId.toUInt32

def clientGetSocketByAddr (s : Server) (socketAddr : Ptr) : Option Ptr :=
  s.socketAddrTable.lookup socketAddr

/-- Drops a socket from the event set of a client if it is there. -/
def dropEvent (s : Server) (clientId : Nat) (socketId : Int32) : Server :=
  let set := (s.clients clientId).socketEventSet
  let iter := set.get socketId.toUInt32
  if iter ≠ set.last then s.setSocketEventSet clientId (set.del iter) else s

/-- PicoTCP reuses the address of a registered socket: the old record goes. The bucket that is
deleted from the socket table is the old fd itself, and `kh_del` reads its flags unless it is
`kh_end`. -/
def invalidateOld (s : Server) (clientId : Nat) (oldSocket socket : Ptr) : Except Fault Server := do
  let old ← s.deref oldSocket
  zfLogfIf (old.socket ≠ socket) "Tried to replace an entry in the socket addr table"
  let table := (s.clients clientId).socketTable
  zfLogfIf (table.get old.socketFd.toUInt32 = table.last)
    "Failed to invalidate old picoserver_socket_t struct"
  let iter := old.socketFd.toUInt32.toNat
  faultIf (iter ≠ table.last ∧ ¬table.InFlags iter) .bounds
  let s := s.setSocketTable clientId (table.del iter)
  return dropEvent (s.free oldSocket) clientId old.socketFd

/-- The second half of `client_put_socket`: the socket of bucket `socketIter` gets its entry in the
socket address table. -/
def putSocketAddr (s : Server) (clientId : Nat) (newSocket : Ptr) (socketIter : Nat)
    (freeId : UInt32) (memory : Bool) : Except Fault (Server × Int32) := do
  let new ← s.deref newSocket
  let (addrTable, socketAddrIter, ret) := s.socketAddrTable.put new.socket memory
  let s := s.setSocketAddrTable addrTable
  if ret = -1 then
    return (s.setSocketTable clientId ((s.clients clientId).socketTable.del socketIter), -1)
  let s ←
    if ret = 0 then invalidateOld s clientId (addrTable.val socketAddrIter) new.socket else pure s
  return (s.setSocketAddrTable (s.socketAddrTable.setVal socketAddrIter newSocket), freeId.toInt32)

/-- `memory` says whether each of the two insertions finds memory. -/
def clientPutSocket (config : Config) (s : Server) (clientId : Nat) (newSocket : Ptr)
    (memory : Bool × Bool) : Except Fault (Server × Int32) := do
  zfLogfIf (config.numClients ≤ clientId)
    "Client ID is greater than the number of clients registered"
  let (freeId, client) ← findFreeId (s.clients clientId)
  let s := s.setClient clientId client
  if freeId = 0 then return (s, -1)
  let (table, socketIter, ret) := client.socketTable.put freeId memory.1
  if ret = -1 then return (s.setSocketTable clientId table, -1)
  zfLogfIf (ret = 0) "Tried to replace an entry in the socket table for client"
  putSocketAddr (s.setSocketTable clientId (table.setVal socketIter newSocket)) clientId newSocket
    socketIter freeId memory.2

def clientDeleteSocket (s : Server) (clientId : Nat) (socketId : Int32) :
    Except Fault (Server × Int32) := do
  let table := (s.clients clientId).socketTable
  let socketIter := table.get socketId.toUInt32
  if socketIter = table.last then return (s, -1)
  let clientSocket := table.val socketIter
  let socket ← s.deref clientSocket
  let socketAddrIter := s.socketAddrTable.get socket.socket
  zfLogfIf (socketAddrIter = s.socketAddrTable.last)
    "Corresponding entry in the socket address table doesn't exist!"
  let s := (s.free clientSocket).setSocketTable clientId (table.del socketIter)
  let s := s.setSocketAddrTable (s.socketAddrTable.del socketAddrIter)
  return (dropEvent s clientId socketId, 0)

structure SocketEvent where
  socketFd : Int32
  events : UInt16
  numEventsLeft : Nat
  deriving DecidableEq

def SocketEvent.none : SocketEvent := ⟨0, 0, 0⟩

def clientGetEvent (s : Server) (clientId : Nat) : Except Fault (Server × SocketEvent) := do
  let set := (s.clients clientId).socketEventSet
  let iter := set.first
  if set.last ≤ iter then return (s, .none)
  let socketId := set.key iter
  let set := set.del iter
  let s := s.setSocketEventSet clientId set
  if socketId = 0 then return (s, .none)
  match clientGetSocket s clientId socketId.toInt32 with
  | none => .error (.logf "Could not find picoserver_socket struct for client id and socket")
  | some clientSocket => do
    let socket ← s.deref clientSocket
    return (s.setRecord clientSocket { socket with events := 0 },
      ⟨socketId.toInt32, socket.events, set.size⟩)

def clientPutEvent (s : Server) (clientId : Nat) (socketId : Int32) (event : UInt16)
    (memory : Bool) : Except Fault (Server × Int32) :=
  match clientGetSocket s clientId socketId with
  | none => .ok (s, -1)
  | some clientSocket => do
    let socket ← s.deref clientSocket
    let s := s.setRecord clientSocket { socket with events := socket.events ||| event }
    let (set, _, ret) := (s.clients clientId).socketEventSet.put socketId.toUInt32 memory
    let s := s.setSocketEventSet clientId set
    return (s, if ret = -1 then -1 else 0)

end GlobalComponents.PicoServer
