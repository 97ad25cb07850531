import GlobalComponents.Library.Ring
import GlobalComponents.Library.Run
import Mathlib.Algebra.Group.Nat.Defs

/-! The Ethernet driver component: a pool of receive buffers shared by all clients, one cyclic
queue of received frames and one pool of transmit frames for each client.

A pointer into `rx_bufs` is its index there, a pointer into a client's `tx_mem` the pair of client
and slot. Stores into the fixed arrays are checked: a store behind the end is a fault. What lies
behind the end of a frame's memory counts to that frame.
-/

set_option autoImplicit false

namespace GlobalComponents.Ethdriver

open Library

def rxBufCount : Nat := 256
def clientRxBufs : Nat := 128
def clientTxBufs : Nat := 128
def bufSize : Nat := 2048

abbrev Mac := Fin 6 → UInt8
abbrev Memory := Nat → UInt8

structure EthBuf where
  buf : Memory
  phys : Nat

structure RxFrame where
  buf : Nat
  len : Nat
  client : Nat
  deriving DecidableEq

structure TxFrame where
  buf : EthBuf
  len : Nat
  client : Nat

/-- The address of `clients[client].tx_mem[slot]`. -/
structure TxPtr where
  client : Nat
  slot : Nat
  deriving DecidableEq, Repr

structure Client where
  shouldNotify : Bool
  pendingRxHead : Nat
  pendingRxTail : Nat
  pendingRx : Nat → RxFrame
  numTx : Nat
  txMem : Nat → TxFrame
  pendingTx : Nat → TxPtr
  mac : Mac
  clientId : Nat
  dataport : Memory

structure Driver where
  numClients : Nat
  clients : Nat → Client
  numRxBufs : Nat
  rxBufs : Nat → EthBuf
  rxBufPool : Nat → Nat
  doneInit : Bool
  /-- The badges passed to `client_emit`, the latest first. -/
  emitted : List Nat

def memcpy (dst src : Memory) (n : Nat) : Memory := fun i => if i < n then src i else dst i

def bytes (mem : Memory) (n : Nat) : List UInt8 := (List.range n).map mem

def Driver.setClient (d : Driver) (i : Nat) (client : Client) : Driver :=
  { d with clients := Function.update d.clients i client }

/-- The last match counts, as the source's loop has no `break`. -/
def ethGetClient (d : Driver) (id : Nat) : Option Nat :=
  (List.range d.numClients).foldl
    (fun client i => if (d.clients i).clientId = id then some i else client) none

def ethTxComplete (d : Driver) (cookie : TxPtr) : Option Driver :=
  let owner := ((d.clients cookie.client).txMem cookie.slot).client
  let client := d.clients owner
  -- without a free slot the source stores behind the end of pending_tx
  if client.numTx < clientTxBufs then
    some (d.setClient owner { client with
      pendingTx := Function.update client.pendingTx client.numTx cookie
      numTx := client.numTx + 1 })
  else none

/-- The physical address, 0 when there is none, and the cookie. -/
def ethAllocateRxBuf (d : Driver) (size : Nat) : Driver × Nat × Option Nat :=
  if size > bufSize then (d, 0, none)
  else if d.numRxBufs = 0 then (d, 0, none)
  else
    let cookie := d.rxBufPool (d.numRxBufs - 1)
    ({ d with numRxBufs := d.numRxBufs - 1 }, (d.rxBufs cookie).phys, some cookie)

def detectClient (d : Driver) (buf : Memory) (len : Nat) : Option Nat :=
  -- a frame too short for a destination address is for nobody
  if len < 6 then none
  else (List.range d.numClients).find? fun i => ∀ k : Fin 6, (d.clients i).mac k = buf k

def isBroadcast (buf : Memory) (len : Nat) : Bool :=
  if len < 6 then false else decide (∀ k : Fin 6, buf k = 0xff)

/-- The address is loaded bytewise on a little-endian machine. -/
def isMulticast (buf : Memory) (len : Nat) : Bool :=
  let ethHeaderLen := 14
  let ipHdrDestOffset := 16
  if len < ethHeaderLen + ipHdrDestOffset + 4 then false
  else
    let byte := fun i => (buf (ethHeaderLen + ipHdrDestOffset + i)).toNat
    let addr := byte 0 + 2 ^ 8 * byte 1 + 2 ^ 16 * byte 2 + 2 ^ 24 * byte 3
    addr &&& 0xf0 == 0xe0

def Client.rxFull (client : Client) : Bool :=
  (client.pendingRxHead + 1) % clientRxBufs == client.pendingRxTail

def giveClientBuf (d : Driver) (i : Nat) (buf len : Nat) : Option Driver :=
  let client := d.clients i
  if client.pendingRxHead < clientRxBufs then
    let queued := { client with
      pendingRx := Function.update client.pendingRx client.pendingRxHead ⟨buf, len, 0⟩
      pendingRxHead := (client.pendingRxHead + 1) % clientRxBufs }
    -- one signal, until the client has seen the end of its ring again
    if client.shouldNotify then
      let d := d.setClient i { queued with shouldNotify := false }
      some { d with emitted := client.clientId :: d.emitted }
    else some (d.setClient i queued)
  else none

def putRxBuf (d : Driver) (buf : Nat) : Option Driver :=
  if d.numRxBufs < rxBufCount then
    some { d with
      rxBufPool := Function.update d.rxBufPool d.numRxBufs buf
      numRxBufs := d.numRxBufs + 1 }
  else none

def Driver.copyRxBuf (d : Driver) (newBuf buf len : Nat) : Driver :=
  let copy := memcpy (d.rxBufs newBuf).buf (d.rxBufs buf).buf len
  { d with rxBufs := Function.update d.rxBufs newBuf { d.rxBufs newBuf with buf := copy } }

def duplicateFor (buf len : Nat) (d : Driver) (i : Nat) : Option Driver :=
  if (d.clients i).rxFull then some d
  else
    match ethAllocateRxBuf d len with
    | (d, phys, some newBuf) =>
      if phys ≠ 0 then
        giveClientBuf (d.copyRxBuf newBuf buf len) i newBuf len
      -- an allocated buffer without a physical address is lost to the pool
      else some d
    | (d, _, none) => some d

def putBack (d : Driver) (cookies : List Nat) : Option Driver := cookies.foldlM putRxBuf d

def offerBuf (d : Driver) (client buf len : Nat) : Option Driver :=
  if (d.clients client).rxFull then putBack d [buf] else giveClientBuf d client buf len

/-- Each cookie comes with its length. -/
def ethRxComplete (d : Driver) (bufs : List (Nat × Nat)) : Option Driver :=
  match bufs with
  | [(buf, len)] =>
    match detectClient d (d.rxBufs buf).buf len with
    | some client => offerBuf d client buf len
    | none =>
      -- the original goes to client 0, each other client with room gets a copy
      if isBroadcast (d.rxBufs buf).buf len || isMulticast (d.rxBufs buf).buf len then do
        let d ← (List.range' 1 (d.numClients - 1)).foldlM (duplicateFor buf len) d
        offerBuf d 0 buf len
      -- a frame that concerns nobody
      else putBack d [buf]
  | bufs => putBack d (bufs.map Prod.fst)

/-- The new state, the returned value, and the length stored through `len`. -/
def clientRx (d : Driver) (id : Nat) : Option (Driver × Int × Option Nat) :=
  if !d.doneInit then some (d, -1, none)
  else do
    let i ← ethGetClient d id
    let client := d.clients i
    if client.pendingRxHead = client.pendingRxTail then
      return (d.setClient i { client with shouldNotify := true }, -1, none)
    let rx := client.pendingRx client.pendingRxTail
    let tail := (client.pendingRxTail + 1) % clientRxBufs
    -- the last frame of the ring arms the next signal, and the value 0 says so
    let last := tail = client.pendingRxHead
    let taken := d.setClient i { client with
      pendingRxTail := tail
      dataport := memcpy client.dataport (d.rxBufs rx.buf).buf rx.len
      shouldNotify := if last then true else client.shouldNotify }
    let d ← putRxBuf taken rx.buf
    return (d, if last then 0 else 1, some rx.len)

inductive RawTx where
  | enqueued
  | complete
  | failed
  deriving DecidableEq, Repr

structure Handed where
  frame : TxPtr
  phys : Nat
  contents : List UInt8
  deriving DecidableEq

inductive TxReturn where
  /-- `-1`, before the driver is asked -/
  | refused
  | raw (outcome : RawTx)
  deriving DecidableEq

def stampSource (packet : Memory) (mac : Mac) : Memory := fun i =>
  if source : 6 ≤ i ∧ i < 12 then mac ⟨i - 6, by omega⟩ else packet i

def Driver.fillTx (d : Driver) (txBuf : TxPtr) (client : Client) (len : Nat) : Driver × Handed :=
  let holder := d.clients txBuf.client
  let frame := holder.txMem txBuf.slot
  let stamped := stampSource (memcpy frame.buf.buf client.dataport len) client.mac
  let filled := { frame with buf := { frame.buf with buf := stamped } }
  (d.setClient txBuf.client { holder with
    txMem := Function.update holder.txMem txBuf.slot filled },
    ⟨txBuf, frame.buf.phys, bytes stamped len⟩)

/-- The driver completes the frames `completed`, in this order, before `raw_tx` returns
`outcome`. -/
def clientTx (d : Driver) (id : Nat) (len : Int) (completed : List TxPtr) (outcome : RawTx) :
    Option (Driver × TxReturn × Option Handed) :=
  if !d.doneInit then some (d, .refused, none)
  else
    let len := min len bufSize
    if len < 12 then some (d, .refused, none)
    else do
      let i ← ethGetClient d id
      let client := d.clients i
      -- without a free frame the packet is dropped, and counts as sent
      if client.numTx = 0 then return (d, .raw .complete, none)
      let txBuf := client.pendingTx (client.numTx - 1)
      let popped := d.setClient i { client with numTx := client.numTx - 1 }
      let (filled, handed) := popped.fillTx txBuf client len.toNat
      let called ← completed.foldlM ethTxComplete filled
      let client := called.clients i
      -- `num_tx++` uncovers the slot, with whatever a completion has put there meanwhile
      let returned := if outcome ≠ .enqueued then
        called.setClient i { client with numTx := client.numTx + 1 } else called
      return (returned, .raw outcome, some handed)

def Driver.sends (d : Driver) (i : Nat) (len : Int) : Prop :=
  d.doneInit = true ∧ 12 ≤ min len bufSize ∧ (d.clients i).numTx ≠ 0

theorem clientTx_cases {d d' : Driver} {id : Nat} {len : Int} {completed : List TxPtr}
    {outcome : RawTx} {ret : TxReturn} {handed : Option Handed}
    (sent : clientTx d id len completed outcome = some (d', ret, handed)) :
    ((∀ i, ethGetClient d id = some i → ¬d.sends i len) ∧ d' = d ∧ handed = none) ∨
    ∃ i size filled frame called, ethGetClient d id = some i ∧ d.sends i len ∧
      (d.setClient i { d.clients i with numTx := (d.clients i).numTx - 1 }).fillTx
        ((d.clients i).pendingTx ((d.clients i).numTx - 1)) (d.clients i) size = (filled, frame) ∧
      completed.foldlM ethTxComplete filled = some called ∧ handed = some frame ∧
      d' = if outcome ≠ .enqueued then
        called.setClient i { called.clients i with numTx := (called.clients i).numTx + 1 }
        else called := by
  unfold clientTx at sent
  by_cases early : (!d.doneInit) = true
  · rw [if_pos early] at sent
    cases sent
    exact .inl ⟨fun i _ sends => by simp [sends.1] at early, rfl, rfl⟩
  rw [if_neg early] at sent
  by_cases short : min len bufSize < 12
  · rw [if_pos short] at sent
    cases sent
    exact .inl ⟨fun i _ sends => absurd short (Int.not_lt.mpr sends.2.1), rfl, rfl⟩
  rw [if_neg short] at sent
  obtain ⟨i, caller, sent⟩ := Option.bind_eq_some_iff.mp sent
  by_cases none : (d.clients i).numTx = 0
  · rw [if_pos none] at sent
    cases sent
    refine .inl ⟨fun j found sends => ?_, rfl, rfl⟩
    cases caller.symm.trans found
    exact sends.2.2 none
  · rw [if_neg none] at sent
    obtain ⟨called, calls, sent⟩ := Option.bind_eq_some_iff.mp sent
    cases sent
    have ready : d.doneInit = true := by simpa using early
    exact .inr ⟨i, _, _, _, called, caller, ⟨ready, Int.not_lt.mp short, none⟩, rfl, calls, rfl,
      rfl⟩

/-- What `server_init` finds: the connected clients, the addresses of the buffers and the
configured MAC addresses. -/
structure Config where
  badges : List Nat
  distinct : badges.Nodup
  connected : badges ≠ []
  rxPhys : Nat → Nat
  pinned : ∀ buf, rxPhys buf ≠ 0
  txPhys : TxPtr → Nat
  clientMac : Nat → Option Mac
  hwMac : Mac

def serverInit (config : Config) : Driver where
  numClients := config.badges.length
  clients := fun i => {
    shouldNotify := true
    pendingRxHead := 0
    pendingRxTail := 0
    pendingRx := fun _ => ⟨0, 0, 0⟩
    numTx := clientTxBufs
    txMem := fun slot => ⟨⟨fun _ => 0, config.txPhys ⟨i, slot⟩⟩, bufSize, i⟩
    pendingTx := fun slot => ⟨i, slot⟩
    mac := fun _ => 0
    clientId := config.badges.getD i 0
    dataport := fun _ => 0 }
  numRxBufs := rxBufCount
  rxBufs := fun buf => ⟨fun _ => 0, config.rxPhys buf⟩
  rxBufPool := id
  doneInit := false
  emitted := []

/-- The end of `server_init`, after `raw_poll`. At most one client may take the device's MAC. -/
def serverInitMacs (config : Config) (d : Driver) : Option Driver :=
  let defaults := (List.range d.numClients).filter fun i =>
    (config.clientMac (d.clients i).clientId).isNone
  -- a client without a configured address takes the hardware's
  if defaults.length > 1 then none
  else some { d with
    clients := fun i =>
      { d.clients i with mac := (config.clientMac (d.clients i).clientId).getD config.hwMac }
    doneInit := true }

structure System where
  driver : Driver
  device : List Nat
  inFlight : List TxPtr

inductive Event where
  | initDone
  | allocate (size : Nat)
  /-- The device writes a receive buffer. -/
  | receive (buf : Nat) (contents : Memory)
  | rxComplete (bufs : List (Nat × Nat))
  | txComplete (frame : TxPtr)
  /-- A client writes its dataport. -/
  | poke (client : Nat) (contents : Memory)
  | rx (id : Nat)
  | tx (id : Nat) (len : Int) (completed : List TxPtr) (outcome : RawTx)

inductive Result where
  | done
  | allocated (cookie : Option Nat)
  | rx (ret : Int) (frame : Option (List UInt8))
  | tx (ret : TxReturn) (handed : Option Handed)
  deriving DecidableEq

/-- The device writes and completes only what it holds, each only once; only clients call. -/
def System.allowed (s : System) : Event → Prop
  | .initDone => s.driver.doneInit = false
  | .allocate _ => True
  | .receive buf _ => buf ∈ s.device
  | .rxComplete bufs => (bufs.map Prod.fst).Nodup ∧ bufs.map Prod.fst ⊆ s.device
  | .txComplete frame => frame ∈ s.inFlight
  | .poke client _ => client < s.driver.numClients
  | .rx id => ∃ i < s.driver.numClients, (s.driver.clients i).clientId = id
  | .tx id _ completed _ =>
    (∃ i < s.driver.numClients, (s.driver.clients i).clientId = id) ∧
      completed.Subperm s.inFlight

def System.step (config : Config) (s : System) : Event → Option (System × Result)
  | .initDone => do
    let driver ← serverInitMacs config s.driver
    return ({ s with driver }, .done)
  | .allocate size =>
    let (driver, phys, cookie) := ethAllocateRxBuf s.driver size
    -- A driver takes the address 0 for a failure and drops the cookie.
    let taken := if phys ≠ 0 then cookie else none
    some ({ s with driver, device := taken.toList ++ s.device }, .allocated taken)
  | .receive buf contents =>
    let rxBufs := Function.update s.driver.rxBufs buf { s.driver.rxBufs buf with buf := contents }
    some ({ s with driver := { s.driver with rxBufs } }, .done)
  | .rxComplete bufs => do
    let driver ← ethRxComplete s.driver bufs
    return ({ s with driver, device := s.device.diff (bufs.map Prod.fst) }, .done)
  | .txComplete frame => do
    let driver ← ethTxComplete s.driver frame
    return ({ s with driver, inFlight := s.inFlight.erase frame }, .done)
  | .poke client contents =>
    let driver := s.driver.setClient client
      { s.driver.clients client with dataport := contents }
    some ({ s with driver }, .done)
  | .rx id => do
    let (driver, ret, len) ← clientRx s.driver id
    let i ← ethGetClient s.driver id
    return ({ s with driver }, .rx ret (len.map (bytes (driver.clients i).dataport)))
  | .tx id len completed outcome => do
    let (driver, ret, handed) ← clientTx s.driver id len completed outcome
    let left := s.inFlight.diff completed
    let accepted := if outcome = .enqueued then handed.toList.map (·.frame) else []
    -- Without a frame to send the driver is not called and completes nothing here.
    let inFlight := if handed.isSome then accepted ++ left else s.inFlight
    return ({ s with driver, inFlight }, .tx ret handed)

def System.init (config : Config) : System := ⟨serverInit config, [], []⟩

def machine (config : Config) : Machine System Event Result where
  allowed := System.allowed
  step := System.step config

end GlobalComponents.Ethdriver
