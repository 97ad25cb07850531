import GlobalComponents.Library.Except
import GlobalComponents.Library.Run
import GlobalComponents.Library.Window
import Mathlib.Data.List.Nodup

/-! The asynchronous Ethernet link: a client, the server in front of the device, and the device.

The two virtqueues are pairs of first-in first-out rings in which a descriptor stands for the buffer
it describes. A handler is one step. What the device's driver does in a step is given as the list of
its calls back into the server. Pinning and wrapping of buffers succeed and are left out.
-/

set_option autoImplicit false

namespace GlobalComponents.EthernetAsync

open Library

def numTxBufs : Nat := 254
def numRxBufs : Nat := 254
def bufSize : Nat := 2048
def queueLen : Nat := 512

abbrev Buf := Nat
abbrev Memory := Nat → UInt8
abbrev Frame := List UInt8

def memcpy (dst src : Memory) (n : Nat) : Memory := fun i => if i < n then src i else dst i

def contents (mem : Memory) (len : Nat) : Frame := Window.window mem 0 len

/-- A step ends early when the code aborts, or when no device does what its driver is said to do. -/
inductive Stop where
  | fault
  | impossible
  deriving DecidableEq

structure Entry where
  buf : Buf
  len : Nat
  deriving DecidableEq

/-- One slot of a ring stays free. -/
def enqueue (ring : List Entry) (entry : Entry) : Except Stop (List Entry) :=
  if ring.length + 1 < queueLen then .ok (ring ++ [entry]) else .error .fault

/-- The rings of a virtqueue, from the first entry that their reader has not seen. -/
structure Virtqueue where
  avail : List Entry
  used : List Entry

structure Client where
  numTx : Nat
  pendingTx : Nat → Buf
  action : Bool

structure Server where
  action : Bool
  blockedTx : Bool
  noRxBufs : Bool

structure Device where
  rx : List Buf
  tx : List (Buf × Frame)

structure Link where
  client : Client
  server : Server
  txQueue : Virtqueue
  rxQueue : Virtqueue
  txMem : Buf → Memory
  rxMem : Buf → Memory
  device : Device
  clientReady : Bool
  serverReady : Bool
  /-- Notifications that have not been taken yet. -/
  toServer : Bool
  toClient : Bool

/-! ## The server -/

def Link.setTxUsed (l : Link) (used : List Entry) : Link :=
  { l with txQueue := { l.txQueue with used } }

def Link.setTxAvail (l : Link) (avail : List Entry) : Link :=
  { l with txQueue := { l.txQueue with avail } }

def Link.setRxUsed (l : Link) (used : List Entry) : Link :=
  { l with rxQueue := { l.rxQueue with used } }

def Link.setRxAvail (l : Link) (avail : List Entry) : Link :=
  { l with rxQueue := { l.rxQueue with avail } }

def ethTxComplete (l : Link) (cookie : Buf) : Except Stop Link := do
  let used ← enqueue l.txQueue.used ⟨cookie, bufSize⟩
  let action := if l.server.blockedTx then true else l.server.action
  return { l.setTxUsed used with server := { l.server with action } }

/-- The cookie, or none when the returned address is 0. -/
def ethAllocateRxBuf (l : Link) (size : Nat) : Link × Option Buf :=
  if size > bufSize then (l, none)
  else
    match l.rxQueue.avail with
    | [] => ({ l with server := { l.server with noRxBufs := true } }, none)
    | entry :: rest =>
      ({ l.setRxAvail rest with server := { l.server with noRxBufs := false } }, some entry.buf)

/-- Each cookie comes with its length. Several buffers for one frame are given back empty. -/
def ethRxComplete (l : Link) (bufs : List (Buf × Nat)) : Except Stop Link := do
  let entries : List Entry := match bufs with
    | [(cookie, len)] => [⟨cookie, len⟩]
    | bufs => bufs.map fun (cookie, _) => ⟨cookie, 0⟩
  let used ← entries.foldlM enqueue l.rxQueue.used
  return { l.setRxUsed used with server := { l.server with action := true } }

/-- A call of the driver into the server, or a store of the device into a receive buffer. -/
inductive Callback where
  | allocate
  | receive (buf : Buf) (written : Memory)
  | rxComplete (bufs : List (Buf × Nat))
  | txComplete (cookie : Buf)

/-- The device writes and completes only what it holds. The flag tells that the driver has just been
refused a buffer. `size` is the size of the buffers that the driver asks for. -/
def callback (size : Nat) (l : Link) : Callback → Except Stop (Link × Bool)
  | .allocate =>
    match ethAllocateRxBuf l size with
    | (l, some buf) => .ok ({ l with device := { l.device with rx := buf :: l.device.rx } }, false)
    | (l, none) => .ok (l, true)
  | .receive buf written =>
    if buf ∈ l.device.rx then .ok ({ l with rxMem := Function.update l.rxMem buf written }, false)
    else .error .impossible
  | .rxComplete bufs =>
    if (bufs.map Prod.fst).Nodup ∧ bufs.map Prod.fst ⊆ l.device.rx then do
      let l ← ethRxComplete l bufs
      return ({ l with
        device := { l.device with rx := l.device.rx.diff (bufs.map Prod.fst) } }, false)
    else .error .impossible
  | .txComplete cookie =>
    if cookie ∈ l.device.tx.map Prod.fst then do
      let l ← ethTxComplete l cookie
      return ({ l with
        device := { l.device with tx := l.device.tx.eraseP (·.1 == cookie) } }, false)
    else .error .impossible

/-- One more callback. The flag stays set once the driver has been refused a buffer. -/
def callbackNext (size : Nat) (state : Link × Bool) (call : Callback) :
    Except Stop (Link × Bool) := do
  let (l, refused) ← callback size state.1 call
  return (l, state.2 || refused)

theorem callbackNext_ok {size : Nat} {l l' : Link} {refused refused' : Bool} {call : Callback}
    (done : callbackNext size (l, refused) call = .ok (l', refused')) :
    ∃ now, callback size l call = .ok (l', now) ∧ refused' = (refused || now) := by
  obtain ⟨⟨after, now⟩, one, done⟩ := bind_ok.mp done
  cases done
  exact ⟨now, one, rfl⟩

def callbacks (size : Nat) (l : Link) (calls : List Callback) : Except Stop (Link × Bool) :=
  calls.foldlM (callbackNext size) (l, false)

def Callback.completesRx : Callback → Bool
  | .rxComplete _ => true
  | .allocate | .receive _ _ | .txComplete _ => false

/-- From a call into the driver, or an interrupt, to its return. A driver that was polled or has
completed receive buffers asks for new ones, and does not return without any unless it has been
refused one. -/
def drive (size : Nat) (polled : Bool) (l : Link) (calls : List Callback) : Except Stop Link := do
  let (l, refused) ← callbacks size l calls
  if (polled ∨ calls.any Callback.completesRx) ∧ l.device.rx = [] ∧ ¬refused then
    throw .impossible
  return l

inductive Outcome where
  | enqueued
  | complete
  | failed
  deriving DecidableEq

structure RawTx where
  calls : List Callback
  outcome : Outcome

/-- The loop of `virt_queue_handle_irq`, with the frames offered to the driver. Exactly a frame with
the outcome `enqueued` has been taken, and is completed later. -/
def transmit (size : Nat) : List RawTx → Link → Except Stop (Link × List (Frame × Outcome))
  | [], l => if l.txQueue.avail = [] then .ok (l, []) else .error .impossible
  | rawTx :: rawTxs, l =>
    match l.txQueue.avail with
    | [] => .ok (l, [])
    | entry :: _ => do
      let frame := contents (l.txMem entry.buf) entry.len
      let l ← drive size false l rawTx.calls
      -- also `complete` leaves the frame in the ring and blocks the queue
      if rawTx.outcome ≠ .enqueued then
        return ({ l with server := { l.server with blockedTx := true } }, [(frame, rawTx.outcome)])
      else
        let taken := { l.setTxAvail l.txQueue.avail.tail with
          server := { l.server with blockedTx := false }
          device := { l.device with tx := l.device.tx ++ [(entry.buf, frame)] } }
        let (l, offers) ← transmit size rawTxs taken
        return (l, (frame, rawTx.outcome) :: offers)

structure Driving where
  rawPoll : List Callback
  rawTxs : List RawTx

def virtQueueHandleIrq (size : Nat) (l : Link) (driving : Driving) :
    Except Stop (Link × List (Frame × Outcome)) :=
  if l.server.noRxBufs then do
    let l ← drive size true l driving.rawPoll
    transmit size driving.rawTxs l
  else transmit size driving.rawTxs l

def notifyClient (size : Nat) (l : Link) (driving : Driving) :
    Except Stop (Link × List (Frame × Outcome)) :=
  let notified := fun l : Link =>
    { l with server := { l.server with action := false }, toClient := true }
  if l.server.action then
    -- the retry comes before the signal
    if l.server.blockedTx then do
      let (l, offers) ← virtQueueHandleIrq size l driving
      return (notified l, offers)
    else .ok (notified l, [])
  else .ok (l, [])

/-! ## The client -/

/-- The frame that was queued; none when there is no buffer for it and 0 is returned. -/
def picoEthSend (l : Link) (input : Memory) (len : Nat) : Except Stop (Link × Option Frame) :=
  -- completed buffers are used again before fresh ones
  let free : Option (Buf × Link) := match l.txQueue.used with
    | entry :: rest => some (entry.buf, l.setTxUsed rest)
    | [] =>
      if l.client.numTx ≠ 0 then
        some (l.client.pendingTx (l.client.numTx - 1),
          { l with client := { l.client with numTx := l.client.numTx - 1 } })
      else none
  match free with
  | none => .ok (l, none)
  | some (buf, l) => do
    let copied := memcpy (l.txMem buf) input len
    let avail ← enqueue l.txQueue.avail ⟨buf, len⟩
    return ({ l.setTxAvail avail with
      txMem := Function.update l.txMem buf copied
      client := { l.client with action := true } }, some (contents copied len))

/-- The loop of `pico_eth_poll` while the score is positive, with the frames given to the stack.
`pico_stack_recv` returns `recv left` when `left` more frames may follow. -/
def pollLoop (recv : Nat → Int) : Nat → Link → Except Stop (Link × Nat × List Frame)
  | 0, l => .ok (l, 0, [])
  | left + 1, l =>
    match l.rxQueue.used with
    | [] => .ok (l, left + 1, [])
    | entry :: rest =>
      let frames := if entry.len > 0 then [contents (l.rxMem entry.buf) entry.len] else []
      -- a frame that the stack refuses stays at the head of the ring
      if entry.len > 0 ∧ recv left ≤ 0 then .ok (l, left + 1, frames)
      else do
        let avail ← enqueue l.rxQueue.avail ⟨entry.buf, bufSize⟩
        let (l, score, more) ← pollLoop recv left { l with rxQueue := ⟨avail, rest⟩ }
        return (l, score, frames ++ more)

def picoEthPoll (l : Link) (loopScore : Int) (recv : Nat → Int) :
    Except Stop (Link × Int × List Frame) :=
  if loopScore > 0 then do
    let (l, score, frames) ← pollLoop recv loopScore.toNat l
    return (l, score, frames)
  else .ok (l, loopScore, [])

def notifyServer (l : Link) : Link :=
  if l.client.action then { l with client := { l.client with action := false }, toServer := true }
  else l

/-- All buffers are allocated, the receive buffers are queued, and the server is notified. -/
def clientInit (l : Link) : Except Stop Link := do
  let avail ← (List.range numRxBufs).foldlM (fun ring buf => enqueue ring ⟨buf, bufSize⟩)
    l.rxQueue.avail
  return { l.setRxAvail avail with
    client := { l.client with numTx := numTxBufs, pendingTx := id }
    clientReady := true
    toServer := true }

/-! ## The system -/

inductive Event where
  | clientInit
  | serverInit (rawPoll : List Callback)
  | send (input : Memory) (len : Nat)
  | poll (loopScore : Int) (recv : Nat → Int)
  | notifyServer
  | irqFromEthernet
  | virtQueueHandleIrq (driving : Driving)
  | notifyClient (driving : Driving)
  | interrupt (calls : List Callback)

inductive Result where
  | done
  | sent (frame : Option Frame)
  | polled (loopScore : Int) (frames : List Frame)
  | offered (offers : List (Frame × Outcome))

/-- Handlers run after their component's initialisation, those of a notification when it is pending.
The frames of the stack fit the device's MTU, and so the buffers. -/
def Link.enabled (l : Link) : Event → Prop
  | .clientInit => l.clientReady = false
  | .serverInit _ => l.serverReady = false
  | .send _ len => l.clientReady = true ∧ len ≤ bufSize
  | .poll _ _ | .notifyServer => l.clientReady = true
  | .irqFromEthernet => l.clientReady = true ∧ l.toClient = true
  | .virtQueueHandleIrq _ => l.serverReady = true ∧ l.toServer = true
  | .notifyClient _ | .interrupt _ => l.serverReady = true

def Link.run (size : Nat) (l : Link) : Event → Except Stop (Link × Result)
  | .clientInit => do return (← clientInit l, .done)
  | .serverInit rawPoll => do
    return ({ ← drive size true l rawPoll with serverReady := true }, .done)
  | .send input len => do
    let (l, frame) ← picoEthSend l input len
    return (l, .sent frame)
  | .poll loopScore recv => do
    let (l, score, frames) ← picoEthPoll l loopScore recv
    return (l, .polled score frames)
  | .notifyServer => .ok (EthernetAsync.notifyServer l, .done)
  | .irqFromEthernet => .ok ({ l with toClient := false }, .done)
  | .virtQueueHandleIrq driving => do
    let (l, offers) ← virtQueueHandleIrq size { l with toServer := false } driving
    return (l, .offered offers)
  | .notifyClient driving => do
    let (l, offers) ← notifyClient size l driving
    return (l, .offered offers)
  | .interrupt calls => do return (← drive size false l calls, .done)

def Link.init : Link where
  client := ⟨0, fun _ => 0, false⟩
  server := ⟨false, false, false⟩
  txQueue := ⟨[], []⟩
  rxQueue := ⟨[], []⟩
  txMem := fun _ _ => 0
  rxMem := fun _ _ => 0
  device := ⟨[], []⟩
  clientReady := false
  serverReady := false
  toServer := false
  toClient := false

/-- What no device does has no successor, and neither has a step that faults. -/
def machine (size : Nat) : Machine Link Event Result where
  allowed := Link.enabled
  step l event := (l.run size event).toOption

instance (l : Link) (event : Event) : Decidable (l.enabled event) := by
  cases event <;> unfold Link.enabled <;> infer_instance

theorem run_of_step {size : Nat} {l l' : Link} {event : Event} {result : Result}
    (step : (machine size).step l event = some (l', result)) :
    l.run size event = .ok (l', result) := by
  have step : (l.run size event).toOption = some (l', result) := step
  cases ran : l.run size event with
  | ok value =>
    rw [ran] at step
    exact congrArg _ (Option.some.inj step)
  | error =>
    rw [ran] at step
    cases step

theorem enqueue_all {ring entries : List Entry} (room : ring.length + entries.length < queueLen) :
    entries.foldlM enqueue ring = .ok (ring ++ entries) := by
  induction entries generalizing ring with
  | nil => exact congrArg _ (List.append_nil ring).symm
  | cons entry rest ih =>
    rw [List.length_cons] at room
    have first : enqueue ring entry = .ok (ring ++ [entry]) := if_pos (by omega)
    rw [List.foldlM_cons, first]
    refine (ih ?_).trans (congrArg _ (List.append_assoc _ _ _))
    rw [List.length_append, List.length_singleton]
    omega

def Link.withClient (l : Link) : Link :=
  { l.setRxAvail ((List.range numRxBufs).map (Entry.mk · bufSize)) with
    client := { l.client with numTx := numTxBufs, pendingTx := id }
    clientReady := true
    toServer := true }

theorem clientInit_eq {l : Link} (none : l.rxQueue.avail = []) :
    clientInit l = .ok l.withClient := by
  have queued : ((List.range numRxBufs).map (Entry.mk · bufSize)).foldlM enqueue [] =
      .ok ([] ++ (List.range numRxBufs).map (Entry.mk · bufSize)) :=
    enqueue_all (by simp [numRxBufs, queueLen])
  rw [List.foldlM_map] at queued
  unfold clientInit
  rw [none, queued]
  rfl

theorem run_clientInit {size : Nat} {l : Link} (none : l.rxQueue.avail = []) :
    l.run size .clientInit = .ok (l.withClient, .done) := by
  rw [Link.run, clientInit_eq none]
  rfl

theorem step_of_run {size : Nat} {l l' : Link} {event : Event} {result : Result}
    (run : l.run size event = .ok (l', result)) :
    (machine size).step l event = some (l', result) := by
  show (l.run size event).toOption = some (l', result)
  rw [run]
  rfl

end GlobalComponents.EthernetAsync
