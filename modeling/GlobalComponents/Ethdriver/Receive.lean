import GlobalComponents.Ethdriver.Driver
import Mathlib.Algebra.BigOperators.Group.Finset.Basic
import Mathlib.Algebra.Order.Group.Multiset

/-! What the receive side is for: a stack of free buffers and a bounded queue for each client.

`Driver.view` reads this off the driver's arrays and indices. Each function of the driver is shown
to act on the view as the operation of the same purpose does.
-/

set_option autoImplicit false

namespace GlobalComponents.Ethdriver

open Library

structure RxView where
  /-- The free buffers, the next one to be allocated first. -/
  pool : List Nat
  queues : Nat → List RxFrame
  contents : Nat → Memory

namespace RxView

def put (v : RxView) (buf : Nat) : RxView := { v with pool := buf :: v.pool }

def give (v : RxView) (i : Nat) (frame : RxFrame) : RxView :=
  { v with queues := Function.update v.queues i (v.queues i ++ [frame]) }

def full (v : RxView) (i : Nat) : Prop := (v.queues i).length = clientRxBufs - 1

instance (v : RxView) (i : Nat) : Decidable (v.full i) := inferInstanceAs (Decidable (_ = _))

def offer (v : RxView) (i buf len : Nat) : RxView :=
  if v.full i then v.put buf else v.give i ⟨buf, len, 0⟩

def copy (v : RxView) (newBuf buf len : Nat) : RxView :=
  { v with
    contents := Function.update v.contents newBuf
      (memcpy (v.contents newBuf) (v.contents buf) len) }

def duplicate (buf len : Nat) (v : RxView) (i : Nat) : RxView :=
  if v.full i ∨ len > bufSize then v
  else
    match v.pool with
    | [] => v
    | top :: rest => (({ v with pool := rest } : RxView).copy top buf len).give i ⟨top, len, 0⟩

end RxView

def Driver.pool (d : Driver) : List Nat := ((List.range d.numRxBufs).map d.rxBufPool).reverse

def Client.pending (client : Client) : List RxFrame :=
  Ring.queue clientRxBufs client.pendingRx client.pendingRxHead client.pendingRxTail

def Driver.view (d : Driver) : RxView where
  pool := d.pool
  queues := fun i => (d.clients i).pending
  contents := fun buf => (d.rxBufs buf).buf

/-- The ring indices are in range and every buffer has an address. -/
structure Driver.Wf (d : Driver) : Prop where
  head : ∀ i, (d.clients i).pendingRxHead < clientRxBufs
  tail : ∀ i, (d.clients i).pendingRxTail < clientRxBufs
  pinned : ∀ buf, (d.rxBufs buf).phys ≠ 0

structure Driver.SameSetup (d d' : Driver) : Prop where
  numClients : d'.numClients = d.numClients
  mac : ∀ i, (d'.clients i).mac = (d.clients i).mac
  clientId : ∀ i, (d'.clients i).clientId = (d.clients i).clientId
  doneInit : d'.doneInit = d.doneInit

theorem Driver.SameSetup.refl (d : Driver) : d.SameSetup d := ⟨rfl, fun _ => rfl, fun _ => rfl, rfl⟩

theorem Driver.SameSetup.trans {d d' d'' : Driver} (first : d.SameSetup d')
    (second : d'.SameSetup d'') : d.SameSetup d'' :=
  ⟨second.numClients.trans first.numClients, fun i => (second.mac i).trans (first.mac i),
    fun i => (second.clientId i).trans (first.clientId i), second.doneInit.trans first.doneInit⟩

structure Client.SameTx (client client' : Client) : Prop where
  numTx : client'.numTx = client.numTx
  txMem : client'.txMem = client.txMem
  pendingTx : client'.pendingTx = client.pendingTx

theorem Client.SameTx.refl (client : Client) : client.SameTx client := ⟨rfl, rfl, rfl⟩

structure Driver.Becomes (d d' : Driver) (view : RxView) : Prop where
  wf : d'.Wf
  setup : d.SameSetup d'
  tx : ∀ i, (d.clients i).SameTx (d'.clients i)
  view : d'.view = view

theorem Driver.Wf.becomes {d : Driver} (wf : d.Wf) : d.Becomes d d.view :=
  ⟨wf, .refl d, fun _ => .refl _, rfl⟩

theorem Driver.Becomes.trans {d d' d'' : Driver} {view view' : RxView}
    (first : d.Becomes d' view) (second : d'.Becomes d'' view') : d.Becomes d'' view' :=
  ⟨second.wf, first.setup.trans second.setup, fun i =>
    ⟨(second.tx i).numTx.trans (first.tx i).numTx, (second.tx i).txMem.trans (first.tx i).txMem,
      (second.tx i).pendingTx.trans (first.tx i).pendingTx⟩, second.view⟩

theorem bytes_memcpy (dst src : Memory) (n : Nat) : bytes (memcpy dst src n) n = bytes src n :=
  List.map_congr_left fun _ member => if_pos (List.mem_range.mp member)

@[simp] theorem pool_length (d : Driver) : d.pool.length = d.numRxBufs := by simp [Driver.pool]

theorem pool_eq_cons {d : Driver} (some : d.numRxBufs ≠ 0) :
    d.pool = d.rxBufPool (d.numRxBufs - 1) ::
      ({ d with numRxBufs := d.numRxBufs - 1 } : Driver).pool := by
  obtain ⟨n, count⟩ := Nat.exists_eq_succ_of_ne_zero some
  simp [Driver.pool, count, List.range_succ]

theorem setClient_clients (d : Driver) (i : Nat) (client : Client) :
    (d.setClient i client).clients = Function.update d.clients i client := rfl

theorem rxFull_iff {d : Driver} (wf : d.Wf) (i : Nat) :
    (d.clients i).rxFull = true ↔ d.view.full i := by
  simp only [Client.rxFull, beq_iff_eq, Ring.full_iff (wf.head i) (wf.tail i), RxView.full,
    Driver.view, Client.pending, Ring.queue_length]

theorem pending_eq_nil_iff {d : Driver} (wf : d.Wf) (i : Nat) :
    (d.clients i).pending = [] ↔ (d.clients i).pendingRxHead = (d.clients i).pendingRxTail :=
  Ring.queue_eq_nil_iff (wf.head i) (wf.tail i) _

theorem setClient_becomes {d : Driver} (wf : d.Wf) (i : Nat) (client : Client)
    (mac : client.mac = (d.clients i).mac) (clientId : client.clientId = (d.clients i).clientId)
    (tx : (d.clients i).SameTx client)
    (head : client.pendingRxHead < clientRxBufs) (tail : client.pendingRxTail < clientRxBufs) :
    d.Becomes (d.setClient i client)
      { d.view with queues := Function.update d.view.queues i client.pending } := by
  refine ⟨⟨fun j => ?_, fun j => ?_, wf.pinned⟩, ⟨rfl, fun j => ?_, fun j => ?_, rfl⟩,
    fun j => ?_, ?_⟩
  · rcases eq_or_ne j i with rfl | other
    · simpa [setClient_clients] using head
    · simpa [setClient_clients, Function.update_of_ne other] using wf.head j
  · rcases eq_or_ne j i with rfl | other
    · simpa [setClient_clients] using tail
    · simpa [setClient_clients, Function.update_of_ne other] using wf.tail j
  · rcases eq_or_ne j i with rfl | other
    · simpa [setClient_clients] using mac
    · simp [setClient_clients, Function.update_of_ne other]
  · rcases eq_or_ne j i with rfl | other
    · simpa [setClient_clients] using clientId
    · simp [setClient_clients, Function.update_of_ne other]
  · rcases eq_or_ne j i with rfl | other
    · simpa [setClient_clients] using tx
    · simpa [setClient_clients, Function.update_of_ne other] using Client.SameTx.refl _
  · simp only [Driver.view, setClient_clients]
    congr 1
    funext j
    rcases eq_or_ne j i with rfl | other
    · simp
    · simp [Function.update_of_ne other]

theorem putRxBuf_becomes {d : Driver} (wf : d.Wf) (buf : Nat) (room : d.pool.length < rxBufCount) :
    ∃ d', putRxBuf d buf = some d' ∧ d.Becomes d' (d.view.put buf) := by
  rw [pool_length] at room
  refine ⟨_, if_pos room, ⟨wf.head, wf.tail, wf.pinned⟩, ⟨rfl, fun _ => rfl, fun _ => rfl, rfl⟩,
    fun _ => .refl _, ?_⟩
  have below : ∀ k ∈ List.range d.numRxBufs,
      Function.update d.rxBufPool d.numRxBufs buf k = d.rxBufPool k := by
    intro k member
    exact Function.update_of_ne (Nat.ne_of_lt (List.mem_range.mp member)) _ _
  simp [Driver.view, Driver.pool, RxView.put, List.range_succ, List.map_congr_left below]

theorem putRxBuf_clients {d d' : Driver} {buf : Nat} (put : putRxBuf d buf = some d') :
    d'.clients = d.clients := by
  unfold putRxBuf at put
  split at put
  · cases put
    rfl
  · cases put

theorem giveClientBuf_becomes {d : Driver} (wf : d.Wf) {i : Nat} (room : ¬d.view.full i)
    (buf len : Nat) :
    ∃ d', giveClientBuf d i buf len = some d' ∧ d.Becomes d' (d.view.give i ⟨buf, len, 0⟩) := by
  have space : ((d.clients i).pendingRxHead + 1) % clientRxBufs ≠ (d.clients i).pendingRxTail := by
    rw [← rxFull_iff wf] at room
    simpa [Client.rxFull] using room
  have pushed := Ring.queue_push (wf.head i) (wf.tail i) space (d.clients i).pendingRx ⟨buf, len, 0⟩
  have next := Ring.succ_mod_lt (wf.head i)
  unfold giveClientBuf
  simp only [if_pos (wf.head i)]
  split
  · have becomes := setClient_becomes wf i { d.clients i with
      pendingRx := Function.update (d.clients i).pendingRx (d.clients i).pendingRxHead ⟨buf, len, 0⟩
      pendingRxHead := ((d.clients i).pendingRxHead + 1) % clientRxBufs
      shouldNotify := false } rfl rfl ⟨rfl, rfl, rfl⟩ next (wf.tail i)
    simp only [Client.pending, pushed] at becomes
    exact ⟨_, rfl, ⟨becomes.wf.head, becomes.wf.tail, wf.pinned⟩,
      ⟨rfl, becomes.setup.mac, becomes.setup.clientId, rfl⟩, becomes.tx, becomes.view⟩
  · have becomes := setClient_becomes wf i { d.clients i with
      pendingRx := Function.update (d.clients i).pendingRx (d.clients i).pendingRxHead ⟨buf, len, 0⟩
      pendingRxHead := ((d.clients i).pendingRxHead + 1) % clientRxBufs } rfl rfl ⟨rfl, rfl, rfl⟩
        next (wf.tail i)
    simp only [Client.pending, pushed] at becomes
    exact ⟨_, rfl, becomes⟩

theorem offerBuf_becomes {d : Driver} (wf : d.Wf) (i buf len : Nat)
    (room : d.pool.length < rxBufCount) :
    ∃ d', offerBuf d i buf len = some d' ∧ d.Becomes d' (d.view.offer i buf len) := by
  unfold offerBuf RxView.offer
  by_cases full : d.view.full i
  · rw [if_pos ((rxFull_iff wf i).mpr full), if_pos full]
    simpa [putBack] using putRxBuf_becomes wf buf room
  · rw [if_neg (mt (rxFull_iff wf i).mp full), if_neg full]
    exact giveClientBuf_becomes wf full buf len

theorem putBack_becomes {d : Driver} (wf : d.Wf) (cookies : List Nat)
    (room : d.pool.length + cookies.length ≤ rxBufCount) :
    ∃ d', putBack d cookies = some d' ∧ d.Becomes d' (cookies.foldl RxView.put d.view) := by
  induction cookies generalizing d with
  | nil => exact ⟨d, rfl, wf.becomes⟩
  | cons buf rest ih =>
    simp only [List.length_cons] at room
    obtain ⟨middle, put, first⟩ := putRxBuf_becomes wf buf (by omega)
    have grown : middle.pool.length = d.pool.length + 1 := by
      simpa [Driver.view, RxView.put] using congrArg (fun view => view.pool.length) first.view
    obtain ⟨d', puts, second⟩ := ih first.wf (by omega)
    rw [first.view] at second
    exact ⟨d', by simpa [putBack, put] using puts, first.trans second⟩

/-- The allocator pops the pool; a buffer that has no address does not exist. -/
theorem ethAllocateRxBuf_cases {d : Driver} (wf : d.Wf) (size : Nat) :
    ((size > bufSize ∨ d.pool = []) ∧ ethAllocateRxBuf d size = (d, 0, none)) ∨
    ∃ top rest d' phys, size ≤ bufSize ∧ d.pool = top :: rest ∧ phys ≠ 0 ∧
      ethAllocateRxBuf d size = (d', phys, some top) ∧ d.Becomes d' { d.view with pool := rest } := by
  unfold ethAllocateRxBuf
  by_cases large : size > bufSize
  · exact .inl ⟨.inl large, by rw [if_pos large]⟩
  by_cases empty : d.numRxBufs = 0
  · have nil : d.pool = [] := List.length_eq_zero_iff.mp (by rw [pool_length, empty])
    exact .inl ⟨.inr nil, by rw [if_neg large, if_pos empty]⟩
  · refine .inr ⟨_, _, { d with numRxBufs := d.numRxBufs - 1 }, _, Nat.le_of_not_lt large,
      pool_eq_cons empty, wf.pinned (d.rxBufPool (d.numRxBufs - 1)), ?_, ?_⟩
    · rw [if_neg large, if_neg empty]
    · exact ⟨⟨wf.head, wf.tail, wf.pinned⟩, ⟨rfl, fun _ => rfl, fun _ => rfl, rfl⟩,
        fun _ => .refl _, rfl⟩

theorem copyRxBuf_becomes {d : Driver} (wf : d.Wf) (newBuf buf len : Nat) :
    d.Becomes (d.copyRxBuf newBuf buf len) (d.view.copy newBuf buf len) := by
  refine ⟨⟨wf.head, wf.tail, fun other => ?_⟩, ⟨rfl, fun _ => rfl, fun _ => rfl, rfl⟩,
    fun _ => .refl _, ?_⟩
  · rcases eq_or_ne other newBuf with rfl | different
    · simpa [Driver.copyRxBuf] using wf.pinned other
    · simpa [Driver.copyRxBuf, Function.update_of_ne different] using wf.pinned other
  · simp only [Driver.view, Driver.copyRxBuf, RxView.copy]
    congr 1
    funext other
    rcases eq_or_ne other newBuf with rfl | different
    · simp
    · simp [Function.update_of_ne different]

theorem duplicateFor_becomes {d : Driver} (wf : d.Wf) (buf len i : Nat) :
    ∃ d', duplicateFor buf len d i = some d' ∧ d.Becomes d' (d.view.duplicate buf len i) := by
  unfold duplicateFor RxView.duplicate
  by_cases full : d.view.full i
  · exact ⟨d, by rw [if_pos ((rxFull_iff wf i).mpr full)], by simpa [full] using wf.becomes⟩
  rw [if_neg (mt (rxFull_iff wf i).mp full)]
  rcases ethAllocateRxBuf_cases wf len with
    ⟨none, allocated⟩ | ⟨top, rest, d', phys, fits, pool, address, allocated, popped⟩
  · refine ⟨d, by rw [allocated], ?_⟩
    rcases none with large | empty
    · simpa [large] using wf.becomes
    · have same : d.view.pool = [] := empty
      simpa [same] using wf.becomes
  · rw [allocated]
    simp only [if_pos address]
    have copied := copyRxBuf_becomes popped.wf top buf len
    rw [popped.view] at copied
    have still : ¬(d'.copyRxBuf top buf len).view.full i := by rw [copied.view]; exact full
    obtain ⟨after, given, gave⟩ := giveClientBuf_becomes copied.wf still top len
    rw [copied.view] at gave
    have same : d.view.pool = top :: rest := pool
    refine ⟨after, given, (popped.trans copied).trans ?_⟩
    simpa [full, Nat.not_lt.mpr fits, same] using gave

theorem duplicates_become {d : Driver} (wf : d.Wf) (buf len : Nat) (others : List Nat) :
    ∃ d', others.foldlM (duplicateFor buf len) d = some d' ∧
      d.Becomes d' (others.foldl (RxView.duplicate buf len) d.view) := by
  induction others generalizing d with
  | nil => exact ⟨d, rfl, wf.becomes⟩
  | cons i rest ih =>
    obtain ⟨middle, one, first⟩ := duplicateFor_becomes wf buf len i
    obtain ⟨d', all, second⟩ := ih first.wf
    rw [first.view] at second
    exact ⟨d', by simpa [one] using all, first.trans second⟩

inductive Route where
  | unicast (client : Nat)
  | everyone
  | nobody

def Driver.route (d : Driver) (buf : Memory) (len : Nat) : Route :=
  match detectClient d buf len with
  | some client => .unicast client
  | none => if isBroadcast buf len || isMulticast buf len then .everyone else .nobody

def RxView.complete (v : RxView) (numClients : Nat) (buf len : Nat) : Route → RxView
  | .unicast client => v.offer client buf len
  | .everyone =>
    ((List.range' 1 (numClients - 1)).foldl (duplicate buf len) v).offer 0 buf len
  | .nobody => v.put buf

theorem RxView.duplicate_pool_length (v : RxView) (buf len i : Nat) :
    (v.duplicate buf len i).pool.length ≤ v.pool.length := by
  unfold duplicate
  split
  · exact Nat.le_refl _
  · split
    · exact Nat.le_refl _
    · simp [give, copy, *]

theorem RxView.duplicates_pool_length (v : RxView) (buf len : Nat) (others : List Nat) :
    (others.foldl (duplicate buf len) v).pool.length ≤ v.pool.length := by
  induction others generalizing v with
  | nil => exact Nat.le_refl _
  | cons i rest ih => exact (ih _).trans (v.duplicate_pool_length buf len i)

def Driver.completed (d : Driver) : List (Nat × Nat) → RxView
  | [(buf, len)] => d.view.complete d.numClients buf len (d.route (d.rxBufs buf).buf len)
  | bufs => (bufs.map Prod.fst).foldl RxView.put d.view

theorem ethRxComplete_single {d : Driver} (wf : d.Wf) (buf len : Nat)
    (room : d.pool.length < rxBufCount) :
    ∃ d', ethRxComplete d [(buf, len)] = some d' ∧ d.Becomes d' (d.completed [(buf, len)]) := by
  unfold Driver.completed
  cases detected : detectClient d (d.rxBufs buf).buf len with
  | some client =>
    simp only [ethRxComplete, Driver.route, detected, RxView.complete]
    exact offerBuf_becomes wf client buf len room
  | none =>
    cases shared : isBroadcast (d.rxBufs buf).buf len || isMulticast (d.rxBufs buf).buf len with
    | true =>
      simp only [ethRxComplete, Driver.route, detected, shared, if_true, RxView.complete]
      obtain ⟨middle, all, first⟩ :=
        duplicates_become wf buf len (List.range' 1 (d.numClients - 1))
      have fewer : middle.pool.length < rxBufCount := by
        have := d.view.duplicates_pool_length buf len (List.range' 1 (d.numClients - 1))
        rw [← first.view] at this
        exact Nat.lt_of_le_of_lt this room
      obtain ⟨d', offered, second⟩ := offerBuf_becomes first.wf 0 buf len fewer
      rw [first.view] at second
      exact ⟨d', by simp [all, offered], first.trans second⟩
    | false =>
      simp only [ethRxComplete, Driver.route, detected, shared, RxView.complete]
      simpa [putBack] using putRxBuf_becomes wf buf room

theorem ethRxComplete_becomes {d : Driver} (wf : d.Wf) (bufs : List (Nat × Nat))
    (room : d.pool.length + bufs.length ≤ rxBufCount) :
    ∃ d', ethRxComplete d bufs = some d' ∧ d.Becomes d' (d.completed bufs) := by
  have back := putBack_becomes wf (bufs.map Prod.fst) (by simpa using room)
  match bufs with
  | [] => exact back
  | [(buf, len)] => exact ethRxComplete_single wf buf len room
  | _ :: _ :: _ => exact back

theorem clientRx_cases {d : Driver} (wf : d.Wf) {id i : Nat} (ready : d.doneInit = true)
    (caller : ethGetClient d id = some i)
    (room : d.view.queues i ≠ [] → d.pool.length < rxBufCount) :
    (d.view.queues i = [] ∧ ∃ d', clientRx d id = some (d', -1, none) ∧ d.Becomes d' d.view) ∨
    ∃ frame rest d', d.view.queues i = frame :: rest ∧
      clientRx d id = some (d', if rest = [] then 0 else 1, some frame.len) ∧
      d.Becomes d' ({ d.view with queues := Function.update d.view.queues i rest }.put frame.buf) ∧
      bytes (d'.clients i).dataport frame.len = bytes (d.view.contents frame.buf) frame.len := by
  have queue : d.view.queues i = (d.clients i).pending := rfl
  unfold clientRx
  simp only [ready, caller, Bool.not_true, Bool.false_eq_true, if_false, Option.bind_eq_bind,
    Option.bind_some, Option.pure_def]
  by_cases empty : (d.clients i).pendingRxHead = (d.clients i).pendingRxTail
  · refine .inl ⟨by rw [queue, pending_eq_nil_iff wf, empty], _, if_pos empty, ?_⟩
    have becomes := setClient_becomes wf i { d.clients i with shouldNotify := true } rfl rfl
      ⟨rfl, rfl, rfl⟩ (wf.head i) (wf.tail i)
    simpa [Client.pending, Driver.view, Function.update_eq_self_iff] using becomes
  · have popped := Ring.queue_pop (wf.head i) (wf.tail i) empty (d.clients i).pendingRx
    have next := Ring.succ_mod_lt (wf.tail i)
    simp only [if_neg empty]
    generalize tailEq : ((d.clients i).pendingRxTail + 1) % clientRxBufs = tail at popped next ⊢
    generalize frameEq : (d.clients i).pendingRx (d.clients i).pendingRxTail = frame at popped ⊢
    have restEmpty := Ring.queue_eq_nil_iff (wf.head i) next (d.clients i).pendingRx
    let client : Client := { d.clients i with
      pendingRxTail := tail
      dataport := memcpy (d.clients i).dataport (d.rxBufs frame.buf).buf frame.len
      shouldNotify := if tail = (d.clients i).pendingRxHead then true
        else (d.clients i).shouldNotify }
    have taken := setClient_becomes wf i client rfl rfl ⟨rfl, rfl, rfl⟩ (wf.head i) next
    have space : d.pool.length < rxBufCount := room (by rw [queue, Client.pending, popped]; simp)
    obtain ⟨d', put, back⟩ := putRxBuf_becomes taken.wf frame.buf space
    rw [taken.view] at back
    refine .inr ⟨frame, client.pending, d', popped, ?_, taken.trans back, ?_⟩
    · have drained : tail = (d.clients i).pendingRxHead ↔ client.pending = [] :=
        eq_comm.trans restEmpty.symm
      change (putRxBuf (d.setClient i client) frame.buf).bind _ = _
      rw [put, ← if_congr drained rfl rfl]
      rfl
    · rw [putRxBuf_clients put, setClient_clients, Function.update_self]
      exact bytes_memcpy _ _ _

end GlobalComponents.Ethdriver
