import GlobalComponents.EthernetAsync.Link
import GlobalComponents.Library.Except

/-! The table that takes a freed receive buffer back to the device it belongs to.

The stack frees a buffer without a cookie, so the clients of a component share one table from DMA
dataports to client states. Each initialisation grows it by an entry, and asks `realloc` for a byte.
-/

set_option autoImplicit false

namespace GlobalComponents.EthernetAsync

open Library

/-- `state` is the place of a `state_t` among those that were allocated. -/
structure IdStateMapper where
  dataportId : UInt32
  state : Nat
  deriving DecidableEq

/-- `sizeof(struct id_state_mapper)` when pointers take `word` bytes. -/
def IdStateMapper.size (word : Nat) : Nat := max 4 word + word

/-- `cells` is what the memory from `mapper` on holds, entry by entry. Only the first `bytes` bytes
of it are the table's block. -/
structure Mapper where
  bytes : Nat
  cells : Nat → IdStateMapper
  len : Nat

structure State where
  client : Client
  rxVirtqueue : Virtqueue

structure Clients where
  mapper : Mapper
  states : Nat → State
  count : Nat

/-- What one initialisation is given: the buffers of its DMA manager in order, the memory at the
place where `realloc` puts the table, by the memory at the old one, and the result of the stack. -/
structure Setup where
  dmaAlloc : Nat → Option Buf
  realloc : (Nat → IdStateMapper) → Option (Nat → IdStateMapper)
  picoDeviceInit : Int

namespace Mapper

def grow (m : Mapper) (word bytes : Nat) (there : Nat → IdStateMapper) : Mapper :=
  { m with
    bytes
    cells := fun i =>
      if (i + 1) * IdStateMapper.size word ≤ min m.bytes bytes then m.cells i else there i }

def append (m : Mapper) (entry : IdStateMapper) : Mapper :=
  { m with cells := Function.update m.cells m.len entry, len := m.len + 1 }

def find (m : Mapper) (id : UInt32) : Option Nat :=
  ((List.range m.len).find? fun i => (m.cells i).dataportId == id).map fun i => (m.cells i).state

/-- Every access to an entry below `mapper_len` is inside the block. -/
def Inside (m : Mapper) (word : Nat) : Prop := m.len * IdStateMapper.size word ≤ m.bytes

end Mapper

def State.init : State := { client := ⟨0, fun _ => 0, false⟩, rxVirtqueue := ⟨[], []⟩ }

namespace Clients

def init : Clients where
  mapper := { bytes := 0, cells := fun _ => ⟨0, 0⟩, len := 0 }
  states _ := State.init
  count := 0

def setState (c : Clients) (data : Nat) (state : State) : Clients :=
  { c with states := Function.update c.states data state }

@[simp] theorem setState_self (c : Clients) (data : Nat) (state : State) :
    (c.setState data state).states data = state := Function.update_self ..

theorem setState_other (c : Clients) {data other : Nat} (state : State) (different : other ≠ data) :
    (c.setState data state).states other = c.states other := Function.update_of_ne different ..

/-- A pointer to no state faults, and so does a full queue. -/
def addAvailableBuf (c : Clients) (data : Nat) (buf : Buf) : Except Stop Clients :=
  if data < c.count then do
    let state := c.states data
    let avail ← enqueue state.rxVirtqueue.avail ⟨buf, bufSize⟩
    return c.setState data { state with rxVirtqueue := { state.rxVirtqueue with avail } }
  else .error .fault

end Clients

section
variable (dataportId : Buf → UInt32) (word : Nat)

def addToMapper (setup : Setup) (c : Clients) (data : Nat) (buf : Buf) : Except Stop Clients :=
  match setup.realloc c.mapper.cells with
  | none => .error .fault
  | some there =>
    -- mapper_len + 1 is the number of entries, and realloc takes it for a number of bytes
    .ok { c with
      mapper := (c.mapper.grow word (c.mapper.len + 1) there).append ⟨dataportId buf, data⟩ }

/-- One buffer of the loop over `NUM_RX_BUFS`; the flag is `add_to_mapper`. -/
def addRxBuf (setup : Setup) (data : Nat) : Clients × Bool → Nat → Except Stop (Clients × Bool)
  | (c, added), i =>
    match setup.dmaAlloc i with
    | none => .error .fault
    | some buf => do
      let c ← if added then .ok c else addToMapper dataportId word setup c data buf
      let c ← c.addAvailableBuf data buf
      return (c, true)

/-- One buffer of the loop over `NUM_TX_BUFS`. -/
def addTxBuf (setup : Setup) (data : Nat) (c : Clients) (i : Nat) : Except Stop Clients :=
  match setup.dmaAlloc (numRxBufs + i) with
  | none => .error .fault
  | some buf =>
    let state := c.states data
    let client := { state.client with
      pendingTx := Function.update state.client.pendingTx state.client.numTx buf
      numTx := state.client.numTx + 1 }
    .ok (c.setState data { state with client })

def picotcpEthernetAsyncClientInit (c : Clients) (setup : Setup) :
    Except Stop (Clients × Int) := do
  let data := c.count
  let c := { c.setState data State.init with count := c.count + 1 }
  let (c, _) ← (List.range numRxBufs).foldlM (addRxBuf dataportId word setup data) (c, false)
  let c ← (List.range numTxBufs).foldlM (addTxBuf setup data) c
  return (c, if setup.picoDeviceInit = 0 then 0 else 1)

def inits (c : Clients) (setups : List Setup) : Except Stop Clients :=
  setups.foldlM (fun c setup => return (← picotcpEthernetAsyncClientInit dataportId word c setup).1) c

def picoFreeBuf (c : Clients) (buf : Buf) : Except Stop Clients :=
  match c.mapper.find (dataportId buf) with
  -- `state` is still a null pointer after the loop
  | none => .error .fault
  | some state => c.addAvailableBuf state buf

end

/-! ## One initialisation -/

/-- Nothing is said of a computation that aborts. -/
def Returns {α : Type} (post : α → Prop) : Except Stop α → Prop := Ends (fun _ => True) post

structure Clients.SameTable (c c' : Clients) : Prop where
  mapper : c'.mapper = c.mapper
  count : c'.count = c.count

theorem Clients.addAvailableBuf_table (c : Clients) (data : Nat) (buf : Buf) :
    Returns c.SameTable (c.addAvailableBuf data buf) := by
  unfold Clients.addAvailableBuf
  split
  · exact (Ends.any _).bind fun avail _ => ⟨rfl, rfl⟩
  · trivial

section
variable {dataportId : Buf → UInt32} {word : Nat} (setup : Setup) (data : Nat)

def Registered (dataportId : Buf → UInt32) (word : Nat) (setup : Setup) (data : Nat)
    (m m' : Mapper) : Prop :=
  ∃ buf there, setup.dmaAlloc 0 = some buf ∧ setup.realloc m.cells = some there ∧
    m' = (m.grow word (m.len + 1) there).append ⟨dataportId buf, data⟩

theorem addRxBuf_first (c : Clients) :
    Returns (fun r => Registered dataportId word setup data c.mapper r.1.mapper ∧
      r.1.count = c.count ∧ r.2 = true) (addRxBuf dataportId word setup data (c, false) 0) := by
  cases allocated : setup.dmaAlloc 0 with
  | none =>
    simp only [addRxBuf, allocated]
    trivial
  | some buf =>
    cases moved : setup.realloc c.mapper.cells with
    | none =>
      simp only [addRxBuf, addToMapper, allocated, moved]
      trivial
    | some there =>
      simp only [addRxBuf, addToMapper, allocated, moved]
      refine (Clients.addAvailableBuf_table _ data buf).bind fun c' same => ?_
      exact ⟨⟨buf, there, allocated, moved, same.mapper⟩, same.count, rfl⟩

theorem addRxBuf_later (c : Clients) (i : Nat) :
    Returns (fun r => c.SameTable r.1 ∧ r.2 = true)
      (addRxBuf dataportId word setup data (c, true) i) := by
  simp only [addRxBuf]
  cases setup.dmaAlloc i with
  | none => trivial
  | some buf =>
    exact (c.addAvailableBuf_table data buf).bind fun c' same => ⟨same, rfl⟩

/-- The flag keeps the rest of the loop from registering the device again. -/
theorem rxLoop_table (c : Clients) (bufs : List Nat) :
    Returns (fun r => c.SameTable r.1 ∧ r.2 = true)
      (bufs.foldlM (addRxBuf dataportId word setup data) (c, true)) := by
  apply Ends.foldlM
  · exact ⟨⟨rfl, rfl⟩, rfl⟩
  · intro ⟨c', flag⟩ ⟨same, added⟩ i _
    cases added
    refine (addRxBuf_later setup data c' i).mono fun r later => ?_
    exact ⟨⟨later.1.mapper.trans same.mapper, later.1.count.trans same.count⟩, later.2⟩

theorem rxLoop_registers (c : Clients) :
    Returns (fun r => Registered dataportId word setup data c.mapper r.1.mapper ∧
      r.1.count = c.count)
      ((List.range numRxBufs).foldlM (addRxBuf dataportId word setup data) (c, false)) := by
  -- the first buffer takes the entry, all later ones find the flag set
  rw [numRxBufs, List.range_succ_eq_map, List.foldlM_cons]
  refine (addRxBuf_first setup data c).bind fun first registers => ?_
  obtain ⟨c', flag⟩ := first
  obtain ⟨registered, count, added⟩ := registers
  cases added
  refine (rxLoop_table setup data c' _).mono fun r later => ?_
  obtain ⟨same, _⟩ := later
  rw [same.mapper, same.count]
  exact ⟨registered, count⟩

theorem txLoop_table (c : Clients) :
    Returns c.SameTable ((List.range numTxBufs).foldlM (addTxBuf setup data) c) := by
  refine Ends.foldlM ⟨rfl, rfl⟩ fun c' same i _ => ?_
  unfold addTxBuf
  cases setup.dmaAlloc (numRxBufs + i) with
  | none => trivial
  | some buf => exact ⟨same.mapper, same.count⟩

theorem clientInit_registers (c : Clients) :
    Returns (fun r => Registered dataportId word setup c.count c.mapper r.1.mapper ∧
      r.1.count = c.count + 1) (picotcpEthernetAsyncClientInit dataportId word c setup) := by
  unfold picotcpEthernetAsyncClientInit
  refine (rxLoop_registers setup c.count _).bind fun r ⟨registered, count⟩ => ?_
  refine (txLoop_table setup c.count r.1).bind fun c' same => ?_
  exact ⟨by rw [same.mapper]; exact registered, same.count.trans count⟩

end

/-! ## Every sequence of initialisations -/

section
variable {dataportId : Buf → UInt32} {word : Nat}

theorem inits_cons {c : Clients} {setup : Setup} {setups : List Setup} {post : Clients → Prop}
    (rest : ∀ c', Registered dataportId word setup c.count c.mapper c'.mapper →
      c'.count = c.count + 1 → Returns post (inits dataportId word c' setups)) :
    Returns post (inits dataportId word c (setup :: setups)) := by
  have first : Returns (fun c' => Registered dataportId word setup c.count c.mapper c'.mapper ∧
      c'.count = c.count + 1)
      (return (← picotcpEthernetAsyncClientInit dataportId word c setup).1) :=
    (clientInit_registers setup c).bind fun r holds => holds
  rw [inits, List.foldlM_cons]
  exact first.bind fun c' ⟨registered, count⟩ => rest c' registered count

structure Counted (calls : Nat) (c c' : Clients) : Prop where
  count : c'.count = c.count + calls
  len : c'.mapper.len = c.mapper.len + calls
  bytes : c'.mapper.bytes = c'.mapper.len

theorem Registered.counted {setup : Setup} {c c' : Clients}
    (registered : Registered dataportId word setup c.count c.mapper c'.mapper)
    (count : c'.count = c.count + 1) : Counted 1 c c' := by
  obtain ⟨buf, there, -, -, mapper⟩ := registered
  refine ⟨count, ?_, ?_⟩
  · rw [mapper]
    rfl
  · rw [mapper]
    rfl

theorem inits_counted {setups : List Setup} {c : Clients} (tight : c.mapper.bytes = c.mapper.len) :
    Returns (Counted setups.length c) (inits dataportId word c setups) := by
  induction setups generalizing c with
  | nil => exact ⟨rfl, rfl, tight⟩
  | cons setup setups ih =>
    refine inits_cons fun c' registered count => ?_
    have first := registered.counted count
    refine (ih first.bytes).mono fun after rest => ⟨?_, ?_, rest.bytes⟩
    · rw [rest.count, first.count, List.length_cons, Nat.add_assoc, Nat.add_comm 1]
    · rw [rest.len, first.len, List.length_cons, Nat.add_assoc, Nat.add_comm 1]

/-- The memory at the place of the new block holds what was behind the old one. -/
def Setup.Keeps (setup : Setup) : Prop := ∀ cells there, setup.realloc cells = some there → there = cells

structure Listed (dataportId : Buf → UInt32) (setups : List Setup) (c c' : Clients) : Prop where
  kept : ∀ i < c.mapper.len, c'.mapper.cells i = c.mapper.cells i
  entry : ∀ k setup, setups[k]? = some setup → ∃ buf, setup.dmaAlloc 0 = some buf ∧
    c'.mapper.cells (c.mapper.len + k) = ⟨dataportId buf, c.count + k⟩

theorem Registered.listed {setup : Setup} {c c' : Clients} (keeps : setup.Keeps)
    (registered : Registered dataportId word setup c.count c.mapper c'.mapper) :
    (∀ i < c.mapper.len, c'.mapper.cells i = c.mapper.cells i) ∧
      ∃ buf, setup.dmaAlloc 0 = some buf ∧
        c'.mapper.cells c.mapper.len = ⟨dataportId buf, c.count⟩ := by
  obtain ⟨buf, there, allocated, moved, mapper⟩ := registered
  obtain rfl := keeps _ _ moved
  have grown : (c.mapper.grow word (c.mapper.len + 1) c.mapper.cells).cells = c.mapper.cells := by
    funext i
    exact ite_self _
  have cells : c'.mapper.cells =
      Function.update c.mapper.cells c.mapper.len ⟨dataportId buf, c.count⟩ := by
    rw [mapper, Mapper.append, grown]
    rfl
  refine ⟨fun i old => ?_, buf, allocated, ?_⟩
  · rw [cells, Function.update_of_ne (Nat.ne_of_lt old)]
  · rw [cells, Function.update_self]

theorem inits_listed {setups : List Setup} {c : Clients} (keep : ∀ setup ∈ setups, setup.Keeps) :
    Returns (Listed dataportId setups c) (inits dataportId word c setups) := by
  -- on the calls: the table that one leaves is what the next one starts from
  induction setups generalizing c with
  | nil => exact ⟨fun _ _ => rfl, fun k setup found => by simp at found⟩
  | cons setup setups ih =>
    refine inits_cons fun c' registered count => ?_
    have counted := registered.counted count
    obtain ⟨kept, buf, allocated, entry⟩ := registered.listed (keep setup List.mem_cons_self)
    refine (ih fun later member => keep later (List.mem_cons_of_mem _ member)).mono
      fun after rest => ⟨fun i old => ?_, fun k found at_k => ?_⟩
    · rw [rest.kept i (by rw [counted.len]; omega), kept i old]
    -- the first device of the list has the next entry, the others those behind it
    · cases k with
      | zero =>
        obtain rfl : setup = found := Option.some.inj at_k
        refine ⟨buf, allocated, ?_⟩
        rw [Nat.add_zero, rest.kept _ (by rw [counted.len]; omega), entry]
        rfl
      | succ k =>
        obtain ⟨buf', allocated', entry'⟩ := rest.entry k found at_k
        refine ⟨buf', allocated', ?_⟩
        rw [counted.len, counted.count, Nat.add_assoc, Nat.add_comm 1, Nat.add_assoc,
          Nat.add_comm 1] at entry'
        exact entry'

/-! ## Initialisations that do not abort -/

structure Setup.Supplied (setup : Setup) : Prop where
  dmaAlloc : ∀ i, setup.dmaAlloc i ≠ none
  realloc : ∀ cells, setup.realloc cells ≠ none

def Clients.filled (c : Clients) (data : Nat) : Nat := (c.states data).rxVirtqueue.avail.length

structure Clients.Filled (c : Clients) (data more : Nat) (c' : Clients) : Prop where
  known : data < c'.count
  entries : c'.filled data = c.filled data + more

def Completes {α : Type} (post : α → Prop) : Except Stop α → Prop := Ends (fun _ => False) post

theorem Clients.addAvailableBuf_completes {c : Clients} {data : Nat} (buf : Buf)
    (known : data < c.count) (room : c.filled data + 1 < queueLen) :
    Completes (c.Filled data 1) (c.addAvailableBuf data buf) := by
  have avail : enqueue (c.states data).rxVirtqueue.avail ⟨buf, bufSize⟩ =
      .ok ((c.states data).rxVirtqueue.avail ++ [⟨buf, bufSize⟩]) := if_pos room
  rw [Clients.addAvailableBuf, if_pos known]
  dsimp only
  rw [avail]
  refine ⟨known, ?_⟩
  rw [Clients.filled, setState_self]
  exact List.length_append

section
variable {dataportId : Buf → UInt32} {word : Nat} {setup : Setup}

theorem addToMapper_completes (supplied : setup.Supplied) (c : Clients) (data : Nat) (buf : Buf) :
    Completes (fun c' => c'.states = c.states ∧ c'.count = c.count)
      (addToMapper dataportId word setup c data buf) := by
  obtain ⟨there, moved⟩ := Option.ne_none_iff_exists'.mp (supplied.realloc c.mapper.cells)
  simp only [addToMapper, moved]
  exact ⟨rfl, rfl⟩

theorem addRxBuf_completes (supplied : setup.Supplied) {data : Nat} {r : Clients × Bool} (i : Nat)
    (known : data < r.1.count) (room : r.1.filled data + 1 < queueLen) :
    Completes (fun r' => r.1.Filled data 1 r'.1) (addRxBuf dataportId word setup data r i) := by
  obtain ⟨c, added⟩ := r
  obtain ⟨buf, allocated⟩ := Option.ne_none_iff_exists'.mp (supplied.dmaAlloc i)
  simp only [addRxBuf, allocated]
  cases added with
  | true => exact (Clients.addAvailableBuf_completes buf known room).bind fun c' filled => filled
  | false =>
    -- the new entry of the table leaves the queues as they are
    refine (addToMapper_completes supplied c data buf).bind fun c' ⟨states, count⟩ => ?_
    have same : c'.filled data = c.filled data := by rw [Clients.filled, Clients.filled, states]
    refine (Clients.addAvailableBuf_completes buf (count ▸ known) (same ▸ room)).bind
      fun after filled => ?_
    exact ⟨filled.known, filled.entries.trans (congrArg (· + 1) same)⟩

theorem rxLoop_completes (supplied : setup.Supplied) {data : Nat} {bufs : List Nat}
    {r : Clients × Bool} (known : data < r.1.count)
    (room : r.1.filled data + bufs.length < queueLen) :
    Completes (fun _ => True) (bufs.foldlM (addRxBuf dataportId word setup data) r) := by
  induction bufs generalizing r with
  | nil => trivial
  | cons i bufs ih =>
    rw [List.length_cons] at room
    rw [List.foldlM_cons]
    refine (addRxBuf_completes supplied i known (by omega)).bind fun r' filled => ih filled.known ?_
    rw [filled.entries]
    omega

theorem addTxBuf_completes (supplied : setup.Supplied) (data : Nat) (c : Clients) (i : Nat) :
    Completes (fun _ => True) (addTxBuf setup data c i) := by
  obtain ⟨buf, allocated⟩ := Option.ne_none_iff_exists'.mp (supplied.dmaAlloc (numRxBufs + i))
  simp only [addTxBuf, allocated]
  trivial

theorem clientInit_completes (supplied : setup.Supplied) (c : Clients) :
    Completes (fun _ => True) (picotcpEthernetAsyncClientInit dataportId word c setup) := by
  unfold picotcpEthernetAsyncClientInit
  refine Ends.bind (rxLoop_completes supplied (Nat.lt_succ_self _) ?_) fun r _ => ?_
  · rw [List.length_range, Clients.filled]
    simp [Clients.setState, State.init, numRxBufs, queueLen]
  · have tx : Completes (fun _ => True) ((List.range numTxBufs).foldlM (addTxBuf setup c.count) r.1) :=
      Ends.foldlM trivial fun c' _ i _ => addTxBuf_completes supplied c.count c' i
    exact tx.bind fun _ _ => trivial

/-- Devices whose allocations succeed are all registered. -/
theorem inits_complete {setups : List Setup} (supplied : ∀ setup ∈ setups, setup.Supplied)
    (c : Clients) : ∃ c', inits dataportId word c setups = .ok c' := by
  have completes : Completes (fun _ => True) (inits dataportId word c setups) := by
    refine Ends.foldlM trivial fun c' _ setup member => ?_
    exact (clientInit_completes (supplied setup member) c').bind fun _ _ => trivial
  obtain ⟨c', ran, _⟩ := Ends.total completes
  exact ⟨c', ran⟩

end

/-! ## Freed buffers -/

theorem Mapper.find_eq {m : Mapper} {id : UInt32} {j : Nat} (inside : j < m.len)
    (entry : (m.cells j).dataportId = id)
    (first : ∀ i < j, (m.cells i).dataportId ≠ id) : m.find id = some (m.cells j).state := by
  have found : ((List.range m.len).find? fun i => (m.cells i).dataportId == id) = some j := by
    rw [List.find?_range_eq_some]
    exact ⟨beq_iff_eq.mpr entry, List.mem_range.mpr inside,
      fun i before => by simpa using first i before⟩
  rw [Mapper.find, found, Option.map_some]

theorem Clients.addAvailableBuf_eq {c : Clients} {data : Nat} (buf : Buf) (known : data < c.count)
    (room : (c.states data).rxVirtqueue.avail.length + 1 < queueLen) :
    ∃ after, c.addAvailableBuf data buf = .ok after ∧
      (after.states data).rxVirtqueue.avail =
        (c.states data).rxVirtqueue.avail ++ [⟨buf, bufSize⟩] ∧
      ∀ other, other ≠ data → after.states other = c.states other := by
  simp only [Clients.addAvailableBuf, if_pos known, enqueue, if_pos room]
  exact ⟨_, rfl, by rw [setState_self], fun other different => setState_other c _ different⟩

/-- Every receive buffer of every device, freed at any later time, goes to the queue of its device
and to no other. -/
def Returned (dataportId : Buf → UInt32) (setups : List Setup) (c : Clients) : Prop :=
  ∀ j setup i buf, setups[j]? = some setup → i < numRxBufs → setup.dmaAlloc i = some buf →
    ∀ later : Clients, later.mapper = c.mapper → later.count = c.count →
      (later.states j).rxVirtqueue.avail.length + 1 < queueLen →
      ∃ after, picoFreeBuf dataportId later buf = .ok after ∧
        (after.states j).rxVirtqueue.avail =
          (later.states j).rxVirtqueue.avail ++ [⟨buf, bufSize⟩] ∧
        ∀ other, other ≠ j → after.states other = later.states other

structure Sound (dataportId : Buf → UInt32) (word : Nat) (setups : List Setup) (c : Clients) :
    Prop where
  inside : c.mapper.Inside word
  returned : Returned dataportId setups c

/-- The buffers of each call are from a dataport of their own. -/
structure Apart (dataportId : Buf → UInt32) (port : Setup → UInt32) (setups : List Setup) :
    Prop where
  own : ∀ setup ∈ setups, ∀ i < numRxBufs, ∀ buf, setup.dmaAlloc i = some buf →
    dataportId buf = port setup
  distinct : (setups.map port).Nodup

/-- Where the stores behind the block are kept, the table does its work. -/
theorem listed_returned {port : Setup → UInt32} {setups : List Setup} {c : Clients}
    (apart : Apart dataportId port setups) (counted : Counted setups.length Clients.init c)
    (listed : Listed dataportId setups Clients.init c) : Returned dataportId setups c := by
  intro j setup i buf at_j within allocated later mapper count room
  have bound : j < setups.length := (List.getElem?_eq_some_iff.mp at_j).1
  have len : c.mapper.len = setups.length := counted.len.trans (Nat.zero_add _)
  have entry : ∀ k found, setups[k]? = some found → c.mapper.cells k = ⟨port found, k⟩ := by
    intro k found at_k
    obtain ⟨buf', allocated', cell⟩ := listed.entry k found at_k
    have ours := apart.own found (List.mem_of_getElem? at_k) 0 (by decide) buf' allocated'
    simp only [Clients.init, Nat.zero_add] at cell
    rw [cell, ours]
  have found : c.mapper.find (dataportId buf) = some j := by
    rw [apart.own setup (List.mem_of_getElem? at_j) i within buf allocated]
    rw [Mapper.find_eq (len ▸ bound), entry j setup at_j]
    · rw [entry j setup at_j]
    -- an earlier entry for the same dataport would be of the same device
    · intro k before same
      have at_k := List.getElem?_eq_getElem (Nat.lt_trans before bound)
      rw [entry k _ at_k] at same
      have places : k = j := by
        apply (List.getElem?_inj (by simpa using Nat.lt_trans before bound) apart.distinct).mp
        rw [List.getElem?_map, List.getElem?_map, at_k, at_j, Option.map_some, Option.map_some]
        exact congrArg _ same
      exact Nat.ne_of_lt before places
  rw [← mapper] at found
  simp only [picoFreeBuf, found]
  exact later.addAvailableBuf_eq buf (by rw [count, counted.count]; simpa [Clients.init] using bound)
    room

theorem IdStateMapper.one_lt_size (word : Nat) : 1 < IdStateMapper.size word :=
  Nat.lt_of_lt_of_le (by decide) (Nat.le_trans (Nat.le_max_left 4 word) (Nat.le_add_right _ _))

/-- As many bytes as entries are too few for any number of entries. -/
theorem Counted.outside {setups : List Setup} {c : Clients} (some : setups ≠ [])
    (counted : Counted setups.length Clients.init c) : ¬c.mapper.Inside word := by
  intro inside
  have len : c.mapper.len = setups.length := counted.len.trans (Nat.zero_add _)
  have positive : 0 < c.mapper.len := len ▸ List.length_pos_of_ne_nil some
  have larger := Nat.mul_lt_mul_of_pos_left (IdStateMapper.one_lt_size word) positive
  rw [Mapper.Inside, counted.bytes] at inside
  omega

theorem mapper_never_sound (dataportId : Buf → UInt32) (word : Nat) (setups : List Setup)
    (port : Setup → UInt32) (c : Clients) (some : setups ≠ [])
    (apart : Apart dataportId port setups)
    (ran : inits dataportId word Clients.init setups = .ok c) :
    ¬Sound dataportId word setups c ∧
      ((∀ setup ∈ setups, setup.Keeps) → Returned dataportId setups c) := by
  have counted : Counted setups.length Clients.init c := (inits_counted rfl).of_ok ran
  constructor
  · intro sound
    exact counted.outside some sound.inside
  · intro keep
    exact listed_returned apart counted ((inits_listed keep).of_ok ran)

end

def oneDevice (port : Nat) : Setup where
  dmaAlloc i := some (port * 4096 + i)
  realloc cells := some cells
  picoDeviceInit := 0

def pageOf (buf : Buf) : UInt32 := UInt32.ofNat (buf / 4096)

theorem oneDevice_runs : ∃ c, inits pageOf 8 Clients.init [oneDevice 5] = .ok c := by
  have supplied : ∀ setup ∈ [oneDevice 5], setup.Supplied := by
    intro setup member
    obtain rfl := List.mem_singleton.mp member
    exact ⟨fun _ => nofun, fun _ => nofun⟩
  exact inits_complete supplied Clients.init

theorem oneDevice_apart : Apart pageOf (fun _ => 5) [oneDevice 5] := by
  refine ⟨fun setup member i within buf allocated => ?_, List.nodup_singleton _⟩
  obtain rfl := List.mem_singleton.mp member
  obtain rfl : 5 * 4096 + i = buf := Option.some.inj allocated
  have page : (5 * 4096 + i) / 4096 = 5 := by
    rw [numRxBufs] at within
    omega
  rw [pageOf, page]
  rfl

theorem mapper_never_sound_one : ∃ c, inits pageOf 8 Clients.init [oneDevice 5] = .ok c ∧
    ¬Sound pageOf 8 [oneDevice 5] c ∧ Returned pageOf [oneDevice 5] c := by
  obtain ⟨c, ran⟩ := oneDevice_runs
  obtain ⟨unsound, returned⟩ := mapper_never_sound pageOf 8 [oneDevice 5] (fun _ => 5) c
    (List.cons_ne_nil _ _) oneDevice_apart ran
  refine ⟨c, ran, unsound, returned fun setup member cells there moved => ?_⟩
  obtain rfl := List.mem_singleton.mp member
  exact (Option.some.inj moved).symm

/-- The first entry of 16 bytes is stored in a block of one. -/
theorem first_entry_outside : ∃ c, inits pageOf 8 Clients.init [oneDevice 5] = .ok c ∧
    c.mapper.bytes = 1 ∧ c.mapper.len = 1 ∧ ¬c.mapper.Inside 8 := by
  obtain ⟨c, ran⟩ := oneDevice_runs
  have counted : Counted 1 Clients.init c := (inits_counted rfl).of_ok ran
  have len : c.mapper.len = 1 := counted.len
  have bytes : c.mapper.bytes = 1 := counted.bytes.trans len
  refine ⟨c, ran, bytes, len, ?_⟩
  rw [Mapper.Inside, bytes, len]
  decide

end GlobalComponents.EthernetAsync
