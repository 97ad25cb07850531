import GlobalComponents.Library.Projection
import Mathlib.Data.BitVec
import Mathlib.Logic.Function.Basic
import Mathlib.Tactic.IntervalCases

/-! Access to the PCI configuration space through the address port and the data port.

Every call selects first, so that it does not matter what was selected before. The ports and the
bridge behind them are outside the component.
-/

set_option autoImplicit false

namespace GlobalComponents.PCIConfigIO

open Library

def configAddr : BitVec 32 := 0xcf8
def configData : BitVec 32 := 0xcfc

inductive IoSize where
  | iosize8
  | iosize16
  | iosize32
  deriving DecidableEq

def IoSize.bytes : IoSize → Nat
  | .iosize8 => 1
  | .iosize16 => 2
  | .iosize32 => 4

/-- `ps_io_port_ops_t`. A read returns an error and what it has put into the result. -/
structure PsIoPortOps (State : Type) where
  psIoPortIn : State → BitVec 32 → IoSize → State × Int32 × BitVec 32
  psIoPortOut : State → BitVec 32 → IoSize → BitVec 32 → State × Int32

def address (bus dev fn : BitVec 8) (offset : BitVec 32) : BitVec 32 :=
  let lbus := bus.setWidth 32
  let ldev := dev.setWidth 32
  let lfun := fn.setWidth 32
  lbus <<< 16 ||| ldev <<< 11 ||| lfun <<< 8 ||| offset &&& 0xfc ||| 0x80000000

section
variable {State : Type} (ioOps : PsIoPortOps State)

def configSelect (s : State) (bus dev fn : BitVec 8) (offset : BitVec 32) : State :=
  (ioOps.psIoPortOut s configAddr .iosize32 (address bus dev fn offset)).1

/-- `lanes` are the bits of the offset that choose the port. -/
def pciConfigRead (size : IoSize) (lanes : BitVec 32) (s : State) (bus dev fn : BitVec 8)
    (offset : BitVec 32) : State × BitVec 32 :=
  let s := configSelect ioOps s bus dev fn offset
  -- the low bits of the offset choose the lanes of the data port
  let port := configData + (offset &&& lanes)
  let (s, error, result) := ioOps.psIoPortIn s port size
  if error ≠ 0 then (s, 0) else (s, result)

def pciConfigWrite (size : IoSize) (lanes : BitVec 32) (s : State) (bus dev fn : BitVec 8)
    (offset val : BitVec 32) : State :=
  let s := configSelect ioOps s bus dev fn offset
  let port := configData + (offset &&& lanes)
  (ioOps.psIoPortOut s port size val).1

def pciConfigRead8 (s : State) (bus dev fn : BitVec 8) (offset : BitVec 32) : State × BitVec 8 :=
  let (s, result) := pciConfigRead ioOps .iosize8 3 s bus dev fn offset
  (s, result.setWidth 8)

def pciConfigRead16 (s : State) (bus dev fn : BitVec 8) (offset : BitVec 32) :
    State × BitVec 16 :=
  let (s, result) := pciConfigRead ioOps .iosize16 2 s bus dev fn offset
  (s, result.setWidth 16)

def pciConfigRead32 (s : State) (bus dev fn : BitVec 8) (offset : BitVec 32) :
    State × BitVec 32 :=
  pciConfigRead ioOps .iosize32 0 s bus dev fn offset

def pciConfigWrite8 (s : State) (bus dev fn : BitVec 8) (offset : BitVec 32) (val : BitVec 8) :
    State :=
  pciConfigWrite ioOps .iosize8 3 s bus dev fn offset (val.setWidth 32)

def pciConfigWrite16 (s : State) (bus dev fn : BitVec 8) (offset : BitVec 32) (val : BitVec 16) :
    State :=
  pciConfigWrite ioOps .iosize16 2 s bus dev fn offset (val.setWidth 32)

def pciConfigWrite32 (s : State) (bus dev fn : BitVec 8) (offset val : BitVec 32) : State :=
  pciConfigWrite ioOps .iosize32 0 s bus dev fn offset val

end

inductive Operation where
  | read8
  | read16
  | read32
  | write8 (val : BitVec 8)
  | write16 (val : BitVec 16)
  | write32 (val : BitVec 32)

structure Call where
  bus : BitVec 8
  dev : BitVec 8
  fn : BitVec 8
  offset : BitVec 32
  operation : Operation

/-- What is returned, in 32 bits. A write returns nothing. -/
abbrev Answer := Option (BitVec 32)

section
variable {State : Type} (ioOps : PsIoPortOps State)

def serve (s : State) (call : Call) : State × Answer :=
  match call.operation with
  | .read8 =>
    let (s, result) := pciConfigRead8 ioOps s call.bus call.dev call.fn call.offset
    (s, some (result.setWidth 32))
  | .read16 =>
    let (s, result) := pciConfigRead16 ioOps s call.bus call.dev call.fn call.offset
    (s, some (result.setWidth 32))
  | .read32 =>
    let (s, result) := pciConfigRead32 ioOps s call.bus call.dev call.fn call.offset
    (s, some result)
  | .write8 val => (pciConfigWrite8 ioOps s call.bus call.dev call.fn call.offset val, none)
  | .write16 val => (pciConfigWrite16 ioOps s call.bus call.dev call.fn call.offset val, none)
  | .write32 val => (pciConfigWrite32 ioOps s call.bus call.dev call.fn call.offset val, none)

def component : Machine State Call Answer where
  allowed _ _ := True
  step s call := some (serve ioOps s call)

end

/-! ## Behind the ports -/

structure Target where
  bus : BitVec 8
  dev : BitVec 5
  fn : BitVec 3
  deriving DecidableEq

def decode (address : BitVec 32) : Target :=
  ⟨address.extractLsb' 16 8, address.extractLsb' 11 5, address.extractLsb' 8 3⟩

/-- One configuration cycle, at a byte of the 256 that a function has. -/
structure Access where
  register : Nat
  size : IoSize
  written : Option (BitVec 32)

/-- Configuration mechanism 1: an enabled address turns an access to the data port into a cycle on
the function that it selects. Accesses to a port that the component has not been given are refused,
which leaves everything as it is. -/
structure HostBridge {State : Type} (ioOps : PsIoPortOps State) (Space : Type) where
  selected : State → BitVec 32
  functions : State → Target → Space
  refuses : BitVec 32 → IoSize → Bool
  cycle : Space → Access → Space × BitVec 32
  selects : ∀ s address,
    selected (ioOps.psIoPortOut s configAddr .iosize32 address).1 = address ∧
      functions (ioOps.psIoPortOut s configAddr .iosize32 address).1 = functions s
  reads : ∀ s (lane : BitVec 32) size, (selected s).msb = true → lane.toNat + size.bytes ≤ 4 →
    let target := decode (selected s)
    let access : Access := ⟨(selected s &&& 0xfc).toNat + lane.toNat, size, none⟩
    let (s', error, result) := ioOps.psIoPortIn s (configData + lane) size
    if refuses (configData + lane) size then error ≠ 0 ∧ functions s' = functions s
    else error = 0 ∧ result = (cycle (functions s target) access).2 ∧ functions s' =
      Function.update (functions s) target (cycle (functions s target) access).1
  writes : ∀ s (lane : BitVec 32) size val, (selected s).msb = true →
    lane.toNat + size.bytes ≤ 4 →
    let target := decode (selected s)
    let access : Access := ⟨(selected s &&& 0xfc).toNat + lane.toNat, size, some val⟩
    let (s', _) := ioOps.psIoPortOut s (configData + lane) size val
    functions s' = if refuses (configData + lane) size then functions s
      else Function.update (functions s) target (cycle (functions s target) access).1

/-! ## What a call means -/

namespace Operation

def size : Operation → IoSize
  | .read8 | .write8 _ => .iosize8
  | .read16 | .write16 _ => .iosize16
  | .read32 | .write32 _ => .iosize32

def written : Operation → Option (BitVec 32)
  | .read8 | .read16 | .read32 => none
  | .write8 val => some (val.setWidth 32)
  | .write16 val => some (val.setWidth 32)
  | .write32 val => some val

end Operation

def Call.access (call : Call) : Access where
  register := call.offset.toNat % 256 / call.operation.size.bytes * call.operation.size.bytes
  size := call.operation.size
  written := call.operation.written

def Call.target (call : Call) : Target :=
  decode (address call.bus call.dev call.fn call.offset)

def Call.Names (call : Call) (target : Target) : Prop :=
  call.bus = target.bus ∧ call.dev.toNat = target.dev.toNat ∧ call.fn.toNat = target.fn.toNat

def HostBridge.cycled {State Space : Type} {ioOps : PsIoPortOps State}
    (bridge : HostBridge ioOps Space) (space : Space) (access : Access) : Space × BitVec 32 :=
  if bridge.refuses (configData + BitVec.ofNat 32 (access.register % 4)) access.size then (space, 0)
  else bridge.cycle space access

/-- A function on its own, with the accesses that come to it. A read returns as many bytes as it
asks for, and nothing from a port that is refused. -/
def functionMachine {State Space : Type} {ioOps : PsIoPortOps State}
    (bridge : HostBridge ioOps Space) : Machine Space Access Answer where
  allowed _ _ := True
  step space access :=
    let (space, result) := bridge.cycled space access
    some (space, if access.written.isNone then
      some (BitVec.ofNat 32 (result.toNat % 256 ^ access.size.bytes)) else none)

def accessOf (target : Target) (step : Call × Answer) : Option (Access × Answer) :=
  if step.1.target = target then some (step.1.access, step.2) else none

theorem address_bus (bus dev fn : BitVec 8) (offset : BitVec 32) :
    (address bus dev fn offset).extractLsb' 16 8 = bus ||| dev >>> 5 := by
  apply BitVec.eq_of_getElem_eq
  intro i inside
  interval_cases i <;> simp [address, BitVec.getElem_extractLsb']

theorem address_dev (bus dev fn : BitVec 8) (offset : BitVec 32) :
    (address bus dev fn offset).extractLsb' 11 5 = (dev ||| fn >>> 3).setWidth 5 := by
  apply BitVec.eq_of_getElem_eq
  intro i inside
  interval_cases i <;> simp [address, BitVec.getElem_extractLsb']

theorem address_fn (bus dev fn : BitVec 8) (offset : BitVec 32) :
    (address bus dev fn offset).extractLsb' 8 3 = fn.setWidth 3 := by
  apply BitVec.eq_of_getElem_eq
  intro i inside
  interval_cases i <;> simp [address, BitVec.getElem_extractLsb']

theorem address_register (bus dev fn : BitVec 8) (offset : BitVec 32) :
    address bus dev fn offset &&& 0xfc = offset &&& 0xfc := by
  apply BitVec.eq_of_getElem_eq
  intro i inside
  interval_cases i <;> simp [address]

theorem address_enabled (bus dev fn : BitVec 8) (offset : BitVec 32) :
    (address bus dev fn offset).msb = true := by
  rw [address, BitVec.msb_or]
  exact Bool.or_true _

/-- Devices and functions that there are not run over into the next field. -/
theorem target_eq (call : Call) : call.target =
    ⟨call.bus ||| call.dev >>> 5, (call.dev ||| call.fn >>> 3).setWidth 5, call.fn.setWidth 3⟩ := by
  rw [Call.target, decode, address_bus, address_dev, address_fn]

/-- Nothing is left of a field that fits below the shift. -/
theorem ushiftRight_eq_zero_of_fits {field : BitVec 8} {n : Nat} (fits : field.toNat < 2 ^ n) :
    field >>> n = 0#8 := by
  apply BitVec.eq_of_toNat_eq
  rw [BitVec.toNat_ushiftRight, Nat.shiftRight_eq_div_pow]
  exact Nat.div_eq_of_lt fits

theorem names_target_iff (call : Call) :
    call.Names call.target ↔ call.dev.toNat < 32 ∧ call.fn.toNat < 8 := by
  rw [target_eq]
  constructor
  · rintro ⟨-, dev, fn⟩
    exact ⟨dev ▸ BitVec.isLt _, fn ▸ BitVec.isLt _⟩
  · rintro ⟨dev, fn⟩
    have above : call.dev >>> 5 = 0#8 := ushiftRight_eq_zero_of_fits dev
    have beyond : call.fn >>> 3 = 0#8 := ushiftRight_eq_zero_of_fits fn
    rw [above, beyond, BitVec.or_zero, BitVec.or_zero]
    refine ⟨rfl, ?_, ?_⟩
    · rw [BitVec.toNat_setWidth]
      exact (Nat.mod_eq_of_lt dev).symm
    · rw [BitVec.toNat_setWidth]
      exact (Nat.mod_eq_of_lt fn).symm

/-! ## The port of an access -/

def IoSize.lanes : IoSize → BitVec 32
  | .iosize8 => 3
  | .iosize16 => 2
  | .iosize32 => 0

theorem and_dword (offset : BitVec 32) :
    (offset &&& 0xfc).toNat = offset.toNat % 256 / 4 * 4 := by
  have fields : offset &&& (0xfc : BitVec 32) = (offset.extractLsb' 2 6).setWidth 32 <<< 2 := by
    apply BitVec.eq_of_getElem_eq
    intro i inside
    interval_cases i <;> simp
  rw [fields, BitVec.toNat_shiftLeft, BitVec.toNat_setWidth, BitVec.extractLsb'_toNat,
    Nat.shiftRight_eq_div_pow, Nat.shiftLeft_eq]
  omega

theorem and_lanes (size : IoSize) (offset : BitVec 32) :
    (offset &&& size.lanes).toNat = offset.toNat % 4 / size.bytes * size.bytes := by
  cases size with
  | iosize8 =>
    have low := Nat.and_two_pow_sub_one_eq_mod offset.toNat 2
    simp only [IoSize.lanes, IoSize.bytes, BitVec.toNat_and]
    exact low.trans (by omega)
  | iosize16 =>
    have field : offset &&& (2 : BitVec 32) = (offset.extractLsb' 1 1).setWidth 32 <<< 1 := by
      apply BitVec.eq_of_getElem_eq
      intro i inside
      interval_cases i <;> simp
    simp only [IoSize.lanes, IoSize.bytes]
    rw [field, BitVec.toNat_shiftLeft, BitVec.toNat_setWidth, BitVec.extractLsb'_toNat,
      Nat.shiftRight_eq_div_pow, Nat.shiftLeft_eq]
    omega
  | iosize32 =>
    have none : offset &&& (0 : BitVec 32) = 0 := BitVec.and_zero
    simp only [IoSize.lanes, IoSize.bytes, none]
    show 0 = _
    omega

theorem lane_within (size : IoSize) (offset : BitVec 32) :
    (offset &&& size.lanes).toNat + size.bytes ≤ 4 := by
  rw [and_lanes]
  cases size with
  | iosize8 | iosize16 | iosize32 =>
    simp only [IoSize.bytes]
    omega

theorem lane_register (size : IoSize) (offset : BitVec 32) :
    (offset &&& 0xfc).toNat + (offset &&& size.lanes).toNat =
      offset.toNat % 256 / size.bytes * size.bytes := by
  rw [and_dword, and_lanes]
  cases size with
  | iosize8 | iosize16 | iosize32 =>
    simp only [IoSize.bytes]
    omega

theorem lane_port (size : IoSize) (offset : BitVec 32) :
    BitVec.ofNat 32 (offset.toNat % 256 / size.bytes * size.bytes % 4) =
      offset &&& size.lanes := by
  apply BitVec.eq_of_toNat_eq
  rw [and_lanes, BitVec.toNat_ofNat]
  cases size with
  | iosize8 | iosize16 | iosize32 =>
    simp only [IoSize.bytes]
    omega

theorem truncated (bytes : Nat) (result : BitVec 32) :
    (result.setWidth (8 * bytes)).setWidth 32 = BitVec.ofNat 32 (result.toNat % 256 ^ bytes) := by
  apply BitVec.eq_of_toNat_eq
  have power : 256 ^ bytes = 2 ^ (8 * bytes) := by rw [Nat.pow_mul]
  rw [BitVec.toNat_setWidth, BitVec.toNat_setWidth, BitVec.toNat_ofNat, power]

/-! ## Calls -/

section
variable {State Space : Type} {ioOps : PsIoPortOps State} (bridge : HostBridge ioOps Space)

/-- What is selected by a call, whatever was before. -/
theorem configSelect_spec (s : State) (bus dev fn : BitVec 8) (offset : BitVec 32) :
    bridge.selected (configSelect ioOps s bus dev fn offset) = address bus dev fn offset ∧
      bridge.functions (configSelect ioOps s bus dev fn offset) = bridge.functions s :=
  bridge.selects s _

def accessAt (offset : BitVec 32) (size : IoSize) (written : Option (BitVec 32)) : Access :=
  ⟨offset.toNat % 256 / size.bytes * size.bytes, size, written⟩

theorem pciConfigRead_spec (size : IoSize) (s : State) (bus dev fn : BitVec 8)
    (offset : BitVec 32) :
    let target := decode (address bus dev fn offset)
    let after := pciConfigRead ioOps size size.lanes s bus dev fn offset
    let cycled := bridge.cycled (bridge.functions s target) (accessAt offset size none)
    bridge.functions after.1 = Function.update (bridge.functions s) target cycled.1 ∧
      after.2 = cycled.2 := by
  intro target after cycled
  obtain ⟨selected, functions⟩ := configSelect_spec bridge s bus dev fn offset
  have law := bridge.reads (configSelect ioOps s bus dev fn offset) (offset &&& size.lanes) size
    (selected ▸ address_enabled bus dev fn offset) (lane_within size offset)
  simp only [selected, functions, address_register, lane_register] at law
  have port := lane_port size offset
  simp only [after, pciConfigRead, cycled, HostBridge.cycled, accessAt, port]
  split at law
  · next refused =>
    rw [if_pos refused, if_pos law.1, Function.update_eq_self]
    exact ⟨law.2, rfl⟩
  · next granted =>
    rw [if_neg granted, if_neg (not_not.mpr law.1)]
    exact ⟨law.2.2, law.2.1⟩

theorem pciConfigWrite_spec (size : IoSize) (s : State) (bus dev fn : BitVec 8)
    (offset val : BitVec 32) :
    let target := decode (address bus dev fn offset)
    let cycled := bridge.cycled (bridge.functions s target) (accessAt offset size (some val))
    bridge.functions (pciConfigWrite ioOps size size.lanes s bus dev fn offset val) =
      Function.update (bridge.functions s) target cycled.1 := by
  intro target cycled
  obtain ⟨selected, functions⟩ := configSelect_spec bridge s bus dev fn offset
  have law := bridge.writes (configSelect ioOps s bus dev fn offset) (offset &&& size.lanes) size
    val (selected ▸ address_enabled bus dev fn offset) (lane_within size offset)
  simp only [selected, functions, address_register, lane_register] at law
  have port := lane_port size offset
  simp only [pciConfigWrite, cycled, HostBridge.cycled, accessAt, port, law]
  split
  · rw [Function.update_eq_self]
  · rfl

/-- A call is an access to its function, and nothing happens to the others. -/
def Reaches (s : State) (call : Call) (s' : State) (answer : Answer) : Prop :=
  (functionMachine bridge).step (bridge.functions s call.target) call.access =
      some (bridge.functions s' call.target, answer) ∧
    ∀ other, other ≠ call.target → bridge.functions s' other = bridge.functions s other

theorem reaches_of_cycled {s s' : State} {call : Call} {answer : Answer}
    (functions : bridge.functions s' = Function.update (bridge.functions s) call.target
      (bridge.cycled (bridge.functions s call.target) call.access).1)
    (answered : answer = if call.access.written.isNone then
      some (BitVec.ofNat 32 ((bridge.cycled (bridge.functions s call.target) call.access).2.toNat %
        256 ^ call.access.size.bytes)) else none) : Reaches bridge s call s' answer := by
  constructor
  · rw [functions, Function.update_self, answered]
    rfl
  · intro other different
    rw [functions, Function.update_of_ne different]

theorem serve_reaches (s : State) (call : Call) :
    Reaches bridge s call (serve ioOps s call).1 (serve ioOps s call).2 := by
  obtain ⟨bus, dev, fn, offset, operation⟩ := call
  have read := fun size => pciConfigRead_spec bridge size s bus dev fn offset
  have write := fun size => pciConfigWrite_spec bridge size s bus dev fn offset
  cases operation with
  | read8 =>
    obtain ⟨functions, result⟩ := read .iosize8
    refine reaches_of_cycled bridge functions (congrArg some ?_)
    exact (congrArg (fun r => (r.setWidth 8).setWidth 32) result).trans (truncated 1 _)
  | read16 =>
    obtain ⟨functions, result⟩ := read .iosize16
    refine reaches_of_cycled bridge functions (congrArg some ?_)
    exact (congrArg (fun r => (r.setWidth 16).setWidth 32) result).trans (truncated 2 _)
  | read32 =>
    obtain ⟨functions, result⟩ := read .iosize32
    refine reaches_of_cycled bridge functions (congrArg some ?_)
    exact result.trans ((BitVec.setWidth_eq _).symm.trans (truncated 4 _))
  | write8 val => exact reaches_of_cycled bridge (write .iosize8 (val.setWidth 32)) rfl
  | write16 val => exact reaches_of_cycled bridge (write .iosize16 (val.setWidth 32)) rfl
  | write32 val => exact reaches_of_cycled bridge (write .iosize32 val) rfl

def functionOf (target : Target) :
    Projection (component ioOps) (functionMachine bridge) (fun _ => True) where
  view s := bridge.functions s target
  own := accessOf target
  others := by
    intro before call after answer _ _ step other
    have apart : target ≠ call.target := by
      intro same
      rw [accessOf, if_pos same.symm] at other
      cases other
    have served : serve ioOps before call = (after, answer) := Option.some.inj step
    have reached := serve_reaches bridge before call
    rw [served] at reached
    exact reached.2 target apart
  steps := by
    intro before call after answer access answer' _ _ step mine
    have served : serve ioOps before call = (after, answer) := Option.some.inj step
    have reached := serve_reaches bridge before call
    rw [served] at reached
    unfold accessOf at mine
    split at mine
    · next same =>
      cases mine
      rw [← same]
      exact ⟨True.intro, reached.1⟩
    · cases mine

/-- Every function has got exactly the accesses of the calls that end up at it, with the answers that
it gives on its own, whatever else is accessed in between. A call ends up at the function that it
names exactly if there are such a device and such a function on a bus. -/
theorem calls_reach_functions {s final : State} {trace : List (Call × Answer)}
    (run : (component ioOps).Run s trace final) :
    (∀ target, (functionMachine bridge).Run (bridge.functions s target)
      (trace.filterMap (accessOf target)) (bridge.functions final target)) ∧
    ∀ call : Call, call.Names call.target ↔ call.dev.toNat < 32 ∧ call.fn.toNat < 8 :=
  ⟨fun target => (functionOf bridge target).run run fun _ _ _ => True.intro, names_target_iff⟩

end

/-! ## A bridge -/

structure Board where
  selected : BitVec 32
  spaces : Target → Nat → BitVec 8

namespace Board

/-- The lowest byte comes first. -/
def cycle (space : Nat → BitVec 8) (access : Access) : (Nat → BitVec 8) × BitVec 32 :=
  match access.written with
  | none =>
    (space, (List.range access.size.bytes).foldr
      (fun i result => result <<< 8 ||| (space (access.register + i)).setWidth 32) 0)
  | some val =>
    (fun register =>
      if access.register ≤ register ∧ register < access.register + access.size.bytes then
        (val >>> (8 * (register - access.register))).setWidth 8
      else space register, 0)

def access (board : Board) (port : BitVec 32) (size : IoSize) (written : Option (BitVec 32)) :
    Board × BitVec 32 :=
  let target := decode board.selected
  let register := (board.selected &&& 0xfc).toNat + (port - configData).toNat
  let (space, result) := cycle (board.spaces target) ⟨register, size, written⟩
  ({ board with spaces := Function.update board.spaces target space }, result)

def ports : PsIoPortOps Board where
  psIoPortIn board port size :=
    let (board, result) := board.access port size none
    (board, 0, result)
  psIoPortOut board port size val :=
    if port = configAddr then ({ board with selected := val }, 0)
    else ((board.access port size (some val)).1, 0)

theorem lane_eq (lane : BitVec 32) : configData + lane - configData = lane := by
  rw [BitVec.add_comm, BitVec.add_sub_cancel]

def bridge : HostBridge ports (Nat → BitVec 8) where
  selected := Board.selected
  functions := Board.spaces
  refuses _ _ := false
  cycle := cycle
  selects _ _ := ⟨rfl, rfl⟩
  reads board lane size _ _ := by
    simp only [ports, access, lane_eq]
    trivial
  writes board lane size val _ within := by
    have other : configData + lane ≠ configAddr := by
      intro same
      have low : lane = configAddr - configData := by rw [← same, lane_eq]
      rw [low] at within
      have far : (configAddr - configData).toNat = 4294967292 := by decide
      omega
    simp only [ports, if_neg other, access, lane_eq]
    rfl

end Board

theorem calls_reach_functions_byte : ∃ trace final,
    (component Board.ports).Run ⟨0, fun _ _ => 0⟩ trace final ∧
      trace.map Prod.snd = [none, none, some 7] ∧
      (∀ target, (functionMachine Board.bridge).Run (fun _ => 0)
        (trace.filterMap (accessOf target)) (final.spaces target)) ∧
      ∀ call : Call, call.Names call.target ↔ call.dev.toNat < 32 ∧ call.fn.toNat < 8 := by
  have begun : (component Board.ports).Run ⟨0, fun _ _ => 0⟩ [] _ := .start
  have written := begun.on ⟨0, 3, 1, 5, .write8 7⟩ True.intro rfl
  have other := written.on ⟨0, 3, 2, 5, .write16 0x0908⟩ True.intro rfl
  have read := other.on ⟨0, 3, 1, 5, .read8⟩ True.intro rfl
  exact ⟨_, _, read, by decide, calls_reach_functions Board.bridge read⟩

end GlobalComponents.PCIConfigIO
