import GlobalComponents.Library.FirstCome
import Mathlib.Logic.Function.Basic

/-! The clocks of the clock server.

A clock belongs to the client that initialised it. The platform's clock code is outside the server:
what its functions return comes with the request.
-/

set_option autoImplicit false

namespace GlobalComponents.ClockServer

open Library

def eperm : Int32 := 1
def ebusy : Int32 := 16
def enodev : Int32 := 19
def einval : Int32 := 22

/-- `NCLOCKS` is the platform's. -/
def checkValidClkId (nclocks : Nat) (clkId : Int32) : Bool :=
  decide (0 ≤ clkId) && decide (clkId.toInt.toNat < nclocks)

abbrev ClkId (nclocks : Nat) : Type := {clkId : Int32 // checkValidClkId nclocks clkId = true}

/-- `clk` may be null. -/
structure ClockEntry (Clk : Type) where
  initialised : Bool
  owner : UInt64
  clk : Option Clk

variable {nclocks : Nat} {Clk : Type}

abbrev Table (nclocks : Nat) (Clk : Type) : Type := ClkId nclocks → ClockEntry Clk

def clockServerInit (nclocks : Nat) (Clk : Type) : Table nclocks Clk := fun _ => ⟨false, 0, none⟩

def checkClkInitialised (table : Table nclocks Clk) (clkId : ClkId nclocks) : Bool :=
  (table clkId).initialised

def checkIsOwner (table : Table nclocks Clk) (clkId : ClkId nclocks) (client : UInt64) : Bool :=
  (table clkId).owner == client

inductive Call (nclocks : Nat) (Clk : Type) where
  | clkGetFreq (clkId : ClkId nclocks) (clk : Option Clk)
  | clkSetFreq (clkId : ClkId nclocks) (clk : Option Clk) (hz : UInt64)
  | clkRegisterChild (parent child : ClkId nclocks) (parentClk childClk : Option Clk)

inductive Refusal where
  | invalidClock
  | busy
  | noDevice
  | notInitialised
  | notOwner
  deriving DecidableEq

inductive Answer where
  | status (error : Int32)
  | freq (hz : UInt64)
  deriving DecidableEq

structure Reply (nclocks : Nat) (Clk : Type) where
  answer : Answer
  refusal : Option Refusal
  calls : List (Call nclocks Clk)

def refuse (answer : Answer) (refusal : Refusal) : Reply nclocks Clk := ⟨answer, some refusal, []⟩

/-- `found` is what `clk_get_clock` returns. -/
def theClockInitClock (table : Table nclocks Clk) (client : UInt64) (clkId : Int32)
    (found : Option Clk) : Table nclocks Clk × Reply nclocks Clk :=
  if valid : checkValidClkId nclocks clkId = true then
    let id : ClkId nclocks := ⟨clkId, valid⟩
    if checkClkInitialised table id then
      if !checkIsOwner table id client then (table, refuse (.status (-ebusy)) .busy)
      else (table, ⟨.status 0, none, []⟩)
    else
      -- the null pointer that was found stays in the entry
      let entry := { table id with clk := found }
      if found.isNone then (Function.update table id entry, refuse (.status (-enodev)) .noDevice)
      else (Function.update table id { entry with initialised := true, owner := client },
        ⟨.status 0, none, []⟩)
  else (table, refuse (.status (-einval)) .invalidClock)

def theClockGetFreq (table : Table nclocks Clk) (client : UInt64) (clkId : Int32)
    (driver : UInt64) : Reply nclocks Clk :=
  if valid : checkValidClkId nclocks clkId = true then
    let id : ClkId nclocks := ⟨clkId, valid⟩
    if !checkClkInitialised table id then refuse (.freq 0) .notInitialised
    else if !checkIsOwner table id client then refuse (.freq 0) .notOwner
    else ⟨.freq driver, none, [.clkGetFreq id (table id).clk]⟩
  else refuse (.freq 0) .invalidClock

def theClockSetFreq (table : Table nclocks Clk) (client : UInt64) (clkId : Int32) (hz : UInt64)
    (driver : UInt64) : Reply nclocks Clk :=
  if valid : checkValidClkId nclocks clkId = true then
    let id : ClkId nclocks := ⟨clkId, valid⟩
    if !checkClkInitialised table id then refuse (.freq 0) .notInitialised
    else if !checkIsOwner table id client then refuse (.freq 0) .notOwner
    else ⟨.freq driver, none, [.clkSetFreq id (table id).clk hz]⟩
  else refuse (.freq 0) .invalidClock

def theClockRegisterChild (table : Table nclocks Clk) (client : UInt64) (parent child : Int32) :
    Reply nclocks Clk :=
  if valid : checkValidClkId nclocks parent = true ∧ checkValidClkId nclocks child = true then
    let parentId : ClkId nclocks := ⟨parent, valid.1⟩
    let childId : ClkId nclocks := ⟨child, valid.2⟩
    if !checkClkInitialised table parentId then refuse (.status (-eperm)) .notInitialised
    else if !checkIsOwner table parentId client then refuse (.status (-eperm)) .notOwner
    else if !checkClkInitialised table childId then refuse (.status (-eperm)) .notInitialised
    else if !checkIsOwner table childId client then refuse (.status (-eperm)) .notOwner
    else ⟨.status 0, none,
      [.clkRegisterChild parentId childId (table parentId).clk (table childId).clk]⟩
  else refuse (.status (-einval)) .invalidClock

inductive Request where
  | initClock (clkId : Int32)
  | getFreq (clkId : Int32)
  | setFreq (clkId : Int32) (hz : UInt64)
  | registerChild (parent child : Int32)
  deriving DecidableEq

/-- `client` is the sender's id; `found` and `driver` are what the platform's code returns. -/
structure Event (Clk : Type) where
  client : UInt64
  request : Request
  found : Option Clk
  driver : UInt64

def serve (table : Table nclocks Clk) (event : Event Clk) : Table nclocks Clk × Reply nclocks Clk :=
  match event.request with
  | .initClock clkId => theClockInitClock table event.client clkId event.found
  | .getFreq clkId => (table, theClockGetFreq table event.client clkId event.driver)
  | .setFreq clkId hz => (table, theClockSetFreq table event.client clkId hz event.driver)
  | .registerChild parent child => (table, theClockRegisterChild table event.client parent child)

def server (nclocks : Nat) (Clk : Type) :
    Machine (Table nclocks Clk) (Event Clk) (Reply nclocks Clk) where
  allowed _ _ := True
  step table event := some (serve table event)

end GlobalComponents.ClockServer
