import GlobalComponents.Library.FirstCome
import Mathlib.Logic.Function.Basic

/-! The pins of the GPIO server.

The table keeps an owner for each pin; the pins are first come first served, and there is no way to
disable them. A word of ones stands for the owner of a pin that nobody has.
-/

set_option autoImplicit false

namespace GlobalComponents.GPIOMUXServer

open Library

/-- What the platform's headers and the generated connector fix. -/
structure Platform where
  /-- `MAX_GPIO_ID + 1` -/
  gpioTableSize : Nat
  gpioDirIrqLow : Int32
  gpioDirIrqEdge : Int32
  gpioLevelHigh : Int32
  gpioLevelLow : Int32
  /-- Badges with the pins that their clients ask for. -/
  clientAllocatedPins : List (UInt64 × List Int32)

def einval : Int32 := 22
def ebusy : Int32 := 16

def noOwner : UInt64 := -1

def Platform.getPinAssignee (platform : Platform) (pin : Int32) : UInt64 :=
  match platform.clientAllocatedPins.find? fun client => decide (pin ∈ client.2) with
  | some client => client.1
  | none => 0

def checkValidGpioId (platform : Platform) (pin : Int32) : Bool :=
  !(pin < 0 || platform.gpioTableSize ≤ pin.toInt.toNat)

abbrev Pin (platform : Platform) : Type := {pin : Int32 // checkValidGpioId platform pin = true}

structure GpioEntry (Gpio : Type) where
  initialised : Bool
  owner : UInt64
  gpio : Gpio

variable {platform : Platform} {Gpio : Type}

abbrev Table (platform : Platform) (Gpio : Type) : Type := Pin platform → GpioEntry Gpio

def gpioComponentInit (platform : Platform) (zero : Gpio) : Table platform Gpio :=
  fun _ => ⟨false, noOwner, zero⟩

def checkPinInitialised (table : Table platform Gpio) (pin : Pin platform) : Bool :=
  (table pin).initialised

def checkClientOwnsPin (table : Table platform Gpio) (pin : Pin platform) (client : UInt64) : Bool :=
  (table pin).owner == client

inductive Call (platform : Platform) (Gpio : Type) where
  | gpioNew (pin : Pin platform) (dir : Int32) (error : Int32)
  | gpioSet (pin : Pin platform) (gpio : Gpio)
  | gpioClr (pin : Pin platform) (gpio : Gpio)
  | gpioGet (pin : Pin platform) (gpio : Gpio)

inductive Refusal where
  | invalidPin
  | irqDirection
  | reserved
  | taken
  | notOwner
  | invalidLevel
  deriving DecidableEq

def Refusal.error : Refusal → Int32
  | .invalidPin => -einval
  | .irqDirection => -einval
  | .reserved => -ebusy
  | .taken => -ebusy
  | .notOwner => -einval
  | .invalidLevel => -einval

structure Reply (platform : Platform) (Gpio : Type) where
  ret : Int32
  refusal : Option Refusal
  calls : List (Call platform Gpio)

def refuse (refusal : Refusal) : Reply platform Gpio := ⟨refusal.error, some refusal, []⟩

/-- The caller's id becomes a pin id by losing its upper half. -/
def clientAsPin (client : UInt64) : Int32 := client.toUInt32.toInt32

def irqDir (platform : Platform) (dir : Int32) : Bool :=
  platform.gpioDirIrqLow ≤ dir && dir ≤ platform.gpioDirIrqEdge

/-- `new` is what `gpio_new` returns and what it leaves in the entry. -/
def theGpioInitPin (table : Table platform Gpio) (client : UInt64) (pinId dir : Int32)
    (new : Int32 × Gpio) : Table platform Gpio × Reply platform Gpio :=
  if valid : checkValidGpioId platform pinId = true then
    let pin : Pin platform := ⟨pinId, valid⟩
    if irqDir platform dir then (table, refuse .irqDirection)
    else if checkClientOwnsPin table pin client then (table, ⟨0, none, []⟩)
    -- the assignee is looked up under the caller's id
    else if platform.getPinAssignee (clientAsPin client) != 0 then (table, refuse .reserved)
    else if checkPinInitialised table pin then (table, refuse .taken)
    else
      let entry := { table pin with gpio := new.2 }
      -- the table keeps what `gpio_new` has written even when it fails
      if new.1 != 0 then
        (Function.update table pin entry, ⟨new.1, none, [.gpioNew pin dir new.1]⟩)
      else
        (Function.update table pin { entry with initialised := true, owner := client },
          ⟨new.1, none, [.gpioNew pin dir new.1]⟩)
  else (table, refuse .invalidPin)

def theGpioSetLevel (table : Table platform Gpio) (client : UInt64) (pinId level driver : Int32) :
    Table platform Gpio × Reply platform Gpio :=
  if valid : checkValidGpioId platform pinId = true then
    let pin : Pin platform := ⟨pinId, valid⟩
    if !checkClientOwnsPin table pin client then (table, refuse .notOwner)
    else if level == platform.gpioLevelHigh then
      (table, ⟨driver, none, [.gpioSet pin (table pin).gpio]⟩)
    else if level == platform.gpioLevelLow then
      (table, ⟨driver, none, [.gpioClr pin (table pin).gpio]⟩)
    else (table, refuse .invalidLevel)
  else (table, refuse .invalidPin)

def theGpioReadLevel (table : Table platform Gpio) (client : UInt64) (pinId driver : Int32) :
    Table platform Gpio × Reply platform Gpio :=
  if valid : checkValidGpioId platform pinId = true then
    let pin : Pin platform := ⟨pinId, valid⟩
    if !checkClientOwnsPin table pin client then (table, refuse .notOwner)
    else (table, ⟨driver, none, [.gpioGet pin (table pin).gpio]⟩)
  else (table, refuse .invalidPin)

inductive Request (Gpio : Type) where
  | initPin (pinId dir : Int32) (new : Int32 × Gpio)
  | setLevel (pinId level driver : Int32)
  | readLevel (pinId driver : Int32)

structure Event (Gpio : Type) where
  client : UInt64
  request : Request Gpio

def serve (table : Table platform Gpio) (event : Event Gpio) :
    Table platform Gpio × Reply platform Gpio :=
  match event.request with
  | .initPin pinId dir new => theGpioInitPin table event.client pinId dir new
  | .setLevel pinId level driver => theGpioSetLevel table event.client pinId level driver
  | .readLevel pinId driver => theGpioReadLevel table event.client pinId driver

def server (platform : Platform) (Gpio : Type) (callers : UInt64 → Prop) :
    Machine (Table platform Gpio) (Event Gpio) (Reply platform Gpio) where
  allowed _ event := callers event.client
  step table event := some (serve table event)

end GlobalComponents.GPIOMUXServer
