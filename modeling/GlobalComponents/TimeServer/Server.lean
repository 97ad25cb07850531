import GlobalComponents.Library.Run
import Mathlib.Data.Int.Init
import Mathlib.Data.UInt
import Mathlib.Logic.Function.Basic
import Mathlib.Tactic.Linarith

/-! The TimeServer: the timers of all clients behind one time manager.

A C `int` is an `Int32`, an `unsigned int` a `UInt32`. The time manager answers through the events; it
keeps a callback and its token for each id, and calls `signal_client` with the token. Every entry point
runs under the lock of the server.
-/

set_option autoImplicit false

namespace GlobalComponents.TimeServer

open Library

structure Config where
  timersPerClient : Int32
  /-- `the_timer_largest_badge()` -/
  largestBadge : Int32
  /-- The bits of an `unsigned long`. -/
  wordBits : Nat
  /-- What a shift of 1 by more than an `unsigned long` comes to, which C leaves open. -/
  overshift : Int32 → UInt64

structure Registration where
  periodic : Bool
  token : UInt64
  deriving DecidableEq

/-- `the_timer_emit`, with the word of the client at that time. -/
structure Emission where
  badge : UInt32
  word : UInt32
  deriving DecidableEq

structure Server where
  clientState : Nat → UInt32
  /-- The time manager. -/
  registered : Nat → Option Registration
  /-- All notifications, the oldest first; no step reads them. -/
  emitted : List Emission

inductive TmResult where
  | ok
  | etime
  | error
  deriving DecidableEq

def getTimeToken (config : Config) (cid tid : Int32) : UInt32 :=
  cid.toUInt32 * config.timersPerClient.toUInt32 + tid.toUInt32

/-- `BIT(tid)` -/
def bit (config : Config) (tid : Int32) : UInt64 :=
  if 0 ≤ tid.toInt ∧ tid.toInt < config.wordBits then
    UInt64.ofNat (2 ^ tid.toInt.toNat)
  else config.overshift tid

def tokenInt (token : UInt64) : Int32 := token.toUInt32.toInt32

/-- `none` is an access outside `client_state`. -/
def signalClient (config : Config) (s : Server) (token : UInt64) : Option Server :=
  let cid := tokenInt token / config.timersPerClient
  let tid := tokenInt token % config.timersPerClient
  if cid < 0 ∨ config.largestBadge ≤ cid then none
  else
    let c := cid.toInt.toNat
    -- the bit is set before the client is notified
    let word := s.clientState c ||| (bit config tid).toUInt32
    some { s with
      clientState := Function.update s.clientState c word
      emitted := s.emitted ++ [⟨(cid + 1).toUInt32, word⟩] }

def Server.register (s : Server) (id : UInt32) (registration : Registration) : Server :=
  { s with registered := Function.update s.registered id.toNat (some registration) }

def Server.deregister (s : Server) (id : Nat) : Server :=
  { s with registered := Function.update s.registered id none }

def invalidTid (config : Config) (tid : Int32) : Bool := config.timersPerClient ≤ tid || tid < 0

/-- `error` is what `tm_register_rel_cb` returns, as in the functions below. -/
def oneshotRelative (config : Config) (s : Server) (cid tid : Int32) (error : Bool) :
    Option (Server × Int32) :=
  if invalidTid config tid then some (s, -1)
  else
    let id := getTimeToken config cid tid
    if error then none else some (s.register id ⟨false, id.toUInt64⟩, 0)

def oneshotAbsolute (config : Config) (s : Server) (cid tid : Int32) (result : TmResult) :
    Option (Server × Int32) :=
  if invalidTid config tid then some (s, -1)
  else
    let token := getTimeToken config cid tid
    match result with
    | .ok => some (s.register token ⟨false, token.toUInt64⟩, 0)
    | .etime => (signalClient config s token.toUInt64).map fun s => (s, 0)
    | .error => none

def periodic (config : Config) (s : Server) (cid tid : Int32) (error : Bool) :
    Option (Server × Int32) :=
  if invalidTid config tid then some (s, -1)
  else
    let token := getTimeToken config cid tid
    if error then none else some (s.register token ⟨true, token.toUInt64⟩, 0)

def stop (config : Config) (s : Server) (cid tid : Int32) (error : Bool) :
    Option (Server × Int32) :=
  if invalidTid config tid then some (s, -1)
  else if error then none
  else some (s.deregister (getTimeToken config cid tid).toNat, 0)

def completed (config : Config) (s : Server) (cid : Int32) : Option (Server × UInt32) :=
  if cid < 0 ∨ config.largestBadge ≤ cid then none
  else
    let c := cid.toInt.toNat
    some ({ s with clientState := Function.update s.clientState c 0 }, s.clientState c)

inductive Call where
  | oneshotRelative (id : Int32) (error : Bool)
  | oneshotAbsolute (id : Int32) (result : TmResult)
  | periodic (id : Int32) (error : Bool)
  | stop (id : Int32) (error : Bool)
  | completed
  deriving DecidableEq

inductive Event where
  /-- An RPC with the badge of its sender. -/
  | call (senderId : UInt64) (call : Call)
  /-- The time manager calls back for an id. -/
  | fire (id : Nat)
  deriving DecidableEq

inductive Reply where
  | int (ret : Int32)
  | word (ret : UInt32)
  | none
  deriving DecidableEq

/-- `the_timer_get_sender_id() - 1` -/
def clientId (senderId : UInt64) : Int32 := (senderId - 1).toUInt32.toInt32

def theTimer (config : Config) (s : Server) (senderId : UInt64) :
    Call → Option (Server × Reply)
  | .oneshotRelative id error =>
    (oneshotRelative config s (clientId senderId) id error).map fun (s, ret) => (s, .int ret)
  | .oneshotAbsolute id result =>
    (oneshotAbsolute config s (clientId senderId) id result).map fun (s, ret) => (s, .int ret)
  | .periodic id error =>
    (periodic config s (clientId senderId) id error).map fun (s, ret) => (s, .int ret)
  | .stop id error => (stop config s (clientId senderId) id error).map fun (s, ret) => (s, .int ret)
  | .completed => (completed config s (clientId senderId)).map fun (s, ret) => (s, .word ret)

/-- The time manager calls the callback; what is not periodic is gone before. -/
def fire (config : Config) (s : Server) (id : Nat) : Option Server :=
  match s.registered id with
  | none => none
  | some registration =>
    -- the token says which client and which timer it is
    signalClient config (if registration.periodic then s else s.deregister id) registration.token

def Server.step (config : Config) (s : Server) : Event → Option (Server × Reply)
  | .call senderId call => theTimer config s senderId call
  | .fire id => (fire config s id).map fun s => (s, .none)

def numTimers (config : Config) : Int32 := config.timersPerClient * config.largestBadge

def Server.init : Server where
  clientState := fun _ => 0
  registered := fun _ => none
  emitted := []

/-- `none` when the number of timers is no `int`, which C leaves undefined. -/
def postInit (config : Config) : Option Server :=
  if config.largestBadge.toInt * config.timersPerClient.toInt < 2 ^ 31 then some .init else none

/-- The badges of the clients are 1 up to the largest, and the time manager calls back for ids with a
registration. -/
def Server.permits (config : Config) (s : Server) : Event → Prop
  | .call senderId _ => 1 ≤ senderId ∧ senderId.toNat ≤ config.largestBadge.toInt
  | .fire id => s.registered id ≠ none

instance (config : Config) (s : Server) : (event : Event) → Decidable (s.permits config event)
  | .call senderId _ =>
    inferInstanceAs (Decidable (1 ≤ senderId ∧ senderId.toNat ≤ config.largestBadge.toInt))
  | .fire id => inferInstanceAs (Decidable (s.registered id ≠ none))

def machine (config : Config) : Machine Server Event Reply where
  allowed := Server.permits config
  step := Server.step config

end GlobalComponents.TimeServer
