import GlobalComponents.GPIOMUXServer.Gpio

/-! A pin has one owner for ever.

The owner of an entry is looked at before the entry is known to be initialised. What links the two is
that nobody is the owner of exactly the pins that are not initialised.
-/

set_option autoImplicit false

namespace GlobalComponents.GPIOMUXServer

open Library

variable {platform : Platform} {Gpio : Type} {callers : UInt64 → Prop}

def Call.isNew (pin : Pin platform) : Call platform Gpio → Bool
  | .gpioNew new _ error => new = pin && error == 0
  | .gpioSet _ _ => false
  | .gpioClr _ _ => false
  | .gpioGet _ _ => false

def Call.uses (pin : Pin platform) : Call platform Gpio → Bool
  | .gpioNew _ _ _ => false
  | .gpioSet used _ => used = pin
  | .gpioClr used _ => used = pin
  | .gpioGet used _ => used = pin

theorem Call.isNew_gpioNew {new pin : Pin platform} {dir error : Int32} :
    Call.isNew pin (.gpioNew new dir error : Call platform Gpio) = true ↔ new = pin ∧ error = 0 := by
  simp [isNew]

def grant (entry : Event Gpio × Reply platform Gpio) (pin : Pin platform) : Option UInt64 :=
  if entry.2.calls.any (Call.isNew pin) then some entry.1.client else none

def holder (table : Table platform Gpio) (pin : Pin platform) : Option UInt64 :=
  if (table pin).initialised then some (table pin).owner else none

def SameOwner (before after : GpioEntry Gpio) : Prop :=
  after.initialised = before.initialised ∧ after.owner = before.owner

inductive Served (platform : Platform) (before after : Table platform Gpio) (event : Event Gpio)
    (reply : Reply platform Gpio) : Prop where
  | refused (refusal : Refusal) : after = before → reply = refuse refusal →
      Served platform before after event reply
  | owned (pin : Pin platform) : after = before → (before pin).owner = event.client →
      (∀ call ∈ reply.calls, ∀ other, Call.isNew other call = false ∧
        (Call.uses other call = true → pin = other)) →
      Served platform before after event reply
  | failed (pin : Pin platform) (dir error : Int32) (gpio : Gpio) : error ≠ 0 →
      after = Function.update before pin { before pin with gpio } →
      reply = ⟨error, none, [.gpioNew pin dir error]⟩ → Served platform before after event reply
  | granted (pin : Pin platform) (dir : Int32) (gpio : Gpio) :
      event.request = .initPin pin.1 dir (0, gpio) →
      (before pin).initialised = false → (before pin).owner ≠ event.client →
      after = Function.update before pin ⟨true, event.client, gpio⟩ →
      reply = ⟨0, none, [.gpioNew pin dir 0]⟩ → Served platform before after event reply

theorem theGpioInitPin_served (table : Table platform Gpio) (client : UInt64) (pinId dir : Int32)
    (new : Int32 × Gpio) :
    Served platform table (theGpioInitPin table client pinId dir new).1
      ⟨client, .initPin pinId dir new⟩ (theGpioInitPin table client pinId dir new).2 := by
  rw [theGpioInitPin]
  split
  · next valid =>
    dsimp only
    split
    · exact .refused .irqDirection rfl rfl
    split
    · next owns => exact .owned ⟨pinId, valid⟩ rfl (eq_of_beq owns) (by simp)
    next other =>
    split
    · exact .refused .reserved rfl rfl
    split
    · exact .refused .taken rfl rfl
    next fresh =>
    split
    · next error => exact .failed ⟨pinId, valid⟩ dir new.1 new.2 (by simpa using error) rfl rfl
    · next done =>
      have zero : new.1 = 0 := by simpa using done
      apply Served.granted ⟨pinId, valid⟩ dir new.2
      · rw [← zero]
      · simpa [checkPinInitialised] using fresh
      · simpa [checkClientOwnsPin] using other
      · rfl
      · rw [zero]
  · exact .refused .invalidPin rfl rfl

theorem theGpioSetLevel_served (table : Table platform Gpio) (client : UInt64)
    (pinId level driver : Int32) :
    Served platform table (theGpioSetLevel table client pinId level driver).1
      ⟨client, .setLevel pinId level driver⟩
      (theGpioSetLevel table client pinId level driver).2 := by
  rw [theGpioSetLevel]
  split
  · next valid =>
    dsimp only
    split
    · exact .refused .notOwner rfl rfl
    next owns =>
    have own : (table ⟨pinId, valid⟩).owner = client := by simpa [checkClientOwnsPin] using owns
    split
    · exact .owned ⟨pinId, valid⟩ rfl own (by simp [Call.isNew, Call.uses])
    split
    · exact .owned ⟨pinId, valid⟩ rfl own (by simp [Call.isNew, Call.uses])
    · exact .refused .invalidLevel rfl rfl
  · exact .refused .invalidPin rfl rfl

theorem theGpioReadLevel_served (table : Table platform Gpio) (client : UInt64)
    (pinId driver : Int32) :
    Served platform table (theGpioReadLevel table client pinId driver).1
      ⟨client, .readLevel pinId driver⟩ (theGpioReadLevel table client pinId driver).2 := by
  rw [theGpioReadLevel]
  split
  · next valid =>
    dsimp only
    split
    · exact .refused .notOwner rfl rfl
    next owns =>
    have own : (table ⟨pinId, valid⟩).owner = client := by simpa [checkClientOwnsPin] using owns
    exact .owned ⟨pinId, valid⟩ rfl own (by simp [Call.isNew, Call.uses])
  · exact .refused .invalidPin rfl rfl

theorem serve_served (table : Table platform Gpio) (event : Event Gpio) :
    Served platform table (serve table event).1 event (serve table event).2 := by
  obtain ⟨client, request⟩ := event
  cases request with
  | initPin pinId dir new => exact theGpioInitPin_served table client pinId dir new
  | setLevel pinId level driver => exact theGpioSetLevel_served table client pinId level driver
  | readLevel pinId driver => exact theGpioReadLevel_served table client pinId driver

theorem server_served {before after : Table platform Gpio} {event : Event Gpio}
    {reply : Reply platform Gpio}
    (step : (server platform Gpio callers).step before event = some (after, reply)) :
    Served platform before after event reply := by
  have served := serve_served before event
  rw [Option.some.inj step] at served
  exact served

section
variable {before after : Table platform Gpio} {event : Event Gpio} {reply : Reply platform Gpio}
  {pin : Pin platform}

theorem grant_eq_some {new : UInt64} (granted : grant (event, reply) pin = some new) :
    new = event.client ∧ ∃ call ∈ reply.calls, Call.isNew pin call = true := by
  rw [grant] at granted
  split at granted
  · next any =>
    cases granted
    exact ⟨rfl, List.any_eq_true.mp any⟩
  · cases granted

theorem grant_eq_none :
    grant (event, reply) pin = none ↔ ∀ call ∈ reply.calls, Call.isNew pin call = false := by
  rw [grant]
  split
  · next any => simpa using any
  · next none => simpa using none

theorem Served.same (served : Served platform before after event reply)
    (none : grant (event, reply) pin = none) : SameOwner (before pin) (after pin) := by
  cases served with
  | refused refusal same _ => exact same ▸ ⟨rfl, rfl⟩
  | owned _ same _ _ => exact same ▸ ⟨rfl, rfl⟩
  | failed new dir error gpio _ same _ =>
    rw [same]
    by_cases here : pin = new
    · subst here
      rw [Function.update_self]
      exact ⟨rfl, rfl⟩
    · rw [Function.update_of_ne here]
      exact ⟨rfl, rfl⟩
  | granted new dir gpio _ _ _ same answer =>
    have other : pin ≠ new := by
      rintro rfl
      have isNew := grant_eq_none.mp none (.gpioNew pin dir 0) (by simp [answer])
      rw [Call.isNew_gpioNew.mpr ⟨rfl, rfl⟩] at isNew
      cases isNew
    rw [same, Function.update_of_ne other]
    exact ⟨rfl, rfl⟩

/-- A grant is an `init_pin` that finds the pin free and makes the caller its owner. -/
theorem Served.new (served : Served platform before after event reply) {new : UInt64}
    (granted : grant (event, reply) pin = some new) :
    (∃ dir gpio, event.request = .initPin pin.1 dir (0, gpio)) ∧ reply.ret = 0 ∧
      (before pin).initialised = false ∧ (before pin).owner ≠ event.client ∧
      (after pin).initialised = true ∧ (after pin).owner = event.client := by
  obtain ⟨_, call, member, isNew⟩ := grant_eq_some granted
  cases served with
  | refused refusal _ answer => simp [answer, refuse] at member
  | owned own _ _ quiet =>
    rw [(quiet call member pin).1] at isNew
    cases isNew
  | failed _ dir error gpio wrong _ answer =>
    rw [answer, List.mem_singleton] at member
    subst member
    exact absurd (Call.isNew_gpioNew.mp isNew).2 wrong
  | granted fresh dir gpio request free own same answer =>
    rw [answer, List.mem_singleton] at member
    subst member
    obtain ⟨rfl, _⟩ := Call.isNew_gpioNew.mp isNew
    rw [same, Function.update_self, answer]
    exact ⟨⟨dir, gpio, request⟩, rfl, free, own, rfl, rfl⟩

end

theorem free_of_grant {before after : Table platform Gpio} {event : Event Gpio}
    {reply : Reply platform Gpio} {pin : Pin platform} {new : UInt64}
    (step : (server platform Gpio callers).step before event = some (after, reply))
    (granted : grant (event, reply) pin = some new) : holder before pin = none := by
  obtain ⟨_, _, free, _⟩ := (server_served step).new granted
  simp [holder, free]

theorem server_firstCome : FirstCome (server platform Gpio callers) holder grant where
  granted := by
    intro before event after reply pin new _ step granted
    obtain ⟨_, _, _, _, done, own⟩ := (server_served step).new granted
    simp [holder, done, own, (grant_eq_some granted).1]
  free := by
    intro before event after reply pin new _ step granted owner held
    rw [free_of_grant step granted] at held
    cases held
  kept := by
    intro before event after reply pin _ step none
    obtain ⟨initialised, owner⟩ := (server_served step).same none
    simp [holder, initialised, owner]

def Settled (table : Table platform Gpio) : Prop :=
  ∀ pin, (table pin).initialised = true ↔ (table pin).owner ≠ noOwner

theorem gpioComponentInit_settled (zero : Gpio) : Settled (gpioComponentInit platform zero) :=
  fun _ => ⟨nofun, fun some => absurd rfl some⟩

theorem Settled.served {before after : Table platform Gpio} {event : Event Gpio}
    {reply : Reply platform Gpio} (settled : Settled before)
    (served : Served platform before after event reply) : Settled after := by
  intro pin
  cases granted : grant (event, reply) pin with
  | none =>
    obtain ⟨initialised, owner⟩ := served.same granted
    rw [initialised, owner]
    exact settled pin
  | some new =>
    obtain ⟨_, _, free, other, done, own⟩ := served.new granted
    have nobody : (before pin).owner = noOwner := by
      by_contra someone
      rw [(settled pin).mpr someone] at free
      cases free
    rw [done, own]
    exact ⟨fun _ => nobody ▸ other.symm, fun _ => rfl⟩

/-- Nobody's id owns the pins that are free, so it never gets one. -/
theorem settled_of_run {zero : Gpio} {table : Table platform Gpio}
    {trace : List (Event Gpio × Reply platform Gpio)}
    (run : (server platform Gpio callers).Run (gpioComponentInit platform zero) trace table) :
    Settled table :=
  run.invariant (gpioComponentInit_settled zero) fun _ _ _ _ settled _ step =>
    settled.served (server_served step)

structure Orderly (before after : Table platform Gpio) (event : Event Gpio)
    (reply : Reply platform Gpio) : Prop where
  granted : ∀ pin new, grant (event, reply) pin = some new → new = event.client ∧
    (∃ dir gpio, event.request = .initPin pin.1 dir (0, gpio)) ∧
    (before pin).initialised = false ∧ (before pin).owner = noOwner ∧
    (after pin).initialised = true ∧ (after pin).owner = event.client
  kept : ∀ pin, grant (event, reply) pin = none → SameOwner (before pin) (after pin)
  used : ∀ pin, ∀ call ∈ reply.calls, Call.uses pin call = true →
    (before pin).initialised = true ∧ (before pin).owner = event.client
  failed : reply.ret ≠ 0 → ∀ pin, SameOwner (before pin) (after pin)

theorem Served.orderly {before after : Table platform Gpio} {event : Event Gpio}
    {reply : Reply platform Gpio} (served : Served platform before after event reply)
    (settled : Settled before) (someone : event.client ≠ noOwner) :
    Orderly before after event reply where
  granted := by
    intro pin new granted
    obtain ⟨request, _, free, _, done, own⟩ := served.new granted
    have nobody : (before pin).owner = noOwner := by
      by_contra owned
      rw [(settled pin).mpr owned] at free
      cases free
    exact ⟨(grant_eq_some granted).1, request, free, nobody, done, own⟩
  kept _ none := served.same none
  used := by
    intro pin call member uses
    cases served with
    | refused refusal _ answer => simp [answer, refuse] at member
    | owned own _ owner quiet =>
      obtain rfl := (quiet call member pin).2 uses
      exact ⟨(settled own).mpr (owner ▸ someone), owner⟩
    | failed _ dir error gpio _ _ answer =>
      rw [answer, List.mem_singleton] at member
      subst member
      cases uses
    | granted fresh dir gpio _ _ _ _ answer =>
      rw [answer, List.mem_singleton] at member
      subst member
      cases uses
  failed := by
    intro error pin
    cases granted : grant (event, reply) pin with
    | none => exact served.same granted
    | some new => exact absurd (served.new granted).2.1 error

def board : Platform where
  gpioTableSize := 8
  gpioDirIrqLow := 3
  gpioDirIrqEdge := 7
  gpioLevelHigh := 1
  gpioLevelLow := 0
  clientAllocatedPins := [(1, [5])]

/-- A pin belongs for ever to the first client that initialises it. -/
theorem one_owner_for_ever {zero : Gpio} {table : Table platform Gpio}
    {trace : List (Event Gpio × Reply platform Gpio)}
    (run : (server platform Gpio (· ≠ noOwner)).Run (gpioComponentInit platform zero) trace table) :
    (∀ pin, (table pin).initialised = (trace.findSome? fun entry => grant entry pin).isSome ∧
      (table pin).owner = (trace.findSome? fun entry => grant entry pin).getD noOwner ∧
      (trace.filter fun entry => (grant entry pin).isSome).length ≤ 1) ∧
    (server platform Gpio (· ≠ noOwner)).EveryStep (gpioComponentInit platform zero) trace
      fun before event => ∀ after reply,
        (server platform Gpio (· ≠ noOwner)).step before event = some (after, reply) →
        Orderly before after event reply := by
  constructor
  · intro pin
    have holds : holder table pin = _ := server_firstCome.holder_eq run rfl
    rw [← holds, holder]
    have settled := settled_of_run run pin
    refine ⟨?_, ?_, ?_⟩
    · cases (table pin).initialised <;> rfl
    · cases free : (table pin).initialised with
      | true => rfl
      | false =>
        by_contra owned
        rw [settled.mpr owned] at free
        cases free
    · exact server_firstCome.grants_length_le (fun _ _ _ _ _ _ => free_of_grant) run rfl
  · refine run.everyStep fun early before event reached allowed after reply step => ?_
    exact (server_served step).orderly (settled_of_run reached) allowed

theorem one_owner_for_ever_board : ∃ trace table,
    (server board Unit (· ≠ noOwner)).Run (gpioComponentInit board ()) trace table ∧
      trace.map (fun entry => (entry.1.client, entry.2.ret)) = [(2, 0), (3, -ebusy)] ∧
      (table ⟨6, rfl⟩).owner = 2 := by
  have first : (server board Unit (· ≠ noOwner)).Run (gpioComponentInit board ()) _ _ :=
    Machine.Run.start.on ⟨2, .initPin 6 0 (0, ())⟩ (by change (2 : UInt64) ≠ noOwner; decide) rfl
  have run := first.on ⟨3, .initPin 6 0 (0, ())⟩ (by change (3 : UInt64) ≠ noOwner; decide) rfl
  refine ⟨_, _, run, rfl, ?_⟩
  rw [((one_owner_for_ever run).1 ⟨6, rfl⟩).2.1]
  rfl

end GlobalComponents.GPIOMUXServer
