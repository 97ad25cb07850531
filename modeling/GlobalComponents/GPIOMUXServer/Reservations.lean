import GlobalComponents.GPIOMUXServer.Owners

/-! The pins that the configuration reserves for a client.

The server asks for the assignee of the caller's id instead of the assignee of the pin, so it keeps to
the configuration only where both answers ask for the same decision.
-/

set_option autoImplicit false

namespace GlobalComponents.GPIOMUXServer

open Library

variable {platform : Platform} {Gpio : Type}

/-- The pin is assigned to a client, and to another one. -/
def Foreign (platform : Platform) (pinId : Int32) (client : UInt64) : Prop :=
  platform.getPinAssignee pinId ≠ 0 ∧ platform.getPinAssignee pinId ≠ client

instance {pinId : Int32} {client : UInt64} : Decidable (Foreign platform pinId client) :=
  inferInstanceAs (Decidable (_ ∧ _))

def Touches (reply : Reply platform Gpio) (pin : Pin platform) : Prop :=
  ∃ call ∈ reply.calls, Call.isNew pin call = true ∨ Call.uses pin call = true

/-- The reservations are kept: nobody else's pins are touched, and nobody is sent away but from
somebody else's pin. -/
structure Honoured (event : Event Gpio) (reply : Reply platform Gpio) : Prop where
  untouched : ∀ pin, Touches reply pin → ¬Foreign platform pin.1 event.client
  refused : reply.refusal = some .reserved → ∀ pinId dir new,
    event.request = .initPin pinId dir new → Foreign platform pinId event.client

/-- A pin that the step may set or read because its owner is the caller. Without an owner that is
the client whose id stands for nobody. -/
def NobodyUses (table : Table platform Gpio) (client : UInt64) (pinId : Int32) : Prop :=
  ∀ valid : checkValidGpioId platform pinId = true, (table ⟨pinId, valid⟩).owner = client →
    client = noOwner → ¬Foreign platform pinId client

/-- The assignee of the caller's id decides as the assignee of the pin would. -/
def Meets (table : Table platform Gpio) (event : Event Gpio) : Prop :=
  match event.request with
  | .initPin pinId dir new =>
    ∀ valid : checkValidGpioId platform pinId = true, irqDir platform dir = false →
      (table ⟨pinId, valid⟩).owner ≠ event.client →
        (platform.getPinAssignee (clientAsPin event.client) ≠ 0 →
          Foreign platform pinId event.client) ∧
        (platform.getPinAssignee (clientAsPin event.client) = 0 →
          Foreign platform pinId event.client →
            (table ⟨pinId, valid⟩).initialised = true ∨ new.1 ≠ 0)
  | .setLevel pinId level _ =>
    level = platform.gpioLevelHigh ∨ level = platform.gpioLevelLow →
      NobodyUses table event.client pinId
  | .readLevel pinId _ => NobodyUses table event.client pinId

/-- Whoever has a pin may have it. -/
def Rightful (table : Table platform Gpio) : Prop :=
  ∀ pin, (table pin).owner ≠ noOwner → ¬Foreign platform pin.1 (table pin).owner

theorem touches_nil {ret : Int32} {refusal : Option Refusal} {pin : Pin platform} :
    ¬Touches (⟨ret, refusal, []⟩ : Reply platform Gpio) pin := by
  simp [Touches]

theorem touches_singleton {ret : Int32} {refusal : Option Refusal} {pin : Pin platform}
    {call : Call platform Gpio} :
    Touches (⟨ret, refusal, [call]⟩ : Reply platform Gpio) pin ↔
      (Call.isNew pin call = true ∨ Call.uses pin call = true) := by
  simp [Touches]

theorem honoured_refuse {event : Event Gpio} {refusal : Refusal} (other : refusal ≠ .reserved) :
    Honoured event (refuse refusal : Reply platform Gpio) :=
  ⟨fun _ touched => absurd touched touches_nil, fun same => absurd (Option.some.inj same) other⟩

theorem Honoured.of_served {event : Event Gpio} {reply : Reply platform Gpio}
    (served : reply.refusal = none)
    (untouched : ∀ pin, Touches reply pin → ¬Foreign platform pin.1 event.client) :
    Honoured event reply := by
  refine ⟨untouched, fun refused => ?_⟩
  rw [served] at refused
  cases refused

theorem theGpioInitPin_honoured_iff (table : Table platform Gpio) (client : UInt64)
    (pinId dir : Int32) (new : Int32 × Gpio) :
    Honoured ⟨client, .initPin pinId dir new⟩ (theGpioInitPin table client pinId dir new).2 ↔
      Meets table ⟨client, .initPin pinId dir new⟩ := by
  rw [theGpioInitPin]
  -- the checks in the order of the source; each decides the two sides alike
  split
  · next valid =>
    dsimp only
    split
    · next irq =>
      exact ⟨fun _ _ plain => absurd irq (by simp [plain]),
        fun _ => honoured_refuse (by decide)⟩
    next plain =>
    split
    · next owns =>
      exact ⟨fun _ _ _ other => absurd (eq_of_beq owns) other,
        fun _ => .of_served rfl fun _ touched => absurd touched touches_nil⟩
    next other =>
    have other' : (table ⟨pinId, valid⟩).owner ≠ client := by
      simpa [checkClientOwnsPin] using other
    split
    · next assigned =>
      have assigned' : platform.getPinAssignee (clientAsPin client) ≠ 0 := by simpa using assigned
      constructor
      · exact fun honoured _ _ _ => ⟨fun _ => honoured.refused rfl pinId dir new rfl,
          fun free => absurd free assigned'⟩
      · intro meets
        have foreign := (meets valid (by simpa using plain) other').1 assigned'
        refine ⟨fun _ touched => absurd touched touches_nil, fun _ pinId' dir' new' same => ?_⟩
        cases same
        exact foreign
    next unassigned =>
    have unassigned' : platform.getPinAssignee (clientAsPin client) = 0 := by
      simpa using unassigned
    split
    · next taken =>
      exact ⟨fun _ _ _ _ => ⟨fun some => absurd unassigned' some, fun _ _ => .inl taken⟩,
        fun _ => honoured_refuse (by decide)⟩
    next free =>
    split
    · next error =>
      have error' : new.1 ≠ 0 := by simpa using error
      refine ⟨fun _ _ _ _ => ⟨fun some => absurd unassigned' some, fun _ _ => .inr error'⟩,
        fun _ => .of_served rfl fun pin touched => ?_⟩
      rcases touches_singleton.mp touched with isNew | uses
      · exact absurd (Call.isNew_gpioNew.mp isNew).2 error'
      · cases uses
    · next done =>
      have done' : new.1 = 0 := by simpa using done
      constructor
      · intro honoured _ _ _
        refine ⟨fun some => absurd unassigned' some, fun _ foreign => ?_⟩
        have touched : Touches (⟨new.1, none, [.gpioNew ⟨pinId, valid⟩ dir new.1]⟩ :
            Reply platform Gpio) ⟨pinId, valid⟩ :=
          touches_singleton.mpr (.inl (Call.isNew_gpioNew.mpr ⟨rfl, done'⟩))
        exact absurd foreign (honoured.untouched _ touched)
      · intro meets
        refine .of_served rfl fun pin touched foreign => ?_
        rcases touches_singleton.mp touched with isNew | uses
        · obtain ⟨rfl, _⟩ := Call.isNew_gpioNew.mp isNew
          rcases (meets valid (by simpa using plain) other').2 unassigned' foreign with some | error
          · exact free some
          · exact error done'
        · cases uses
  · next invalid =>
    exact ⟨fun _ valid => absurd valid invalid, fun _ => honoured_refuse (by decide)⟩

theorem honoured_use_iff {table : Table platform Gpio} {event : Event Gpio} {pinId : Int32}
    {valid : checkValidGpioId platform pinId = true} {call : Call platform Gpio} {driver : Int32}
    (rightful : Rightful table) (own : (table ⟨pinId, valid⟩).owner = event.client)
    (uses : ∀ pin, (Call.isNew pin call = true ∨ Call.uses pin call = true) ↔ ⟨pinId, valid⟩ = pin) :
    Honoured event ⟨driver, none, [call]⟩ ↔ NobodyUses table event.client pinId := by
  constructor
  · intro honoured _ _ _
    exact honoured.untouched ⟨pinId, valid⟩ (touches_singleton.mpr ((uses _).mpr rfl))
  · intro nobody
    refine .of_served rfl fun pin touched => ?_
    obtain rfl := (uses pin).mp (touches_singleton.mp touched)
    by_cases none : event.client = noOwner
    · exact nobody valid own none
    · exact own ▸ rightful ⟨pinId, valid⟩ (own ▸ none)

theorem theGpioSetLevel_honoured_iff {table : Table platform Gpio} (rightful : Rightful table)
    (client : UInt64) (pinId level driver : Int32) :
    Honoured ⟨client, .setLevel pinId level driver⟩
        (theGpioSetLevel table client pinId level driver).2 ↔
      Meets table ⟨client, .setLevel pinId level driver⟩ := by
  rw [theGpioSetLevel]
  split
  · next valid =>
    dsimp only
    split
    · next other =>
      have other' : (table ⟨pinId, valid⟩).owner ≠ client := by
        simpa [checkClientOwnsPin] using other
      exact ⟨fun _ _ _ own => absurd own other', fun _ => honoured_refuse (by decide)⟩
    next owns =>
    have own : (table ⟨pinId, valid⟩).owner = client := by simpa [checkClientOwnsPin] using owns
    split
    · next high =>
      rw [honoured_use_iff rightful own (by simp [Call.isNew, Call.uses])]
      exact ⟨fun nobody _ => nobody, fun meets => meets (.inl (eq_of_beq high))⟩
    next high =>
    split
    · next low =>
      rw [honoured_use_iff rightful own (by simp [Call.isNew, Call.uses])]
      exact ⟨fun nobody _ => nobody, fun meets => meets (.inr (eq_of_beq low))⟩
    · next low =>
      have neither : ¬(level = platform.gpioLevelHigh ∨ level = platform.gpioLevelLow) := by
        rintro (rfl | rfl)
        · exact high (beq_self_eq_true _)
        · exact low (beq_self_eq_true _)
      exact ⟨fun _ level => absurd level neither, fun _ => honoured_refuse (by decide)⟩
  · next invalid =>
    exact ⟨fun _ _ valid => absurd valid invalid, fun _ => honoured_refuse (by decide)⟩

theorem theGpioReadLevel_honoured_iff {table : Table platform Gpio} (rightful : Rightful table)
    (client : UInt64) (pinId driver : Int32) :
    Honoured ⟨client, .readLevel pinId driver⟩ (theGpioReadLevel table client pinId driver).2 ↔
      Meets table ⟨client, .readLevel pinId driver⟩ := by
  rw [theGpioReadLevel]
  split
  · next valid =>
    dsimp only
    split
    · next other =>
      have other' : (table ⟨pinId, valid⟩).owner ≠ client := by
        simpa [checkClientOwnsPin] using other
      exact ⟨fun _ _ own => absurd own other', fun _ => honoured_refuse (by decide)⟩
    · next owns =>
      have own : (table ⟨pinId, valid⟩).owner = client := by simpa [checkClientOwnsPin] using owns
      exact honoured_use_iff rightful own (by simp [Call.isNew, Call.uses])
  · next invalid =>
    exact ⟨fun _ valid => absurd valid invalid, fun _ => honoured_refuse (by decide)⟩

theorem serve_honoured_iff {table : Table platform Gpio} (rightful : Rightful table)
    (event : Event Gpio) : Honoured event (serve table event).2 ↔ Meets table event := by
  obtain ⟨client, request⟩ := event
  cases request with
  | initPin pinId dir new => exact theGpioInitPin_honoured_iff table client pinId dir new
  | setLevel pinId level driver =>
    exact theGpioSetLevel_honoured_iff rightful client pinId level driver
  | readLevel pinId driver => exact theGpioReadLevel_honoured_iff rightful client pinId driver

theorem Rightful.honoured {before after : Table platform Gpio} {event : Event Gpio}
    {reply : Reply platform Gpio} (rightful : Rightful before)
    (served : Served platform before after event reply) (honoured : Honoured event reply) :
    Rightful after := by
  intro pin
  cases granted : grant (event, reply) pin with
  | none =>
    rw [(served.same granted).2]
    exact rightful pin
  | some new =>
    obtain ⟨_, call, member, isNew⟩ := grant_eq_some granted
    rw [(served.new granted).2.2.2.2.2]
    exact fun _ => honoured.untouched pin ⟨call, member, .inl isNew⟩

def Honours (platform : Platform) (before : Table platform Gpio) (event : Event Gpio) : Prop :=
  ∀ after reply, (server platform Gpio fun _ => True).step before event = some (after, reply) →
    Honoured event reply

theorem honours_iff {before : Table platform Gpio} (rightful : Rightful before)
    (event : Event Gpio) : Honours platform before event ↔ Meets before event := by
  rw [← serve_honoured_iff rightful]
  constructor
  · exact fun honours => honours _ _ rfl
  · intro honoured after reply step
    rw [Option.some.inj step] at honoured
    exact honoured

theorem rightful_of_honours {zero : Gpio} {table : Table platform Gpio}
    {trace : List (Event Gpio × Reply platform Gpio)}
    (all : (server platform Gpio fun _ => True).EveryStep (gpioComponentInit platform zero) trace
      (Honours platform))
    (run : (server platform Gpio fun _ => True).Run (gpioComponentInit platform zero) trace table) :
    Rightful table := by
  apply all.history run
  · exact fun _ some => absurd rfl some
  · intro _ before event after reply rightful _ honours step
    exact rightful.honoured (server_served step) (honours after reply step)

theorem rightful_of_meets {zero : Gpio} {table : Table platform Gpio}
    {trace : List (Event Gpio × Reply platform Gpio)}
    (all : (server platform Gpio fun _ => True).EveryStep (gpioComponentInit platform zero) trace
      Meets)
    (run : (server platform Gpio fun _ => True).Run (gpioComponentInit platform zero) trace table) :
    Rightful table := by
  apply all.history run
  · exact fun _ some => absurd rfl some
  · intro _ before event after reply rightful _ meets step
    exact rightful.honoured (server_served step)
      ((honours_iff rightful event).mpr meets after reply step)

/-- The reservations are kept in every step exactly when every step meets the condition. -/
theorem reservations_honoured_iff (zero : Gpio) (trace : List (Event Gpio × Reply platform Gpio)) :
    (server platform Gpio fun _ => True).EveryStep (gpioComponentInit platform zero) trace
        (Honours platform) ↔
      (server platform Gpio fun _ => True).EveryStep (gpioComponentInit platform zero) trace
        Meets := by
  constructor
  · intro all early event reply within before reached
    have rightful := rightful_of_honours (all.early ((List.prefix_append _ _).trans within)) reached
    exact (honours_iff rightful event).mp (all early event reply within before reached)
  · intro all early event reply within before reached
    have rightful := rightful_of_meets (all.early ((List.prefix_append _ _).trans within)) reached
    exact (honours_iff rightful event).mpr (all early event reply within before reached)

/-- Pin 5 is assigned to client 1, and client 2 initialises it. -/
theorem reservation_ignored : ∃ trace table,
    (server board Unit fun _ => True).Run (gpioComponentInit board ()) trace table ∧
      board.getPinAssignee 5 = 1 ∧ (table ⟨5, rfl⟩).owner = 2 ∧
      ¬(server board Unit fun _ => True).EveryStep (gpioComponentInit board ()) trace
        (Honours board) := by
  refine ⟨_, _, Machine.Run.start.on ⟨2, .initPin 5 0 (0, ())⟩ trivial rfl, rfl, rfl, ?_⟩
  intro all
  have honoured := all [] _ _ (List.prefix_refl _) _ .start _ _ rfl
  exact honoured.untouched ⟨5, rfl⟩ (touches_singleton.mpr (.inl (Call.isNew_gpioNew.mpr ⟨rfl, rfl⟩)))
    (by decide)

end GlobalComponents.GPIOMUXServer
