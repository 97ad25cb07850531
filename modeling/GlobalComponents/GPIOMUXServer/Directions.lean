import GlobalComponents.GPIOMUXServer.Owners

/-! The direction that a pin is configured for.

A client that already owns a pin is told 0 before its direction is looked at, so the answer is only
true for the direction of its first request.
-/

set_option autoImplicit false

namespace GlobalComponents.GPIOMUXServer

open Library

variable {platform : Platform} {Gpio : Type}

def Call.newDir (pin : Pin platform) : Call platform Gpio → Option Int32
  | .gpioNew new dir error => if new = pin ∧ error = 0 then some dir else none
  | .gpioSet _ _ | .gpioClr _ _ | .gpioGet _ _ => none

def configured (trace : List (Event Gpio × Reply platform Gpio)) (pin : Pin platform) :
    Option Int32 :=
  (trace.flatMap fun entry => entry.2.calls).reverse.findSome? (Call.newDir pin)

/-- The direction that one step asks for on behalf of the client, if it is answered with 0. -/
def answered (client : UInt64) (pin : Pin platform) (entry : Event Gpio × Reply platform Gpio) :
    Option Int32 :=
  match entry.1.request with
  | .initPin pinId dir _ =>
    if entry.1.client = client ∧ pinId = pin.1 ∧ entry.2.ret = 0 then some dir else none
  | .setLevel _ _ _ | .readLevel _ _ => none

def firstAnswered (trace : List (Event Gpio × Reply platform Gpio)) (client : UInt64)
    (pin : Pin platform) : Option Int32 :=
  trace.findSome? (answered client pin)

/-- Whenever `the_gpio_init_pin` returns 0 the pin is configured for the direction asked for. -/
def ToldDirection (trace : List (Event Gpio × Reply platform Gpio)) : Prop :=
  ∀ early event reply, early ++ [(event, reply)] <+: trace →
    ∀ (pin : Pin platform) dir new, event.request = .initPin pin.1 dir new → reply.ret = 0 →
      configured (early ++ [(event, reply)]) pin = some dir

/-- Who asks for a pin that it already owns repeats its first direction. A pin that nobody owns looks
as if the client with that id owned it. -/
def Repeats (early : List (Event Gpio × Reply platform Gpio)) (before : Table platform Gpio)
    (event : Event Gpio) : Prop :=
  ∀ (pin : Pin platform) dir new, event.request = .initPin pin.1 dir new →
    irqDir platform dir = false → (before pin).owner = event.client →
      event.client ≠ noOwner ∧ firstAnswered early event.client pin = some dir

section
variable {before after : Table platform Gpio} {event : Event Gpio} {reply : Reply platform Gpio}
  {pin : Pin platform} {trace : List (Event Gpio × Reply platform Gpio)}

theorem configured_append : configured (trace ++ [(event, reply)]) pin =
    (reply.calls.reverse.findSome? (Call.newDir pin)).or (configured trace pin) := by
  simp [configured, List.flatMap_append, List.reverse_append, List.findSome?_append]

theorem firstAnswered_append {client : UInt64} :
    firstAnswered (trace ++ [(event, reply)]) client pin =
      (firstAnswered trace client pin).or (answered client pin (event, reply)) := by
  simp [firstAnswered, List.findSome?_append]

theorem Call.newDir_eq_none {call : Call platform Gpio} (old : Call.isNew pin call = false) :
    Call.newDir pin call = none := by
  cases call with
  | gpioNew new dir error =>
    rw [newDir, if_neg]
    rintro ⟨rfl, rfl⟩
    simp [isNew] at old
  | gpioSet | gpioClr | gpioGet => rfl

theorem configured_same (none : grant (event, reply) pin = none) :
    configured (trace ++ [(event, reply)]) pin = configured trace pin := by
  have old : reply.calls.reverse.findSome? (Call.newDir pin) = Option.none := by
    rw [List.findSome?_eq_none_iff]
    intro call member
    exact Call.newDir_eq_none (grant_eq_none.mp none call (List.mem_reverse.mp member))
  rw [configured_append, old, Option.none_or]

theorem Served.configures (served : Served platform before after event reply)
    (trace : List (Event Gpio × Reply platform Gpio)) {new : UInt64}
    (granted : grant (event, reply) pin = some new) :
    ∃ dir gpio, event.request = .initPin pin.1 dir (0, gpio) ∧ reply.ret = 0 ∧
      configured (trace ++ [(event, reply)]) pin = some dir := by
  obtain ⟨_, call, member, isNew⟩ := grant_eq_some granted
  cases served with
  | refused refusal _ answer => simp [answer, refuse] at member
  | owned own _ _ quiet =>
    rw [(quiet call member pin).1] at isNew
    cases isNew
  | failed _ dir error gpio wrong _ answer =>
    rw [answer, List.mem_singleton] at member
    subst member
    exact absurd (Call.isNew_gpioNew.mp isNew).2 wrong
  | granted fresh dir gpio request free own same answer =>
    rw [answer, List.mem_singleton] at member
    subst member
    obtain ⟨rfl, _⟩ := Call.isNew_gpioNew.mp isNew
    refine ⟨dir, gpio, request, by rw [answer], ?_⟩
    simp [configured_append, answer, Call.newDir]

theorem theGpioInitPin_zero {client : UInt64} {dir : Int32} {new : Int32 × Gpio}
    (zero : (theGpioInitPin before client pin.1 dir new).2.ret = 0) :
    irqDir platform dir = false ∧ (before pin).owner = client ∨
      Call.gpioNew pin dir 0 ∈ (theGpioInitPin before client pin.1 dir new).2.calls := by
  rw [theGpioInitPin, dif_pos pin.2] at zero ⊢
  dsimp only at zero ⊢
  split at zero
  · cases zero
  next plain =>
  rw [if_neg plain]
  split at zero
  · next owns => exact .inl ⟨by simpa using plain, eq_of_beq owns⟩
  next other =>
  rw [if_neg other]
  split at zero
  · cases zero
  next unassigned =>
  rw [if_neg unassigned]
  split at zero
  · cases zero
  next fresh =>
  rw [if_neg fresh]
  split at zero
  · next error => exact absurd zero (by simpa using error)
  · next done =>
    rw [if_neg done]
    right
    rw [show new.1 = 0 from zero]
    exact List.mem_singleton_self _

theorem theGpioInitPin_again {client : UInt64} {dir : Int32} (new : Int32 × Gpio)
    (plain : irqDir platform dir = false) (owns : (before pin).owner = client) :
    theGpioInitPin before client pin.1 dir new = (before, ⟨0, none, []⟩) := by
  rw [theGpioInitPin, dif_pos pin.2]
  simp [plain, checkClientOwnsPin, owns]

theorem grant_of_mem {dir : Int32} (member : Call.gpioNew pin dir 0 ∈ reply.calls) :
    grant (event, reply) pin = some event.client := by
  rw [grant, if_pos]
  exact List.any_eq_true.mpr ⟨_, member, Call.isNew_gpioNew.mpr ⟨rfl, rfl⟩⟩

theorem answered_eq_some {client : UInt64} {dir : Int32} :
    answered client pin (event, reply) = some dir ↔
      event.client = client ∧ reply.ret = 0 ∧ ∃ new, event.request = .initPin pin.1 dir new := by
  unfold answered
  constructor
  · intro told
    split at told
    · next request =>
      dsimp only at request
      split at told
      · next zero =>
        cases told
        exact ⟨zero.1, zero.2.2, _, zero.2.1 ▸ request⟩
      · cases told
    · cases told
    · cases told
  · rintro ⟨client, zero, new, request⟩
    dsimp only
    rw [request]
    exact if_pos ⟨client, rfl, zero⟩

structure Traced (trace : List (Event Gpio × Reply platform Gpio)) (table : Table platform Gpio) :
    Prop where
  owned : ∀ pin, (table pin).owner ≠ noOwner → ∃ dir,
    firstAnswered trace (table pin).owner pin = some dir ∧ configured trace pin = some dir
  other : ∀ pin client, client ≠ noOwner → (table pin).owner ≠ client →
    firstAnswered trace client pin = none
  free : ∀ pin, (table pin).owner = noOwner → configured trace pin = none

theorem init_traced (zero : Gpio) :
    Traced ([] : List (Event Gpio × Reply platform Gpio)) (gpioComponentInit platform zero) where
  owned _ some := absurd rfl some
  other _ _ _ _ := rfl
  free _ _ := rfl

theorem step_answered {callers : UInt64 → Prop} {dir : Int32} {new : Int32 × Gpio}
    (step : (server platform Gpio callers).step before event = some (after, reply))
    (request : event.request = .initPin pin.1 dir new) (zero : reply.ret = 0) :
    irqDir platform dir = false ∧ (before pin).owner = event.client ∨
      grant (event, reply) pin = some event.client := by
  obtain ⟨client, request'⟩ := event
  cases request
  have same : theGpioInitPin before client pin.1 dir new = (after, reply) := Option.some.inj step
  have told : (theGpioInitPin before client pin.1 dir new).2.ret = 0 → _ := theGpioInitPin_zero
  rw [same] at told
  exact (told zero).imp_right grant_of_mem

inductive PinStep (trace : List (Event Gpio × Reply platform Gpio))
    (before after : Table platform Gpio) (event : Event Gpio) (reply : Reply platform Gpio)
    (pin : Pin platform) : Prop where
  | kept : (after pin).owner = (before pin).owner →
      configured (trace ++ [(event, reply)]) pin = configured trace pin →
      (∀ client, (before pin).owner ≠ client → answered client pin (event, reply) = none) →
      PinStep trace before after event reply pin
  | granted (dir : Int32) : (before pin).owner = noOwner → event.client ≠ noOwner →
      (after pin).owner = event.client →
      configured (trace ++ [(event, reply)]) pin = some dir →
      answered event.client pin (event, reply) = some dir →
      PinStep trace before after event reply pin

theorem step_pinStep {callers : UInt64 → Prop} (trace : List (Event Gpio × Reply platform Gpio))
    (pin : Pin platform) (settled : Settled before)
    (step : (server platform Gpio callers).step before event = some (after, reply)) :
    PinStep trace before after event reply pin := by
  have served := server_served step
  cases granted : grant (event, reply) pin with
  | none =>
    refine .kept (served.same granted).2 (configured_same granted) fun client other => ?_
    rw [Option.eq_none_iff_forall_ne_some]
    intro dir told
    obtain ⟨rfl, zero, new, request⟩ := answered_eq_some.mp told
    rcases step_answered step request zero with ⟨_, owns⟩ | fresh
    · exact other owns
    · rw [granted] at fresh
      cases fresh
  | some new =>
    obtain ⟨_, _, free, other, _, own⟩ := served.new granted
    obtain ⟨dir, gpio, request, zero, configures⟩ := served.configures trace granted
    have nobody : (before pin).owner = noOwner := by
      by_contra someone
      rw [(settled pin).mpr someone] at free
      cases free
    exact .granted dir nobody (nobody ▸ other.symm) own configures
      (answered_eq_some.mpr ⟨rfl, zero, _, request⟩)

theorem Traced.step {callers : UInt64 → Prop} (traced : Traced trace before)
    (settled : Settled before)
    (step : (server platform Gpio callers).step before event = some (after, reply)) :
    Traced (trace ++ [(event, reply)]) after where
  owned pin someone := by
    rw [firstAnswered_append]
    cases step_pinStep trace pin settled step with
    | kept owner same _ =>
      rw [owner] at someone ⊢
      obtain ⟨dir, first, latest⟩ := traced.owned pin someone
      exact ⟨dir, by rw [first, Option.some_or], same.trans latest⟩
    | granted dir nobody client owner latest first =>
      have early := traced.other pin event.client client (nobody ▸ client.symm)
      exact ⟨dir, by rw [owner, early, Option.none_or, first], latest⟩
  other pin client someone other := by
    rw [firstAnswered_append]
    cases step_pinStep trace pin settled step with
    | kept owner _ silent =>
      rw [owner] at other
      rw [traced.other pin client someone other, silent client other, Option.none_or]
    | granted dir nobody _ owner _ _ =>
      rw [owner] at other
      have silent : answered client pin (event, reply) = none := by
        rw [Option.eq_none_iff_forall_ne_some]
        exact fun dir told => other (answered_eq_some.mp told).1
      rw [traced.other pin client someone (nobody ▸ someone.symm), silent, Option.none_or]
  free pin nobody := by
    cases step_pinStep trace pin settled step with
    | kept owner same _ => rw [same, traced.free pin (owner ▸ nobody)]
    | granted dir _ client owner _ _ => exact absurd (owner.symm.trans nobody) client

end

theorem traced_of_run {callers : UInt64 → Prop} {zero : Gpio} {table : Table platform Gpio}
    {trace : List (Event Gpio × Reply platform Gpio)}
    (run : (server platform Gpio callers).Run (gpioComponentInit platform zero) trace table) :
    Traced trace table := by
  -- on the run, with the direction of the first grant of each pin
  induction run with
  | start => exact init_traced zero
  | next run _ step ih => exact ih.step (settled_of_run run) step

/-- A request that is answered with 0 is told the truth exactly if it meets the condition. -/
theorem told_iff {callers : UInt64 → Prop} {zero : Gpio} {before after : Table platform Gpio}
    {trace : List (Event Gpio × Reply platform Gpio)} {event : Event Gpio}
    {reply : Reply platform Gpio}
    (run : (server platform Gpio callers).Run (gpioComponentInit platform zero) trace before)
    (step : (server platform Gpio callers).step before event = some (after, reply)) :
    (∀ (pin : Pin platform) dir new, event.request = .initPin pin.1 dir new → reply.ret = 0 →
      configured (trace ++ [(event, reply)]) pin = some dir) ↔ Repeats trace before event := by
  have traced := traced_of_run run
  constructor
  · intro told pin dir new request plain owns
    obtain ⟨same, answer⟩ : after = before ∧ reply = ⟨0, none, []⟩ := by
      have again := theGpioInitPin_again new plain owns
      have served : serve before event = (after, reply) := Option.some.inj step
      rw [serve, request] at served
      exact Prod.mk.inj (served.symm.trans again)
    have latest := told pin dir new request (by rw [answer])
    have silent : grant (event, reply) pin = none := by simp [grant, answer]
    rw [configured_same silent] at latest
    by_cases nobody : event.client = noOwner
    · rw [traced.free pin (owns.trans nobody)] at latest
      cases latest
    · obtain ⟨first, early, same⟩ := traced.owned pin (owns ▸ nobody)
      rw [same] at latest
      exact ⟨nobody, owns ▸ early.trans latest⟩
  · intro repeats pin dir new request zero
    rcases step_answered step request zero with ⟨plain, owns⟩ | granted
    · obtain ⟨someone, first⟩ := repeats pin dir new request plain owns
      obtain ⟨other, early, latest⟩ := traced.owned pin (owns ▸ someone)
      rw [owns, first] at early
      cases early
      cases granted : grant (event, reply) pin with
      | none => rw [configured_same granted, latest]
      | some _ => exact absurd owns ((server_served step).new granted).2.2.2.1
    · obtain ⟨_, _, same, _, latest⟩ := (server_served step).configures trace granted
      cases request.symm.trans same
      exact latest

/-- In a run of any clients every answer is true for the direction asked for exactly if every
request for a pin of its own repeats the first direction. -/
theorem direction_told_iff {zero : Gpio} {table : Table platform Gpio}
    {trace : List (Event Gpio × Reply platform Gpio)}
    (run : (server platform Gpio fun _ => True).Run (gpioComponentInit platform zero) trace table) :
    ToldDirection trace ↔ ∀ early event reply, early ++ [(event, reply)] <+: trace →
      ∀ before, (server platform Gpio fun _ => True).Run (gpioComponentInit platform zero) early
        before → Repeats early before event := by
  have every : ∀ early event reply, early ++ [(event, reply)] <+: trace → ∃ before after,
      (server platform Gpio fun _ => True).Run (gpioComponentInit platform zero) early before ∧
        (server platform Gpio fun _ => True).step before event = some (after, reply) := by
    rintro early event reply ⟨rest, rfl⟩
    obtain ⟨after, run, _⟩ := run.split
    obtain ⟨before, run, _, step⟩ := run.snoc_inv
    exact ⟨before, after, run, step⟩
  constructor
  · intro told early event reply within before reached
    obtain ⟨before', after, run, step⟩ := every early event reply within
    cases reached.deterministic run
    exact (told_iff run step).mp (told early event reply within)
  · intro repeats early event reply within
    obtain ⟨before, after, run, step⟩ := every early event reply within
    exact (told_iff run step).mpr (repeats early event reply within before run)

theorem direction_told_iff_board : ∃ trace table,
    (server board Unit fun _ => True).Run (gpioComponentInit board ()) trace table ∧
      trace.map (fun entry => (entry.1.client, entry.2.ret)) = [(2, 0), (2, 0), (3, -ebusy)] ∧
      (ToldDirection trace ↔ ∀ early event reply, early ++ [(event, reply)] <+: trace →
        ∀ before, (server board Unit fun _ => True).Run (gpioComponentInit board ()) early before →
          Repeats early before event) := by
  have first : (server board Unit fun _ => True).Run (gpioComponentInit board ()) _ _ :=
    Machine.Run.start.on ⟨2, .initPin 6 0 (0, ())⟩ trivial rfl
  have again := first.on ⟨2, .initPin 6 0 (0, ())⟩ trivial rfl
  have run := again.on ⟨3, .initPin 6 1 (0, ())⟩ trivial rfl
  exact ⟨_, _, run, rfl, direction_told_iff run⟩

/-- Client 2 asks for the other direction, and the pin stays as it is. -/
theorem direction_ignored : ∃ trace table,
    (server board Unit fun _ => True).Run (gpioComponentInit board ()) trace table ∧
      trace.map (fun entry => entry.2.ret) = [0, 0] ∧ configured trace ⟨6, rfl⟩ = some 0 ∧
      ¬ToldDirection trace := by
  have first : (server board Unit fun _ => True).Run (gpioComponentInit board ()) _ _ :=
    Machine.Run.start.on ⟨2, .initPin 6 0 (0, ())⟩ trivial rfl
  refine ⟨_, _, first.on ⟨2, .initPin 6 1 (0, ())⟩ trivial rfl, rfl, rfl, fun told => ?_⟩
  cases told _ _ _ (List.prefix_refl _) ⟨6, rfl⟩ 1 _ rfl rfl

end GlobalComponents.GPIOMUXServer
