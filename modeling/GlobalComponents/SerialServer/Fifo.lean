import GlobalComponents.SerialServer.Getchar

/-! The ring of a getchar client is a bounded queue.

The server checks for a free slot, stores the byte and publishes it in separate steps. The byte on its
way lies behind the queue, in the slot that stays free, so whatever the client takes in between does
not touch it.
-/

set_option autoImplicit false

namespace GlobalComponents.SerialServer

open Library

namespace ClientBuffer

def slots (buffer : ClientBuffer) (index : Nat) : UInt8 :=
  if within : index < ringSize then buffer.buf ⟨index, within⟩ else 0

/-- The bytes that the client has not taken yet, the oldest first. -/
def unread (buffer : ClientBuffer) : List UInt8 :=
  Ring.queue ringSize buffer.slots buffer.tail.toNat buffer.head.toNat

theorem slots_update {buffer after : ClientBuffer} {index : Nat} (within : index < ringSize)
    {c : UInt8} (stored : after.buf = Function.update buffer.buf ⟨index, within⟩ c) :
    after.slots = Function.update buffer.slots index c := by
  funext other
  by_cases here : other = index
  · subst here
    simp [slots, within, stored]
  · rw [Function.update_of_ne here, slots, slots, stored]
    split
    · exact Function.update_of_ne (fun same => here (Fin.mk.inj same)) _ _
    · rfl

end ClientBuffer

/-- A client that looks at its ring whenever it wants to. -/
inductive Take where
  | idle
  | reading
  | advancing (c : UInt8)
  deriving DecidableEq

namespace Line

variable {line after : Line Take}

/-- While `head` differs from `tail`: read `buf[head]`, then move `head` on. -/
def take (line : Line Take) (behind : UInt8) : Line Take × Outcome :=
  match line.consumer with
  | .idle =>
    ({ line with consumer := if line.head = line.tail then .idle else .reading }, .nothing)
  | .reading =>
    let c := if within : line.head.toNat < ringSize then
      line.client.buf.buf ⟨line.head.toNat, within⟩ else behind
    ({ line with consumer := .advancing c }, .nothing)
  | .advancing c =>
    ({ line.setHead ((line.head + 1) % UInt32.ofNat ringSize) with consumer := .idle }, .handled c)

end Line

def taker : Reader Take where
  ready _ := True
  step line behind := some (line.take behind)

instance : DecidablePred taker.ready := fun _ => .isTrue trivial

def sharing : Machine (Line Take) Turn Outcome := taker.machine

def Outcome.accepts : Outcome → List UInt8
  | .accepted c => [c]
  | .handled _ => []
  | .nothing => []

def Outcome.handles : Outcome → List UInt8
  | .accepted _ => []
  | .handled c => [c]
  | .nothing => []

def accepted (trace : List (Turn × Outcome)) : List UInt8 := trace.flatMap (·.2.accepts)

def consumed (trace : List (Turn × Outcome)) : List UInt8 := trace.flatMap (·.2.handles)

namespace Line

variable {line after : Line Take}

def unread (line : Line Take) : List UInt8 := line.client.buf.unread

/-- The byte that the server has accepted and not published yet. -/
def onItsWay (line : Line Take) : List UInt8 :=
  match line.phase with
  | .outside => []
  | .checked c _ => [c]
  | .sampled c _ _ => [c]
  | .stored _ _ => [line.client.buf.slots line.tail.toNat]
  | .published _ => []

def Sees (head tail : UInt32) (slots : Nat → UInt8) : Take → Prop
  | .idle => True
  | .reading => head ≠ tail
  | .advancing c => head ≠ tail ∧ slots head.toNat = c

theorem Sees.store {head tail : UInt32} {slots : Nat → UInt8} {take : Take}
    (sees : Sees head tail slots take) (c : UInt8) :
    Sees head tail (Function.update slots tail.toNat c) take := by
  cases take with
  | idle => trivial
  | reading => exact sees
  | advancing read =>
    refine ⟨sees.1, ?_⟩
    rw [Function.update_of_ne fun same => sees.1 (UInt32.toNat_inj.mp same)]
    exact sees.2

theorem Sees.publish {head tail next : UInt32} {slots : Nat → UInt8} {take : Take}
    (sees : Sees head tail slots take) (room : next ≠ head) : Sees head next slots take := by
  cases take with
  | idle => trivial
  | reading => exact room.symm
  | advancing read => exact ⟨room.symm, sees.2⟩

structure Sound (line : Line Take) : Prop where
  within : line.Within
  head : line.head.toNat < ringSize
  room : ∀ nextTail, line.phase.upcoming = some nextTail → nextTail ≠ line.head
  sees : Sees line.head line.tail line.client.buf.slots line.consumer

def held (line : Line Take) : List UInt8 := line.unread ++ line.onItsWay

theorem unread_eq_cons (sound : line.Sound) (some : line.head ≠ line.tail) :
    line.unread = line.client.buf.slots line.head.toNat ::
      (line.setHead ((line.head + 1) % UInt32.ofNat ringSize)).unread := by
  have moved : (line.setHead ((line.head + 1) % UInt32.ofNat ringSize)).unread =
      Ring.queue ringSize line.client.buf.slots line.tail.toNat
        ((line.head.toNat + 1) % ringSize) := by
    rw [← next_toNat sound.head]
    rfl
  rw [moved]
  apply Ring.queue_pop sound.within.tail sound.head
  exact fun same => some (UInt32.toNat_inj.mp same.symm)

theorem Sound.call (sound : line.Sound) (c : UInt8) : (line.call c).1.Sound := by
  have within := sound.within.call c
  rcases call_spec line c with full | ⟨room, entered⟩
  · rw [full]
    exact sound
  · rw [entered] at within ⊢
    refine ⟨within, sound.head, fun nextTail upcoming => ?_, sound.sees⟩
    exact Option.some.inj upcoming ▸ room

theorem call_held (outside : line.phase = .outside) (c : UInt8) :
    (line.call c).1.held = line.held ++ (line.call c).2.accepts := by
  rcases call_spec line c with full | ⟨_, entered⟩
  · rw [full]
    exact (List.append_nil _).symm
  · rw [entered]
    simp only [held, unread, onItsWay, outside, Outcome.accepts, List.append_nil]

/-- A byte is only dropped when all slots but one are taken. -/
theorem Sound.call_dropped (sound : line.Sound) {c : UInt8}
    (dropped : (line.call c).2.accepts = []) :
    line.unread.length = ringSize - 1 := by
  rcases call_spec line c with full | ⟨_, entered⟩
  · have met : (line.tail + 1) % UInt32.ofNat ringSize = line.head := by
      by_contra room
      rw [Line.call, if_neg room] at full
      cases congrArg Prod.snd full
    rw [unread, ClientBuffer.unread, Ring.queue_length]
    apply (Ring.full_iff sound.within.tail sound.head).mp
    rw [← next_toNat sound.within.tail, met]
  · rw [entered] at dropped
    cases dropped

theorem Sound.take (sound : line.Sound) (behind : UInt8) : (line.take behind).1.Sound := by
  have within := sound.within
  have sees := sound.sees
  cases consumer : line.consumer with
  | idle =>
    rw [Line.take, consumer]
    refine ⟨⟨within.tail, within.next⟩, sound.head, sound.room, ?_⟩
    by_cases empty : line.head = line.tail
    · simp only [empty, if_true]
      trivial
    · simp only [empty, if_false]
      exact empty
  | reading =>
    rw [consumer] at sees
    rw [Line.take, consumer]
    refine ⟨⟨within.tail, within.next⟩, sound.head, sound.room, sees, ?_⟩
    dsimp only
    rw [dif_pos sound.head]
    exact dif_pos sound.head
  | advancing c =>
    rw [consumer] at sees
    rw [Line.take, consumer]
    refine ⟨⟨within.tail, within.next⟩, next_lt line.head, fun nextTail upcoming met => ?_, trivial⟩
    -- the next tail is the next head only where the ring was empty
    have next := within.next nextTail upcoming
    have met : nextTail = (line.head + 1) % UInt32.ofNat ringSize := met
    have same := congrArg UInt32.toNat (next.symm.trans met)
    rw [next_toNat within.tail, next_toNat sound.head] at same
    apply sees.1
    apply UInt32.toNat_inj.mp
    have headBound := sound.head
    have tailBound := within.tail
    rw [Ring.mod_wrap (by omega), Ring.mod_wrap (by omega)] at same
    split at same <;> split at same <;> omega

theorem Sound.take_held (sound : line.Sound) (behind : UInt8) :
    line.held = (line.take behind).2.handles ++ (line.take behind).1.held := by
  cases consumer : line.consumer with
  | idle =>
    rw [Line.take, consumer]
    rfl
  | reading =>
    rw [Line.take, consumer]
    rfl
  | advancing c =>
    have sees := sound.sees
    rw [consumer] at sees
    obtain ⟨some, read⟩ := sees
    rw [Line.take, consumer, held, unread_eq_cons sound some, read]
    rfl

theorem Sound.server (sound : line.Sound) (step : ServerStep line after) :
    after.Sound ∧ after.held = line.held := by
  have within := sound.within.server step
  cases step with
  | sample phase =>
    refine ⟨⟨within, sound.head, fun nextTail upcoming => ?_, sound.sees⟩, ?_⟩
    · exact sound.room nextTail (by rw [phase]; exact upcoming)
    · simp only [held, unread, onItsWay, phase]
  | @store c nextTail lastReadHead stored phase done =>
    have spec := store_spec done
    have slots := ClientBuffer.slots_update spec.within spec.buf
    have head : stored.client.buf.head = line.client.buf.head := spec.head
    have tail : stored.client.buf.tail = line.client.buf.tail := spec.tail
    refine ⟨⟨within, ?_, fun nextTail' upcoming => ?_, ?_⟩, ?_⟩
    · exact spec.head ▸ sound.head
    · change nextTail' ≠ stored.head
      rw [spec.head]
      exact sound.room nextTail' (by rw [phase]; exact upcoming)
    · change Sees stored.head stored.tail stored.client.buf.slots stored.consumer
      rw [spec.head, spec.tail, spec.consumer, slots]
      exact sound.sees.store c
    · have queue := Ring.queue_update_head sound.within.tail sound.head line.client.buf.slots c
      simp only [held, unread, onItsWay, phase, ClientBuffer.unread, slots, head, Line.tail, tail,
        Function.update_self]
      exact congrArg (· ++ [c]) queue
  | @publish nextTail lastReadHead phase =>
    have next := sound.within.next nextTail (by rw [phase]; rfl)
    have room := sound.room nextTail (by rw [phase]; rfl)
    refine ⟨⟨within, sound.head, fun _ upcoming => (by cases upcoming),
      sound.sees.publish room⟩, ?_⟩
    have moved : (line.tail.toNat + 1) % ringSize = nextTail.toNat := by
      rw [next, next_toNat sound.within.tail]
    have free : (line.tail.toNat + 1) % ringSize ≠ line.head.toNat := by
      rw [moved]
      exact fun same => room (UInt32.toNat_inj.mp same)
    have queue := Ring.queue_succ_head sound.within.tail sound.head free line.client.buf.slots
    rw [moved] at queue
    simp only [held, onItsWay, phase, List.append_nil]
    exact queue
  | @signal lastReadHead phase _ =>
    refine ⟨⟨within, sound.head, fun _ upcoming => (by cases upcoming), sound.sees⟩, ?_⟩
    simp only [held, unread, onItsWay, phase]
  | @silent lastReadHead phase _ =>
    refine ⟨⟨within, sound.head, fun _ upcoming => (by cases upcoming), sound.sees⟩, ?_⟩
    simp only [held, unread, onItsWay, phase]

/-- The server never stores behind the ring. -/
theorem Sound.server_isSome (sound : line.Sound) : line.server.isSome = true := by
  unfold Line.server
  cases phase : line.phase with
  | outside => rfl
  | checked c nextTail => rfl
  | sampled c nextTail lastReadHead => simp [store, sound.within.tail]
  | stored nextTail lastReadHead => rfl
  | published lastReadHead =>
    dsimp only
    split <;> rfl

theorem sound_of_empty (outside : line.phase = .outside) (idle : line.consumer = .idle)
    (head : line.head = 0) (tail : line.tail = 0) : line.Sound := by
  refine ⟨⟨?_, fun _ upcoming => ?_⟩, ?_, fun _ upcoming => ?_, ?_⟩
  · rw [tail]
    decide
  · rw [outside] at upcoming
    cases upcoming
  · rw [head]
    decide
  · rw [outside] at upcoming
    cases upcoming
  · rw [idle]
    trivial

theorem held_of_empty (outside : line.phase = .outside) (head : line.head = 0)
    (tail : line.tail = 0) : line.held = [] := by
  rw [held, onItsWay, outside, List.append_nil, unread, ClientBuffer.unread]
  apply (Ring.queue_eq_nil_iff _ _ _).mpr
  · exact congrArg UInt32.toNat (tail.trans head.symm)
  · change line.tail.toNat < ringSize
    rw [tail]
    decide
  · change line.head.toNat < ringSize
    rw [head]
    decide

end Line

theorem accepted_concat (trace : List (Turn × Outcome)) (turn : Turn) (outcome : Outcome) :
    accepted (trace ++ [(turn, outcome)]) = accepted trace ++ outcome.accepts := by
  simp [accepted]

theorem consumed_concat (trace : List (Turn × Outcome)) (turn : Turn) (outcome : Outcome) :
    consumed (trace ++ [(turn, outcome)]) = consumed trace ++ outcome.handles := by
  simp [consumed]

theorem step_held {line after : Line Take} {turn : Turn} {outcome : Outcome} (sound : line.Sound)
    (step : taker.Step line after turn outcome) :
    after.Sound ∧ line.held ++ outcome.accepts = outcome.handles ++ after.held := by
  cases step with
  | @call c _ outside entered =>
    have next := sound.call c
    have held := Line.call_held outside c
    rw [entered] at next held
    refine ⟨next, ?_⟩
    cases outcome with
    | accepted c => exact held.symm
    | nothing => exact held.symm
    | handled taken =>
      rcases call_spec line c with full | ⟨_, enters⟩
      · rw [full] at entered
        cases entered
      · rw [enters] at entered
        cases entered
  | server step =>
    obtain ⟨next, held⟩ := sound.server step
    exact ⟨next, by rw [held]; exact List.append_nil _⟩
  | @consumer behind _ ready done =>
    have next := sound.take behind
    have held := sound.take_held behind
    rw [Option.some.inj done] at next held
    refine ⟨next, ?_⟩
    cases outcome with
    | accepted c =>
      have done := congrArg Prod.snd (Option.some.inj done)
      rw [Line.take] at done
      split at done <;> cases done
    | nothing => exact (List.append_nil _).trans held
    | handled taken => exact (List.append_nil _).trans held

/-- What is accepted and not consumed is in the ring, or about to be published. -/
theorem run_held {line final : Line Take} {trace : List (Turn × Outcome)} (sound : line.Sound)
    (empty : line.held = []) (run : sharing.Run line trace final) :
    final.Sound ∧ accepted trace = consumed trace ++ final.held := by
  -- on the run: what is accepted is what was consumed and what is held, in this order
  induction run with
  | start => exact ⟨sound, empty.symm⟩
  | @next trace before after turn outcome _ allowed step ih =>
    obtain ⟨sound, balance⟩ := ih
    obtain ⟨next, held⟩ := step_held sound (machine_spec allowed step)
    refine ⟨next, ?_⟩
    rw [accepted_concat, consumed_concat, balance, List.append_assoc, held, List.append_assoc]

/-- The indices stay within the ring, the client consumes a prefix of what was accepted, a byte is
only dropped from a full ring, and the server never stores elsewhere. -/
theorem getchar_ring_fifo {line : Line Take} (outside : line.phase = .outside)
    (idle : line.consumer = .idle) (head : line.head = 0) (tail : line.tail = 0)
    {trace : List (Turn × Outcome)} {final : Line Take} (run : sharing.Run line trace final) :
    final.head.toNat < ringSize ∧ final.tail.toNat < ringSize ∧
      consumed trace <+: accepted trace ∧
      (∀ c, sharing.allowed final (.call c) → (final.call c).2.accepts = [] →
        final.unread.length = ringSize - 1) ∧
      ∀ turn, sharing.allowed final turn → (sharing.step final turn).isSome = true := by
  obtain ⟨sound, balance⟩ := run_held (Line.sound_of_empty outside idle head tail)
    (Line.held_of_empty outside head tail) run
  refine ⟨sound.head, sound.within.tail, ⟨final.held, balance.symm⟩,
    fun c _ dropped => sound.call_dropped dropped, fun turn _ => ?_⟩
  cases turn with
  | call c => rfl
  | server =>
    obtain ⟨after, done⟩ := Option.isSome_iff_exists.mp sound.server_isSome
    simp [sharing, Reader.machine, done]
  | consumer behind => rfl

theorem getchar_ring_fifo_two : ∃ trace final,
    sharing.Run (.init 1 .idle) trace final ∧ consumed trace = [97] ∧ accepted trace = [97, 98] ∧
      consumed trace <+: accepted trace := by
  have evaluated : (sharing.exec taker.enabled [] (.init 1 .idle)
      [.call 97, .server, .server, .server, .server, .consumer 0, .call 98, .server, .consumer 0,
        .server, .consumer 0]).any
      (fun result => decide (consumed result.1 = [97] ∧ accepted result.1 = [97, 98])) = true := by
    decide +kernel
  obtain ⟨⟨trace, final⟩, done, outcome⟩ := (Option.any_eq_true _ _).mp evaluated
  obtain ⟨consumes, accepts⟩ := of_decide_eq_true outcome
  have sound : ∀ line turn, taker.enabled line turn = true → sharing.allowed line turn ∧ True :=
    fun line turn enabled => ⟨Reader.allowed_of_enabled enabled, trivial⟩
  obtain ⟨run, _, _⟩ := Machine.exec_run sound .start .start done
  exact ⟨trace, final, run, consumes, accepts, (getchar_ring_fifo rfl rfl rfl rfl run).2.2.1⟩

end GlobalComponents.SerialServer
