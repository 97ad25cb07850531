import GlobalComponents.SerialServer.Getchar

/-! Wake-ups for typed input.

The server compares the head that it read before it stored the byte with the one it read at its last
signal. A consumer that drains the ring between that read and the publication has nothing left to
wake it.
-/

set_option autoImplicit false

namespace GlobalComponents.SerialServer

open Library

/-- A consumer that takes bytes until the ring is empty, and then waits for a notification. -/
inductive Drain where
  | waiting
  | checking
  | reading
  | advancing (c : UInt8)
  deriving DecidableEq

def Line.drain (line : Line Drain) (behind : UInt8) : Line Drain × Outcome :=
  match line.consumer with
  | .waiting => ({ line with pending := false, consumer := .checking }, .nothing)
  | .checking =>
    ({ line with consumer := if line.head = line.tail then .waiting else .reading }, .nothing)
  | .reading =>
    let c := if within : line.head.toNat < ringSize then
      line.client.buf.buf ⟨line.head.toNat, within⟩ else behind
    ({ line with consumer := .advancing c }, .nothing)
  | .advancing c =>
    ({ line.setHead ((line.head + 1) % UInt32.ofNat ringSize) with consumer := .checking },
      .handled c)

def Line.drainReady (line : Line Drain) : Prop := line.consumer = .waiting → line.pending = true

instance (line : Line Drain) : Decidable line.drainReady :=
  inferInstanceAs (Decidable (_ → _))

def drainer : Reader Drain where
  ready := Line.drainReady
  step line behind := some (line.drain behind)

instance : DecidablePred drainer.ready :=
  fun line => inferInstanceAs (Decidable line.drainReady)

def typing : Machine (Line Drain) Turn Outcome := drainer.machine

namespace Line

variable {line after : Line Drain}

/-- Nothing is going to wake the consumer but the server. -/
def Idle (line : Line Drain) : Prop := line.consumer = .waiting ∧ line.pending = false

/-- When both sides rest the ring is empty. -/
def Drained (line : Line Drain) : Prop :=
  line.phase = .outside → line.consumer = .waiting → line.pending = false → line.head = line.tail

/-- A byte is not published for a resting consumer whose head the server has signalled for. -/
def Wakes (line : Line Drain) (turn : Turn) : Prop :=
  ∀ nextTail lastReadHead, turn = .server → line.phase = .stored nextTail lastReadHead →
    line.Idle → lastReadHead ≠ line.client.lastHead

/-- The ring of a resting consumer is empty, except between a publication and its signal. -/
structure Awake (line : Line Drain) : Prop where
  within : line.Within
  empty : line.Idle → line.head = line.tail ∨
    ∃ lastReadHead, line.phase = .published lastReadHead ∧ lastReadHead ≠ line.client.lastHead

theorem Awake.drained (awake : line.Awake) : line.Drained := by
  intro outside waiting silent
  rcases awake.empty ⟨waiting, silent⟩ with empty | ⟨lastReadHead, published, _⟩
  · exact empty
  · rw [outside] at published
    cases published

theorem Awake.empty_of (awake : line.Awake) (idle : line.Idle)
    (early : ∀ lastReadHead, line.phase ≠ .published lastReadHead) : line.head = line.tail := by
  rcases awake.empty idle with empty | ⟨lastReadHead, published, _⟩
  · exact empty
  · exact absurd published (early lastReadHead)

theorem Awake.init (clientId : Nat) : (Line.init clientId Drain.waiting).Awake :=
  ⟨init_within clientId _, fun _ => .inl rfl⟩

theorem Awake.call (awake : line.Awake) (outside : line.phase = .outside) (c : UInt8) :
    (line.call c).1.Awake := by
  refine ⟨awake.within.call c, fun idle => .inl ?_⟩
  rcases call_spec line c with full | ⟨_, entered⟩
  · rw [full] at idle ⊢
    exact awake.empty_of idle fun _ => by rw [outside]; exact nofun
  · rw [entered] at idle ⊢
    exact awake.empty_of idle fun _ => by rw [outside]; exact nofun

theorem Awake.server (awake : line.Awake) (step : ServerStep line after)
    (wakes : line.Wakes .server) : after.Awake := by
  refine ⟨awake.within.server step, fun idle => ?_⟩
  cases step with
  | sample phase =>
    have same := awake.empty_of idle fun _ => by rw [phase]; exact nofun
    exact .inl same
  | store phase done =>
    have stored := store_spec done
    have before : line.Idle := ⟨stored.consumer ▸ idle.1, stored.pending ▸ idle.2⟩
    have same := awake.empty_of before fun _ => by rw [phase]; exact nofun
    exact .inl (stored.head.trans (same.trans stored.tail.symm))
  | publish phase => exact .inr ⟨_, rfl, wakes _ _ rfl phase idle⟩
  | signal => exact absurd idle.2 Bool.noConfusion
  | silent phase same =>
    rcases awake.empty idle with empty | ⟨lastReadHead, published, moved⟩
    · exact .inl empty
    · rw [phase] at published
      cases published
      exact absurd same moved

theorem Awake.drain (awake : line.Awake) (behind : UInt8) :
    (line.drain behind).1.Awake := by
  have within := awake.within
  unfold Line.drain
  cases consumer : line.consumer with
  | waiting => exact ⟨⟨within.tail, within.next⟩, fun idle => nomatch idle.1⟩
  | checking =>
    refine ⟨⟨within.tail, within.next⟩, fun idle => .inl ?_⟩
    by_contra different
    have reading : (if line.head = line.tail then Drain.waiting else Drain.reading) = .waiting :=
      idle.1
    have different : ¬line.head = line.tail := different
    rw [if_neg different] at reading
    cases reading
  | reading => exact ⟨⟨within.tail, within.next⟩, fun idle => nomatch idle.1⟩
  | advancing c => exact ⟨⟨within.tail, within.next⟩, fun idle => nomatch idle.1⟩

/-- The byte is published and the server is not going to signal it. -/
structure Doomed (line : Line Drain) : Prop where
  idle : line.Idle
  full : line.head ≠ line.tail
  phase : line.phase = .published line.client.lastHead

/-- Only the server can go on, and it returns. -/
theorem Doomed.stuck {turn : Turn} {outcome : Outcome} (doomed : line.Doomed)
    (step : drainer.Step line after turn outcome) : ¬after.Drained := by
  cases step with
  | call outside =>
    rw [doomed.phase] at outside
    cases outside
  | server returned =>
    intro drained
    cases returned with
    | sample phase => rw [doomed.phase] at phase; cases phase
    | store phase => rw [doomed.phase] at phase; cases phase
    | publish phase => rw [doomed.phase] at phase; cases phase
    | signal phase moved =>
      rw [doomed.phase] at phase
      cases phase
      exact moved rfl
    | silent => exact doomed.full (drained rfl doomed.idle.1 doomed.idle.2)
  | consumer ready =>
    have pending : line.pending = true := ready doomed.idle.1
    rw [doomed.idle.2] at pending
    cases pending

theorem Awake.doomed (awake : line.Awake) {turn : Turn} {outcome : Outcome}
    (step : drainer.Step line after turn outcome) (missed : ¬line.Wakes turn) : after.Doomed := by
  unfold Wakes at missed
  push Not at missed
  obtain ⟨nextTail, lastReadHead, rfl, phase, idle, same⟩ := missed
  have empty := awake.empty_of idle fun _ => by rw [phase]; exact nofun
  have next := awake.within.next nextTail (by rw [phase]; rfl)
  cases step with
  | server step =>
    cases step with
    | publish phase' =>
      rw [phase] at phase'
      cases phase'
      refine ⟨idle, fun met => ?_, congrArg Phase.published same⟩
      apply next_ne awake.within.tail
      rw [← next, ← empty]
      exact met.symm
    | sample phase' => rw [phase] at phase'; cases phase'
    | store phase' => rw [phase] at phase'; cases phase'
    | signal phase' => rw [phase] at phase'; cases phase'
    | silent phase' => rw [phase] at phase'; cases phase'

end Line

section
variable {line after : Line Drain} {turn : Turn} {outcome : Outcome}

theorem step_awake (awake : line.Awake) (wakes : line.Wakes turn)
    (step : drainer.Step line after turn outcome) : after.Awake := by
  cases step with
  | @call c _ outside entered =>
    have called := awake.call outside c
    rw [entered] at called
    exact called
  | server step => exact awake.server step wakes
  | @consumer behind _ _ done =>
    have drained := awake.drain behind
    rw [Option.some.inj done] at drained
    exact drained

/-- As long as nothing is lost every publication has met the condition, or the last one has just
missed it. -/
theorem run_wakes {clientId : Nat} {trace : List (Turn × Outcome)} {final : Line Drain}
    (run : typing.Run (.init clientId .waiting) trace final)
    (always : typing.Always (.init clientId .waiting) trace Line.Drained) :
    (final.Awake ∧ typing.EveryStep (.init clientId .waiting) trace Line.Wakes) ∨
      final.Doomed := by
  induction run with
  | start => exact .inl ⟨.init clientId, .start⟩
  | @next trace before after turn outcome run allowed step ih =>
    have drained := always _ (List.prefix_refl _) after (run.next allowed step)
    have earlier : typing.Always (.init clientId .waiting) trace Line.Drained :=
      fun early within => always early (within.trans (List.prefix_append _ _))
    -- a missed condition shows one step later, so the last step is let off
    rcases ih earlier with ⟨awake, wakes⟩ | doomed
    · by_cases met : before.Wakes turn
      · exact .inl ⟨step_awake awake met (machine_spec allowed step), wakes.next run met⟩
      · exact .inr (awake.doomed (machine_spec allowed step) met)
    · exact absurd drained (doomed.stuck (machine_spec allowed step))

/-- The ring is empty whenever both sides rest, as long as no byte is published for a resting consumer
at a head that the server has signalled for; and in a run that ends outside of the server's call it
is so only then. -/
theorem typed_input_wakes_iff {clientId : Nat} {trace : List (Turn × Outcome)}
    {final : Line Drain} (run : typing.Run (.init clientId .waiting) trace final) :
    (typing.EveryStep (.init clientId .waiting) trace Line.Wakes →
      typing.Always (.init clientId .waiting) trace Line.Drained) ∧
    (final.phase = .outside → typing.Always (.init clientId .waiting) trace Line.Drained →
      typing.EveryStep (.init clientId .waiting) trace Line.Wakes) := by
  constructor
  · intro wakes early within line reached
    have awake : line.Awake := by
      apply (wakes.early within).history reached (.init clientId)
      intro _ before turn after outcome awake allowed met step
      exact step_awake awake met (machine_spec allowed step)
    exact awake.drained
  · intro outside always
    rcases run_wakes run always with ⟨_, wakes⟩ | doomed
    · exact wakes
    · rw [doomed.phase] at outside
      cases outside

end

/-- The consumer drains the first byte while the server has read the head for the second one. -/
def lateByte : List Turn :=
  [.call 97, .server, .server, .server, .server, .consumer 0, .consumer 0,
   .call 98, .server, .consumer 0, .consumer 0, .consumer 0, .server, .server, .server]

theorem lateByte_run : ∃ trace final, typing.Run (.init 1 .waiting) trace final ∧
    trace.map Prod.fst = lateByte ∧ ¬final.Drained := by
  have evaluated : (typing.exec drainer.enabled [] (.init 1 .waiting) lateByte).any
      (fun result => decide (result.2.phase = .outside ∧ result.2.consumer = .waiting ∧
        result.2.pending = false ∧ result.2.head ≠ result.2.tail)) = true := by
    decide +kernel
  obtain ⟨⟨trace, final⟩, done, outcome⟩ := (Option.any_eq_true _ _).mp evaluated
  obtain ⟨outside, waiting, silent, full⟩ := of_decide_eq_true outcome
  have sound : ∀ line turn, drainer.enabled line turn = true →
      typing.allowed line turn ∧ True :=
    fun line turn enabled => ⟨Reader.allowed_of_enabled enabled, trivial⟩
  obtain ⟨run, _, turns⟩ := Machine.exec_run sound .start .start done
  exact ⟨trace, final, run, turns, fun drained => full (drained outside waiting silent)⟩

theorem typed_input_wakes_iff_lateByte : ∃ trace final,
    typing.Run (.init 1 .waiting) trace final ∧ trace.map Prod.fst = lateByte ∧
    (typing.EveryStep (.init 1 .waiting) trace Line.Wakes →
      typing.Always (.init 1 .waiting) trace Line.Drained) ∧
    (final.phase = .outside → typing.Always (.init 1 .waiting) trace Line.Drained →
      typing.EveryStep (.init 1 .waiting) trace Line.Wakes) := by
  obtain ⟨trace, final, run, turns, _⟩ := lateByte_run
  exact ⟨trace, final, run, turns, typed_input_wakes_iff run⟩

/-- The second byte stays in the ring while both sides rest. -/
theorem late_byte_unseen : ¬∀ trace final, typing.Run (.init 1 .waiting) trace final →
    typing.Always (.init 1 .waiting) trace Line.Drained := by
  intro claim
  obtain ⟨trace, final, run, _, left⟩ := lateByte_run
  exact left (claim trace final run trace (List.prefix_refl _) final run)

end GlobalComponents.SerialServer
