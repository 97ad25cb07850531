import GlobalComponents.PicoServer.Pending
import GlobalComponents.PicoServer.Tables

/-! Every asynchronous message is owned and completed exactly once.

The invariant of the messages is kept by every call of the server. As long as it holds no pending list
is found inconsistent.
-/

set_option autoImplicit false

namespace GlobalComponents.PicoServer

open Library

def inconsistent : Fault := .logf "Inconsistent queue state"

def Server.Sound (config : Config) (s : Server) : Prop :=
  ∃ waiting, Owned config.ringSize s.view waiting

variable {config : Config} {s after : Server} {dir : Dir} {record msg : Ptr} {handle : UInt32}
  {socket : Socket} {async : Async} {answer : Answer} {answers : List Answer}

theorem Server.Sound.step (sound : s.Sound config) (step : MsgStep config s after) :
    after.Sound config := sound.elim fun _ owned => owned.step step

theorem Server.Sound.steps (sound : s.Sound config) (steps : MsgSteps config s after) :
    after.Sound config := sound.elim fun _ owned => owned.steps steps

/-- Only an answer that the stack may not give stops a transfer. -/
theorem stack_ends {protocol : Protocol} {offset requested : UInt64} :
    Ends (· = .answer) (fun _ => True)
      (stack dir s protocol record msg offset requested answer) := by
  rw [stack]
  split
  · exact trivial
  · exact rfl

theorem socketIteration_ends : Ends (· = .answer) (fun _ => True)
    (socketIteration config dir s record socket async msg answer) := by
  cases dir with
  | tx | rx =>
    dsimp only [socketIteration, txSocketIteration, rxSocketIteration]
    refine stack_ends.bind fun _ _ => ?_
    split
    · exact trivial
    · split
      · exact trivial
      · exact trivial

theorem direct_ends : Ends (· = .answer) (fun _ => True)
    (direct config dir s record socket async handle msg answer) := by
  cases dir with
  | tx | rx =>
    dsimp only [direct, txDirect, rxDirect]
    refine stack_ends.bind fun _ _ => ?_
    split
    · exact trivial
    · split
      · exact trivial
      · exact trivial

theorem answer_ne {fault : Fault} (answer : fault = .answer) : fault ≠ inconsistent := by
  rw [answer]
  nofun

theorem deref_ends : Ends (· ≠ inconsistent) (fun socket => s.records record = some socket)
    (s.deref record) := by
  rw [Server.deref]
  split
  · next held => exact held
  · intro same
    cases same

theorem zfLogfIf_ends {cond : Prop} [Decidable cond] {text : String}
    (other : text ≠ "Inconsistent queue state") :
    Ends (· ≠ inconsistent) (fun _ => ¬cond) (zfLogfIf cond text) := by
  rw [zfLogfIf, faultIf]
  split
  · exact fun same => other (Fault.logf.inj same)
  · next passed => exact passed

/-- A pending list has a last message if it has a first one. -/
theorem Server.Sound.queueEnd (sound : s.Sound config) (held : s.records record = some socket)
    (transport : socket.asyncTransport = some async) (some : (async.pending dir).queue ≠ none) :
    (async.pending dir).queueEnd ≠ none := by
  obtain ⟨waiting, owned⟩ := sound
  have both : (s.records record).bind Socket.asyncTransport = Option.some async := by
    rw [held]
    exact transport
  have linked := owned.linked dir record async both
  exact fun none => some (linked.first_eq_none.mpr (linked.last_eq_none.mp none))

theorem socketHead_ends (sound : s.Sound config) : Ends (· ≠ inconsistent)
    (fun found => ∀ socket async msg, found = some (socket, async, msg) →
      Head s dir record socket async msg) (socketHead s dir record) := by
  refine deref_ends.bind fun socket held => ?_
  split
  · nofun
  · next async transport =>
    split
    · rintro _ _ _ same
      cases same
    · next msg queue =>
      have last : (async.pending dir).queueEnd ≠ none := by
        apply sound.queueEnd held transport
        rw [queue]
        exact Option.some_ne_none msg
      have passed : zfLogfIf ((async.pending dir).queueEnd = none) "Inconsistent queue state" =
          .ok () := zfLogfIf_ok.mpr last
      rw [passed]
      rintro _ _ _ same
      cases same
      exact ⟨held, transport, queue⟩

/-- The loop of `tx_socket` and `rx_socket` keeps the messages owned. -/
theorem socketLoop_ends (sound : s.Sound config) : Ends (· ≠ inconsistent)
    (fun result => result.1.Sound config) (socketLoop config dir record answers s) := by
  -- on the answers: each iteration uses one up
  induction answers generalizing s with
  | nil =>
    refine (socketHead_ends sound).bind fun found _ => ?_
    cases found with
    -- nothing waits: the loop ends without having asked the stack
    | none => exact sound
    | some => nofun
  | cons answer answers ih =>
    refine (socketHead_ends sound).bind fun found head => ?_
    cases found with
    | none => exact sound
    | some found =>
      obtain ⟨socket, async, msg⟩ := found
      have head := head socket async msg rfl
      have iteration : Ends (· ≠ inconsistent) (fun result => result.1.Sound config)
          (socketIteration config dir s record socket async msg answer) :=
        socketIteration_ends.returns (fun _ => answer_ne) fun _ done =>
          sound.step (socketIteration_step head done)
      refine iteration.bind fun result sound => ?_
      dsimp only
      split
      · exact ih sound
      · exact sound

theorem serveSocket_ends (sound : s.Sound config) : Ends (· ≠ inconsistent)
    (fun result => result.1.Sound config) (serveSocket config dir s record answers) := by
  refine deref_ends.bind fun socket _ => ?_
  split
  · exact sound
  · exact socketLoop_ends sound

theorem dequeue_records : (s.dequeue dir).records = s.records := by
  cases dir with
  | tx | rx => rfl

theorem queueIteration_quiet (sound : s.Sound config) : Ends (· ≠ inconsistent) (fun _ => True)
    (queueIteration config dir (s, answers) (handle, msg)) := by
  have text : badMsgLen dir ≠ "Inconsistent queue state" := by
    cases dir with
    | tx | rx => decide
  refine (zfLogfIf_ends (by decide)).bind fun _ _ => (zfLogfIf_ends text).bind fun _ _ => ?_
  split
  · exact trivial
  · next record _ =>
    refine deref_ends.bind fun socket held => ?_
    rw [dequeue_records] at held
    split
    · exact trivial
    · split
      · exact trivial
      · next async transport =>
        rw [deliver.eq_def]
        dsimp only
        split
        · next some =>
          split
          · next none => exact absurd none (sound.queueEnd held transport some)
          · exact trivial
        · split
          · intro same
            cases same
          · exact (direct_ends.returns (fun _ => answer_ne) fun _ _ => trivial).bind
              fun _ _ => trivial

theorem queueHandle_ends (sound : s.Sound config) : Ends (· ≠ inconsistent)
    (fun result => result.1.Sound config) (queueHandle config dir s answers) := by
  -- the entries still to come are the ones available
  have loop : ∀ (entries : List (UInt32 × Ptr)) (s : Server) (answers : List Answer),
      (s.queue dir).available = entries → s.Sound config →
      Ends (· ≠ inconsistent) (fun result => result.1.Sound config)
        (entries.foldlM (queueIteration config dir) (s, answers)) := by
    intro entries
    -- on the descriptors that were available at first
    induction entries with
    | nil => exact fun _ _ _ sound => sound
    | cons entry entries ih =>
      intro s answers available sound
      have front : (s.queue dir).available.head? = some entry := by
        rw [available]
        rfl
      have iteration : Ends (· ≠ inconsistent) (fun result => result.1.Sound config ∧
          (result.1.queue dir).available = entries)
          (queueIteration config dir (s, answers) entry) := by
        refine (queueIteration_quiet sound).returns (fun _ => id) fun result done => ?_
        obtain ⟨step, tail⟩ := queueIteration_step front done
        refine ⟨sound.step step, ?_⟩
        rw [tail, available]
        rfl
      exact iteration.bind fun result after => ih result.1 result.2 after.2 after.1
  exact loop _ s answers rfl sound

theorem serveEvent_ends {bit ev : UInt16} (sound : s.Sound config) : Ends (· ≠ inconsistent)
    (fun result => result.1.Sound config)
    (serveEvent config dir bit s record ev answers) := by
  rw [serveEvent]
  split
  · refine (queueHandle_ends sound).bind fun handled sound => ?_
    exact (serveSocket_ends sound).bind fun _ sound => sound
  · exact sound

theorem serveAsync_ends {ev : UInt16} (sound : s.Sound config) : Ends (· ≠ inconsistent)
    (fun result => result.1.Sound config) (serveAsync config s record ev answers) := by
  refine (serveEvent_ends sound).bind fun received sound => ?_
  exact (serveEvent_ends sound).bind fun _ sound => sound

end GlobalComponents.PicoServer
