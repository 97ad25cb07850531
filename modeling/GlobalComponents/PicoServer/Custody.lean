import GlobalComponents.PicoServer.Progress

/-! Every message stays in custody along a run of turns.

A message that a client has lent is available or waits at one socket, whatever happens to the others.
-/

set_option autoImplicit false

namespace GlobalComponents.PicoServer

open Library

variable {config : Config} {s after start : Server} {dir : Dir} {record msg : Ptr}
  {handle : UInt32} {answer : Answer} {answers : List Answer} {event : Event} {reply : Reply}
  {turn : Turn} {waiting : Dir → Ptr → List Ptr} {trace : List (Turn × Reply)}

/-- What the first available message meets, how far it comes and the length it is completed with. -/
inductive Handling (dir : Dir) (s : Server) (msg : Ptr) (answers : List Answer) :
    Option Ptr → Course → UInt64 → Prop where
  | refuse : (∀ record socket async, ¬Destined s msg record socket async) →
      Handling dir s msg answers none ⟨[], -1, false⟩ 0
  | append {record : Ptr} {socket : Socket} {async : Async} :
      Destined s msg record socket async → (async.pending dir).queue ≠ none →
      Handling dir s msg answers (some record) ⟨[], (s.msgs msg).doneLen, true⟩ 0
  | serve {record : Ptr} {socket : Socket} {async : Async} {answer : Answer}
      {left : List Answer} : Destined s msg record socket async →
      (async.pending dir).queue = none → answers = answer :: left →
      answer.fits dir (s.msgs msg).totalLen = true →
      Handling dir s msg answers (some record)
        ((⟨[], 0, true⟩ : Course).serve dir socket.protocol (s.msgs msg) answer)
        (if answer.ret = -1 then 0 else directLen dir (s.msgs msg).totalLen answer.ret)

/-- A turn of `tx_queue_handle` or `rx_queue_handle` takes the first available message. -/
theorem handleTurn_takes (done : handleTurn config s dir answers = .ok after) :
    (after = s ∧ (s.queue dir).available = []) ∨ ∃ handle msg left,
      (s.queue dir).available.head? = some (handle, msg) ∧
      ¬((s.msgs msg).totalLen > 1400 ∨ (s.msgs msg).totalLen = 0) ∧
      Takes config dir s handle msg answers after left := by
  rw [handleTurn.eq_def] at done
  split at done
  · next empty =>
    cases done
    exact .inl ⟨rfl, empty⟩
  · next entry rest available =>
    obtain ⟨handle, msg⟩ := entry
    have front : (s.queue dir).available.head? = some (handle, msg) := by rw [available]; rfl
    obtain ⟨⟨middle, left⟩, iteration, done⟩ := bind_ok.mp done
    obtain rfl := Except.ok.inj done
    obtain ⟨_, length, takes⟩ := queueIteration_takes iteration
    exact .inr ⟨handle, msg, left, front, length, takes⟩

theorem handleTurn_works (owned : Owned config.ringSize s.view waiting)
    (done : handleTurn config s dir answers = .ok after) :
    (after = s ∧ (s.queue dir).available = []) ∨ ∃ handle msg receiver course len waiting',
      (s.queue dir).available.head? = some (handle, msg) ∧
      ¬((s.msgs msg).totalLen > 1400 ∨ (s.msgs msg).totalLen = 0) ∧
      Handling dir s msg answers receiver course len ∧
      Works config dir receiver handle msg course len s after waiting waiting' := by
  rcases handleTurn_takes done with nothing | ⟨handle, msg, left, front, length, takes⟩
  · exact .inl nothing
  · right
    cases takes with
    | refuse nobody =>
      exact ⟨handle, msg, _, _, _, _, front, length, .refuse nobody, refuse_works owned front⟩
    | append destined others last =>
      obtain ⟨waiting', works⟩ := append_works owned (destined.taken front length) last
      exact ⟨handle, msg, _, _, _, _, front, length, .append destined others, works⟩
    | serve destined free serves =>
      obtain ⟨waiting', works⟩ := serves.works owned (destined.taken front length) free
      have fits := serves.fits
      rw [take_msgs] at fits
      exact ⟨handle, msg, _, _, _, _, front, length, .serve destined free rfl fits, works⟩

/-- A turn of `tx_socket` or `rx_socket` is an iteration for the first message that waits. -/
theorem serveTurn_iterates (done : serveTurn config s dir record answer = .ok after) :
    (after = s ∧ ∀ socket async msg, ¬Head s dir record socket async msg) ∨
      ∃ socket async msg more, Head s dir record socket async msg ∧
        Iterates config dir s record socket async msg answer after more := by
  obtain ⟨found, head, done⟩ := bind_ok.mp done
  cases found with
  | none =>
    cases done
    refine .inl ⟨rfl, fun socket async msg first => ?_⟩
    have empty := socketHead_none head first.held first.transport
    exact Option.some_ne_none _ (first.first.symm.trans empty)
  | some found =>
    obtain ⟨socket, async, msg⟩ := found
    obtain ⟨⟨middle, more⟩, iteration, done⟩ := bind_ok.mp done
    obtain rfl := Except.ok.inj done
    exact .inr ⟨socket, async, msg, more, socketHead_ok head _ _ _ rfl,
      socketIteration_iterates iteration⟩

theorem serveTurn_works (owned : Owned config.ringSize s.view waiting)
    (done : serveTurn config s dir record answer = .ok after) :
    (after = s ∧ ∀ socket async msg, ¬Head s dir record socket async msg) ∨
      ∃ socket async msg waiting', Head s dir record socket async msg ∧
        answer.fits dir ((s.msgs msg).totalLen - (s.msgs msg).doneLen) = true ∧
        Works config dir (some record) (s.msgs msg).cookieSave msg
          ((s.course dir msg).serve dir socket.protocol (s.msgs msg) answer)
          (if answer.ret = -1 then 0 else (s.msgs msg).totalLen) s after waiting waiting' := by
  rcases serveTurn_iterates done with nothing | ⟨socket, async, msg, more, head, iterates⟩
  · exact .inl nothing
  · obtain ⟨waiting', works⟩ := iterates.works owned head
    exact .inr ⟨socket, async, msg, waiting', head, iterates.fits, works⟩

theorem view_submit (content : Msg) : ((s.setMsg msg content).setQueue dir { s.queue dir with
      available := (s.queue dir).available ++ [(handle, msg)]
      lent := (s.queue dir).lent ++ [(handle, msg)] }).view =
    { s.view with
      msgs := Function.update s.view.msgs msg content
      queue := Function.update s.view.queue dir { s.view.queue dir with
        available := (s.view.queue dir).available ++ [(handle, msg)]
        lent := (s.view.queue dir).lent ++ [(handle, msg)] } } := by
  rw [view_setQueue, view_setMsg]
  rfl

/-- Cleaning up a socket takes its messages and leaves the others. -/
theorem CleanedUp.owned (cleaned : CleanedUp config record s after)
    (owned : Owned config.ringSize s.view waiting) :
    ∃ waiting', Owned config.ringSize after.view waiting' ∧
      (∀ d r, r ≠ record → waiting' d r = waiting d r) ∧ ∀ d, waiting' d record = [] := by
  obtain ⟨called, middle, first, drops, rests, last⟩ := cleaned.drops
  obtain ⟨waiting', owned, others, _⟩ := drops.owned (owned.aside first)
  exact ⟨waiting', owned.aside last, others, owned.resting rests⟩

theorem turn_owned (owned : Owned config.ringSize s.view waiting)
    (allowed : (turns config).allowed s turn) (done : s.turn config turn = .ok (after, reply)) :
    ∃ waiting', Owned config.ringSize after.view waiting' := by
  cases turn with
  | handle dir answers =>
    obtain ⟨handled, handling, done⟩ := bind_ok.mp done
    obtain ⟨rfl, _⟩ := pair_ok.mp done
    rcases handleTurn_works owned handling with ⟨rfl, _⟩ | ⟨_, _, _, _, _, waiting', _, _, _, works⟩
    · exact ⟨waiting, owned⟩
    · exact ⟨waiting', works.owned⟩
  | serve dir record answer =>
    obtain ⟨served, serving, done⟩ := bind_ok.mp done
    obtain ⟨rfl, _⟩ := pair_ok.mp done
    rcases serveTurn_works owned serving with ⟨rfl, _⟩ | ⟨_, _, _, waiting', _, _, works⟩
    · exact ⟨waiting, owned⟩
    · exact ⟨waiting', works.owned⟩
  | report socket ev memory =>
    obtain ⟨reported, reporting, done⟩ := bind_ok.mp done
    obtain ⟨rfl, _⟩ := pair_ok.mp done
    exact ⟨waiting, owned.aside (reportEvent_aside reporting)⟩
  | other event =>
    obtain ⟨permits, admits, loops⟩ := allowed event rfl
    cases step_effect owned permits admits loops done with
    | aside aside => exact ⟨waiting, owned.aside aside⟩
    | cleaned cleaned =>
      obtain ⟨waiting', owned, _⟩ := cleaned.owned owned
      exact ⟨waiting', owned⟩
    | @submit dir handle msg content =>
      refine ⟨waiting, ?_⟩
      rw [view_submit]
      exact owned.submit admits.1 admits.2.1 admits.2.2
    | collect =>
      refine ⟨waiting, ?_⟩
      rw [view_setQueue]
      exact owned.collect

structure Server.Idle (config : Config) (s : Server) : Prop where
  available : ∀ dir, (s.queue dir).available = []
  lent : ∀ dir, (s.queue dir).lent = []
  used : ∀ dir, (s.queue dir).used.length ≤ config.ringSize
  rests : ∀ record, s.Rests record
  journal : s.journal = []

theorem Server.Idle.owned (idle : s.Idle config) :
    Owned config.ringSize s.view fun _ _ => [] where
  linked dir record async held := by
    have held : (s.service record).map Prod.snd = some async :=
      (s.transport_eq record).symm.trans held
    obtain ⟨⟨protocol, async'⟩, service, rfl⟩ := Option.map_eq_some_iff.mp held
    rw [idle.rests record protocol async' service, Async.pending_idle]
    exact Linked.empty _
  idle _ _ _ := rfl
  lent dir handle msg := by
    change (handle, msg) ∈ (s.queue dir).lent ↔ (handle, msg) ∈ (s.queue dir).available ∨ _
    simp [idle.lent, idle.available]
  single := nofun
  taken := nofun
  handles dir := by
    change ((s.queue dir).lent.map Prod.fst).Nodup
    simp [idle.lent]
  msgs := by
    change (((s.queue .tx).lent ++ (s.queue .rx).lent).map Prod.snd).Nodup
    simp [idle.lent]
  available dir := by
    change (s.queue dir).available.Nodup
    simp [idle.available]
  room dir := by
    change (s.queue dir).used.length + (s.queue dir).lent.length ≤ config.ringSize
    rw [idle.lent]
    exact idle.used dir
  balance dir handle := by
    change took s.journal dir handle + ((s.queue dir).available.map Prod.fst).count handle =
      completed s.journal dir handle + ((s.queue dir).lent.map Prod.fst).count handle
    rw [idle.journal, idle.available, idle.lent]
    rfl

theorem init_idle (msgs : Ptr → Msg) : (Server.init msgs).Idle config where
  available dir := by cases dir with | tx | rx => rfl
  lent dir := by cases dir with | tx | rx => rfl
  used dir := by cases dir with | tx | rx => exact Nat.zero_le _
  rests _ := Server.rests_of_none rfl
  journal := rfl

/-- In every state that turns lead to the messages are owned. -/
theorem run_sound (idle : start.Idle config) (run : (turns config).Run start trace s) :
    s.Sound config := by
  refine run.invariant ⟨_, idle.owned⟩ fun before turn after reply sound allowed step => ?_
  obtain ⟨waiting, owned⟩ := sound
  exact turn_owned owned allowed (turns_step.mp step)

/-! ## Checked runs -/

def Turn.checked (config : Config) (s : Server) : Turn → Bool
  | .handle .. | .serve .. | .report .. => true
  | .other (.submit dir handle msg _) => s.MaySubmit config dir handle msg
  | .other (.control client (.setAsync ..)) => client < config.numClients
  | .other _ => false

theorem Turn.checked_allowed (checked : turn.checked config s = true) :
    (turns config).allowed s turn := by
  rintro event member
  cases turn with
  | handle | serve | report => cases member
  | other event' =>
    cases member
    cases event with
    | submit dir handle msg content =>
      have may : s.MaySubmit config dir handle msg := of_decide_eq_true checked
      exact ⟨trivial, may, rfl⟩
    | control client call =>
      cases call with
      | setAsync => exact ⟨⟨of_decide_eq_true checked, trivial⟩, trivial, rfl⟩
      | «open» | accept | close | eventPoll | stack | getIpv4 => cases checked
    | communicate | callback | putEvent | irq | notify | collect => cases checked

def openUdp : Turn := .other (.control 0 (.open true (some 0x1000) 0x2000 (true, true)))

theorem openUdp_allowed : (turns twoClients).allowed (.init fun _ => blankMsg) openUdp := by
  rintro _ ⟨⟩
  exact ⟨⟨by decide, fun _ _ => rfl⟩, nofun, rfl⟩

theorem first_run {opening : Turn} {check : Turn → Bool} {rest : List Turn} {final : Server}
    (allowed : (turns twoClients).allowed (.init fun _ => blankMsg) opening)
    (meets : Server → Turn → Prop) (sound : ∀ s turn, check turn = true → meets s turn)
    (first : meets (.init fun _ => blankMsg) opening)
    (done : ((turns twoClients).step (.init fun _ => blankMsg) opening).bind (fun opened =>
      (turns twoClients).exec (fun s turn => turn.checked twoClients s && check turn)
        [(opening, opened.2)] opened.1 rest) = some (trace, final)) :
    (turns twoClients).Run (.init fun _ => blankMsg) trace final ∧
      (turns twoClients).EveryStep (.init fun _ => blankMsg) trace meets := by
  obtain ⟨⟨opened, reply⟩, step, done⟩ := Option.bind_eq_some_iff.mp done
  have run := Machine.Run.start.next allowed step
  have every : (turns twoClients).EveryStep (.init fun _ => blankMsg) [(opening, reply)] meets :=
    Machine.EveryStep.start.next .start first
  have checks : ∀ (s : Server) turn, (turn.checked twoClients s && check turn) = true →
      (turns twoClients).allowed s turn ∧ meets s turn := by
    intro s turn checked
    obtain ⟨checked, checks⟩ := Bool.and_eq_true_iff.mp checked
    exact ⟨turn.checked_allowed checked, sound s turn checks⟩
  obtain ⟨run, every, _⟩ := Machine.exec_run checks run every done
  exact ⟨run, every⟩

theorem opened_run {check : Turn → Bool} {rest : List Turn} {final : Server}
    (meets : Server → Turn → Prop) (sound : ∀ s turn, check turn = true → meets s turn)
    (first : meets (.init fun _ => blankMsg) openUdp)
    (done : ((turns twoClients).step (.init fun _ => blankMsg) openUdp).bind (fun opened =>
      (turns twoClients).exec (fun s turn => turn.checked twoClients s && check turn)
        [(openUdp, opened.2)] opened.1 rest) = some (trace, final)) :
    (turns twoClients).Run (.init fun _ => blankMsg) trace final ∧
      (turns twoClients).EveryStep (.init fun _ => blankMsg) trace meets :=
  first_run openUdp_allowed meets sound first done

end GlobalComponents.PicoServer
