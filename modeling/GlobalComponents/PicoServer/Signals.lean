import GlobalComponents.PicoServer.Tables

/-! Whom `notify_client` wakes.

`socket_cb` records the events of all clients behind one flag, and `notify_client` emits to one badge
whatever the flag stands for. So the right clients are woken exactly if only the client with that badge
has events.
-/

set_option autoImplicit false

namespace GlobalComponents.PicoServer

open Library

def leftBits (bit ev : UInt16) : UInt16 := if ev &&& bit ≠ 0 then ev &&& ~~~bit else ev

/-- The bits that `socket_cb` puts on a socket. -/
def leftEvents (clientSocket : Socket) (ev : UInt16) : UInt16 :=
  if clientSocket.asyncTransport ≠ none then leftBits picoSockEvWr (leftBits picoSockEvRd ev)
  else ev

def putting (clientSocket : Socket) (left : UInt16) : Option (Nat × Int32 × UInt16) :=
  if left = 0 then none else some (clientSocket.clientId, clientSocket.socketFd, left)

def recordedEvent (s : Server) : Event → Option (Nat × Int32 × UInt16)
  | .callback ev socket _ _ =>
    match (clientGetSocketByAddr s socket).bind s.records with
    | some clientSocket => putting clientSocket (leftEvents clientSocket ev)
    | none => none
  | _ => none

section
variable {config : Config} {s after : Server} {reply : Reply}

theorem serveEvent_left {dir : Dir} {bit ev ev' : UInt16} {record : Ptr}
    {answers left : List Answer}
    (done : serveEvent config dir bit s record ev answers = .ok (after, ev', left)) :
    ev' = leftBits bit ev := by
  rw [serveEvent] at done
  rw [leftBits]
  split at done
  · next served =>
    obtain ⟨⟨queued, _⟩, _, done⟩ := bind_ok.mp done
    obtain ⟨⟨sent, _⟩, _, done⟩ := bind_ok.mp done
    obtain ⟨_, same⟩ := pair_ok.mp done
    rw [if_pos served]
    exact (congrArg Prod.fst same).symm
  · next other =>
    have same := (Prod.mk.inj (Except.ok.inj done)).2
    rw [if_neg other]
    exact (congrArg Prod.fst same).symm

theorem serveAsync_left {ev ev' : UInt16} {record : Ptr} {answers : List Answer}
    (done : serveAsync config s record ev answers = .ok (after, ev')) :
    ev' = leftBits picoSockEvWr (leftBits picoSockEvRd ev) := by
  obtain ⟨⟨received, evRd, _⟩, receiving, done⟩ := bind_ok.mp done
  obtain ⟨⟨sent, evWr, _⟩, sending, done⟩ := bind_ok.mp done
  obtain ⟨_, rfl⟩ := pair_ok.mp done
  rw [serveEvent_left sending, serveEvent_left receiving]

theorem socketCb_spec {ev : UInt16} {socket : Ptr} {answers : List Answer} {memory : Bool}
    (done : socketCb config s ev socket answers memory = .ok after) :
    ∃ middle, SameBooks s middle ∧
      match recordedEvent s (.callback ev socket answers memory) with
      | none => after = middle
      | some (c, fd, bits) => ∃ put ret, clientPutEvent middle c fd bits memory = .ok (put, ret) ∧
          ret ≠ -1 ∧ after = { put with emitClient := true } := by
  have report : ∀ (middle : Server) (clientSocket : Socket) (left : UInt16),
      reportEvent middle clientSocket left memory = .ok after →
      match putting clientSocket left with
      | none => after = middle
      | some (c, fd, bits) => ∃ put ret, clientPutEvent middle c fd bits memory = .ok (put, ret) ∧
          ret ≠ -1 ∧ after = { put with emitClient := true } := by
    intro middle clientSocket left done
    rw [reportEvent] at done
    rw [putting]
    split at done
    · next nothing =>
      rw [if_pos nothing]
      exact (Except.ok.inj done).symm
    · next something =>
      rw [if_neg something]
      obtain ⟨⟨put, ret⟩, putting, done⟩ := bind_ok.mp done
      obtain ⟨_, checked, done⟩ := bind_ok.mp done
      exact ⟨put, ret, putting, zfLogfIf_ok.mp checked, (Except.ok.inj done).symm⟩
  rw [socketCb] at done
  rw [recordedEvent]
  cases found : clientGetSocketByAddr s socket with
  | none =>
    rw [found] at done
    dsimp only at done
    split at done
    · exact ⟨s, .refl s, (Except.ok.inj done).symm⟩
    · cases done
  | some record =>
    rw [found] at done
    obtain ⟨clientSocket, deref, done⟩ := bind_ok.mp done
    have live := Server.deref_ok.mp deref
    simp only [Option.bind_some, live, leftEvents]
    split at done
    · next async =>
      obtain ⟨⟨served, left⟩, serving, done⟩ := bind_ok.mp done
      rw [if_pos async, ← serveAsync_left serving]
      exact ⟨served, .of_steps (serveAsync_steps serving), report served clientSocket left done⟩
    · next sync =>
      rw [if_neg sync]
      exact ⟨s, .refl s, report s clientSocket ev done⟩

/-- `emit_client` is set by the events that are recorded and reset by `notify_client`. -/
theorem step_emitClient {event : Event} (done : s.step config event = .ok (after, reply))
    (other : event ≠ .notify) :
    after.emitClient = (s.emitClient || (recordedEvent s event).isSome) := by
  have same : recordedEvent s event = none → after.emitClient = s.emitClient →
      after.emitClient = (s.emitClient || (recordedEvent s event).isSome) := by
    intro nothing same
    rw [nothing, same]
    exact (Bool.or_false _).symm
  cases event with
  | control => exact same rfl (control_still done).2
  | communicate => exact same rfl (communicate_books done).2
  | callback ev socket answers memory =>
    obtain ⟨_, called, done⟩ := bind_ok.mp done
    obtain ⟨rfl, _⟩ := pair_ok.mp done
    obtain ⟨middle, books, rest⟩ := socketCb_spec called
    cases recorded : recordedEvent s (.callback ev socket answers memory) with
    | none =>
      rw [recorded] at rest
      rw [rest, books.emitClient]
      exact (Bool.or_false _).symm
    | some put =>
      rw [recorded] at rest
      obtain ⟨_, _, _, _, rfl⟩ := rest
      exact (Bool.or_true _).symm
  | putEvent =>
    obtain ⟨⟨_, _⟩, putting, done⟩ := bind_ok.mp done
    obtain ⟨rfl, _⟩ := pair_ok.mp done
    exact same rfl (SameWire.clientPutEvent (.refl s) putting).emitClient
  | irq =>
    obtain ⟨⟨_, _⟩, receiving, done⟩ := bind_ok.mp done
    obtain ⟨⟨_, _⟩, sending, done⟩ := bind_ok.mp done
    obtain ⟨rfl, _⟩ := pair_ok.mp done
    exact same rfl (SameBooks.of_steps ((queueHandle_steps receiving).trans
      (queueHandle_steps sending))).emitClient
  | notify => exact absurd rfl other
  | submit =>
    obtain ⟨rfl, _⟩ := pair_ok.mp done
    exact same rfl (((SameBooks.refl s).setMsg _ _).setQueue _ _).emitClient
  | collect =>
    obtain ⟨rfl, _⟩ := pair_ok.mp done
    exact same rfl ((SameBooks.refl s).setQueue _ _).emitClient

theorem notifyClient_emits (s : Server) {badge : UInt32} :
    Action.emitControl badge ∈ (notifyClient s).journal.drop s.journal.length ↔
      s.emitClient = true ∧ badge = 1 := by
  have later : ∀ rest, (s.journal ++ rest).drop s.journal.length = rest := fun rest => by simp
  cases control : s.emitClient <;> cases async : s.emitClientAsync <;>
    simp [notifyClient, control, async, Server.note, later]

theorem notifyClient_emitClient (s : Server) : (notifyClient s).emitClient = false := by
  cases control : s.emitClient <;> cases async : s.emitClientAsync <;>
    simp [notifyClient, control, async, Server.note]

end

/-- `notify_client` emits on the badge of the client. -/
def Server.signals (config : Config) (s : Server) (client : Nat) : Prop :=
  ∃ badge, Action.emitControl badge ∈ (notifyClient s).journal.drop s.journal.length ∧
    badge.toUInt64 = enumerateBadge config.controlBadges client

/-- The clients for which `socket_cb` has recorded events since `notify_client` ran last. -/
def noteSignal (s : Server) (event : Event) (_ : Reply) (clients : List Nat) : List Nat :=
  match event with
  | .notify => []
  | event => clients ++ ((recordedEvent s event).map Prod.fst).toList

def signalling (config : Config) : Machine (Server × List Nat) Event Reply :=
  (machine config).record noteSignal

/-- When `notify_client` runs it wakes the clients that have events, and no others. -/
def WakesRightClients (config : Config) (s : Server × List Nat) : Event → Prop
  | .notify => ∀ client, s.1.signals config client ↔ client ∈ s.2
  | _ => True

def EventsOfFirstBadge (config : Config) (s : Server × List Nat) : Event → Prop
  | .notify => ∀ client ∈ s.2, enumerateBadge config.controlBadges client = 1
  | _ => True

theorem signalling_flag {config : Config} {msgs : Ptr → Msg} {trace : List (Event × Reply)}
    {final : Server × List Nat} (run : (signalling config).Run (.init msgs, []) trace final) :
    final.1.emitClient = !final.2.isEmpty := by
  apply run.invariant
  · rfl
  rintro ⟨s, clients⟩ event ⟨after, clients'⟩ reply flag _ step
  obtain ⟨step, noted⟩ := Machine.record_step step
  have done := machine_step.mp step
  dsimp only at flag noted done ⊢
  by_cases notify : event = .notify
  · subst notify
    obtain ⟨rfl, _⟩ := pair_ok.mp done
    rw [noted]
    exact notifyClient_emitClient s
  · have list : clients' = clients ++ ((recordedEvent s event).map Prod.fst).toList := by
      rw [noted, noteSignal]
      exact fun same => absurd same notify
    rw [step_emitClient done notify, flag, list]
    cases recordedEvent s event <;> simp

/-- A client with badge 1 is the only one. -/
theorem Config.Valid.first {config : Config} (valid : config.Valid) {left right : Nat}
    (one : enumerateBadge config.controlBadges left = 1)
    (other : enumerateBadge config.controlBadges right = 1) : left = right := by
  have within : ∀ client, enumerateBadge config.controlBadges client = 1 →
      ∃ small : client < config.controlBadges.length, config.controlBadges[client] = 1 := by
    intro client badge
    by_cases small : client < config.controlBadges.length
    · exact ⟨small, by rwa [enumerateBadge_of_lt small] at badge⟩
    · rw [enumerateBadge, List.getElem?_eq_none (Nat.not_lt.mp small)] at badge
      exact absurd badge (by decide)
  obtain ⟨small, here⟩ := within left one
  obtain ⟨small', there⟩ := within right other
  exact valid.distinct.getElem_inj_iff.mp (here.trans there.symm)

theorem wakesRightClients_iff {config : Config} (valid : config.Valid) {s : Server × List Nat}
    (flag : s.1.emitClient = !s.2.isEmpty) (event : Event) :
    WakesRightClients config s event ↔ EventsOfFirstBadge config s event := by
  obtain ⟨s, clients⟩ := s
  dsimp only at flag
  cases event with
  | notify =>
    have signals : ∀ client, s.signals config client ↔
        clients ≠ [] ∧ enumerateBadge config.controlBadges client = 1 := by
      intro client
      simp only [Server.signals, notifyClient_emits, flag]
      constructor
      · rintro ⟨badge, ⟨some, rfl⟩, same⟩
        exact ⟨by simpa using some, same.symm⟩
      · rintro ⟨some, same⟩
        exact ⟨1, ⟨by simpa using some, rfl⟩, same.symm⟩
    constructor
    · intro right client member
      exact ((signals client).mp ((right client).mpr member)).2
    · intro first client
      rw [signals]
      constructor
      · rintro ⟨some, badge⟩
        obtain ⟨other, member⟩ := List.exists_mem_of_ne_nil clients some
        exact valid.first badge (first other member) ▸ member
      · intro member
        exact ⟨List.ne_nil_of_mem member, first client member⟩
  | control | communicate | callback | putEvent | irq | submit | collect => exact Iff.rfl

/-- Along every trace the right clients are woken exactly if only the client with badge 1 has events
whenever `notify_client` runs. -/
theorem right_clients_woken_iff {config : Config} (valid : config.Valid) {msgs : Ptr → Msg}
    {trace : List (Event × Reply)} :
    (signalling config).EveryStep (.init msgs, []) trace (WakesRightClients config) ↔
      (signalling config).EveryStep (.init msgs, []) trace (EventsOfFirstBadge config) := by
  constructor
  · intro right early event result within s reached
    exact (wakesRightClients_iff valid (signalling_flag reached) event).mp
      (right early event result within s reached)
  · intro first early event result within s reached
    exact (wakesRightClients_iff valid (signalling_flag reached) event).mpr
      (first early event result within s reached)

def clientEvent (client : Nat) : List Event :=
  [.control client (.open false (some 0x1000) 0x2000 (true, true)), .callback 4 0x2000 [] true,
    .notify]

instance (config : Config) (s : Server × List Nat) :
    (event : Event) → Decidable (EventsOfFirstBadge config s event)
  | .notify =>
    inferInstanceAs (Decidable (∀ client ∈ s.2, enumerateBadge config.controlBadges client = 1))
  | .control .. | .communicate .. | .callback .. | .putEvent .. | .irq _ | .submit .. | .collect _ =>
    inferInstanceAs (Decidable True)

instance (config : Config) (s : Server) (client : Nat) : Decidable (s.signals config client) :=
  decidable_of_iff (s.emitClient = true ∧ (1 : UInt64) = enumerateBadge config.controlBadges client)
    (by
      simp only [Server.signals, notifyClient_emits]
      constructor
      · rintro ⟨flag, badge⟩
        exact ⟨1, ⟨flag, rfl⟩, badge⟩
      · rintro ⟨_, ⟨flag, rfl⟩, badge⟩
        exact ⟨flag, badge⟩)

theorem clientEvent_run {c : Nat} (client : c < 2) :
    ∃ trace final, (signalling twoClients).Run (.init fun _ => blankMsg, []) trace final ∧
      (signalling twoClients).EveryStep (.init fun _ => blankMsg, []) trace
        (EventsOfFirstBadge twoClients) ∧
      trace.map Prod.fst = (clientEvent c).dropLast ∧ final.2 = [c] ∧
      ¬final.1.signals twoClients 1 ∧ final.1.signals twoClients 0 := by
  have evaluated : ∀ c < 2, ((signalling twoClients).exec
      (fun s event => decide (s.1.permits twoClients event) &&
        decide (EventsOfFirstBadge twoClients s event)) [] (.init fun _ => blankMsg, [])
      (clientEvent c).dropLast).any (fun result => decide (result.2.2 = [c] ∧
        ¬result.2.1.signals twoClients 1 ∧ result.2.1.signals twoClients 0)) = true := by
    decide +kernel
  obtain ⟨⟨trace, final⟩, done, outcome⟩ := (Option.any_eq_true _ _).mp (evaluated c client)
  obtain ⟨run, first, events⟩ := Machine.exec_run (fun s event checked => by
    rw [Bool.and_eq_true, decide_eq_true_eq, decide_eq_true_eq] at checked
    exact checked) .start .start done
  exact ⟨trace, final, run, first, events, of_decide_eq_true outcome⟩

/-- Client 0 is woken for its own event, and in place of client 1. -/
theorem right_clients_woken_iff_bothClients :
    (∃ trace final, (signalling twoClients).Run (.init fun _ => blankMsg, []) trace final ∧
      trace.map Prod.fst = clientEvent 0 ∧
      (signalling twoClients).EveryStep (.init fun _ => blankMsg, []) trace
        (WakesRightClients twoClients)) ∧
    ∃ trace final, (signalling twoClients).Run (.init fun _ => blankMsg, []) trace final ∧
      trace.map Prod.fst = clientEvent 1 ∧
      ¬(signalling twoClients).EveryStep (.init fun _ => blankMsg, []) trace
        (WakesRightClients twoClients) := by
  have valid : twoClients.Valid := ⟨rfl, by decide, by decide⟩
  constructor
  · obtain ⟨trace, final, run, first, events, clients, _⟩ := clientEvent_run (by decide : 0 < 2)
    refine ⟨_, _, run.on .notify trivial rfl, ?_, (right_clients_woken_iff valid).mpr ?_⟩
    · rw [List.map_append, events]
      rfl
    · refine first.next run fun client member => ?_
      rw [clients, List.mem_singleton] at member
      rw [member]
      rfl
  · obtain ⟨trace, final, run, _, events, clients, _⟩ := clientEvent_run (by decide : 1 < 2)
    refine ⟨_, _, run.on .notify trivial rfl, ?_, mt (right_clients_woken_iff valid).mp ?_⟩
    · rw [List.map_append, events]
      rfl
    · intro first
      have badge := first trace .notify Reply.none (List.prefix_refl _) final run 1
        (by rw [clients]; exact List.mem_singleton.mpr rfl)
      exact absurd badge (by decide)

/-- Client 0 is woken in place of client 1. -/
theorem second_client_not_woken :
    ¬∀ trace final, (signalling twoClients).Run (.init fun _ => blankMsg, []) trace final →
      (signalling twoClients).EveryStep (.init fun _ => blankMsg, []) trace
        (WakesRightClients twoClients) := by
  intro claim
  obtain ⟨trace, final, run, _, _, events, missed, _⟩ := clientEvent_run (by decide : 1 < 2)
  have notified : (signalling twoClients).Run (.init fun _ => blankMsg, [])
      (trace ++ [(.notify, Reply.none)]) (notifyClient final.1, []) := run.on .notify trivial rfl
  have woken := claim _ _ notified trace .notify Reply.none (List.prefix_refl _) final run
  exact missed ((woken 1).mpr (by rw [events]; exact List.mem_singleton.mpr rfl))

end GlobalComponents.PicoServer
