import GlobalComponents.PicoServer.Wire

/-! Whom a send or receive RPC acts for.

`client_check` asks the control interface who is calling, whatever interface the RPC came in on. So an
RPC acts for the client that used the control interface last.
-/

set_option autoImplicit false

namespace GlobalComponents.PicoServer

open Library

def Config.badges (config : Config) (call : StackCall) : List UInt64 :=
  if call.sends then config.sendBadges else config.recvBadges

def Config.bufSize (config : Config) (call : StackCall) : UInt64 → UInt64 :=
  if call.sends then config.sendBufSize else config.recvBufSize

/-- Each client has a badge of its own on the control interface, and no badge is zero. -/
structure Config.Valid (config : Config) : Prop where
  length : config.controlBadges.length = config.numClients
  distinct : config.controlBadges.Nodup
  nonzero : 0 ∉ config.controlBadges

/-- The RPC goes by the socket table and the dataport of the client that issued it. -/
def Action.ActsForIssuer (config : Config) : Action → Prop
  | .identity issuer call client badge | .window issuer call client _ badge _ _ =>
    client = issuer ∧ badge = enumerateBadge (config.badges call) issuer
  | _ => True

instance (config : Config) : (action : Action) → Decidable (action.ActsForIssuer config)
  | .identity issuer call client badge | .window issuer call client _ badge _ _ =>
    inferInstanceAs (Decidable
      (client = issuer ∧ badge = enumerateBadge (config.badges call) issuer))
  | .born _ _ | .took _ _ _ _ _ | .moved _ _ _ _ _ | .completed _ _ _ _ _ | .emitControl _
  | .notifyTx => inferInstanceAs (Decidable True)

def Event.controller : Event → Option Nat
  | .control client _ => some client
  | _ => none

/-- The client that used the control interface last. -/
def lastControl (trace : List (Event × Reply)) : Option Nat :=
  (trace.filterMap fun entry => entry.1.controller).getLast?

/-- A send or receive RPC comes from the client that used the control interface last. -/
def FromLastControl (early : List (Event × Reply)) : Event → Prop
  | .communicate client .. => lastControl early = some client
  | _ => True

theorem lastControl_concat (trace : List (Event × Reply)) (event : Event) (reply : Reply) :
    lastControl (trace ++ [(event, reply)]) = event.controller.or (lastControl trace) := by
  cases here : event.controller with
  | none => simp [lastControl, here]
  | some client => simp [lastControl, here]

/-- Neither the control badge changes nor is a send or receive RPC served. -/
def Quiet (before after : Server) : Prop :=
  after.controlBadge = before.controlBadge ∧ after.communications = before.communications

theorem SameBooks.quiet {before after : Server} (same : SameBooks before after) :
    Quiet before after := ⟨same.controlBadge, same.communications⟩

theorem SameWire.quiet {before after : Server} (same : SameWire before after) :
    Quiet before after := ⟨same.controlBadge, same.communications⟩

theorem Quiet.refl (s : Server) : Quiet s s := ⟨rfl, rfl⟩

theorem Quiet.trans {before middle after : Server} (first : Quiet before middle)
    (second : Quiet middle after) : Quiet before after :=
  ⟨second.1.trans first.1, second.2.trans first.2⟩

/-- Neither is an event flagged. -/
def Still (before after : Server) : Prop :=
  Quiet before after ∧ after.emitClient = before.emitClient

theorem SameBooks.still {before after : Server} (same : SameBooks before after) :
    Still before after := ⟨same.quiet, same.emitClient⟩

theorem SameWire.still {before after : Server} (same : SameWire before after) :
    Still before after := ⟨same.quiet, same.emitClient⟩

theorem Still.refl (s : Server) : Still s s := ⟨.refl s, rfl⟩

theorem Still.trans {before middle after : Server} (first : Still before middle)
    (second : Still middle after) : Still before after :=
  ⟨first.1.trans second.1, second.2.trans first.2⟩

section
variable {config : Config} {s after : Server} {reply : Reply}

theorem putNewSocket_still {clientId : Nat} {record socket : Ptr} {protocol : Protocol}
    {memory : Bool × Bool} {ret : Int32}
    (done : putNewSocket config s clientId record socket protocol memory = .ok (after, ret)) :
    Still s after :=
  ((SameBooks.refl s).note rfl).still.trans (SameWire.putNewSocket done).still

theorem picoControlOpen_still {isUdp : Bool} {record : Option Ptr} {socket : Ptr}
    {memory : Bool × Bool}
    (done : picoControlOpen config s isUdp record socket memory = .ok (after, reply)) :
    Still s after := by
  obtain ⟨clientId, _, done⟩ := bind_ok.mp done
  split at done
  · obtain ⟨rfl, _⟩ := pair_ok.mp done
    exact .refl s
  · split at done
    · obtain ⟨rfl, _⟩ := pair_ok.mp done
      exact .refl s
    · obtain ⟨⟨put, ret⟩, putting, done⟩ := bind_ok.mp done
      obtain ⟨rfl, _⟩ := pair_ok.mp done
      exact putNewSocket_still putting

theorem picoControlAccept_still {socketFd : Int32} {socket : Ptr} {peerAddr : UInt32}
    {remotePort : UInt16} {record : Option Ptr} {memory : Bool × Bool}
    (done : picoControlAccept config s socketFd socket peerAddr remotePort record memory =
      .ok (after, reply)) : Still s after := by
  obtain ⟨clientId, _, done⟩ := bind_ok.mp done
  split at done
  · obtain ⟨rfl, _⟩ := pair_ok.mp done
    exact .refl s
  · obtain ⟨_, _, done⟩ := bind_ok.mp done
    split at done
    · obtain ⟨rfl, _⟩ := pair_ok.mp done
      exact .refl s
    · split at done
      · obtain ⟨rfl, _⟩ := pair_ok.mp done
        exact .refl s
      · obtain ⟨⟨put, ret⟩, putting, done⟩ := bind_ok.mp done
        dsimp only at done
        split at done
        · obtain ⟨rfl, _⟩ := pair_ok.mp done
          exact putNewSocket_still putting
        · obtain ⟨rfl, _⟩ := pair_ok.mp done
          exact putNewSocket_still putting

theorem picoControlClose_still {socketFd : Int32}
    (done : picoControlClose config s socketFd = .ok (after, reply)) : Still s after := by
  obtain ⟨clientId, _, done⟩ := bind_ok.mp done
  split at done
  · obtain ⟨rfl, _⟩ := pair_ok.mp done
    exact .refl s
  · obtain ⟨cleaned, cleaning, done⟩ := bind_ok.mp done
    obtain ⟨⟨deleted, ret⟩, deleting, done⟩ := bind_ok.mp done
    obtain ⟨rfl, _⟩ := pair_ok.mp done
    exact (SameBooks.cleanup cleaning).still.trans
      (SameWire.clientDeleteSocket (.refl cleaned) deleting).still

theorem picoControlSetAsync_still {socketFd : Int32} {enabled memory : Bool}
    (done : picoControlSetAsync config s socketFd enabled memory = .ok (after, reply)) :
    Still s after := by
  obtain ⟨clientId, _, done⟩ := bind_ok.mp done
  split at done
  · obtain ⟨rfl, _⟩ := pair_ok.mp done
    exact .refl s
  · obtain ⟨socket, _, done⟩ := bind_ok.mp done
    split at done
    · split at done
      · obtain ⟨rfl, _⟩ := pair_ok.mp done
        exact .refl s
      · obtain ⟨rfl, _⟩ := pair_ok.mp done
        exact ((SameWire.refl s).setRecord _ _).still
    · split at done
      · obtain ⟨cleaned, cleaning, done⟩ := bind_ok.mp done
        obtain ⟨rfl, _⟩ := pair_ok.mp done
        exact (SameBooks.cleanup cleaning).still
      · obtain ⟨rfl, _⟩ := pair_ok.mp done
        exact .refl s

theorem picoControlStack_still {socketFd ret : Int32}
    (done : picoControlStack config s socketFd ret = .ok (after, reply)) : Still s after := by
  obtain ⟨clientId, _, done⟩ := bind_ok.mp done
  split at done
  · obtain ⟨rfl, _⟩ := pair_ok.mp done
    exact .refl s
  · obtain ⟨_, _, done⟩ := bind_ok.mp done
    obtain ⟨rfl, _⟩ := pair_ok.mp done
    exact .refl s

theorem control_still {client : Nat} {call : Control}
    (done : controlHandleMessage config s client call = .ok (after, reply)) :
    Still { s with controlBadge := enumerateBadge config.controlBadges client } after := by
  rw [controlHandleMessage.eq_def] at done
  cases call with
  | «open» => exact picoControlOpen_still done
  | accept => exact picoControlAccept_still done
  | close => exact picoControlClose_still done
  | setAsync => exact picoControlSetAsync_still done
  | eventPoll =>
    obtain ⟨clientId, _, done⟩ := bind_ok.mp done
    obtain ⟨⟨polled, event⟩, polling, done⟩ := bind_ok.mp done
    obtain ⟨rfl, _⟩ := pair_ok.mp done
    exact (SameWire.clientGetEvent (.refl _) polling).still
  | stack => exact picoControlStack_still done
  | getIpv4 device =>
    cases device <;> (obtain ⟨rfl, _⟩ := pair_ok.mp done; exact .refl _)

theorem reportEvent_quiet {clientSocket : Socket} {ev : UInt16} {memory : Bool}
    (done : reportEvent s clientSocket ev memory = .ok after) : Quiet s after := by
  rw [reportEvent] at done
  split at done
  · obtain rfl := Except.ok.inj done
    exact .refl s
  · obtain ⟨⟨put, ret⟩, putting, done⟩ := bind_ok.mp done
    obtain ⟨_, _, done⟩ := bind_ok.mp done
    obtain rfl := Except.ok.inj done
    exact (SameWire.clientPutEvent (.refl s) putting).quiet

theorem socketCb_quiet {ev : UInt16} {socket : Ptr} {answers : List Answer} {memory : Bool}
    (done : socketCb config s ev socket answers memory = .ok after) : Quiet s after := by
  rw [socketCb] at done
  split at done
  · split at done
    · obtain rfl := Except.ok.inj done
      exact .refl s
    · cases done
  · obtain ⟨clientSocket, _, done⟩ := bind_ok.mp done
    split at done
    · obtain ⟨⟨served, ev'⟩, serving, done⟩ := bind_ok.mp done
      exact (SameBooks.of_steps (serveAsync_steps serving)).quiet.trans (reportEvent_quiet done)
    · exact reportEvent_quiet done

theorem note_quiet (s : Server) {action : Action} (other : action.isCommunication = false) :
    Quiet s (s.note action) := ((SameBooks.refl s).note other).quiet

theorem notifyClient_quiet (s : Server) : Quiet s (notifyClient s) := by
  have control : Quiet s
      (if s.emitClient then { s.note (.emitControl 1) with emitClient := false } else s) := by
    split
    · exact note_quiet s rfl
    · exact .refl s
  rw [notifyClient]
  dsimp only
  generalize (if s.emitClient then { s.note (.emitControl 1) with emitClient := false } else s) =
    middle at control ⊢
  split
  · exact control.trans (note_quiet middle rfl)
  · exact control

/-- What a send or receive RPC of `issuer` does: it goes by whatever `client_check` says. -/
theorem communicate_spec {issuer : Nat} {call : StackCall} {socketFd len bufferOffset ret : Int32}
    (done : communicateHandleMessage config s issuer call socketFd len bufferOffset ret =
      .ok (after, reply)) :
    after.controlBadge = s.controlBadge ∧
      ∃ client, clientCheck config s = .ok client ∧ ∃ actions : List Action,
        after.communications = s.communications ++
          .identity issuer call client (enumerateBadge (config.badges call) client) :: actions ∧
        ∀ action ∈ actions, ∃ socket, action = .window issuer call client socket
          (enumerateBadge (config.badges call) client) bufferOffset len := by
  obtain ⟨stored, badge, check, served, done⟩ : ∃ stored : Server,
      stored.controlBadge = s.controlBadge ∧ clientCheck config stored = clientCheck config s ∧
      stored.communications = s.communications ∧
      communicate config (config.badges call) (config.bufSize call) call stored issuer socketFd len
        bufferOffset ret = .ok (after, reply) := by
    cases call with
    | write | send | sendto =>
      exact ⟨{ s with sendBadge := enumerateBadge config.sendBadges issuer }, rfl, rfl, rfl, done⟩
    | read | recv | recvfrom =>
      exact ⟨{ s with recvBadge := enumerateBadge config.recvBadges issuer }, rfl, rfl, rfl, done⟩
  obtain ⟨client, checked, done⟩ := bind_ok.mp done
  rw [← badge, ← served]
  dsimp only at done
  have noted : ∀ (state : Server) (action : Action), action.isCommunication = true →
      (state.note action).communications = state.communications ++ [action] := by
    intro state action communication
    simp [Server.communications, Server.note, communication]
  split at done
  · obtain ⟨rfl, _⟩ := pair_ok.mp done
    exact ⟨rfl, client, check ▸ checked, [], noted _ _ rfl, by simp⟩
  · obtain ⟨socket, _, done⟩ := bind_ok.mp done
    obtain ⟨rfl, _⟩ := pair_ok.mp done
    refine ⟨rfl, client, check ▸ checked, [.window issuer call client socket.socket
      (enumerateBadge (config.badges call) client) bufferOffset len], ?_, ?_⟩
    · rw [noted _ _ rfl, noted _ _ rfl, List.append_assoc]
      rfl
    · intro action member
      exact ⟨socket.socket, List.mem_singleton.mp member⟩

theorem enumerateBadge_of_lt {badges : List UInt64} {i : Nat} (within : i < badges.length) :
    enumerateBadge badges i = badges[i] := by
  simp [enumerateBadge, within]

theorem clientCheck_spec (valid : config.Valid) {client : Nat} :
    clientCheck config s = .ok client ↔
      client < config.numClients ∧ s.controlBadge = enumerateBadge config.controlBadges client := by
  have found : getSenderId config.controlBadges s.controlBadge = some client ↔
      client < config.numClients ∧ s.controlBadge = enumerateBadge config.controlBadges client := by
    rw [getSenderId, List.idxOf?_eq_some_iff, ← valid.length]
    constructor
    · rintro ⟨within, here, _⟩
      exact ⟨within, by rw [enumerateBadge_of_lt within, here]⟩
    · rintro ⟨within, here⟩
      rw [enumerateBadge_of_lt within] at here
      refine ⟨within, here.symm, fun j earlier same => ?_⟩
      exact earlier.ne ((valid.distinct.getElem_inj_iff).mp (same.trans here))
  rw [clientCheck]
  split
  · next none => simp [← found, none]
  · next clientId some =>
    have small : clientId < config.numClients := by
      have : clientId < config.controlBadges.length := by
        rw [getSenderId, List.idxOf?_eq_some_iff] at some
        exact some.1
      rwa [valid.length] at this
    rw [if_neg (Nat.not_le.mpr small), ← found, some]
    simp

/-- What every step does to the control badge and to the RPCs served. -/
theorem step_identity {event : Event} (done : s.step config event = .ok (after, reply)) :
    match event with
    | .control client _ => after.controlBadge = enumerateBadge config.controlBadges client ∧
        after.communications = s.communications
    | .communicate issuer call _ len bufferOffset _ => after.controlBadge = s.controlBadge ∧
        ∃ client, clientCheck config s = .ok client ∧ ∃ actions : List Action,
          after.communications = s.communications ++
            .identity issuer call client (enumerateBadge (config.badges call) client) :: actions ∧
          ∀ action ∈ actions, ∃ socket, action = .window issuer call client socket
            (enumerateBadge (config.badges call) client) bufferOffset len
    | _ => Quiet s after := by
  cases event with
  | control => exact (control_still done).1
  | communicate => exact communicate_spec done
  | callback =>
    obtain ⟨_, called, done⟩ := bind_ok.mp done
    obtain ⟨rfl, _⟩ := pair_ok.mp done
    exact socketCb_quiet called
  | putEvent =>
    obtain ⟨⟨_, _⟩, putting, done⟩ := bind_ok.mp done
    obtain ⟨rfl, _⟩ := pair_ok.mp done
    exact (SameWire.clientPutEvent (.refl s) putting).quiet
  | irq =>
    obtain ⟨⟨_, _⟩, receiving, done⟩ := bind_ok.mp done
    obtain ⟨⟨_, _⟩, sending, done⟩ := bind_ok.mp done
    obtain ⟨rfl, _⟩ := pair_ok.mp done
    exact (SameBooks.of_steps ((queueHandle_steps receiving).trans
      (queueHandle_steps sending))).quiet
  | notify =>
    obtain ⟨rfl, _⟩ := pair_ok.mp done
    exact notifyClient_quiet s
  | submit =>
    obtain ⟨rfl, _⟩ := pair_ok.mp done
    exact (((SameBooks.refl s).setMsg _ _).setQueue _ _).quiet
  | collect =>
    obtain ⟨rfl, _⟩ := pair_ok.mp done
    exact ((SameBooks.refl s).setQueue _ _).quiet

end

/-- The control badge is that of the last controller, and the RPCs so far acted for their issuers
exactly if each came from the last controller. -/
structure IdentityInvariant (config : Config) (trace : List (Event × Reply)) (s : Server) :
    Prop where
  badge : s.controlBadge = (lastControl trace).elim 0 (enumerateBadge config.controlBadges)
  client : ∀ client, lastControl trace = some client → client < config.numClients
  acts : (∀ action ∈ s.communications, action.ActsForIssuer config) ↔
    EveryEvent trace FromLastControl

/-- The client that an RPC goes by is the last controller. -/
theorem IdentityInvariant.checked {config : Config} (valid : config.Valid)
    {trace : List (Event × Reply)} {s : Server} (inv : IdentityInvariant config trace s)
    {client : Nat} (check : clientCheck config s = .ok client) : lastControl trace = some client := by
  obtain ⟨small, badge⟩ := (clientCheck_spec valid).mp check
  cases last : lastControl trace with
  | none =>
    have zero : s.controlBadge = 0 := by rw [inv.badge, last]; rfl
    rw [enumerateBadge_of_lt (valid.length ▸ small)] at badge
    exact absurd (zero ▸ badge ▸ List.getElem_mem _) valid.nonzero
  | some controller =>
    have same : s.controlBadge = enumerateBadge config.controlBadges controller := by
      rw [inv.badge, last]
      rfl
    have other := (clientCheck_spec valid).mpr ⟨inv.client _ last, same⟩
    rw [Except.ok.inj (check.symm.trans other)]

theorem IdentityInvariant.next {config : Config} (valid : config.Valid)
    {trace : List (Event × Reply)} {s after : Server} {event : Event} {reply : Reply}
    (inv : IdentityInvariant config trace s) (allowed : s.permits config event)
    (done : s.step config event = .ok (after, reply)) :
    IdentityInvariant config (trace ++ [(event, reply)]) after := by
  have spec := step_identity done
  have quiet : event.controller = none → Quiet s after → (FromLastControl trace event ↔ True) →
      IdentityInvariant config (trace ++ [(event, reply)]) after := by
    intro other quiet free
    have last : lastControl (trace ++ [(event, reply)]) = lastControl trace := by
      rw [lastControl_concat, other, Option.none_or]
    exact {
      badge := by rw [last, quiet.1, inv.badge]
      client := by rw [last]; exact inv.client
      acts := by rw [everyEvent_concat, quiet.2, inv.acts, free, and_true] }
  cases event with
  | control client call =>
    have last : lastControl (trace ++ [(.control client call, reply)]) = some client :=
      lastControl_concat _ _ _
    exact {
      badge := by rw [last, spec.1]; rfl
      client := by
        intro other same
        rw [last] at same
        exact Option.some.inj same ▸ allowed.1
      acts := by
        rw [everyEvent_concat, spec.2, inv.acts]
        exact (and_iff_left trivial).symm }
  | communicate issuer call socketFd len bufferOffset ret =>
    obtain ⟨badge, client, check, actions, served, windows⟩ := spec
    have controller := inv.checked valid check
    have last : lastControl (trace ++
        [(.communicate issuer call socketFd len bufferOffset ret, reply)]) = lastControl trace := by
      rw [lastControl_concat]
      rfl
    exact {
      badge := by rw [last, badge, inv.badge]
      client := by rw [last]; exact inv.client
      acts := by
        rw [everyEvent_concat, ← inv.acts, served]
        constructor
        · intro all
          have own : client = issuer := (all (.identity issuer call client
            (enumerateBadge (config.badges call) client)) (by simp)).1
          refine ⟨fun action member => all action (List.mem_append_left _ member), ?_⟩
          exact own ▸ controller
        · rintro ⟨earlier, from'⟩
          obtain rfl : client = issuer := Option.some.inj (controller.symm.trans from')
          intro action member
          rcases List.mem_append.mp member with old | new
          · exact earlier action old
          · rcases List.mem_cons.mp new with rfl | new
            · exact ⟨rfl, rfl⟩
            · obtain ⟨socket, rfl⟩ := windows action new
              exact ⟨rfl, rfl⟩ }
  | callback | putEvent | irq | notify | submit | collect => exact quiet rfl spec Iff.rfl

def twoClients : Config where
  numClients := 2
  controlBadges := [1, 2]
  sendBadges := [1, 2]
  recvBadges := [1, 2]
  sendBufSize := fun _ => 4096
  recvBufSize := fun _ => 4096
  ringSize := 4

theorem twoClients_valid : twoClients.Valid := ⟨rfl, by decide, by decide⟩

def blankMsg : Msg := ⟨0, 0, 0, 0, 0, none, 0, fun _ => 0⟩

theorem permitted_run {config : Config} {msgs : Ptr → Msg} {events : List Event}
    {trace : List (Event × Reply)} {final : Server}
    (done : (machine config).exec (fun s event => s.permits config event) [] (.init msgs) events =
      some (trace, final)) :
    (machine config).Run (.init msgs) trace final ∧ trace.map Prod.fst = events := by
  have sound : ∀ (s : Server) event, decide (s.permits config event) = true →
      (machine config).allowed s event ∧ True :=
    fun s event permitted => ⟨of_decide_eq_true (p := s.permits config event) permitted, trivial⟩
  obtain ⟨run, _, same⟩ := Machine.exec_run sound .start .start done
  exact ⟨run, same⟩

end GlobalComponents.PicoServer
