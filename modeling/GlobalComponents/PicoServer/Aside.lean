import GlobalComponents.PicoServer.Ids
import GlobalComponents.PicoServer.Pending

/-! What an RPC does beside the messages: the virtqueues, the messages and the pending lists in use stay
as they are. -/

set_option autoImplicit false

namespace GlobalComponents.PicoServer

open Library

def Server.service (s : Server) (record : Ptr) : Option (Protocol × Async) :=
  (s.records record).bind fun socket =>
    socket.asyncTransport.map fun async => (socket.protocol, async)

theorem Server.transport_eq (s : Server) (record : Ptr) :
    s.transport record = (s.service record).map Prod.snd := by
  rw [Server.transport, Server.service]
  cases s.records record with
  | none => rfl
  | some socket => cases here : socket.asyncTransport <;> simp [here]

def Async.idle : Async := ⟨⟨none, none⟩, ⟨none, none⟩⟩

@[simp] theorem Async.pending_idle (dir : Dir) : Async.idle.pending dir = ⟨none, none⟩ := by
  cases dir with
  | tx | rx => rfl

/-- No message waits at a socket. -/
def Server.Rests (s : Server) (record : Ptr) : Prop :=
  ∀ protocol async, s.service record = some (protocol, async) → async = .idle

theorem Server.rests_of_none {s : Server} {record : Ptr} (none : s.service record = none) :
    s.Rests record := fun _ _ held => absurd (none.symm.trans held) (Option.some_ne_none _).symm

def Action.isAside : Action → Bool
  | .took .. | .moved .. | .completed .. => false
  | _ => true

structure Aside (before after : Server) : Prop where
  queue : after.queue = before.queue
  msgs : after.msgs = before.msgs
  service : ∀ record, after.service record = before.service record ∨
    before.Rests record ∧ after.Rests record
  journal : ∃ more, after.journal = before.journal ++ more ∧ ∀ action ∈ more, action.isAside = true

namespace Aside

variable {before middle after : Server} {record : Ptr} {socket : Socket}

theorem refl (s : Server) : Aside s s :=
  ⟨rfl, rfl, fun _ => .inl rfl, [], (List.append_nil _).symm, nofun⟩

theorem rests (aside : Aside before after) (still : before.Rests record) : after.Rests record := by
  rcases aside.service record with same | ⟨_, rests⟩
  · intro protocol async held
    exact still protocol async (same ▸ held)
  · exact rests

theorem trans (first : Aside before middle) (second : Aside middle after) : Aside before after where
  queue := second.queue.trans first.queue
  msgs := second.msgs.trans first.msgs
  service record := by
    rcases first.service record with same | ⟨still, rests⟩
    · rcases second.service record with same' | ⟨still, rests⟩
      · exact .inl (same'.trans same)
      · refine .inr ⟨fun protocol async held => ?_, rests⟩
        exact still protocol async (same.trans held)
    · exact .inr ⟨still, second.rests rests⟩
  journal := by
    obtain ⟨early, journal, quiet⟩ := first.journal
    obtain ⟨late, journal', quiet'⟩ := second.journal
    refine ⟨early ++ late, by rw [journal', journal, List.append_assoc], fun action member => ?_⟩
    rcases List.mem_append.mp member with member | member
    · exact quiet action member
    · exact quiet' action member

theorem of_same (queue : after.queue = before.queue) (msgs : after.msgs = before.msgs)
    (records : after.records = before.records) (journal : after.journal = before.journal) :
    Aside before after := by
  refine ⟨queue, msgs, fun record => .inl ?_, [], by rw [journal, List.append_nil], nofun⟩
  rw [Server.service, records, Server.service]

theorem setClient (s : Server) (c : Nat) (client : Client) : Aside s (s.setClient c client) :=
  of_same (funext fun dir => by cases dir with | tx | rx => rfl) rfl rfl rfl

theorem setSocketAddrTable (s : Server) (table : Table int64HashFunc Ptr) :
    Aside s (s.setSocketAddrTable table) :=
  of_same (funext fun dir => by cases dir with | tx | rx => rfl) rfl rfl rfl

theorem dropEvent (s : Server) (c : Nat) (fd : Int32) : Aside s (dropEvent s c fd) := by
  rw [dropEvent_eq]
  exact setClient s c _

theorem note (s : Server) {action : Action} (aside : action.isAside = true) :
    Aside s (s.note action) where
  queue := funext (s.queue_note action)
  msgs := rfl
  service _ := .inl rfl
  journal := ⟨[action], rfl, fun _ member => List.mem_singleton.mp member ▸ aside⟩

theorem of_records (records : ∀ other, other ≠ record → after.records other = before.records other)
    (queue : after.queue = before.queue) (msgs : after.msgs = before.msgs)
    (journal : after.journal = before.journal)
    (own : after.service record = before.service record ∨
      before.Rests record ∧ after.Rests record) : Aside before after := by
  refine ⟨queue, msgs, fun other => ?_, [], by rw [journal, List.append_nil], nofun⟩
  by_cases here : other = record
  · exact here ▸ own
  · left
    rw [Server.service, records other here, Server.service]

theorem setRecord (s : Server) (own : (s.setRecord record socket).service record = s.service record ∨
    s.Rests record ∧ (s.setRecord record socket).Rests record) :
    Aside s (s.setRecord record socket) :=
  of_records (fun _ other => Function.update_of_ne other _ _)
    (funext (s.queue_setRecord record socket)) rfl rfl own

theorem free (s : Server) (rests : s.Rests record) : Aside s (s.free record) := by
  refine of_records (fun _ other => Function.update_of_ne other _ _)
    (funext fun dir => by cases dir with | tx | rx => rfl) rfl rfl (.inr ⟨rests, ?_⟩)
  apply Server.rests_of_none
  simp [Server.service, Server.free]

end Aside

section
variable {config : Config} {s after : Server} {record : Ptr} {socket old : Socket} {c : Nat}
  {fd ret : Int32}

theorem service_setRecord : (s.setRecord record socket).service record =
    socket.asyncTransport.map fun async => (socket.protocol, async) := by
  simp [Server.service, Server.setRecord]

theorem Aside.update (held : s.records record = some old) (protocol : socket.protocol = old.protocol)
    (transport : socket.asyncTransport = old.asyncTransport) :
    Aside s (s.setRecord record socket) := by
  refine .setRecord s (.inl ?_)
  rw [service_setRecord, protocol, transport, Server.service, held]
  rfl

/-- A synchronous socket comes into being or takes the place of one that rests. -/
theorem Aside.synchronous (rests : s.Rests record) (none : socket.asyncTransport = none) :
    Aside s (s.setRecord record socket) := by
  refine .setRecord s (.inr ⟨rests, Server.rests_of_none ?_⟩)
  rw [service_setRecord, none]
  rfl

theorem clientPutEvent_aside {ev : UInt16} {memory : Bool}
    (done : clientPutEvent s c fd ev memory = .ok (after, ret)) : Aside s after := by
  rw [clientPutEvent] at done
  split at done
  · cases done
    exact .refl s
  · obtain ⟨socket, deref, done⟩ := bind_ok.mp done
    obtain ⟨rfl, _⟩ := pair_ok.mp done
    have updated : Aside s (s.setRecord _ { socket with events := socket.events ||| ev }) :=
      .update (Server.deref_ok.mp deref) rfl rfl
    exact updated.trans (.setClient _ _ _)

theorem clientGetEvent_aside {event : SocketEvent}
    (done : clientGetEvent s c = .ok (after, event)) : Aside s after := by
  rw [clientGetEvent] at done
  split at done
  · obtain ⟨rfl, _⟩ := pair_ok.mp done
    exact .refl s
  · dsimp only at done
    split at done
    · obtain ⟨rfl, _⟩ := pair_ok.mp done
      exact .setClient _ _ _
    · split at done
      · cases done
      · obtain ⟨socket, deref, done⟩ := bind_ok.mp done
        obtain ⟨rfl, _⟩ := pair_ok.mp done
        have held := Server.deref_ok.mp deref
        exact (Aside.setClient s c _).trans (.update held rfl rfl)

theorem reportEvent_aside {ev : UInt16} {memory : Bool}
    (done : reportEvent s socket ev memory = .ok after) : Aside s after := by
  rw [reportEvent] at done
  split at done
  · obtain rfl := Except.ok.inj done
    exact .refl s
  · obtain ⟨⟨put, ret⟩, putting, done⟩ := bind_ok.mp done
    obtain ⟨_, _, done⟩ := bind_ok.mp done
    obtain rfl := Except.ok.inj done
    refine (clientPutEvent_aside putting).trans (.of_same ?_ rfl rfl rfl)
    funext dir
    cases dir with
    | tx | rx => rfl

def Server.AddressRests (s : Server) (address : Ptr) : Prop :=
  ∀ p old, s.records p = some old → old.socket = address → s.Rests p

theorem invalidateOld_aside {p address : Ptr} (rests : s.AddressRests address)
    (done : invalidateOld s c p address = .ok after) : Aside s after := by
  obtain ⟨old, deref, done⟩ := bind_ok.mp done
  obtain ⟨_, same, done⟩ := bind_ok.mp done
  obtain ⟨_, _, done⟩ := bind_ok.mp done
  obtain ⟨_, _, done⟩ := bind_ok.mp done
  obtain rfl := Except.ok.inj done
  have still := rests p old (Server.deref_ok.mp deref) (not_not.mp (zfLogfIf_ok.mp same))
  have table := Aside.setClient s c { s.clients c with
    socketTable := (s.clients c).socketTable.del old.socketFd.toUInt32.toNat }
  exact (table.trans (.free _ (table.rests still))).trans (.dropEvent _ _ _)

theorem putSocketAddr_aside {iter : Nat} {id : UInt32} {memory : Bool}
    (held : s.records record = some socket) (rests : s.AddressRests socket.socket)
    (done : putSocketAddr s c record iter id memory = .ok (after, ret)) : Aside s after := by
  obtain ⟨new, held', outcome⟩ := putSocketAddr_cases done
  obtain rfl := Option.some.inj (held.symm.trans held')
  rcases outcome with ⟨_, rfl⟩ | ⟨_, _, settled, settle, rfl⟩
  · exact .setClient _ _ _
  · have first : Aside s settled := by
      rcases settle with rfl | settle
      · exact .setSocketAddrTable _ _
      · have table := Aside.setSocketAddrTable s (s.socketAddrTable.put socket.socket memory).1
        exact table.trans (invalidateOld_aside (s := s.setSocketAddrTable _) rests settle)
    exact first.trans (.setSocketAddrTable _ _)

theorem clientPutSocket_aside {memory : Bool × Bool} (held : s.records record = some socket)
    (rests : s.AddressRests socket.socket)
    (done : clientPutSocket config s c record memory = .ok (after, ret)) : Aside s after := by
  obtain ⟨_, id, found, _, outcome⟩ := clientPutSocket_cases done
  rcases outcome with ⟨_, rfl⟩ | ⟨_, entered, iter, _, done⟩
  · exact .setClient _ _ _
  · exact (Aside.setClient s c entered).trans
      (putSocketAddr_aside (s := s.setClient c entered) held rests done)

theorem putNewSocket_aside {p : Ptr} {protocol : Protocol} {memory : Bool × Bool}
    (free : s.records record = none) (rests : s.AddressRests p)
    (done : putNewSocket config s c record p protocol memory = .ok (after, ret)) :
    Aside s after := by
  obtain ⟨⟨put, ret'⟩, putting, done⟩ := bind_ok.mp done
  have none : s.service record = Option.none := by rw [Server.service, free]; rfl
  have born : Aside s ((s.setRecord record ⟨protocol, c, 0, p, 0, Option.none⟩).note
      (.born record protocol)) :=
    (Aside.synchronous (Server.rests_of_none none) rfl).trans (.note _ rfl)
  generalize named : (s.setRecord record ⟨protocol, c, 0, p, 0, Option.none⟩).note
    (.born record protocol) = s' at born putting
  have held : s'.records record = some ⟨protocol, c, 0, p, 0, Option.none⟩ := by
    rw [← named]
    exact Function.update_self _ _ _
  have others : s'.AddressRests p := by
    intro q old here address
    by_cases new : q = record
    · subst new
      exact born.rests (Server.rests_of_none none)
    · apply born.rests
      refine rests q old ?_ address
      rw [← named] at here
      exact (Function.update_of_ne new _ _).symm.trans here
  have put : Aside s put := born.trans (clientPutSocket_aside held others putting)
  dsimp only at done
  split at done
  · obtain ⟨rfl, _⟩ := pair_ok.mp done
    exact put.trans (.free _ (put.rests (Server.rests_of_none none)))
  · obtain ⟨new, deref, done⟩ := bind_ok.mp done
    obtain ⟨rfl, _⟩ := pair_ok.mp done
    exact put.trans (.update (Server.deref_ok.mp deref) rfl rfl)

theorem clientDeleteSocket_aside
    (rests : ∀ p, clientGetSocket s c fd = some p → s.Rests p)
    (done : clientDeleteSocket s c fd = .ok (after, ret)) : Aside s after := by
  rw [clientDeleteSocket] at done
  split at done
  · obtain ⟨rfl, _⟩ := pair_ok.mp done
    exact .refl s
  · next here =>
    obtain ⟨socket, deref, done⟩ := bind_ok.mp done
    obtain ⟨_, _, done⟩ := bind_ok.mp done
    obtain ⟨rfl, _⟩ := pair_ok.mp done
    have found : clientGetSocket s c fd =
        some ((s.clients c).socketTable.val ((s.clients c).socketTable.get fd.toUInt32)) :=
      Table.lookup_eq_some.mpr ⟨here, rfl⟩
    have freed := Aside.free s (rests _ found)
    exact ((freed.trans (.setClient _ _ _)).trans (.setSocketAddrTable _ _)).trans
      (.dropEvent _ _ _)

end

/-! ## Ownership -/

section
variable {s after : Server} {waiting : Dir → Ptr → List Ptr} {ringSize : Nat} {record : Ptr}

theorem took_aside {more : List Action} (quiet : ∀ action ∈ more, action.isAside = true) (dir : Dir)
    (handle : UInt32) : took more dir handle = 0 := by
  rw [took, List.countP_eq_zero]
  intro action member
  have := quiet action member
  cases action with
  | took => cases this
  | _ => exact Bool.false_ne_true

theorem completed_aside {more : List Action} (quiet : ∀ action ∈ more, action.isAside = true)
    (dir : Dir) (handle : UInt32) : completed more dir handle = 0 := by
  rw [completed, List.countP_eq_zero]
  intro action member
  have := quiet action member
  cases action with
  | completed => cases this
  | _ => exact Bool.false_ne_true

theorem Owned.resting (owned : Owned ringSize s.view waiting) (rests : s.Rests record) (dir : Dir) :
    waiting dir record = [] := by
  cases held : s.service record with
  | none =>
    apply owned.idle dir record
    exact (s.transport_eq record).trans (by rw [held]; rfl)
  | some service =>
    obtain ⟨protocol, async⟩ := service
    obtain rfl := rests protocol async held
    have transport : s.view.transport record = some Async.idle :=
      (s.transport_eq record).trans (by rw [held]; rfl)
    have linked := owned.linked dir record _ transport
    rw [Async.pending_idle] at linked
    exact linked.first_eq_none.mp rfl

theorem Owned.aside (owned : Owned ringSize s.view waiting) (aside : Aside s after) :
    Owned ringSize after.view waiting := by
  have queue : after.view.queue = s.view.queue := aside.queue
  have msgs : after.view.msgs = s.view.msgs := aside.msgs
  obtain ⟨more, journal, quiet⟩ := aside.journal
  have took' : ∀ d h, took after.view.journal d h = took s.view.journal d h := by
    intro d h
    exact (congrArg (took · d h) journal).trans (by rw [took_append, took_aside quiet]; rfl)
  have completed' : ∀ d h, completed after.view.journal d h = completed s.view.journal d h := by
    intro d h
    exact (congrArg (completed · d h) journal).trans
      (by rw [completed_append, completed_aside quiet]; rfl)
  refine {
    linked := fun dir record async held => ?_
    idle := fun dir record none => ?_
    lent := by rw [queue, msgs]; exact owned.lent
    single := owned.single
    taken := by rw [queue]; exact owned.taken
    handles := by rw [queue]; exact owned.handles
    msgs := by rw [queue]; exact owned.msgs
    available := by rw [queue]; exact owned.available
    room := by rw [queue]; exact owned.room
    balance := fun d h => by rw [took', completed', queue]; exact owned.balance d h }
  · rw [msgs]
    have held : (after.service record).map Prod.snd = some async :=
      (after.transport_eq record).symm.trans held
    rcases aside.service record with same | ⟨still, rests⟩
    · apply owned.linked dir record async
      exact (s.transport_eq record).trans (by rw [← same, held])
    · obtain ⟨⟨protocol, async'⟩, service, rfl⟩ := Option.map_eq_some_iff.mp held
      rw [rests protocol async' service, owned.resting still, Async.pending_idle]
      exact Linked.empty _
  · rcases aside.service record with same | ⟨still, _⟩
    · apply owned.idle dir record
      refine (s.transport_eq record).trans ?_
      rw [← same]
      exact (after.transport_eq record).symm.trans none
    · exact owned.resting still dir

end

end GlobalComponents.PicoServer
