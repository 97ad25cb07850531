import GlobalComponents.PicoServer.Frame

/-! The keeping of the books leaves messages, virtqueues and the badges alone. -/

set_option autoImplicit false

namespace GlobalComponents.PicoServer

open Library

structure SameWire (before after : Server) : Prop where
  controlBadge : after.controlBadge = before.controlBadge
  tx : after.tx = before.tx
  rx : after.rx = before.rx
  msgs : after.msgs = before.msgs
  journal : after.journal = before.journal
  emitClient : after.emitClient = before.emitClient

namespace SameWire

variable {before middle after : Server} {config : Config} {clientId : Nat} {record : Ptr}

theorem refl (s : Server) : SameWire s s := ⟨rfl, rfl, rfl, rfl, rfl, rfl⟩

theorem trans (first : SameWire before middle) (second : SameWire middle after) :
    SameWire before after where
  controlBadge := second.controlBadge.trans first.controlBadge
  tx := second.tx.trans first.tx
  rx := second.rx.trans first.rx
  msgs := second.msgs.trans first.msgs
  journal := second.journal.trans first.journal
  emitClient := second.emitClient.trans first.emitClient

theorem communications (same : SameWire before after) :
    after.communications = before.communications := by
  rw [Server.communications, same.journal]
  rfl

theorem setClient (same : SameWire before after) (clientId : Nat) (client : Client) :
    SameWire before (after.setClient clientId client) := { same with }

theorem setSocketTable (same : SameWire before after) (clientId : Nat)
    (table : Table intHashFunc Ptr) : SameWire before (after.setSocketTable clientId table) :=
  same.setClient _ _

theorem setSocketEventSet (same : SameWire before after) (clientId : Nat)
    (set : Table intHashFunc Unit) : SameWire before (after.setSocketEventSet clientId set) :=
  same.setClient _ _

theorem setSocketAddrTable (same : SameWire before after) (table : Table int64HashFunc Ptr) :
    SameWire before (after.setSocketAddrTable table) := { same with }

theorem setRecord (same : SameWire before after) (record : Ptr) (socket : Socket) :
    SameWire before (after.setRecord record socket) := { same with }

theorem free (same : SameWire before after) (record : Ptr) :
    SameWire before (after.free record) := { same with }

theorem dropEvent (same : SameWire before after) (clientId : Nat) (socketId : Int32) :
    SameWire before (dropEvent after clientId socketId) := by
  rw [PicoServer.dropEvent]
  split
  · exact same.setSocketEventSet _ _
  · exact same

theorem invalidateOld {oldSocket socket : Ptr} (same : SameWire before middle)
    (done : invalidateOld middle clientId oldSocket socket = .ok after) :
    SameWire before after := by
  obtain ⟨old, _, done⟩ := bind_ok.mp done
  obtain ⟨_, _, done⟩ := bind_ok.mp done
  obtain ⟨_, _, done⟩ := bind_ok.mp done
  obtain ⟨_, _, done⟩ := bind_ok.mp done
  obtain rfl := Except.ok.inj done
  exact ((same.setSocketTable _ _).free _).dropEvent _ _

theorem putSocketAddr {newSocket : Ptr} {socketIter : Nat} {freeId : UInt32} {memory : Bool}
    {ret : Int32} (same : SameWire before middle)
    (done : putSocketAddr middle clientId newSocket socketIter freeId memory = .ok (after, ret)) :
    SameWire before after := by
  obtain ⟨new, _, done⟩ := bind_ok.mp done
  dsimp only at done
  have inserted := same.setSocketAddrTable (middle.socketAddrTable.put new.socket memory).1
  split at done
  · obtain ⟨rfl, _⟩ := pair_ok.mp done
    exact inserted.setSocketTable _ _
  · split at done
    · obtain ⟨settled, settle, done⟩ := bind_ok.mp done
      obtain ⟨rfl, _⟩ := pair_ok.mp done
      exact (inserted.invalidateOld settle).setSocketAddrTable _
    · obtain ⟨rfl, _⟩ := pair_ok.mp done
      exact inserted.setSocketAddrTable _

theorem clientPutSocket {newSocket : Ptr} {memory : Bool × Bool} {ret : Int32}
    (same : SameWire before middle)
    (done : clientPutSocket config middle clientId newSocket memory = .ok (after, ret)) :
    SameWire before after := by
  obtain ⟨_, _, done⟩ := bind_ok.mp done
  obtain ⟨⟨freeId, client⟩, _, done⟩ := bind_ok.mp done
  dsimp only at done
  split at done
  · obtain ⟨rfl, _⟩ := pair_ok.mp done
    exact same.setClient _ _
  · split at done
    · obtain ⟨rfl, _⟩ := pair_ok.mp done
      exact (same.setClient _ _).setSocketTable _ _
    · obtain ⟨_, _, done⟩ := bind_ok.mp done
      exact ((same.setClient _ _).setSocketTable _ _).putSocketAddr done

theorem clientDeleteSocket {socketId ret : Int32} (same : SameWire before middle)
    (done : clientDeleteSocket middle clientId socketId = .ok (after, ret)) :
    SameWire before after := by
  rw [PicoServer.clientDeleteSocket] at done
  split at done
  · obtain ⟨rfl, _⟩ := pair_ok.mp done
    exact same
  · obtain ⟨socket, _, done⟩ := bind_ok.mp done
    obtain ⟨_, _, done⟩ := bind_ok.mp done
    obtain ⟨rfl, _⟩ := pair_ok.mp done
    exact (((same.free _).setSocketTable _ _).setSocketAddrTable _).dropEvent _ _

theorem clientGetEvent {event : SocketEvent} (same : SameWire before middle)
    (done : clientGetEvent middle clientId = .ok (after, event)) : SameWire before after := by
  rw [PicoServer.clientGetEvent] at done
  split at done
  · obtain ⟨rfl, _⟩ := pair_ok.mp done
    exact same
  · dsimp only at done
    split at done
    · obtain ⟨rfl, _⟩ := pair_ok.mp done
      exact same.setSocketEventSet _ _
    · split at done
      · cases done
      · obtain ⟨socket, _, done⟩ := bind_ok.mp done
        obtain ⟨rfl, _⟩ := pair_ok.mp done
        exact (same.setSocketEventSet _ _).setRecord _ _

theorem clientPutEvent {socketId ret : Int32} {ev : UInt16} {memory : Bool}
    (same : SameWire before middle)
    (done : clientPutEvent middle clientId socketId ev memory = .ok (after, ret)) :
    SameWire before after := by
  rw [PicoServer.clientPutEvent] at done
  split at done
  · obtain ⟨rfl, _⟩ := pair_ok.mp done
    exact same
  · obtain ⟨socket, _, done⟩ := bind_ok.mp done
    obtain ⟨rfl, _⟩ := pair_ok.mp done
    exact (same.setRecord _ _).setSocketEventSet _ _

theorem putNewSocket {socket : Ptr} {protocol : Protocol} {memory : Bool × Bool} {ret : Int32}
    (done : putNewSocket config before clientId record socket protocol memory =
      .ok (after, ret)) : SameWire (before.note (.born record protocol)) after := by
  obtain ⟨⟨put, ret'⟩, putting, done⟩ := bind_ok.mp done
  have start : SameWire (before.note (.born record protocol))
      ((before.setRecord record ⟨protocol, clientId, 0, socket, 0, none⟩).note
        (.born record protocol)) := ⟨rfl, rfl, rfl, rfl, rfl, rfl⟩
  have same := start.clientPutSocket putting
  dsimp only at done
  split at done
  · obtain ⟨rfl, _⟩ := pair_ok.mp done
    exact same.free _
  · obtain ⟨new, _, done⟩ := bind_ok.mp done
    obtain ⟨rfl, _⟩ := pair_ok.mp done
    exact same.setRecord _ _

end SameWire

end GlobalComponents.PicoServer
