import GlobalComponents.PicoServer.Steps

/-! The handling of messages leaves the books alone: it changes messages, virtqueues and the pending
lists in the socket records, and nothing else. -/

set_option autoImplicit false

namespace GlobalComponents.PicoServer

open Library

/-- The record of a socket without its pending lists. -/
def Socket.plain (socket : Socket) : Socket := { socket with asyncTransport := none }

def Action.isCommunication : Action → Bool
  | .identity .. | .window .. => true
  | _ => false

def Server.communications (s : Server) : List Action := s.journal.filter Action.isCommunication

structure SameBooks (before after : Server) : Prop where
  controlBadge : after.controlBadge = before.controlBadge
  clients : after.clients = before.clients
  addresses : after.socketAddrTable = before.socketAddrTable
  records : ∀ record,
    (after.records record).map Socket.plain = (before.records record).map Socket.plain
  communications : after.communications = before.communications
  emitClient : after.emitClient = before.emitClient

namespace SameBooks

variable {before middle after : Server} {config : Config} {dir : Dir} {record msg : Ptr}
  {socket : Socket} {async : Async}

theorem refl (s : Server) : SameBooks s s := ⟨rfl, rfl, rfl, fun _ => rfl, rfl, rfl⟩

theorem trans (first : SameBooks before middle) (second : SameBooks middle after) :
    SameBooks before after where
  controlBadge := second.controlBadge.trans first.controlBadge
  clients := second.clients.trans first.clients
  addresses := second.addresses.trans first.addresses
  records record := (second.records record).trans (first.records record)
  communications := second.communications.trans first.communications
  emitClient := second.emitClient.trans first.emitClient

theorem note {action : Action} (same : SameBooks before after)
    (other : action.isCommunication = false) : SameBooks before (after.note action) :=
  { same with
    communications := by
      rw [← same.communications]
      simp [Server.communications, Server.note, other] }

theorem setMsg (same : SameBooks before after) (msg : Ptr) (content : Msg) :
    SameBooks before (after.setMsg msg content) := { same with }

theorem setQueue (same : SameBooks before after) (dir : Dir) (queue : Virtqueue) :
    SameBooks before (after.setQueue dir queue) := by
  cases dir <;> exact { same with }

theorem setAsync (same : SameBooks before after) (held : after.records record = some socket)
    (async : Option Async) :
    SameBooks before (after.setRecord record { socket with asyncTransport := async }) :=
  { same with
    records := by
      intro other
      rw [← same.records other]
      by_cases here : other = record
      · subst here
        simp [Server.setRecord, held, Socket.plain]
      · simp [Server.setRecord, Function.update_of_ne here] }

theorem complete (same : SameBooks before after) (dir : Dir) (record : Option Ptr) (msg : Ptr)
    (cookie : UInt32) (len : UInt64) :
    SameBooks before (complete config dir after record msg cookie len) := by
  have flagged : SameBooks before { after with emitClientAsync := true } := { same with }
  rw [PicoServer.complete]
  dsimp only
  split
  · exact (flagged.setQueue _ _).note rfl
  · exact flagged

theorem popComplete (same : SameBooks before after) (held : after.records record = some socket)
    (dir : Dir) (msg : Ptr) (doneLen len : UInt64) :
    SameBooks before (popComplete config dir after record socket async msg doneLen len) :=
  ((same.setMsg _ _).setAsync held _).complete _ _ _ _ _

theorem finish (same : SameBooks before after) (dir : Dir) (record : Ptr) (handle : UInt32)
    (msg : Ptr) (doneLen len : UInt64) :
    SameBooks before (finish config dir after record handle msg doneLen len) :=
  (same.setMsg _ _).complete _ _ _ _ _

theorem transfer (same : SameBooks before after) (dir : Dir) (protocol : Protocol)
    (record msg : Ptr) (offset : UInt64) (answer : Answer) :
    SameBooks before (transfer dir after protocol record msg offset answer) := by
  cases dir with
  | tx => exact same.note rfl
  | rx => exact (same.setMsg _ _).note rfl

theorem take (same : SameBooks before after) (dir : Dir) (record : Ptr) (handle : UInt32)
    (msg : Ptr) : SameBooks before (after.take dir record handle msg) :=
  (same.setQueue _ _).note rfl

theorem of_step (step : MsgStep config before after) : SameBooks before after := by
  have same := refl before
  cases step with
  | refuse => exact (((same.setQueue _ _).note rfl).setMsg _ _).complete _ _ _ _ _
  | @append dir handle msg record _ socket _ taken =>
    have held : (before.take dir record handle msg).records record = some socket := by
      simpa [Server.take, Server.dequeue, Server.note] using taken.held
    exact (((same.take _ _ _ _).setMsg _ _).setAsync held _).setMsg _ _
  | fail => exact (same.take _ _ _ _).finish _ _ _ _ _ _
  | @park dir handle msg record socket _ answer taken =>
    have held : (PicoServer.transfer dir (before.take dir record handle msg) socket.protocol record
        msg 0 answer).records record = some socket := by
      cases dir <;> exact taken.held
    exact (((same.take _ _ _ _).transfer _ _ _ _ _ _).setMsg _ _).setAsync held _
  | finish => exact ((same.take _ _ _ _).transfer _ _ _ _ _ _).finish _ _ _ _ _ _
  | drop head => exact same.popComplete head.held _ _ _ _
  | advance => exact (same.transfer _ _ _ _ _ _).setMsg _ _
  | @pop dir record msg socket _ answer head =>
    have held : (PicoServer.transfer dir before socket.protocol record msg
        (before.msgs msg).doneLen answer).records record = some socket := by
      cases dir <;> exact head.held
    exact (same.transfer _ _ _ _ _ _).popComplete held _ _ _ _

theorem of_steps (steps : MsgSteps config before after) : SameBooks before after := by
  induction steps with
  | refl => exact refl before
  | tail _ step ih => exact ih.trans (of_step step)

theorem cleanup (done : cleanupAsyncSocket config before record = .ok after) :
    SameBooks before after := by
  obtain ⟨socket, _, done⟩ := bind_ok.mp done
  split at done
  · obtain rfl := Except.ok.inj done
    exact refl before
  · obtain ⟨sent, sending, done⟩ := bind_ok.mp done
    obtain ⟨received, receiving, done⟩ := bind_ok.mp done
    obtain ⟨last, deref, done⟩ := bind_ok.mp done
    obtain rfl := Except.ok.inj done
    have same := of_steps ((cleanupLoop_steps sending).trans (cleanupLoop_steps receiving))
    exact same.setAsync (Server.deref_ok.mp deref) none

end SameBooks

end GlobalComponents.PicoServer
