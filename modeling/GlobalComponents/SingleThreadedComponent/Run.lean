import GlobalComponents.Library.Run
import Mathlib.Data.List.Basic
import Mathlib.Data.UInt

/-! The loop of a single-threaded component and the signals that it puts off.

`_notify` of a virtqueue connection only remembers its notification; it is signalled by the next
`_notify`, or together with the receive at the bottom of the loop. The handlers are arbitrary
functions of the component's own data. They are registered before the loop starts.
-/

set_option autoImplicit false

namespace GlobalComponents.SingleThreadedComponent

open Library

structure Rpc (Own Cap : Type) where
  own : Own
  notified : List Cap
  result : Int32
  info : UInt64
  replyCapInTcb : Bool

structure Component (Own Cap : Type) where
  realtime : Bool
  endpointBase : UInt64
  notificationBase : UInt64
  /-- The initialisation functions, up to the start of the loop. -/
  init : Own × List Cap
  /-- The handler of each badge that the loop has a case for. -/
  handleMessage : UInt64 → Option (UInt64 → Own → Rpc Own Cap)
  /-- `camkes_handle_global_endpoint_irq` -/
  handleGlobalEndpointIrq : UInt64 → Own → Own × List Cap
  /-- `reg_handlers`: a badge and its callback. -/
  regHandlers : List (UInt64 × (UInt64 → Own → Own × List Cap))

inductive Receive (Cap : Type) where
  | recv
  | replyRecv (info : UInt64)
  | sendRecv (info : UInt64)
  | signalRecv (cap : Cap)
  deriving DecidableEq

structure State (Own Cap : Type) where
  own : Own
  /-- `0` is `none`. -/
  signalToSend : Option Cap
  receive : Receive Cap
  /-- The signals so far, the one of the blocking call included. -/
  signalled : List Cap
  /-- The calls of `_notify` so far. -/
  notified : List Cap

variable {Own Cap : Type}

def notify (s : State Own Cap) (cap : Cap) : State Own Cap :=
  { s with
    -- the signal that was put off before is sent now, and the new one is put off
    signalled := s.signalled ++ s.signalToSend.toList
    signalToSend := some cap
    notified := s.notified ++ [cap] }

/-- A handler that leaves `own` behind and has notified these connections. -/
def State.became (s : State Own Cap) (after : Own × List Cap) : State Own Cap :=
  after.2.foldl notify { s with own := after.1 }

/-- Without the realtime kernel the reply capability may have been moved out of the TCB. -/
def Component.reply (component : Component Own Cap) (rpc : Rpc Own Cap) : Receive Cap :=
  if component.realtime ∨ rpc.replyCapInTcb then .replyRecv rpc.info else .sendRecv rpc.info

/-- The case for the badge of an RPC. It is answered, or dealt with without an answer, or not known. -/
def handleRpc (component : Component Own Cap) (s : State Own Cap) (badge info : UInt64) :
    State Own Cap × Option (Receive Cap) :=
  match component.handleMessage badge with
  | none => (s, none)
  | some handle =>
    let rpc := handle info s.own
    let s := s.became (rpc.own, rpc.notified)
    if rpc.result = 1 then (s, some (component.reply rpc))
    else if rpc.result = 0 then (s, some .recv)
    else (s, none)

def handleNotifications (component : Component Own Cap) (s : State Own Cap) (badge : UInt64) :
    State Own Cap :=
  if badge &&& component.notificationBase = component.notificationBase then
    component.regHandlers.foldl
      (fun s (b, callbackHandler) =>
        if badge &&& b = b then s.became (callbackHandler b s.own) else s)
      (s.became (component.handleGlobalEndpointIrq badge s.own))
  else s

def State.signalRecv (s : State Own Cap) : State Own Cap :=
  match s.signalToSend with
  | some cap => { s with receive := .signalRecv cap, signalled := s.signalled ++ [cap] }
  | none => { s with receive := .recv }

def State.received (s : State Own Cap) : State Own Cap :=
  match s.receive with
  | .signalRecv _ => { s with signalToSend := none }
  | .recv | .replyRecv _ | .sendRecv _ => s

def iterate (component : Component Own Cap) (s : State Own Cap) (badge info : UInt64) :
    State Own Cap :=
  let s := s.received
  if badge &&& component.endpointBase = component.endpointBase then
    match handleRpc component s badge info with
    | (s, some receive) => { s with receive }
    | (s, none) => (handleNotifications component s badge).signalRecv
  else (handleNotifications component s badge).signalRecv

def Component.start (component : Component Own Cap) : State Own Cap :=
  State.became ⟨component.init.1, none, .recv, [], []⟩ component.init

abbrev Message := UInt64 × UInt64

def machine (component : Component Own Cap) : Machine (State Own Cap) Message Unit where
  allowed _ _ := True
  step s message := some (iterate component s message.1 message.2, ())

/-- Each `_notify` has had its signal, in order, and nothing is put off that the blocking call does not
send itself. -/
structure Flushed (s : State Own Cap) : Prop where
  sent : s.signalled = s.notified
  idle : s.signalToSend = none ∨ ∃ cap, s.signalToSend = some cap ∧ s.receive = .signalRecv cap

/-- A handler whose result ends the iteration early does not notify. -/
def Component.AnswersQuietly (component : Component Own Cap) (s : State Own Cap)
    (message : Message) : Prop :=
  message.1 &&& component.endpointBase = component.endpointBase →
    ∀ handle, component.handleMessage message.1 = some handle →
      (handle message.2 s.own).result = 1 ∨ (handle message.2 s.own).result = 0 →
      (handle message.2 s.own).notified = []

/-- Between two blocking calls only the last `_notify` has no signal yet. -/
def Owed (s : State Own Cap) : Prop := s.notified = s.signalled ++ s.signalToSend.toList

section
variable {component : Component Own Cap} {s : State Own Cap}

theorem Owed.notify (owed : Owed s) (cap : Cap) : Owed (notify s cap) := by
  rw [Owed] at owed
  simp [Owed, SingleThreadedComponent.notify, owed]

theorem Owed.became (owed : Owed s) (after : Own × List Cap) : Owed (s.became after) := by
  have stays : ∀ (caps : List Cap) (s : State Own Cap), Owed s →
      Owed (caps.foldl SingleThreadedComponent.notify s) := by
    intro caps
    -- on the capabilities that the step has asked to signal
    induction caps with
    | nil => exact fun _ owed => owed
    | cons cap caps ih => exact fun s owed => ih _ (owed.notify cap)
  exact stays after.2 _ owed

theorem Owed.handleNotifications (owed : Owed s) (badge : UInt64) :
    Owed (handleNotifications component s badge) := by
  have stays : ∀ (handlers : List (UInt64 × (UInt64 → Own → Own × List Cap))) (s : State Own Cap),
      Owed s → Owed (handlers.foldl (fun s (b, callbackHandler) =>
        if badge &&& b = b then s.became (callbackHandler b s.own) else s) s) := by
    intro handlers
    induction handlers with
    | nil => exact fun _ owed => owed
    | cons handler handlers ih =>
      intro s owed
      apply ih
      dsimp only
      split
      · exact owed.became _
      · exact owed
  unfold SingleThreadedComponent.handleNotifications
  split
  · exact stays _ _ (owed.became _)
  · exact owed

theorem Owed.signalRecv (owed : Owed s) : Flushed s.signalRecv := by
  rw [Owed] at owed
  unfold State.signalRecv
  cases pending : s.signalToSend with
  | none =>
    rw [pending] at owed
    exact ⟨by rw [owed]; simp, .inl rfl⟩
  | some cap =>
    rw [pending] at owed
    exact ⟨owed.symm, .inr ⟨cap, rfl, rfl⟩⟩

theorem Flushed.received (flushed : Flushed s) :
    Owed s.received ∧ s.received.signalToSend = none ∧ s.received.own = s.own := by
  have sent := flushed.sent
  unfold State.received Owed
  cases receive : s.receive with
  | signalRecv cap => exact ⟨by simp [sent], rfl, rfl⟩
  | recv | replyRecv | sendRecv =>
    have none : s.signalToSend = none := by
      rcases flushed.idle with none | ⟨cap, _, receive'⟩
      · exact none
      · rw [receive] at receive'
        cases receive'
    exact ⟨by simp [sent, none], none, rfl⟩

theorem became_signalToSend (s : State Own Cap) (after : Own × List Cap) :
    (s.became after).signalToSend = after.2.getLast?.or s.signalToSend := by
  have last : ∀ (caps : List Cap) (s : State Own Cap),
      (caps.foldl notify s).signalToSend = caps.getLast?.or s.signalToSend := by
    intro caps
    induction caps with
    | nil => exact fun _ => rfl
    | cons cap caps ih =>
      intro s
      rw [List.foldl_cons, ih, List.getLast?_cons]
      cases caps.getLast? <;> rfl
  exact last after.2 _

theorem became_receive (s : State Own Cap) (after : Own × List Cap) :
    (s.became after).receive = s.receive := by
  have same : ∀ (caps : List Cap) (s : State Own Cap),
      (caps.foldl notify s).receive = s.receive := by
    intro caps
    induction caps with
    | nil => exact fun _ => rfl
    | cons cap caps ih => exact fun s => ih _
  exact same after.2 _

/-- Without a pending signal, a handler has notified nobody or leaves one. -/
theorem became_flushed_iff (owed : Owed s) (none : s.signalToSend = none) (after : Own × List Cap)
    {receive : Receive Cap} (early : ∀ cap, receive ≠ .signalRecv cap) :
    Flushed { s.became after with receive } ↔ after.2 = [] := by
  have last := became_signalToSend s after
  rw [none, Option.or_none] at last
  constructor
  · intro flushed
    rcases flushed.idle with silent | ⟨cap, _, same⟩
    · have silent : (s.became after).signalToSend = .none := silent
      rw [last] at silent
      exact List.getLast?_eq_none_iff.mp silent
    · exact absurd same (early cap)
  · intro quiet
    have sent := owed.became after
    rw [quiet] at last
    rw [Owed, last] at sent
    exact ⟨by simpa using sent.symm, .inl last⟩

theorem reply_ne_signalRecv (component : Component Own Cap) (rpc : Rpc Own Cap) (cap : Cap) :
    component.reply rpc ≠ .signalRecv cap := by
  unfold Component.reply
  split <;> exact nofun

/-- An iteration leaves nothing behind exactly if its RPC handler answers quietly. -/
theorem iterate_flushed_iff (flushed : Flushed s) (badge info : UInt64) :
    Flushed (iterate component s badge info) ↔ component.AnswersQuietly s (badge, info) := by
  obtain ⟨owed, none, own⟩ := flushed.received
  unfold iterate Component.AnswersQuietly
  by_cases rpc : badge &&& component.endpointBase = component.endpointBase
  · dsimp only
    rw [if_pos rpc]
    unfold handleRpc
    cases handler : component.handleMessage badge with
    | none =>
      dsimp only
      exact iff_of_true (owed.handleNotifications badge).signalRecv nofun
    | some handle =>
      simp only [own, rpc, Option.some.injEq, forall_eq', forall_const]
      generalize handle info s.own = reply
      by_cases answered : reply.result = 1
      · have quiet := became_flushed_iff owed none (reply.own, reply.notified)
          (reply_ne_signalRecv component reply)
        simp [answered, quiet]
      by_cases dealt : reply.result = 0
      · have quiet : Flushed { s.received.became (reply.own, reply.notified) with
              receive := .recv } ↔ reply.notified = [] :=
          became_flushed_iff owed none (reply.own, reply.notified) nofun
        simp [dealt, quiet]
      · have owed : Owed (handleNotifications component
            (s.received.became (reply.own, reply.notified)) badge) :=
          (owed.became _).handleNotifications badge
        have flushed := owed.signalRecv
        simp [answered, dealt, flushed]
  · dsimp only
    rw [if_neg rpc]
    exact iff_of_true (owed.handleNotifications badge).signalRecv fun same => absurd same rpc

/-- Every `_notify` has had exactly one signal by the time the component blocks, exactly if neither the
initialisation nor an RPC handler with the result 1 or 0 notifies. -/
theorem deferred_signals_sent_iff {trace : List (Message × Unit)} {final : State Own Cap}
    (run : (machine component).Run component.start trace final) :
    (machine component).Always component.start trace Flushed ↔
      component.init.2 = [] ∧
        (machine component).EveryStep component.start trace component.AnswersQuietly := by
  have begun : Flushed component.start ↔ component.init.2 = [] := by
    have same := became_receive ⟨component.init.1, none, .recv, [], []⟩ component.init
    apply became_flushed_iff (s := ⟨component.init.1, none, .recv, [], []⟩) rfl rfl
    intro cap blocked
    cases same.symm.trans blocked
  constructor
  · intro always
    refine ⟨begun.mp (always [] (List.nil_prefix) _ .start), ?_⟩
    have necessary : ∀ before message after result, Flushed before →
        (machine component).allowed before message →
        (machine component).step before message = some (after, result) → Flushed after →
        component.AnswersQuietly before message := by
      intro before message after _ flushed _ step flushed'
      cases step
      exact (iterate_flushed_iff flushed message.1 message.2).mp flushed'
    exact Machine.Always.everyStep run necessary always
  · rintro ⟨quiet, answers⟩
    apply Machine.Always.of_everyStep (begun.mpr quiet) _ answers
    intro before message after _ flushed _ answers step
    cases step
    exact (iterate_flushed_iff flushed message.1 message.2).mpr answers

end

/-- One connection, notified by the handler of its own events, and at first by the initialisation if
the flag says so. -/
def client (early : Bool) : Component Unit Nat where
  realtime := false
  endpointBase := 2
  notificationBase := 1
  init := ((), if early then [5] else [])
  handleMessage _ := none
  handleGlobalEndpointIrq _ own := (own, [])
  regHandlers := [(1, fun _ own => (own, [5]))]

theorem deferred_signals_sent_iff_client : ∃ trace final,
    (machine (client false)).Run (client false).start trace final ∧ final.notified = [5] ∧
    ((machine (client false)).Always (client false).start trace Flushed ↔
      (client false).init.2 = [] ∧
        (machine (client false)).EveryStep (client false).start trace
          (client false).AnswersQuietly) := by
  have run : (machine (client false)).Run (client false).start [] _ := .start
  have next := run.on (1, 0) trivial rfl
  exact ⟨_, _, next, rfl, deferred_signals_sent_iff next⟩

/-- The first receive of the loop does not send what the initialisation has put off. -/
theorem early_notify_unsent : ¬∀ trace final,
    (machine (client true)).Run (client true).start trace final →
    (machine (client true)).Always (client true).start trace Flushed := by
  intro claim
  have flushed := claim [] _ .start [] (List.prefix_refl _) _ .start
  exact absurd flushed.sent (by decide)

end GlobalComponents.SingleThreadedComponent
