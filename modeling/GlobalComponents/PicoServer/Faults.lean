import GlobalComponents.PicoServer.Custody
import Mathlib.Data.Fintype.Card

/-! What can stop the server.

A step has no result when an assertion fails, an access goes wrong or a loop does not end. `Cause` lists
what can bring that about in a reachable state; all of it lies outside the server, but for a table that
is full.
-/

set_option autoImplicit false

namespace GlobalComponents.PicoServer

open Library

/-- What is wrong with the messages that are available, or with what the stack answers. -/
inductive BadWork (s : Server) : Fault → Prop where
  | stack : BadWork s .answer
  | null {dir : Dir} {handle : UInt32} : (handle, 0) ∈ (s.queue dir).available →
      BadWork s (.logf "msg is null")
  | length {dir : Dir} {handle : UInt32} {msg : Ptr} : (handle, msg) ∈ (s.queue dir).available →
      (s.msgs msg).totalLen > 1400 ∨ (s.msgs msg).totalLen = 0 → BadWork s (.logf (badMsgLen dir))

/-- Why an event stops the server, and what it says then. -/
inductive Cause (config : Config) (trace : List (Event × Reply)) (s : Server) :
    Event → Fault → Prop where
  | work {event : Event} {fault : Fault} : event.handles = true → BadWork s fault →
      Cause config trace s event fault
  /-- A send or receive RPC before the first control RPC. -/
  | uncalled {client : Nat} {call : StackCall} {fd len bufferOffset ret : Int32} :
      lastControl trace = none → Cause config trace s
        (.communicate client call fd len bufferOffset ret)
        (.logf "Client ID is greater than the number of clients registered!")
  /-- The stack calls back without a socket. -/
  | nobody {ev : UInt16} {answers : List Answer} {memory : Bool} :
      Cause config trace s (.callback ev 0 answers memory) .null
  /-- There is no memory for an event that is left to report. -/
  | unreported {ev : UInt16} {socket record : Ptr} {held : Socket} {answers : List Answer}
      {memory : Bool} : s.address socket = some record → s.records record = some held →
      (s.clients held.clientId).socketEventSet.Refuses memory →
      Cause config trace s (.callback ev socket answers memory)
        (.logf "Failed to set the event flags for client's socket")
  | crowdedSockets {event : Event} {c : Nat} : event.opener = some c →
      (s.clients c).socketTable.Crowded → Cause config trace s event
        (.logf "Tried to replace an entry in the socket table for client")
  | crowdedAddresses {event : Event} {c : Nat} : event.opener = some c →
      s.socketAddrTable.Crowded → Cause config trace s event
        (.logf "Tried to replace an entry in the socket addr table")

variable {config : Config} {s t after : Server} {dir : Dir} {record msg : Ptr} {handle : UInt32}
  {socket : Socket} {async : Async} {answer : Answer} {answers : List Answer} {c : Nat}

/-! ## Messages while they are handled -/

structure Remains (before after : Server) : Prop where
  available : ∀ dir entry, entry ∈ (after.queue dir).available →
    entry ∈ (before.queue dir).available
  lens : ∀ msg, (after.msgs msg).totalLen = (before.msgs msg).totalLen
  async : ∀ record, (after.transport record).isSome = (before.transport record).isSome

namespace Remains

theorem refl (s : Server) : Remains s s := ⟨fun _ _ => id, fun _ => rfl, fun _ => rfl⟩

theorem trans (first : Remains s t) (second : Remains t after) : Remains s after where
  available dir entry member := first.available dir entry (second.available dir entry member)
  lens msg := (second.lens msg).trans (first.lens msg)
  async record := (second.async record).trans (first.async record)

theorem setMsg (kept : Remains s t) {content : Msg} (len : content.totalLen = (t.msgs msg).totalLen) :
    Remains s (t.setMsg msg content) where
  available dir entry member := kept.available dir entry (by rwa [Server.queue_setMsg] at member)
  lens other := by
    rw [← kept.lens other]
    by_cases here : other = msg
    · rw [here, ← len]
      exact congrArg Msg.totalLen (Function.update_self _ _ _)
    · exact congrArg Msg.totalLen (Function.update_of_ne here _ _)
  async := kept.async

theorem note (kept : Remains s t) (action : Action) : Remains s (t.note action) where
  available dir entry member := kept.available dir entry (by rwa [Server.queue_note] at member)
  lens := kept.lens
  async := kept.async

theorem transport_setQueue (s : Server) (dir : Dir) (queue : Virtqueue) :
    (s.setQueue dir queue).transport = s.transport := by
  cases dir with
  | tx | rx => rfl

theorem setQueue (kept : Remains s t) {queue : Virtqueue}
    (available : ∀ entry, entry ∈ queue.available → entry ∈ (t.queue dir).available) :
    Remains s (t.setQueue dir queue) where
  available other entry member := by
    apply kept.available
    by_cases here : other = dir
    · subst here
      rw [Server.queue_setQueue] at member
      exact available entry member
    · rwa [Server.queue_setQueue_of_ne t here] at member
  lens msg := by
    rw [Server.msgs_setQueue]
    exact kept.lens msg
  async record := by
    rw [transport_setQueue]
    exact kept.async record

theorem dequeue (kept : Remains s t) : Remains s (t.dequeue dir) :=
  kept.setQueue fun _ => List.mem_of_mem_tail

theorem setAsync (kept : Remains s t) (held : t.records record = some socket)
    (transport : socket.asyncTransport = some async) (pending : Async) :
    Remains s (t.setRecord record { socket with asyncTransport := some pending }) where
  available dir entry member := kept.available dir entry
    (by rwa [Server.queue_setRecord] at member)
  lens := kept.lens
  async other := by
    rw [← kept.async other]
    by_cases here : other = record
    · subst here
      simp [Server.transport, Server.setRecord, held, transport]
    · simp [Server.transport, Server.setRecord, Function.update_of_ne here]

theorem complete (kept : Remains s t) (dir : Dir) (record : Option Ptr) (msg : Ptr) (cookie : UInt32)
    (len : UInt64) : Remains s (complete config dir t record msg cookie len) := by
  have flagged : Remains s { t with emitClientAsync := true } :=
    ⟨fun d entry member => kept.available d entry (by cases d <;> exact member), kept.lens,
      kept.async⟩
  rw [PicoServer.complete]
  dsimp only
  split
  · next queue added =>
    refine (flagged.setQueue fun entry member => ?_).note _
    rw [Virtqueue.addUsed] at added
    split at added
    · cases added
      exact member
    · cases added
  · exact flagged

theorem transfer (kept : Remains s t) (dir : Dir) (protocol : Protocol) (record msg : Ptr)
    (offset : UInt64) (answer : Answer) :
    Remains s (transfer dir t protocol record msg offset answer) := by
  cases dir with
  | tx => exact kept.note _
  | rx =>
    refine (kept.setMsg ?_).note _
    cases protocol with
    | tcp | udp => rfl

theorem popComplete (kept : Remains s t) (held : t.records record = some socket)
    (transport : socket.asyncTransport = some async) (dir : Dir) (msg : Ptr)
    (doneLen len : UInt64) :
    Remains s (popComplete config dir t record socket async msg doneLen len) :=
  ((kept.setMsg (by rfl)).setAsync held transport _).complete _ _ _ _ _

theorem take (kept : Remains s t) (dir : Dir) (record : Ptr) (handle : UInt32) (msg : Ptr) :
    Remains s (t.take dir record handle msg) := kept.dequeue.note _

theorem finish (kept : Remains s t) (dir : Dir) (record : Ptr) (handle : UInt32) (msg : Ptr)
    (doneLen len : UInt64) : Remains s (finish config dir t record handle msg doneLen len) :=
  (kept.setMsg (by rfl)).complete _ _ _ _ _

end Remains

theorem records_take : (s.take dir record handle msg).records = s.records := by
  cases dir with
  | tx | rx => rfl

theorem records_transfer {protocol : Protocol} {offset : UInt64} :
    (transfer dir s protocol record msg offset answer).records = s.records := by
  cases dir with
  | tx | rx => rfl

theorem Taken.held_take (taken : Taken s dir handle msg record socket async) :
    (s.take dir record handle msg).records record = some socket := by
  rw [records_take]
  exact taken.held

theorem MsgStep.kept (step : MsgStep config s after) : Remains s after := by
  have kept := Remains.refl s
  cases step with
  | refuse => exact ((kept.dequeue.note _).setMsg (by rfl)).complete _ _ _ _ _
  | append taken =>
    exact (((kept.take _ _ _ _).setMsg (by rfl)).setAsync taken.held_take taken.transport _).setMsg
      (by rfl)
  | fail => exact (kept.take _ _ _ _).finish _ _ _ _ _ _
  | park taken =>
    refine (((kept.take _ _ _ _).transfer _ _ _ _ _ _).setMsg (by rfl)).setAsync ?_
      taken.transport _
    exact (congrFun records_transfer _).trans taken.held_take
  | finish => exact ((kept.take _ _ _ _).transfer _ _ _ _ _ _).finish _ _ _ _ _ _
  | drop head => exact kept.popComplete head.held head.transport _ _ _ _
  | advance => exact (kept.transfer _ _ _ _ _ _).setMsg (by rfl)
  | pop head =>
    refine (kept.transfer _ _ _ _ _ _).popComplete ?_ head.transport _ _ _ _
    exact (congrFun records_transfer _).trans head.held

structure Working (config : Config) (s t : Server) : Prop where
  sound : t.Sound config
  same : SameBooks s t
  kept : Remains s t

namespace Working

theorem start (sound : s.Sound config) : Working config s s := ⟨sound, .refl s, .refl s⟩

theorem step (working : Working config s t) (step : MsgStep config t after) :
    Working config s after :=
  ⟨working.sound.step step, working.same.trans (.of_step step), working.kept.trans step.kept⟩

theorem live (working : Working config s t) (held : s.records record = some socket) :
    ∃ now, t.records record = some now := by
  have same := working.same.records record
  rw [held, Option.map_some, Option.map_eq_some_iff] at same
  obtain ⟨now, held, _⟩ := same
  exact ⟨now, held⟩

theorem asynchronous (working : Working config s t) (held : s.records record = some socket)
    (transport : socket.asyncTransport ≠ none) :
    ∃ now async, t.records record = some now ∧ now.asyncTransport = some async := by
  obtain ⟨now, held'⟩ := working.live held
  have same := working.kept.async record
  rw [Server.transport, Server.transport, held, held', Option.bind_some, Option.bind_some] at same
  obtain ⟨before, there⟩ := Option.ne_none_iff_exists'.mp transport
  rw [there, Option.isSome_some] at same
  obtain ⟨async, there'⟩ := Option.isSome_iff_exists.mp same
  exact ⟨now, async, held', there'⟩

theorem found (working : Working config s t) (agree : Agree config s.books) {fd : Int32}
    (found : clientGetSocket t c fd = some record) : ∃ now, t.records record = some now := by
  have there : s.books.sockets c fd.toUInt32 = some record := by
    rw [clientGetSocket, working.same.clients] at found
    exact found
  obtain ⟨_, plain, live, _⟩ := agree.sockets c _ record there
  obtain ⟨socket, held, _⟩ := Option.map_eq_some_iff.mp live
  exact working.live held

end Working

/-! ## The loops over messages -/

section
variable {tolerated : Fault → Prop}

theorem zfLogfIf_stops {cond : Prop} [Decidable cond] {text : String}
    (blame : cond → tolerated (.logf text)) :
    Ends tolerated (fun _ => ¬cond) (zfLogfIf cond text) := by
  rw [zfLogfIf, faultIf]
  split
  · next failed => exact blame failed
  · next passed => exact passed

theorem deref_live (held : s.records record = some socket) :
    Ends tolerated (socket = ·) (s.deref record) := by
  rw [Server.deref_ok.mpr held]
  exact rfl

end

theorem socketHead_total (dir : Dir) (sound : s.Sound config)
    (held : s.records record = some socket) (transport : socket.asyncTransport = some async) :
    Ends (fun _ => False) (fun found => ∀ socket async msg, found = some (socket, async, msg) →
        Head s dir record socket async msg) (socketHead s dir record) := by
  refine (deref_live held).bind ?_
  rintro _ rfl
  rw [transport]
  dsimp only
  split
  · rintro _ _ _ same
    cases same
  · next msg queue =>
    have last : (async.pending dir).queueEnd ≠ none := by
      apply sound.queueEnd held transport
      rw [queue]
      exact Option.some_ne_none msg
    refine (zfLogfIf_stops fun none => absurd none last).bind fun _ _ => ?_
    rintro _ _ _ same
    cases same
    exact ⟨held, transport, queue⟩

theorem socketLoop_stops (working : Working config s t) (held : s.records record = some socket)
    (transport : socket.asyncTransport ≠ none) :
    Ends (BadWork s) (fun result => Working config s result.1)
      (socketLoop config dir record answers t) := by
  induction answers generalizing t with
  | nil =>
    obtain ⟨now, async, held', transport'⟩ := working.asynchronous held transport
    obtain ⟨found, head, _⟩ := (socketHead_total dir working.sound held' transport').total
    rw [socketLoop, head]
    cases found with
    | none => exact working
    | some => exact BadWork.stack
  | cons answer answers ih =>
    obtain ⟨now, async, held', transport'⟩ := working.asynchronous held transport
    obtain ⟨found, head, first⟩ := (socketHead_total dir working.sound held' transport').total
    rw [socketLoop, head]
    cases found with
    | none => exact working
    | some found =>
      obtain ⟨socket, async, msg⟩ := found
      have head := first socket async msg rfl
      have iteration : Ends (BadWork s) (fun result => Working config s result.1)
          (socketIteration config dir t record socket async msg answer) := by
        refine socketIteration_ends.returns (fun _ bad => ?_) fun _ done =>
          working.step (socketIteration_step head done)
        rw [bad]
        exact .stack
      refine iteration.bind fun result working => ?_
      dsimp only
      split
      · exact ih working
      · exact working

theorem serveSocket_stops (working : Working config s t) (held : s.records record = some socket) :
    Ends (BadWork s) (fun result => Working config s result.1)
      (serveSocket config dir t record answers) := by
  obtain ⟨now, held'⟩ := working.live held
  refine (deref_live held').bind ?_
  rintro _ rfl
  split
  · exact working
  · next busy =>
    have async := working.kept.async record
    rw [Server.transport, Server.transport, held, held', Option.bind_some, Option.bind_some,
      Option.isSome_iff_ne_none.mpr fun none => busy (.inr none)] at async
    exact socketLoop_stops working held (Option.isSome_iff_ne_none.mp async.symm)

/-- A message that is dequeued stops the server only if it is null or has a bad length. -/
theorem queueIteration_stops (working : Working config s t) (agree : Agree config s.books)
    (available : (handle, msg) ∈ (t.queue dir).available) :
    Ends (BadWork s) (fun _ => True) (queueIteration config dir (t, answers) (handle, msg)) := by
  have here := working.kept.available dir _ available
  have len : ((t.dequeue dir).msgs msg).totalLen = (s.msgs msg).totalLen := by
    rw [Server.dequeue, Server.msgs_setQueue]
    exact working.kept.lens msg
  refine (zfLogfIf_stops fun null => .null (null ▸ here)).bind fun _ _ =>
    (zfLogfIf_stops fun bad => .length here (by rwa [len] at bad)).bind fun _ _ => ?_
  split
  · exact trivial
  · next record found =>
    have clients : (t.dequeue dir).clients = t.clients := by
      cases dir with
      | tx | rx => rfl
    rw [clientGetSocket, clients] at found
    obtain ⟨socket, held⟩ := working.found agree found
    have held' : (t.dequeue dir).records record = some socket := by rwa [dequeue_records]
    refine (deref_live held').bind ?_
    rintro _ rfl
    split
    · exact trivial
    · split
      · exact trivial
      · next async transport =>
        rw [deliver.eq_def]
        dsimp only
        split
        · next waits =>
          split
          · next none => exact absurd none (working.sound.queueEnd held transport waits)
          · exact trivial
        · split
          · exact BadWork.stack
          · refine (direct_ends.returns (fun _ bad => ?_) fun _ _ => trivial).bind
              fun _ _ => trivial
            rw [bad]
            exact .stack

theorem queueHandle_stops (working : Working config s t) (agree : Agree config s.books) :
    Ends (BadWork s) (fun result => Working config s result.1)
      (queueHandle config dir t answers) := by
  -- the entries still to come are the ones available
  have loop : ∀ (entries : List (UInt32 × Ptr)) (t : Server) (answers : List Answer),
      (t.queue dir).available = entries → Working config s t →
      Ends (BadWork s) (fun result => Working config s result.1)
        (entries.foldlM (queueIteration config dir) (t, answers)) := by
    intro entries
    induction entries with
    | nil => exact fun _ _ _ working => working
    | cons entry entries ih =>
      intro t answers available working
      obtain ⟨handle, msg⟩ := entry
      have iteration : Ends (BadWork s) (fun result => Working config s result.1 ∧
          (result.1.queue dir).available = entries)
          (queueIteration config dir (t, answers) (handle, msg)) := by
        refine (queueIteration_stops working agree ?_).returns (fun _ => id) fun result done => ?_
        · rw [available]
          exact List.mem_cons_self
        · obtain ⟨step, tail⟩ := queueIteration_step (by rw [available]; rfl) done
          exact ⟨working.step step, by rw [tail, available]; rfl⟩
      exact iteration.bind fun result after => ih result.1 result.2 after.2 after.1
  exact loop _ t answers rfl working

theorem serveEvent_stops {bit ev : UInt16} (working : Working config s t)
    (agree : Agree config s.books) (held : s.records record = some socket) :
    Ends (BadWork s) (fun result => Working config s result.1)
      (serveEvent config dir bit t record ev answers) := by
  rw [serveEvent]
  split
  · refine (queueHandle_stops working agree).bind fun handled working => ?_
    exact (serveSocket_stops working held).bind fun _ working => working
  · exact working

theorem serveAsync_stops {ev : UInt16} (working : Working config s t)
    (agree : Agree config s.books) (held : s.records record = some socket) :
    Ends (BadWork s) (fun result => Working config s result.1)
      (serveAsync config t record ev answers) := by
  refine (serveEvent_stops working agree held).bind fun received working => ?_
  exact (serveEvent_stops working agree held).bind fun _ working => working

/-! ## The callback of the stack -/

theorem clientPutEvent_total {fd : Int32} (ev : UInt16) (memory : Bool)
    (found : clientGetSocket s c fd = some record) (held : s.records record = some socket) :
    Ends (fun _ => False)
      (fun result => result.2 = -1 → (s.clients c).socketEventSet.Refuses memory)
      (clientPutEvent s c fd ev memory) := by
  have answered : Ends (fun _ => False) (fun _ => True) (clientPutEvent s c fd ev memory) := by
    rw [clientPutEvent, found]
    exact (deref_live held).bind fun _ _ => trivial
  refine answered.returns (fun _ => id) ?_
  rintro ⟨after, ret⟩ done rfl
  rcases clientPutEvent_spec done with ⟨_, _, missing⟩ | ⟨_, _, _, _, _, _, _, _, marked⟩
  · exact absurd (found.symm.trans missing) (Option.some_ne_none record)
  · cases marked with
    | refused refuses => exact refuses

/-- The socket of the callback is found again; only its event may find no memory. -/
theorem reportEvent_stops {a : Ptr} {ev : UInt16} {memory : Bool} (working : Working config s t)
    (agree : Agree config s.books) (registered : s.address a = some record)
    (held : s.records record = some socket) :
    Ends (fun fault => (s.clients socket.clientId).socketEventSet.Refuses memory ∧
      fault = .logf "Failed to set the event flags for client's socket") (fun _ => True)
      (reportEvent t socket ev memory) := by
  rw [reportEvent]
  split
  · exact trivial
  obtain ⟨plain, live, _, here⟩ := agree.address a record registered
  obtain ⟨_, held', rfl⟩ := Option.map_eq_some_iff.mp live
  obtain rfl := Option.some.inj (held.symm.trans held')
  have found : clientGetSocket t socket.clientId socket.socketFd = some record := by
    rw [clientGetSocket, working.same.clients]
    exact here
  obtain ⟨now, live⟩ := working.live held
  obtain ⟨result, done, failed⟩ := (clientPutEvent_total ev memory found live).total
  rw [working.same.clients] at failed
  rw [done]
  exact (zfLogfIf_stops fun bad => ⟨failed bad, rfl⟩).bind fun _ _ => trivial

theorem socketCb_stops {trace : List (Event × Reply)} {ev : UInt16} {a : Ptr} {memory : Bool}
    (sound : s.Sound config) (agree : Agree config s.books) :
    Ends (Cause config trace s (.callback ev a answers memory)) (fun _ => True)
      (socketCb config s ev a answers memory) := by
  have work : ∀ fault, BadWork s fault →
      Cause config trace s (.callback ev a answers memory) fault := fun _ => .work rfl
  rw [socketCb]
  split
  · split
    · exact trivial
    · next null =>
      obtain rfl := not_not.mp null
      exact .nobody
  · next record registered =>
    have registered : s.address a = some record := registered
    obtain ⟨plain, live, _, _⟩ := agree.address a record registered
    obtain ⟨socket, held, _⟩ := Option.map_eq_some_iff.mp live
    refine (deref_live held).bind ?_
    rintro _ rfl
    have working := Working.start sound
    have report : ∀ {t : Server} {ev' : UInt16}, Working config s t →
        Ends (Cause config trace s (.callback ev a answers memory)) (fun _ => True)
          (reportEvent t socket ev' memory) := by
      intro t ev' working
      refine (reportEvent_stops working agree registered held).returns ?_ fun _ _ => trivial
      rintro _ ⟨refuses, rfl⟩
      exact .unreported registered held refuses
    split
    · refine Ends.bind ((serveAsync_stops working agree held).returns work fun _ done => ?_)
        fun result working => report working
      exact (serveAsync_stops working agree held).of_ok done
    · exact report working

theorem irq_stops {trace : List (Event × Reply)} (sound : s.Sound config)
    (agree : Agree config s.books) : Ends (Cause config trace s (.irq answers)) (fun _ => True)
      (s.step config (.irq answers)) := by
  have handled : Ends (BadWork s) (fun _ => True) (s.step config (.irq answers)) := by
    refine (queueHandle_stops (.start sound) agree).bind fun received working => ?_
    exact (queueHandle_stops working agree).bind fun _ _ => trivial
  exact handled.returns (fun _ => .work rfl) fun _ _ => trivial

/-! ## The control interface -/

theorem nodup_length {nodes : List Ptr} (nodup : nodes.Nodup) : nodes.length ≤ 2 ^ 64 := by
  have distinct : (nodes.map UInt64.toFin).Nodup :=
    nodup.map fun a b same => UInt64.toFin_inj.mp same
  have small := distinct.length_le_card
  rwa [List.length_map, Fintype.card_fin] at small

/-- The loop ends: every iteration takes a message from the list. -/
theorem cleanupLoop_total {fuel : Nat} {waiting : Dir → Ptr → List Ptr}
    (working : Working config s t) (held : s.records record = some socket)
    (transport : socket.asyncTransport ≠ none) (owned : Owned config.ringSize t.view waiting)
    (enough : (waiting dir record).length < fuel) :
    Ends (fun _ => False) (Working config s) (cleanupLoop config dir record fuel t) := by
  induction fuel generalizing t waiting with
  | zero => exact absurd enough (Nat.not_lt_zero _)
  | succ fuel ih =>
    obtain ⟨now, async, held', transport'⟩ := working.asynchronous held transport
    obtain ⟨found, head, first⟩ := (socketHead_total dir working.sound held' transport').total
    rw [cleanupLoop, head]
    cases found with
    | none => exact working
    | some found =>
      obtain ⟨socket, async, msg⟩ := found
      have head := first socket async msg rfl
      obtain ⟨rest, front⟩ := owned.head head
      refine ih (working.step (.drop head)) (owned.dropped head front) ?_
      rw [place_apply, if_pos ⟨rfl, rfl⟩]
      rw [front, List.length_cons] at enough
      exact Nat.lt_of_succ_lt_succ enough

theorem Working.cleanupLoop (working : Working config s t) (held : s.records record = some socket)
    (transport : socket.asyncTransport ≠ none) : Ends (fun _ => False) (Working config s)
      (cleanupLoop config dir record (2 ^ 64 + 1) t) := by
  obtain ⟨waiting, owned⟩ := working.sound
  obtain ⟨now, async, held', transport'⟩ := working.asynchronous held transport
  have both : t.view.transport record = some async := by
    change (t.records record).bind Socket.asyncTransport = some async
    rw [held']
    exact transport'
  have nodup := (owned.linked dir record async both).1.nodup
  exact cleanupLoop_total working held transport owned (Nat.lt_succ_of_le (nodup_length nodup))

theorem cleanupAsyncSocket_total (sound : s.Sound config) (held : s.records record = some socket) :
    Ends (fun _ => False) (fun _ => True) (cleanupAsyncSocket config s record) := by
  refine (deref_live held).bind ?_
  rintro _ rfl
  split
  · exact trivial
  · next transport =>
    refine ((Working.start sound).cleanupLoop held transport).bind fun sent working => ?_
    refine (working.cleanupLoop held transport).bind fun received working => ?_
    obtain ⟨now, held'⟩ := working.live held
    exact (deref_live held').bind fun _ _ => trivial

theorem clientDeleteSocket_total (agree : Agree config s.books) {fd : Int32} :
    Ends (fun _ => False) (fun _ => True) (clientDeleteSocket s c fd) := by
  rw [clientDeleteSocket]
  split
  · exact trivial
  · next found =>
    have here : s.books.sockets c fd.toUInt32 =
        some ((s.clients c).socketTable.val ((s.clients c).socketTable.get fd.toUInt32)) :=
      Table.lookup_eq_some.mpr ⟨found, rfl⟩
    obtain ⟨_, plain, live, _, _, _, _, registered⟩ := agree.sockets c _ _ here
    obtain ⟨socket, held, rfl⟩ := Option.map_eq_some_iff.mp live
    refine (deref_live held).bind ?_
    rintro _ rfl
    refine (zfLogfIf_stops fun missing => ?_).bind fun _ _ => trivial
    have none : s.address socket.socket = none := Table.lookup_eq_none.mpr missing
    exact Option.some_ne_none _ (registered.symm.trans none)

theorem clientGetEvent_total (agree : Agree config s.books) :
    Ends (fun _ => False) (fun _ => True) (clientGetEvent s c) := by
  rw [clientGetEvent]
  split
  · exact trivial
  · next found =>
    obtain ⟨bucket, live⟩ := Table.first_spec found
    have pending : s.events c
        ((s.clients c).socketEventSet.key (s.clients c).socketEventSet.first) ≠ none := by
      rw [Server.events, Table.lookup_of_exist bucket live]
      exact Option.some_ne_none _
    dsimp only
    generalize (s.clients c).socketEventSet.key (s.clients c).socketEventSet.first = fd at pending ⊢
    split
    · exact trivial
    · obtain ⟨record, here⟩ := Option.ne_none_iff_exists'.mp (agree.events c fd pending)
      obtain ⟨_, plain, live, _⟩ := agree.sockets c fd record here
      obtain ⟨socket, held, _⟩ := Option.map_eq_some_iff.mp live
      have found : clientGetSocket (s.setSocketEventSet c ((s.clients c).socketEventSet.del
          (s.clients c).socketEventSet.first)) c fd.toInt32 = some record := by
        rw [clientGetSocket, UInt32.toUInt32_toInt32]
        have same : (s.setSocketEventSet c ((s.clients c).socketEventSet.del
          (s.clients c).socketEventSet.first)).sockets c fd = some record := by
          rw [Server.sockets_setSocketEventSet]
          exact here
        exact same
      rw [found]
      exact (deref_live held).bind fun _ _ => trivial

/-- A full table hands out a bucket that is taken, and the server notices. -/
inductive Full (s : Server) (c : Nat) : Fault → Prop where
  | sockets : (s.clients c).socketTable.Crowded →
      Full s c (.logf "Tried to replace an entry in the socket table for client")
  | addresses : s.socketAddrTable.Crowded →
      Full s c (.logf "Tried to replace an entry in the socket addr table")

theorem invalidateOld_stops {old socket : Ptr} {tolerated : Fault → Prop} {held : Socket}
    (live : s.records old = some held) (foreign : held.socket ≠ socket)
    (blame : tolerated (.logf "Tried to replace an entry in the socket addr table")) :
    Ends tolerated (fun _ => True) (invalidateOld s c old socket) := by
  refine (deref_live live).bind ?_
  rintro _ rfl
  exact (zfLogfIf_stops fun _ => blame).bind fun _ (same : ¬held.socket ≠ socket) =>
    absurd foreign same

theorem putSocketAddr_stops {new : Socket} {iter : Nat} {fd : UInt32} {memory : Bool}
    {tolerated : Fault → Prop} (held : s.records record = some new)
    (fresh : s.address new.socket = none) (addressed : s.Addressed)
    (blame : s.socketAddrTable.Crowded →
      tolerated (.logf "Tried to replace an entry in the socket addr table")) :
    Ends tolerated (fun _ => True) (putSocketAddr s c record iter fd memory) := by
  refine (deref_live held).bind ?_
  rintro _ rfl
  have spec := s.socketAddrTable.put_spec new.socket memory
  dsimp only
  generalize s.socketAddrTable.put new.socket memory = result at spec
  cases spec with
  | failed => exact trivial
  | @kept table x key same found kind _ crowded =>
    obtain ⟨old, live, there⟩ := addressed key _ found
    have foreign : old.socket ≠ new.socket := by
      intro here
      rw [← here, there] at fresh
      exact Option.some_ne_none _ (found.symm.trans fresh)
    rw [if_neg (by decide : ¬(0 : Int) = -1), if_pos rfl]
    have live' : (s.setSocketAddrTable table).records (table.val x) = some old := live
    exact (invalidateOld_stops live' foreign (blame (crowded fresh))).bind fun _ _ => trivial
  | added kind =>
    rcases kind with rfl | rfl
    · exact trivial
    · exact trivial

theorem clientPutSocket_stops {new : Socket} (memory : Bool × Bool) (client : c < config.numClients)
    (held : s.records record = some new) (fresh : s.address new.socket = none)
    (addressed : s.Addressed) (ready : Ready s c) :
    Ends (Full s c) (fun _ => True) (clientPutSocket config s c record memory) := by
  refine (zfLogfIf_stops fun large => absurd client (Nat.not_lt.mpr large)).bind fun _ _ => ?_
  have nonzero : (s.clients c).bumpIndex ≠ 0 := by
    intro zero
    have positive := ready.positive
    rw [Server.bump, zero] at positive
    exact absurd positive (by decide)
  have found : Ends (Full s c) (· = ((s.clients c).bumpIndex,
      { s.clients c with bumpIndex := (s.clients c).bumpIndex + 1 }))
      (findFreeId (s.clients c)) := by
    rw [findFreeId_of_lookup ready.free]
    exact rfl
  refine found.bind ?_
  rintro _ rfl
  dsimp only
  rw [if_neg nonzero]
  have spec := (s.clients c).socketTable.put_spec (s.bump c) memory.1
  change Table.Put _ _ _ ((s.clients c).socketTable.put (s.clients c).bumpIndex memory.1) at spec
  generalize (s.clients c).socketTable.put (s.clients c).bumpIndex memory.1 = result at spec
  cases spec with
  | failed => exact trivial
  | kept _ _ _ _ crowded =>
    rw [if_neg (by decide : ¬(0 : Int) = -1)]
    exact (zfLogfIf_stops fun _ => Full.sockets (crowded ready.free)).bind
      fun _ same => absurd rfl same
  | @added table x code kind =>
    have new1 : ¬code = -1 := by rcases kind with rfl | rfl <;> decide
    have new0 : ¬code = 0 := by rcases kind with rfl | rfl <;> decide
    rw [if_neg new1]
    refine (zfLogfIf_stops fun zero => absurd zero new0).bind fun _ _ => ?_
    exact putSocketAddr_stops held fresh addressed fun crowded => Full.addresses crowded

theorem putNewSocket_stops {socket : Ptr} {protocol : Protocol} {memory : Bool × Bool}
    (client : c < config.numClients) (agree : Agree config s.books) (ready : Ready s c)
    (dead : s.records record = none) (fresh : s.address socket = none) :
    Ends (Full s c) (fun _ => True) (putNewSocket config s c record socket protocol memory) := by
  rw [putNewSocket]
  dsimp only
  have filled := filledIn_note s record ⟨protocol, c, 0, socket, 0, none⟩ (.born record protocol)
  generalize (s.setRecord record ⟨protocol, c, 0, socket, 0, none⟩).note (.born record protocol) =
    s' at filled
  have addressed := filled.addressed agree.addressed dead
  have fresh' : s'.address socket = none := by
    rw [filled.address]
    exact fresh
  have ready' : Ready s' c := by
    refine ⟨?_, ?_, ?_⟩
    · rw [filled.sockets, filled.bump]
      exact ready.free
    · rw [filled.bump]
      exact ready.positive
    · rw [filled.bump]
      exact ready.small
  have ends := clientPutSocket_stops memory client filled.held fresh' addressed ready'
  have full : ∀ fault, Full s' c fault → Full s c fault := by
    rintro _ (crowded | crowded)
    · exact .sockets (by rwa [filled.clients] at crowded)
    · exact .addresses (by rwa [filled.table] at crowded)
  have nonzero : s'.bump c ≠ 0 := by
    intro zero
    have positive := ready'.positive
    rw [zero] at positive
    exact absurd positive (by decide)
  have registers : Ends (Full s c) (fun result => result.1.records = s'.records)
      (clientPutSocket config s' c record memory) := ends.returns full fun _ done =>
    (clientPutSocket_spec filled.held fresh' addressed ready'.free nonzero done).1
  refine registers.bind fun result records => ?_
  split
  · exact trivial
  · exact (deref_live (by rw [records, filled.held])).bind fun _ _ => trivial

section
variable {trace : List (Event × Reply)} {client : Nat} {call : Control}

theorem clientCheck_total {tolerated : Fault → Prop} (checked : clientCheck config s = .ok c) :
    Ends tolerated (c = ·) (clientCheck config s) := by
  rw [checked]
  exact rfl

theorem serverControlCommon_live (agree : Agree config s.books) {fd : Int32}
    (found : serverControlCommon s c fd = some record) :
    ∃ socket, s.records record = some socket := by
  obtain ⟨_, plain, live, _⟩ := agree.sockets c _ record (serverControlCommon_some found)
  obtain ⟨socket, held, _⟩ := Option.map_eq_some_iff.mp live
  exact ⟨socket, held⟩

theorem picoControlOpen_stops {isUdp : Bool} {new : Option Ptr} {socket : Ptr}
    {memory : Bool × Bool} (checked : clientCheck config s = .ok c) (client : c < config.numClients)
    (agree : Agree config s.books) (ready : Ready s c) (dead : ∀ p ∈ new, s.records p = none)
    (fresh : s.address socket = none) : Ends (Full s c) (fun _ => True)
      (picoControlOpen config s isUdp new socket memory) := by
  refine (clientCheck_total checked).bind ?_
  rintro _ rfl
  cases new with
  | none => exact trivial
  | some record =>
    dsimp only
    split
    · exact trivial
    · exact (putNewSocket_stops client agree ready (dead record rfl) fresh).bind
        fun _ _ => trivial

theorem picoControlAccept_stops {fd : Int32} {new : Option Ptr} {socket : Ptr} {peer : UInt32}
    {port : UInt16} {memory : Bool × Bool} (checked : clientCheck config s = .ok c)
    (client : c < config.numClients) (agree : Agree config s.books) (ready : Ready s c)
    (dead : ∀ p ∈ new, s.records p = none) (fresh : s.address socket = none) :
    Ends (Full s c) (fun _ => True)
      (picoControlAccept config s fd socket peer port new memory) := by
  refine (clientCheck_total checked).bind ?_
  rintro _ rfl
  split
  · exact trivial
  · next found =>
    obtain ⟨_, held⟩ := serverControlCommon_live agree found
    refine (deref_live held).bind fun _ _ => ?_
    split
    · exact trivial
    · cases new with
      | none => exact trivial
      | some record =>
        refine (putNewSocket_stops client agree ready (dead record rfl) fresh).bind
          fun result _ => ?_
        dsimp only
        split
        · exact trivial
        · exact trivial

theorem picoControlClose_total {fd : Int32} (checked : clientCheck config s = .ok c)
    (sound : s.Sound config) (agree : Agree config s.books) :
    Ends (fun _ => False) (fun _ => True) (picoControlClose config s fd) := by
  refine (clientCheck_total checked).bind ?_
  rintro _ rfl
  split
  · exact trivial
  · next record found =>
    obtain ⟨socket, held⟩ := serverControlCommon_live agree found
    have cleaned : Ends (fun _ => False) (fun after => Agree config after.books)
        (cleanupAsyncSocket config s record) := by
      refine (cleanupAsyncSocket_total sound held).returns (fun _ => id) fun after done => ?_
      rw [(SameBooks.cleanup done).books]
      exact agree
    exact cleaned.bind fun after agree =>
      (clientDeleteSocket_total agree).bind fun _ _ => trivial

theorem picoControlSetAsync_total {fd : Int32} {enabled memory : Bool}
    (checked : clientCheck config s = .ok c) (sound : s.Sound config)
    (agree : Agree config s.books) : Ends (fun _ => False) (fun _ => True)
      (picoControlSetAsync config s fd enabled memory) := by
  refine (clientCheck_total checked).bind ?_
  rintro _ rfl
  split
  · exact trivial
  · next record found =>
    obtain ⟨socket, held⟩ := serverControlCommon_live agree found
    refine (deref_live held).bind fun _ _ => ?_
    split
    · split
      · exact trivial
      · exact trivial
    · split
      · exact (cleanupAsyncSocket_total sound held).bind fun _ _ => trivial
      · exact trivial

/-- Only a full table stops a control RPC. -/
theorem control_stops (valid : config.Valid) (sound : s.Sound config) (agree : Agree config s.books)
    (ready : (Event.control client call).opener = some client → Ready s client)
    (permits : s.permits config (.control client call))
    (fresh : FreshAddress s (.control client call)) :
    Ends (Cause config trace s (.control client call)) (fun _ => True)
      (s.step config (.control client call)) := by
  -- the call is served in the state that has the badge of its client
  generalize called : { s with controlBadge := enumerateBadge config.controlBadges client } = s'
  have checked : clientCheck config s' = .ok client := by
    rw [← called]
    exact (clientCheck_spec valid).mpr ⟨permits.1, rfl⟩
  have agree' : Agree config s'.books := by
    rw [← called]
    exact agree
  have sound' : s'.Sound config := by
    have aside : Aside s s' := by
      rw [← called]
      exact .of_same (funext fun dir => by cases dir with | tx | rx => rfl) rfl rfl rfl
    exact sound.elim fun waiting owned => ⟨waiting, owned.aside aside⟩
  have full : (Event.control client call).opener = some client → ∀ fault, Full s' client fault →
      Cause config trace s (.control client call) fault := by
    rintro opener _ (crowded | crowded)
    · exact .crowdedSockets opener (by rwa [← called] at crowded)
    · exact .crowdedAddresses opener (by rwa [← called] at crowded)
  have never : ∀ fault, False → Cause config trace s (.control client call) fault :=
    fun _ => False.elim
  change Ends _ _ (controlHandleMessage config s client call)
  rw [controlHandleMessage.eq_def, called]
  cases call with
  | «open» isUdp new socket memory =>
    have ready' : Ready s' client := by
      rw [← called]
      exact ⟨(ready rfl).free, (ready rfl).positive, (ready rfl).small⟩
    exact (picoControlOpen_stops checked permits.1 agree' ready'
      (by rw [← called]; exact permits.2) (by rw [← called]; exact fresh)).returns (full rfl)
      fun _ _ => trivial
  | accept fd socket peer port new memory =>
    have ready' : Ready s' client := by
      rw [← called]
      exact ⟨(ready rfl).free, (ready rfl).positive, (ready rfl).small⟩
    exact (picoControlAccept_stops checked permits.1 agree' ready'
      (by rw [← called]; exact permits.2) (by rw [← called]; exact fresh)).returns (full rfl)
      fun _ _ => trivial
  | close fd =>
    exact (picoControlClose_total checked sound' agree').returns never fun _ _ => trivial
  | setAsync fd enabled memory =>
    exact (picoControlSetAsync_total checked sound' agree').returns never fun _ _ => trivial
  | eventPoll =>
    have polled : Ends (fun _ => False) (fun _ => True) (picoControlEventPoll config s') :=
      (clientCheck_total checked).bind fun _ _ =>
        (clientGetEvent_total agree').bind fun _ _ => trivial
    exact polled.returns never fun _ _ => trivial
  | stack fd ret =>
    have asked : Ends (fun _ => False) (fun _ => True) (picoControlStack config s' fd ret) := by
      refine (clientCheck_total checked).bind ?_
      rintro _ rfl
      split
      · exact trivial
      · next record found =>
        obtain ⟨_, held⟩ := serverControlCommon_live agree' found
        exact (deref_live held).bind fun _ _ => trivial
    exact asked.returns never fun _ _ => trivial
  | getIpv4 device =>
    cases device with
    | none | some => exact trivial

end

/-! ## Send and receive RPCs -/

theorem run_identity (valid : config.Valid) {msgs : Ptr → Msg} {trace : List (Event × Reply)}
    (run : (machine config).Run (.init msgs) trace s) : IdentityInvariant config trace s := by
  induction run with
  | start => exact ⟨rfl, nofun, iff_of_true nofun .nil⟩
  | next _ allowed step ih => exact ih.next valid allowed (machine_step.mp step)

/-- After a control RPC the control interface knows a client. -/
theorem IdentityInvariant.knows (valid : config.Valid) {trace : List (Event × Reply)}
    (inv : IdentityInvariant config trace s) (called : lastControl trace ≠ none) :
    ∃ client, clientCheck config s = .ok client := by
  obtain ⟨client, last⟩ := Option.ne_none_iff_exists'.mp called
  refine ⟨client, (clientCheck_spec valid).mpr ⟨inv.client client last, ?_⟩⟩
  rw [inv.badge, last]
  rfl

theorem clientCheck_stops {tolerated : Fault → Prop} (blame : (∀ c, clientCheck config s ≠ .ok c) →
    tolerated (.logf "Client ID is greater than the number of clients registered!")) :
    Ends tolerated (fun c => clientCheck config s = .ok c) (clientCheck config s) := by
  cases checked : clientCheck config s with
  | ok c => exact rfl
  | error fault =>
    have text : fault =
        .logf "Client ID is greater than the number of clients registered!" := by
      rw [clientCheck] at checked
      split at checked
      · cases checked
        rfl
      · split at checked
        · cases checked
          rfl
        · cases checked
    rw [text]
    exact blame fun c same => by
      rw [checked] at same
      cases same

theorem communicate_stops {tolerated : Fault → Prop} {badges : List UInt64}
    {bufSize : UInt64 → UInt64} {call : StackCall} {issuer : Nat} {fd len bufferOffset ret : Int32}
    (agree : Agree config s.books) (blame : (∀ c, clientCheck config s ≠ .ok c) →
      tolerated (.logf "Client ID is greater than the number of clients registered!")) :
    Ends tolerated (fun _ => True)
      (communicate config badges bufSize call s issuer fd len bufferOffset ret) := by
  refine (clientCheck_stops blame).bind fun c _ => ?_
  dsimp only
  split
  · exact trivial
  · next record found =>
    have here : clientGetSocket s c fd = some record := by
      rw [serverCommunicationCommon] at found
      split at found
      · cases found
      · split at found
        · cases found
        · exact found
    obtain ⟨_, plain, live, _⟩ := agree.sockets c _ record here
    obtain ⟨socket, held, _⟩ := Option.map_eq_some_iff.mp live
    have held' : (s.note (.identity issuer call c (enumerateBadge badges c))).records record =
        some socket := held
    exact (deref_live held').bind fun _ _ => trivial

theorem communicateHandleMessage_stops {tolerated : Fault → Prop} {call : StackCall} {issuer : Nat}
    {fd len bufferOffset ret : Int32} (agree : Agree config s.books)
    (blame : (∀ c, clientCheck config s ≠ .ok c) →
      tolerated (.logf "Client ID is greater than the number of clients registered!")) :
    Ends tolerated (fun _ => True)
      (communicateHandleMessage config s issuer call fd len bufferOffset ret) := by
  cases call with
  | write | send | sendto =>
    exact communicate_stops (s := { s with sendBadge := _ }) agree blame
  | read | recv | recvfrom =>
    exact communicate_stops (s := { s with recvBadge := _ }) agree blame

/-! ## Every event -/

section
variable {msgs : Ptr → Msg} {trace : List (Event × Reply)} {event : Event}

theorem step_stops (valid : config.Valid) (identity : IdentityInvariant config trace s)
    (sound : s.Sound config) (agree : Agree config s.books)
    (ready : ∀ c, event.opener = some c → Ready s c) (permits : s.permits config event)
    (fresh : FreshAddress s event) :
    Ends (Cause config trace s event) (fun _ => True) (s.step config event) := by
  cases event with
  | control client call => exact control_stops valid sound agree (ready client) permits fresh
  | communicate client call fd len bufferOffset ret =>
    refine communicateHandleMessage_stops agree fun unknown => .uncalled ?_
    by_contra called
    obtain ⟨c, known⟩ := identity.knows valid called
    exact unknown c known
  | callback ev socket answers memory =>
    exact (socketCb_stops sound agree).bind fun _ _ => trivial
  | irq answers => exact irq_stops sound agree
  | putEvent client fd ev memory =>
    have put : Ends (fun _ => False) (fun _ => True) (clientPutEvent s client fd ev memory) := by
      cases found : clientGetSocket s client fd with
      | none =>
        rw [clientPutEvent, found]
        exact trivial
      | some record =>
        obtain ⟨_, plain, live, _⟩ := agree.sockets client _ record found
        obtain ⟨socket, held, _⟩ := Option.map_eq_some_iff.mp live
        exact (clientPutEvent_total ev memory found held).mono fun _ _ => trivial
    obtain ⟨result, done, _⟩ := put.total
    change Ends _ _ (clientPutEvent s client fd ev memory >>= _)
    rw [done]
    exact trivial
  | notify | submit | collect => exact trivial

/-- In a reachable state an event stops the server only for a cause outside it or for a full table.
It never meets a record that has been freed, the end of a table or a loop without an end. -/
theorem faults_caused (valid : config.Valid) (run : (machine config).Run (.init msgs) trace s)
    (fresh : (machine config).EveryStep (.init msgs) trace FreshAddress)
    (admits : (machine config).EveryStep (.init msgs) trace fun s event => s.Admits config event)
    (few : ∀ c, opens c trace < 2 ^ 31 - 2) (permits : s.permits config event)
    (freshNow : FreshAddress s event) {fault : Fault} (stops : s.step config event = .error fault) :
    Cause config trace s event fault ∧ fault ≠ .dangling ∧ fault ≠ .bounds ∧ fault ≠ .loops := by
  have inv := run_books valid run fresh fun c => lt_trans (few c) (by decide)
  have one : ∀ c, opens c (trace ++ [(event, Reply.none)]) < 2 ^ 31 - 1 := by
    intro c
    have := few c
    rw [opens_concat]
    split
    · omega
    · omega
  have ready : ∀ c, event.opener = some c → Ready s c := fun c => inv.ready one
  obtain ⟨turns, reached⟩ := run_turned run admits
  have sound := run_sound (init_idle msgs) reached
  have ends := step_stops valid (run_identity valid run) sound inv.agree ready permits freshNow
  rw [stops] at ends
  have cause : Cause config trace s event fault := ends
  refine ⟨cause, ?_⟩
  cases cause with
  | work _ bad =>
    cases bad with
    | stack | null | length => exact ⟨nofun, nofun, nofun⟩
  | uncalled | nobody | unreported | crowdedSockets | crowdedAddresses =>
    exact ⟨nofun, nofun, nofun⟩

end

def longMsg : Event := .submit .tx 7 0x3000 { blankMsg with totalLen := 1401 }

theorem faults_caused_longMsg : ∃ trace s,
    (machine twoClients).Run (.init fun _ => blankMsg) trace s ∧
      trace.map Prod.fst = [longMsg] ∧
      Cause twoClients trace s (.irq []) (.logf "bad msg len in tx") := by
  have admits : (Server.init fun _ => blankMsg).Admits twoClients longMsg :=
    ⟨by decide, by decide, by decide⟩
  have run : (machine twoClients).Run (.init fun _ => blankMsg) [] _ := .start
  have submitted := run.on longMsg trivial (machine_step.mpr rfl)
  have few : ∀ c, opens c ([] ++ [(longMsg, Reply.none)]) < 2 ^ 31 - 2 := fun c =>
    lt_of_le_of_lt (opens_le_length c _) (by decide)
  have caused := faults_caused twoClients_valid submitted
    (Machine.EveryStep.start.next run trivial) (Machine.EveryStep.start.next run admits) few
    (show Server.permits twoClients _ (.irq []) from trivial) trivial rfl
  exact ⟨_, _, submitted, rfl, caused.1⟩

end GlobalComponents.PicoServer
