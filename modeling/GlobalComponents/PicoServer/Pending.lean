import GlobalComponents.PicoServer.Ownership

/-! What the handling of messages does to the pending lists and the rings. -/

set_option autoImplicit false

namespace GlobalComponents.PicoServer

open Library

def Msg.transferred (content : Msg) (dir : Dir) (protocol : Protocol) (offset : UInt64)
    (answer : Answer) : Msg :=
  match dir with
  | .tx => content
  | .rx =>
    match protocol with
    | .udp => { content.store offset answer.bytes with
        srcAddr := answer.srcAddr, remotePort := answer.remotePort }
    | .tcp => content.store offset answer.bytes

def Msg.bytes (content : Msg) (dir : Dir) (offset : UInt64) (answer : Answer) : List UInt8 :=
  match dir with
  | .tx => content.slice offset (sizeT answer.ret).toNat
  | .rx => answer.bytes

section
variable {content : Msg} {dir : Dir} {protocol : Protocol} {offset : UInt64} {answer : Answer}

@[simp] theorem transferred_next :
    (content.transferred dir protocol offset answer).next = content.next := by
  cases dir with
  | tx => rfl
  | rx => cases protocol with | tcp | udp => rfl

@[simp] theorem transferred_cookieSave :
    (content.transferred dir protocol offset answer).cookieSave = content.cookieSave := by
  cases dir with
  | tx => rfl
  | rx => cases protocol with | tcp | udp => rfl

end

section
variable {journal more : List Action} {dir d : Dir} {h handle : UInt32} {record msg : Ptr}
  {receiver : Option Ptr} {content : Msg} {offset len : UInt64} {bytes : List UInt8}

@[simp] theorem took_append : took (journal ++ more) dir h = took journal dir h + took more dir h :=
  List.countP_append

@[simp] theorem completed_append :
    completed (journal ++ more) dir h = completed journal dir h + completed more dir h :=
  List.countP_append

@[simp] theorem took_took : took [.took dir receiver handle msg content] d h =
    if d = dir ∧ h = handle then 1 else 0 := by
  rw [took, List.countP_singleton]
  exact if_congr (decide_eq_true_iff.trans (and_congr eq_comm eq_comm)) rfl rfl

@[simp] theorem took_moved : took [.moved dir record msg offset bytes] d h = 0 := rfl

@[simp] theorem took_completed : took [.completed dir receiver handle len content] d h = 0 := rfl

@[simp] theorem completed_took : completed [.took dir receiver handle msg content] d h = 0 := rfl

@[simp] theorem completed_moved : completed [.moved dir record msg offset bytes] d h = 0 := rfl

@[simp] theorem completed_completed : completed [.completed dir receiver handle len content] d h =
    if d = dir ∧ h = handle then 1 else 0 := by
  rw [completed, List.countP_singleton]
  exact if_congr (decide_eq_true_iff.trans (and_congr eq_comm eq_comm)) rfl rfl

end

section
variable {config : Config} {s after : Server} {dir : Dir} {record msg : Ptr} {handle : UInt32}
  {socket : Socket} {async : Async} {answer : Answer} {waiting : Dir → Ptr → List Ptr}

def View.transfer (v : View) (dir : Dir) (protocol : Protocol) (record msg : Ptr) (offset : UInt64)
    (answer : Answer) : View :=
  (v.setMsg msg ((v.msgs msg).transferred dir protocol offset answer)).note
    (.moved dir record msg offset ((v.msgs msg).bytes dir offset answer))

theorem view_transfer (protocol : Protocol) (offset : UInt64) :
    (transfer dir s protocol record msg offset answer).view =
      s.view.transfer dir protocol record msg offset answer := by
  cases dir with
  | tx =>
    have same : s.view.setMsg msg ((s.msgs msg).transferred .tx protocol offset answer) =
        s.view := congrArg (fun msgs => { s.view with msgs }) (Function.update_eq_self msg s.msgs)
    rw [View.transfer]
    exact (view_note _).trans (congrArg (View.note · _) same.symm)
  | rx =>
    refine (view_note _).trans ?_
    rw [view_setMsg]
    cases protocol with
    | tcp | udp => rfl

theorem View.transfer_queue (v : View) (protocol : Protocol) (offset : UInt64) :
    (v.transfer dir protocol record msg offset answer).queue = v.queue := rfl

theorem transfer_msg (protocol : Protocol) (offset : UInt64) :
    (transfer dir s protocol record msg offset answer).msgs msg =
      (s.msgs msg).transferred dir protocol offset answer := by
  have view : (transfer dir s protocol record msg offset answer).view =
    s.view.transfer dir protocol record msg offset answer := view_transfer protocol offset
  exact (congrArg (fun v => View.msgs v msg) view).trans (Function.update_self _ _ _)

def View.dequeue (v : View) (dir : Dir) (receiver : Option Ptr) (handle : UInt32) (msg : Ptr) :
    View :=
  (v.setQueue dir { v.queue dir with available := (v.queue dir).available.tail }).note
    (.took dir receiver handle msg (v.msgs msg))

theorem view_dequeue (receiver : Option Ptr) :
    ((s.dequeue dir).note (.took dir receiver handle msg ((s.dequeue dir).msgs msg))).view =
      s.view.dequeue dir receiver handle msg := by
  rw [view_note, Server.dequeue, view_setQueue, Server.msgs_setQueue]
  rfl

theorem view_take : (s.take dir record handle msg).view =
    s.view.dequeue dir (some record) handle msg := by
  have same : s.msgs msg = (s.dequeue dir).msgs msg := by rw [Server.dequeue, Server.msgs_setQueue]
  rw [Server.take, same, view_dequeue]

theorem view_refuse (room : (s.view.queue dir).used.length < config.ringSize) :
    (refuse config dir (s.dequeue dir) handle msg).view =
      (((s.view.dequeue dir none handle msg).setMsg msg
        { s.msgs msg with doneLen := -1 }).complete dir none msg handle 0) := by
  have same : s.msgs msg = (s.dequeue dir).msgs msg := by rw [Server.dequeue, Server.msgs_setQueue]
  rw [refuse]
  dsimp only
  have within : (((((s.dequeue dir).note (.took dir none handle msg
      ((s.dequeue dir).msgs msg))).setMsg msg { (s.dequeue dir).msgs msg with
        doneLen := -1 }).view).queue dir).used.length < config.ringSize := by
    rw [view_setMsg, view_dequeue]
    simpa [View.setMsg, View.dequeue, View.setQueue, View.note] using room
  rw [view_complete within, view_setMsg, view_dequeue, ← same]

theorem view_finish {doneLen len : UInt64} (room : (s.view.queue dir).used.length < config.ringSize) :
    (finish config dir s record handle msg doneLen len).view =
      (s.view.setMsg msg { s.msgs msg with doneLen }).complete dir (some record) msg handle len := by
  rw [finish, view_complete, view_setMsg]
  rw [view_setMsg]
  exact room

theorem view_popComplete {doneLen len : UInt64}
    (room : (s.view.queue dir).used.length < config.ringSize) :
    (popComplete config dir s record socket async msg doneLen len).view =
      ((s.view.setMsg msg { s.msgs msg with doneLen }).setTransport record
        (some (async.setPending dir ((async.pending dir).pop msg (s.msgs msg).next)))).complete dir
        (some record) msg (s.msgs msg).cookieSave len := by
  rw [popComplete]
  dsimp only
  rw [view_complete, view_setRecord, view_setMsg]
  rw [view_setRecord, view_setMsg]
  exact room

theorem view_append {queueEnd : Ptr} :
    (append dir s record socket async handle msg queueEnd).view =
      ((s.view.setMsg queueEnd { s.msgs queueEnd with next := some msg }).setTransport record
        (some (async.setPending dir { async.pending dir with queueEnd := some msg }))).setMsg msg
        { (s.view.setMsg queueEnd { s.msgs queueEnd with next := some msg }).msgs msg with
          next := none, cookieSave := handle } := by
  rw [append]
  dsimp only
  rw [view_setMsg, view_setRecord, view_setMsg]
  rfl

theorem view_park {doneLen : UInt64} :
    (park dir s record socket async handle msg doneLen).view =
      (s.view.setMsg msg { s.msgs msg with doneLen, cookieSave := handle, next := none }).setTransport
        record (some (async.setPending dir ⟨some msg, some msg⟩)) := by
  rw [park]
  dsimp only
  rw [view_setRecord, view_setMsg]

end

namespace Owned

variable {ringSize : Nat} {v w : View} {waiting : Dir → Ptr → List Ptr} {dir : Dir}
  {record msg : Ptr} {handle : UInt32} {receiver : Option Ptr} {async : Async}
  {len : UInt64}

/-- What is dequeued or waits finds room in the used ring. -/
theorem used_lt (owned : Owned ringSize v waiting) (lent : (handle, msg) ∈ (v.queue dir).lent) :
    (v.queue dir).used.length < ringSize := by
  have some : 0 < (v.queue dir).lent.length := List.length_pos_of_mem lent
  have room := owned.room dir
  omega

theorem completes_complete (used : (w.queue dir).used = (v.queue dir).used)
    (lent : (w.queue dir).lent = (v.queue dir).lent)
    (others : ∀ other, other ≠ dir → w.queue other = v.queue other)
    (same : ∀ d h, completed w.journal d h = completed v.journal d h) :
    Completes dir handle v (w.complete dir receiver msg handle len) where
  used := ⟨len, by simp [View.complete, View.setQueue, View.note, Virtqueue.give, used]⟩
  lent := by simp [View.complete, View.setQueue, View.note, Virtqueue.give, lent]
  others other different := by
    simp [View.complete, View.setQueue, View.note, Function.update_of_ne different,
      others other different]
  completed d h := by simp [View.complete, View.setQueue, View.note, same]

/-- The first available message, after whatever has been done to it, is completed. -/
theorem complete_dequeued (owned : Owned ringSize v waiting) (taker : Option Ptr)
    (front : (v.queue dir).available.head? = some (handle, msg))
    (queue : w.queue = (v.dequeue dir taker handle msg).queue)
    (transport : w.transport = v.transport) (links : SameLinks v w (· = msg))
    (took' : ∀ d h, took w.journal d h =
      took (v.dequeue dir taker handle msg).journal d h)
    (completed' : ∀ d h, completed w.journal d h = completed v.journal d h) :
    Owned ringSize (w.complete dir receiver msg handle len) waiting := by
  obtain ⟨rest, available⟩ := List.head?_eq_some_iff.mp front
  have others : ∀ other, other ≠ dir → w.queue other = v.queue other := by
    intro other different
    rw [queue]
    simp [View.dequeue, View.setQueue, View.note, Function.update_of_ne different]
  have dequeues : Dequeues dir handle msg v (w.complete dir receiver msg handle len) := by
    refine ⟨?_, fun d h => ?_⟩
    · simp [View.complete, View.setQueue, View.note, Virtqueue.give, queue, View.dequeue, available]
    · simp [View.complete, View.setQueue, View.note, took', View.dequeue]
  have completes : Completes dir handle v (w.complete dir receiver msg handle len) := by
    refine completes_complete ?_ ?_ others completed'
    · rw [queue]
      simp [View.dequeue, View.setQueue, View.note]
    · rw [queue]
      simp [View.dequeue, View.setQueue, View.note]
  exact owned.serve dequeues completes transport links

/-- The first available message, after whatever has been done to it, goes behind those that wait. -/
theorem wait_dequeued {pending : Pending} (owned : Owned ringSize v waiting) (taker : Option Ptr)
    (front : (v.queue dir).available.head? = some (handle, msg))
    (held : v.transport record = some async)
    (queue : w.queue = (v.dequeue dir taker handle msg).queue)
    (took' : ∀ d h, took w.journal d h =
      took (v.dequeue dir taker handle msg).journal d h)
    (completed' : ∀ d h, completed w.journal d h = completed v.journal d h)
    (transport : w.transport =
      Function.update v.transport record (some (async.setPending dir pending)))
    (linked : Linked (fun m => (w.msgs m).next) pending.queue pending.queueEnd
      (waiting dir record ++ [msg]))
    (cookie : (w.msgs msg).cookieSave = handle)
    (cookies : ∀ m, m ≠ msg → (w.msgs m).cookieSave = (v.msgs m).cookieSave)
    (links : ∀ m, m ≠ msg → m ∉ waiting dir record → (w.msgs m).next = (v.msgs m).next) :
    Owned ringSize w (place waiting dir record (waiting dir record ++ [msg])) := by
  obtain ⟨rest, available⟩ := List.head?_eq_some_iff.mp front
  have dequeues : Dequeues dir handle msg v w := by
    refine ⟨?_, fun d h => ?_⟩
    · rw [queue]
      simp [View.dequeue, View.setQueue, View.note, available]
    · simp [took', View.dequeue, View.note, View.setQueue]
  refine owned.wait dequeues held ?_ ?_ ?_ completed' transport linked cookie cookies links
  · intro other different
    rw [queue]
    simp [View.dequeue, View.setQueue, View.note, Function.update_of_ne different]
  · rw [queue]
    simp [View.dequeue, View.setQueue, View.note]
  · rw [queue]
    simp [View.dequeue, View.setQueue, View.note]

/-- The first message of a pending list, after whatever has been done to it, is completed. -/
theorem complete_first {rest : List Ptr} (owned : Owned ringSize v waiting)
    (front : waiting dir record = msg :: rest) (held : v.transport record = some async)
    (queue : w.queue = v.queue)
    (transport : w.transport = Function.update v.transport record
      (some (async.setPending dir ((async.pending dir).pop msg (v.msgs msg).next))))
    (links : SameLinks v w (· = msg)) (took' : ∀ d h, took w.journal d h = took v.journal d h)
    (completed' : ∀ d h, completed w.journal d h = completed v.journal d h) :
    Owned ringSize (w.complete dir receiver msg (v.msgs msg).cookieSave len)
      (place waiting dir record rest) := by
  apply owned.leave front held
  · refine completes_complete ?_ ?_ (fun other _ => ?_) completed'
    all_goals rw [queue]
  · simp [View.complete, View.setQueue, View.note, Virtqueue.give, queue]
  · intro d h
    simp [View.complete, View.setQueue, View.note, took']
  · exact transport
  · exact links

end Owned

section
variable {config : Config} {s after : Server} {dir : Dir} {record msg : Ptr} {handle : UInt32}
  {socket : Socket} {async : Async} {answer : Answer} {waiting : Dir → Ptr → List Ptr}

theorem sameLinks_setMsg {v w : View} {content : Msg} (links : SameLinks v w (· = msg)) :
    SameLinks v (w.setMsg msg content) (· = msg) := by
  intro m other
  rw [View.setMsg]
  dsimp only
  rw [Function.update_of_ne other]
  exact links m other

theorem sameLinks_refl (v : View) (except : Ptr → Prop) : SameLinks v v except :=
  fun _ _ => ⟨rfl, rfl⟩

theorem Owned.front (owned : Owned config.ringSize s.view waiting)
    (front : (s.queue dir).available.head? = some (handle, msg)) :
    (handle, msg) ∈ (s.view.queue dir).lent :=
  owned.available_lent (List.mem_of_head? front)

theorem Taken.transport_eq (taken : Taken s dir handle msg record socket async) :
    s.view.transport record = some async := by
  have both : (s.records record).bind Socket.asyncTransport = some async := by
    rw [taken.held]
    exact taken.transport
  exact both

theorem Head.transport_eq (head : Head s dir record socket async msg) :
    s.view.transport record = some async := by
  have both : (s.records record).bind Socket.asyncTransport = some async := by
    rw [head.held]
    exact head.transport
  exact both

theorem Owned.head (owned : Owned config.ringSize s.view waiting)
    (head : Head s dir record socket async msg) : ∃ rest, waiting dir record = msg :: rest := by
  have linked := owned.linked dir record async head.transport_eq
  rw [head.first] at linked
  exact linked.head

theorem Owned.refused (owned : Owned config.ringSize s.view waiting)
    (front : (s.queue dir).available.head? = some (handle, msg)) :
    Owned config.ringSize (refuse config dir (s.dequeue dir) handle msg).view waiting := by
  rw [view_refuse (owned.used_lt (owned.front front))]
  apply owned.complete_dequeued none front
  · rfl
  · rfl
  · exact sameLinks_setMsg (sameLinks_refl _ _)
  · exact fun _ _ => rfl
  · intro d h
    simp [View.dequeue, View.setMsg, View.setQueue, View.note]

theorem used_dequeue {v : View} {receiver : Option Ptr} :
    ((v.dequeue dir receiver handle msg).queue dir).used.length = (v.queue dir).used.length := by
  simp [View.dequeue, View.setQueue, View.note]

theorem Owned.failed (owned : Owned config.ringSize s.view waiting)
    (taken : Taken s dir handle msg record socket async) :
    Owned config.ringSize
      (finish config dir (s.take dir record handle msg) record handle msg (-1) 0).view waiting := by
  have room := owned.used_lt (owned.front taken.available)
  rw [view_finish (by rw [view_take]; exact used_dequeue.trans_lt room), view_take]
  apply owned.complete_dequeued (some record) taken.available
  · rfl
  · rfl
  · exact sameLinks_setMsg (sameLinks_refl _ _)
  · exact fun _ _ => rfl
  · intro d h
    simp [View.dequeue, View.setMsg, View.setQueue, View.note]

theorem Owned.finished {doneLen len : UInt64} (owned : Owned config.ringSize s.view waiting)
    (taken : Taken s dir handle msg record socket async) :
    Owned config.ringSize
      (finish config dir
        (transfer dir (s.take dir record handle msg) socket.protocol record msg 0 answer)
        record handle msg doneLen len).view waiting := by
  have room := owned.used_lt (owned.front taken.available)
  have within : ((transfer dir (s.take dir record handle msg) socket.protocol record msg 0
      answer).view.queue dir).used.length < config.ringSize := by
    rw [view_transfer, view_take, View.transfer_queue, used_dequeue]
    exact room
  rw [view_finish within, view_transfer, view_take]
  apply owned.complete_dequeued (some record) taken.available
  · rfl
  · rfl
  · exact sameLinks_setMsg (sameLinks_setMsg (sameLinks_refl _ _))
  · intro d h
    simp [View.transfer, View.setMsg, View.note]
  · intro d h
    simp only [View.transfer, View.dequeue, View.setMsg, View.setQueue, View.note,
      completed_append, completed_took, completed_moved, Nat.add_zero]

theorem Owned.dropped {rest : List Ptr} (owned : Owned config.ringSize s.view waiting)
    (head : Head s dir record socket async msg) (front : waiting dir record = msg :: rest) :
    Owned config.ringSize (popComplete config dir s record socket async msg (-1) 0).view
      (place waiting dir record rest) := by
  have waits : msg ∈ waiting dir record := front ▸ List.mem_cons_self
  rw [view_popComplete (owned.used_lt (owned.waiting_lent waits))]
  apply owned.complete_first front head.transport_eq
  · rfl
  · rfl
  · exact sameLinks_setMsg (sameLinks_refl _ _)
  · exact fun _ _ => rfl
  · exact fun _ _ => rfl

theorem Owned.popped {rest : List Ptr} {protocol : Protocol} {offset doneLen len : UInt64}
    (owned : Owned config.ringSize s.view waiting) (head : Head s dir record socket async msg)
    (front : waiting dir record = msg :: rest) :
    Owned config.ringSize
      (popComplete config dir (transfer dir s protocol record msg offset answer) record socket async
        msg doneLen len).view (place waiting dir record rest) := by
  have waits : msg ∈ waiting dir record := front ▸ List.mem_cons_self
  have room := owned.used_lt (owned.waiting_lent waits)
  rw [view_popComplete (by rw [view_transfer]; exact room), view_transfer, transfer_msg,
    transferred_next, transferred_cookieSave]
  apply owned.complete_first front head.transport_eq
  · rfl
  · rfl
  · exact sameLinks_setMsg (sameLinks_setMsg (sameLinks_refl _ _))
  · intro d h
    simp [View.transfer, View.setMsg, View.setTransport, View.note]
  · intro d h
    simp [View.transfer, View.setMsg, View.setTransport, View.note]

theorem Owned.advanced {protocol : Protocol} {offset doneLen : UInt64}
    (owned : Owned config.ringSize s.view waiting) :
    Owned config.ringSize
      (let after := transfer dir s protocol record msg offset answer
      after.setMsg msg { after.msgs msg with doneLen }).view waiting := by
  dsimp only
  rw [view_setMsg, view_transfer]
  rw [transfer_msg]
  apply owned.same
  · rfl
  · rfl
  · intro m _
    by_cases here : m = msg
    · subst here
      simp [View.setMsg, Server.view]
    · exact sameLinks_setMsg (sameLinks_setMsg (sameLinks_refl _ _)) m here
  · intro d h
    simp [View.transfer, View.setMsg, View.note]
  · intro d h
    simp [View.transfer, View.setMsg, View.note]

theorem Owned.appended {queueEnd : Ptr} (owned : Owned config.ringSize s.view waiting)
    (taken : Taken s dir handle msg record socket async)
    (last : (async.pending dir).queueEnd = some queueEnd) :
    Owned config.ringSize
      (append dir (s.take dir record handle msg) record socket async handle msg queueEnd).view
      (place waiting dir record (waiting dir record ++ [msg])) := by
  have front : (handle, msg) ∈ (s.view.queue dir).available := List.mem_of_head? taken.available
  have linked := owned.linked dir record async taken.transport_eq
  rw [last] at linked
  have waits : queueEnd ∈ waiting dir record := List.mem_of_getLast? linked.2.symm
  have other : queueEnd ≠ msg := by
    rintro rfl
    exact owned.available_waits front waits
  have pushed := linked.push (owned.available_waits front)
  have msgs : (s.take dir record handle msg).msgs = s.msgs := by
    cases dir with
    | tx | rx => rfl
  generalize state :
    (append dir (s.take dir record handle msg) record socket async handle msg queueEnd).view = w
  rw [view_append, view_take, msgs] at state
  have next : (fun m => (w.msgs m).next) = Function.update
      (Function.update (fun m => (s.view.msgs m).next) queueEnd (some msg)) msg none := by
    funext m
    by_cases new : m = msg
    · subst new
      simp [← state, View.setMsg]
    · by_cases here : m = queueEnd
      · subst here
        simp [← state, View.setMsg, View.setTransport, new]
      · simp [← state, View.setMsg, View.setTransport, new, here, View.dequeue, View.note,
          View.setQueue]
  have transport : w.transport = Function.update s.view.transport record
      (some (async.setPending dir { async.pending dir with queueEnd := some msg })) := by
    rw [← state]
    rfl
  apply owned.wait_dequeued (some record) taken.available taken.transport_eq ?_ ?_ ?_ transport
  · rw [next]
    exact pushed
  · simp [← state, View.setMsg]
  · intro m new
    by_cases here : m = queueEnd
    · subst here
      simp [← state, View.setMsg, View.setTransport, new, Server.view]
    · simp [← state, View.setMsg, View.setTransport, new, here, View.dequeue, View.note,
        View.setQueue]
  · intro m new elsewhere
    have here : m ≠ queueEnd := fun same => elsewhere (same ▸ waits)
    have same := congrFun next m
    rwa [Function.update_of_ne new, Function.update_of_ne here] at same
  · rw [← state]
    rfl
  · rw [← state]
    exact fun _ _ => rfl
  · intro d h
    simp [← state, View.dequeue, View.setMsg, View.setTransport, View.setQueue, View.note]

/-- A message that is served in part waits alone. -/
theorem Owned.parked (answer : Answer) (doneLen : UInt64)
    (owned : Owned config.ringSize s.view waiting)
    (taken : Taken s dir handle msg record socket async)
    (free : (async.pending dir).queue = none) :
    Owned config.ringSize
      (park dir (transfer dir (s.take dir record handle msg) socket.protocol record msg 0 answer)
        record socket async handle msg doneLen).view
      (place waiting dir record (waiting dir record ++ [msg])) := by
  have linked := owned.linked dir record async taken.transport_eq
  have alone : waiting dir record = [] := linked.first_eq_none.mp free
  generalize state : (park dir (transfer dir (s.take dir record handle msg) socket.protocol record
    msg 0 answer) record socket async handle msg doneLen).view = w
  rw [view_park, view_transfer, view_take] at state
  have next : (fun m => (w.msgs m).next) =
      Function.update (fun m => (s.view.msgs m).next) msg none := by
    funext m
    by_cases new : m = msg
    · subst new
      simp [← state, View.setMsg, View.setTransport]
    · simp [← state, View.setMsg, View.setTransport, new, View.transfer, View.dequeue, View.note,
        View.setQueue]
  have transport : w.transport = Function.update s.view.transport record
      (some (async.setPending dir ⟨some msg, some msg⟩)) := by
    rw [← state]
    rfl
  apply owned.wait_dequeued (some record) taken.available taken.transport_eq ?_ ?_ ?_ transport
  · rw [next, alone]
    exact Linked.single _ msg
  · simp [← state, View.setMsg, View.setTransport]
  · intro m new
    simp [← state, View.setMsg, View.setTransport, new, View.transfer, View.dequeue, View.note,
      View.setQueue]
  · intro m new _
    have same := congrFun next m
    rwa [Function.update_of_ne new] at same
  · rw [← state]
    rfl
  · intro d h
    simp [← state, View.transfer, View.setMsg, View.setTransport, View.note]
  · intro d h
    simp only [← state, View.transfer, View.dequeue, View.setMsg, View.setTransport, View.setQueue,
      View.note, completed_append, completed_took, completed_moved, Nat.add_zero]

theorem Owned.step (owned : Owned config.ringSize s.view waiting) (step : MsgStep config s after) :
    ∃ waiting', Owned config.ringSize after.view waiting' := by
  cases step with
  | refuse available => exact ⟨waiting, owned.refused available⟩
  | append taken last => exact ⟨_, owned.appended taken last⟩
  | fail taken => exact ⟨waiting, owned.failed taken⟩
  | park taken free => exact ⟨_, owned.parked _ _ taken free⟩
  | finish taken => exact ⟨waiting, owned.finished taken⟩
  | drop head =>
    obtain ⟨rest, front⟩ := owned.head head
    exact ⟨_, owned.dropped head front⟩
  | advance => exact ⟨waiting, owned.advanced⟩
  | pop head =>
    obtain ⟨rest, front⟩ := owned.head head
    exact ⟨_, owned.popped head front⟩

theorem Owned.steps (owned : Owned config.ringSize s.view waiting)
    (steps : MsgSteps config s after) : ∃ waiting', Owned config.ringSize after.view waiting' := by
  -- every step of the server has its own lemma on who owns the messages
  induction steps with
  | refl => exact ⟨waiting, owned⟩
  | tail _ step ih =>
    obtain ⟨_, owned⟩ := ih
    exact owned.step step

end

end GlobalComponents.PicoServer
