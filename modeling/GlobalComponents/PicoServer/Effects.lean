import GlobalComponents.PicoServer.Deliveries

/-! What exactly a turn leaves in the journal, in the available rings, in the pending lists and in the
buffer of its message. -/

set_option autoImplicit false

namespace GlobalComponents.PicoServer

open Library

section
variable {ringSize : Nat} {v : View} {waiting waiting' : Dir → Ptr → List Ptr} {dir : Dir}
  {record : Ptr}

/-- The links leave no choice. -/
theorem Owned.unique (owned : Owned ringSize v waiting) (again : Owned ringSize v waiting') :
    waiting = waiting' := by
  funext dir record
  cases held : v.transport record with
  | none => rw [owned.idle dir record held, again.idle dir record held]
  | some async => exact (owned.linked dir record async held).unique (again.linked dir record async held)

theorem place_self (waiting : Dir → Ptr → List Ptr) (dir : Dir) (record : Ptr) :
    place waiting dir record (waiting dir record) = waiting := by
  rw [place, Function.update_eq_self, Function.update_eq_self]

end

/-- The stack has answered for a message at this offset: what it has moved is noted and stored, and a
message that does not wait on goes to the used ring. -/
structure Answered (dir : Dir) (protocol : Protocol) (record : Ptr) (handle : UInt32) (msg : Ptr)
    (course : Course) (answer : Answer) (len : UInt64) (s after : Server) : Prop where
  available : ∀ d, (after.queue d).available = (s.queue d).available
  buf : (after.msgs msg).buf = ((s.msgs msg).answered dir protocol course.doneLen answer).buf
  journal : after.journal = s.journal ++
    ((s.msgs msg).moves dir course.doneLen answer).map (fun part =>
      .moved dir record msg part.1 part.2) ++
    if (course.serve dir protocol (s.msgs msg) answer).pending then []
    else [.completed dir (some record) handle len (after.msgs msg)]

structure Closes (dir : Dir) (record : Ptr) (handle : UInt32) (msg : Ptr) (len : UInt64)
    (s after : Server) : Prop where
  available : ∀ d, (after.queue d).available = (s.queue d).available
  buf : (after.msgs msg).buf = (s.msgs msg).buf
  journal : after.journal =
    s.journal ++ [.completed dir (some record) handle len (after.msgs msg)]

section
variable {config : Config} {s t after : Server} {dir : Dir} {record msg : Ptr} {handle : UInt32}
  {socket : Socket} {async : Async} {answer : Answer} {answers left : List Answer}
  {doneLen len : UInt64} {waiting : Dir → Ptr → List Ptr} {protocol : Protocol} {course : Course}

theorem finish_closes (room : (s.queue dir).used.length < config.ringSize) :
    Closes dir record handle msg len s (finish config dir s record handle msg doneLen len) where
  available d := by rw [finish, complete_available_eq, Server.queue_setMsg]
  buf := by rw [finish, complete_msgs, Asked.setMsg_self]
  journal := by
    rw [finish, complete_journal (by rw [Server.queue_setMsg]; exact room), complete_msgs]
    rfl

theorem popComplete_closes (room : (s.queue dir).used.length < config.ringSize) :
    Closes dir record (s.msgs msg).cookieSave msg len s
      (popComplete config dir s record socket async msg doneLen len) where
  available d := by
    rw [popComplete, complete_available_eq, Server.queue_setRecord, Server.queue_setMsg]
  buf := by
    rw [popComplete, complete_msgs]
    exact (congrArg Msg.buf (Asked.setMsg_self _)).trans rfl
  journal := by
    rw [popComplete, complete_msgs, complete_journal]
    · rfl
    · rw [Server.queue_setRecord, Server.queue_setMsg]
      exact room

theorem Answered.failed (failed : answer.ret = -1) (closes : Closes dir record handle msg 0 s after) :
    Answered dir protocol record handle msg course answer 0 s after where
  available := closes.available
  buf := by rw [closes.buf, Msg.answered, if_pos failed]
  journal := by
    rw [closes.journal, Course.serve_failed _ _ failed, Msg.moves, if_pos failed]
    simp

theorem Answered.full (answered : answer.ret ≠ -1)
    (full : ¬waits dir protocol answer.ret ((s.msgs msg).totalLen - course.doneLen))
    (closes : Closes dir record handle msg len
      (transfer dir s protocol record msg course.doneLen answer) after) :
    Answered dir protocol record handle msg course answer len s after where
  available d := by rw [closes.available, transfer_queue]
  buf := by rw [closes.buf, transfer_msg, Msg.answered, if_neg answered]
  journal := by
    rw [closes.journal, transfer_journal, Course.serve_full _ _ answered full, Msg.moves,
      if_neg answered]
    rfl

theorem Answered.short (answered : answer.ret ≠ -1)
    (short : waits dir protocol answer.ret ((s.msgs msg).totalLen - course.doneLen))
    (queue : after.queue = (transfer dir s protocol record msg course.doneLen answer).queue)
    (buf : (after.msgs msg).buf =
      ((transfer dir s protocol record msg course.doneLen answer).msgs msg).buf)
    (journal : after.journal =
      (transfer dir s protocol record msg course.doneLen answer).journal) :
    Answered dir protocol record handle msg course answer len s after where
  available d := by rw [queue, transfer_queue]
  buf := by rw [buf, transfer_msg, Msg.answered, if_neg answered]
  journal := by
    rw [journal, transfer_journal, Course.serve_short _ _ answered short, Msg.moves,
      if_neg answered]
    simp

/-- An answer for one socket is none of another's business. -/
theorem Answered.elsewhere {d : Dir} {r : Ptr}
    (answered : Answered d protocol r handle msg course answer len s after)
    (other : ¬(d = dir ∧ r = record)) : ∃ more, after.journal = s.journal ++ more ∧
      ∀ action ∈ more, action.concerns dir record = false := by
  refine ⟨_, by rw [answered.journal, List.append_assoc], fun action member => ?_⟩
  rcases List.mem_append.mp member with moved | completed
  · obtain ⟨part, _, rfl⟩ := List.mem_map.mp moved
    exact decide_eq_false other
  · split at completed
    · cases completed
    · rw [List.mem_singleton.mp completed]
      exact decide_eq_false fun same => other ⟨same.1, Option.some.inj same.2⟩

theorem Answered.dequeues {d : Dir} {r : Ptr}
    (answered : Answered d protocol r handle msg course answer len s after) :
    ∃ more, after.journal = s.journal ++ more ∧ dequeued dir more = [] := by
  refine ⟨_, by rw [answered.journal, List.append_assoc], ?_⟩
  refine List.filterMap_eq_nil_iff.mpr fun action member => ?_
  rcases List.mem_append.mp member with moved | completed
  · obtain ⟨part, _, rfl⟩ := List.mem_map.mp moved
    rfl
  · split at completed
    · cases completed
    · rw [List.mem_singleton.mp completed]

theorem Iterates.answered {more : Bool} (owned : Owned config.ringSize s.view waiting)
    (head : Head s dir record socket async msg)
    (iterates : Iterates config dir s record socket async msg answer after more) :
    Answered dir socket.protocol record (s.msgs msg).cookieSave msg (s.course dir msg) answer
      (if answer.ret = -1 then 0 else (s.msgs msg).totalLen) s after := by
  obtain ⟨rest, front⟩ := owned.head head
  have waits : msg ∈ waiting dir record := front ▸ List.mem_cons_self
  have room : (s.queue dir).used.length < config.ringSize :=
    owned.used_lt (owned.waiting_lent waits)
  cases iterates with
  | drop failed =>
    rw [if_pos failed]
    exact .failed failed (popComplete_closes room)
  | advance transfers short =>
    refine .short transfers.ret short (funext fun d => Server.queue_setMsg _ _ _ d) ?_ rfl
    exact (congrArg Msg.buf (Asked.setMsg_self _)).trans rfl
  | pop transfers full =>
    rw [if_neg transfers.ret]
    have cookie : ((transfer dir s socket.protocol record msg (s.msgs msg).doneLen answer).msgs
        msg).cookieSave = (s.msgs msg).cookieSave := by
      rw [transfer_msg, transferred_cookieSave]
    rw [← cookie]
    refine .full transfers.ret full (popComplete_closes ?_)
    rw [transfer_queue]
    exact room

theorem Iterates.placed {more : Bool} {rest : List Ptr} (owned : Owned config.ringSize s.view waiting)
    (head : Head s dir record socket async msg) (front : waiting dir record = msg :: rest)
    (iterates : Iterates config dir s record socket async msg answer after more) :
    Owned config.ringSize after.view (place waiting dir record
      (if ((s.course dir msg).serve dir socket.protocol (s.msgs msg) answer).pending then msg :: rest
        else rest)) := by
  cases iterates with
  | drop failed =>
    rw [Course.serve_failed _ _ failed]
    exact owned.dropped head front
  | advance transfers short =>
    rw [Course.serve_short (s.course dir msg) _ transfers.ret short, if_pos rfl, ← front, place_self]
    exact owned.advanced
  | pop transfers full =>
    rw [Course.serve_full (s.course dir msg) _ transfers.ret full]
    exact owned.popped head front

theorem Serves.answered (room : (s.queue dir).used.length < config.ringSize)
    (serves : Serves config dir s record socket async handle msg answer after) :
    Answered dir socket.protocol record handle msg ⟨[], 0, true⟩ answer
      (if answer.ret = -1 then 0 else directLen dir (s.msgs msg).totalLen answer.ret) s after := by
  cases serves with
  | fail failed =>
    rw [if_pos failed]
    exact .failed failed (finish_closes room)
  | park transfers short =>
    refine .short transfers.ret (by rw [UInt64.sub_zero]; exact short) (funext fun d => ?_) ?_ rfl
    · rw [PicoServer.park, Server.queue_setRecord, Server.queue_setMsg]
    · exact (congrArg Msg.buf (Asked.setMsg_self _)).trans rfl
  | finish transfers full =>
    rw [if_neg transfers.ret]
    refine .full transfers.ret (by rw [UInt64.sub_zero]; exact full) (finish_closes ?_)
    rw [transfer_queue]
    exact room

theorem Serves.placed (owned : Owned config.ringSize s.view waiting)
    (taken : Taken s dir handle msg record socket async) (free : (async.pending dir).queue = none)
    (serves : Serves config dir (s.take dir record handle msg) record socket async handle msg answer
      after) :
    Owned config.ringSize after.view (place waiting dir record
      (if ((⟨[], 0, true⟩ : Course).serve dir socket.protocol (s.msgs msg) answer).pending then
        waiting dir record ++ [msg] else waiting dir record)) := by
  cases serves with
  | fail failed =>
    rw [Course.serve_failed _ _ failed, if_neg Bool.false_ne_true, place_self]
    exact owned.failed taken
  | park transfers short =>
    rw [take_msgs] at transfers short
    rw [Course.serve_short ⟨[], 0, true⟩ _ transfers.ret (by rw [UInt64.sub_zero]; exact short)]
    exact owned.parked _ _ taken free
  | finish transfers full =>
    rw [take_msgs] at transfers full ⊢
    rw [Course.serve_full ⟨[], 0, true⟩ _ transfers.ret (by rw [UInt64.sub_zero]; exact full),
      if_neg Bool.false_ne_true, place_self]
    exact owned.finished taken

/-- The message behind which another one is put changes its link only. -/
theorem append_available {queueEnd : Ptr} (d : Dir) :
    ((append dir s record socket async handle msg queueEnd).queue d).available =
      (s.queue d).available := by
  rw [append, Server.queue_setMsg, Server.queue_setRecord, Server.queue_setMsg]

theorem take_journal : (s.take dir record handle msg).journal =
    s.journal ++ [.took dir (some record) handle msg (s.msgs msg)] := by
  rw [Server.take, Server.note, Server.dequeue, Server.journal_setQueue]

theorem refuse_journal (room : (s.queue dir).used.length < config.ringSize) :
    ∃ content, (refuse config dir (s.dequeue dir) handle msg).journal = s.journal ++
      [.took dir none handle msg (s.msgs msg), .completed dir none handle 0 content] := by
  have view : (refuse config dir (s.dequeue dir) handle msg).view =
      ((s.view.dequeue dir none handle msg).setMsg msg
        { s.msgs msg with doneLen := -1 }).complete dir none msg handle 0 := view_refuse room
  refine ⟨{ s.msgs msg with doneLen := -1 }, (congrArg View.journal view).trans ?_⟩
  simp [View.complete, View.dequeue, View.setMsg, View.setQueue, View.note, Server.view]

theorem refuse_available (d : Dir) :
    ((refuse config dir (s.dequeue dir) handle msg).queue d).available =
      ((s.dequeue dir).queue d).available := by
  rw [refuse, complete_available_eq, Server.queue_setMsg, Server.queue_note]

end

end GlobalComponents.PicoServer
