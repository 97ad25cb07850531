import GlobalComponents.PicoServer.Turns

/-! What a turn does to each message.

A turn works on one message at most. Every other message keeps its contents, apart from its link, and
what the stack has taken from it or stored in it.
-/

set_option autoImplicit false

namespace GlobalComponents.PicoServer

open Library

def parts (dir : Dir) (msg : Ptr) (journal : List Action) : List (UInt64 × List UInt8) :=
  journal.foldl (fun parts action => match action with
    | .took d _ _ m _ => if d = dir ∧ m = msg then [] else parts
    | .moved d _ m offset bytes => if d = dir ∧ m = msg then parts ++ [(offset, bytes)] else parts
    | _ => parts) []

def holder (dir : Dir) (handle : UInt32) (journal : List Action) : Option Ptr :=
  journal.foldl (fun msg action => match action with
    | .took d _ h m _ => if d = dir ∧ h = handle then some m else msg
    | _ => msg) none

section
variable {journal more : List Action} {d dir : Dir} {m msg record : Ptr} {h handle : UInt32}
  {receiver : Option Ptr} {content : Msg} {offset len : UInt64} {bytes : List UInt8}

@[simp] theorem parts_took : parts dir msg (journal ++ [.took d receiver h m content]) =
    if d = dir ∧ m = msg then [] else parts dir msg journal := by
  rw [parts, List.foldl_append]
  rfl

@[simp] theorem parts_moved : parts dir msg (journal ++ [.moved d record m offset bytes]) =
    if d = dir ∧ m = msg then parts dir msg journal ++ [(offset, bytes)]
    else parts dir msg journal := by
  rw [parts, List.foldl_append]
  rfl

@[simp] theorem parts_completed :
    parts dir msg (journal ++ [.completed d receiver h len content]) = parts dir msg journal := by
  rw [parts, List.foldl_append]
  rfl

@[simp] theorem holder_took : holder dir handle (journal ++ [.took d receiver h m content]) =
    if d = dir ∧ h = handle then some m else holder dir handle journal := by
  rw [holder, List.foldl_append]
  rfl

@[simp] theorem holder_moved : holder dir handle (journal ++ [.moved d record m offset bytes]) =
    holder dir handle journal := by
  rw [holder, List.foldl_append]
  rfl

@[simp] theorem holder_completed :
    holder dir handle (journal ++ [.completed d receiver h len content]) =
      holder dir handle journal := by
  rw [holder, List.foldl_append]
  rfl

theorem parts_aside (quiet : ∀ action ∈ more, action.isAside = true) :
    parts dir msg (journal ++ more) = parts dir msg journal := by
  induction more using List.reverseRecOn with
  | nil => rw [List.append_nil]
  | append_singleton more action ih =>
    have earlier := ih fun action member => quiet action (List.mem_append_left _ member)
    have last := quiet action (List.mem_append_right _ (List.mem_singleton_self action))
    rw [← List.append_assoc, ← earlier, parts, List.foldl_append]
    cases action with
    | took | moved | completed => cases last
    | _ => rfl

theorem holder_aside (quiet : ∀ action ∈ more, action.isAside = true) :
    holder dir handle (journal ++ more) = holder dir handle journal := by
  induction more using List.reverseRecOn with
  | nil => rw [List.append_nil]
  | append_singleton more action ih =>
    have earlier := ih fun action member => quiet action (List.mem_append_left _ member)
    have last := quiet action (List.mem_append_right _ (List.mem_singleton_self action))
    rw [← List.append_assoc, ← earlier, holder, List.foldl_append]
    cases action with
    | took | moved | completed => cases last
    | _ => rfl

end

def Msg.unlinked (content : Msg) : Msg := { content with next := none }

theorem unlinked_eq {content content' : Msg} (same : content.unlinked = content'.unlinked) :
    content.totalLen = content'.totalLen ∧ content.doneLen = content'.doneLen ∧
      content.cookieSave = content'.cookieSave ∧ content.buf = content'.buf := by
  cases content
  cases content'
  cases same
  exact ⟨rfl, rfl, rfl, rfl⟩

/-- Only the message is worked on, under its descriptor. -/
structure Touches (dir : Dir) (handle : UInt32) (msg : Ptr) (before after : Server) : Prop where
  content : ∀ m, m ≠ msg → (after.msgs m).unlinked = (before.msgs m).unlinked
  parts : ∀ d m, m ≠ msg → parts d m after.journal = parts d m before.journal
  holder : ∀ d h, ¬(d = dir ∧ h = handle) →
    holder d h after.journal = holder d h before.journal
  protocol : ∀ record, (after.records record).map Socket.protocol =
    (before.records record).map Socket.protocol

namespace Touches

variable {config : Config} {dir : Dir} {handle : UInt32} {msg m record : Ptr}
  {before middle after : Server} {socket : Socket} {async : Async} {answer : Answer}

theorem refl (s : Server) : Touches dir handle msg s s :=
  ⟨fun _ _ => rfl, fun _ _ _ => rfl, fun _ _ _ => rfl, fun _ => rfl⟩

theorem trans (first : Touches dir handle msg before middle)
    (second : Touches dir handle msg middle after) : Touches dir handle msg before after where
  content m other := (second.content m other).trans (first.content m other)
  parts d m other := (second.parts d m other).trans (first.parts d m other)
  holder d h other := (second.holder d h other).trans (first.holder d h other)
  protocol record := (second.protocol record).trans (first.protocol record)

theorem setMsg (s : Server) (content : Msg) : Touches dir handle msg s (s.setMsg msg content) where
  content _ other := congrArg Msg.unlinked (Function.update_of_ne other _ _)
  parts _ _ _ := rfl
  holder _ _ _ := rfl
  protocol _ := rfl

theorem setLink (s : Server) (next : Option Ptr) :
    Touches dir handle msg s (s.setMsg m { s.msgs m with next }) where
  content other _ := by
    by_cases here : other = m
    · rw [here]
      simp [Server.setMsg, Msg.unlinked]
    · exact congrArg Msg.unlinked (Function.update_of_ne here _ _)
  parts _ _ _ := rfl
  holder _ _ _ := rfl
  protocol _ := rfl

theorem setQueue (s : Server) (d : Dir) (queue : Virtqueue) :
    Touches dir handle msg s (s.setQueue d queue) := by
  cases d with
  | tx | rx => exact ⟨fun _ _ => rfl, fun _ _ _ => rfl, fun _ _ _ => rfl, fun _ => rfl⟩

theorem setAsync {s : Server} (held : s.records record = some socket) (async : Option Async) :
    Touches dir handle msg s (s.setRecord record { socket with asyncTransport := async }) where
  content _ _ := rfl
  parts _ _ _ := rfl
  holder _ _ _ := rfl
  protocol other := by
    by_cases here : other = record
    · subst here
      simp [Server.setRecord, held]
    · exact congrArg (Option.map _) (Function.update_of_ne here _ _)

theorem completes (s : Server) (d : Dir) (receiver : Option Ptr) (len : UInt64) :
    Touches dir handle msg s (complete config d s receiver m handle len) := by
  have flagged : Touches dir handle msg s { s with emitClientAsync := true } :=
    ⟨fun _ _ => rfl, fun _ _ _ => rfl, fun _ _ _ => rfl, fun _ => rfl⟩
  rw [complete]
  dsimp only
  split
  · next queue _ =>
    refine flagged.trans ((setQueue _ d queue).trans ⟨fun _ _ => rfl, fun d m _ => ?_,
      fun d h _ => ?_, fun _ => rfl⟩)
    · exact parts_completed
    · exact holder_completed
  · exact flagged

theorem take (s : Server) : Touches dir handle msg s (s.take dir record handle msg) := by
  refine (setQueue s dir _).trans ⟨fun _ _ => rfl, fun d m other => ?_, fun d h other => ?_,
    fun _ => rfl⟩
  · exact parts_took.trans (if_neg fun same => other same.2.symm)
  · exact holder_took.trans (if_neg fun same => other ⟨same.1.symm, same.2.symm⟩)

theorem transfers (s : Server) (protocol : Protocol) (offset : UInt64) :
    Touches dir handle msg s (transfer dir s protocol record msg offset answer) := by
  have moves : ∀ (s : Server) bytes,
      Touches dir handle msg s (s.note (.moved dir record msg offset bytes)) := by
    intro s bytes
    refine ⟨fun _ _ => rfl, fun d m other => ?_, fun d h _ => holder_moved, fun _ => rfl⟩
    exact parts_moved.trans (if_neg fun same => other same.2.symm)
  cases dir with
  | tx => exact moves s _
  | rx => exact (setMsg s _).trans (moves _ _)

theorem finishes (s : Server) (doneLen len : UInt64) :
    Touches dir handle msg s (finish config dir s record handle msg doneLen len) :=
  (setMsg s _).trans (completes _ dir (some record) len)

theorem pops {s : Server} (held : s.records record = some socket) (doneLen len : UInt64) :
    Touches dir (s.msgs msg).cookieSave msg s
      (popComplete config dir s record socket async msg doneLen len) :=
  ((setMsg s _).trans (setAsync (s := s.setMsg msg _) held _)).trans (completes _ dir (some record) len)

end Touches

/-! ## The message that is worked on -/

structure Course where
  parts : List (UInt64 × List UInt8)
  doneLen : UInt64
  /-- It has not been completed. -/
  pending : Bool

/-- `done_len` of a message that is served to its end. -/
def finalLen (dir : Dir) (totalLen doneLen : UInt64) (ret : Int32) : UInt64 :=
  match dir with
  | .tx => totalLen
  | .rx => doneLen + sizeT ret

def Course.serve (course : Course) (dir : Dir) (protocol : Protocol) (content : Msg)
    (answer : Answer) : Course :=
  if answer.ret = -1 then { course with doneLen := -1, pending := false }
  else
    let parts := course.parts ++ [(course.doneLen, content.bytes dir course.doneLen answer)]
    if waits dir protocol answer.ret (content.totalLen - course.doneLen) then
      ⟨parts, course.doneLen + sizeT answer.ret, true⟩
    else ⟨parts, finalLen dir content.totalLen course.doneLen answer.ret, false⟩

def Action.isCompletion : Action → Bool
  | .completed .. => true
  | _ => false

/-- The message has come this far. If it is completed, it goes to the used ring with this length. -/
structure Works (config : Config) (dir : Dir) (receiver : Option Ptr) (handle : UInt32) (msg : Ptr)
    (course : Course) (len : UInt64) (s after : Server) (waiting waiting' : Dir → Ptr → List Ptr) :
    Prop where
  owned : Owned config.ringSize after.view waiting'
  others : ∀ d r m, m ≠ msg → (m ∈ waiting' d r ↔ m ∈ waiting d r)
  own : ∀ d r, msg ∈ waiting' d r ↔ course.pending = true ∧ d = dir ∧ some r = receiver
  touches : Touches dir handle msg s after
  totalLen : (after.msgs msg).totalLen = (s.msgs msg).totalLen
  sends : dir = .tx → (after.msgs msg).buf = (s.msgs msg).buf
  doneLen : (after.msgs msg).doneLen = course.doneLen
  cookie : course.pending = true → (after.msgs msg).cookieSave = handle
  parts : parts dir msg after.journal = course.parts
  holder : holder dir handle s.journal = some msg ∨ (handle, msg) ∈ (s.queue dir).available →
    holder dir handle after.journal = some msg
  available : ∀ d h m, (h, m) ∈ (after.queue d).available →
    (h, m) ∈ (s.queue d).available ∧ m ≠ msg
  journal : ∃ more, (∀ action ∈ more, action.isCompletion = false) ∧
    after.journal = s.journal ++ more ++
      if course.pending then [] else [.completed dir receiver handle len (after.msgs msg)]

section
variable {config : Config} {dir : Dir} {handle : UInt32} {msg record : Ptr} {receiver : Option Ptr}
  {s after : Server} {socket : Socket} {async : Async} {answer : Answer} {doneLen len : UInt64}
  {waiting : Dir → Ptr → List Ptr}

theorem complete_msgs (d : Dir) :
    (complete config d s receiver msg handle len).msgs = s.msgs := by
  rw [complete]
  dsimp only
  split
  · simp [Server.note]
  · rfl

theorem complete_journal (room : (s.queue dir).used.length < config.ringSize) :
    (complete config dir s receiver msg handle len).journal =
      s.journal ++ [.completed dir receiver handle len (s.msgs msg)] := by
  have view : (complete config dir s receiver msg handle len).view =
      s.view.complete dir receiver msg handle len := view_complete room
  exact congrArg View.journal view

theorem complete_available_eq (d : Dir) :
    ((complete config dir s receiver msg handle len).queue d).available =
      (s.queue d).available := by
  by_cases here : d = dir
  · rw [here, complete_available]
  · have flagged : ({ s with emitClientAsync := true } : Server).queue d = s.queue d := by
      cases d with
      | tx | rx => rfl
    rw [complete]
    dsimp only
    split
    · rw [Server.queue_note, Server.queue_setQueue_of_ne _ here, flagged]
    · rw [flagged]

@[simp] theorem transferred_totalLen {content : Msg} {protocol : Protocol} {offset : UInt64} :
    (content.transferred dir protocol offset answer).totalLen = content.totalLen := by
  cases dir with
  | tx => rfl
  | rx => cases protocol with | tcp | udp => rfl

theorem transfer_journal (protocol : Protocol) (offset : UInt64) :
    (transfer dir s protocol record msg offset answer).journal = s.journal ++
      [.moved dir record msg offset ((s.msgs msg).bytes dir offset answer)] := by
  cases dir with
  | tx | rx => rfl

structure Asked (dir : Dir) (handle : UInt32) (msg : Ptr) (moved : List (UInt64 × List UInt8))
    (s after : Server) : Prop where
  touches : Touches dir handle msg s after
  totalLen : (after.msgs msg).totalLen = (s.msgs msg).totalLen
  sends : dir = .tx → (after.msgs msg).buf = (s.msgs msg).buf
  parts : parts dir msg after.journal = moved
  holder : holder dir handle s.journal = some msg ∨ (handle, msg) ∈ (s.queue dir).available →
    holder dir handle after.journal = some msg
  used : ((after.queue dir).used) = (s.queue dir).used
  available : ∀ d h m, (h, m) ∈ (after.queue d).available →
    (h, m) ∈ (s.queue d).available ∧ m ≠ msg
  journal : ∃ more, (∀ action ∈ more, action.isCompletion = false) ∧
    after.journal = s.journal ++ more

namespace Asked

variable {t : Server} {moved : List (UInt64 × List UInt8)} {waiting' : Dir → Ptr → List Ptr}
  {course : Course}

theorem refl (free : ∀ d h, (h, msg) ∉ (s.queue d).available) :
    Asked dir handle msg (PicoServer.parts dir msg s.journal) s s where
  touches := .refl s
  totalLen := rfl
  sends _ := rfl
  parts := rfl
  holder known := known.resolve_right (free dir handle)
  used := rfl
  available d h _ member := ⟨member, fun same => free d h (same ▸ member)⟩
  journal := ⟨[], nofun, (List.append_nil _).symm⟩

theorem transfer (asked : Asked dir handle msg moved s t) (protocol : Protocol) (record : Ptr)
    (answer : Answer) (offset : UInt64) :
    Asked dir handle msg (moved ++ [(offset, (t.msgs msg).bytes dir offset answer)]) s
      (transfer dir t protocol record msg offset answer) where
  touches := asked.touches.trans (.transfers t protocol offset)
  totalLen := by rw [transfer_msg, transferred_totalLen, asked.totalLen]
  sends send := by
    subst send
    rw [transfer_msg]
    exact asked.sends rfl
  parts := by rw [transfer_journal, parts_moved, if_pos ⟨rfl, rfl⟩, asked.parts]
  holder known := by rw [transfer_journal, holder_moved, asked.holder known]
  used := by rw [transfer_queue, asked.used]
  available d h m := by
    rw [transfer_queue]
    exact asked.available d h m
  journal := by
    obtain ⟨more, quiet, journal⟩ := asked.journal
    refine ⟨more ++ [_], fun action member => ?_, by
      rw [transfer_journal, journal, List.append_assoc]⟩
    rcases List.mem_append.mp member with earlier | last
    · exact quiet action earlier
    · rw [List.mem_singleton.mp last]
      rfl

theorem setMsg (asked : Asked dir handle msg moved s t) {content : Msg}
    (totalLen : content.totalLen = (t.msgs msg).totalLen)
    (buf : content.buf = (t.msgs msg).buf) :
    Asked dir handle msg moved s (t.setMsg msg content) :=
  { asked with
    touches := asked.touches.trans (.setMsg t content)
    totalLen := by
      rw [← asked.totalLen, ← totalLen]
      exact congrArg Msg.totalLen (Function.update_self _ _ _)
    sends := fun send => by
      rw [← asked.sends send, ← buf]
      exact congrArg Msg.buf (Function.update_self _ _ _)
    used := by rw [Server.queue_setMsg, asked.used]
    available := fun d h m => by
      rw [Server.queue_setMsg]
      exact asked.available d h m }

theorem setAsync (asked : Asked dir handle msg moved s t)
    (held : t.records record = some socket) (async : Option Async) :
    Asked dir handle msg moved s (t.setRecord record { socket with asyncTransport := async }) :=
  { asked with
    touches := asked.touches.trans (.setAsync held async)
    used := by rw [Server.queue_setRecord, asked.used]
    available := fun d h m => by
      rw [Server.queue_setRecord]
      exact asked.available d h m }

theorem setLink {m : Ptr} (asked : Asked dir handle msg moved s t) (other : m ≠ msg)
    (next : Option Ptr) : Asked dir handle msg moved s (t.setMsg m { t.msgs m with next }) := by
  have same : (t.setMsg m { t.msgs m with next }).msgs msg = t.msgs msg :=
    Function.update_of_ne other.symm _ _
  exact { asked with
    touches := asked.touches.trans (.setLink t next)
    totalLen := by rw [same, asked.totalLen]
    sends := fun send => by rw [same, asked.sends send]
    used := by rw [Server.queue_setMsg, asked.used]
    available := fun d h m => by
      rw [Server.queue_setMsg]
      exact asked.available d h m }

theorem waits (asked : Asked dir handle msg moved s after)
    (owned : Owned config.ringSize after.view waiting')
    (others : ∀ d r m, m ≠ msg → (m ∈ waiting' d r ↔ m ∈ waiting d r))
    (own : ∀ d r, msg ∈ waiting' d r ↔ d = dir ∧ some r = receiver)
    (done : (after.msgs msg).doneLen = doneLen) (cookie : (after.msgs msg).cookieSave = handle) :
    Works config dir receiver handle msg ⟨moved, doneLen, true⟩ len s after waiting waiting' :=
  { asked with
    owned, others
    own := fun d r => by simp [own]
    doneLen := done
    cookie := fun _ => cookie
    journal := by simpa using asked.journal }

theorem completes (asked : Asked dir handle msg moved s t)
    (room : (s.queue dir).used.length < config.ringSize)
    (owned : Owned config.ringSize (complete config dir t receiver msg handle len).view waiting')
    (others : ∀ d r m, m ≠ msg → (m ∈ waiting' d r ↔ m ∈ waiting d r))
    (own : ∀ d r, msg ∉ waiting' d r) (done : (t.msgs msg).doneLen = doneLen) :
    Works config dir receiver handle msg ⟨moved, doneLen, false⟩ len s
      (complete config dir t receiver msg handle len) waiting waiting' := by
  have journal : (complete config dir t receiver msg handle len).journal =
      t.journal ++ [.completed dir receiver handle len (t.msgs msg)] :=
    complete_journal (asked.used ▸ room)
  exact {
    owned, others
    own := fun d r => by simp [own]
    touches := asked.touches.trans (.completes t dir receiver len)
    totalLen := by rw [complete_msgs, asked.totalLen]
    sends := fun send => by rw [complete_msgs, asked.sends send]
    doneLen := by rw [complete_msgs, done]
    cookie := nofun
    parts := by rw [journal, parts_completed, asked.parts]
    holder := fun known => by rw [journal, holder_completed, asked.holder known]
    available := fun d h m => by
      rw [complete_available_eq]
      exact asked.available d h m
    journal := by
      obtain ⟨more, quiet, early⟩ := asked.journal
      refine ⟨more, quiet, ?_⟩
      rw [journal, early, complete_msgs]
      rfl }

theorem setMsg_self (content : Msg) : (t.setMsg msg content).msgs msg = content :=
  Function.update_self _ _ _

theorem pops (asked : Asked dir handle msg moved s t) (held : t.records record = some socket)
    (cookie : (t.msgs msg).cookieSave = handle)
    (room : (s.queue dir).used.length < config.ringSize)
    (owned : Owned config.ringSize
      (popComplete config dir t record socket async msg doneLen len).view waiting')
    (others : ∀ d r m, m ≠ msg → (m ∈ waiting' d r ↔ m ∈ waiting d r))
    (own : ∀ d r, msg ∉ waiting' d r) :
    Works config dir (some record) handle msg ⟨moved, doneLen, false⟩ len s
      (popComplete config dir t record socket async msg doneLen len) waiting waiting' := by
  subst cookie
  have set : Asked dir (t.msgs msg).cookieSave msg moved s
      (t.setMsg msg { t.msgs msg with doneLen }) := asked.setMsg rfl rfl
  have done : ((t.setMsg msg { t.msgs msg with doneLen }).msgs msg).doneLen = doneLen := by
    rw [setMsg_self]
  exact (set.setAsync held _).completes room owned others own done

theorem finishes (asked : Asked dir handle msg moved s t)
    (room : (s.queue dir).used.length < config.ringSize)
    (owned : Owned config.ringSize (finish config dir t record handle msg doneLen len).view waiting')
    (others : ∀ d r m, m ≠ msg → (m ∈ waiting' d r ↔ m ∈ waiting d r))
    (own : ∀ d r, msg ∉ waiting' d r) :
    Works config dir (some record) handle msg ⟨moved, doneLen, false⟩ len s
      (finish config dir t record handle msg doneLen len) waiting waiting' := by
  have set : Asked dir handle msg moved s (t.setMsg msg { t.msgs msg with doneLen }) :=
    asked.setMsg rfl rfl
  have done : ((t.setMsg msg { t.msgs msg with doneLen }).msgs msg).doneLen = doneLen := by
    rw [setMsg_self]
  exact set.completes room owned others own done

end Asked

/-! ## One turn -/

namespace Course

variable {protocol : Protocol} (course : Course) (content : Msg)

theorem serve_failed (failed : answer.ret = -1) :
    course.serve dir protocol content answer = { course with doneLen := -1, pending := false } :=
  if_pos failed

theorem serve_short (answered : answer.ret ≠ -1)
    (short : PicoServer.waits dir protocol answer.ret (content.totalLen - course.doneLen)) :
    course.serve dir protocol content answer =
      ⟨course.parts ++ [(course.doneLen, content.bytes dir course.doneLen answer)],
        course.doneLen + sizeT answer.ret, true⟩ := by
  rw [serve, if_neg answered]
  exact if_pos short

theorem serve_full (answered : answer.ret ≠ -1)
    (full : ¬PicoServer.waits dir protocol answer.ret (content.totalLen - course.doneLen)) :
    course.serve dir protocol content answer =
      ⟨course.parts ++ [(course.doneLen, content.bytes dir course.doneLen answer)],
        finalLen dir content.totalLen course.doneLen answer.ret, false⟩ := by
  rw [serve, if_neg answered]
  exact if_neg full

end Course

def Server.course (s : Server) (dir : Dir) (msg : Ptr) : Course :=
  ⟨parts dir msg s.journal, (s.msgs msg).doneLen, true⟩

theorem Owned.waiting_nodup (owned : Owned config.ringSize s.view waiting) (d : Dir) (r : Ptr) :
    (waiting d r).Nodup := by
  cases held : s.view.transport r with
  | none =>
    rw [owned.idle d r held]
    exact List.nodup_nil
  | some async => exact (owned.linked d r async held).1.nodup

theorem Owned.without_first {rest : List Ptr} (owned : Owned config.ringSize s.view waiting)
    (front : waiting dir record = msg :: rest) :
    (∀ d r m, m ≠ msg → (m ∈ place waiting dir record rest d r ↔ m ∈ waiting d r)) ∧
      ∀ d r, msg ∉ place waiting dir record rest d r := by
  have waits : msg ∈ waiting dir record := front ▸ List.mem_cons_self
  refine ⟨fun d r m other => ?_, fun d r => ?_⟩
  · rw [place_apply]
    split
    · next same => rw [same.1, same.2, front, List.mem_cons, or_iff_right other]
    · exact Iff.rfl
  · rw [place_apply]
    split
    · have nodup := owned.waiting_nodup dir record
      rw [front] at nodup
      exact (List.nodup_cons.mp nodup).1
    · next elsewhere => exact fun again => elsewhere (owned.waits_once waits again)

theorem with_last (dir : Dir) (record : Ptr) (nowhere : ∀ d r, msg ∉ waiting d r) :
    (∀ d r m, m ≠ msg →
      (m ∈ place waiting dir record (waiting dir record ++ [msg]) d r ↔ m ∈ waiting d r)) ∧
      ∀ d r, msg ∈ place waiting dir record (waiting dir record ++ [msg]) d r ↔
        d = dir ∧ some r = some record := by
  refine ⟨fun d r m other => ?_, fun d r => ?_⟩
  · rw [place_apply]
    split
    · next same =>
      rw [same.1, same.2, List.mem_append, List.mem_singleton, or_iff_left other]
    · exact Iff.rfl
  · rw [place_apply, Option.some.injEq]
    split
    · next same => exact iff_of_true (List.mem_append_right _ (List.mem_singleton_self msg)) same
    · next elsewhere => exact iff_of_false (nowhere d r) elsewhere

theorem popLen_eq (content : Msg) (ret : Int32) :
    popLen dir content ret = finalLen dir content.totalLen content.doneLen ret := by
  cases dir with
  | tx | rx => rfl

/-- `tx_socket` and `rx_socket` go on where the message is. -/
theorem Iterates.works {more : Bool} (owned : Owned config.ringSize s.view waiting)
    (head : Head s dir record socket async msg)
    (iterates : Iterates config dir s record socket async msg answer after more) :
    ∃ waiting', Works config dir (some record) (s.msgs msg).cookieSave msg
      ((s.course dir msg).serve dir socket.protocol (s.msgs msg) answer)
      (if answer.ret = -1 then 0 else (s.msgs msg).totalLen) s after waiting waiting' := by
  obtain ⟨rest, front⟩ := owned.head head
  have waits : msg ∈ waiting dir record := front ▸ List.mem_cons_self
  have room := owned.used_lt (owned.waiting_lent waits)
  obtain ⟨others, own⟩ := owned.without_first front
  have asked : Asked dir (s.msgs msg).cookieSave msg (parts dir msg s.journal) s s :=
    .refl fun d h available => owned.available_waits available waits
  have moved := asked.transfer socket.protocol record answer (s.msgs msg).doneLen
  have held : ∀ offset, (transfer dir s socket.protocol record msg offset answer).records record =
      some socket := by
    intro offset
    cases dir with
    | tx | rx => exact head.held
  have cookie : ∀ offset, ((transfer dir s socket.protocol record msg offset answer).msgs
      msg).cookieSave = (s.msgs msg).cookieSave := by
    intro offset
    rw [transfer_msg, transferred_cookieSave]
  cases iterates with
  | drop failed =>
    rw [Course.serve_failed _ _ failed, if_pos failed]
    exact ⟨_, asked.pops head.held rfl room (owned.dropped head front) others own⟩
  | advance transfers short =>
    rw [Course.serve_short (s.course dir msg) (s.msgs msg) transfers.ret short]
    specialize cookie (s.msgs msg).doneLen
    generalize state : transfer dir s socket.protocol record msg (s.msgs msg).doneLen answer = t
      at moved cookie ⊢
    have advanced : Owned config.ringSize (t.setMsg msg { t.msgs msg with
        doneLen := (s.msgs msg).doneLen + sizeT answer.ret }).view waiting := by
      rw [← state]
      exact owned.advanced
    have set : Asked dir (s.msgs msg).cookieSave msg _ s (t.setMsg msg { t.msgs msg with
        doneLen := (s.msgs msg).doneLen + sizeT answer.ret }) := moved.setMsg rfl rfl
    refine ⟨waiting, set.waits advanced (fun _ _ _ _ => Iff.rfl)
      (fun d r => ⟨fun again => ?_, fun same => ?_⟩) ?_ ?_⟩
    · obtain ⟨rfl, rfl⟩ := owned.waits_once waits again
      exact ⟨rfl, rfl⟩
    · obtain ⟨rfl, here⟩ := same
      exact Option.some.inj here ▸ waits
    · rw [Asked.setMsg_self]
      rfl
    · rw [Asked.setMsg_self]
      exact cookie
  | pop transfers full =>
    rw [Course.serve_full (s.course dir msg) (s.msgs msg) transfers.ret full, if_neg transfers.ret,
      popLen_eq]
    exact ⟨_, moved.pops (held _) (cookie _) room (owned.popped head front) others own⟩

theorem Owned.drops_first (owned : Owned config.ringSize s.view waiting)
    (head : Head s dir record socket async msg) :
    ∃ waiting', Works config dir (some record) (s.msgs msg).cookieSave msg
      { s.course dir msg with doneLen := -1, pending := false } 0 s
      (popComplete config dir s record socket async msg (-1) 0) waiting waiting' := by
  have iterates : Iterates config dir s record socket async msg ⟨-1, [], 0, 0⟩
      (popComplete config dir s record socket async msg (-1) 0) (dir = .tx) := .drop rfl
  obtain ⟨waiting', works⟩ := iterates.works owned head
  rw [Course.serve_failed _ _ rfl, if_pos rfl] at works
  exact ⟨waiting', works⟩

theorem Owned.still_available (owned : Owned config.ringSize s.view waiting)
    (front : (s.queue dir).available.head? = some (handle, msg)) {d : Dir} {h : UInt32} {m : Ptr}
    (member : (h, m) ∈ ((s.dequeue dir).queue d).available) :
    (h, m) ∈ (s.queue d).available ∧ m ≠ msg := by
  have first := owned.available_lent (List.mem_of_head? front)
  by_cases here : d = dir
  · subst here
    rw [dequeue_available] at member
    have inside := List.mem_of_mem_tail member
    refine ⟨inside, ?_⟩
    rintro rfl
    have again : (h, m) ∈ (s.view.queue d).lent := owned.available_lent inside
    obtain ⟨-, rfl⟩ := owned.lent_once first again
    obtain ⟨rest, available⟩ := List.head?_eq_some_iff.mp front
    have nodup := owned.available d
    change (s.queue d).available.Nodup at nodup
    rw [available] at nodup member
    exact (List.nodup_cons.mp nodup).1 member
  · rw [Server.dequeue, Server.queue_setQueue_of_ne s here] at member
    refine ⟨member, ?_⟩
    rintro rfl
    exact here (owned.lent_once first (owned.available_lent member)).1

theorem Asked.dequeued (owned : Owned config.ringSize s.view waiting)
    (front : (s.queue dir).available.head? = some (handle, msg)) (receiver : Option Ptr) :
    Asked dir handle msg [] s
      ((s.dequeue dir).note (.took dir receiver handle msg (s.msgs msg))) where
  touches := by
    refine (Touches.setQueue s dir _).trans ⟨fun _ _ => rfl, fun d m other => ?_,
      fun d h other => ?_, fun _ => rfl⟩
    · exact parts_took.trans (if_neg fun same => other same.2.symm)
    · exact holder_took.trans (if_neg fun same => other ⟨same.1.symm, same.2.symm⟩)
  totalLen := by simp [Server.note, Server.dequeue]
  sends _ := by simp [Server.note, Server.dequeue]
  parts := parts_took.trans (if_pos ⟨rfl, rfl⟩)
  holder _ := holder_took.trans (if_pos ⟨rfl, rfl⟩)
  used := by simp [Server.dequeue]
  available d h m := by
    rw [Server.queue_note]
    exact owned.still_available front
  journal := ⟨[.took dir receiver handle msg (s.msgs msg)], by simp [Action.isCompletion],
    by simp [Server.note, Server.dequeue]⟩

theorem refuse_works (owned : Owned config.ringSize s.view waiting)
    (front : (s.queue dir).available.head? = some (handle, msg)) :
    Works config dir none handle msg ⟨[], -1, false⟩ 0 s
      (refuse config dir (s.dequeue dir) handle msg) waiting waiting := by
  have room := owned.used_lt (owned.front front)
  have asked := Asked.dequeued owned front none
  have refused := owned.refused front
  have msgs : (s.dequeue dir).msgs = s.msgs := by rw [Server.dequeue, Server.msgs_setQueue]
  unfold refuse at refused ⊢
  dsimp only at refused ⊢
  rw [msgs] at refused ⊢
  have same : ((s.dequeue dir).note (.took dir none handle msg (s.msgs msg))).msgs msg =
    s.msgs msg := congrFun msgs msg
  generalize (s.dequeue dir).note (.took dir none handle msg (s.msgs msg)) = t
    at asked refused same ⊢
  have set : Asked dir handle msg [] s (t.setMsg msg { s.msgs msg with doneLen := -1 }) :=
    asked.setMsg (by rw [same]) (by rw [same])
  refine set.completes room refused (fun _ _ _ _ => Iff.rfl) (fun d r again => ?_) ?_
  · exact owned.available_waits (List.mem_of_head? front) again
  · rw [Asked.setMsg_self]

/-- `tx_queue_handle` and `rx_queue_handle` start at offset 0. -/
theorem Serves.works (owned : Owned config.ringSize s.view waiting)
    (taken : Taken s dir handle msg record socket async) (free : (async.pending dir).queue = none)
    (serves : Serves config dir (s.take dir record handle msg) record socket async handle msg answer
      after) :
    ∃ waiting', Works config dir (some record) handle msg
      ((⟨[], 0, true⟩ : Course).serve dir socket.protocol (s.msgs msg) answer)
      (if answer.ret = -1 then 0 else directLen dir (s.msgs msg).totalLen answer.ret) s after
      waiting waiting' := by
  have front := taken.available
  have room := owned.used_lt (owned.front front)
  have nowhere : ∀ d r, msg ∉ waiting d r :=
    fun d r => owned.available_waits (List.mem_of_head? front)
  have asked : Asked dir handle msg [] s (s.take dir record handle msg) :=
    .dequeued owned front (some record)
  have moved := asked.transfer socket.protocol record answer 0
  rw [take_msgs] at moved
  cases serves with
  | fail failed =>
    rw [Course.serve_failed _ _ failed, if_pos failed]
    exact ⟨_, asked.finishes room (owned.failed taken) (fun _ _ _ _ => Iff.rfl) nowhere⟩
  | park transfers short =>
    rw [take_msgs] at transfers short
    rw [Course.serve_short ⟨[], 0, true⟩ (s.msgs msg) transfers.ret (by simpa using short)]
    obtain ⟨others, own⟩ := with_last dir record nowhere
    have parked := owned.parked answer (sizeT answer.ret) taken free
    have held : (transfer dir (s.take dir record handle msg) socket.protocol record msg 0
        answer).records record = some socket := by
      cases dir with
      | tx | rx => exact taken.held
    unfold PicoServer.park at parked ⊢
    generalize transfer dir (s.take dir record handle msg) socket.protocol record msg 0 answer = t
      at moved parked held ⊢
    have set : Asked dir handle msg _ s (t.setMsg msg { t.msgs msg with
        doneLen := sizeT answer.ret, cookieSave := handle, next := none }) := moved.setMsg rfl rfl
    have again := set.setAsync held
      (some (async.setPending dir ⟨some msg, some msg⟩))
    refine ⟨_, again.waits parked others own ?_ ?_⟩
    · refine (congrArg Msg.doneLen (Asked.setMsg_self _)).trans ?_
      simp
    · exact congrArg Msg.cookieSave (Asked.setMsg_self _)
  | finish transfers full =>
    rw [take_msgs] at transfers full ⊢
    rw [Course.serve_full ⟨[], 0, true⟩ (s.msgs msg) transfers.ret (by simpa using full),
      if_neg transfers.ret]
    have same : directLen dir (s.msgs msg).totalLen answer.ret =
        finalLen dir (s.msgs msg).totalLen 0 answer.ret := by
      cases dir with
      | tx => rfl
      | rx => simp [directLen, finalLen]
    rw [same]
    exact ⟨_, moved.finishes room (owned.finished taken) (fun _ _ _ _ => Iff.rfl) nowhere⟩

/-- A message that goes behind others keeps what its client has left in it. -/
theorem append_works {queueEnd : Ptr} (owned : Owned config.ringSize s.view waiting)
    (taken : Taken s dir handle msg record socket async)
    (last : (async.pending dir).queueEnd = some queueEnd) :
    ∃ waiting', Works config dir (some record) handle msg ⟨[], (s.msgs msg).doneLen, true⟩ 0 s
      (append dir (s.take dir record handle msg) record socket async handle msg queueEnd) waiting
      waiting' := by
  have front := taken.available
  have nowhere : ∀ d r, msg ∉ waiting d r :=
    fun d r => owned.available_waits (List.mem_of_head? front)
  have asked : Asked dir handle msg [] s (s.take dir record handle msg) :=
    .dequeued owned front (some record)
  have linked := owned.linked dir record async taken.transport_eq
  rw [last] at linked
  have other : queueEnd ≠ msg := by
    rintro rfl
    exact nowhere dir record (List.mem_of_getLast? linked.2.symm)
  obtain ⟨others, own⟩ := with_last dir record nowhere
  have appended := owned.appended taken last
  have held : (s.take dir record handle msg).records record = some socket := by
    cases dir with
    | tx | rx => exact taken.held
  have same : (s.take dir record handle msg).msgs msg = s.msgs msg := by rw [take_msgs]
  unfold append at appended ⊢
  generalize s.take dir record handle msg = t at asked appended held same ⊢
  have first : (t.setMsg queueEnd { t.msgs queueEnd with next := some msg }).msgs msg = t.msgs msg :=
    Function.update_of_ne other.symm _ _
  have linkedTo := asked.setLink other (some msg)
  have held : (t.setMsg queueEnd { t.msgs queueEnd with next := some msg }).records record =
      some socket := held
  dsimp only at appended ⊢
  generalize t.setMsg queueEnd { t.msgs queueEnd with next := some msg } = u
    at linkedTo appended first held ⊢
  generalize transport : some (async.setPending dir
    { async.pending dir with queueEnd := some msg }) = lists at appended ⊢
  have queued := linkedTo.setAsync held lists
  have content : (u.setRecord record { socket with asyncTransport := lists }).msgs msg =
      s.msgs msg := first.trans same
  generalize u.setRecord record { socket with asyncTransport := lists } = w
    at queued appended content ⊢
  have set : Asked dir handle msg [] s
      (w.setMsg msg { w.msgs msg with next := none, cookieSave := handle }) := queued.setMsg rfl rfl
  refine ⟨_, set.waits appended others own ?_ ?_⟩
  · rw [Asked.setMsg_self, content]
  · rw [Asked.setMsg_self]

end

end GlobalComponents.PicoServer
