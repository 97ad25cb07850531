import GlobalComponents.PicoServer.Lengths

/-! Two ways of a message through the server.

A message that finds nothing in front of it is served when it is dequeued, from offset 0. One that
waits is served later, from the offset that its `done_len` names. The stack's answers being the same,
the two ways can be compared.
-/

set_option autoImplicit false

namespace GlobalComponents.PicoServer

open Library

/-! ## What the stack is asked -/

/-- A call of the stack: the part of the message's buffer that it is handed, and its answer. -/
structure Handing where
  offset : UInt64
  requested : UInt64
  answer : Answer

def Handing.reached (handing : Handing) : Nat :=
  handing.offset.toNat + (sizeT handing.answer.ret).toNat

/-- Every part starts where the one before has ended, the first one at 0, and each reaches up to the
end of the message. -/
structure Contiguous (totalLen : UInt64) (handings : List Handing) : Prop where
  first : ∀ handing ∈ handings.head?, handing.offset = 0
  next : handings.IsChain fun handing next => next.offset.toNat = handing.reached
  inside : ∀ handing ∈ handings,
    handing.offset.toNat + handing.requested.toNat = totalLen.toNat

/-- The stack serves a message answer by answer. -/
inductive Follows (content : Msg) (dir : Dir) (protocol : Protocol) (start : Course) :
    List Handing → Course → Prop where
  | start : Follows content dir protocol start [] start
  | serve {handings : List Handing} {course : Course} {answer : Answer} :
      Follows content dir protocol start handings course → course.pending = true →
      answer.fits dir (content.totalLen - course.doneLen) = true →
      Follows content dir protocol start
        (handings ++ [⟨course.doneLen, content.totalLen - course.doneLen, answer⟩])
        (course.serve dir protocol content answer)

section
variable {content : Msg} {dir : Dir} {protocol : Protocol} {start course course' : Course}
  {handings handings' : List Handing} {answer : Answer}

theorem Follows.deterministic (left : Follows content dir protocol start handings course)
    (right : Follows content dir protocol start handings' course')
    (same : handings.map Handing.answer = handings'.map Handing.answer) :
    handings = handings' ∧ course = course' := by
  -- from the last answer back: both lists end with the same one
  induction left generalizing handings' course' with
  | start =>
    generalize here : handings' = all at right same
    cases right with
    | start => exact ⟨rfl, rfl⟩
    | serve => simp at same
  | @serve handings course answer left pending fits ih =>
    cases right with
    | start => simp at same
    | @serve handings' course' answer' right _ _ =>
      rw [List.map_append, List.map_append] at same
      obtain ⟨early, last⟩ := List.append_inj' same rfl
      obtain ⟨rfl, rfl⟩ := ih right early
      obtain rfl : answer = answer' := by simpa using last
      exact ⟨rfl, rfl⟩

theorem Follows.head (pending : start.pending = true)
    (fits : answer.fits dir (content.totalLen - start.doneLen) = true)
    (rest : Follows content dir protocol (start.serve dir protocol content answer) handings course) :
    Follows content dir protocol start
      (⟨start.doneLen, content.totalLen - start.doneLen, answer⟩ :: handings) course := by
  induction rest with
  | start => exact Follows.start.serve pending fits
  | serve _ pending' fits' ih => exact ih.serve pending' fits'

theorem Follows.of_nil (follows : Follows content dir protocol start [] course) : course = start := by
  generalize none : ([] : List Handing) = handings at follows
  cases follows with
  | start => rfl
  | serve => simp at none

theorem Follows.first (follows : Follows content dir protocol start handings course) :
    ∀ handing ∈ handings.head?, handing.offset = start.doneLen := by
  induction follows with
  | start => nofun
  | @serve handings course answer follows _ _ ih =>
    cases handings with
    | nil => simp [follows.of_nil]
    | cons handing handings => exact ih

theorem serve_reached (bound : course.doneLen.toNat ≤ content.totalLen.toNat)
    (fits : answer.fits dir (content.totalLen - course.doneLen) = true)
    (more : (course.serve dir protocol content answer).pending = true) :
    (course.serve dir protocol content answer).doneLen.toNat =
        course.doneLen.toNat + (sizeT answer.ret).toNat ∧
      (course.serve dir protocol content answer).doneLen.toNat ≤ content.totalLen.toNat := by
  by_cases failed : answer.ret = -1
  · rw [Course.serve_failed _ _ failed] at more
    cases more
  by_cases short : waits dir protocol answer.ret (content.totalLen - course.doneLen)
  · rw [Course.serve_short _ _ failed short]
    obtain ⟨_, small, _⟩ := (of_decide_eq_true fits).resolve_left failed
    -- the stack answers at most what it was asked for, so the sum stays below 2 ^ 64
    have small := UInt64.le_iff_toNat_le.mp small
    rw [UInt64.toNat_sub_of_le _ _ (UInt64.le_iff_toNat_le.mpr bound)] at small
    have total := content.totalLen.toNat_lt
    have sum : (course.doneLen + sizeT answer.ret).toNat =
        course.doneLen.toNat + (sizeT answer.ret).toNat := by
      rw [UInt64.toNat_add, Nat.mod_eq_of_lt (by omega)]
    refine ⟨sum, ?_⟩
    dsimp only
    omega
  · rw [Course.serve_full _ _ failed short] at more
    cases more

/-- The parts of a message that is served from offset 0 are contiguous and inside of it. -/
theorem Follows.contiguous {moved : List (UInt64 × List UInt8)}
    (follows : Follows content dir protocol ⟨moved, 0, true⟩ handings course) :
    Contiguous content.totalLen handings ∧ (course.pending = true →
      course.doneLen.toNat ≤ content.totalLen.toNat ∧
        ∀ handing ∈ handings.getLast?, course.doneLen.toNat = handing.reached) := by
  -- on the answers, and a message that waits on has come as far as its last part
  induction follows with
  | start => exact ⟨⟨nofun, .nil, nofun⟩, fun _ => ⟨Nat.zero_le _, nofun⟩⟩
  | @serve handings course answer follows pending fits ih =>
    obtain ⟨earlier, bound⟩ := ih
    obtain ⟨bound, last⟩ := bound pending
    have requested : (content.totalLen - course.doneLen).toNat =
        content.totalLen.toNat - course.doneLen.toNat :=
      UInt64.toNat_sub_of_le _ _ (UInt64.le_iff_toNat_le.mpr bound)
    refine ⟨⟨(follows.serve pending fits).first, ?_, fun handing member => ?_⟩, fun more => ?_⟩
    · rw [List.isChain_append]
      refine ⟨earlier.next, .singleton _, fun handing ends next begins => ?_⟩
      obtain rfl : _ = next := by simpa using begins
      exact last handing ends
    · rcases List.mem_append.mp member with before | new
      · exact earlier.inside handing before
      · rw [List.mem_singleton.mp new, requested]
        exact Nat.add_sub_cancel' bound
    · obtain ⟨reached, within⟩ := serve_reached bound fits more
      refine ⟨within, fun handing ends => ?_⟩
      obtain rfl : _ = handing := by simpa using ends
      exact reached

end

/-! ## A message in a run of turns -/

def Server.first (s : Server) (dir : Dir) (record : Ptr) : Option Ptr :=
  (s.service record).bind fun service => (service.2.pending dir).queue

def Turn.handings (s : Server) (dir : Dir) (msg : Ptr) : Turn → List Handing
  | .serve d record answer =>
    if d = dir ∧ s.first d record = some msg then
      [⟨(s.msgs msg).doneLen, (s.msgs msg).totalLen - (s.msgs msg).doneLen, answer⟩]
    else []
  | .handle .. | .report .. | .other _ => []

def Turn.submits (msg : Ptr) : Turn → Bool
  | .other (.submit _ _ m _) => m = msg
  | _ => false

/-- Turns after a message has been dequeued, with what the stack is handed of it. Meanwhile the client
leaves the message alone, and its socket stays asynchronous. -/
inductive Handled (config : Config) (dir : Dir) (record msg : Ptr) (dequeued : Server) :
    List Handing → Server → Prop where
  | start : Handled config dir record msg dequeued [] dequeued
  | next {handings : List Handing} {before after : Server} {turn : Turn} {reply : Reply} :
      Handled config dir record msg dequeued handings before →
      (turns config).allowed before turn → before.turn config turn = .ok (after, reply) →
      turn.submits msg = false → after.service record ≠ none →
      Handled config dir record msg dequeued (handings ++ turn.handings before dir msg) after

/-- The message waits as far as its course says, and nowhere else. -/
structure Tracked (config : Config) (content : Msg) (dir : Dir) (protocol : Protocol)
    (record msg : Ptr) (course : Course) (s : Server) (waiting : Dir → Ptr → List Ptr) : Prop where
  owned : Owned config.ringSize s.view waiting
  own : ∀ d r, msg ∈ waiting d r ↔ course.pending = true ∧ d = dir ∧ r = record
  available : ∀ d h, (h, msg) ∉ (s.queue d).available
  protocol : course.pending = true → (s.records record).map Socket.protocol = some protocol
  totalLen : (s.msgs msg).totalLen = content.totalLen
  sends : dir = .tx → (s.msgs msg).buf = content.buf
  doneLen : (s.msgs msg).doneLen = course.doneLen
  parts : parts dir msg s.journal = course.parts

section
variable {config : Config} {s after : Server} {dir d : Dir} {record r msg m : Ptr}
  {handle : UInt32} {receiver : Option Ptr} {course course' : Course} {len : UInt64}
  {waiting waiting' : Dir → Ptr → List Ptr} {content : Msg} {protocol : Protocol}
  {socket : Socket} {async : Async} {answer : Answer} {answers : List Answer}
  {turn : Turn} {reply : Reply}

theorem Head.first_eq (head : Head s dir record socket async msg) :
    s.first dir record = some msg := by
  rw [Server.first, Server.service, head.held, Option.bind_some, head.transport]
  exact head.first

theorem first_eq_none (nobody : ∀ socket async msg, ¬Head s dir record socket async msg) :
    s.first dir record = none := by
  rw [Option.eq_none_iff_forall_ne_some]
  intro msg first
  obtain ⟨⟨protocol, async⟩, service, queue⟩ := Option.bind_eq_some_iff.mp first
  obtain ⟨socket, held, service⟩ := Option.bind_eq_some_iff.mp service
  obtain ⟨async', transport, same⟩ := Option.map_eq_some_iff.mp service
  obtain ⟨_, rfl⟩ := Prod.mk.inj same
  exact nobody socket async' msg ⟨held, transport, queue⟩

theorem Course.serve_congr {other : Msg} (totalLen : content.totalLen = other.totalLen)
    (sends : dir = .tx → content.buf = other.buf) :
    course.serve dir protocol content answer = course.serve dir protocol other answer := by
  have bytes : content.bytes dir course.doneLen answer = other.bytes dir course.doneLen answer := by
    cases dir with
    | tx => simp only [Msg.bytes, Msg.slice, sends rfl]
    | rx => rfl
  simp only [Course.serve, totalLen, bytes]

theorem Works.tracked
    (works : Works config dir (some record) handle msg course len s after waiting waiting')
    (held : (s.records record).map Socket.protocol = some protocol)
    (totalLen : (s.msgs msg).totalLen = content.totalLen)
    (sends : dir = .tx → (s.msgs msg).buf = content.buf) :
    Tracked config content dir protocol record msg course after waiting' where
  owned := works.owned
  own d r := by rw [works.own, Option.some.injEq]
  available d h member := (works.available d h msg member).2 rfl
  protocol _ := (works.touches.protocol record).trans held
  totalLen := works.totalLen.trans totalLen
  sends send := (works.sends send).trans (sends send)
  doneLen := works.doneLen
  parts := works.parts

namespace Tracked

variable (tracked : Tracked config content dir protocol record msg course s waiting)
include tracked

theorem other (works : Works config d receiver handle m course' len s after waiting waiting')
    (different : msg ≠ m) :
    Tracked config content dir protocol record msg course after waiting' where
  owned := works.owned
  own d r := (works.others d r msg different).trans (tracked.own d r)
  available d h member := tracked.available d h (works.available d h msg member).1
  protocol pending := (works.touches.protocol record).trans (tracked.protocol pending)
  totalLen := (unlinked_eq (works.touches.content msg different)).1.trans tracked.totalLen
  sends send := (unlinked_eq (works.touches.content msg different)).2.2.2.trans (tracked.sends send)
  doneLen := (unlinked_eq (works.touches.content msg different)).2.1.trans tracked.doneLen
  parts := (works.touches.parts dir msg different).trans tracked.parts

theorem course_eq (pending : course.pending = true) : s.course dir msg = course := by
  rw [Server.course, tracked.parts, tracked.doneLen, ← pending]

theorem aside (aside : Aside s after) :
    Tracked config content dir protocol record msg course after waiting where
  owned := tracked.owned.aside aside
  own := tracked.own
  available d h := by
    rw [aside.queue]
    exact tracked.available d h
  protocol pending := by
    have waits := (tracked.own dir record).mpr ⟨pending, rfl, rfl⟩
    obtain ⟨protocol', async, before, now⟩ := tracked.owned.served waits aside
    rw [service_protocol now, ← service_protocol before]
    exact tracked.protocol pending
  totalLen := by rw [aside.msgs, tracked.totalLen]
  sends send := by rw [aside.msgs, tracked.sends send]
  doneLen := by rw [aside.msgs, tracked.doneLen]
  parts := by
    obtain ⟨more, journal, quiet⟩ := aside.journal
    rw [journal, parts_aside quiet, tracked.parts]

theorem drops (drops : Drops config r s after) (elsewhere : course.pending = true → r ≠ record) :
    ∃ waiting', Tracked config content dir protocol record msg course after waiting' := by
  induction drops generalizing waiting with
  | refl => exact ⟨waiting, tracked⟩
  | @next s after d m socket async head _ ih =>
    obtain ⟨rest, front⟩ := tracked.owned.head head
    -- the message itself waits at the other socket, so it is none of those that go back
    have different : msg ≠ m := by
      rintro rfl
      have waits : msg ∈ waiting d r := front ▸ List.mem_cons_self
      obtain ⟨pending, _, here⟩ := (tracked.own d r).mp waits
      exact elsewhere pending here
    obtain ⟨waiting', works⟩ := tracked.owned.drops_first head
    exact ih (tracked.other works different)

theorem cleaned (cleaned : CleanedUp config r s after) (elsewhere : r ≠ record) :
    ∃ waiting', Tracked config content dir protocol record msg course after waiting' := by
  obtain ⟨called, middle, first, drops, _, last⟩ := cleaned.drops
  obtain ⟨waiting', tracked⟩ := (tracked.aside first).drops drops fun _ => elsewhere
  exact ⟨waiting', tracked.aside last⟩

theorem submitted {new : Msg} (admits : s.Admits config (.submit d handle m new))
    (different : msg ≠ m) :
    Tracked config content dir protocol record msg course ((s.setMsg m new).setQueue d
      { s.queue d with
        available := (s.queue d).available ++ [(handle, m)]
        lent := (s.queue d).lent ++ [(handle, m)] }) waiting := by
  have same : ((s.setMsg m new).setQueue d { s.queue d with
      available := (s.queue d).available ++ [(handle, m)]
      lent := (s.queue d).lent ++ [(handle, m)] }).msgs msg = s.msgs msg := by
    rw [Server.msgs_setQueue]
    exact Function.update_of_ne different _ _
  exact {
    owned := by
      rw [view_submit]
      exact tracked.owned.submit admits.1 admits.2.1 admits.2.2
    own := tracked.own
    available := by
      intro d' h member
      by_cases here : d' = d
      · subst here
        rw [Server.queue_setQueue] at member
        rcases List.mem_append.mp member with old | new
        · exact tracked.available _ h old
        · exact different (Prod.mk.inj (List.mem_singleton.mp new)).2
      · rw [Server.queue_setQueue_of_ne _ here, Server.queue_setMsg] at member
        exact tracked.available d' h member
    protocol := fun pending => by
      rw [Server.records_setQueue]
      exact tracked.protocol pending
    totalLen := by rw [same, tracked.totalLen]
    sends := fun send => by rw [same, tracked.sends send]
    doneLen := by rw [same, tracked.doneLen]
    parts := by
      rw [Server.journal_setQueue]
      exact tracked.parts }

theorem collected : Tracked config content dir protocol record msg course
    (s.setQueue d { s.queue d with used := (s.queue d).used.tail }) waiting where
  owned := by
    rw [view_setQueue]
    exact tracked.owned.collect
  own := tracked.own
  available d' h member := by
    apply tracked.available d' h
    by_cases here : d' = d
    · subst here
      rw [Server.queue_setQueue] at member
      exact member
    · rw [Server.queue_setQueue_of_ne _ here] at member
      exact member
  protocol pending := by
    rw [Server.records_setQueue]
    exact tracked.protocol pending
  totalLen := by rw [Server.msgs_setQueue, tracked.totalLen]
  sends send := by rw [Server.msgs_setQueue, tracked.sends send]
  doneLen := by rw [Server.msgs_setQueue, tracked.doneLen]
  parts := by rw [Server.journal_setQueue, tracked.parts]

theorem handled (done : handleTurn config s d answers = .ok after) :
    ∃ waiting', Tracked config content dir protocol record msg course after waiting' := by
  rcases handleTurn_works tracked.owned done with
    ⟨rfl, _⟩ | ⟨handle, m, receiver, course', len, waiting', front, _, _, works⟩
  · exact ⟨waiting, tracked⟩
  · have different : msg ≠ m := by
      rintro rfl
      exact tracked.available d handle (List.mem_of_head? front)
    exact ⟨waiting', tracked.other works different⟩

/-- The first message that waits is served. If it is the message itself, its course goes on. -/
theorem served {start : Course} {handings : List Handing}
    (follows : Follows content dir protocol start handings course)
    (done : serveTurn config s d r answer = .ok after) :
    ∃ waiting' course', Tracked config content dir protocol record msg course' after waiting' ∧
      Follows content dir protocol start
        (handings ++ (Turn.serve d r answer).handings s dir msg) course' := by
  rcases serveTurn_works tracked.owned done with
    ⟨rfl, nobody⟩ | ⟨socket, async, m, waiting', head, fits, works⟩
  · refine ⟨waiting, course, tracked, ?_⟩
    rw [Turn.handings, first_eq_none nobody, if_neg (by simp), List.append_nil]
    exact follows
  obtain ⟨rest, front⟩ := tracked.owned.head head
  -- only an answer for the message itself extends what it was handed
  by_cases different : msg = m
  · subst different
    have waits : msg ∈ waiting d r := front ▸ List.mem_cons_self
    obtain ⟨pending, rfl, rfl⟩ := (tracked.own d r).mp waits
    have held := congrArg (Option.map Socket.protocol) head.held
    obtain rfl : socket.protocol = protocol :=
      Option.some.inj (held.symm.trans (tracked.protocol pending))
    rw [tracked.course_eq pending,
      Course.serve_congr tracked.totalLen fun send => tracked.sends send] at works
    rw [tracked.totalLen, tracked.doneLen] at fits
    refine ⟨waiting', _, works.tracked held tracked.totalLen tracked.sends, ?_⟩
    rw [Turn.handings, if_pos ⟨rfl, head.first_eq⟩, tracked.totalLen, tracked.doneLen]
    exact follows.serve pending fits
  · refine ⟨waiting', course, tracked.other works different, ?_⟩
    have others : ¬(d = dir ∧ s.first d r = some msg) := by
      rintro ⟨_, first⟩
      exact different (Option.some.inj (first.symm.trans head.first_eq))
    rw [Turn.handings, if_neg others, List.append_nil]
    exact follows

theorem step {start : Course} {handings : List Handing}
    (follows : Follows content dir protocol start handings course)
    (allowed : (turns config).allowed s turn) (done : s.turn config turn = .ok (after, reply))
    (alone : turn.submits msg = false) (serves : after.service record ≠ none) :
    ∃ waiting' course', Tracked config content dir protocol record msg course' after waiting' ∧
      Follows content dir protocol start (handings ++ turn.handings s dir msg) course' := by
  cases turn with
  | handle d answers =>
    obtain ⟨handled, handling, done⟩ := bind_ok.mp done
    obtain ⟨rfl, _⟩ := pair_ok.mp done
    obtain ⟨waiting', tracked⟩ := tracked.handled handling
    exact ⟨waiting', course, tracked, by rw [Turn.handings, List.append_nil]; exact follows⟩
  | serve d r answer =>
    obtain ⟨served, serving, done⟩ := bind_ok.mp done
    obtain ⟨rfl, _⟩ := pair_ok.mp done
    exact tracked.served follows serving
  | report socket ev memory =>
    obtain ⟨reported, reporting, done⟩ := bind_ok.mp done
    obtain ⟨rfl, _⟩ := pair_ok.mp done
    refine ⟨waiting, course, tracked.aside (reportEvent_aside reporting), ?_⟩
    rw [Turn.handings, List.append_nil]
    exact follows
  | other event =>
    rw [Turn.handings, List.append_nil]
    obtain ⟨permits, admits, loops⟩ := allowed event rfl
    cases step_effect tracked.owned permits admits loops done with
    | aside aside => exact ⟨waiting, course, tracked.aside aside, follows⟩
    -- the socket of the message is still served after the turn, so it was another that closed
    | cleaned cleaned =>
      obtain ⟨waiting', tracked⟩ :=
        tracked.cleaned cleaned fun here => serves (here ▸ cleaned.gone)
      exact ⟨waiting', course, tracked, follows⟩
    | @submit d handle m new =>
      have different : msg ≠ m := by
        rintro rfl
        simp [Turn.submits] at alone
      exact ⟨waiting, course, tracked.submitted admits different, follows⟩
    | collect => exact ⟨waiting, course, tracked.collected, follows⟩

end Tracked

/-- Whatever else the server does, a message goes its course. -/
theorem Handled.tracked {dequeued : Server} {handings : List Handing}
    (handled : Handled config dir record msg dequeued handings s)
    (tracked : Tracked config content dir protocol record msg course dequeued waiting) :
    ∃ waiting' course', Tracked config content dir protocol record msg course' s waiting' ∧
      Follows content dir protocol course handings course' := by
  induction handled with
  | start => exact ⟨waiting, course, tracked, .start⟩
  | next _ allowed done alone serves ih =>
    obtain ⟨waiting', course', tracked, follows⟩ := ih
    exact tracked.step follows allowed done alone serves

/-- The state in which a message is dequeued for its socket, after any run of turns. -/
structure Arrives (config : Config) (content : Msg) (dir : Dir) (protocol : Protocol)
    (s : Server) (record msg : Ptr) (async : Async) : Prop where
  reached : ∃ start trace, Server.Idle config start ∧ (turns config).Run start trace s
  front : ∃ handle, (s.queue dir).available.head? = some (handle, msg)
  content : s.msgs msg = content
  destined : ∃ socket, Destined s msg record socket async ∧ socket.protocol = protocol

/-- A message with these contents is dequeued, and the server goes on. The flag tells whether it has
found others in front of it. -/
inductive Served (config : Config) (content : Msg) (dir : Dir) (protocol : Protocol) (msg : Ptr) :
    Bool → List Handing → Server → Prop where
  | direct {s t after : Server} {record : Ptr} {async : Async} {answer : Answer}
      {left : List Answer} {handings : List Handing} :
      Arrives config content dir protocol s record msg async → (async.pending dir).queue = none →
      handleTurn config s dir (answer :: left) = .ok t →
      Handled config dir record msg t handings after →
      Served config content dir protocol msg false
        (⟨0, content.totalLen, answer⟩ :: handings) after
  | queued {s t after : Server} {record : Ptr} {async : Async} {answers : List Answer}
      {handings : List Handing} :
      Arrives config content dir protocol s record msg async → (async.pending dir).queue ≠ none →
      handleTurn config s dir answers = .ok t →
      Handled config dir record msg t handings after →
      Served config content dir protocol msg true handings after

def firstCourse (content : Msg) : Bool → Course
  | false => ⟨[], 0, true⟩
  | true => ⟨[], content.doneLen, true⟩

theorem Destined.unique {record' : Ptr} {socket' : Socket} {async' : Async}
    (one : Destined s msg record socket async) (other : Destined s msg record' socket' async') :
    record = record' ∧ socket = socket' ∧ async = async' := by
  obtain rfl := Option.some.inj (one.found.symm.trans other.found)
  obtain rfl := Option.some.inj (one.held.symm.trans other.held)
  exact ⟨rfl, rfl, Option.some.inj (one.transport.symm.trans other.transport)⟩

theorem Arrives.handled (arrives : Arrives config content dir protocol s record msg async)
    (done : handleTurn config s dir answers = .ok after) :
    ∃ waiting course, Tracked config content dir protocol record msg course after waiting ∧
      (((async.pending dir).queue ≠ none ∧ course = firstCourse content true) ∨
        (async.pending dir).queue = none ∧ ∃ answer left, answers = answer :: left ∧
          answer.fits dir content.totalLen = true ∧
          course = (firstCourse content false).serve dir protocol content answer) := by
  obtain ⟨start, trace, idle, run⟩ := arrives.reached
  obtain ⟨waiting, owned⟩ := run_sound idle run
  obtain ⟨handle, front⟩ := arrives.front
  obtain ⟨socket, destined, rfl⟩ := arrives.destined
  obtain rfl := arrives.content
  have held := congrArg (Option.map Socket.protocol) destined.held
  rcases handleTurn_works owned done with
    ⟨_, empty⟩ | ⟨handle', msg', receiver, course, len, waiting', front', _, handling, works⟩
  · rw [empty] at front
    cases front
  obtain ⟨rfl, rfl⟩ := Prod.mk.inj (Option.some.inj (front.symm.trans front'))
  refine ⟨waiting', course, ?_⟩
  cases handling with
  | refuse nobody => exact absurd destined (nobody record socket async)
  | append destined' others =>
    obtain ⟨rfl, rfl, rfl⟩ := destined.unique destined'
    exact ⟨works.tracked held rfl fun _ => rfl, .inl ⟨others, rfl⟩⟩
  | serve destined' free same fits =>
    obtain ⟨rfl, rfl, rfl⟩ := destined.unique destined'
    exact ⟨works.tracked held rfl fun _ => rfl, .inr ⟨free, _, _, same, fits, rfl⟩⟩

/-- What the stack is handed, and how far the message comes, whichever way it takes. -/
theorem Served.follows {queued : Bool} {handings : List Handing}
    (served : Served config content dir protocol msg queued handings after) :
    ∃ course, Follows content dir protocol (firstCourse content queued) handings course ∧
      PicoServer.parts dir msg after.journal = course.parts ∧
      (after.msgs msg).doneLen = course.doneLen := by
  cases served with
  | direct arrives free done handled =>
    obtain ⟨waiting, course, tracked, begins⟩ := arrives.handled done
    rcases begins with ⟨others, _⟩ | ⟨_, answer, left, same, fits, rfl⟩
    · exact absurd free others
    obtain ⟨rfl, rfl⟩ := List.cons.inj same
    obtain ⟨waiting', course, tracked, rest⟩ := handled.tracked tracked
    have whole : content.totalLen - (firstCourse content false).doneLen = content.totalLen :=
      UInt64.sub_zero _
    have follows := rest.head rfl (by rw [whole]; exact fits)
    rw [whole] at follows
    exact ⟨course, follows, tracked.parts, tracked.doneLen⟩
  | queued arrives others done handled =>
    obtain ⟨waiting, course, tracked, begins⟩ := arrives.handled done
    rcases begins with ⟨_, rfl⟩ | ⟨free, _⟩
    · obtain ⟨waiting', course, tracked, follows⟩ := handled.tracked tracked
      exact ⟨course, follows, tracked.parts, tracked.doneLen⟩
    · exact absurd free others

/-- The two ways of a message agree. -/
structure WaysAgree (content : Msg) (dir : Dir) (msg msg' : Ptr) (handings handings' : List Handing)
    (after after' : Server) : Prop where
  handed : handings = handings'
  parts : PicoServer.parts dir msg after.journal = PicoServer.parts dir msg' after'.journal
  doneLen : (after.msgs msg).doneLen = (after'.msgs msg').doneLen
  contiguous : Contiguous content.totalLen handings
  contiguous' : Contiguous content.totalLen handings'

theorem Served.fresh {config' : Config} {msg' : Ptr} {handings : List Handing} {after' : Server}
    (direct : Served config content dir protocol msg false handings after)
    (queued : Served config' content dir protocol msg' true handings after') :
    content.doneLen = 0 := by
  obtain ⟨course, follows, _⟩ := direct.follows
  obtain ⟨course', follows', _⟩ := queued.follows
  cases direct with
  | direct => exact (follows'.first _ rfl).symm

theorem queued_agrees_iff (config config' : Config) (content : Msg) (dir : Dir)
    (protocol : Protocol) (msg msg' : Ptr) (handings handings' : List Handing)
    (after after' : Server) (direct : Served config content dir protocol msg false handings after)
    (queued : Served config' content dir protocol msg' true handings' after')
    (answers : handings.map Handing.answer = handings'.map Handing.answer) :
    WaysAgree content dir msg msg' handings handings' after after' ↔ content.doneLen = 0 := by
  refine ⟨fun agree => direct.fresh (agree.handed ▸ queued), fun fresh => ?_⟩
  obtain ⟨course, follows, parts, doneLen⟩ := direct.follows
  obtain ⟨course', follows', parts', doneLen'⟩ := queued.follows
  -- the two ways differ in nothing but the offset that they begin at
  have same : firstCourse content true = firstCourse content false := by
    simp only [firstCourse, fresh]
  rw [same] at follows'
  obtain ⟨rfl, rfl⟩ := follows.deterministic follows' answers
  obtain ⟨contiguous, _⟩ := follows.contiguous
  exact ⟨rfl, parts.trans parts'.symm, doneLen.trans doneLen'.symm, contiguous, contiguous⟩

end

deriving instance DecidableEq for Answer

/-! ## A message whose `done_len` is left over -/

def tenBytes (doneLen : UInt64) : Msg := { blankMsg with socketFd := 1, totalLen := 10, doneLen }

def accepts (count : Int32) : Answer := ⟨count, [], 0, 0⟩

def Server.offer (s : Server) (content : Msg) : Server :=
  (s.setMsg 0x3000 content).setQueue .tx { s.queue .tx with
    available := (s.queue .tx).available ++ [(7, 0x3000)]
    lent := (s.queue .tx).lent ++ [(7, 0x3000)] }

def Server.receives (s : Server) (busy : Bool) : Bool :=
  (s.queue .tx).available.isEmpty && s.MaySubmit twoClients .tx 7 0x3000 &&
    clientGetSocket s 0 1 = some 0x1000 &&
    (s.records 0x1000).any fun socket => socket.socket ≠ 0 && socket.protocol = .udp &&
      socket.asyncTransport.any fun async => async.tx.queue.isSome = busy

def handledBy : List Turn → Server → List Handing → Option (List Handing × Server)
  | [], s, handings => some (handings, s)
  | turn :: turns, s, handings =>
    match s.turn twoClients turn with
    | .ok (after, _) =>
      if turn.event.isNone && (after.service 0x1000).isSome then
        handledBy turns after (handings ++ turn.handings s .tx 0x3000)
      else none
    | .error _ => none

/-- The message is submitted after a few turns, dequeued at once, and served in later ones. -/
def serveTen (busy : Bool) (doneLen : UInt64) (early : List Turn) (answers : List Answer)
    (late : List Turn) : Option (List Handing × Server) :=
  ((turns twoClients).step (.init fun _ => blankMsg) openUdp).bind fun opened =>
    ((turns twoClients).exec (fun s turn => turn.checked twoClients s && true)
      [(openUdp, opened.2)] opened.1 early).bind fun result =>
        if result.2.receives busy then
          match handleTurn twoClients (result.2.offer (tenBytes doneLen)) .tx answers with
          | .ok dequeued => handledBy late dequeued []
          | .error _ => none
        else none

theorem handledBy_handled {dequeued s after : Server} {late : List Turn}
    {handings handings' : List Handing}
    (handled : Handled twoClients .tx 0x1000 0x3000 dequeued handings s)
    (done : handledBy late s handings = some (handings', after)) :
    Handled twoClients .tx 0x1000 0x3000 dequeued handings' after := by
  -- on the later turns, each of which goes on where the message is
  induction late generalizing s handings with
  | nil =>
    obtain ⟨rfl, rfl⟩ := Prod.mk.inj (Option.some.inj done)
    exact handled
  | cons turn late ih =>
    rw [handledBy] at done
    split at done
    · next middle reply stepped =>
      split at done
      · next checks =>
        obtain ⟨loop, serves⟩ := Bool.and_eq_true_iff.mp checks
        have loop : turn.event = none := Option.isNone_iff_eq_none.mp loop
        refine ih (handled.next ?_ stepped ?_ (Option.isSome_iff_ne_none.mp serves)) done
        · intro event member
          rw [loop] at member
          cases member
        · cases turn with
          | handle | serve | report => rfl
          | other => cases loop
      · cases done
    · cases done

theorem arrives_of_receives {s : Server} {busy : Bool} {trace : List (Turn × Reply)}
    (run : (turns twoClients).Run (.init fun _ => blankMsg) trace s)
    (receives : s.receives busy = true) (doneLen : UInt64) :
    ∃ async, Arrives twoClients (tenBytes doneLen) .tx .udp (s.offer (tenBytes doneLen))
      0x1000 0x3000 async ∧ (async.pending .tx).queue.isSome = busy := by
  simp only [Server.receives, Bool.and_eq_true, decide_eq_true_eq, List.isEmpty_iff,
    Option.any_eq_true] at receives
  obtain ⟨⟨⟨empty, may⟩, found⟩, socket, held, ⟨opened, udp⟩, async, transport, waits⟩ := receives
  have allowed : (turns twoClients).allowed s
      (.other (.submit .tx 7 0x3000 (tenBytes doneLen))) := by
    rintro _ ⟨⟩
    exact ⟨trivial, may, rfl⟩
  have submitted : (turns twoClients).step s (.other (.submit .tx 7 0x3000 (tenBytes doneLen))) =
      some (s.offer (tenBytes doneLen), .none) := rfl
  have content : (s.offer (tenBytes doneLen)).msgs 0x3000 = tenBytes doneLen := by
    rw [Server.offer, Server.msgs_setQueue, Asked.setMsg_self]
  refine ⟨async, ⟨⟨_, _, init_idle _, run.next allowed submitted⟩, ⟨7, ?_⟩, content, socket, ?_,
    udp⟩, waits⟩
  · rw [Server.offer, Server.queue_setQueue, empty]
    rfl
  · refine ⟨?_, held, opened, transport⟩
    rw [content]
    exact found

theorem serveTen_arrives {busy : Bool} {doneLen : UInt64} {early late : List Turn}
    {answers : List Answer} {handings : List Handing} {after : Server}
    (done : serveTen busy doneLen early answers late = some (handings, after)) :
    ∃ s dequeued async, Arrives twoClients (tenBytes doneLen) .tx .udp s 0x1000 0x3000 async ∧
      (async.pending .tx).queue.isSome = busy ∧
      handleTurn twoClients s .tx answers = .ok dequeued ∧
      Handled twoClients .tx 0x1000 0x3000 dequeued handings after := by
  obtain ⟨opened, step, done⟩ := Option.bind_eq_some_iff.mp done
  obtain ⟨⟨trace, s⟩, run, done⟩ := Option.bind_eq_some_iff.mp done
  obtain ⟨run, _⟩ := opened_run (fun _ _ => True) (fun _ _ _ => trivial) trivial
    (Option.bind_eq_some_iff.mpr ⟨opened, step, run⟩)
  split at done
  · next receives =>
    obtain ⟨async, arrives, waits⟩ := arrives_of_receives run receives doneLen
    split at done
    · next dequeued handled =>
      exact ⟨_, dequeued, async, arrives, waits, handled, handledBy_handled .start done⟩
    · cases done
  · cases done

theorem serveTen_queued {doneLen : UInt64} {early late : List Turn} {answers : List Answer}
    {handings : List Handing} {after : Server}
    (done : serveTen true doneLen early answers late = some (handings, after)) :
    Served twoClients (tenBytes doneLen) .tx .udp 0x3000 true handings after := by
  obtain ⟨s, dequeued, async, arrives, waits, handled, done⟩ := serveTen_arrives done
  exact .queued arrives (Option.isSome_iff_ne_none.mp waits) handled done

theorem serveTen_direct {doneLen : UInt64} {early late : List Turn} {answer : Answer}
    {answers : List Answer} {handings : List Handing} {after : Server}
    (done : serveTen false doneLen early (answer :: answers) late = some (handings, after)) :
    Served twoClients (tenBytes doneLen) .tx .udp 0x3000 false
      (⟨0, 10, answer⟩ :: handings) after := by
  obtain ⟨s, dequeued, async, arrives, waits, handled, done⟩ := serveTen_arrives done
  exact .direct arrives (Option.not_isSome_iff_eq_none.mp (by rw [waits]; nofun)) handled done

def setAsync : List Turn := [.other (.control 0 (.setAsync 1 true true))]

def othersWait : List Turn :=
  setAsync ++ [.other (.submit .tx 6 0x3100 (tenBytes 0)), .handle .tx [accepts 0]]

def bothServed : List Turn := [.serve .tx 0x1000 (accepts 10), .serve .tx 0x1000 (accepts 4)]

theorem ten_direct (doneLen : UInt64) (check : (serveTen false doneLen setAsync [accepts 4] []).any
      (fun result => result.1.isEmpty) = true) :
    ∃ after, Served twoClients (tenBytes doneLen) .tx .udp 0x3000 false
      [⟨0, 10, accepts 4⟩] after := by
  obtain ⟨⟨handings, after⟩, done, empty⟩ := (Option.any_eq_true _ _).mp check
  obtain rfl := List.isEmpty_iff.mp empty
  exact ⟨after, serveTen_direct done⟩

theorem ten_queued (doneLen : UInt64) (check : (serveTen true doneLen othersWait [] bothServed).any
      (fun result => result.1.map Handing.answer = [accepts 4]) = true) :
    ∃ handings after, Served twoClients (tenBytes doneLen) .tx .udp 0x3000 true handings after ∧
      handings.map Handing.answer = [accepts 4] := by
  obtain ⟨⟨handings, after⟩, done, answers⟩ := (Option.any_eq_true _ _).mp check
  exact ⟨handings, after, serveTen_queued done, of_decide_eq_true answers⟩

theorem queued_agrees_iff_fresh : ∃ handings after after',
    Served twoClients (tenBytes 0) .tx .udp 0x3000 false [⟨0, 10, accepts 4⟩] after ∧
      Served twoClients (tenBytes 0) .tx .udp 0x3000 true handings after' ∧
      WaysAgree (tenBytes 0) .tx 0x3000 0x3000 [⟨0, 10, accepts 4⟩] handings after after' := by
  obtain ⟨after, direct⟩ := ten_direct 0 (by decide +kernel)
  obtain ⟨handings, after', queued, answers⟩ := ten_queued 0 (by decide +kernel)
  refine ⟨handings, after, after', direct, queued, ?_⟩
  exact (queued_agrees_iff twoClients twoClients (tenBytes 0) .tx .udp 0x3000 0x3000 _ handings
    after after' direct queued answers.symm).mpr rfl

/-- With 3 left over in `done_len` the stack is never handed the first three bytes. -/
theorem leftover_skips_bytes : ∃ handings after after',
    Served twoClients (tenBytes 3) .tx .udp 0x3000 false [⟨0, 10, accepts 4⟩] after ∧
      Served twoClients (tenBytes 3) .tx .udp 0x3000 true handings after' ∧
      handings.map Handing.answer = [accepts 4] ∧
      ¬WaysAgree (tenBytes 3) .tx 0x3000 0x3000 [⟨0, 10, accepts 4⟩] handings after after' := by
  obtain ⟨after, direct⟩ := ten_direct 3 (by decide +kernel)
  obtain ⟨handings, after', queued, answers⟩ := ten_queued 3 (by decide +kernel)
  refine ⟨handings, after, after', direct, queued, answers, fun agree => ?_⟩
  have fresh : (tenBytes 3).doneLen = 0 := direct.fresh (agree.handed ▸ queued)
  exact absurd fresh (by decide)

end GlobalComponents.PicoServer
