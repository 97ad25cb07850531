import GlobalComponents.PicoServer.Completion
import GlobalComponents.PicoServer.Effects

/-! The byte streams of asynchronous sockets.

Only the first message that waits at a socket is served, and a message is served at once only if none
waits. So the bytes that the stack accepts from a socket are those of its messages one after the other,
and so are the bytes that it receives for it.
-/

set_option autoImplicit false

namespace GlobalComponents.PicoServer

open Library

/-! ## The books of a socket -/

structure Booked (dir : Dir) (record : Ptr) (journal : List Action) (closed opened : List Delivery) :
    Prop where
  serving : Serving (deliveries dir record journal) closed opened
  stream : stream dir record journal = (deliveries dir record journal).flatMap Delivery.bytes

section
variable {dir : Dir} {record : Ptr} {journal more : List Action} {delivery : Delivery}
  {closed opened rest : List Delivery} {handle : UInt32} {msg : Ptr} {content : Msg} {len : UInt64}

theorem booked_nil : Booked dir record [] [] [] := ⟨.start, rfl⟩

theorem Booked.quiet (booked : Booked dir record journal closed opened)
    (quiet : ∀ action ∈ more, action.concerns dir record = false) :
    Booked dir record (journal ++ more) closed opened where
  serving := by rw [deliveries_quiet quiet]; exact booked.serving
  stream := by rw [deliveries_quiet quiet, stream_quiet quiet]; exact booked.stream

theorem Booked.took (booked : Booked dir record journal closed opened) :
    Booked dir record (journal ++ [.took dir (some record) handle msg content]) closed
      (opened ++ [.arrived ⟨handle, msg, content⟩]) := by
  have delivered : deliveries dir record (journal ++ [.took dir (some record) handle msg content]) =
      deliveries dir record journal ++ [.arrived ⟨handle, msg, content⟩] := by
    rw [deliveries_concat]
    exact if_pos ⟨rfl, rfl⟩
  refine ⟨by rw [delivered]; exact booked.serving.arrive, ?_⟩
  rw [delivered, stream_append, booked.stream, List.flatMap_append]
  rfl

theorem Booked.moved {part : UInt64 × List UInt8}
    (booked : Booked dir record journal closed (delivery :: rest))
    (others : ∀ other ∈ rest, other.key.msg ≠ delivery.key.msg) :
    Booked dir record (journal ++ [.moved dir record delivery.key.msg part.1 part.2]) closed
      (delivery.extend [part] :: rest) := by
  have delivered : deliveries dir record (journal ++
      [.moved dir record delivery.key.msg part.1 part.2]) =
      (deliveries dir record journal).map
        (.onOpen (fun key => key.msg = delivery.key.msg) (.extend [part])) := by
    rw [deliveries_concat]
    exact if_pos ⟨rfl, rfl⟩
  have here : decide (delivery.key.msg = delivery.key.msg) = true := decide_eq_true rfl
  have apart : ∀ other ∈ rest, decide (other.key.msg = delivery.key.msg) = false :=
    fun other member => decide_eq_false (others other member)
  refine ⟨by rw [delivered]; exact booked.serving.extend here apart, ?_⟩
  have got : ((deliveries dir record journal).map (.onOpen (fun key => key.msg = delivery.key.msg)
      (.extend [part]))).flatMap Delivery.bytes =
      (deliveries dir record journal).flatMap Delivery.bytes ++ [part].flatMap Prod.snd :=
    booked.serving.got_extend here apart Prod.snd
  rw [delivered, stream_append, booked.stream, got, stream_singleton, List.flatMap_singleton]
  exact congrArg _ (if_pos ⟨rfl, rfl⟩)

theorem Booked.completed (booked : Booked dir record journal closed (delivery :: rest))
    (others : ∀ other ∈ rest, other.key.handle ≠ delivery.key.handle) :
    Booked dir record
      (journal ++ [.completed dir (some record) delivery.key.handle len content])
      (closed ++ [delivery.close (len, content)]) rest := by
  have delivered : deliveries dir record (journal ++
      [.completed dir (some record) delivery.key.handle len content]) =
      (deliveries dir record journal).map
        (.onOpen (fun key => key.handle = delivery.key.handle) (.close (len, content))) := by
    rw [deliveries_concat]
    exact if_pos ⟨rfl, rfl⟩
  have here : decide (delivery.key.handle = delivery.key.handle) = true := decide_eq_true rfl
  have apart : ∀ other ∈ rest, decide (other.key.handle = delivery.key.handle) = false :=
    fun other member => decide_eq_false (others other member)
  refine ⟨by rw [delivered]; exact booked.serving.close here apart, ?_⟩
  rw [delivered, stream_append, booked.stream]
  refine Eq.trans ?_ (Serving.got_close _ Prod.snd).symm
  exact List.append_nil _

end

/-! ## An answer of the stack -/

section
variable {config : Config} {s after : Server} {dir : Dir} {record msg : Ptr} {protocol : Protocol}
  {course : Course} {answer : Answer} {len : UInt64} {delivery : Delivery}
  {closed rest : List Delivery}

structure Asks (dir : Dir) (record : Ptr) (protocol : Protocol) (course : Course) (answer : Answer)
    (len : UInt64) (s after : Server) (closed rest : List Delivery) (delivery : Delivery) : Prop where
  booked : Booked dir record s.journal closed (delivery :: rest)
  msgs : ∀ other ∈ rest, other.key.msg ≠ delivery.key.msg
  handles : ∀ other ∈ rest, other.key.handle ≠ delivery.key.handle
  agrees : delivery.Agrees dir (s.msgs delivery.key.msg)
  reached : delivery.key.content.doneLen = 0 → course.doneLen.toNat = delivery.bytes.length
  fits : answer.fits dir ((s.msgs delivery.key.msg).totalLen - course.doneLen) = true
  answered : Answered dir protocol record delivery.key.handle delivery.key.msg course answer len s after
  totalLen : (after.msgs delivery.key.msg).totalLen = (s.msgs delivery.key.msg).totalLen
  doneLen : (after.msgs delivery.key.msg).doneLen =
    (course.serve dir protocol (s.msgs delivery.key.msg) answer).doneLen
  cookie : (course.serve dir protocol (s.msgs delivery.key.msg) answer).pending = true →
    (after.msgs delivery.key.msg).cookieSave = delivery.key.handle
  error : answer.ret = -1 → len = 0

def Asks.next (_ : Asks dir record protocol course answer len s after closed rest delivery) : Delivery :=
  delivery.extend ((s.msgs delivery.key.msg).moves dir course.doneLen answer)

variable (asks : Asks dir record protocol course answer len s after closed rest delivery)
include asks

theorem Asks.moved : Booked dir record (s.journal ++
    ((s.msgs delivery.key.msg).moves dir course.doneLen answer).map fun part =>
      .moved dir record delivery.key.msg part.1 part.2) closed (asks.next :: rest) := by
  rw [next, Msg.moves]
  split
  · rw [List.map_nil, List.append_nil, Item.extend, List.append_nil]
    exact asks.booked
  · exact asks.booked.moved asks.msgs

theorem Asks.next_agrees : asks.next.Agrees dir (after.msgs delivery.key.msg) :=
  asks.agrees.serve asks.reached asks.fits asks.totalLen asks.answered.buf

theorem Asks.waits
    (pending : (course.serve dir protocol (s.msgs delivery.key.msg) answer).pending = true) :
    Booked dir record after.journal closed (asks.next :: rest) ∧ asks.next.Waits dir after := by
  refine ⟨?_, asks.next_agrees, asks.cookie pending, fun fresh => ?_⟩
  · rw [asks.answered.journal, if_pos pending, List.append_nil]
    exact asks.moved
  · have unbroken := asks.agrees.unbroken fresh
    exact (congrArg UInt64.toNat asks.doneLen).trans
      (unbroken.waits (asks.reached fresh) asks.fits pending)

theorem Asks.settles
    (ended : (course.serve dir protocol (s.msgs delivery.key.msg) answer).pending = false) :
    Booked dir record after.journal
        (closed ++ [asks.next.close (len, after.msgs delivery.key.msg)]) rest ∧
      Delivery.Settled dir (asks.next.close (len, after.msgs delivery.key.msg)) := by
  refine ⟨?_, fun _ _ same => ?_, fun _ _ same send fresh whole => ?_⟩
  · rw [asks.answered.journal, ended, if_neg Bool.false_ne_true]
    exact asks.moved.completed asks.handles
  · obtain ⟨rfl, rfl⟩ := Prod.mk.inj (Option.some.inj same)
    have agrees := asks.next_agrees
    exact ⟨agrees.totalLen, agrees.some, agrees.sends, fun fresh =>
      ⟨(agrees.unbroken fresh).adjoin, (agrees.unbroken fresh).inside, (agrees.unbroken fresh).held⟩⟩
  · obtain ⟨rfl, rfl⟩ := Prod.mk.inj (Option.some.inj same)
    subst send
    have answered : answer.ret ≠ -1 := by
      intro failed
      apply asks.agrees.some
      rw [← asks.totalLen, ← whole, asks.error failed]
    have unbroken := asks.agrees.unbroken fresh
    rw [asks.totalLen]
    exact unbroken.full (asks.reached fresh) asks.fits answered ended

end

/-! ## The messages that wait at a socket -/

structure Ledger (dir : Dir) (record : Ptr) (s : Server) (nodes : List Ptr)
    (closed opened : List Delivery) : Prop where
  booked : Booked dir record s.journal closed opened
  nodes : opened.map (fun delivery => delivery.key.msg) = nodes
  waits : ∀ delivery ∈ opened, delivery.Waits dir s
  settled : ∀ delivery ∈ closed, delivery.Settled dir

def Submission.unlinked (submission : Submission) : Submission :=
  { submission with content := submission.content.unlinked }

def Server.submission (s : Server) (entry : UInt32 × Ptr) : Submission :=
  ⟨entry.1, entry.2, s.msgs entry.2⟩

def Server.submitted (s : Server) (dir : Dir) : List Submission :=
  (dequeued dir s.journal ++ (s.queue dir).available.map s.submission).map Submission.unlinked

def Turn.submission (dir : Dir) : Turn → Option Submission
  | .other (.submit d h msg content) => if d = dir then some ⟨h, msg, content⟩ else none
  | _ => none

def submissions (dir : Dir) (trace : List (Turn × Reply)) : List Submission :=
  trace.filterMap fun entry => entry.1.submission dir

/-- The server has kept the order. -/
structure Kept (config : Config) (dir : Dir) (record : Ptr) (submissions : List Submission)
    (s : Server) (waiting : Dir → Ptr → List Ptr) : Prop where
  owned : Owned config.ringSize s.view waiting
  ledger : ∃ closed opened, Ledger dir record s (waiting dir record) closed opened
  submitted : s.submitted dir = submissions.map Submission.unlinked

section
variable {config : Config} {s after : Server} {dir d : Dir} {record r msg m : Ptr}
  {handle : UInt32} {protocol : Protocol} {course : Course} {answer : Answer} {len : UInt64}
  {delivery : Delivery} {closed opened rest : List Delivery} {nodes : List Ptr}
  {waiting waiting' : Dir → Ptr → List Ptr} {submissions : List Submission} {content new : Msg}

theorem Delivery.Waits.frame (waits : delivery.Waits dir s)
    (same : (after.msgs delivery.key.msg).unlinked = (s.msgs delivery.key.msg).unlinked) :
    delivery.Waits dir after := by
  obtain ⟨totalLen, doneLen, cookie, buf⟩ := unlinked_eq same
  refine ⟨waits.agrees.congr totalLen buf, cookie.trans waits.cookie, fun fresh => ?_⟩
  rw [doneLen]
  exact waits.doneLen fresh

theorem Ledger.frame (ledger : Ledger dir record s nodes closed opened)
    (journal : ∃ more, after.journal = s.journal ++ more ∧
      ∀ action ∈ more, action.concerns dir record = false)
    (content : ∀ m ∈ nodes, (after.msgs m).unlinked = (s.msgs m).unlinked) :
    Ledger dir record after nodes closed opened where
  booked := by
    obtain ⟨more, journal, quiet⟩ := journal
    rw [journal]
    exact ledger.booked.quiet quiet
  nodes := ledger.nodes
  waits delivery member := by
    refine (ledger.waits delivery member).frame (content _ ?_)
    rw [← ledger.nodes]
    exact List.mem_map_of_mem member
  settled := ledger.settled

theorem Asks.ledger
    (asks : Asks dir record protocol course answer len s after closed rest delivery)
    (waits : ∀ other ∈ rest, other.Waits dir after)
    (settled : ∀ other ∈ closed, other.Settled dir) :
    ∃ closed opened, Ledger dir record after
      (if (course.serve dir protocol (s.msgs delivery.key.msg) answer).pending then
        (delivery :: rest).map (fun delivery => delivery.key.msg)
      else rest.map fun delivery => delivery.key.msg) closed opened := by
  cases pending : (course.serve dir protocol (s.msgs delivery.key.msg) answer).pending with
  -- the message waits on, so it stays the first one that is open
  | true =>
    obtain ⟨booked, waits'⟩ := asks.waits pending
    refine ⟨closed, _, booked, rfl, fun other member => ?_, settled⟩
    rcases List.mem_cons.mp member with rfl | later
    · exact waits'
    · exact waits other later
  -- the answer was the last one: the message joins those that are closed
  | false =>
    obtain ⟨booked, settled'⟩ := asks.settles pending
    refine ⟨_, rest, booked, rfl, waits, fun other member => ?_⟩
    rcases List.mem_append.mp member with early | last
    · exact settled other early
    · rw [List.mem_singleton.mp last]
      exact settled'

theorem arrived_agrees (some : content.totalLen ≠ 0) (totalLen : new.totalLen = content.totalLen)
    (sends : dir = .tx → new.buf = content.buf) :
    Delivery.Agrees dir (.arrived ⟨handle, msg, content⟩) new where
  totalLen := totalLen
  some := totalLen ▸ some
  sends := sends
  unbroken _ := ⟨trivial, Nat.zero_le _, rfl⟩

theorem submissions_congr {entries : List (UInt32 × Ptr)}
    (content : ∀ h m, (h, m) ∈ entries → (after.msgs m).unlinked = (s.msgs m).unlinked) :
    (entries.map after.submission).map Submission.unlinked =
      (entries.map s.submission).map Submission.unlinked := by
  rw [List.map_map, List.map_map]
  refine List.map_congr_left fun entry member => ?_
  simp only [Function.comp_apply, Submission.unlinked, Server.submission,
    content entry.1 entry.2 member]

theorem submitted_frame (available : (after.queue dir).available = (s.queue dir).available)
    (content : ∀ h m, (h, m) ∈ (after.queue dir).available →
      (after.msgs m).unlinked = (s.msgs m).unlinked)
    (journal : ∃ more, after.journal = s.journal ++ more ∧ dequeued dir more = []) :
    after.submitted dir = s.submitted dir := by
  obtain ⟨more, journal, nothing⟩ := journal
  have same := submissions_congr content
  rw [Server.submitted, List.map_append, same, journal, dequeued_append, nothing, available,
    List.append_nil, ← List.map_append, Server.submitted]

theorem submitted_dequeued {receiver : Option Ptr}
    (front : (s.queue d).available.head? = some (handle, msg))
    (available : (after.queue dir).available = ((s.dequeue d).queue dir).available)
    (content : ∀ h m, (h, m) ∈ (after.queue dir).available →
      (after.msgs m).unlinked = (s.msgs m).unlinked)
    (journal : ∃ more, after.journal =
      s.journal ++ .took d receiver handle msg (s.msgs msg) :: more ∧ dequeued dir more = []) :
    after.submitted dir = s.submitted dir := by
  obtain ⟨more, journal, nothing⟩ := journal
  have same := submissions_congr content
  rw [Server.submitted, List.map_append, same, journal, List.append_cons, dequeued_append, nothing,
    List.append_nil, dequeued_append, available, ← List.map_append, Server.submitted]
  -- the entry leaves the ring of its own direction, and in the journal it comes right before the rest
  by_cases here : d = dir
  · subst here
    obtain ⟨rest, whole⟩ := List.head?_eq_some_iff.mp front
    rw [dequeue_available, whole]
    simp [dequeued, Server.submission]
  · have nobody : dequeued dir [.took d receiver handle msg (s.msgs msg)] = [] := by
      simp [dequeued, here]
    rw [Server.dequeue, Server.queue_setQueue_of_ne s (Ne.symm here), nobody, List.append_nil]

theorem Kept.frame (kept : Kept config dir record submissions s waiting)
    (owned : Owned config.ringSize after.view waiting')
    (same : waiting' dir record = waiting dir record)
    (journal : ∃ more, after.journal = s.journal ++ more ∧
      ∀ action ∈ more, action.concerns dir record = false)
    (content : ∀ m ∈ waiting dir record, (after.msgs m).unlinked = (s.msgs m).unlinked)
    (submitted : after.submitted dir = s.submitted dir) :
    Kept config dir record submissions after waiting' where
  owned := owned
  ledger := by
    obtain ⟨closed, opened, ledger⟩ := kept.ledger
    rw [same]
    exact ⟨closed, opened, ledger.frame journal content⟩
  submitted := submitted.trans kept.submitted

end

/-! ## Turns -/

section
variable {config : Config} {s after : Server} {dir d : Dir} {record r msg m : Ptr}
  {handle : UInt32} {socket : Socket} {async : Async} {answer : Answer}
  {answers left : List Answer} {waiting : Dir → Ptr → List Ptr} {submissions : List Submission}
  {content : Msg}

theorem Owned.handles_ne (owned : Owned config.ringSize s.view waiting)
    (here : msg ∈ waiting dir record) (there : m ∈ waiting dir record) (other : m ≠ msg) :
    (s.msgs m).cookieSave ≠ (s.msgs msg).cookieSave := by
  intro same
  have lent : ((s.msgs msg).cookieSave, msg) ∈ (s.queue dir).lent := owned.waiting_lent here
  have lent' : ((s.msgs m).cookieSave, m) ∈ (s.queue dir).lent := owned.waiting_lent there
  rw [same] at lent'
  exact other (owned.lent_msg lent lent')

theorem Kept.iterates {more : Bool} (kept : Kept config dir record submissions s waiting)
    (head : Head s d r socket async msg)
    (iterates : Iterates config d s r socket async msg answer after more) :
    ∃ waiting', Kept config dir record submissions after waiting' := by
  obtain ⟨nodes, front⟩ := kept.owned.head head
  obtain ⟨waiting', works⟩ := iterates.works kept.owned head
  have answered := iterates.answered kept.owned head
  have placed := iterates.placed kept.owned head front
  obtain rfl := works.owned.unique placed
  have waits : msg ∈ waiting d r := front ▸ List.mem_cons_self
  have submitted : after.submitted dir = s.submitted dir := by
    refine submitted_frame (answered.available dir) (fun h m member => ?_) answered.dequeues
    exact works.touches.content m (works.available dir h m member).2
  -- only the answer for the first message of this very socket changes its books,
  -- every other one is a frame
  by_cases here : d = dir ∧ r = record
  · obtain ⟨rfl, rfl⟩ := here
    obtain ⟨closed, opened, ledger⟩ := kept.ledger
    -- the books and the chain of the socket begin with the same message
    have messages := ledger.nodes
    rw [front] at messages
    obtain ⟨delivery, rest, rfl, rfl, rfl⟩ := List.map_eq_cons_iff.mp messages
    have nodup := kept.owned.waiting_nodup d r
    rw [front, List.nodup_cons] at nodup
    have wait := ledger.waits delivery List.mem_cons_self
    have others : ∀ other ∈ rest, other.key.msg ∈ waiting d r ∧ other.key.msg ≠ delivery.key.msg := by
      intro other member
      have later : other.key.msg ∈ rest.map (fun delivery => delivery.key.msg) :=
        List.mem_map_of_mem member
      refine ⟨front ▸ List.mem_cons_of_mem _ later, ?_⟩
      intro same
      exact nodup.1 (same ▸ later)
    have asks : Asks d r socket.protocol (s.course d delivery.key.msg) answer
        (if answer.ret = -1 then 0 else (s.msgs delivery.key.msg).totalLen) s after closed rest
        delivery := {
      booked := ledger.booked
      msgs := fun other member => (others other member).2
      -- descriptors that are lent are different, so the completion names one message only
      handles := fun other member => by
        have apart := kept.owned.handles_ne waits (others other member).1 (others other member).2
        rw [(ledger.waits other (List.mem_cons_of_mem _ member)).cookie, wait.cookie] at apart
        exact apart
      agrees := wait.agrees
      reached := wait.doneLen
      fits := iterates.fits
      answered := wait.cookie ▸ answered
      totalLen := works.totalLen
      doneLen := works.doneLen
      cookie := fun pending => (works.cookie pending).trans wait.cookie
      error := fun failed => if_pos failed }
    have later : ∀ other ∈ rest, other.Waits d after := fun other member =>
      (ledger.waits other (List.mem_cons_of_mem _ member)).frame
        (works.touches.content _ (others other member).2)
    refine ⟨_, placed, ?_, submitted.trans kept.submitted⟩
    rw [place_apply, if_pos ⟨rfl, rfl⟩]
    exact asks.ledger later ledger.settled
  · refine ⟨_, kept.frame placed ?_ (answered.elsewhere here) (fun m member => ?_) submitted⟩
    · rw [place_apply, if_neg fun same => here ⟨same.1.symm, same.2.symm⟩]
    · refine works.touches.content m ?_
      rintro rfl
      obtain ⟨rfl, rfl⟩ := kept.owned.waits_once waits member
      exact here ⟨rfl, rfl⟩

theorem Kept.aside (kept : Kept config dir record submissions s waiting) (aside : Aside s after) :
    Kept config dir record submissions after waiting := by
  obtain ⟨more, journal, quiet⟩ := aside.journal
  refine kept.frame (kept.owned.aside aside) rfl ⟨more, journal, fun action member => ?_⟩
    (fun m _ => by rw [aside.msgs]) ?_
  · have := quiet action member
    cases action with
    | took | moved | completed => cases this
    | _ => rfl
  · refine submitted_frame (by rw [aside.queue]) (fun h m _ => by rw [aside.msgs])
      ⟨more, journal, List.filterMap_eq_nil_iff.mpr fun action member => ?_⟩
    have := quiet action member
    cases action with
    | took => cases this
    | _ => rfl

theorem Kept.drops (kept : Kept config dir record submissions s waiting)
    (drops : Drops config r s after) :
    ∃ waiting', Kept config dir record submissions after waiting' := by
  induction drops generalizing waiting with
  | refl => exact ⟨waiting, kept⟩
  | @next s after d msg socket async head _ ih =>
    have iterates : Iterates config d s r socket async msg ⟨-1, [], 0, 0⟩
        (popComplete config d s r socket async msg (-1) 0) (d = .tx) := .drop rfl
    obtain ⟨middle, kept⟩ := kept.iterates head iterates
    exact ih kept

theorem Kept.cleaned (kept : Kept config dir record submissions s waiting)
    (cleaned : CleanedUp config r s after) :
    ∃ waiting', Kept config dir record submissions after waiting' := by
  obtain ⟨called, middle, first, drops, _, last⟩ := cleaned.drops
  obtain ⟨waiting', kept⟩ := (kept.aside first).drops drops
  exact ⟨waiting', kept.aside last⟩

theorem take_queue (other : Dir) :
    (s.take d r handle msg).queue other = (s.dequeue d).queue other := Server.queue_note _ _ _

theorem after_take {more : List Action} (journal : after.journal =
    (s.take d r handle msg).journal ++ more) :
    after.journal = s.journal ++ .took d (some r) handle msg (s.msgs msg) :: more := by
  rw [journal, take_journal, List.append_assoc]
  rfl

theorem Kept.append {queueEnd : Ptr} (kept : Kept config dir record submissions s waiting)
    (taken : Taken s d handle msg r socket async)
    (last : (async.pending d).queueEnd = some queueEnd) :
    ∃ waiting', Kept config dir record submissions
      (append d (s.take d r handle msg) r socket async handle msg queueEnd) waiting' := by
  obtain ⟨waiting', works⟩ := append_works kept.owned taken last
  have placed := kept.owned.appended taken last
  obtain rfl := works.owned.unique placed
  have journal : (PicoServer.append d (s.take d r handle msg) r socket async handle msg
      queueEnd).journal = s.journal ++ [.took d (some r) handle msg (s.msgs msg)] := take_journal
  have available : ∀ other, ((PicoServer.append d (s.take d r handle msg) r socket async handle msg
      queueEnd).queue other).available = ((s.dequeue d).queue other).available := by
    intro other
    rw [append_available, take_queue]
  generalize PicoServer.append d (s.take d r handle msg) r socket async handle msg queueEnd = after
    at works placed journal available ⊢
  have submitted : after.submitted dir = s.submitted dir := by
    refine submitted_dequeued taken.available (available dir) (fun h m member => ?_)
      ⟨[], journal, rfl⟩
    exact works.touches.content m (works.available dir h m member).2
  have nowhere : ∀ m ∈ waiting dir record, m ≠ msg := by
    rintro m waits rfl
    exact kept.owned.available_waits (List.mem_of_head? taken.available) waits
  -- behind messages that wait, the new one opens an entry without any part
  by_cases here : d = dir ∧ r = record
  · obtain ⟨rfl, rfl⟩ := here
    obtain ⟨closed, opened, ledger⟩ := kept.ledger
    refine ⟨_, placed, ⟨closed, opened ++ [.arrived ⟨handle, msg, s.msgs msg⟩], ?_⟩,
      submitted.trans kept.submitted⟩
    rw [place_apply, if_pos ⟨rfl, rfl⟩]
    refine ⟨journal ▸ ledger.booked.took, ?_, fun delivery member => ?_, ledger.settled⟩
    · rw [List.map_append, ledger.nodes]
      rfl
    · rcases List.mem_append.mp member with old | new
      · refine (ledger.waits delivery old).frame (works.touches.content _ (nowhere _ ?_))
        rw [← ledger.nodes]
        exact List.mem_map_of_mem old
      · rw [List.mem_singleton.mp new]
        refine ⟨arrived_agrees taken.length works.totalLen works.sends, works.cookie rfl,
          fun fresh => ?_⟩
        exact congrArg UInt64.toNat (works.doneLen.trans fresh)
  · refine ⟨_, kept.frame placed ?_ ⟨_, journal, fun action member => ?_⟩ (fun m member => ?_)
      submitted⟩
    · rw [place_apply, if_neg fun same => here ⟨same.1.symm, same.2.symm⟩]
    · rw [List.mem_singleton.mp member]
      exact decide_eq_false fun same => here ⟨same.1, Option.some.inj same.2⟩
    · exact works.touches.content m (nowhere m member)

theorem Kept.serves (kept : Kept config dir record submissions s waiting)
    (taken : Taken s d handle msg r socket async) (free : (async.pending d).queue = none)
    (serves : Serves config d (s.take d r handle msg) r socket async handle msg answer after) :
    ∃ waiting', Kept config dir record submissions after waiting' := by
  have room : ((s.take d r handle msg).queue d).used.length < config.ringSize := by
    rw [take_queue, Server.dequeue, Server.queue_setQueue]
    exact kept.owned.used_lt (kept.owned.front taken.available)
  obtain ⟨waiting', works⟩ := serves.works kept.owned taken free
  have answered := serves.answered room
  have placed := serves.placed kept.owned taken free
  have fits := serves.fits
  obtain rfl := works.owned.unique placed
  have submitted : after.submitted dir = s.submitted dir := by
    obtain ⟨more, journal, nothing⟩ : ∃ more, after.journal = (s.take d r handle msg).journal ++
      more ∧ dequeued dir more = [] := answered.dequeues
    refine submitted_dequeued taken.available ?_ (fun h m member => ?_)
      ⟨more, after_take journal, nothing⟩
    · rw [answered.available, take_queue]
    · exact works.touches.content m (works.available dir h m member).2
  by_cases here : d = dir ∧ r = record
  · obtain ⟨rfl, rfl⟩ := here
    -- a message is served at once only where no other waits, so nothing is overtaken
    have alone : waiting d r = [] :=
      (kept.owned.linked d r async taken.transport_eq).first_eq_none.mp free
    obtain ⟨closed, opened, ledger⟩ := kept.ledger
    obtain rfl : opened = [] := List.map_eq_nil_iff.mp (ledger.nodes.trans alone)
    have asks : Asks d r socket.protocol ⟨[], 0, true⟩ answer
        (if answer.ret = -1 then 0
          else directLen d ((s.take d r handle msg).msgs msg).totalLen answer.ret)
        (s.take d r handle msg) after closed [] (.arrived ⟨handle, msg, s.msgs msg⟩) := {
      booked := by
        rw [take_journal]
        exact ledger.booked.took
      msgs := fun _ member => absurd member List.not_mem_nil
      handles := fun _ member => absurd member List.not_mem_nil
      agrees := by
        rw [take_msgs]
        exact arrived_agrees taken.length rfl fun _ => rfl
      reached := fun _ => rfl
      fits := by
        rw [UInt64.sub_zero]
        exact fits
      answered := answered
      totalLen := by
        rw [take_msgs]
        exact works.totalLen
      doneLen := by
        rw [take_msgs]
        exact works.doneLen
      cookie := fun pending => works.cookie (by rw [take_msgs] at pending; exact pending)
      error := fun failed => if_pos failed }
    have ledger := asks.ledger (fun _ member => absurd member List.not_mem_nil) ledger.settled
    refine ⟨_, placed, ?_, submitted.trans kept.submitted⟩
    rw [place_apply, if_pos ⟨rfl, rfl⟩, alone]
    rw [take_msgs] at ledger
    exact ledger
  · have nowhere : ∀ m ∈ waiting dir record, m ≠ msg := by
      rintro m waits rfl
      exact kept.owned.available_waits (List.mem_of_head? taken.available) waits
    obtain ⟨more, journal, quiet⟩ := answered.elsewhere here
    refine ⟨_, kept.frame placed ?_ ⟨_, after_take journal, fun action member => ?_⟩
      (fun m member => ?_) submitted⟩
    · rw [place_apply, if_neg fun same => here ⟨same.1.symm, same.2.symm⟩]
    · rcases List.mem_cons.mp member with rfl | later
      · exact decide_eq_false fun same => here ⟨same.1, Option.some.inj same.2⟩
      · exact quiet action later
    · exact works.touches.content m (nowhere m member)

theorem Kept.refuse (kept : Kept config dir record submissions s waiting)
    (front : (s.queue d).available.head? = some (handle, msg)) :
    Kept config dir record submissions (refuse config d (s.dequeue d) handle msg) waiting := by
  have works := refuse_works kept.owned front
  obtain ⟨content, journal⟩ : ∃ content, (PicoServer.refuse config d (s.dequeue d) handle msg).journal =
      s.journal ++ [.took d none handle msg (s.msgs msg), .completed d none handle 0 content] :=
    refuse_journal (kept.owned.used_lt (kept.owned.front front))
  refine kept.frame works.owned rfl ⟨_, journal, fun action member => ?_⟩ (fun m member => ?_) ?_
  · rcases List.mem_cons.mp member with rfl | last
    · exact decide_eq_false fun same => nomatch same.2
    · rw [List.mem_singleton.mp last]
      exact decide_eq_false fun same => nomatch same.2
  · refine works.touches.content m ?_
    rintro rfl
    exact kept.owned.available_waits (List.mem_of_head? front) member
  · refine submitted_dequeued front (refuse_available dir) (fun h m member => ?_) ⟨_, journal, rfl⟩
    exact works.touches.content m (works.available dir h m member).2

theorem Kept.handled (kept : Kept config dir record submissions s waiting)
    (done : handleTurn config s d answers = .ok after) :
    ∃ waiting', Kept config dir record submissions after waiting' := by
  rcases handleTurn_takes done with ⟨rfl, _⟩ | ⟨handle, msg, left, front, length, takes⟩
  · exact ⟨waiting, kept⟩
  · cases takes with
    | refuse => exact ⟨waiting, kept.refuse front⟩
    | append destined _ last => exact kept.append (destined.taken front length) last
    | serve destined free serves => exact kept.serves (destined.taken front length) free serves

theorem Kept.served (kept : Kept config dir record submissions s waiting)
    (done : serveTurn config s d r answer = .ok after) :
    ∃ waiting', Kept config dir record submissions after waiting' := by
  rcases serveTurn_iterates done with ⟨rfl, _⟩ | ⟨socket, async, msg, more, head, iterates⟩
  · exact ⟨waiting, kept⟩
  · exact kept.iterates head iterates

theorem Kept.submits (kept : Kept config dir record submissions s waiting)
    (admits : s.Admits config (.submit d handle msg content)) :
    Kept config dir record
      (submissions ++ ((Turn.other (.submit d handle msg content)).submission dir).toList)
      ((s.setMsg msg content).setQueue d { s.queue d with
        available := (s.queue d).available ++ [(handle, msg)]
        lent := (s.queue d).lent ++ [(handle, msg)] }) waiting := by
  have owned : Owned config.ringSize ((s.setMsg msg content).setQueue d { s.queue d with
      available := (s.queue d).available ++ [(handle, msg)]
      lent := (s.queue d).lent ++ [(handle, msg)] }).view waiting := by
    rw [view_submit]
    exact kept.owned.submit admits.1 admits.2.1 admits.2.2
  have journal : ((s.setMsg msg content).setQueue d { s.queue d with
      available := (s.queue d).available ++ [(handle, msg)]
      lent := (s.queue d).lent ++ [(handle, msg)] }).journal = s.journal ++ [] := by
    rw [Server.journal_setQueue, List.append_nil]
    rfl
  have msgs : ((s.setMsg msg content).setQueue d { s.queue d with
      available := (s.queue d).available ++ [(handle, msg)]
      lent := (s.queue d).lent ++ [(handle, msg)] }).msgs = Function.update s.msgs msg content :=
    Server.msgs_setQueue _ _ _
  have ring : (((s.setMsg msg content).setQueue d { s.queue d with
      available := (s.queue d).available ++ [(handle, msg)]
      lent := (s.queue d).lent ++ [(handle, msg)] }).queue dir).available =
      (s.queue dir).available ++ if d = dir then [(handle, msg)] else [] := by
    by_cases here : d = dir
    · subst here
      rw [Server.queue_setQueue, if_pos rfl]
    · rw [Server.queue_setQueue_of_ne _ (Ne.symm here), Server.queue_setMsg, if_neg here,
        List.append_nil]
  generalize (s.setMsg msg content).setQueue d { s.queue d with
      available := (s.queue d).available ++ [(handle, msg)]
      lent := (s.queue d).lent ++ [(handle, msg)] } = after at owned journal msgs ring ⊢
  -- the environment fills a buffer only while the server has not got it
  have lent : ∀ e h m, (h, m) ∈ (s.queue e).lent → (after.msgs m).unlinked = (s.msgs m).unlinked := by
    intro e h m lent
    rw [msgs, Function.update_of_ne]
    rintro rfl
    apply admits.1
    cases e with
    | tx => exact List.mem_map_of_mem (f := Prod.snd) (List.mem_append_left _ lent)
    | rx => exact List.mem_map_of_mem (f := Prod.snd) (List.mem_append_right _ lent)
  have earlier : ((s.queue dir).available.map after.submission).map Submission.unlinked =
      ((s.queue dir).available.map s.submission).map Submission.unlinked :=
    submissions_congr fun h m member => lent dir h m (kept.owned.available_lent member)
  obtain ⟨closed, opened, ledger⟩ := kept.ledger
  refine ⟨owned, ⟨closed, opened, ledger.frame ⟨[], journal, nofun⟩ fun m waits =>
    lent dir _ m (kept.owned.waiting_lent waits)⟩, ?_⟩
  have before := kept.submitted
  rw [Server.submitted, List.map_append] at before
  rw [Server.submitted, journal, List.append_nil, ring, List.map_append, List.map_append,
    List.map_append, earlier, ← List.append_assoc, before, List.map_append]
  by_cases here : d = dir
  · simp [Turn.submission, Server.submission, msgs, here]
  · simp [Turn.submission, here]

theorem Kept.collected (kept : Kept config dir record submissions s waiting) :
    Kept config dir record submissions
      (s.setQueue d { s.queue d with used := (s.queue d).used.tail }) waiting := by
  refine kept.frame ?_ rfl ⟨[], ?_, nofun⟩ (fun m _ => by rw [Server.msgs_setQueue]) ?_
  · rw [view_setQueue]
    exact kept.owned.collect
  · rw [Server.journal_setQueue, List.append_nil]
  · refine submitted_frame ?_ (fun h m _ => by rw [Server.msgs_setQueue]) ⟨[], ?_, rfl⟩
    · by_cases here : dir = d
      · rw [here, Server.queue_setQueue]
      · rw [Server.queue_setQueue_of_ne _ here]
    · rw [Server.journal_setQueue, List.append_nil]

theorem Kept.effect {event : Event} (kept : Kept config dir record submissions s waiting)
    (effect : MsgEffect config s event after)
    (other : ∀ d h m content, event ≠ .submit d h m content) :
    ∃ waiting', Kept config dir record submissions after waiting' := by
  cases effect with
  | aside aside => exact ⟨waiting, kept.aside aside⟩
  | cleaned cleaned => exact kept.cleaned cleaned
  | submit => exact absurd rfl (other _ _ _ _)
  | collect => exact ⟨waiting, kept.collected⟩

theorem Kept.turn {turn : Turn} {reply : Reply}
    (kept : Kept config dir record submissions s waiting)
    (allowed : (turns config).allowed s turn) (done : s.turn config turn = .ok (after, reply)) :
    ∃ waiting', Kept config dir record (submissions ++ (turn.submission dir).toList) after
      waiting' := by
  have quiet : ∀ {other : Turn}, other.submission dir = none →
      submissions ++ (other.submission dir).toList = submissions := by
    intro other none
    rw [none, Option.toList_none, List.append_nil]
  cases turn with
  | handle d answers =>
    obtain ⟨handled, handling, done⟩ := bind_ok.mp done
    obtain ⟨rfl, _⟩ := pair_ok.mp done
    rw [quiet rfl]
    exact kept.handled handling
  | serve d r answer =>
    obtain ⟨served, serving, done⟩ := bind_ok.mp done
    obtain ⟨rfl, _⟩ := pair_ok.mp done
    rw [quiet rfl]
    exact kept.served serving
  | report socket ev memory =>
    obtain ⟨reported, reporting, done⟩ := bind_ok.mp done
    obtain ⟨rfl, _⟩ := pair_ok.mp done
    rw [quiet rfl]
    exact ⟨waiting, kept.aside (reportEvent_aside reporting)⟩
  -- all that is left serves no message: asides, closed sockets and the rings themselves
  | other event =>
    obtain ⟨permits, admits, loops⟩ := allowed event rfl
    cases event with
    | submit d h m content =>
      obtain ⟨rfl, _⟩ := pair_ok.mp done
      exact ⟨waiting, kept.submits admits⟩
    | control | communicate | callback | putEvent | irq | notify | collect =>
      rw [quiet rfl]
      exact kept.effect (step_effect kept.owned permits admits loops done) nofun

end

/-! ## Runs -/

def Delivery.message (s : Server) (delivery : Delivery) : Msg :=
  match delivery.result with
  | some (_, content) => content
  | none => s.msgs delivery.key.msg

/-- The stack has been handed the message from its start on, without a gap or a repetition. -/
structure Delivery.Sound (dir : Dir) (s : Server) (delivery : Delivery) : Prop where
  adjoin : Adjoin 0 delivery.parts
  sent : dir = .tx → delivery.bytes <+: delivery.key.content.payload
  received : dir = .rx → delivery.bytes <+: (delivery.message s).payload
  whole : dir = .tx → ∀ len content, delivery.result = some (len, content) →
    len = delivery.key.content.totalLen → delivery.bytes = delivery.key.content.payload

/-- The stream of a socket is in the order of its messages. -/
structure InOrder (dir : Dir) (record : Ptr) (trace : List (Turn × Reply)) (s : Server) : Prop where
  submitted : ((deliveries dir record s.journal).map fun delivery => delivery.key.unlinked).Sublist
    ((submissions dir trace).map Submission.unlinked)
  stream : stream dir record s.journal = (deliveries dir record s.journal).flatMap Delivery.bytes
  overtaken : (deliveries dir record s.journal).Pairwise fun earlier later =>
    earlier.result = none → later.parts = [] ∧ later.result = none
  sound : ∀ delivery ∈ deliveries dir record s.journal, delivery.key.content.doneLen = 0 →
    delivery.Sound dir s

section
variable {config : Config} {s start : Server} {dir : Dir} {record : Ptr} {delivery : Delivery}
  {trace : List (Turn × Reply)} {content : Msg}

theorem Delivery.Agrees.held (agrees : delivery.Agrees dir content)
    (fresh : delivery.key.content.doneLen = 0) : delivery.bytes <+: content.payload := by
  have unbroken := agrees.unbroken fresh
  rw [unbroken.held]
  exact slice_take unbroken.inside

theorem Delivery.Agrees.payload (agrees : delivery.Agrees .tx content) :
    content.payload = delivery.key.content.payload := by
  rw [Msg.payload, Msg.payload, agrees.totalLen, slice_congr (agrees.sends rfl)]

theorem Delivery.Waits.sound (waits : delivery.Waits dir s) (opened : delivery.result = none)
    (fresh : delivery.key.content.doneLen = 0) : delivery.Sound dir s where
  adjoin := (waits.agrees.unbroken fresh).adjoin
  sent send := by
    subst send
    rw [← waits.agrees.payload]
    exact waits.agrees.held fresh
  received _ := by
    rw [Delivery.message, opened]
    exact waits.agrees.held fresh
  whole _ _ _ ended := by
    rw [opened] at ended
    cases ended

theorem Delivery.Settled.sound (settled : delivery.Settled dir) (closed : delivery.result ≠ none)
    (fresh : delivery.key.content.doneLen = 0) : delivery.Sound dir s := by
  obtain ⟨⟨len, content⟩, result⟩ := Option.ne_none_iff_exists'.mp closed
  have agrees := settled.agrees len content result
  refine ⟨(agrees.unbroken fresh).adjoin, fun send => ?_, fun _ => ?_, fun send _ _ same whole => ?_⟩
  · subst send
    rw [← agrees.payload]
    exact agrees.held fresh
  · rw [Delivery.message, result]
    exact agrees.held fresh
  · obtain ⟨rfl, rfl⟩ := Prod.mk.inj (Option.some.inj (result.symm.trans same))
    subst send
    rw [← agrees.payload, Msg.payload,
      ← settled.full len content result rfl fresh (whole.trans agrees.totalLen.symm)]
    exact (agrees.unbroken fresh).held

theorem submissions_concat {turn : Turn} {reply : Reply} :
    submissions dir (trace ++ [(turn, reply)]) =
      submissions dir trace ++ (turn.submission dir).toList := by
  rw [submissions, List.filterMap_append]
  cases here : turn.submission dir with
  | none | some => simp [submissions, here]

theorem run_kept (idle : start.Idle config) (run : (turns config).Run start trace s) (dir : Dir)
    (record : Ptr) : ∃ waiting, Kept config dir record (submissions dir trace) s waiting := by
  -- on the run, with the books of the socket and its waiting messages as the invariant
  induction run with
  | start =>
    refine ⟨_, idle.owned, ⟨[], [], ?_, rfl, nofun, nofun⟩, ?_⟩
    · rw [idle.journal]
      exact booked_nil
    · rw [Server.submitted, idle.journal, idle.available]
      rfl
  | next _ allowed step ih =>
    obtain ⟨waiting, kept⟩ := ih
    rw [submissions_concat]
    exact kept.turn allowed (turns_step.mp step)

/-- In every run, whatever the turns and the answers of the stack: the bytes that the stack accepts from
a socket, or receives for it, are those of its messages in the order of their submission. -/
theorem streams_in_order (idle : start.Idle config) (run : (turns config).Run start trace s)
    (dir : Dir) (record : Ptr) : InOrder dir record trace s := by
  obtain ⟨waiting, kept⟩ := run_kept idle run dir record
  obtain ⟨closed, opened, ledger⟩ := kept.ledger
  refine ⟨?_, ledger.booked.stream, ledger.booked.serving.in_order, fun delivery member fresh => ?_⟩
  -- the messages of the socket are among those that left the ring, in the same order
  · have all := kept.submitted
    rw [Server.submitted, List.map_append] at all
    rw [← all]
    have keys := (deliveries_sublist dir record s.journal).map Submission.unlinked
    rw [List.map_map] at keys
    exact keys.trans (List.sublist_append_left _ _)
  · rw [ledger.booked.serving.whole] at member
    rcases List.mem_append.mp member with early | late
    · exact (ledger.settled delivery early).sound (ledger.booked.serving.done delivery early) fresh
    · exact (ledger.waits delivery late).sound (ledger.booked.serving.still delivery late) fresh

end

def countTen (first : UInt8) : Msg :=
  { blankMsg with socketFd := 1, totalLen := 10, buf := fun i => first + UInt8.ofNat i }

def openTcp : Turn := .other (.control 0 (.open false (some 0x1000) 0x2000 (true, true)))

theorem openTcp_allowed : (turns twoClients).allowed (.init fun _ => blankMsg) openTcp := by
  rintro _ ⟨⟩
  exact ⟨⟨by decide, fun _ _ => rfl⟩, nofun, rfl⟩

/-- The stack takes the first message in two parts, and then some of the second one. -/
def sendInParts : List Turn :=
  [.other (.control 0 (.setAsync 1 true true)), .other (.submit .tx 7 0x3000 (countTen 0)),
    .handle .tx [⟨4, [], 0, 0⟩], .other (.submit .tx 8 0x3100 (countTen 10)), .handle .tx [],
    .serve .tx 0x1000 ⟨6, [], 0, 0⟩, .serve .tx 0x1000 ⟨3, [], 0, 0⟩]

theorem streams_in_order_parts : ∃ trace s,
    (turns twoClients).Run (.init fun _ => blankMsg) trace s ∧
      stream .tx 0x1000 s.journal = [0, 1, 2, 3, 4, 5, 6, 7, 8, 9, 10, 11, 12] ∧
      InOrder .tx 0x1000 trace s := by
  have evaluated : (((turns twoClients).step (.init fun _ => blankMsg) openTcp).bind fun opened =>
      (turns twoClients).exec (fun s turn => turn.checked twoClients s && true)
        [(openTcp, opened.2)] opened.1 sendInParts).any (fun result =>
          decide (stream .tx 0x1000 result.2.journal =
            [0, 1, 2, 3, 4, 5, 6, 7, 8, 9, 10, 11, 12])) = true := by
    decide +kernel
  obtain ⟨⟨trace, s⟩, done, bytes⟩ := (Option.any_eq_true _ _).mp evaluated
  obtain ⟨run, _⟩ := first_run openTcp_allowed (fun _ _ => True) (fun _ _ _ => trivial) trivial done
  exact ⟨trace, s, run, of_decide_eq_true bytes, streams_in_order (init_idle _) run .tx 0x1000⟩

end GlobalComponents.PicoServer
