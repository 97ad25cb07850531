import GlobalComponents.PicoServer.Custody
import GlobalComponents.PicoServer.Effects
import GlobalComponents.PicoServer.Signals

/-! Why an asynchronous message waits.

A message stays in front of a pending list only because the stack has just moved less than what was left
of it; on the receive side also because `rx_socket` has stopped after a failure. The next event for its
direction asks the stack again.
-/

set_option autoImplicit false

namespace GlobalComponents.PicoServer

open Library

def Action.answers (dir : Dir) (record : Ptr) : Action → Bool
  | .moved d r _ _ _ => d = dir ∧ r = record
  | .completed d receiver _ _ _ => d = dir ∧ receiver = some record
  | _ => false

def lastAnswer (dir : Dir) (record : Ptr) (journal : List Action) : Option Action :=
  (journal.filter (Action.answers dir record)).getLast?

/-- The stack has moved less than what was left of a message from the offset on; of a datagram,
nothing. -/
structure Msg.Short (content : Msg) (dir : Dir) (protocol : Protocol) (offset : UInt64)
    (bytes : List UInt8) : Prop where
  doneLen : content.doneLen = offset + UInt64.ofNat bytes.length
  left : match dir, protocol with
    | .rx, .udp => bytes = []
    | .rx, .tcp | .tx, _ => UInt64.ofNat bytes.length < content.totalLen - offset

/-- Why a message waits in front of a pending list, by the last answer of the stack for the list. -/
inductive Stalls (dir : Dir) (record msg : Ptr) (protocol : Protocol) (content : Msg) :
    Option Action → Prop where
  | short {offset : UInt64} {bytes : List UInt8} : content.Short dir protocol offset bytes →
      Stalls dir record msg protocol content (some (.moved dir record msg offset bytes))
  /-- `rx_socket` returns after a failure, and leaves the messages behind it. -/
  | failed {handle : UInt32} {gone : Msg} : dir = .rx → gone.doneLen = -1 →
      Stalls dir record msg protocol content (some (.completed .rx (some record) handle 0 gone))

/-- The first message of a pending list waits for a cause. -/
def Excused (s : Server) (waiting : Dir → Ptr → List Ptr) (dir : Dir) (record : Ptr) : Prop :=
  ∀ socket msg rest, s.records record = some socket → waiting dir record = msg :: rest →
    Stalls dir record msg socket.protocol (s.msgs msg) (lastAnswer dir record s.journal)

/-- The messages are owned, and those in front wait for a cause. -/
def Server.Settled (config : Config) (s : Server) : Prop :=
  ∃ waiting, Owned config.ringSize s.view waiting ∧ ∀ d r, Excused s waiting d r

def Retried (dir : Dir) (record : Ptr) (s after : Server) : Prop :=
  ∃ more, after.journal = s.journal ++ more ∧ ∃ action ∈ more, action.answers dir record = true

variable {config : Config} {s t after : Server} {dir d : Dir} {record r msg : Ptr} {handle : UInt32}
  {socket : Socket} {async : Async} {answer : Answer} {answers left : List Answer}
  {waiting waiting' waiting'' : Dir → Ptr → List Ptr} {event : Event} {reply : Reply}
  {journal more : List Action} {content : Msg}

theorem Retried.before (retried : Retried dir record s t) (later : t.journal <+: after.journal) :
    Retried dir record s after := by
  obtain ⟨more, journal, action, member, answers⟩ := retried
  obtain ⟨late, whole⟩ := later
  refine ⟨more ++ late, ?_, action, List.mem_append_left _ member, answers⟩
  rw [← whole, journal, List.append_assoc]

theorem Retried.since (earlier : s.journal <+: t.journal) (retried : Retried dir record t after) :
    Retried dir record s after := by
  obtain ⟨more, journal, action, member, answers⟩ := retried
  obtain ⟨early, whole⟩ := earlier
  refine ⟨early ++ more, ?_, action, List.mem_append_right _ member, answers⟩
  rw [journal, ← whole, List.append_assoc]

theorem lastAnswer_quiet (quiet : ∀ action ∈ more, action.answers dir record = false) :
    lastAnswer dir record (journal ++ more) = lastAnswer dir record journal := by
  have none : more.filter (Action.answers dir record) = [] :=
    List.filter_eq_nil_iff.mpr fun action member => by simp [quiet action member]
  rw [lastAnswer, List.filter_append, none, List.append_nil, lastAnswer]

theorem lastAnswer_concat {action : Action} (answers : action.answers dir record = true) :
    lastAnswer dir record (journal ++ [action]) = some action := by
  rw [lastAnswer, List.filter_append, List.filter_singleton, answers]
  exact List.getLast?_concat

theorem moved_answers {offset : UInt64} {bytes : List UInt8} :
    (Action.moved dir record msg offset bytes).answers dir record = true :=
  decide_eq_true ⟨rfl, rfl⟩

theorem completed_answers {len : UInt64} :
    (Action.completed dir (some record) handle len content).answers dir record = true :=
  decide_eq_true ⟨rfl, rfl⟩

theorem Action.answers_concerns {action : Action} (answers : action.answers dir record = true) :
    action.concerns dir record = true := by
  cases action with
  | moved | completed => exact answers
  | _ => cases answers

theorem answers_quiet (quiet : ∀ action ∈ more, action.concerns dir record = false) :
    ∀ action ∈ more, action.answers dir record = false := by
  intro action member
  have elsewhere := quiet action member
  cases here : action.answers dir record with
  | false => rfl
  | true => rw [← elsewhere, Action.answers_concerns here]

theorem aside_quiet (quiet : ∀ action ∈ more, action.isAside = true) :
    ∀ action ∈ more, action.answers dir record = false := by
  intro action member
  have aside := quiet action member
  cases action with
  | moved | completed => cases aside
  | _ => rfl

/-! ## Lists that are not worked on -/

theorem Msg.Short.same {content' : Msg} {protocol : Protocol} {offset : UInt64} {bytes : List UInt8}
    (short : content.Short dir protocol offset bytes)
    (same : content'.unlinked = content.unlinked) : content'.Short dir protocol offset bytes := by
  obtain ⟨totalLen, doneLen, -, -⟩ := unlinked_eq same
  refine ⟨doneLen.trans short.doneLen, ?_⟩
  rw [totalLen]
  exact short.left

theorem Stalls.same {content' : Msg} {protocol : Protocol} {last : Option Action}
    (stalls : Stalls dir record msg protocol content last)
    (same : content'.unlinked = content.unlinked) :
    Stalls dir record msg protocol content' last := by
  cases stalls with
  | short short => exact .short (short.same same)
  | failed rx failed => exact .failed rx failed

theorem Excused.same (excused : Excused s waiting dir record)
    (first : ∀ msg rest, waiting' dir record = msg :: rest → ∃ rest', waiting dir record = msg :: rest')
    (content : ∀ m ∈ waiting dir record, (after.msgs m).unlinked = (s.msgs m).unlinked)
    (protocol : (after.records record).map Socket.protocol = (s.records record).map Socket.protocol)
    (last : lastAnswer dir record after.journal = lastAnswer dir record s.journal) :
    Excused after waiting' dir record := by
  intro socket msg rest held front
  obtain ⟨rest', before⟩ := first msg rest front
  rw [held] at protocol
  obtain ⟨socket', held', same⟩ := Option.map_eq_some_iff.mp protocol.symm
  rw [last, ← same]
  refine (excused socket' msg rest' held' before).same (content msg ?_)
  rw [before]
  exact List.mem_cons_self

theorem Excused.none (empty : waiting dir record = []) : Excused s waiting dir record := by
  intro socket msg rest _ front
  rw [empty] at front
  cases front

structure Onward (config : Config) (own : Dir → Ptr → Prop) (s after : Server)
    (waiting waiting' : Dir → Ptr → List Ptr) : Prop where
  owned : Owned config.ringSize after.view waiting'
  journal : s.journal <+: after.journal
  stays : ∀ d r, ¬own d r → waiting d r ≠ [] → waiting' d r ≠ []
  excused : ∀ d r, ¬own d r → Excused s waiting d r → Excused after waiting' d r

namespace Onward

variable {own : Dir → Ptr → Prop}

theorem refl (owned : Owned config.ringSize s.view waiting) :
    Onward config own s s waiting waiting :=
  ⟨owned, List.prefix_refl _, fun _ _ _ => id, fun _ _ _ => id⟩

theorem trans (first : Onward config own s t waiting waiting')
    (second : Onward config own t after waiting' waiting'') :
    Onward config own s after waiting waiting'' where
  owned := second.owned
  journal := first.journal.trans second.journal
  stays d r other some := second.stays d r other (first.stays d r other some)
  excused d r other excused := second.excused d r other (first.excused d r other excused)

theorem weaken {more : Dir → Ptr → Prop} (onward : Onward config own s after waiting waiting')
    (wider : ∀ d r, own d r → more d r) : Onward config more s after waiting waiting' where
  owned := onward.owned
  journal := onward.journal
  stays d r other := onward.stays d r fun mine => other (wider d r mine)
  excused d r other := onward.excused d r fun mine => other (wider d r mine)

theorem whole (onward : Onward config (fun d r => d = dir ∧ r = record) s after waiting waiting')
    (stays : waiting dir record ≠ [] → waiting' dir record ≠ [])
    (excused : Excused s waiting dir record → Excused after waiting' dir record) :
    Onward config (fun _ _ => False) s after waiting waiting' where
  owned := onward.owned
  journal := onward.journal
  stays d r _ := by
    by_cases mine : d = dir ∧ r = record
    · obtain ⟨rfl, rfl⟩ := mine
      exact stays
    · exact onward.stays d r mine
  excused d r _ := by
    by_cases mine : d = dir ∧ r = record
    · obtain ⟨rfl, rfl⟩ := mine
      exact excused
    · exact onward.excused d r mine

theorem works {receiver : Option Ptr} {course : Course} {len : UInt64}
    (works : Works config dir receiver handle msg course len s after waiting waiting'')
    (owned : Owned config.ringSize after.view waiting')
    (lists : ∀ d r, ¬own d r → waiting' d r = waiting d r)
    (away : ∀ d r, ¬own d r → msg ∉ waiting d r)
    (quiet : ∃ more, after.journal = s.journal ++ more ∧ ∀ d r, ¬own d r →
      ∀ action ∈ more, action.answers d r = false) :
    Onward config own s after waiting waiting' where
  owned := owned
  journal := by
    obtain ⟨more, journal, -⟩ := quiet
    rw [journal]
    exact List.prefix_append _ _
  stays d r other some := by
    rw [lists d r other]
    exact some
  excused d r other excused := by
    obtain ⟨more, journal, quiet⟩ := quiet
    refine excused.same (fun m rest front => ⟨rest, ?_⟩) (fun m member => ?_)
      (works.touches.protocol r) ?_
    · rw [← lists d r other]
      exact front
    · exact works.touches.content m fun same => away d r other (same ▸ member)
    · rw [journal, lastAnswer_quiet (quiet d r other)]

end Onward

/-! ## The list that is worked on -/

section
variable {protocol : Protocol} {course : Course} {len : UInt64}

theorem Answered.retried (answered : Answered dir protocol record handle msg course answer len s after) :
    Retried dir record s after := by
  refine ⟨_, by rw [answered.journal, List.append_assoc], ?_⟩
  by_cases failed : answer.ret = -1
  · rw [Course.serve_failed _ _ failed]
    exact ⟨_, List.mem_append_right _ (List.mem_singleton_self _), completed_answers⟩
  · rw [Msg.moves, if_neg failed]
    exact ⟨_, List.mem_append_left _ (List.mem_singleton_self _), moved_answers⟩

/-- The stack has moved too little, and the message says how much. -/
theorem Answered.stalls (answered : Answered dir protocol record handle msg course answer len s after)
    (transfers : Transfers dir ((s.msgs msg).totalLen - course.doneLen) answer)
    (short : waits dir protocol answer.ret ((s.msgs msg).totalLen - course.doneLen))
    (totalLen : (after.msgs msg).totalLen = (s.msgs msg).totalLen)
    (doneLen : (after.msgs msg).doneLen = course.doneLen + sizeT answer.ret) :
    Stalls dir record msg protocol (after.msgs msg) (lastAnswer dir record after.journal) := by
  have length : ((s.msgs msg).bytes dir course.doneLen answer).length = (sizeT answer.ret).toNat :=
    bytes_length transfers.fits transfers.ret
  have some : UInt64.ofNat ((s.msgs msg).bytes dir course.doneLen answer).length =
      sizeT answer.ret := by
    rw [length, UInt64.ofNat_toNat]
  have journal := answered.journal
  rw [Course.serve_short _ _ transfers.ret short, Msg.moves, if_neg transfers.ret] at journal
  rw [journal, if_pos rfl, List.append_nil, List.map_singleton, lastAnswer_concat moved_answers]
  refine .short ⟨by rw [doneLen, some], ?_⟩
  rw [some, totalLen]
  cases dir with
  | tx => exact short
  | rx =>
    cases protocol with
    | tcp => exact short.elim And.right fun udp => by cases udp.1
    | udp =>
      obtain ⟨tcp, _⟩ | ⟨_, nothing⟩ := short
      · cases tcp
      · refine List.length_eq_zero_iff.mp (length.trans ?_)
        rw [nothing]
        rfl

/-- `rx_socket` has failed. -/
theorem Answered.fails (answered : Answered .rx protocol record handle msg course answer 0 s after)
    (failed : answer.ret = -1) (doneLen : (after.msgs msg).doneLen = -1) (other : Ptr)
    (content : Msg) : Stalls .rx record other protocol content
      (lastAnswer .rx record after.journal) := by
  have journal := answered.journal
  rw [Course.serve_failed _ _ failed, Msg.moves, if_pos failed] at journal
  rw [journal, List.map_nil, List.append_nil, if_neg Bool.false_ne_true,
    lastAnswer_concat completed_answers]
  exact .failed rfl doneLen

end

theorem Answered.quiet {protocol : Protocol} {course : Course} {len : UInt64}
    (answered : Answered dir protocol record handle msg course answer len s after) :
    ∃ more, after.journal = s.journal ++ more ∧ ∀ d r, ¬(d = dir ∧ r = record) →
      ∀ action ∈ more, action.answers d r = false := by
  refine ⟨_, by rw [answered.journal, List.append_assoc], fun d r other => ?_⟩
  obtain ⟨more, journal, quiet⟩ := answered.elsewhere fun same => other ⟨same.1.symm, same.2.symm⟩
  rw [answered.journal, List.append_assoc] at journal
  rw [List.append_cancel_left journal]
  exact answers_quiet quiet

theorem Touches.protocol_eq {socket' : Socket} (touches : Touches dir handle msg s after)
    (held : s.records record = some socket) (held' : after.records record = some socket') :
    socket'.protocol = socket.protocol := by
  have same := touches.protocol record
  rw [held', held] at same
  exact Option.some.inj same

/-- `tx_socket` and `rx_socket` ask for the first message. They stop only with a cause for the next
one. -/
theorem Iterates.onward {again : Bool} (owned : Owned config.ringSize s.view waiting)
    (head : Head s dir record socket async msg)
    (iterates : Iterates config dir s record socket async msg answer after again) :
    ∃ waiting', Onward config (fun d r => d = dir ∧ r = record) s after waiting waiting' ∧
      (again = false → Excused after waiting' dir record) ∧ Retried dir record s after := by
  obtain ⟨rest, front⟩ := owned.head head
  have waits : msg ∈ waiting dir record := front ▸ List.mem_cons_self
  have placed := iterates.placed owned head front
  have answered := iterates.answered owned head
  obtain ⟨_, works⟩ := iterates.works owned head
  refine ⟨_, .works works placed (fun d r other => by rw [place_apply, if_neg other])
    (fun d r other again => other (owned.waits_once waits again)) answered.quiet,
    fun stops => ?_, answered.retried⟩
  intro socket' m rest' held' front'
  rw [works.touches.protocol_eq head.held held']
  cases iterates with
  | drop failed =>
    have rx : dir = .rx := by
      cases dir with
      | tx => exact absurd stops (by simp)
      | rx => rfl
    subst rx
    rw [if_pos failed] at answered
    refine answered.fails failed ?_ m _
    rw [works.doneLen, Course.serve_failed _ _ failed]
  | advance transfers short =>
    have doneLen := works.doneLen
    rw [Course.serve_short (s.course dir msg) (s.msgs msg) transfers.ret short] at doneLen
    rw [place_apply, if_pos ⟨rfl, rfl⟩,
      Course.serve_short (s.course dir msg) _ transfers.ret short, if_pos rfl] at front'
    cases front'
    exact answered.stalls transfers short works.totalLen doneLen
  | pop => cases stops

/-- A message that is served at once waits with its cause or not at all. -/
theorem Serves.onward (owned : Owned config.ringSize s.view waiting)
    (taken : Taken s dir handle msg record socket async) (free : (async.pending dir).queue = none)
    (serves : Serves config dir (s.take dir record handle msg) record socket async handle msg answer
      after) :
    ∃ waiting', Onward config (fun _ _ => False) s after waiting waiting' := by
  have front := List.mem_of_head? taken.available
  have alone : waiting dir record = [] :=
    (owned.linked dir record async taken.transport_eq).first_eq_none.mp free
  have placed := serves.placed owned taken free
  obtain ⟨_, works⟩ := serves.works owned taken free
  have room : ((s.take dir record handle msg).view.queue dir).used.length < config.ringSize := by
    rw [view_take]
    exact used_dequeue.trans_lt (owned.used_lt (owned.front taken.available))
  have answered := serves.answered room
  have msgs : (s.take dir record handle msg).msgs = s.msgs := take_msgs
  obtain ⟨more, journal, quiet⟩ := answered.quiet
  rw [take_journal, List.append_assoc] at journal
  have onward := Onward.works works placed
    (fun d r (other : ¬(d = dir ∧ r = record)) => by rw [place_apply, if_neg other])
    (fun d r _ => owned.available_waits front) ⟨_, journal, fun d r other action member => by
      rcases List.mem_cons.mp member with rfl | member
      · rfl
      · exact quiet d r other action member⟩
  refine ⟨_, onward.whole (fun some => absurd alone some) fun _ => ?_⟩
  intro socket' m rest held front
  rw [works.touches.protocol_eq taken.held held]
  rw [place_apply, if_pos ⟨rfl, rfl⟩, alone] at front
  cases serves with
  | fail failed =>
    rw [Course.serve_failed _ _ failed, if_neg Bool.false_ne_true] at front
    cases front
  | park transfers short =>
    have doneLen := works.doneLen
    have totalLen := works.totalLen
    rw [take_msgs] at transfers short
    rw [Course.serve_short ⟨[], 0, true⟩ _ transfers.ret (by rw [UInt64.sub_zero]; exact short)]
      at front doneLen
    cases front
    rw [← msgs] at totalLen
    refine answered.stalls ?_ ?_ totalLen doneLen
    · rw [UInt64.sub_zero, take_msgs]
      exact transfers
    · rw [UInt64.sub_zero, take_msgs]
      exact short
  | finish transfers full =>
    rw [take_msgs] at transfers full
    rw [Course.serve_full ⟨[], 0, true⟩ _ transfers.ret (by rw [UInt64.sub_zero]; exact full),
      if_neg Bool.false_ne_true] at front
    cases front

/-- A message that goes behind others changes nothing for the first one. -/
theorem append_onward {queueEnd : Ptr} (owned : Owned config.ringSize s.view waiting)
    (taken : Taken s dir handle msg record socket async) (others : (async.pending dir).queue ≠ none)
    (last : (async.pending dir).queueEnd = some queueEnd) :
    ∃ waiting', Onward config (fun _ _ => False) s
      (append dir (s.take dir record handle msg) record socket async handle msg queueEnd) waiting
      waiting' := by
  have front := List.mem_of_head? taken.available
  obtain ⟨_, works⟩ := append_works owned taken last
  have journal : (append dir (s.take dir record handle msg) record socket async handle msg
      queueEnd).journal = s.journal ++ [.took dir (some record) handle msg (s.msgs msg)] :=
    take_journal
  have quiet : ∀ d r, ∀ action ∈ [Action.took dir (some record) handle msg (s.msgs msg)],
      action.answers d r = false := by
    intro d r action member
    rw [List.mem_singleton.mp member]
    rfl
  have onward := Onward.works works (owned.appended taken last)
    (fun d r (other : ¬(d = dir ∧ r = record)) => by rw [place_apply, if_neg other])
    (fun d r _ => owned.available_waits front) ⟨_, journal, fun d r _ => quiet d r⟩
  refine ⟨_, onward.whole (fun _ => ?_) fun excused => excused.same (fun m rest first => ?_)
    (fun m member => ?_) (works.touches.protocol record) ?_⟩
  · rw [place_apply, if_pos ⟨rfl, rfl⟩]
    exact List.append_ne_nil_of_right_ne_nil _ (List.cons_ne_nil _ _)
  · rw [place_apply, if_pos ⟨rfl, rfl⟩] at first
    have some : waiting dir record ≠ [] := fun empty => others
      ((owned.linked dir record async taken.transport_eq).first_eq_none.mpr empty)
    obtain ⟨m', rest', same⟩ := List.exists_cons_of_ne_nil some
    rw [same] at first
    cases first
    exact ⟨_, same⟩
  · exact works.touches.content m fun same => owned.available_waits front (same ▸ member)
  · rw [journal, lastAnswer_quiet (quiet dir record)]

theorem refuse_onward (owned : Owned config.ringSize s.view waiting)
    (front : (s.queue dir).available.head? = some (handle, msg)) :
    Onward config (fun _ _ => False) s (refuse config dir (s.dequeue dir) handle msg) waiting
      waiting := by
  have room : (s.queue dir).used.length < config.ringSize := owned.used_lt (owned.front front)
  obtain ⟨content, journal⟩ : ∃ content, (refuse config dir (s.dequeue dir) handle msg).journal =
    s.journal ++ [.took dir none handle msg (s.msgs msg), .completed dir none handle 0 content] :=
      refuse_journal room
  refine .works (refuse_works owned front) (owned.refused front) (fun _ _ _ => rfl)
    (fun d r _ => owned.available_waits (List.mem_of_head? front)) ⟨_, journal, ?_⟩
  intro d r _ action member
  rcases List.mem_cons.mp member with rfl | member
  · rfl
  · rw [List.mem_singleton.mp member]
    exact decide_eq_false fun same => nomatch same.2

theorem Takes.onward (owned : Owned config.ringSize s.view waiting)
    (available : (s.queue dir).available.head? = some (handle, msg))
    (length : ¬((s.msgs msg).totalLen > 1400 ∨ (s.msgs msg).totalLen = 0))
    (takes : Takes config dir s handle msg answers after left) :
    ∃ waiting', Onward config (fun _ _ => False) s after waiting waiting' := by
  cases takes with
  | refuse => exact ⟨waiting, refuse_onward owned available⟩
  | append destined others last =>
    exact append_onward owned (destined.taken available length) others last
  | serve destined free serves => exact serves.onward owned (destined.taken available length) free

/-! ## The loops -/

theorem queueHandle_onward (owned : Owned config.ringSize s.view waiting)
    (done : queueHandle config dir s answers = .ok (after, left)) :
    ∃ waiting', Onward config (fun _ _ => False) s after waiting waiting' := by
  -- the entries still to come are the ones available
  have loop : ∀ entries s answers waiting, (s.queue dir).available = entries →
      Owned config.ringSize s.view waiting →
      entries.foldlM (queueIteration config dir) (s, answers) = .ok (after, left) →
      ∃ waiting', Onward config (fun _ _ => False) s after waiting waiting' := by
    intro entries
    induction entries with
    | nil =>
      intro s answers waiting _ owned done
      cases done
      exact ⟨waiting, .refl owned⟩
    | cons entry entries ih =>
      intro s answers waiting available owned done
      obtain ⟨⟨middle, answers'⟩, iteration, rest⟩ := bind_ok.mp done
      obtain ⟨handle, msg⟩ := entry
      have front : (s.queue dir).available.head? = some (handle, msg) := by
        rw [available]
        rfl
      obtain ⟨_, length, takes⟩ := queueIteration_takes iteration
      obtain ⟨waiting', onward⟩ := takes.onward owned front length
      have tail : (middle.queue dir).available = entries := by
        rw [takes.available, available]
        rfl
      obtain ⟨waiting'', onward'⟩ := ih middle answers' waiting' tail onward.owned rest
      exact ⟨waiting'', onward.trans onward'⟩
  exact loop _ s answers waiting rfl owned done

/-- The loop ends with a cause for the first message that still waits, and it has asked for the one that
waited before. -/
theorem socketLoop_onward (owned : Owned config.ringSize s.view waiting)
    (done : socketLoop config dir record answers s = .ok (after, left)) :
    ∃ waiting', Onward config (fun d r => d = dir ∧ r = record) s after waiting waiting' ∧
      Excused after waiting' dir record ∧ (waiting dir record ≠ [] → Retried dir record s after) := by
  -- on the answers: the loop goes on only behind a message that is done
  induction answers generalizing s waiting with
  | nil =>
    obtain ⟨found, head, rest⟩ := bind_ok.mp done
    cases found with
    | none =>
      cases rest
      have empty := owned.emptied fun _ _ held transport => socketHead_none head held transport
      exact ⟨waiting, .refl owned, .none empty, fun some => absurd empty some⟩
    | some => cases rest
  | cons answer answers ih =>
    obtain ⟨found, head, rest⟩ := bind_ok.mp done
    cases found with
    | none =>
      cases rest
      have empty := owned.emptied fun _ _ held transport => socketHead_none head held transport
      exact ⟨waiting, .refl owned, .none empty, fun some => absurd empty some⟩
    | some found =>
      obtain ⟨socket, async, msg⟩ := found
      obtain ⟨⟨middle, again⟩, iteration, rest⟩ := bind_ok.mp rest
      have iterates := socketIteration_iterates iteration
      obtain ⟨waiting', onward, stops, retried⟩ :=
        iterates.onward owned (socketHead_ok head _ _ _ rfl)
      cases again with
      | true =>
        obtain ⟨waiting'', onward', excused, _⟩ := ih onward.owned rest
        refine ⟨waiting'', onward.trans onward', excused, fun _ => ?_⟩
        exact retried.before onward'.journal
      | false =>
        cases rest
        exact ⟨waiting', onward, stops rfl, fun _ => retried⟩

theorem serveSocket_onward (owned : Owned config.ringSize s.view waiting)
    (done : serveSocket config dir s record answers = .ok (after, left)) :
    ∃ waiting', Onward config (fun d r => d = dir ∧ r = record) s after waiting waiting' ∧
      (Excused s waiting dir record → Excused after waiting' dir record) ∧
      ∀ socket, s.records record = some socket → socket.socket ≠ 0 → waiting dir record ≠ [] →
        Retried dir record s after := by
  obtain ⟨socket, deref, rest⟩ := bind_ok.mp done
  have held := Server.deref_ok.mp deref
  split at rest
  · next away =>
    cases rest
    refine ⟨waiting, .refl owned, id, fun socket' held' real some => ?_⟩
    obtain rfl := Option.some.inj (held.symm.trans held')
    refine absurd (owned.idle dir record ?_) some
    exact (s.transport_eq record).trans (by simp [Server.service, held, away.resolve_left real])
  · obtain ⟨waiting', onward, excused, retried⟩ := socketLoop_onward owned rest
    exact ⟨waiting', onward, fun _ => excused, fun _ _ _ => retried⟩

/-- The socket of a record stays when messages are handled. -/
theorem SameBooks.keeps (same : SameBooks s after) (held : s.records record = some socket) :
    ∃ socket', after.records record = some socket' ∧ socket'.socket = socket.socket := by
  have plain := same.records record
  rw [held] at plain
  obtain ⟨socket', held', same⟩ := Option.map_eq_some_iff.mp plain
  exact ⟨socket', held', (congrArg Socket.socket same : socket'.plain.socket = socket.plain.socket)⟩

theorem serveEvent_onward {bit ev rest : UInt16} (owned : Owned config.ringSize s.view waiting)
    (done : serveEvent config dir bit s record ev answers = .ok (after, rest, left)) :
    ∃ waiting', Onward config (fun d r => d = dir ∧ r = record) s after waiting waiting' ∧
      (Excused s waiting dir record → Excused after waiting' dir record) ∧
      ∀ socket, s.records record = some socket → socket.socket ≠ 0 → ev &&& bit ≠ 0 →
        waiting dir record ≠ [] → Retried dir record s after := by
  rw [serveEvent] at done
  split at done
  · obtain ⟨⟨handled, _⟩, handle, done⟩ := bind_ok.mp done
    obtain ⟨⟨served, _⟩, serve, done⟩ := bind_ok.mp done
    cases done
    obtain ⟨waiting', handles⟩ := queueHandle_onward owned handle
    obtain ⟨waiting'', onward, excused, retried⟩ := serveSocket_onward handles.owned serve
    refine ⟨waiting'', (handles.weaken fun _ _ => False.elim).trans onward,
      fun before => excused (handles.excused dir record id before), fun socket held real _ some => ?_⟩
    obtain ⟨socket', held', same⟩ := (SameBooks.of_steps (queueHandle_steps handle)).keeps held
    have real' : socket'.socket ≠ 0 := same ▸ real
    exact (retried socket' held' real' (handles.stays dir record id some)).since handles.journal
  · next other =>
    cases done
    exact ⟨waiting, .refl owned, id, fun _ _ _ some => absurd some other⟩

/-! ## Whole events -/

def Dir.bit : Dir → UInt16
  | .tx => picoSockEvWr
  | .rx => picoSockEvRd

theorem service_some {protocol : Protocol} : s.service record = some (protocol, async) ↔
    ∃ socket, s.records record = some socket ∧ socket.protocol = protocol ∧
      socket.asyncTransport = some async := by
  rw [Server.service, Option.bind_eq_some_iff]
  refine exists_congr fun socket => and_congr_right fun _ => ?_
  rw [Option.map_eq_some_iff]
  constructor
  · rintro ⟨async', transport, same⟩
    cases same
    exact ⟨rfl, transport⟩
  · rintro ⟨rfl, transport⟩
    exact ⟨async, transport, rfl⟩

/-- Every first message has a cause again if it had one before. -/
structure Settles (config : Config) (s after : Server) (waiting waiting' : Dir → Ptr → List Ptr) :
    Prop where
  owned : Owned config.ringSize after.view waiting'
  journal : s.journal <+: after.journal
  excused : ∀ d r, Excused s waiting d r → Excused after waiting' d r

namespace Settles

theorem refl (owned : Owned config.ringSize s.view waiting) : Settles config s s waiting waiting :=
  ⟨owned, List.prefix_refl _, fun _ _ => id⟩

theorem trans (first : Settles config s t waiting waiting')
    (second : Settles config t after waiting' waiting'') :
    Settles config s after waiting waiting'' where
  owned := second.owned
  journal := first.journal.trans second.journal
  excused d r before := second.excused d r (first.excused d r before)

theorem of_onward {own : Dir → Ptr → Prop} (onward : Onward config own s after waiting waiting')
    (mine : ∀ d r, own d r → Excused s waiting d r → Excused after waiting' d r) :
    Settles config s after waiting waiting' where
  owned := onward.owned
  journal := onward.journal
  excused d r before := by
    by_cases here : own d r
    · exact mine d r here before
    · exact onward.excused d r here before

theorem all (settles : Settles config s after waiting waiting')
    (before : ∀ d r, Excused s waiting d r) : ∀ d r, Excused after waiting' d r :=
  fun d r => settles.excused d r (before d r)

theorem aside (owned : Owned config.ringSize s.view waiting) (aside : Aside s after) :
    Settles config s after waiting waiting where
  owned := owned.aside aside
  journal := by
    obtain ⟨more, journal, -⟩ := aside.journal
    rw [journal]
    exact List.prefix_append _ _
  excused d r before := by
    intro socket msg rest held front
    obtain ⟨more, journal, quiet⟩ := aside.journal
    rw [journal, lastAnswer_quiet (aside_quiet quiet), aside.msgs]
    have some : waiting d r ≠ [] := by
      rw [front]
      exact List.cons_ne_nil _ _
    rcases aside.service r with same | ⟨still, _⟩
    · cases here : s.service r with
      | none =>
        refine absurd (owned.idle d r ?_) some
        exact (s.transport_eq r).trans (by rw [here]; rfl)
      | some service =>
        obtain ⟨protocol, async⟩ := service
        obtain ⟨old, held', rfl, -⟩ := service_some.mp here
        obtain ⟨new, held'', same, -⟩ := service_some.mp (same.trans here)
        obtain rfl := Option.some.inj (held.symm.trans held'')
        rw [same]
        exact before old msg rest held' front
    · exact absurd (owned.resting still d) some

end Settles

theorem leftBits_rd_wr (ev : UInt16) :
    leftBits picoSockEvRd ev &&& picoSockEvWr = ev &&& picoSockEvWr := by
  rw [leftBits]
  split
  · rw [UInt16.and_assoc]
    exact congrArg (ev &&& ·) (by decide)
  · rfl

theorem serveAsync_settles {ev rest : UInt16} (owned : Owned config.ringSize s.view waiting)
    (done : serveAsync config s record ev answers = .ok (after, rest)) :
    ∃ waiting', Settles config s after waiting waiting' ∧
      ∀ dir socket, s.records record = some socket → socket.socket ≠ 0 → ev &&& dir.bit ≠ 0 →
        waiting dir record ≠ [] → Retried dir record s after := by
  obtain ⟨⟨middle, ev', answers'⟩, reading, done⟩ := bind_ok.mp done
  obtain ⟨⟨final, ev'', _⟩, writing, done⟩ := bind_ok.mp done
  cases done
  obtain ⟨waiting', reads, received, rx⟩ := serveEvent_onward owned reading
  obtain ⟨waiting'', writes, sent, tx⟩ := serveEvent_onward reads.owned writing
  refine ⟨waiting'', (Settles.of_onward reads ?_).trans (.of_onward writes ?_), ?_⟩
  · rintro d r ⟨rfl, rfl⟩
    exact received
  · rintro d r ⟨rfl, rfl⟩
    exact sent
  · intro dir socket held real wanted some
    cases dir with
    | rx => exact (rx socket held real wanted some).before writes.journal
    | tx =>
      have other : ¬(Dir.tx = Dir.rx ∧ record = record) := fun same => nomatch same.1
      obtain ⟨socket', held', same⟩ := (SameBooks.of_steps (serveEvent_steps reading)).keeps held
      have wanted' : ev' &&& picoSockEvWr ≠ 0 := by
        rw [serveEvent_left reading, leftBits_rd_wr]
        exact wanted
      have again := tx socket' held' (same ▸ real) wanted' (reads.stays .tx record other some)
      exact again.since reads.journal

theorem socketCb_settles {ev : UInt16} {socket : Ptr} {memory : Bool}
    (owned : Owned config.ringSize s.view waiting)
    (done : socketCb config s ev socket answers memory = .ok after) :
    ∃ waiting', Settles config s after waiting waiting' ∧
      ∀ dir record held, s.address socket = some record → s.records record = some held →
        held.socket ≠ 0 → ev &&& dir.bit ≠ 0 → waiting dir record ≠ [] →
        Retried dir record s after := by
  rw [socketCb] at done
  split at done
  · next unknown =>
    split at done
    · obtain rfl := Except.ok.inj done
      exact ⟨waiting, .refl owned,
        fun _ _ _ known => absurd (known.symm.trans unknown) (Option.some_ne_none _)⟩
    · cases done
  · next record known =>
    obtain ⟨clientSocket, deref, done⟩ := bind_ok.mp done
    have held := Server.deref_ok.mp deref
    split at done
    · obtain ⟨⟨served, ev'⟩, serve, done⟩ := bind_ok.mp done
      obtain ⟨waiting', settles, retried⟩ := serveAsync_settles owned serve
      have reports : Settles config served after waiting' waiting' :=
        .aside settles.owned (reportEvent_aside done)
      refine ⟨waiting', settles.trans reports, fun dir other socket' known' held' real wanted some => ?_⟩
      obtain rfl := Option.some.inj (known.symm.trans known')
      exact (retried dir socket' held' real wanted some).before reports.journal
    · next synchronous =>
      refine ⟨waiting, .aside owned (reportEvent_aside done), fun dir other _ known' _ _ _ some => ?_⟩
      obtain rfl := Option.some.inj (known.symm.trans known')
      refine absurd (owned.idle dir record ?_) some
      refine (s.transport_eq record).trans ?_
      rw [Server.service, held, Option.bind_some, not_not.mp synchronous]
      rfl

theorem Drops.onward (owned : Owned config.ringSize s.view waiting)
    (drops : Drops config record s after) :
    ∃ waiting', Onward config (fun _ r => r = record) s after waiting waiting' := by
  induction drops generalizing waiting with
  | refl => exact ⟨waiting, .refl owned⟩
  | @next s after dir msg socket async head _ ih =>
    have iterates : Iterates config dir s record socket async msg ⟨-1, [], 0, 0⟩
        (popComplete config dir s record socket async msg (-1) 0) (dir = .tx) := .drop rfl
    obtain ⟨waiting', onward, -⟩ := iterates.onward owned head
    obtain ⟨waiting'', onward'⟩ := ih onward.owned
    exact ⟨waiting'', (onward.weaken fun _ _ => And.right).trans onward'⟩

theorem CleanedUp.settles (owned : Owned config.ringSize s.view waiting)
    (cleaned : CleanedUp config record s after) :
    ∃ waiting', Settles config s after waiting waiting' := by
  obtain ⟨called, middle, first, drops, rests, last⟩ := cleaned.drops
  have before := Settles.aside owned first
  obtain ⟨waiting', onward⟩ := drops.onward before.owned
  have dropped : Settles config called middle waiting waiting' := by
    refine .of_onward onward fun d r here _ => ?_
    subst here
    exact .none (onward.owned.resting rests d)
  exact ⟨waiting', (before.trans dropped).trans (.aside dropped.owned last)⟩

theorem MsgEffect.settles (owned : Owned config.ringSize s.view waiting)
    (admits : s.Admits config event) (effect : MsgEffect config s event after) :
    ∃ waiting', Settles config s after waiting waiting' := by
  cases effect with
  | aside aside => exact ⟨waiting, .aside owned aside⟩
  | cleaned cleaned => exact cleaned.settles owned
  | @submit dir handle msg content =>
    refine ⟨waiting, ?_, ?_, fun d r before => ?_⟩
    · rw [view_submit]
      exact owned.submit admits.1 admits.2.1 admits.2.2
    · rw [Server.journal_setQueue]
      exact List.prefix_refl _
    · refine before.same (fun m rest front => ⟨rest, front⟩) (fun m member => ?_) ?_ ?_
      · rw [Server.msgs_setQueue]
        refine congrArg Msg.unlinked (Function.update_of_ne ?_ _ _)
        rintro rfl
        have lent := List.mem_map_of_mem (f := Prod.snd) (owned.waiting_lent member)
        exact admits.1 (by cases d with
          | tx => exact List.map_append ▸ List.mem_append_left _ lent
          | rx => exact List.map_append ▸ List.mem_append_right _ lent)
      · rw [Server.records_setQueue]
        rfl
      · rw [Server.journal_setQueue]
        rfl
  | @collect dir =>
    refine ⟨waiting, ?_, ?_, fun d r before => ?_⟩
    · rw [view_setQueue]
      exact owned.collect
    · rw [Server.journal_setQueue]
    · refine before.same (fun m rest front => ⟨rest, front⟩) (fun m _ => ?_) ?_ ?_
      · rw [Server.msgs_setQueue]
      · rw [Server.records_setQueue]
      · rw [Server.journal_setQueue]

theorem step_settles (owned : Owned config.ringSize s.view waiting)
    (permits : s.permits config event) (admits : s.Admits config event)
    (done : s.step config event = .ok (after, reply)) :
    ∃ waiting', Settles config s after waiting waiting' := by
  cases here : event.handles with
  | false => exact (step_effect owned permits admits here done).settles owned admits
  | true =>
    cases event with
    | callback ev socket answers memory =>
      obtain ⟨called, call, done⟩ := bind_ok.mp done
      obtain ⟨rfl, _⟩ := pair_ok.mp done
      obtain ⟨waiting', settles, -⟩ := socketCb_settles owned call
      exact ⟨waiting', settles⟩
    | irq answers =>
      obtain ⟨⟨received, answers'⟩, receiving, done⟩ := bind_ok.mp done
      obtain ⟨⟨sent, _⟩, sending, done⟩ := bind_ok.mp done
      obtain ⟨rfl, _⟩ := pair_ok.mp done
      obtain ⟨waiting', first⟩ := queueHandle_onward owned receiving
      obtain ⟨waiting'', second⟩ := queueHandle_onward first.owned sending
      exact ⟨waiting'', .of_onward (first.trans second) fun _ _ => False.elim⟩
    | control | communicate | putEvent | notify | submit | collect => cases here

section
variable {start : Server} {trace : List (Event × Reply)}

theorem run_settled (idle : start.Idle config) (run : (machine config).Run start trace s)
    (admits : (machine config).EveryStep start trace fun s event => s.Admits config event) :
    s.Settled config := by
  apply admits.history run
  · exact ⟨_, idle.owned, fun _ _ => .none rfl⟩
  · rintro trace before event after reply ⟨waiting, owned, excused⟩ permits admits step
    obtain ⟨waiting', settles⟩ := step_settles owned permits admits (machine_step.mp step)
    exact ⟨waiting', settles.owned, settles.all excused⟩

/-- In every run a message waits in front of a pending list only if the last answer of the stack for
that list moved too little of it, or was the failure at which `rx_socket` stops. When the stack calls
back for that direction, it is asked again. -/
theorem messages_wait_for_cause (idle : start.Idle config) (run : (machine config).Run start trace s)
    (admits : (machine config).EveryStep start trace fun s event => s.Admits config event)
    {dir : Dir} {record msg : Ptr} {socket : Socket} {async : Async}
    (head : Head s dir record socket async msg) :
    Stalls dir record msg socket.protocol (s.msgs msg) (lastAnswer dir record s.journal) ∧
      ∀ ev answers memory after reply, s.address socket.socket = some record →
        socket.socket ≠ 0 → ev &&& dir.bit ≠ 0 →
        s.step config (.callback ev socket.socket answers memory) = .ok (after, reply) →
        Retried dir record s after := by
  obtain ⟨waiting, owned, excused⟩ := run_settled idle run admits
  obtain ⟨rest, front⟩ := owned.head head
  refine ⟨excused dir record socket msg rest head.held front, ?_⟩
  intro ev answers memory after reply known real wanted done
  obtain ⟨called, call, done⟩ := bind_ok.mp done
  obtain ⟨rfl, _⟩ := pair_ok.mp done
  obtain ⟨_, -, retried⟩ := socketCb_settles owned call
  refine retried dir record socket known head.held real wanted ?_
  rw [front]
  exact List.cons_ne_nil _ _

end

/-- The stack takes four of ten bytes of a message that it is asked for at once. -/
def sendShort : List Event :=
  [.control 0 (.setAsync 1 true true),
    .submit .tx 7 0x3000 { blankMsg with socketFd := 1, totalLen := 10 }, .irq [⟨4, [], 0, 0⟩]]

def Event.checked (s : Server) (event : Event) : Bool :=
  event.handles || (Turn.other event).checked twoClients s

theorem Event.checked_admits (checked : event.checked s = true) :
    s.permits twoClients event ∧ s.Admits twoClients event := by
  rcases (Bool.or_eq_true _ _).mp checked with handles | checked
  · cases event with
    | callback | irq => exact ⟨trivial, trivial⟩
    | control | communicate | putEvent | notify | submit | collect => cases handles
  · obtain ⟨permits, admits, -⟩ := Turn.checked_allowed checked event rfl
    exact ⟨permits, admits⟩

theorem messages_wait_for_cause_short : ∃ trace s offset bytes,
    (machine twoClients).Run (.init fun _ => blankMsg) trace s ∧
      (s.msgs 0x3000).Short .tx .tcp offset bytes ∧
      lastAnswer .tx 0x1000 s.journal = some (.moved .tx 0x1000 0x3000 offset bytes) := by
  let opening : Event := .control 0 (.open false (some 0x1000) 0x2000 (true, true))
  have permits : (Server.init fun _ => blankMsg).permits twoClients opening :=
    ⟨by decide, fun _ _ => rfl⟩
  have evaluated : (((machine twoClients).step (.init fun _ => blankMsg) opening).bind fun opened =>
      (machine twoClients).exec Event.checked [(opening, opened.2)] opened.1 sendShort).any
        (fun result => (result.2.records 0x1000).any fun socket =>
          socket.asyncTransport.any fun async =>
            decide (socket.protocol = .tcp ∧ async.tx.queue = some 0x3000)) = true := by
    decide +kernel
  obtain ⟨⟨trace, s⟩, done, found⟩ := (Option.any_eq_true _ _).mp evaluated
  obtain ⟨⟨opened, reply⟩, step, done⟩ := Option.bind_eq_some_iff.mp done
  have run := Machine.Run.start.next permits step
  obtain ⟨run, admits, -⟩ := Machine.exec_run (fun s event => Event.checked_admits) run
    (Machine.EveryStep.start.next .start (show Server.Admits twoClients _ opening from nofun)) done
  obtain ⟨socket, held, found⟩ := (Option.any_eq_true _ _).mp found
  obtain ⟨async, transport, found⟩ := (Option.any_eq_true _ _).mp found
  obtain ⟨tcp, first⟩ := of_decide_eq_true found
  have stalls := (messages_wait_for_cause (init_idle _) run admits
    (⟨held, transport, first⟩ : Head s .tx 0x1000 socket async 0x3000)).1
  rw [tcp] at stalls
  generalize last : lastAnswer .tx 0x1000 s.journal = answered at stalls
  cases stalls with
  | short short => exact ⟨trace, s, _, _, run, short, last⟩
  | failed rx => cases rx

end GlobalComponents.PicoServer
