import GlobalComponents.PicoServer.Server
import Mathlib.Logic.Relation

/-! The handling of messages as steps.

Whatever the queue handlers, the socket loops and the cleanup do is a sequence of the steps below. An
invariant of the messages is shown for each step once.
-/

set_option autoImplicit false

namespace GlobalComponents.PicoServer

open Library

/-- The condition under which a message stays with the socket after a transfer. -/
def waits (dir : Dir) (protocol : Protocol) (ret : Int32) (requested : UInt64) : Prop :=
  match dir with
  | .tx => sizeT ret < requested
  | .rx => (protocol = .tcp ∧ sizeT ret < requested) ∨ (protocol = .udp ∧ ret = 0)

instance (protocol : Protocol) (ret : Int32) (requested : UInt64) :
    (dir : Dir) → Decidable (waits dir protocol ret requested)
  | .tx => inferInstanceAs (Decidable (sizeT ret < requested))
  | .rx => inferInstanceAs (Decidable
      ((protocol = .tcp ∧ sizeT ret < requested) ∨ (protocol = .udp ∧ ret = 0)))

/-- `done_len` and the length in the used ring when a message is served at once. -/
def directLen (dir : Dir) (totalLen : UInt64) (ret : Int32) : UInt64 :=
  match dir with
  | .tx => totalLen
  | .rx => sizeT ret

/-- `done_len` when a message that waited is served. -/
def popLen (dir : Dir) (content : Msg) (ret : Int32) : UInt64 :=
  match dir with
  | .tx => content.totalLen
  | .rx => content.doneLen + sizeT ret

structure Transfers (dir : Dir) (requested : UInt64) (answer : Answer) : Prop where
  fits : answer.fits dir requested = true
  ret : answer.ret ≠ -1

structure Head (s : Server) (dir : Dir) (record : Ptr) (socket : Socket) (async : Async)
    (msg : Ptr) : Prop where
  held : s.records record = some socket
  transport : socket.asyncTransport = some async
  first : (async.pending dir).queue = some msg

structure Taken (s : Server) (dir : Dir) (handle : UInt32) (msg : Ptr) (record : Ptr)
    (socket : Socket) (async : Async) : Prop where
  available : (s.queue dir).available.head? = some (handle, msg)
  length : (s.msgs msg).totalLen ≠ 0
  held : s.records record = some socket
  transport : socket.asyncTransport = some async

def Server.take (s : Server) (dir : Dir) (record : Ptr) (handle : UInt32) (msg : Ptr) : Server :=
  (s.dequeue dir).note (.took dir (some record) handle msg (s.msgs msg))

inductive MsgStep (config : Config) : Server → Server → Prop where
  | refuse {s : Server} {dir : Dir} {handle : UInt32} {msg : Ptr} :
      (s.queue dir).available.head? = some (handle, msg) →
      MsgStep config s (refuse config dir (s.dequeue dir) handle msg)
  | append {s : Server} {dir : Dir} {handle : UInt32} {msg record queueEnd : Ptr}
      {socket : Socket} {async : Async} : Taken s dir handle msg record socket async →
      (async.pending dir).queueEnd = some queueEnd →
      MsgStep config s
        (append dir (s.take dir record handle msg) record socket async handle msg queueEnd)
  | fail {s : Server} {dir : Dir} {handle : UInt32} {msg record : Ptr} {socket : Socket}
      {async : Async} : Taken s dir handle msg record socket async →
      (async.pending dir).queue = none →
      MsgStep config s (finish config dir (s.take dir record handle msg) record handle msg (-1) 0)
  | park {s : Server} {dir : Dir} {handle : UInt32} {msg record : Ptr} {socket : Socket}
      {async : Async} {answer : Answer} : Taken s dir handle msg record socket async →
      (async.pending dir).queue = none → Transfers dir (s.msgs msg).totalLen answer →
      waits dir socket.protocol answer.ret (s.msgs msg).totalLen →
      MsgStep config s
        (park dir (transfer dir (s.take dir record handle msg) socket.protocol record msg 0 answer)
          record socket async handle msg (sizeT answer.ret))
  | finish {s : Server} {dir : Dir} {handle : UInt32} {msg record : Ptr} {socket : Socket}
      {async : Async} {answer : Answer} : Taken s dir handle msg record socket async →
      (async.pending dir).queue = none → Transfers dir (s.msgs msg).totalLen answer →
      ¬waits dir socket.protocol answer.ret (s.msgs msg).totalLen →
      MsgStep config s
        (finish config dir
          (transfer dir (s.take dir record handle msg) socket.protocol record msg 0 answer)
          record handle msg (directLen dir (s.msgs msg).totalLen answer.ret)
          (directLen dir (s.msgs msg).totalLen answer.ret))
  | drop {s : Server} {dir : Dir} {record msg : Ptr} {socket : Socket} {async : Async} :
      Head s dir record socket async msg →
      MsgStep config s (popComplete config dir s record socket async msg (-1) 0)
  | advance {s : Server} {dir : Dir} {record msg : Ptr} {socket : Socket} {async : Async}
      {answer : Answer} : Head s dir record socket async msg →
      Transfers dir ((s.msgs msg).totalLen - (s.msgs msg).doneLen) answer →
      waits dir socket.protocol answer.ret ((s.msgs msg).totalLen - (s.msgs msg).doneLen) →
      MsgStep config s
        (let after := transfer dir s socket.protocol record msg (s.msgs msg).doneLen answer
        after.setMsg msg
          { after.msgs msg with doneLen := (s.msgs msg).doneLen + sizeT answer.ret })
  | pop {s : Server} {dir : Dir} {record msg : Ptr} {socket : Socket} {async : Async}
      {answer : Answer} : Head s dir record socket async msg →
      Transfers dir ((s.msgs msg).totalLen - (s.msgs msg).doneLen) answer →
      ¬waits dir socket.protocol answer.ret ((s.msgs msg).totalLen - (s.msgs msg).doneLen) →
      MsgStep config s
        (popComplete config dir
          (transfer dir s socket.protocol record msg (s.msgs msg).doneLen answer) record socket
          async msg (popLen dir (s.msgs msg) answer.ret) (s.msgs msg).totalLen)

def MsgSteps (config : Config) : Server → Server → Prop :=
  Relation.ReflTransGen (MsgStep config)

variable {config : Config} {dir : Dir} {s after : Server} {record msg : Ptr} {socket : Socket}
  {async : Async} {answer : Answer} {answers left : List Answer}

theorem stack_ok {protocol : Protocol} {offset requested : UInt64}
    (done : stack dir s protocol record msg offset requested answer = .ok after) :
    (answer.ret = -1 ∧ after = s) ∨ (Transfers dir requested answer ∧
      after = transfer dir s protocol record msg offset answer) := by
  rw [stack] at done
  split at done
  · next fits =>
    cases done
    by_cases failed : answer.ret = -1
    · exact .inl ⟨failed, if_pos failed⟩
    · exact .inr ⟨⟨fits, failed⟩, if_neg failed⟩
  · cases done

inductive Iterates (config : Config) (dir : Dir) (s : Server) (record : Ptr) (socket : Socket)
    (async : Async) (msg : Ptr) (answer : Answer) : Server → Bool → Prop where
  | drop : answer.ret = -1 → Iterates config dir s record socket async msg answer
      (popComplete config dir s record socket async msg (-1) 0) (dir = .tx)
  | advance : Transfers dir ((s.msgs msg).totalLen - (s.msgs msg).doneLen) answer →
      waits dir socket.protocol answer.ret ((s.msgs msg).totalLen - (s.msgs msg).doneLen) →
      Iterates config dir s record socket async msg answer
        (let after := transfer dir s socket.protocol record msg (s.msgs msg).doneLen answer
        after.setMsg msg
          { after.msgs msg with doneLen := (s.msgs msg).doneLen + sizeT answer.ret }) false
  | pop : Transfers dir ((s.msgs msg).totalLen - (s.msgs msg).doneLen) answer →
      ¬waits dir socket.protocol answer.ret ((s.msgs msg).totalLen - (s.msgs msg).doneLen) →
      Iterates config dir s record socket async msg answer
        (popComplete config dir
          (transfer dir s socket.protocol record msg (s.msgs msg).doneLen answer) record socket
          async msg (popLen dir (s.msgs msg) answer.ret) (s.msgs msg).totalLen) true

theorem socketIteration_iterates {more : Bool}
    (done : socketIteration config dir s record socket async msg answer = .ok (after, more)) :
    Iterates config dir s record socket async msg answer after more := by
  cases dir with
  | tx =>
    obtain ⟨sent, stacked, rest⟩ := bind_ok.mp done
    rcases stack_ok stacked with ⟨failed, rfl⟩ | ⟨transfers, rfl⟩
    · rw [if_pos failed] at rest
      cases rest
      exact .drop failed
    · rw [if_neg transfers.ret] at rest
      split at rest
      · next short =>
        cases rest
        exact .advance transfers short
      · next full =>
        cases rest
        exact .pop transfers full
  | rx =>
    obtain ⟨received, stacked, rest⟩ := bind_ok.mp done
    rcases stack_ok stacked with ⟨failed, rfl⟩ | ⟨transfers, rfl⟩
    · rw [if_pos failed] at rest
      cases rest
      exact .drop failed
    · rw [if_neg transfers.ret] at rest
      dsimp only at rest
      split at rest
      · next short =>
        cases rest
        exact .advance transfers short
      · next full =>
        cases rest
        exact .pop transfers full

theorem Iterates.fits {more : Bool}
    (iterates : Iterates config dir s record socket async msg answer after more) :
    answer.fits dir ((s.msgs msg).totalLen - (s.msgs msg).doneLen) = true := by
  cases iterates with
  | drop failed => simp [Answer.fits, failed]
  | advance transfers => exact transfers.fits
  | pop transfers => exact transfers.fits

theorem Iterates.step {more : Bool} (head : Head s dir record socket async msg)
    (iterates : Iterates config dir s record socket async msg answer after more) :
    MsgStep config s after := by
  cases iterates with
  | drop => exact .drop head
  | advance transfers short => exact .advance head transfers short
  | pop transfers full => exact .pop head transfers full

theorem socketIteration_step {more : Bool} (head : Head s dir record socket async msg)
    (done : socketIteration config dir s record socket async msg answer = .ok (after, more)) :
    MsgStep config s after := (socketIteration_iterates done).step head

theorem socketHead_ok {found : Option (Socket × Async × Ptr)}
    (done : socketHead s dir record = .ok found) :
    ∀ socket async msg, found = some (socket, async, msg) →
      Head s dir record socket async msg := by
  rintro socket async msg rfl
  obtain ⟨held, deref, rest⟩ := bind_ok.mp done
  split at rest
  · cases rest
  · next transport =>
    split at rest
    · cases rest
    · next queue =>
      obtain ⟨_, _, last⟩ := bind_ok.mp rest
      cases last
      exact ⟨Server.deref_ok.mp deref, transport, queue⟩

theorem socketHead_none (done : socketHead s dir record = .ok none)
    (held : s.records record = some socket) (transport : socket.asyncTransport = some async) :
    (async.pending dir).queue = none := by
  obtain ⟨socket', deref, rest⟩ := bind_ok.mp done
  obtain rfl := Option.some.inj (held.symm.trans (Server.deref_ok.mp deref))
  rw [transport] at rest
  dsimp only at rest
  split at rest
  · next empty => exact empty
  · obtain ⟨_, _, last⟩ := bind_ok.mp rest
    cases last

theorem socketLoop_steps (done : socketLoop config dir record answers s = .ok (after, left)) :
    MsgSteps config s after := by
  induction answers generalizing s with
  | nil =>
    obtain ⟨found, head, rest⟩ := bind_ok.mp done
    cases found with
    | none =>
      cases rest
      exact .refl
    | some => cases rest
  | cons answer answers ih =>
    obtain ⟨found, head, rest⟩ := bind_ok.mp done
    cases found with
    | none =>
      cases rest
      exact .refl
    | some found =>
      obtain ⟨socket, async, msg⟩ := found
      obtain ⟨⟨middle, more⟩, iteration, rest⟩ := bind_ok.mp rest
      have step := socketIteration_step (socketHead_ok head _ _ _ rfl) iteration
      cases more with
      | true => exact .head step (ih rest)
      | false =>
        cases rest
        exact .single step

theorem serveSocket_steps (done : serveSocket config dir s record answers = .ok (after, left)) :
    MsgSteps config s after := by
  obtain ⟨socket, _, rest⟩ := bind_ok.mp done
  split at rest
  · cases rest
    exact .refl
  · exact socketLoop_steps rest

inductive Serves (config : Config) (dir : Dir) (s : Server) (record : Ptr) (socket : Socket)
    (async : Async) (handle : UInt32) (msg : Ptr) (answer : Answer) : Server → Prop where
  | fail : answer.ret = -1 → Serves config dir s record socket async handle msg answer
      (finish config dir s record handle msg (-1) 0)
  | park : Transfers dir (s.msgs msg).totalLen answer →
      waits dir socket.protocol answer.ret (s.msgs msg).totalLen →
      Serves config dir s record socket async handle msg answer
        (park dir (transfer dir s socket.protocol record msg 0 answer) record socket async handle
          msg (sizeT answer.ret))
  | finish : Transfers dir (s.msgs msg).totalLen answer →
      ¬waits dir socket.protocol answer.ret (s.msgs msg).totalLen →
      Serves config dir s record socket async handle msg answer
        (finish config dir (transfer dir s socket.protocol record msg 0 answer) record handle msg
          (directLen dir (s.msgs msg).totalLen answer.ret)
          (directLen dir (s.msgs msg).totalLen answer.ret))

theorem direct_serves {handle : UInt32}
    (done : direct config dir s record socket async handle msg answer = .ok after) :
    Serves config dir s record socket async handle msg answer after := by
  cases dir with
  | tx =>
    obtain ⟨sent, stacked, rest⟩ := bind_ok.mp done
    rcases stack_ok stacked with ⟨failed, rfl⟩ | ⟨transfers, rfl⟩
    · rw [if_pos failed] at rest
      cases rest
      exact .fail failed
    · rw [if_neg transfers.ret] at rest
      split at rest
      · next short =>
        cases rest
        exact .park transfers short
      · next full =>
        cases rest
        exact .finish transfers full
  | rx =>
    obtain ⟨received, stacked, rest⟩ := bind_ok.mp done
    rcases stack_ok stacked with ⟨failed, rfl⟩ | ⟨transfers, rfl⟩
    · rw [if_pos failed] at rest
      cases rest
      exact .fail failed
    · rw [if_neg transfers.ret] at rest
      split at rest
      · next short =>
        cases rest
        exact .park transfers short
      · next full =>
        cases rest
        exact .finish transfers full

theorem take_msgs {handle : UInt32} : (s.take dir record handle msg).msgs = s.msgs := by
  cases dir with
  | tx | rx => rfl

theorem Serves.fits {handle : UInt32}
    (serves : Serves config dir s record socket async handle msg answer after) :
    answer.fits dir (s.msgs msg).totalLen = true := by
  cases serves with
  | fail failed => simp [Answer.fits, failed]
  | park transfers => exact transfers.fits
  | finish transfers => exact transfers.fits

theorem Serves.step {handle : UInt32} (taken : Taken s dir handle msg record socket async)
    (free : (async.pending dir).queue = none)
    (serves : Serves config dir (s.take dir record handle msg) record socket async handle msg answer
      after) : MsgStep config s after := by
  cases serves with
  | fail => exact .fail taken free
  | park transfers short =>
    rw [take_msgs] at transfers short
    exact .park taken free transfers short
  | finish transfers full =>
    rw [take_msgs] at transfers full ⊢
    exact .finish taken free transfers full

theorem complete_available (dir : Dir) (record : Option Ptr) (msg : Ptr) (cookie : UInt32)
    (len : UInt64) : ((complete config dir s record msg cookie len).queue dir).available =
      (s.queue dir).available := by
  have flagged : ({ s with emitClientAsync := true } : Server).queue dir = s.queue dir := by
    cases dir <;> rfl
  rw [complete]
  dsimp only
  rw [flagged, Virtqueue.addUsed]
  split
  · next room =>
    split at room
    · cases room
      simp
    · cases room
  · rw [flagged]

theorem transfer_queue (dir other : Dir) (protocol : Protocol) (offset : UInt64) :
    (transfer dir s protocol record msg offset answer).queue other = s.queue other := by
  cases dir <;> simp [transfer]

theorem Serves.available {handle : UInt32}
    (serves : Serves config dir s record socket async handle msg answer after) :
    (after.queue dir).available = (s.queue dir).available := by
  cases serves with
  | fail => simp [PicoServer.finish, complete_available]
  | park => simp [PicoServer.park, transfer_queue]
  | finish => simp [PicoServer.finish, complete_available, transfer_queue]

structure Destined (s : Server) (msg record : Ptr) (socket : Socket) (async : Async) : Prop where
  found : clientGetSocket s 0 (s.msgs msg).socketFd = some record
  held : s.records record = some socket
  «open» : socket.socket ≠ 0
  transport : socket.asyncTransport = some async

inductive Takes (config : Config) (dir : Dir) (s : Server) (handle : UInt32) (msg : Ptr) :
    List Answer → Server → List Answer → Prop where
  | refuse {answers : List Answer} : (∀ record socket async, ¬Destined s msg record socket async) →
      Takes config dir s handle msg answers
        (refuse config dir (s.dequeue dir) handle msg) answers
  | append {answers : List Answer} {record queueEnd : Ptr} {socket : Socket} {async : Async} :
      Destined s msg record socket async → (async.pending dir).queue ≠ none →
      (async.pending dir).queueEnd = some queueEnd →
      Takes config dir s handle msg answers
        (append dir (s.take dir record handle msg) record socket async handle msg queueEnd) answers
  | serve {answers : List Answer} {answer : Answer} {record : Ptr} {socket : Socket} {async : Async}
      {after : Server} : Destined s msg record socket async → (async.pending dir).queue = none →
      Serves config dir (s.take dir record handle msg) record socket async handle msg answer after →
      Takes config dir s handle msg (answer :: answers) after answers

theorem queueIteration_takes {handle : UInt32}
    (done : queueIteration config dir (s, answers) (handle, msg) = .ok (after, left)) :
    msg ≠ 0 ∧ ¬((s.msgs msg).totalLen > 1400 ∨ (s.msgs msg).totalLen = 0) ∧
      Takes config dir s handle msg answers after left := by
  have msgs : (s.dequeue dir).msgs = s.msgs := by simp [Server.dequeue]
  have records : (s.dequeue dir).records = s.records := by simp [Server.dequeue]
  have find : clientGetSocket (s.dequeue dir) 0 ((s.dequeue dir).msgs msg).socketFd =
      clientGetSocket s 0 (s.msgs msg).socketFd := by
    rw [msgs]
    cases dir with
    | tx | rx => rfl
  obtain ⟨_, null, rest⟩ := bind_ok.mp done
  obtain ⟨_, length, rest⟩ := bind_ok.mp rest
  rw [msgs] at length
  refine ⟨zfLogfIf_ok.mp null, zfLogfIf_ok.mp length, ?_⟩
  rw [find] at rest
  split at rest
  · next missing =>
    cases rest
    refine .refuse fun record socket async destined => ?_
    exact Option.some_ne_none _ (destined.found.symm.trans missing)
  · next record found =>
    obtain ⟨socket, deref, rest⟩ := bind_ok.mp rest
    have held : s.records record = some socket := records ▸ Server.deref_ok.mp deref
    have same : ∀ other socket' async, Destined s msg other socket' async → socket' = socket := by
      intro other socket' async destined
      obtain rfl := Option.some.inj (found.symm.trans destined.found)
      exact Option.some.inj (destined.held.symm.trans held)
    split at rest
    · next null =>
      cases rest
      refine .refuse fun other socket' async destined => ?_
      exact destined.open (same _ _ _ destined ▸ null)
    · next real =>
      split at rest
      · next synchronous =>
        cases rest
        refine .refuse fun other socket' async destined => ?_
        rw [← same _ _ _ destined, destined.transport] at synchronous
        cases synchronous
      · next async transport =>
        have destined : Destined s msg record socket async := ⟨found, held, real, transport⟩
        have take : (s.dequeue dir).note (.took dir (some record) handle msg
            ((s.dequeue dir).msgs msg)) = s.take dir record handle msg := by
          rw [Server.take, msgs]
        rw [deliver.eq_def] at rest
        dsimp only at rest
        rw [take] at rest
        split at rest
        · next others =>
          split at rest
          · cases rest
          · next queueEnd last =>
            cases rest
            exact .append destined others last
        · next free =>
          split at rest
          · cases rest
          · obtain ⟨served, serve, rest⟩ := bind_ok.mp rest
            cases rest
            exact .serve destined (not_not.mp free) (direct_serves serve)

theorem Destined.taken {handle : UInt32} (destined : Destined s msg record socket async)
    (available : (s.queue dir).available.head? = some (handle, msg))
    (length : ¬((s.msgs msg).totalLen > 1400 ∨ (s.msgs msg).totalLen = 0)) :
    Taken s dir handle msg record socket async :=
  ⟨available, fun zero => length (.inr zero), destined.held, destined.transport⟩

theorem dequeue_available :
    ((s.dequeue dir).queue dir).available = (s.queue dir).available.tail := by
  simp [Server.dequeue]

theorem take_available {handle : UInt32} :
    ((s.take dir record handle msg).queue dir).available = (s.queue dir).available.tail := by
  simp [Server.take, dequeue_available]

theorem Takes.available {handle : UInt32}
    (takes : Takes config dir s handle msg answers after left) :
    (after.queue dir).available = (s.queue dir).available.tail := by
  cases takes with
  | refuse => simp [PicoServer.refuse, complete_available, dequeue_available]
  | append => simp [PicoServer.append, take_available]
  | serve _ _ serves => rw [serves.available, take_available]

theorem queueIteration_step {handle : UInt32}
    (available : (s.queue dir).available.head? = some (handle, msg))
    (done : queueIteration config dir (s, answers) (handle, msg) = .ok (after, left)) :
    MsgStep config s after ∧ (after.queue dir).available = (s.queue dir).available.tail := by
  obtain ⟨_, length, takes⟩ := queueIteration_takes done
  refine ⟨?_, takes.available⟩
  cases takes with
  | refuse => exact .refuse available
  | append destined _ last => exact .append (destined.taken available length) last
  | serve destined free serves => exact serves.step (destined.taken available length) free

theorem queueHandle_steps (done : queueHandle config dir s answers = .ok (after, left)) :
    MsgSteps config s after := by
  -- the entries still to come are the ones available
  have loop : ∀ entries s answers, (s.queue dir).available = entries →
      entries.foldlM (queueIteration config dir) (s, answers) = .ok (after, left) →
      MsgSteps config s after := by
    intro entries
    induction entries with
    | nil =>
      intro s answers _ done
      cases done
      exact .refl
    | cons entry entries ih =>
      intro s answers available done
      obtain ⟨⟨middle, answers'⟩, iteration, rest⟩ := bind_ok.mp done
      obtain ⟨step, tail⟩ := queueIteration_step (by rw [available]; rfl) iteration
      exact .head step (ih middle answers' (by rw [tail, available]; rfl) rest)
  exact loop _ s answers rfl done

theorem cleanupLoop_steps {fuel : Nat} (done : cleanupLoop config dir record fuel s = .ok after) :
    MsgSteps config s after := by
  induction fuel generalizing s with
  | zero => cases done
  | succ fuel ih =>
    obtain ⟨found, head, rest⟩ := bind_ok.mp done
    cases found with
    | none =>
      cases rest
      exact .refl
    | some found =>
      obtain ⟨socket, async, msg⟩ := found
      exact .head (.drop (socketHead_ok head _ _ _ rfl)) (ih rest)

theorem serveEvent_steps {bit ev rest : UInt16}
    (done : serveEvent config dir bit s record ev answers = .ok (after, rest, left)) :
    MsgSteps config s after := by
  rw [serveEvent] at done
  split at done
  · obtain ⟨⟨handled, _⟩, handle, done⟩ := bind_ok.mp done
    obtain ⟨⟨served, _⟩, serve, done⟩ := bind_ok.mp done
    cases done
    exact (queueHandle_steps handle).trans (serveSocket_steps serve)
  · cases done
    exact .refl

theorem serveAsync_steps {ev rest : UInt16}
    (done : serveAsync config s record ev answers = .ok (after, rest)) :
    MsgSteps config s after := by
  obtain ⟨⟨middle, ev', answers'⟩, reading, done⟩ := bind_ok.mp done
  obtain ⟨⟨final, ev'', _⟩, writing, done⟩ := bind_ok.mp done
  cases done
  exact (serveEvent_steps reading).trans (serveEvent_steps writing)

end GlobalComponents.PicoServer
