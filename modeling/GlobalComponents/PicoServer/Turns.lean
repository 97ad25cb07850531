import GlobalComponents.PicoServer.Aside
import GlobalComponents.PicoServer.Messages

/-! The server in turns.

A turn is one iteration of a loop over messages, or any other event as a whole. Whatever the server does
is a sequence of turns, so what holds in every run of turns holds in every run of the server.
-/

set_option autoImplicit false

namespace GlobalComponents.PicoServer

open Library

inductive Turn where
  /-- `tx_queue_handle` or `rx_queue_handle` dequeues a message. It asks the stack once if nothing
  waits. -/
  | handle (dir : Dir) (answers : List Answer)
  /-- `tx_socket` or `rx_socket` asks the stack for the first message that waits. -/
  | serve (dir : Dir) (record : Ptr) (answer : Answer)
  /-- The last part of `socket_cb`. -/
  | report (socket : Socket) (ev : UInt16) (memory : Bool)
  /-- An event without such a loop; `cleanup_async_socket` is part of one. -/
  | other (event : Event)

def handleTurn (config : Config) (s : Server) (dir : Dir) (answers : List Answer) :
    Except Fault Server :=
  match (s.queue dir).available with
  | [] => .ok s
  | entry :: _ => do
    let (s, _) ← queueIteration config dir (s, answers) entry
    return s

def serveTurn (config : Config) (s : Server) (dir : Dir) (record : Ptr) (answer : Answer) :
    Except Fault Server := do
  match ← socketHead s dir record with
  | none => .ok s
  | some (socket, async, msg) => do
    let (s, _) ← socketIteration config dir s record socket async msg answer
    return s

def Server.turn (config : Config) (s : Server) : Turn → Except Fault (Server × Reply)
  | .handle dir answers => do return (← handleTurn config s dir answers, .none)
  | .serve dir record answer => do return (← serveTurn config s dir record answer, .none)
  | .report socket ev memory => do return (← reportEvent s socket ev memory, .none)
  | .other event => s.step config event

def Event.handles : Event → Bool
  | .callback .. | .irq _ => true
  | _ => false

/-- The client has the message and the descriptor, and the used ring has room for every message that is
lent. -/
def Server.MaySubmit (config : Config) (s : Server) (dir : Dir) (handle : UInt32) (msg : Ptr) : Prop :=
  msg ∉ ((s.queue .tx).lent ++ (s.queue .rx).lent).map Prod.snd ∧
    handle ∉ (s.queue dir).lent.map Prod.fst ∧
    (s.queue dir).used.length + (s.queue dir).lent.length < config.ringSize

instance (config : Config) (s : Server) (dir : Dir) (handle : UInt32) (msg : Ptr) :
    Decidable (s.MaySubmit config dir handle msg) := by
  unfold Server.MaySubmit
  infer_instance

/-- The stack hands out no address of a socket at which messages wait, and a client leaves the messages
alone that it has lent. -/
def Server.Admits (config : Config) (s : Server) : Event → Prop
  | .control _ (.open _ _ socket _) => s.AddressRests socket
  | .control _ (.accept _ socket _ _ _ _) => s.AddressRests socket
  | .submit dir handle msg _ => s.MaySubmit config dir handle msg
  | _ => True

def Turn.event : Turn → Option Event
  | .other event => some event
  | .handle .. | .serve .. | .report .. => none

def turns (config : Config) : Machine Server Turn Reply where
  allowed s turn := ∀ event ∈ turn.event,
    s.permits config event ∧ s.Admits config event ∧ event.handles = false
  step s turn := (s.turn config turn).toOption

variable {config : Config} {s t after : Server} {dir : Dir} {record msg : Ptr} {handle : UInt32}
  {answer : Answer} {answers left : List Answer} {event : Event} {reply : Reply} {turn : Turn}
  {waiting : Dir → Ptr → List Ptr}

theorem turns_step : (turns config).step s turn = some (after, reply) ↔
    s.turn config turn = .ok (after, reply) := by
  change (s.turn config turn).toOption = _ ↔ _
  cases s.turn config turn <;> simp [Except.toOption]

/-! ## The loops in turns -/

/-- Some turns lead from one state to another. -/
def Turned (config : Config) (s after : Server) : Prop := ∃ trace, (turns config).Run s trace after

theorem Turned.refl (s : Server) : Turned config s s := ⟨[], .start⟩

theorem Turned.trans (first : Turned config s t) (second : Turned config t after) :
    Turned config s after :=
  first.elim fun _ run => second.elim fun _ run' => ⟨_, run.append run'⟩

theorem Turned.once (loop : turn.event = none) (done : s.turn config turn = .ok (after, reply)) :
    Turned config s after := by
  have allowed : (turns config).allowed s turn := by
    intro event member
    rw [loop] at member
    cases member
  exact ⟨_, Machine.Run.start.next allowed (turns_step.mpr done)⟩

theorem queueHandle_turned (done : queueHandle config dir s answers = .ok (after, left)) :
    Turned config s after := by
  -- the entries still to come are the ones available
  have loop : ∀ entries s answers, (s.queue dir).available = entries →
      entries.foldlM (queueIteration config dir) (s, answers) = .ok (after, left) →
      Turned config s after := by
    intro entries
    induction entries with
    | nil =>
      intro s answers _ done
      cases done
      exact .refl after
    | cons entry entries ih =>
      intro s answers available done
      obtain ⟨⟨middle, answers'⟩, iteration, rest⟩ := bind_ok.mp done
      obtain ⟨handle, msg⟩ := entry
      obtain ⟨_, tail⟩ := queueIteration_step (by rw [available]; rfl) iteration
      have turn : s.turn config (.handle dir answers) = .ok (middle, .none) := by
        refine bind_ok.mpr ⟨middle, ?_, rfl⟩
        rw [handleTurn, available]
        exact bind_ok.mpr ⟨_, iteration, rfl⟩
      exact (Turned.once rfl turn).trans (ih middle answers' (by rw [tail, available]; rfl) rest)
  exact loop _ s answers rfl done

theorem socketLoop_turned (done : socketLoop config dir record answers s = .ok (after, left)) :
    Turned config s after := by
  induction answers generalizing s with
  | nil =>
    obtain ⟨found, head, rest⟩ := bind_ok.mp done
    cases found with
    | none =>
      cases rest
      exact .refl _
    | some => cases rest
  | cons answer answers ih =>
    obtain ⟨found, head, rest⟩ := bind_ok.mp done
    cases found with
    | none =>
      cases rest
      exact .refl _
    | some found =>
      obtain ⟨socket, async, msg⟩ := found
      obtain ⟨⟨middle, more⟩, iteration, rest⟩ := bind_ok.mp rest
      have turn : s.turn config (.serve dir record answer) = .ok (middle, .none) := by
        refine bind_ok.mpr ⟨middle, bind_ok.mpr ⟨_, head, ?_⟩, rfl⟩
        exact bind_ok.mpr ⟨_, iteration, rfl⟩
      have first := Turned.once rfl turn
      cases more with
      | true => exact first.trans (ih rest)
      | false =>
        cases rest
        exact first

theorem serveSocket_turned (done : serveSocket config dir s record answers = .ok (after, left)) :
    Turned config s after := by
  obtain ⟨socket, _, rest⟩ := bind_ok.mp done
  split at rest
  · cases rest
    exact .refl _
  · exact socketLoop_turned rest

theorem serveEvent_turned {bit ev rest : UInt16}
    (done : serveEvent config dir bit s record ev answers = .ok (after, rest, left)) :
    Turned config s after := by
  rw [serveEvent] at done
  split at done
  · obtain ⟨⟨handled, _⟩, handle, done⟩ := bind_ok.mp done
    obtain ⟨⟨served, _⟩, serve, done⟩ := bind_ok.mp done
    cases done
    exact (queueHandle_turned handle).trans (serveSocket_turned serve)
  · cases done
    exact .refl _

theorem reportEvent_turned {socket : Socket} {ev : UInt16} {memory : Bool}
    (done : reportEvent s socket ev memory = .ok after) : Turned config s after := by
  have turn : s.turn config (.report socket ev memory) = .ok (after, .none) :=
    bind_ok.mpr ⟨after, done, rfl⟩
  exact .once rfl turn

theorem socketCb_turned {ev : UInt16} {socket : Ptr} {memory : Bool}
    (done : socketCb config s ev socket answers memory = .ok after) : Turned config s after := by
  rw [socketCb] at done
  split at done
  · split at done
    · obtain rfl := Except.ok.inj done
      exact .refl s
    · cases done
  · next record _ =>
    obtain ⟨clientSocket, _, done⟩ := bind_ok.mp done
    split at done
    · obtain ⟨⟨served, ev'⟩, serve, done⟩ := bind_ok.mp done
      obtain ⟨⟨received, ev₁, answers₁⟩, reading, serve⟩ := bind_ok.mp serve
      obtain ⟨⟨sent, ev₂, _⟩, writing, serve⟩ := bind_ok.mp serve
      obtain ⟨rfl, rfl⟩ := pair_ok.mp serve
      exact ((serveEvent_turned reading).trans (serveEvent_turned writing)).trans
        (reportEvent_turned done)
    · exact reportEvent_turned done

/-- A step of the server is a sequence of turns. -/
theorem step_turned (permits : s.permits config event) (admits : s.Admits config event)
    (done : s.step config event = .ok (after, reply)) : Turned config s after := by
  cases here : event.handles with
  | false =>
    have allowed : (turns config).allowed s (.other event) := by
      rintro _ ⟨⟩
      exact ⟨permits, admits, here⟩
    exact ⟨_, Machine.Run.start.next allowed (turns_step.mpr done)⟩
  | true =>
    cases event with
    | callback ev socket answers memory =>
      obtain ⟨called, call, done⟩ := bind_ok.mp done
      obtain ⟨rfl, _⟩ := pair_ok.mp done
      exact socketCb_turned call
    | irq answers =>
      obtain ⟨⟨received, answers'⟩, receiving, done⟩ := bind_ok.mp done
      obtain ⟨⟨sent, _⟩, sending, done⟩ := bind_ok.mp done
      obtain ⟨rfl, _⟩ := pair_ok.mp done
      exact (queueHandle_turned receiving).trans (queueHandle_turned sending)
    | control | communicate | putEvent | notify | submit | collect => cases here

/-- A run of the server is a run of turns. -/
theorem run_turned {start final : Server} {trace : List (Event × Reply)}
    (run : (machine config).Run start trace final)
    (admits : (machine config).EveryStep start trace fun s event => s.Admits config event) :
    Turned config start final := by
  induction run with
  | start => exact .refl start
  | @next trace before after event reply run permits step ih =>
    have admitted := admits trace event reply (List.prefix_refl _) before run
    exact (ih (admits.early (List.prefix_append _ _))).trans
      (step_turned permits admitted (machine_step.mp step))

/-! ## Cleaning up -/

/-- The messages at a socket go back, one after the other. -/
inductive Drops (config : Config) (record : Ptr) : Server → Server → Prop where
  | refl (s : Server) : Drops config record s s
  | next {s after : Server} {dir : Dir} {msg : Ptr} {socket : Socket} {async : Async} :
      Head s dir record socket async msg →
      Drops config record (popComplete config dir s record socket async msg (-1) 0) after →
      Drops config record s after

theorem Drops.trans (first : Drops config record s t) (second : Drops config record t after) :
    Drops config record s after := by
  induction first with
  | refl => exact second
  | next head _ ih => exact .next head (ih second)

theorem cleanupLoop_drops {fuel : Nat} (done : cleanupLoop config dir record fuel s = .ok after) :
    Drops config record s after ∧ ∀ socket async, after.records record = some socket →
      socket.asyncTransport = some async → (async.pending dir).queue = none := by
  induction fuel generalizing s with
  | zero => cases done
  | succ fuel ih =>
    obtain ⟨found, head, rest⟩ := bind_ok.mp done
    cases found with
    | none =>
      cases rest
      refine ⟨.refl after, fun socket async held transport => ?_⟩
      exact socketHead_none head held transport
    | some found =>
      obtain ⟨socket, async, msg⟩ := found
      obtain ⟨drops, empty⟩ := ih rest
      exact ⟨.next (socketHead_ok head _ _ _ rfl) drops, empty⟩

/-- Every pending list of a socket that is dropped from gets shorter, and the others stay. -/
theorem Drops.owned (drops : Drops config record s after)
    (owned : Owned config.ringSize s.view waiting) :
    ∃ waiting', Owned config.ringSize after.view waiting' ∧
      (∀ d r, r ≠ record → waiting' d r = waiting d r) ∧
      ∀ d, waiting' d record <:+ waiting d record := by
  induction drops generalizing waiting with
  | refl => exact ⟨waiting, owned, fun _ _ _ => rfl, fun _ => List.suffix_refl _⟩
  | @next s after dir msg socket async head _ ih =>
    obtain ⟨rest, front⟩ := owned.head head
    obtain ⟨waiting', owned, others, own⟩ := ih (owned.dropped head front)
    refine ⟨waiting', owned, fun d r other => ?_, fun d => ?_⟩
    · rw [others d r other, place_apply, if_neg fun same => other same.2]
    · refine (own d).trans ?_
      rw [place_apply]
      split
      · next same =>
        rw [same.1, front]
        exact List.suffix_cons msg rest
      · exact List.suffix_refl _

structure CleanedUp (config : Config) (record : Ptr) (s after : Server) : Prop where
  drops : ∃ called middle, Aside s called ∧ Drops config record called middle ∧
    middle.Rests record ∧ Aside middle after
  gone : after.service record = none

theorem Owned.rests (owned : Owned config.ringSize s.view waiting)
    (empty : ∀ d, waiting d record = []) : s.Rests record := by
  intro protocol async held
  have transport : s.view.transport record = some async :=
    (s.transport_eq record).trans (by rw [held]; rfl)
  have ends : ∀ d, async.pending d = ⟨none, none⟩ := by
    intro d
    have linked := owned.linked d record async transport
    rw [empty d] at linked
    have first := linked.first_eq_none.mpr rfl
    have last := linked.last_eq_none.mpr rfl
    generalize async.pending d = pending at first last
    cases pending
    cases first
    cases last
    rfl
  have rx := ends .rx
  have tx := ends .tx
  cases async
  cases rx
  cases tx
  rfl

theorem Owned.emptied {d : Dir}
    (owned : Owned config.ringSize s.view waiting)
    (empty : ∀ socket async, s.records record = some socket →
      socket.asyncTransport = some async → (async.pending d).queue = none) :
    waiting d record = [] := by
  cases held : s.records record with
  | none =>
    apply owned.idle d record
    change (s.records record).bind _ = none
    rw [held]
    rfl
  | some socket =>
    cases transport : socket.asyncTransport with
    | none =>
      apply owned.idle d record
      change (s.records record).bind _ = none
      rw [held]
      exact transport
    | some async =>
      have both : s.view.transport record = some async := by
        change (s.records record).bind _ = some async
        rw [held]
        exact transport
      exact (owned.linked d record async both).first_eq_none.mp (empty socket async held transport)

theorem cleanupAsyncSocket_cleans (owned : Owned config.ringSize s.view waiting)
    (done : cleanupAsyncSocket config s record = .ok after) : CleanedUp config record s after := by
  obtain ⟨socket, deref, done⟩ := bind_ok.mp done
  have held := Server.deref_ok.mp deref
  split at done
  · next synchronous =>
    obtain rfl := Except.ok.inj done
    have none : s.service record = Option.none := by
      rw [Server.service, held, Option.bind_some, synchronous, Option.map_none]
    exact ⟨⟨s, s, .refl s, .refl s, Server.rests_of_none none, .refl s⟩, none⟩
  · obtain ⟨sent, sending, done⟩ := bind_ok.mp done
    obtain ⟨received, receiving, done⟩ := bind_ok.mp done
    obtain ⟨last, deref, done⟩ := bind_ok.mp done
    obtain rfl := Except.ok.inj done
    obtain ⟨first, sentAll⟩ := cleanupLoop_drops sending
    obtain ⟨second, receivedAll⟩ := cleanupLoop_drops receiving
    obtain ⟨waiting', owned, -, -⟩ := first.owned owned
    have tx : waiting' .tx record = [] := owned.emptied sentAll
    obtain ⟨waiting'', owned, -, shorter⟩ := second.owned owned
    have rests : received.Rests record := by
      refine owned.rests fun d => ?_
      cases d with
      | tx => exact List.suffix_nil.mp (tx ▸ shorter .tx)
      | rx => exact owned.emptied receivedAll
    refine ⟨⟨s, received, .refl s, first.trans second, rests, .synchronous rests rfl⟩, ?_⟩
    rw [service_setRecord]
    rfl

theorem CleanedUp.before (aside : Aside s t) (cleaned : CleanedUp config record t after) :
    CleanedUp config record s after := by
  obtain ⟨called, middle, first, rest⟩ := cleaned.drops
  exact ⟨⟨called, middle, aside.trans first, rest⟩, cleaned.gone⟩

theorem CleanedUp.then (cleaned : CleanedUp config record s t) (aside : Aside t after)
    (gone : after.service record = none) : CleanedUp config record s after := by
  obtain ⟨called, middle, first, drops, rests, last⟩ := cleaned.drops
  exact ⟨⟨called, middle, first, drops, rests, last.trans aside⟩, gone⟩

/-! ## The other events -/

inductive MsgEffect (config : Config) (s : Server) : Event → Server → Prop where
  | aside {event : Event} {after : Server} : Aside s after → MsgEffect config s event after
  | cleaned {event : Event} {record : Ptr} {after : Server} : CleanedUp config record s after →
      MsgEffect config s event after
  | submit {dir : Dir} {handle : UInt32} {msg : Ptr} {content : Msg} :
      MsgEffect config s (.submit dir handle msg content)
        ((s.setMsg msg content).setQueue dir { s.queue dir with
          available := (s.queue dir).available ++ [(handle, msg)]
          lent := (s.queue dir).lent ++ [(handle, msg)] })
  | collect {dir : Dir} : MsgEffect config s (.collect dir)
      (s.setQueue dir { s.queue dir with used := (s.queue dir).used.tail })

theorem MsgEffect.before (aside : Aside s t)
    (effect : Aside t after ∨ ∃ record, CleanedUp config record t after) :
    MsgEffect config s event after := by
  rcases effect with effect | ⟨record, cleaned⟩
  · exact .aside (aside.trans effect)
  · exact .cleaned (cleaned.before aside)

theorem picoControlOpen_aside {isUdp : Bool} {record : Option Ptr} {socket : Ptr}
    {memory : Bool × Bool} (free : ∀ p ∈ record, s.records p = none)
    (rests : s.AddressRests socket)
    (done : picoControlOpen config s isUdp record socket memory = .ok (after, reply)) :
    Aside s after := by
  obtain ⟨clientId, _, done⟩ := bind_ok.mp done
  cases record with
  | none =>
    cases done
    exact .refl s
  | some p =>
    dsimp only at done
    split at done
    · obtain ⟨rfl, _⟩ := pair_ok.mp done
      exact .refl s
    · obtain ⟨⟨put, ret⟩, putting, done⟩ := bind_ok.mp done
      obtain ⟨rfl, _⟩ := pair_ok.mp done
      exact putNewSocket_aside (free p rfl) rests putting

theorem picoControlAccept_aside {fd : Int32} {socket : Ptr} {peer : UInt32} {port : UInt16}
    {record : Option Ptr} {memory : Bool × Bool} (free : ∀ p ∈ record, s.records p = none)
    (rests : s.AddressRests socket)
    (done : picoControlAccept config s fd socket peer port record memory = .ok (after, reply)) :
    Aside s after := by
  obtain ⟨clientId, _, done⟩ := bind_ok.mp done
  split at done
  · cases done
    exact .refl s
  · obtain ⟨_, _, done⟩ := bind_ok.mp done
    split at done
    · obtain ⟨rfl, _⟩ := pair_ok.mp done
      exact .refl s
    · cases record with
      | none =>
        cases done
        exact .refl s
      | some p =>
        obtain ⟨⟨put, ret⟩, putting, done⟩ := bind_ok.mp done
        have aside := putNewSocket_aside (free p rfl) rests putting
        dsimp only at done
        split at done
        · obtain ⟨rfl, _⟩ := pair_ok.mp done
          exact aside
        · obtain ⟨rfl, _⟩ := pair_ok.mp done
          exact aside

theorem serverControlCommon_some {c : Nat} {fd : Int32}
    (found : serverControlCommon s c fd = some record) : clientGetSocket s c fd = some record := by
  rw [serverControlCommon] at found
  split at found
  · cases found
  · exact found

theorem clientDeleteSocket_gone {c : Nat} {fd ret : Int32}
    (found : clientGetSocket s c fd = some record)
    (done : clientDeleteSocket s c fd = .ok (after, ret)) : after.service record = none := by
  obtain ⟨present, rfl⟩ := Table.lookup_eq_some.mp found
  rw [clientDeleteSocket, if_neg present] at done
  obtain ⟨socket, deref, done⟩ := bind_ok.mp done
  obtain ⟨_, _, done⟩ := bind_ok.mp done
  obtain ⟨rfl, _⟩ := pair_ok.mp done
  rw [dropEvent_eq, Server.service]
  simp [Server.setClient, Server.setSocketAddrTable, Server.setSocketTable, Server.free]

theorem picoControlClose_cleanedUp {fd : Int32} {clientId : Nat}
    (owned : Owned config.ringSize s.view waiting) (checked : clientCheck config s = .ok clientId)
    (found : serverControlCommon s clientId fd = some record)
    (done : picoControlClose config s fd = .ok (after, reply)) : CleanedUp config record s after := by
  obtain ⟨_, again, done⟩ := bind_ok.mp done
  obtain rfl := Except.ok.inj (checked.symm.trans again)
  rw [found] at done
  obtain ⟨cleaned, cleaning, done⟩ := bind_ok.mp done
  obtain ⟨⟨deleted, ret⟩, deleting, done⟩ := bind_ok.mp done
  obtain ⟨rfl, _⟩ := pair_ok.mp done
  have cleans := cleanupAsyncSocket_cleans owned cleaning
  have clients := (SameBooks.cleanup cleaning).clients
  have same : clientGetSocket cleaned clientId fd = clientGetSocket s clientId fd := by
    rw [clientGetSocket, clients, clientGetSocket]
  have here := same.trans (serverControlCommon_some found)
  refine cleans.then (clientDeleteSocket_aside (fun p other => ?_) deleting)
    (clientDeleteSocket_gone here deleting)
  obtain rfl := Option.some.inj (here.symm.trans other)
  exact Server.rests_of_none cleans.gone

theorem picoControlClose_cleans {fd : Int32} (owned : Owned config.ringSize s.view waiting)
    (done : picoControlClose config s fd = .ok (after, reply)) :
    Aside s after ∨ ∃ record, CleanedUp config record s after := by
  obtain ⟨clientId, checked, rest⟩ := bind_ok.mp done
  cases found : serverControlCommon s clientId fd with
  | none =>
    rw [found] at rest
    cases rest
    exact .inl (.refl s)
  | some record => exact .inr ⟨record, picoControlClose_cleanedUp owned checked found done⟩

theorem CleanedUp.nothing (none : s.service record = none) : CleanedUp config record s s :=
  ⟨⟨s, s, .refl s, .refl s, Server.rests_of_none none, .refl s⟩, none⟩

theorem picoControlSetAsync_cleanedUp {fd : Int32} {memory : Bool} {clientId : Nat}
    (owned : Owned config.ringSize s.view waiting) (checked : clientCheck config s = .ok clientId)
    (found : serverControlCommon s clientId fd = some record)
    (done : picoControlSetAsync config s fd false memory = .ok (after, reply)) :
    CleanedUp config record s after := by
  obtain ⟨_, again, done⟩ := bind_ok.mp done
  obtain rfl := Except.ok.inj (checked.symm.trans again)
  rw [found] at done
  obtain ⟨socket, deref, done⟩ := bind_ok.mp done
  rw [if_neg (fun enables => Bool.false_ne_true enables.1)] at done
  split at done
  · obtain ⟨cleaned, cleaning, done⟩ := bind_ok.mp done
    obtain ⟨rfl, _⟩ := pair_ok.mp done
    exact cleanupAsyncSocket_cleans owned cleaning
  · next synchronous =>
    obtain ⟨rfl, _⟩ := pair_ok.mp done
    have none : socket.asyncTransport = none := by simpa using synchronous
    refine .nothing ?_
    rw [Server.service, Server.deref_ok.mp deref, Option.bind_some, none, Option.map_none]

theorem picoControlSetAsync_cleans {fd : Int32} {enabled memory : Bool}
    (owned : Owned config.ringSize s.view waiting)
    (done : picoControlSetAsync config s fd enabled memory = .ok (after, reply)) :
    Aside s after ∨ ∃ record, CleanedUp config record s after := by
  obtain ⟨clientId, _, done⟩ := bind_ok.mp done
  split at done
  · cases done
    exact .inl (.refl s)
  · next record _ =>
    obtain ⟨socket, deref, done⟩ := bind_ok.mp done
    split at done
    · next enables =>
      left
      split at done
      · obtain ⟨rfl, _⟩ := pair_ok.mp done
        exact .refl s
      · obtain ⟨rfl, _⟩ := pair_ok.mp done
        refine .setRecord s (.inr ⟨Server.rests_of_none ?_, fun protocol async held => ?_⟩)
        · rw [Server.service, Server.deref_ok.mp deref, Option.bind_some, enables.2,
            Option.map_none]
        · rw [service_setRecord] at held
          cases held
          rfl
    · split at done
      · obtain ⟨cleaned, cleaning, done⟩ := bind_ok.mp done
        obtain ⟨rfl, _⟩ := pair_ok.mp done
        exact .inr ⟨record, cleanupAsyncSocket_cleans owned cleaning⟩
      · obtain ⟨rfl, _⟩ := pair_ok.mp done
        exact .inl (.refl s)

theorem control_effect {client : Nat} {call : Control}
    (owned : Owned config.ringSize s.view waiting)
    (permits : s.permits config (.control client call))
    (admits : s.Admits config (.control client call))
    (done : controlHandleMessage config s client call = .ok (after, reply)) :
    MsgEffect config s event after := by
  have called : Aside s { s with controlBadge := enumerateBadge config.controlBadges client } :=
    .of_same (funext fun dir => by cases dir with | tx | rx => rfl) rfl rfl rfl
  apply MsgEffect.before called
  have owned := owned.aside called
  cases call with
  | «open» isUdp record socket memory => exact .inl (picoControlOpen_aside permits.2 admits done)
  | accept fd socket peer port record memory =>
    exact .inl (picoControlAccept_aside permits.2 admits done)
  | close fd => exact picoControlClose_cleans owned done
  | setAsync fd enabled memory => exact picoControlSetAsync_cleans owned done
  | eventPoll =>
    obtain ⟨clientId, _, done⟩ := bind_ok.mp done
    obtain ⟨⟨polled, event⟩, poll, done⟩ := bind_ok.mp done
    obtain ⟨rfl, _⟩ := pair_ok.mp done
    exact .inl (clientGetEvent_aside poll)
  | stack fd ret =>
    obtain ⟨clientId, _, done⟩ := bind_ok.mp done
    left
    split at done
    · cases done
      exact .refl _
    · obtain ⟨_, _, done⟩ := bind_ok.mp done
      obtain ⟨rfl, _⟩ := pair_ok.mp done
      exact .refl _
  | getIpv4 device =>
    left
    cases device with
    | none | some =>
      cases done
      exact .refl _

theorem communicate_aside {badges : List UInt64} {bufSize : UInt64 → UInt64} {call : StackCall}
    {issuer : Nat} {fd len bufferOffset ret : Int32}
    (done : communicate config badges bufSize call s issuer fd len bufferOffset ret =
      .ok (after, reply)) : Aside s after := by
  obtain ⟨clientId, _, done⟩ := bind_ok.mp done
  dsimp only at done
  split at done
  · cases done
    exact .note s rfl
  · obtain ⟨socket, _, done⟩ := bind_ok.mp done
    obtain ⟨rfl, _⟩ := pair_ok.mp done
    exact (Aside.note s rfl).trans (.note _ rfl)

theorem communicateHandleMessage_aside {client : Nat} {call : StackCall}
    {fd len bufferOffset ret : Int32}
    (done : communicateHandleMessage config s client call fd len bufferOffset ret =
      .ok (after, reply)) : Aside s after := by
  have sends : Aside s { s with sendBadge := enumerateBadge config.sendBadges client } :=
    .of_same (funext fun dir => by cases dir with | tx | rx => rfl) rfl rfl rfl
  have receives : Aside s { s with recvBadge := enumerateBadge config.recvBadges client } :=
    .of_same (funext fun dir => by cases dir with | tx | rx => rfl) rfl rfl rfl
  cases call with
  | write | send | sendto => exact sends.trans (communicate_aside done)
  | read | recv | recvfrom => exact receives.trans (communicate_aside done)

theorem notifyClient_aside : Aside s (notifyClient s) := by
  have emits : ∀ t : Server, Aside t { t with emitClient := false } := fun t =>
    .of_same (funext fun dir => by cases dir with | tx | rx => rfl) rfl rfl rfl
  have notifies : ∀ t : Server, Aside t { t with emitClientAsync := false } := fun t =>
    .of_same (funext fun dir => by cases dir with | tx | rx => rfl) rfl rfl rfl
  rw [notifyClient]
  have first : Aside s (if s.emitClient then
      { s.note (.emitControl 1) with emitClient := false } else s) := by
    split
    · exact (Aside.note s rfl).trans (emits _)
    · exact .refl s
  generalize (if s.emitClient then { s.note (.emitControl 1) with emitClient := false } else s) = t
    at first
  dsimp only
  split
  · exact (first.trans (.note t rfl)).trans (notifies _)
  · exact first

theorem step_effect (owned : Owned config.ringSize s.view waiting)
    (permits : s.permits config event) (admits : s.Admits config event)
    (loops : event.handles = false) (done : s.step config event = .ok (after, reply)) :
    MsgEffect config s event after := by
  cases event with
  | control => exact control_effect owned permits admits done
  | communicate => exact .aside (communicateHandleMessage_aside done)
  | putEvent =>
    obtain ⟨⟨put, ret⟩, putting, done⟩ := bind_ok.mp done
    obtain ⟨rfl, _⟩ := pair_ok.mp done
    exact .aside (clientPutEvent_aside putting)
  | notify =>
    obtain ⟨rfl, _⟩ := pair_ok.mp done
    exact .aside notifyClient_aside
  | submit dir handle msg content =>
    obtain ⟨rfl, _⟩ := pair_ok.mp done
    exact .submit
  | collect dir =>
    obtain ⟨rfl, _⟩ := pair_ok.mp done
    exact .collect
  | callback | irq => cases loops

end GlobalComponents.PicoServer
