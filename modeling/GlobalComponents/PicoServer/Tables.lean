import GlobalComponents.PicoServer.Agreement

/-! Every operation of the server keeps the tables in agreement, and a call that fails keeps their
entries. -/

set_option autoImplicit false

namespace GlobalComponents.PicoServer

open Library

def Reply.failed : Reply → Prop
  | .int ret => ret = -1
  | .peer result _ _ _ => result = -1
  | _ => False

/-- PicoTCP hands out an address that is not registered. -/
def FreshAddress (s : Server) : Event → Prop
  | .control _ (.open _ _ socket _) | .control _ (.accept _ socket _ _ _ _) =>
    clientGetSocketByAddr s socket = none
  | _ => True

instance (s : Server) : (event : Event) → Decidable (FreshAddress s event)
  | .control _ call =>
    match call with
    | .open _ _ socket _ | .accept _ socket _ _ _ _ =>
      inferInstanceAs (Decidable (clientGetSocketByAddr s socket = none))
    | .close _ | .setAsync _ _ _ | .eventPoll | .stack _ _ | .getIpv4 _ => .isTrue trivial
  | .communicate _ _ _ _ _ _ | .callback _ _ _ _ | .putEvent _ _ _ _ | .irq _ | .notify
  | .submit _ _ _ _ | .collect _ => .isTrue trivial

structure BooksOutcome (config : Config) (s after : Server) (opener : Option Nat) (reply : Reply) :
    Prop where
  step : BooksStep config s.books after.books opener
  error : reply.failed → SameEntries s.books after.books

theorem BooksOutcome.of_same {config : Config} {s after : Server} {opener : Option Nat}
    {reply : Reply} (same : after.books = s.books) : BooksOutcome config s after opener reply := by
  have entries : SameEntries s.books after.books := same ▸ .refl _
  exact ⟨.same entries (congrArg Books.bump same) (congrArg Books.records same), fun _ => entries⟩

theorem BooksOutcome.congr {config : Config} {s middle after : Server} {opener : Option Nat}
    {reply : Reply} (same : middle.books = s.books)
    (outcome : BooksOutcome config middle after opener reply) :
    BooksOutcome config s after opener reply := by
  obtain ⟨step, error⟩ := outcome
  rw [same] at step error
  exact ⟨step, error⟩

theorem books_records {s after : Server} {record : Ptr} {new : Option Socket}
    (records : after.records = Function.update s.records record new) :
    after.books.records = Function.update s.books.records record (new.map Socket.plain) := by
  funext p
  by_cases here : p = record
  · subst here
    simp [Server.books, records]
  · simp [Server.books, records, Function.update_of_ne here]

theorem SameBooks.books {before after : Server} (same : SameBooks before after) :
    after.books = before.books := by
  have clients := same.clients
  have sockets : after.sockets = before.sockets := by
    funext c fd
    rw [Server.sockets, clients]
    rfl
  have events : after.events = before.events := by
    funext c fd
    rw [Server.events, clients]
    rfl
  have bump : after.bump = before.bump := by
    funext c
    rw [Server.bump, clients]
    rfl
  have address : after.address = before.address := by
    funext a
    rw [Server.address, same.addresses]
    rfl
  have records : after.books.records = before.books.records := by
    funext p
    exact same.records p
  calc
    after.books = ⟨after.sockets, after.address, after.events, after.bump, after.books.records⟩ :=
      rfl
    _ = before.books := by
      rw [sockets, address, events, bump, records]
      rfl

section
variable {config : Config} {s after : Server} {reply : Reply} {c : Nat}

/-- No socket has the fd 0. -/
theorem Agree.events_zero (agree : Agree config s.books) (c : Nat) : s.events c 0 = none := by
  by_contra pending
  obtain ⟨p, open'⟩ := Option.ne_none_iff_exists'.mp (agree.events c 0 pending)
  obtain ⟨_, socket, _, _, number, positive, _⟩ := agree.sockets c 0 p open'
  rw [number] at positive
  exact absurd positive (by decide)

theorem clientGetEvent_books (zero : s.events c 0 = none) {event : SocketEvent}
    (done : clientGetEvent s c = .ok (after, event)) :
    BooksStep config s.books after.books none := by
  rcases clientGetEvent_spec done with ⟨rfl, _⟩ | ⟨fd, pending, sockets, address, bump, events, rest⟩
  · exact .same (.refl _) rfl rfl
  · rcases rest with ⟨rfl, _⟩ | ⟨record, socket, held, live, records, _⟩
    · exact absurd zero pending
    · have live' : s.books.records record = some socket.plain := by simp [Server.books, live]
      exact .polled pending held live' bump sockets address events (books_records records)

theorem clientPutEvent_books {fd ret : Int32} {ev : UInt16} {memory : Bool}
    (done : clientPutEvent s c fd ev memory = .ok (after, ret)) :
    BooksOutcome config s after none (.int ret) := by
  rcases clientPutEvent_spec done with
    ⟨_, rfl, _⟩ | ⟨record, socket, held, live, sockets, address, bump, records, marked⟩
  · exact .of_same rfl
  · have live' : s.books.records record = some socket.plain := by simp [Server.books, live]
    refine ⟨.noted ev held live' bump sockets address marked.events (books_records records),
      fun failed => ?_⟩
    cases marked with
    | refused _ events => exact ⟨sockets, address, events⟩
    | lost | entered => exact absurd (show (0 : Int32) = -1 from failed) (by decide)

theorem clientDeleteSocket_books {fd ret : Int32}
    (done : clientDeleteSocket s c fd = .ok (after, ret)) :
    BooksOutcome config s after none (.int ret) := by
  rcases clientDeleteSocket_spec done with
    ⟨_, rfl, _⟩ | ⟨rfl, record, socket, held, live, sockets, address, events, records, bump⟩
  · exact .of_same rfl
  · have live' : s.books.records record = some socket.plain := by simp [Server.books, live]
    exact ⟨.deleted held live' bump sockets address events (books_records records),
      fun failed => absurd (show (0 : Int32) = -1 from failed) (by decide)⟩

/-- The bump index of the client is an id that no socket has. -/
structure Ready (s : Server) (c : Nat) : Prop where
  free : s.sockets c (s.bump c) = none
  positive : 1 ≤ (s.bump c).toNat
  small : (s.bump c).toNat < 2 ^ 31

theorem Ready.toInt32 (ready : Ready s c) : (1 : Int32) ≤ (s.bump c).toInt32 := by
  have positive := ready.positive
  have small := ready.small
  have same : (s.bump c).toInt32.toInt = (s.bump c).toNat :=
    BitVec.toInt_eq_toNat_of_lt (x := (s.bump c).toBitVec) (by
      change 2 * (s.bump c).toNat < 2 ^ 32
      omega)
  rw [Int32.le_iff_toInt_le, same]
  exact Int.ofNat_le.mpr positive

theorem Tied.addressed {valid : Int32 → Prop} (tied : Tied config valid s.books) :
    s.Addressed := by
  intro a p entry
  obtain ⟨plain, alive, there, _⟩ := tied.address a p entry
  obtain ⟨old, held, rfl⟩ := Option.map_eq_some_iff.mp alive
  exact ⟨old, held, there⟩

theorem Agree.addressed (agree : Agree config s.books) : s.Addressed := agree.tied.addressed

/-- The new record is filled in, and nothing is entered yet. -/
structure FilledIn (s t : Server) (record : Ptr) (new : Socket) : Prop where
  clients : t.clients = s.clients
  table : t.socketAddrTable = s.socketAddrTable
  records : t.records = Function.update s.records record (some new)

section
variable {t put : Server} {record p : Ptr} {new old : Socket} (filled : FilledIn s t record new)
include filled

theorem FilledIn.sockets : t.sockets = s.sockets := by
  unfold Server.sockets
  rw [filled.clients]

theorem FilledIn.address : t.address = s.address := by
  unfold Server.address
  rw [filled.table]

theorem FilledIn.events : t.events = s.events := by
  unfold Server.events
  rw [filled.clients]

theorem FilledIn.bump : t.bump = s.bump := by
  unfold Server.bump
  rw [filled.clients]

theorem FilledIn.held : t.records record = some new := by
  rw [filled.records, Function.update_self]

theorem FilledIn.others (dead : s.records record = none) (live : s.records p = some old) :
    t.records p = some old := by
  rw [filled.records, Function.update_of_ne, live]
  rintro rfl
  rw [dead] at live
  cases live

theorem FilledIn.addressed (addressed : s.Addressed) (dead : s.records record = none) :
    t.Addressed := by
  intro a q entry
  rw [filled.address] at entry
  obtain ⟨old, live, there⟩ := addressed a q entry
  exact ⟨old, filled.others dead live, there⟩

theorem FilledIn.freed (dead : s.records record = none) (kept : put.records = t.records) :
    (put.free record).records = s.records := by
  change Function.update put.records record none = s.records
  rw [kept, filled.records, Function.update_idem, ← dead, Function.update_eq_self]

theorem FilledIn.recorded {fresh : Socket} (kept : put.records = t.records) :
    (put.setRecord record fresh).records = Function.update s.records record (some fresh) := by
  change Function.update put.records record _ = _
  rw [kept, filled.records, Function.update_idem]

end

theorem filledIn_note (s : Server) (record : Ptr) (new : Socket) (action : Action) :
    FilledIn s ((s.setRecord record new).note action) record new := ⟨rfl, rfl, rfl⟩

theorem putNewSocket_cases {record socket : Ptr} {protocol : Protocol} {memory : Bool × Bool}
    {ret : Int32} (done : putNewSocket config s c record socket protocol memory = .ok (after, ret)) :
    ∃ t put number, FilledIn s t record ⟨protocol, c, 0, socket, 0, none⟩ ∧
      clientPutSocket config t c record memory = .ok (put, number) ∧
      (number = -1 ∧ ret = -1 ∧ after = put.free record ∨
        number ≠ -1 ∧ ret = number ∧ ∃ fresh, put.records record = some fresh ∧
          after = put.setRecord record { fresh with socketFd := number }) := by
  obtain ⟨⟨put, number⟩, putting, done⟩ := bind_ok.mp done
  refine ⟨_, put, number, filledIn_note _ _ _ _, putting, ?_⟩
  dsimp only at done
  split at done
  · next failed =>
    obtain ⟨rfl, rfl⟩ := pair_ok.mp done
    exact .inl ⟨failed, rfl, rfl⟩
  · next positive =>
    obtain ⟨fresh, deref, done⟩ := bind_ok.mp done
    obtain ⟨rfl, rfl⟩ := pair_ok.mp done
    exact .inr ⟨positive, rfl, fresh, Server.deref_ok.mp deref, rfl⟩

theorem putNewSocket_books (agree : Agree config s.books) (ready : Ready s c)
    {record socket : Ptr} {protocol : Protocol} {memory : Bool × Bool} {ret : Int32}
    (dead : s.records record = none) (nonnull : socket ≠ 0)
    (fresh : clientGetSocketByAddr s socket = none)
    (done : putNewSocket config s c record socket protocol memory = .ok (after, ret)) :
    BooksStep config s.books after.books (some c) ∧
      (ret = -1 → SameEntries s.books after.books) := by
  obtain ⟨s', put, number, filled, putting, ending⟩ := putNewSocket_cases done
  have client : c < config.numClients := by
    obtain ⟨_, checked, _⟩ := bind_ok.mp putting
    exact Nat.not_le.mp (zfLogfIf_ok.mp checked)
  have nonzero : s'.bump c ≠ 0 := by
    intro zero
    have positive := ready.positive
    rw [← filled.bump, zero] at positive
    exact absurd positive (by decide)
  obtain ⟨kept, bumped, registered⟩ := clientPutSocket_spec filled.held
    (by rw [filled.address]; exact fresh) (filled.addressed agree.addressed dead)
    (by rw [filled.sockets, filled.bump]; exact ready.free) nonzero putting
  rw [filled.bump] at bumped
  cases registered with
  | failed same =>
    obtain ⟨_, _, rfl⟩ := ending.resolve_right fun other => other.1 rfl
    have entries : SameEntries s.books (put.free record).books :=
      ⟨same.sockets.trans filled.sockets, same.address.trans filled.address,
        same.events.trans filled.events⟩
    refine ⟨.failed entries bumped ?_, fun _ => entries⟩
    funext p
    simp only [Server.books, filled.freed dead kept]
  | entered sockets address events =>
    -- the id is positive, so it does not read as an error
    have real : ¬(s'.bump c).toInt32 = -1 := by
      intro same
      have positive := ready.toInt32
      rw [← filled.bump, same] at positive
      exact absurd positive (by decide)
    obtain ⟨_, rfl, new, read, rfl⟩ := ending.resolve_left fun failed => real failed.1
    rw [kept, filled.held] at read
    obtain rfl := Option.some.inj read
    rw [filled.bump, filled.sockets] at sockets
    rw [filled.address] at address
    have gone : s.books.records record = none := by simp [Server.books, dead]
    refine ⟨.entered protocol client gone nonnull fresh bumped sockets address
      (events.trans filled.events) ?_, fun same => absurd same real⟩
    rw [books_records (filled.recorded kept), filled.bump]
    rfl

theorem picoControlOpen_books (agree : Agree config s.books) (ready : Ready s c)
    {isUdp : Bool} {record : Option Ptr} {socket : Ptr} {memory : Bool × Bool}
    (client : ∀ d, clientCheck config s = .ok d → d = c)
    (dead : ∀ p ∈ record, s.records p = none) (fresh : clientGetSocketByAddr s socket = none)
    (done : picoControlOpen config s isUdp record socket memory = .ok (after, reply)) :
    BooksOutcome config s after (some c) reply := by
  obtain ⟨clientId, checked, done⟩ := bind_ok.mp done
  obtain rfl := client clientId checked
  cases record with
  | none =>
    obtain ⟨rfl, _⟩ := pair_ok.mp done
    exact .of_same rfl
  | some p =>
    dsimp only at done
    split at done
    · obtain ⟨rfl, _⟩ := pair_ok.mp done
      exact .of_same rfl
    · next nonnull =>
      obtain ⟨⟨put, ret⟩, putting, done⟩ := bind_ok.mp done
      obtain ⟨rfl, rfl⟩ := pair_ok.mp done
      obtain ⟨step, error⟩ := putNewSocket_books agree ready (dead p rfl) nonnull fresh putting
      exact ⟨step, error⟩

theorem picoControlAccept_books (agree : Agree config s.books) (ready : Ready s c)
    {socketFd : Int32} {socket : Ptr} {peerAddr : UInt32} {remotePort : UInt16}
    {record : Option Ptr} {memory : Bool × Bool}
    (client : ∀ d, clientCheck config s = .ok d → d = c)
    (dead : ∀ p ∈ record, s.records p = none) (fresh : clientGetSocketByAddr s socket = none)
    (done : picoControlAccept config s socketFd socket peerAddr remotePort record memory =
      .ok (after, reply)) : BooksOutcome config s after (some c) reply := by
  obtain ⟨clientId, checked, done⟩ := bind_ok.mp done
  obtain rfl := client clientId checked
  split at done
  · obtain ⟨rfl, _⟩ := pair_ok.mp done
    exact .of_same rfl
  · obtain ⟨_, _, done⟩ := bind_ok.mp done
    split at done
    · obtain ⟨rfl, _⟩ := pair_ok.mp done
      exact .of_same rfl
    · next nonnull =>
      cases record with
      | none =>
        obtain ⟨rfl, _⟩ := pair_ok.mp done
        exact .of_same rfl
      | some p =>
        obtain ⟨⟨put, ret⟩, putting, done⟩ := bind_ok.mp done
        obtain ⟨step, error⟩ := putNewSocket_books agree ready (dead p rfl) nonnull fresh putting
        dsimp only at done
        split at done
        · next failed =>
          obtain ⟨rfl, _⟩ := pair_ok.mp done
          exact ⟨step, fun _ => error failed⟩
        · obtain ⟨rfl, rfl⟩ := pair_ok.mp done
          exact ⟨step, fun failed => absurd (show (0 : Int32) = -1 from failed) (by decide)⟩

theorem picoControlClose_books {socketFd : Int32}
    (done : picoControlClose config s socketFd = .ok (after, reply)) :
    BooksOutcome config s after none reply := by
  obtain ⟨clientId, _, done⟩ := bind_ok.mp done
  split at done
  · obtain ⟨rfl, _⟩ := pair_ok.mp done
    exact .of_same rfl
  · obtain ⟨cleaned, cleaning, done⟩ := bind_ok.mp done
    obtain ⟨⟨deleted, ret⟩, deleting, done⟩ := bind_ok.mp done
    obtain ⟨rfl, rfl⟩ := pair_ok.mp done
    exact (clientDeleteSocket_books deleting).congr (SameBooks.cleanup cleaning).books

theorem picoControlSetAsync_books {socketFd : Int32} {enabled memory : Bool}
    (done : picoControlSetAsync config s socketFd enabled memory = .ok (after, reply)) :
    after.books = s.books := by
  obtain ⟨clientId, _, done⟩ := bind_ok.mp done
  split at done
  · obtain ⟨rfl, _⟩ := pair_ok.mp done
    rfl
  · obtain ⟨socket, deref, done⟩ := bind_ok.mp done
    split at done
    · split at done
      · obtain ⟨rfl, _⟩ := pair_ok.mp done
        rfl
      · obtain ⟨rfl, _⟩ := pair_ok.mp done
        exact ((SameBooks.refl s).setAsync (Server.deref_ok.mp deref) _).books
    · split at done
      · obtain ⟨cleaned, cleaning, done⟩ := bind_ok.mp done
        obtain ⟨rfl, _⟩ := pair_ok.mp done
        exact (SameBooks.cleanup cleaning).books
      · obtain ⟨rfl, _⟩ := pair_ok.mp done
        rfl

theorem picoControlStack_books {socketFd ret : Int32}
    (done : picoControlStack config s socketFd ret = .ok (after, reply)) :
    after.books = s.books := by
  obtain ⟨clientId, _, done⟩ := bind_ok.mp done
  split at done
  · obtain ⟨rfl, _⟩ := pair_ok.mp done
    rfl
  · obtain ⟨_, _, done⟩ := bind_ok.mp done
    obtain ⟨rfl, _⟩ := pair_ok.mp done
    rfl

/-- Right after a control call has set the badge, `client_check` finds its client. -/
theorem clientCheck_control (valid : config.Valid) {client d : Nat}
    (small : client < config.numClients)
    (checked : clientCheck config
      { s with controlBadge := enumerateBadge config.controlBadges client } = .ok d) :
    d = client := by
  have own := (clientCheck_spec (s := { s with
    controlBadge := enumerateBadge config.controlBadges client }) valid).mpr ⟨small, rfl⟩
  exact Except.ok.inj (checked.symm.trans own)

theorem control_books (valid : config.Valid) (agree : Agree config s.books) {client : Nat}
    {call : Control} (ready : (Event.control client call).opener = some client → Ready s client)
    (allowed : s.permits config (.control client call))
    (fresh : FreshAddress s (.control client call))
    (done : controlHandleMessage config s client call = .ok (after, reply)) :
    BooksOutcome config s after (Event.control client call).opener reply := by
  rw [controlHandleMessage.eq_def] at done
  have check := fun d => clientCheck_control (s := s) (d := d) valid allowed.1
  generalize called : { s with controlBadge := enumerateBadge config.controlBadges client } = s'
    at done check
  have books : s'.books = s.books := by rw [← called]; rfl
  have records : s'.records = s.records := by rw [← called]
  have addresses : clientGetSocketByAddr s' = clientGetSocketByAddr s := by rw [← called]; rfl
  have ready' : (Event.control client call).opener = some client → Ready s' client := by
    intro opener
    have ready := ready opener
    rw [← called]
    exact ⟨ready.free, ready.positive, ready.small⟩
  apply BooksOutcome.congr books
  rw [← books] at agree
  cases call with
  | «open» =>
    exact picoControlOpen_books agree (ready' rfl) check (records ▸ allowed.2)
      (addresses ▸ fresh) done
  | accept =>
    exact picoControlAccept_books agree (ready' rfl) check (records ▸ allowed.2)
      (addresses ▸ fresh) done
  | close => exact picoControlClose_books done
  | setAsync => exact .of_same (picoControlSetAsync_books done)
  | eventPoll =>
    obtain ⟨clientId, _, done⟩ := bind_ok.mp done
    obtain ⟨⟨polled, event⟩, polling, done⟩ := bind_ok.mp done
    obtain ⟨rfl, rfl⟩ := pair_ok.mp done
    exact ⟨clientGetEvent_books (agree.events_zero clientId) polling, False.elim⟩
  | stack => exact .of_same (picoControlStack_books done)
  | getIpv4 device => cases device <;> (obtain ⟨rfl, _⟩ := pair_ok.mp done; exact .of_same rfl)

theorem reportEvent_books {clientSocket : Socket} {ev : UInt16} {memory : Bool}
    (done : reportEvent s clientSocket ev memory = .ok after) :
    BooksOutcome config s after none .none := by
  rw [reportEvent] at done
  split at done
  · obtain rfl := Except.ok.inj done
    exact .of_same rfl
  · obtain ⟨⟨put, ret⟩, putting, done⟩ := bind_ok.mp done
    obtain ⟨_, _, done⟩ := bind_ok.mp done
    obtain rfl := Except.ok.inj done
    exact ⟨(clientPutEvent_books putting).step, False.elim⟩

theorem socketCb_books {ev : UInt16} {socket : Ptr} {answers : List Answer} {memory : Bool}
    (done : socketCb config s ev socket answers memory = .ok after) :
    BooksOutcome config s after none .none := by
  rw [socketCb] at done
  split at done
  · split at done
    · obtain rfl := Except.ok.inj done
      exact .of_same rfl
    · cases done
  · obtain ⟨clientSocket, _, done⟩ := bind_ok.mp done
    split at done
    · obtain ⟨⟨served, ev'⟩, serving, done⟩ := bind_ok.mp done
      exact (reportEvent_books done).congr (SameBooks.of_steps (serveAsync_steps serving)).books
    · exact reportEvent_books done

theorem communicate_books {issuer : Nat} {call : StackCall}
    {socketFd len bufferOffset ret : Int32}
    (done : communicateHandleMessage config s issuer call socketFd len bufferOffset ret =
      .ok (after, reply)) : after.books = s.books ∧ after.emitClient = s.emitClient := by
  obtain ⟨stored, same, done⟩ : ∃ stored : Server,
      (stored.books = s.books ∧ stored.emitClient = s.emitClient) ∧
      communicate config (config.badges call) (config.bufSize call) call stored issuer socketFd len
        bufferOffset ret = .ok (after, reply) := by
    cases call with
    | write | send | sendto =>
      exact ⟨{ s with sendBadge := enumerateBadge config.sendBadges issuer }, ⟨rfl, rfl⟩, done⟩
    | read | recv | recvfrom =>
      exact ⟨{ s with recvBadge := enumerateBadge config.recvBadges issuer }, ⟨rfl, rfl⟩, done⟩
  obtain ⟨client, checked, done⟩ := bind_ok.mp done
  dsimp only at done
  split at done
  · obtain ⟨rfl, _⟩ := pair_ok.mp done
    exact same
  · obtain ⟨socket, _, done⟩ := bind_ok.mp done
    obtain ⟨rfl, _⟩ := pair_ok.mp done
    exact same

theorem notifyClient_books (s : Server) : (notifyClient s).books = s.books := by
  have control : (if s.emitClient then { s.note (.emitControl 1) with emitClient := false }
      else s).books = s.books := by
    split <;> rfl
  rw [notifyClient]
  dsimp only
  generalize (if s.emitClient then { s.note (.emitControl 1) with emitClient := false } else s) =
    middle at control ⊢
  split
  · exact control
  · exact control

/-- Neither a socket nor an event comes or goes. -/
def Event.quiet : Event → Bool
  | .control _ (.setAsync ..) | .control _ (.stack ..) | .control _ (.getIpv4 _) => true
  | .control .. | .callback .. | .putEvent .. => false
  | .communicate .. | .irq _ | .notify | .submit .. | .collect _ => true

theorem quiet_books {event : Event} (quiet : event.quiet = true)
    (done : s.step config event = .ok (after, reply)) : after.books = s.books := by
  cases event with
  | control client call =>
    have done : controlHandleMessage config s client call = .ok (after, reply) := done
    rw [controlHandleMessage.eq_def] at done
    generalize called : { s with controlBadge := enumerateBadge config.controlBadges client } = s'
      at done
    have same : s'.books = s.books := by rw [← called]; rfl
    rw [← same]
    cases call with
    | setAsync => exact picoControlSetAsync_books done
    | stack => exact picoControlStack_books done
    | getIpv4 device => cases device <;> (obtain ⟨rfl, _⟩ := pair_ok.mp done; rfl)
    | _ => cases quiet
  | communicate => exact (communicate_books done).1
  | irq =>
    obtain ⟨⟨_, _⟩, receiving, done⟩ := bind_ok.mp done
    obtain ⟨⟨_, _⟩, sending, done⟩ := bind_ok.mp done
    obtain ⟨rfl, _⟩ := pair_ok.mp done
    exact (SameBooks.of_steps ((queueHandle_steps receiving).trans
      (queueHandle_steps sending))).books
  | notify =>
    obtain ⟨rfl, _⟩ := pair_ok.mp done
    exact notifyClient_books s
  | submit =>
    obtain ⟨rfl, _⟩ := pair_ok.mp done
    exact (((SameBooks.refl s).setMsg _ _).setQueue _ _).books
  | collect =>
    obtain ⟨rfl, _⟩ := pair_ok.mp done
    exact ((SameBooks.refl s).setQueue _ _).books
  | callback | putEvent => cases quiet

theorem step_books (valid : config.Valid) {event : Event} (agree : Agree config s.books)
    (ready : ∀ c, event.opener = some c → Ready s c) (allowed : s.permits config event)
    (fresh : FreshAddress s event) (done : s.step config event = .ok (after, reply)) :
    BooksOutcome config s after event.opener reply := by
  cases event with
  | control client call =>
    exact control_books valid agree (fun opener => ready client opener) allowed fresh done
  | callback =>
    obtain ⟨_, called, done⟩ := bind_ok.mp done
    obtain ⟨rfl, rfl⟩ := pair_ok.mp done
    exact socketCb_books called
  | putEvent =>
    obtain ⟨⟨_, _⟩, putting, done⟩ := bind_ok.mp done
    obtain ⟨rfl, rfl⟩ := pair_ok.mp done
    exact clientPutEvent_books putting
  | communicate | irq | notify | submit | collect => exact .of_same (quiet_books rfl done)

end

/-- While the fds last, the bump index is free. -/
theorem BooksInvariant.ready {config : Config} {trace : List (Event × Reply)} {s : Server}
    (inv : BooksInvariant config trace s.books) {event : Event} {reply : Reply}
    (few : ∀ c, opens c (trace ++ [(event, reply)]) < 2 ^ 31 - 1) {c : Nat}
    (opener : event.opener = some c) : Ready s c := by
  have bound := inv.bump c
  have last := few c
  rw [opens_concat, if_pos opener] at last
  refine ⟨?_, inv.positive c, lt_of_le_of_lt bound (by omega)⟩
  by_contra held
  exact absurd (inv.below c (s.bump c) held) (Nat.lt_irrefl _)

section
variable {config : Config} {trace : List (Event × Reply)} {s after : Server} {event : Event}
  {reply : Reply} (inv : BooksInvariant config trace s.books) (agree : Agree config after.books)
include inv agree

/-- The steps that leave the bump indices alone and enter no socket. -/
theorem BooksInvariant.still (bump : after.books.bump = s.books.bump)
    (sockets : ∀ c fd, after.books.sockets c fd ≠ none → s.books.sockets c fd ≠ none) :
    BooksInvariant config (trace ++ [(event, reply)]) after.books where
  agree := agree
  positive := by
    rw [bump]
    exact inv.positive
  bump := by
    intro c
    rw [bump, opens_concat]
    have := inv.bump c
    omega
  below := by
    intro c fd held
    rw [bump]
    exact inv.below c fd (sockets c fd held)

/-- The steps that raise the bump index of one client. -/
theorem BooksInvariant.raised {c : Nat} (opener : event.opener = some c) (ready : Ready s c)
    (bump : after.books.bump = Function.update s.books.bump c (s.books.bump c + 1))
    (sockets : ∀ d fd, after.books.sockets d fd ≠ none →
      s.books.sockets d fd ≠ none ∨ d = c ∧ fd = s.books.bump c) :
    BooksInvariant config (trace ++ [(event, reply)]) after.books := by
  have small := ready.small
  -- below 2 ^ 31 the counter does not wrap
  have up : (s.books.bump c + 1).toNat = (s.books.bump c).toNat + 1 := by
    rw [UInt32.toNat_add]
    exact Nat.mod_eq_of_lt (by change (s.bump c).toNat + 1 < 2 ^ 32; omega)
  have value : ∀ d, (after.books.bump d).toNat =
      (s.books.bump d).toNat + if event.opener = some d then 1 else 0 := by
    intro d
    rw [bump, opener]
    by_cases here : d = c
    · subst here
      rw [Function.update_self, up, if_pos rfl]
    · rw [Function.update_of_ne here, if_neg fun same => here (Option.some.inj same).symm]
      rfl
  refine ⟨agree, fun d => ?_, fun d => ?_, fun d fd held => ?_⟩
  · rw [value]
    have := inv.positive d
    omega
  · rw [value, opens_concat]
    have := inv.bump d
    omega
  · rw [value]
    rcases sockets d fd held with before | ⟨rfl, rfl⟩
    · have := inv.below d fd before
      omega
    · rw [if_pos opener]
      omega

end

theorem BooksInvariant.next {config : Config} {trace : List (Event × Reply)} {s after : Server}
    {event : Event} {reply : Reply} (inv : BooksInvariant config trace s.books)
    (ready : ∀ c, event.opener = some c → Ready s c)
    (step : BooksStep config s.books after.books event.opener) :
    BooksInvariant config (trace ++ [(event, reply)]) after.books := by
  have agree := step.agree inv.agree (fun c opener => (ready c opener).free)
    fun c opener => (ready c opener).toInt32
  generalize opened : event.opener = opener at step
  cases step with
  | same entries bump =>
    exact inv.still agree bump fun c fd => by rw [entries.sockets]; exact id
  | @failed c entries bump =>
    exact inv.raised agree opened (ready c opened) bump
      fun d fd => by rw [entries.sockets]; exact .inl
  | @entered c _ _ _ _ _ _ _ bump sockets =>
    apply inv.raised agree opened (ready c opened) bump
    intro d fd held
    by_cases here : d = c ∧ fd = s.books.bump c
    · exact .inr here
    · left
      rw [sockets] at held
      by_cases same : d = c
      · subst same
        rwa [Function.update_self, Function.update_of_ne fun there => here ⟨rfl, there⟩] at held
      · rwa [Function.update_of_ne same] at held
  | @deleted c fd _ _ _ _ bump sockets =>
    apply inv.still agree bump
    intro d k held
    rw [sockets] at held
    by_cases same : d = c
    · subst same
      rw [Function.update_self] at held
      by_cases same' : k = fd
      · simp [same'] at held
      · rwa [Function.update_of_ne same'] at held
    · rwa [Function.update_of_ne same] at held
  | polled _ _ _ bump sockets =>
    exact inv.still agree bump fun c fd => by rw [sockets]; exact id
  | noted _ _ _ bump sockets =>
    exact inv.still agree bump fun c fd => by rw [sockets]; exact id

section
variable {config : Config} {msgs : Ptr → Msg} {trace : List (Event × Reply)} {final : Server}

theorem opens_early {early : List (Event × Reply)} (within : early <+: trace) (c : Nat) :
    opens c early ≤ opens c trace := by
  obtain ⟨rest, rfl⟩ := within
  simp [opens]

theorem run_books (valid : config.Valid) (run : (machine config).Run (.init msgs) trace final)
    (fresh : (machine config).EveryStep (.init msgs) trace FreshAddress)
    (few : ∀ c, opens c trace < 2 ^ 31 - 1) : BooksInvariant config trace final.books := by
  suffices all : (∀ c, opens c trace < 2 ^ 31 - 1) → BooksInvariant config trace final.books from
    all few
  clear few
  apply fresh.history run fun _ => .init config msgs
  intro trace s event after reply earlier allowed fresh step few
  have inv := earlier fun c =>
    lt_of_le_of_lt (opens_early (List.prefix_append trace _) c) (few c)
  have ready := fun c opener => inv.ready few (c := c) opener
  exact inv.next ready (step_books valid inv.agree ready allowed fresh (machine_step.mp step)).step

/-- Between any two calls the socket tables of the clients and the socket address table are inverse to
each other, and a call that returns an error leaves all tables as they were. -/
theorem socket_tables_agree (valid : config.Valid)
    (run : (machine config).Run (.init msgs) trace final)
    (fresh : (machine config).EveryStep (.init msgs) trace FreshAddress)
    (few : ∀ c, opens c trace < 2 ^ 31 - 1) :
    (machine config).Always (.init msgs) trace (fun s => Agree config s.books) ∧
      (machine config).EveryStep (.init msgs) trace fun s event => ∀ after reply,
        s.step config event = .ok (after, reply) → reply.failed →
          SameEntries s.books after.books := by
  have inv : ∀ early, early <+: trace → ∀ s, (machine config).Run (.init msgs) early s →
      BooksInvariant config early s.books := fun early within s reached =>
    run_books valid reached (fresh.early within) fun c =>
      lt_of_le_of_lt (opens_early within c) (few c)
  constructor
  · intro early within s reached
    exact (inv early within s reached).agree
  · intro early event result within s reached after reply step failed
    obtain ⟨rest, whole⟩ := within
    rw [← whole] at run
    obtain ⟨_, begun, _⟩ := run.split
    obtain ⟨before, earlier, allowed, _⟩ := begun.snoc_inv
    obtain rfl := reached.deterministic earlier
    have within : early ++ [(event, result)] <+: trace := ⟨rest, whole⟩
    have inv := inv early ((List.prefix_append _ _).trans within) s reached
    have few' : ∀ c, opens c (early ++ [(event, result)]) < 2 ^ 31 - 1 := fun c =>
      lt_of_le_of_lt (opens_early within c) (few c)
    have ready : ∀ c, event.opener = some c → Ready s c := fun c opener => inv.ready few' opener
    exact (step_books valid inv.agree ready allowed (fresh early event result within s reached)
      step).error failed

def openAndClose : List Event :=
  [.control 0 (.open false (some 0x1000) 0x2000 (true, true)),
    .control 1 (.open true (some 0x1300) 0x2300 (false, true)),
    .control 0 (.accept 1 0x2200 0 0 (some 0x1200) (true, true)),
    .control 1 (.open true (some 0x1100) 0x2300 (true, true)),
    .putEvent 0 1 4 true, .control 0 .eventPoll, .putEvent 0 2 1 true, .control 0 (.close 2)]

theorem opens_le_length (c : Nat) (trace : List (Event × Reply)) : opens c trace ≤ trace.length :=
  (List.count_le_length).trans (List.length_filterMap_le _ _)

theorem openAndClose_run :
    ∃ trace final, (machine twoClients).Run (.init fun _ => blankMsg) trace final ∧
      (machine twoClients).EveryStep (.init fun _ => blankMsg) trace FreshAddress ∧
      trace.map Prod.fst = openAndClose := by
  have evaluated : ((machine twoClients).exec
      (fun s event => decide (s.permits twoClients event) && decide (FreshAddress s event)) []
      (.init fun _ => blankMsg) openAndClose).isSome = true := by
    decide +kernel
  obtain ⟨⟨trace, final⟩, done⟩ := Option.isSome_iff_exists.mp evaluated
  obtain ⟨run, fresh, events⟩ := Machine.exec_run (fun s event checked => by
    rw [Bool.and_eq_true, decide_eq_true_eq, decide_eq_true_eq] at checked
    exact checked) .start .start done
  exact ⟨trace, final, run, fresh, events⟩

theorem socket_tables_agree_openAndClose :
    ∃ trace final, (machine twoClients).Run (.init fun _ => blankMsg) trace final ∧
      trace.map Prod.fst = openAndClose ∧
      (machine twoClients).Always (.init fun _ => blankMsg) trace
        (fun s => Agree twoClients s.books) ∧
      (machine twoClients).EveryStep (.init fun _ => blankMsg) trace fun s event =>
        ∀ after reply, s.step twoClients event = .ok (after, reply) → reply.failed →
          SameEntries s.books after.books := by
  obtain ⟨trace, final, run, fresh, events⟩ := openAndClose_run
  have short : trace.length = 8 := by
    rw [← List.length_map (f := Prod.fst), events]
    rfl
  refine ⟨trace, final, run, events,
    socket_tables_agree ⟨rfl, by decide, by decide⟩ run fresh fun c => ?_⟩
  exact lt_of_le_of_lt (opens_le_length c trace) (by rw [short]; decide)

end

end GlobalComponents.PicoServer
