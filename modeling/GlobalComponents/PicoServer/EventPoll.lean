import GlobalComponents.PicoServer.Signals
import Mathlib.Data.Finmap

/-! The events of the sockets, from the stack to the client.

A ledger holds the bits that have been put on each socket since it was last reported. The server keeps
them as a mask in the socket's record and its fd in the event set of the client; the two agree with
the ledger as long as `kh_put` finds room for each new fd.
-/

set_option autoImplicit false

namespace GlobalComponents.PicoServer

open Library

/-- The sockets of a client that have events, with their bits. -/
abbrev Owed := Finmap fun _ : Int32 => UInt16

def Owed.put (owed : Owed) (fd : Int32) (bits : UInt16) : Owed :=
  owed.insert fd ((owed.lookup fd).getD 0 ||| bits)

/-- The event that is put on an open socket: its client, its fd and its bits. -/
def puts (s : Server) : Event → Option (Nat × Int32 × UInt16)
  | .putEvent c fd ev _ => if s.sockets c fd.toUInt32 ≠ none then some (c, fd, ev) else none
  | event => recordedEvent s event

/-- Events that are put accumulate until they are reported or their socket is closed. -/
def noteEvent (s : Server) (event : Event) (reply : Reply) (owed : Nat → Owed) : Nat → Owed :=
  match puts s event with
  | some (c, fd, bits) => Function.update owed c ((owed c).put fd bits)
  | none =>
    match event, reply with
    | .control c .eventPoll, .event event =>
      Function.update owed c ((owed c).erase event.socketFd)
    | .control c (.close fd), .int ret =>
      if ret = 0 then Function.update owed c ((owed c).erase fd) else owed
    | _, _ => owed

def reporting (config : Config) : Machine (Server × (Nat → Owed)) Event Reply :=
  (machine config).record noteEvent

/-- What the next poll of the client returns: nothing if no socket has events, and else an open socket
with all its bits and the number of the other sockets. -/
def ReportsNext (config : Config) (s : Server) (owed : Owed) (c : Nat) : Prop :=
  ∃ after event, s.step config (.control c .eventPoll) = .ok (after, .event event) ∧
    if event.socketFd = 0 then owed.keys = ∅
    else owed.lookup event.socketFd = some event.events ∧ event.events ≠ 0 ∧
      clientGetSocket s c event.socketFd ≠ none ∧
      event.numEventsLeft = (owed.keys.erase event.socketFd).card

def polls (config : Config) (c : Nat) : Nat → Server → Except Fault (Server × List SocketEvent)
  | 0, s => .ok (s, [])
  | n + 1, s => do
    let (s, reply) ← s.step config (.control c .eventPoll)
    let (s, events) ← polls config c n s
    return (s, (match reply with | .event event => [event] | _ => []) ++ events)

/-- As many polls as there are sockets with events return each of them once, and the next one returns
nothing. -/
def ReportsAll (config : Config) (s : Server) (owed : Owed) (c : Nat) : Prop :=
  ∃ after events, polls config c owed.keys.card s = .ok (after, events) ∧
    (events.map SocketEvent.socketFd).Nodup ∧
    (∀ fd, fd ∈ events.map SocketEvent.socketFd ↔ fd ∈ owed) ∧
    (∀ event ∈ events, owed.lookup event.socketFd = some event.events) ∧
    ∃ last, after.step config (.control c .eventPoll) = .ok (last, .event .none)

def Reports (config : Config) (s : Server × (Nat → Owed)) : Prop :=
  ∀ c < config.numClients, ReportsNext config s.1 (s.2 c) c ∧ ReportsAll config s.1 (s.2 c) c

def Event.memory : Event → Bool
  | .callback _ _ _ memory | .putEvent _ _ _ memory => memory
  | _ => true

/-- If a socket without events gets one, `kh_put` has or finds the memory for it, and the event set is
not one of `2 ^ 27` or more buckets all of which are taken. -/
def Inserts (s : Server) (event : Event) : Prop :=
  ∀ c fd bits, puts s event = some (c, fd, bits) → s.events c fd.toUInt32 = none →
    ¬(s.clients c).socketEventSet.Refuses event.memory ∧ ¬(s.clients c).socketEventSet.Crowded

def Event.Masked : Event → Prop
  | .putEvent _ _ ev _ => ev ≠ 0
  | _ => True

structure Owes (s : Books) (owed : Nat → Owed) : Prop where
  set : ∀ c fd, s.events c fd ≠ none ↔ fd.toInt32 ∈ owed c
  bits : ∀ c fd p socket, s.sockets c fd = some p → s.records p = some socket →
    socket.events = ((owed c).lookup fd.toInt32).getD 0
  nonzero : ∀ c fd bits, (owed c).lookup fd = some bits → bits ≠ 0

section
variable {config : Config} {s after : Books} {owed : Nat → Owed}

theorem Owes.same (owes : Owes s owed) (entries : SameEntries s after)
    (records : after.records = s.records) : Owes after owed where
  set c fd := by
    rw [entries.events]
    exact owes.set c fd
  bits c fd p socket := by
    rw [entries.sockets, records]
    exact owes.bits c fd p socket
  nonzero := owes.nonzero

theorem Owes.open (owes : Owes s owed) (agree : Agree config s) {c : Nat} {fd : UInt32}
    (some : fd.toInt32 ∈ owed c) : s.sockets c fd ≠ none :=
  agree.events c fd ((owes.set c fd).mpr some)

theorem Owes.enter (owes : Owes s owed) (agree : Agree config s) {c : Nat} {fd : UInt32}
    {record : Ptr} {new : Socket} (free : s.sockets c fd = none) (dead : s.records record = none)
    (quiet : new.events = 0)
    (sockets : after.sockets =
      Function.update s.sockets c (Function.update (s.sockets c) fd (some record)))
    (events : after.events = s.events)
    (records : after.records = Function.update s.records record (some new)) : Owes after owed where
  set d k := by
    rw [events]
    exact owes.set d k
  bits d k p socket held live := by
    rw [sockets, entry_update] at held
    rw [records] at live
    split at held
    · next here =>
      obtain ⟨rfl, rfl⟩ := here
      cases held
      rw [Function.update_self] at live
      cases live
      have none : (owed d).lookup k.toInt32 = none :=
        Finmap.lookup_eq_none.mpr fun some => owes.open agree some free
      rw [none, quiet]
      rfl
    · have other : p ≠ record := by
        rintro rfl
        obtain ⟨_, old, alive, _⟩ := agree.sockets d k p held
        rw [dead] at alive
        cases alive
      rw [Function.update_of_ne other] at live
      exact owes.bits d k p socket held live
  nonzero := owes.nonzero

theorem mem_update_erase {owed : Nat → Owed} {c d : Nat} {fd k : Int32} :
    k ∈ Function.update owed c ((owed c).erase fd) d ↔ k ∈ owed d ∧ ¬(d = c ∧ k = fd) := by
  by_cases client : d = c
  · subst client
    rw [Function.update_self, Finmap.mem_erase]
    exact ⟨fun ⟨other, member⟩ => ⟨member, fun here => other here.2⟩,
      fun ⟨member, other⟩ => ⟨fun here => other ⟨rfl, here⟩, member⟩⟩
  · rw [Function.update_of_ne client]
    exact ⟨fun some => ⟨some, fun here => client here.1⟩, And.left⟩

theorem lookup_update_erase {owed : Nat → Owed} {c d : Nat} {fd k : Int32} :
    (Function.update owed c ((owed c).erase fd) d).lookup k =
      if d = c ∧ k = fd then none else (owed d).lookup k := by
  by_cases client : d = c
  · subst client
    rw [Function.update_self]
    by_cases here : k = fd
    · rw [if_pos ⟨rfl, here⟩, here, Finmap.lookup_erase]
    · rw [if_neg fun same => here same.2, Finmap.lookup_erase_ne here]
  · rw [Function.update_of_ne client, if_neg fun same => client same.1]

theorem toInt32_inj {left right : UInt32} : left.toInt32 = right.toInt32 ↔ left = right :=
  ⟨fun same => by
    have back := congrArg Int32.toUInt32 same
    rwa [UInt32.toUInt32_toInt32, UInt32.toUInt32_toInt32] at back, fun same => by rw [same]⟩

theorem Owes.take (owes : Owes s owed) {c : Nat} {fd : UInt32}
    (events : after.events = Function.update s.events c (Function.update (s.events c) fd none))
    (bits : ∀ d k p socket, after.sockets d k = some p → after.records p = some socket →
      if d = c ∧ k = fd then socket.events = 0
      else s.sockets d k = some p ∧ s.records p = some socket) :
    Owes after (Function.update owed c ((owed c).erase fd.toInt32)) where
  set d k := by
    rw [events, entry_update, mem_update_erase, toInt32_inj, ← owes.set]
    split
    · next here => exact iff_of_false (fun some => some rfl) fun both => both.2 here
    · next other => exact ⟨fun some => ⟨some, other⟩, And.left⟩
  bits d k p socket held live := by
    have kept := bits d k p socket held live
    simp only [lookup_update_erase, toInt32_inj]
    split at kept
    · next here =>
      rw [if_pos here, kept]
      rfl
    · next other =>
      rw [if_neg other]
      exact owes.bits d k p socket kept.1 kept.2
  nonzero d k bits found := by
    rw [lookup_update_erase] at found
    split at found
    · cases found
    · exact owes.nonzero d k bits found

theorem Owes.delete (owes : Owes s owed) (agree : Agree config s) {c : Nat} {fd : UInt32}
    {record : Ptr} (held : s.sockets c fd = some record)
    (sockets : after.sockets = Function.update s.sockets c (Function.update (s.sockets c) fd none))
    (events : after.events = Function.update s.events c (Function.update (s.events c) fd none))
    (records : after.records = Function.update s.records record none) :
    Owes after (Function.update owed c ((owed c).erase fd.toInt32)) := by
  apply owes.take events
  intro d k p socket held' live
  rw [sockets, entry_update] at held'
  rw [records] at live
  split at held'
  · cases held'
  · next other =>
    rw [if_neg other]
    have different : p ≠ record := by
      rintro rfl
      exact other (agree.tied.place held' held)
    rw [Function.update_of_ne different] at live
    exact ⟨held', live⟩

theorem Owes.poll (owes : Owes s owed) (agree : Agree config s) {c : Nat} {fd : UInt32}
    {record : Ptr} {new : Socket} (held : s.sockets c fd = some record) (quiet : new.events = 0)
    (sockets : after.sockets = s.sockets)
    (events : after.events = Function.update s.events c (Function.update (s.events c) fd none))
    (records : after.records = Function.update s.records record (some new)) :
    Owes after (Function.update owed c ((owed c).erase fd.toInt32)) := by
  apply owes.take events
  intro d k p other held' live
  rw [sockets] at held'
  rw [records] at live
  split
  · next here =>
    obtain ⟨rfl, rfl⟩ := here
    obtain rfl := Option.some.inj (held.symm.trans held')
    rw [Function.update_self] at live
    cases live
    exact quiet
  · next elsewhere =>
    have different : p ≠ record := by
      rintro rfl
      exact elsewhere (agree.tied.place held' held)
    rw [Function.update_of_ne different] at live
    exact ⟨held', live⟩

theorem lookup_update_put {owed : Nat → Owed} {c d : Nat} {fd k : Int32} {bits : UInt16} :
    (Function.update owed c ((owed c).put fd bits) d).lookup k =
      if d = c ∧ k = fd then some (((owed c).lookup fd).getD 0 ||| bits)
      else (owed d).lookup k := by
  by_cases client : d = c
  · subst client
    rw [Function.update_self, Owed.put]
    by_cases here : k = fd
    · rw [if_pos ⟨rfl, here⟩, here, Finmap.lookup_insert]
    · rw [if_neg fun same => here same.2, Finmap.lookup_insert_of_ne _ here]
  · rw [Function.update_of_ne client, if_neg fun same => client same.1]

theorem or_ne_zero {left right : UInt16} (nonzero : right ≠ 0) : left ||| right ≠ 0 := by
  intro zero
  apply nonzero
  have none := congrArg UInt16.toBitVec zero
  exact UInt16.toBitVec_inj.mp (BitVec.or_eq_zero_iff.mp none).2

theorem Owes.put (owes : Owes s owed) (agree : Agree config s) {c : Nat} {fd : UInt32}
    {record : Ptr} {socket : Socket} {bits : UInt16} (nonzero : bits ≠ 0)
    (held : s.sockets c fd = some record) (live : s.records record = some socket)
    (sockets : after.sockets = s.sockets)
    (events : after.events =
      Function.update s.events c (Function.update (s.events c) fd (some ())))
    (records : after.records =
      Function.update s.records record (some { socket with events := socket.events ||| bits })) :
    Owes after (Function.update owed c ((owed c).put fd.toInt32 bits)) where
  set d k := by
    rw [events, entry_update, ← Finmap.lookup_isSome]
    simp only [lookup_update_put, toInt32_inj]
    split
    · next here => exact iff_of_true (Option.some_ne_none _) rfl
    · next other =>
      rw [Finmap.lookup_isSome]
      exact owes.set d k
  bits d k p other held' live' := by
    rw [sockets] at held'
    rw [records] at live'
    simp only [lookup_update_put, toInt32_inj]
    split
    · next here =>
      obtain ⟨rfl, rfl⟩ := here
      obtain rfl := Option.some.inj (held.symm.trans held')
      rw [Function.update_self] at live'
      cases live'
      rw [Option.getD_some, ← owes.bits d k record socket held live]
    · next elsewhere =>
      have different : p ≠ record := by
        rintro rfl
        exact elsewhere (agree.tied.place held' held)
      rw [Function.update_of_ne different] at live'
      exact owes.bits d k p other held' live'
  nonzero d k bits' found := by
    rw [lookup_update_put] at found
    split at found
    · cases found
      exact or_ne_zero nonzero
    · exact owes.nonzero d k bits' found

end

/-! ## Steps -/

section
variable {config : Config} {s after : Server} {event : Event} {reply : Reply} {owed : Nat → Owed}

/-- An event is put on an open socket: its mask takes the bits, and its fd goes into the event set if
`kh_put` has room for it. -/
structure PutOn (s after : Server) (c : Nat) (fd : UInt32) (bits : UInt16) (memory : Bool) :
    Prop where
  sockets : after.sockets = s.sockets
  record : ∃ record socket, s.sockets c fd = some record ∧ s.books.records record = some socket ∧
    after.books.records = Function.update s.books.records record
      (some { socket with events := socket.events ||| bits })
  marked : ∃ ret, Marked s after c fd memory ret

theorem clientPutEvent_putOn {c : Nat} {fd ret : Int32} {ev : UInt16} {memory : Bool}
    (open' : s.sockets c fd.toUInt32 ≠ none)
    (done : clientPutEvent s c fd ev memory = .ok (after, ret)) :
    PutOn s after c fd.toUInt32 ev memory := by
  rcases clientPutEvent_spec done with
    ⟨_, _, missing⟩ | ⟨record, socket, held, live, sockets, _, _, records, marked⟩
  · exact absurd missing open'
  · refine ⟨sockets, ⟨record, socket.plain, held, ?_, books_records records⟩, ret, marked⟩
    simp [Server.books, live]

theorem PutOn.congr {middle : Server} {c : Nat} {fd : UInt32} {bits : UInt16} {memory : Bool}
    (same : SameBooks s middle) (put : PutOn middle after c fd bits memory) :
    PutOn s after c fd bits memory := by
  have books := same.books
  have sockets : middle.sockets = s.sockets := congrArg Books.sockets books
  have events : middle.events = s.events := congrArg Books.events books
  refine ⟨put.sockets.trans sockets, ?_, ?_⟩
  · rw [← sockets, ← books]
    exact put.record
  · obtain ⟨ret, marked⟩ := put.marked
    refine ⟨ret, ?_⟩
    cases marked with
    | refused refuses kept => exact .refused (same.clients ▸ refuses) (kept.trans events)
    | lost absent crowded kept =>
      exact .lost (events ▸ absent) (same.clients ▸ crowded) (kept.trans events)
    | entered room entered => exact .entered (events ▸ same.clients ▸ room) (events ▸ entered)

theorem puts_putOn (agree : Agree config s.books) {c : Nat} {fd : Int32} {bits : UInt16}
    (put : puts s event = some (c, fd, bits)) (done : s.step config event = .ok (after, reply)) :
    PutOn s after c fd.toUInt32 bits event.memory := by
  cases event with
  | putEvent client socketFd ev memory =>
    rw [puts] at put
    split at put
    · next open' =>
      cases put
      obtain ⟨⟨_, ret⟩, putting, done⟩ := bind_ok.mp done
      obtain ⟨rfl, _⟩ := pair_ok.mp done
      exact clientPutEvent_putOn open' putting
    · cases put
  | callback ev socket answers memory =>
    have put : recordedEvent s (.callback ev socket answers memory) = some (c, fd, bits) := put
    obtain ⟨_, called, done⟩ := bind_ok.mp done
    obtain ⟨rfl, _⟩ := pair_ok.mp done
    obtain ⟨middle, same, outcome⟩ := socketCb_spec called
    rw [put] at outcome
    obtain ⟨stored, ret, storing, _, rfl⟩ := outcome
    have open' : s.sockets c fd.toUInt32 ≠ none := by
      rw [recordedEvent] at put
      cases found : clientGetSocketByAddr s socket with
      | none =>
        rw [found] at put
        cases put
      | some record =>
        obtain ⟨plain, alive, _, held⟩ := agree.address socket record found
        obtain ⟨clientSocket, live, rfl⟩ := Option.map_eq_some_iff.mp alive
        simp only [found, Option.bind_some, live] at put
        rw [putting] at put
        split at put
        · cases put
        · cases put
          exact fun missing => Option.some_ne_none _ (held.symm.trans missing)
    have sockets : middle.sockets = s.sockets := congrArg Books.sockets same.books
    have put := (clientPutEvent_putOn (sockets ▸ open') storing).congr same
    exact ⟨put.sockets, put.record, put.marked.imp fun _ marked => by
      cases marked with
      | refused refuses kept => exact .refused refuses kept
      | lost absent crowded kept => exact .lost absent crowded kept
      | entered room entered => exact .entered room entered⟩
  | _ => cases put

theorem noteEvent_quiet (quiet : event.quiet = true) :
    noteEvent s event reply owed = owed := by
  cases event with
  | control client call =>
    cases call with
    | setAsync | stack | getIpv4 => rfl
    | _ => cases quiet
  | communicate | irq | notify | submit | collect => rfl
  | callback | putEvent => cases quiet

theorem noteEvent_puts {c : Nat} {fd : Int32} {bits : UInt16}
    (put : puts s event = some (c, fd, bits)) :
    noteEvent s event reply owed = Function.update owed c ((owed c).put fd bits) := by
  unfold noteEvent
  rw [put]

theorem puts_nonzero (masked : event.Masked) {c : Nat} {fd : Int32} {bits : UInt16}
    (put : puts s event = some (c, fd, bits)) : bits ≠ 0 := by
  cases event with
  | putEvent =>
    rw [puts] at put
    split at put
    · cases put
      exact masked
    · cases put
  | callback ev socket answers memory =>
    have put : recordedEvent s (.callback ev socket answers memory) = some (c, fd, bits) := put
    rw [recordedEvent] at put
    split at put
    · rw [putting] at put
      split at put
      · cases put
      · next some =>
        cases put
        exact some
    · cases put
  | _ => cases put

def fdOf : UInt32 ≃ Int32 :=
  ⟨UInt32.toInt32, Int32.toUInt32, UInt32.toUInt32_toInt32, Int32.toInt32_toUInt32⟩

theorem set_size {c : Nat} {owed : Owed}
    (set : ∀ fd, s.events c fd ≠ none ↔ fd.toInt32 ∈ owed) :
    (s.clients c).socketEventSet.size = owed.keys.card :=
  Table.size_eq_card _ fdOf _ fun fd => (set fd).trans Finmap.mem_keys.symm

/-- The entry of the event set stands for an open socket. -/
theorem clientGetEvent_ok (agree : Agree config s.books) (c : Nat) :
    ∃ after event, clientGetEvent s c = .ok (after, event) := by
  rw [clientGetEvent]
  split
  · exact ⟨_, _, rfl⟩
  · next found =>
    obtain ⟨bucket, live⟩ := Table.first_spec found
    generalize (s.clients c).socketEventSet.first = iter at bucket live
    have present := Table.lookup_of_exist bucket live
    generalize (s.clients c).socketEventSet.key iter = fd at present
    dsimp only
    split
    · exact ⟨_, _, rfl⟩
    · have event : s.books.events c fd ≠ none := fun none =>
        Option.some_ne_none _ (present.symm.trans none)
      obtain ⟨p, held⟩ := Option.ne_none_iff_exists'.mp (agree.events c fd event)
      obtain ⟨_, plain, alive, _⟩ := agree.sockets c fd p held
      obtain ⟨socket, live, _⟩ := Option.map_eq_some_iff.mp alive
      have found : clientGetSocket
          (s.setSocketEventSet c ((s.clients c).socketEventSet.del iter)) c fd.toInt32 = some p := by
        rw [clientGetSocket, UInt32.toUInt32_toInt32]
        have same : (s.setSocketEventSet c ((s.clients c).socketEventSet.del iter)).sockets c fd =
            some p := by
          rw [Server.sockets_setSocketEventSet]
          exact held
        exact same
      rw [found]
      have deref : (s.setSocketEventSet c ((s.clients c).socketEventSet.del iter)).deref p =
          .ok socket := Server.deref_ok.mpr live
      dsimp only
      rw [deref]
      exact ⟨_, _, rfl⟩

theorem Owed.erase_of_notMem {owed : Owed} {fd : Int32} (missing : fd ∉ owed) :
    owed.erase fd = owed := by
  apply Finmap.ext_lookup
  intro k
  by_cases here : k = fd
  · rw [here, Finmap.lookup_erase, Finmap.lookup_eq_none.mpr missing]
  · exact Finmap.lookup_erase_ne here

theorem Owed.keys_put (owed : Owed) (fd : Int32) (bits : UInt16) :
    (owed.put fd bits).keys = insert fd owed.keys := by
  ext k
  rw [Owed.put, Finmap.mem_keys, Finmap.mem_insert, Finset.mem_insert, Finmap.mem_keys]

structure Polled (config : Config) (s after : Server) (owed : Nat → Owed) (c : Nat)
    (event : SocketEvent) : Prop where
  step : s.step config (.control c .eventPoll) = .ok (after, .event event)
  agree : Agree config after.books
  owes : Owes after.books (Function.update owed c ((owed c).erase event.socketFd))
  event : event = .none ∧ (owed c).keys = ∅ ∨
    event.socketFd ≠ 0 ∧ (owed c).lookup event.socketFd = some event.events ∧
      clientGetSocket s c event.socketFd ≠ none ∧
      event.numEventsLeft = ((owed c).keys.erase event.socketFd).card

theorem poll_polled (valid : config.Valid) (agree : Agree config s.books)
    (owes : Owes s.books owed) {c : Nat} (client : c < config.numClients) :
    ∃ after event, Polled config s after owed c event := by
  generalize called : { s with controlBadge := enumerateBadge config.controlBadges c } = s'
  have books : s'.books = s.books := by rw [← called]; rfl
  have check : clientCheck config s' = .ok c :=
    (clientCheck_spec valid).mpr ⟨client, by rw [← called]⟩
  rw [← books] at agree owes
  obtain ⟨after, event, got⟩ := clientGetEvent_ok agree c
  have step : s.step config (.control c .eventPoll) = .ok (after, .event event) := by
    have same : s.step config (.control c .eventPoll) = picoControlEventPoll config s' := by
      rw [← called]
      rfl
    rw [same, picoControlEventPoll, check]
    simp only [bind, Except.bind, got]
    rfl
  have agree' : Agree config after.books :=
    (clientGetEvent_books (agree.events_zero _) got).agree agree nofun nofun
  have sockets' : s'.sockets = s.sockets := congrArg Books.sockets books
  -- the set is empty, or its first fd is taken with all bits of its socket
  rcases clientGetEvent_spec got with
    ⟨rfl, rfl, empty⟩ | ⟨fd, pending, sockets, address, bump, events, rest⟩
  · have none : ∀ fd, fd ∉ owed c := by
      intro fd some
      exact (owes.set c fd.toUInt32).mpr (by rwa [Int32.toInt32_toUInt32]) (empty _)
    have same : Function.update owed c ((owed c).erase SocketEvent.none.socketFd) = owed := by
      rw [Owed.erase_of_notMem (none _), Function.update_eq_self]
    refine ⟨after, .none, step, agree', same.symm ▸ owes, .inl ⟨rfl, ?_⟩⟩
    exact Finset.eq_empty_of_forall_notMem fun fd some => none fd (Finmap.mem_keys.mp some)
  · obtain ⟨p, held⟩ := Option.ne_none_iff_exists'.mp (agree.events c fd pending)
    obtain ⟨_, plain, alive, _, number, positive, _⟩ := agree.sockets c fd p held
    rcases rest with ⟨rfl, _⟩ | ⟨record, socket, held', live, records, rfl⟩
    · rw [number] at positive
      exact absurd positive (by decide)
    · obtain rfl := Option.some.inj (held.symm.trans held')
      have live' : s'.books.records p = some socket.plain := by simp [Server.books, live]
      have owes' : Owes after.books
          (Function.update owed c ((owed c).erase fd.toInt32)) :=
        owes.poll agree held rfl sockets events (books_records records)
      obtain ⟨bits, found⟩ := Finmap.mem_iff.mp ((owes.set c fd).mp pending)
      have same : socket.events = bits := by
        have mask := owes.bits c fd p socket.plain held live'
        rwa [found] at mask
      refine ⟨after, _, step, agree', owes', .inr ⟨?_, found.trans (congrArg _ same.symm), ?_, ?_⟩⟩
      · intro zero
        have zero : fd.toInt32 = 0 := zero
        rw [number, zero] at positive
        exact absurd positive (by decide)
      · change s.sockets c fd.toInt32.toUInt32 ≠ none
        rw [UInt32.toUInt32_toInt32, ← sockets']
        exact agree.events c fd pending
      · change (after.clients c).socketEventSet.size = _
        rw [set_size (owes'.set c), Function.update_self, Finmap.keys_erase]

/-- A socket that is closed loses its events, in the books as in the ledger. -/
theorem close_owes (valid : config.Valid) (agree : Agree config s.books)
    (owes : Owes s.books owed) {c : Nat} {fd : Int32} (client : c < config.numClients)
    (done : s.step config (.control c (.close fd)) = .ok (after, reply)) :
    Owes after.books (noteEvent s (.control c (.close fd)) reply owed) := by
  have done : picoControlClose config { s with
    controlBadge := enumerateBadge config.controlBadges c } fd = .ok (after, reply) := done
  obtain ⟨clientId, checked, done⟩ := bind_ok.mp done
  obtain rfl := clientCheck_control valid client checked
  split at done
  · obtain ⟨rfl, rfl⟩ := pair_ok.mp done
    exact owes
  · obtain ⟨cleaned, cleaning, done⟩ := bind_ok.mp done
    obtain ⟨⟨deleted, ret⟩, deleting, done⟩ := bind_ok.mp done
    obtain ⟨rfl, rfl⟩ := pair_ok.mp done
    have books : cleaned.books = s.books := (SameBooks.cleanup cleaning).books
    rw [← books] at agree owes
    rcases clientDeleteSocket_spec deleting with
      ⟨rfl, rfl, _⟩ | ⟨rfl, record, socket, held, live, sockets, address, events, records, bump⟩
    · exact owes
    · have gone : Owes deleted.books
          (Function.update owed clientId ((owed clientId).erase fd.toUInt32.toInt32)) :=
        owes.delete agree held sockets events (books_records records)
      rwa [Int32.toInt32_toUInt32] at gone

theorem open_owes (agree : Agree config s.books) (owes : Owes s.books owed) {c : Nat}
    (free : s.sockets c (s.bump c) = none)
    (step : BooksStep config s.books after.books (some c)) : Owes after.books owed := by
  cases step with
  | same entries _ records => exact owes.same entries records
  | failed entries _ records => exact owes.same entries records
  | entered _ _ dead _ _ _ sockets _ events records =>
    exact owes.enter agree free dead rfl sockets events records

theorem put_owes (agree : Agree config s.books) (owes : Owes s.books owed)
    (masked : event.Masked) (inserts : Inserts s event) {c : Nat} {fd : Int32} {bits : UInt16}
    (put : puts s event = some (c, fd, bits)) (done : s.step config event = .ok (after, reply)) :
    Owes after.books (noteEvent s event reply owed) := by
  obtain ⟨sockets, ⟨record, socket, held, live, records⟩, ret, marked⟩ :=
    puts_putOn agree put done
  have set : after.events = Function.update s.events c
      (Function.update (s.events c) fd.toUInt32 (some ())) := by
    have present : s.events c fd.toUInt32 ≠ none → after.events = s.events →
        after.events = Function.update s.events c
          (Function.update (s.events c) fd.toUInt32 (some ())) := by
      intro some same
      obtain ⟨_, here⟩ := Option.ne_none_iff_exists'.mp some
      rw [same, ← here, Function.update_eq_self fd.toUInt32, Function.update_eq_self]
    cases marked with
    | refused refuses same =>
      exact present (fun absent => (inserts c fd bits put absent).1 refuses) same
    | lost absent crowded same => exact absurd crowded (inserts c fd bits put absent).2
    | entered _ entered => exact entered
  have noted : Owes after.books
      (Function.update owed c ((owed c).put fd.toUInt32.toInt32 bits)) :=
    owes.put agree (puts_nonzero masked put) held live sockets set records
  rw [noteEvent_puts put]
  rwa [Int32.toInt32_toUInt32] at noted

theorem idle_books (other : ∀ client call, event ≠ .control client call)
    (idle : puts s event = none) (done : s.step config event = .ok (after, reply)) :
    after.books = s.books ∧ noteEvent s event reply owed = owed := by
  cases event with
  | control client call => exact absurd rfl (other client call)
  | communicate | irq | notify | submit | collect =>
    exact ⟨quiet_books rfl done, noteEvent_quiet rfl⟩
  | putEvent c fd ev memory =>
    refine ⟨?_, by unfold noteEvent; rw [idle]⟩
    have missing : s.sockets c fd.toUInt32 = none := by
      by_contra some
      rw [puts, if_pos some] at idle
      cases idle
    obtain ⟨⟨_, ret⟩, putting, done⟩ := bind_ok.mp done
    obtain ⟨rfl, _⟩ := pair_ok.mp done
    rcases clientPutEvent_spec putting with ⟨_, rfl, _⟩ | ⟨record, _, held, _⟩
    · rfl
    · rw [missing] at held
      cases held
  | callback ev socket answers memory =>
    refine ⟨?_, by unfold noteEvent; rw [idle]⟩
    have idle : recordedEvent s (.callback ev socket answers memory) = none := idle
    obtain ⟨_, called, done⟩ := bind_ok.mp done
    obtain ⟨rfl, _⟩ := pair_ok.mp done
    obtain ⟨middle, same, outcome⟩ := socketCb_spec called
    rw [idle] at outcome
    rw [outcome]
    exact same.books

/-- The books keep up with the ledger as long as every event that is put finds room. -/
theorem step_owes (valid : config.Valid) (agree : Agree config s.books)
    (owes : Owes s.books owed) (ready : ∀ c, event.opener = some c → Ready s c)
    (allowed : s.permits config event) (fresh : FreshAddress s event) (masked : event.Masked)
    (inserts : Inserts s event) (done : s.step config event = .ok (after, reply)) :
    Owes after.books (noteEvent s event reply owed) := by
  have step := (step_books valid agree ready allowed fresh done).step
  cases put : puts s event with
  | some entry => exact put_owes agree owes masked inserts put done
  | none =>
    have idle : (∀ client call, event ≠ .control client call) →
        Owes after.books (noteEvent s event reply owed) := by
      intro other
      obtain ⟨same, noted⟩ : _ ∧ noteEvent s event reply owed = owed := idle_books other put done
      rw [same, noted]
      exact owes
    cases event with
    | control client call =>
      cases call with
      | «open» => exact open_owes agree owes (ready client rfl).free step
      | accept => exact open_owes agree owes (ready client rfl).free step
      | close => exact close_owes valid agree owes allowed.1 done
      | eventPoll =>
        obtain ⟨_, event, polled⟩ := poll_polled valid agree owes allowed.1
        obtain ⟨rfl, rfl⟩ := Prod.mk.inj (Except.ok.inj (polled.step.symm.trans done))
        exact polled.owes
      | setAsync | stack | getIpv4 =>
        rw [quiet_books rfl done, noteEvent_quiet rfl]
        exact owes
    | communicate | irq | notify | submit | collect | putEvent | callback => exact idle nofun

/-! ## Polls -/

theorem Polled.reportsNext {c : Nat} {event : SocketEvent}
    (owes : Owes s.books owed) (polled : Polled config s after owed c event) :
    ReportsNext config s (owed c) c := by
  refine ⟨after, event, polled.step, ?_⟩
  rcases polled.event with ⟨rfl, empty⟩ | ⟨nonzero, found, open', left⟩
  · exact (if_pos (rfl : SocketEvent.none.socketFd = 0)).mpr empty
  · rw [if_neg nonzero]
    exact ⟨found, owes.nonzero c _ _ found, open', left⟩

/-- The polls of a client find its sockets with events one after the other. -/
theorem polls_reportsAll (valid : config.Valid) (n : Nat) (agree : Agree config s.books)
    (owes : Owes s.books owed) {c : Nat} (client : c < config.numClients)
    (count : (owed c).keys.card = n) : ReportsAll config s (owed c) c := by
  -- on the number of sockets with events, of which each poll reports one
  induction n generalizing s owed with
  | zero =>
    have empty := Finset.card_eq_zero.mp count
    obtain ⟨after, event, polled⟩ := poll_polled valid agree owes client
    have nothing : event = .none := by
      rcases polled.event with ⟨nothing, _⟩ | ⟨_, found, _⟩
      · exact nothing
      · have member := Finmap.mem_keys.mpr (Finmap.mem_of_lookup_eq_some found)
        rw [empty] at member
        cases member
    refine ⟨s, [], by rw [count]; rfl, List.nodup_nil, ?_, nofun, after, nothing ▸ polled.step⟩
    intro fd
    rw [← Finmap.mem_keys, empty]
    simp
  | succ n ih =>
    obtain ⟨after, event, polled⟩ := poll_polled valid agree owes client
    rcases polled.event with ⟨_, empty⟩ | ⟨_, found, _⟩
    · rw [empty] at count
      cases count
    have member := Finmap.mem_of_lookup_eq_some found
    -- the other sockets are reported from here on
    have rest : (Function.update owed c ((owed c).erase event.socketFd)) c =
        (owed c).erase event.socketFd := Function.update_self _ _ _
    have fewer : ((owed c).erase event.socketFd).keys.card = n := by
      rw [Finmap.keys_erase, Finset.card_erase_of_mem (Finmap.mem_keys.mpr member), count]
      rfl
    have later := ih polled.agree polled.owes (by rw [rest, fewer])
    rw [rest] at later
    obtain ⟨final, events, done, nodup, same, bits, last⟩ := later
    rw [fewer] at done
    refine ⟨final, event :: events, ?_, ?_, ?_, ?_, last⟩
    · rw [count, polls, polled.step]
      simp only [bind, Except.bind, done]
      rfl
    · rw [List.map_cons, List.nodup_cons, same, Finmap.mem_erase]
      exact ⟨fun both => both.1 rfl, nodup⟩
    · intro fd
      rw [List.map_cons, List.mem_cons, same, Finmap.mem_erase]
      by_cases here : fd = event.socketFd
      · simp [here, member]
      · simp [here]
    · intro other listed
      rcases List.mem_cons.mp listed with rfl | listed
      · exact found
      · have elsewhere : other.socketFd ≠ event.socketFd := by
          have here := (same other.socketFd).mp (List.mem_map_of_mem listed)
          exact (Finmap.mem_erase.mp here).1
        rw [← Finmap.lookup_erase_ne elsewhere]
        exact bits other listed

theorem puts_lost (agree : Agree config s.books) (misses : ¬Inserts s event)
    (done : s.step config event = .ok (after, reply)) :
    ∃ c fd bits, puts s event = some (c, fd, bits) ∧ c < config.numClients ∧
      s.events c fd.toUInt32 = none ∧ after.events = s.events := by
  rw [Inserts] at misses
  push Not at misses
  obtain ⟨c, fd, bits, put, absent, full⟩ := misses
  obtain ⟨sockets, ⟨record, socket, held, live, records⟩, ret, marked⟩ :=
    puts_putOn agree put done
  obtain ⟨client, _⟩ := agree.sockets c fd.toUInt32 record held
  refine ⟨c, fd, bits, put, client, absent, ?_⟩
  cases marked with
  | refused _ same => exact same
  | lost _ _ same => exact same
  | entered room => exact absurd (full (room absent).1) (room absent).2

/-- An event that finds no room is missing from the next report. -/
theorem not_reports (valid : config.Valid) (agree : Agree config s.books)
    (owes : Owes s.books owed) (misses : ¬Inserts s event)
    (done : s.step config event = .ok (after, reply)) :
    ¬Reports config (after, noteEvent s event reply owed) := by
  intro reports
  obtain ⟨c, fd, bits, put, client, absent, same⟩ := puts_lost agree misses done
  obtain ⟨⟨final, next, polled, report⟩, _⟩ := reports c client
  have fresh : fd ∉ owed c := by
    intro some
    rw [← Int32.toInt32_toUInt32 fd] at some
    exact (owes.set c fd.toUInt32).mpr some absent
  have keys : (noteEvent s event reply owed c).keys = insert fd (owed c).keys := by
    rw [noteEvent_puts put, Function.update_self, Owed.keys_put]
  rw [keys] at report
  have some : next.socketFd ≠ 0 := by
    intro zero
    rw [if_pos zero] at report
    exact Finset.insert_ne_empty _ _ report
  rw [if_neg some] at report
  -- what the poll takes is in the set that the event did not change
  have polled : picoControlEventPoll config { after with
    controlBadge := enumerateBadge config.controlBadges c } = .ok (final, .event next) := polled
  obtain ⟨clientId, checked, polled⟩ := bind_ok.mp polled
  obtain rfl := clientCheck_control valid client checked
  obtain ⟨⟨last, _⟩, got, polled⟩ := bind_ok.mp polled
  obtain ⟨rfl, polled⟩ := pair_ok.mp polled
  cases polled
  rcases clientGetEvent_spec got with ⟨_, rfl, _⟩ | ⟨fd', pending, _, _, _, events, rest⟩
  · exact some rfl
  rcases rest with ⟨_, rfl, _⟩ | ⟨record, socket, _, _, _, rfl⟩
  · exact some rfl
  have pending : s.events clientId fd' ≠ none := by
    rw [← same]
    exact pending
  have member := (owes.set clientId fd').mp pending
  have other : fd ≠ fd'.toInt32 := fun here => fresh (here ▸ member)
  have taken : ∀ k, last.events clientId k ≠ none ↔
      k.toInt32 ∈ (owed clientId).erase fd'.toInt32 := by
    intro k
    have others : last.events clientId k = Function.update (s.events clientId) fd' none k := by
      rw [events, Function.update_self]
      exact congrFun (congrArg (Function.update · fd' none) (congrFun same clientId)) k
    rw [others, Finmap.mem_erase, ← owes.set]
    by_cases here : k = fd'
    · simp [here]
    · rw [Function.update_of_ne here, Ne, Ne, toInt32_inj, and_iff_right here]
      rfl
  have less : (last.clients clientId).socketEventSet.size =
      ((owed clientId).keys.erase fd'.toInt32).card := by
    rw [set_size taken, Finmap.keys_erase]
  have more : (last.clients clientId).socketEventSet.size =
      ((insert fd (owed clientId).keys).erase fd'.toInt32).card := report.2.2.2
  rw [Finset.erase_insert_of_ne other, Finset.card_insert_of_notMem] at more
  · exact absurd (less.symm.trans more) (Nat.succ_ne_self _).symm
  · intro some
    exact fresh (Finmap.mem_keys.mp (Finset.mem_of_mem_erase some))

/-! ## Runs -/

theorem reports_of_owes (valid : config.Valid) (agree : Agree config s.books)
    (owes : Owes s.books owed) : Reports config (s, owed) := by
  intro c client
  obtain ⟨_, _, polled⟩ := poll_polled valid agree owes client
  exact ⟨polled.reportsNext owes, polls_reportsAll valid _ agree owes client rfl⟩

variable {msgs : Ptr → Msg} {trace : List (Event × Reply)} {final : Server × (Nat → Owed)}

theorem Owes.init (msgs : Ptr → Msg) : Owes (Server.init msgs).books fun _ => ∅ where
  set c fd := by
    have none : (Server.init msgs).books.events c fd = none := rfl
    exact iff_of_false (not_not.mpr none) Finmap.notMem_empty
  bits c fd p socket _ live := by cases live
  nonzero := nofun

/-- Along a run in which every event finds room the books keep up with the ledger. -/
theorem run_owes (valid : config.Valid)
    (run : (reporting config).Run (.init msgs, fun _ => ∅) trace final)
    (fresh : (machine config).EveryStep (.init msgs) trace FreshAddress)
    (few : ∀ c, opens c trace < 2 ^ 31 - 1) (masked : ∀ event ∈ trace, event.1.Masked)
    (inserts : (reporting config).EveryStep (.init msgs, fun _ => ∅) trace
      fun s event => Inserts s.1 event) : Owes final.1.books final.2 := by
  -- on the run; that all events found room carries the books from step to step
  induction run with
  | start => exact .init msgs
  | @next trace before after event reply run allowed step ih =>
    have early : trace <+: trace ++ [(event, reply)] := List.prefix_append _ _
    have owes := ih (fresh.early early)
      (fun c => lt_of_le_of_lt (opens_early early c) (few c))
      (fun event member => masked event (List.mem_append_left _ member)) (inserts.early early)
    obtain ⟨stepped, noted⟩ := Machine.record_step step
    have reached := Machine.record_run run
    have inv := run_books valid reached (fresh.early early) fun c =>
      lt_of_le_of_lt (opens_early early c) (few c)
    rw [noted]
    exact step_owes valid inv.agree owes (fun c opener => inv.ready few opener) allowed
      (fresh trace event reply (List.prefix_refl _) before.1 reached)
      (masked (event, reply) (by simp)) (inserts trace event reply (List.prefix_refl _) before run)
      (machine_step.mp stepped)

/-- Every poll of every client reports what the ledger says if and only if every event that is put
finds room in the event set of its client. -/
theorem events_reported_iff (valid : config.Valid)
    (run : (reporting config).Run (.init msgs, fun _ => ∅) trace final)
    (fresh : (machine config).EveryStep (.init msgs) trace FreshAddress)
    (few : ∀ c, opens c trace < 2 ^ 31 - 1) (masked : ∀ event ∈ trace, event.1.Masked) :
    (reporting config).Always (.init msgs, fun _ => ∅) trace (Reports config) ↔
      (reporting config).EveryStep (.init msgs, fun _ => ∅) trace
        fun s event => Inserts s.1 event := by
  constructor
  · intro reports
    -- on the run: up to the first event without room the books are those of the ledger
    induction run with
    | start => exact Machine.EveryStep.start
    | @next trace before after event reply run allowed step ih =>
      have early : trace <+: trace ++ [(event, reply)] := List.prefix_append _ _
      have few' : ∀ c, opens c trace < 2 ^ 31 - 1 := fun c =>
        lt_of_le_of_lt (opens_early early c) (few c)
      have masked' : ∀ event ∈ trace, event.1.Masked := fun event member =>
        masked event (List.mem_append_left _ member)
      have inserts := ih (fresh.early early) few' masked'
        fun first within => reports first (within.trans early)
      apply inserts.next run
      -- an event that found no room is owed for ever, and no poll reports it
      by_contra misses
      have inv := run_books valid (Machine.record_run run) (fresh.early early) few'
      have owes := run_owes valid run (fresh.early early) few' masked' inserts
      obtain ⟨stepped, noted⟩ := Machine.record_step step
      have last := reports _ (List.prefix_refl _) after (run.next allowed step)
      apply not_reports valid inv.agree owes misses (machine_step.mp stepped)
      rwa [← noted]
  · intro inserts early within s reached
    have few' : ∀ c, opens c early < 2 ^ 31 - 1 := fun c =>
      lt_of_le_of_lt (opens_early within c) (few c)
    have inv := run_books valid (Machine.record_run reached) (fresh.early within) few'
    have owes := run_owes valid reached (fresh.early within) few'
      (fun event member => masked event (within.subset member)) (inserts.early within)
    exact reports_of_owes valid inv.agree owes

theorem openAndClose_masked : ∀ event ∈ openAndClose, event.Masked := by
  simp [openAndClose, Event.Masked]

instance {K V : Type} {hash : K → UInt32} (t : Table hash V) (memory : Bool) :
    Decidable (t.Refuses memory) :=
  decidable_of_iff ((t.table.makeRoom hash memory).isNone = true) Option.isNone_iff_eq_none

instance {K V : Type} {hash : K → UInt32} (t : Table hash V) : Decidable t.Crowded :=
  inferInstanceAs (Decidable (_ ∧ _))

instance (s : Server) (event : Event) : Decidable (Inserts s event) :=
  decidable_of_iff (∀ put ∈ puts s event, s.events put.1 put.2.1.toUInt32 = none →
      ¬(s.clients put.1).socketEventSet.Refuses event.memory ∧
        ¬(s.clients put.1).socketEventSet.Crowded)
    ⟨fun all c fd bits put => all (c, fd, bits) put, fun all put => all put.1 put.2.1 put.2.2⟩

theorem events_reported_iff_openAndClose :
    ∃ trace final, (reporting twoClients).Run (.init fun _ => blankMsg, fun _ => ∅) trace final ∧
      trace.map Prod.fst = openAndClose ∧
      (reporting twoClients).Always (.init fun _ => blankMsg, fun _ => ∅) trace
        (Reports twoClients) := by
  have evaluated : ((machine twoClients).exec (fun s event => decide (s.permits twoClients event) &&
      decide (FreshAddress s event ∧ Inserts s event)) [] (.init fun _ => blankMsg)
      openAndClose).isSome = true := by
    decide +kernel
  obtain ⟨⟨trace, final⟩, done⟩ := Option.isSome_iff_exists.mp evaluated
  obtain ⟨run, met, events⟩ := Machine.exec_run (fun s event checked => by
    rw [Bool.and_eq_true, decide_eq_true_eq, decide_eq_true_eq] at checked
    exact checked) .start .start done
  rw [List.map_nil, List.nil_append] at events
  obtain ⟨owed, recorded⟩ : ∃ owed, (reporting twoClients).Run
      (.init fun _ => blankMsg, fun _ => ∅) trace (final, owed) := run.recorded _
  have short : trace.length = 8 := by
    rw [← List.length_map (f := Prod.fst), events]
    rfl
  refine ⟨trace, _, recorded, events, (events_reported_iff ⟨rfl, by decide, by decide⟩ recorded
    (fun early event reply within s reached => (met early event reply within s reached).1)
    (fun c => ?_) fun event member => ?_).mpr ?_⟩
  · exact lt_of_le_of_lt (opens_le_length c trace) (by rw [short]; decide)
  · apply openAndClose_masked
    rw [← events]
    exact List.mem_map_of_mem member
  · exact fun early event reply within s reached =>
      (met early event reply within s.1 (Machine.record_run reached)).2

end

end GlobalComponents.PicoServer
