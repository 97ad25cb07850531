import GlobalComponents.PicoServer.Books

/-! The socket tables of the clients and the socket address table are inverse to each other.

`BooksStep` lists what a step can do to the books. The invariant adds to the agreement that the fds of
a client lie below its bump index, so that the index itself is always free.
-/

set_option autoImplicit false

namespace GlobalComponents.PicoServer

open Library

/-- What a step does to the books; `opener` is the client that opens or accepts a socket. -/
inductive BooksStep (config : Config) (s after : Books) : Option Nat → Prop where
  | same {opener : Option Nat} : SameEntries s after → after.bump = s.bump →
      after.records = s.records → BooksStep config s after opener
  | failed {c : Nat} : SameEntries s after →
      after.bump = Function.update s.bump c (s.bump c + 1) →
      after.records = s.records → BooksStep config s after (some c)
  | entered {c : Nat} {record socket : Ptr} (protocol : Protocol) : c < config.numClients →
      s.records record = none → socket ≠ 0 → s.address socket = none →
      after.bump = Function.update s.bump c (s.bump c + 1) →
      after.sockets =
        Function.update s.sockets c (Function.update (s.sockets c) (s.bump c) (some record)) →
      after.address = Function.update s.address socket (some record) → after.events = s.events →
      after.records = Function.update s.records record
        (some ⟨protocol, c, (s.bump c).toInt32, socket, 0, none⟩) →
      BooksStep config s after (some c)
  | deleted {c : Nat} {fd : UInt32} {record : Ptr} {socket : Socket} :
      s.sockets c fd = some record → s.records record = some socket → after.bump = s.bump →
      after.sockets = Function.update s.sockets c (Function.update (s.sockets c) fd none) →
      after.address = Function.update s.address socket.socket none →
      after.events = Function.update s.events c (Function.update (s.events c) fd none) →
      after.records = Function.update s.records record none →
      BooksStep config s after none
  | polled {c : Nat} {fd : UInt32} {record : Ptr} {socket : Socket} :
      s.events c fd ≠ none → s.sockets c fd = some record →
      s.records record = some socket → after.bump = s.bump → after.sockets = s.sockets →
      after.address = s.address →
      after.events = Function.update s.events c (Function.update (s.events c) fd none) →
      after.records = Function.update s.records record
        (some { socket with events := 0 }) → BooksStep config s after none
  | noted {c : Nat} {fd : UInt32} {record : Ptr} {socket : Socket} (ev : UInt16) :
      s.sockets c fd = some record → s.records record = some socket → after.bump = s.bump →
      after.sockets = s.sockets → after.address = s.address →
      (after.events = s.events ∨
        after.events = Function.update s.events c (Function.update (s.events c) fd (some ()))) →
      after.records = Function.update s.records record
        (some { socket with events := socket.events ||| ev }) → BooksStep config s after none

structure Agree (config : Config) (s : Books) : Prop where
  sockets : ∀ c fd p, s.sockets c fd = some p → c < config.numClients ∧ ∃ socket,
    s.records p = some socket ∧ socket.clientId = c ∧ socket.socketFd = fd.toInt32 ∧
      1 ≤ socket.socketFd ∧ socket.socket ≠ 0 ∧ s.address socket.socket = some p
  address : ∀ a p, s.address a = some p → ∃ socket, s.records p = some socket ∧
    socket.socket = a ∧ s.sockets socket.clientId socket.socketFd.toUInt32 = some p
  events : ∀ c fd, s.events c fd ≠ none → s.sockets c fd ≠ none

/-- The agreement with any condition on the fds. -/
structure Tied (config : Config) (valid : Int32 → Prop) (s : Books) : Prop where
  sockets : ∀ c fd p, s.sockets c fd = some p → c < config.numClients ∧ ∃ socket,
    s.records p = some socket ∧ socket.clientId = c ∧ socket.socketFd = fd.toInt32 ∧
      valid socket.socketFd ∧ socket.socket ≠ 0 ∧ s.address socket.socket = some p
  address : ∀ a p, s.address a = some p → ∃ socket, s.records p = some socket ∧
    socket.socket = a ∧ s.sockets socket.clientId socket.socketFd.toUInt32 = some p
  events : ∀ c fd, s.events c fd ≠ none → s.sockets c fd ≠ none

theorem Agree.tied {config : Config} {s : Books} (agree : Agree config s) :
    Tied config (1 ≤ ·) s := ⟨agree.sockets, agree.address, agree.events⟩

theorem Tied.agree {config : Config} {s : Books} (tied : Tied config (1 ≤ ·) s) :
    Agree config s := ⟨tied.sockets, tied.address, tied.events⟩

def Event.opener : Event → Option Nat
  | .control c (.open ..) | .control c (.accept ..) => some c
  | _ => none

def opens (c : Nat) (trace : List (Event × Reply)) : Nat :=
  (trace.filterMap fun entry => entry.1.opener).count c

theorem opens_concat (c : Nat) (trace : List (Event × Reply)) (event : Event) (reply : Reply) :
    opens c (trace ++ [(event, reply)]) =
      opens c trace + if event.opener = some c then 1 else 0 := by
  cases here : event.opener with
  | none => simp [opens, here]
  | some opener =>
    by_cases same : opener = c
    · simp [opens, here, same]
    · simp [opens, here, same]

structure BooksInvariant (config : Config) (trace : List (Event × Reply)) (s : Books) : Prop where
  agree : Agree config s
  positive : ∀ c, 1 ≤ (s.bump c).toNat
  bump : ∀ c, (s.bump c).toNat ≤ 1 + opens c trace
  below : ∀ c fd, s.sockets c fd ≠ none → fd.toNat < (s.bump c).toNat

theorem init_sockets (msgs : Ptr → Msg) (c : Nat) (fd : UInt32) :
    (Server.init msgs).books.sockets c fd = none := rfl

theorem init_address (msgs : Ptr → Msg) (a : Ptr) : (Server.init msgs).books.address a = none :=
  rfl

theorem init_events (msgs : Ptr → Msg) (c : Nat) (fd : UInt32) :
    (Server.init msgs).books.events c fd = none := rfl

theorem BooksInvariant.init (config : Config) (msgs : Ptr → Msg) :
    BooksInvariant config [] (Server.init msgs).books where
  agree := {
    sockets := fun c fd p held => by
      rw [init_sockets] at held
      cases held
    address := fun a p held => by
      rw [init_address] at held
      cases held
    events := fun c fd held => absurd (init_events msgs c fd) held }
  positive _ := le_rfl
  bump _ := le_rfl
  below c fd held := absurd (init_sockets msgs c fd) held

section
variable {config : Config} {valid : Int32 → Prop} {s after : Books}

theorem Tied.record (tied : Tied config valid s) {c : Nat} {fd : UInt32} {p : Ptr} {socket : Socket}
    (held : s.sockets c fd = some p) (live : s.records p = some socket) :
    socket.clientId = c ∧ socket.socketFd = fd.toInt32 ∧ s.address socket.socket = some p := by
  obtain ⟨_, other, there, owner, fd', _, _, registered⟩ := tied.sockets c fd p held
  obtain rfl := Option.some.inj (live.symm.trans there)
  exact ⟨owner, fd', registered⟩

theorem Tied.place (tied : Tied config valid s) {c d : Nat} {fd fd' : UInt32} {p : Ptr}
    (here : s.sockets c fd = some p) (there : s.sockets d fd' = some p) : c = d ∧ fd = fd' := by
  obtain ⟨_, socket, live, owner, number, _⟩ := tied.sockets c fd p here
  obtain ⟨owner', number', _⟩ := tied.record there live
  refine ⟨owner.symm.trans owner', ?_⟩
  have same := congrArg Int32.toUInt32 (number.symm.trans number')
  rwa [UInt32.toUInt32_toInt32, UInt32.toUInt32_toInt32] at same

/-- What the agreement rests on. -/
theorem Tied.congr (tied : Tied config valid s) (same : SameEntries s after)
    (records : ∀ p, (after.records p).map Socket.key = (s.records p).map Socket.key) :
    Tied config valid after := by
  have live : ∀ p socket, s.records p = some socket → ∃ socket',
      after.records p = some socket' ∧ socket'.clientId = socket.clientId ∧
        socket'.socketFd = socket.socketFd ∧ socket'.socket = socket.socket := by
    intro p socket held
    have key := records p
    rw [held, Option.map_some, Option.map_eq_some_iff] at key
    obtain ⟨socket', held', key⟩ := key
    exact ⟨socket', held', congrArg (·.1) key, congrArg (·.2.1) key, congrArg (·.2.2) key⟩
  refine ⟨?_, ?_, ?_⟩
  · intro c fd p held
    rw [same.sockets] at held
    obtain ⟨client, socket, alive, owner, number, positive, nonnull, registered⟩ :=
      tied.sockets c fd p held
    obtain ⟨socket', alive', owner', number', pico⟩ := live p socket alive
    rw [same.address]
    exact ⟨client, socket', alive', owner'.trans owner, number'.trans number, number' ▸ positive,
      pico ▸ nonnull, pico ▸ registered⟩
  · intro a p held
    rw [same.address] at held
    obtain ⟨socket, alive, here, back⟩ := tied.address a p held
    obtain ⟨socket', alive', owner', number', pico⟩ := live p socket alive
    rw [same.sockets]
    exact ⟨socket', alive', pico.trans here, by rw [owner', number', back]⟩
  · intro c fd held
    rw [same.events] at held
    rw [same.sockets]
    exact tied.events c fd held

theorem Tied.enter (tied : Tied config valid s) {c : Nat} {record socket : Ptr} {new : Socket}
    {fd : UInt32} (client : c < config.numClients) (dead : s.records record = none)
    (nonnull : socket ≠ 0) (unregistered : s.address socket = none) (free : s.sockets c fd = none)
    (positive : valid fd.toInt32) (key : new.key = (c, fd.toInt32, socket))
    (sockets : after.sockets =
      Function.update s.sockets c (Function.update (s.sockets c) fd (some record)))
    (address : after.address = Function.update s.address socket (some record))
    (events : after.events = s.events)
    (records : after.records = Function.update s.records record (some new)) :
    Tied config valid after := by
  obtain ⟨owner, number, pico⟩ : new.clientId = c ∧ new.socketFd = fd.toInt32 ∧
      new.socket = socket := ⟨congrArg (·.1) key, congrArg (·.2.1) key, congrArg (·.2.2) key⟩
  have other : ∀ p old, s.records p = some old → after.records p = some old := by
    intro p old held
    rw [records, Function.update_of_ne, held]
    rintro rfl
    rw [dead] at held
    cases held
  have kept : ∀ d k p, s.sockets d k = some p → after.sockets d k = some p := by
    intro d k p held
    rw [sockets]
    by_cases here : d = c
    · subst here
      rw [Function.update_self, Function.update_of_ne, held]
      rintro rfl
      rw [free] at held
      cases held
    · rwa [Function.update_of_ne here]
  have entry : after.sockets c fd = some record := by
    rw [sockets, Function.update_self, Function.update_self]
  -- the new entry apart, what held before is found again
  refine ⟨?_, ?_, ?_⟩
  · intro d k p held
    by_cases here : d = c ∧ k = fd
    · obtain ⟨rfl, rfl⟩ := here
      obtain rfl := Option.some.inj (entry.symm.trans held)
      refine ⟨client, new, by rw [records, Function.update_self], owner, number, number ▸ positive,
        pico ▸ nonnull, ?_⟩
      rw [address, pico, Function.update_self]
    · have before : s.sockets d k = some p := by
        rw [← held, sockets]
        by_cases same : d = c
        · subst same
          rw [Function.update_self, Function.update_of_ne fun there => here ⟨rfl, there⟩]
        · rw [Function.update_of_ne same]
      obtain ⟨small, old, alive, owner', number', positive', nonnull', registered⟩ :=
        tied.sockets d k p before
      refine ⟨small, old, other p old alive, owner', number', positive', nonnull', ?_⟩
      rw [address, Function.update_of_ne, registered]
      intro there
      rw [there, unregistered] at registered
      cases registered
  · intro a p held
    rw [address] at held
    by_cases here : a = socket
    · subst here
      rw [Function.update_self] at held
      obtain rfl := Option.some.inj held
      refine ⟨new, by rw [records, Function.update_self], pico, ?_⟩
      rw [owner, number, UInt32.toUInt32_toInt32, entry]
    · rw [Function.update_of_ne here] at held
      obtain ⟨old, alive, there, back⟩ := tied.address a p held
      exact ⟨old, other p old alive, there, kept _ _ _ back⟩
  · intro d k held
    rw [events] at held
    obtain ⟨p, open'⟩ := Option.ne_none_iff_exists'.mp (tied.events d k held)
    rw [kept d k p open']
    exact Option.some_ne_none p

theorem Tied.delete (tied : Tied config valid s) {c : Nat} {record : Ptr} {socket : Socket}
    {fd : UInt32} (held : s.sockets c fd = some record)
    (live : s.records record = some socket)
    (sockets : after.sockets = Function.update s.sockets c (Function.update (s.sockets c) fd none))
    (address : after.address = Function.update s.address socket.socket none)
    (events : after.events = Function.update s.events c (Function.update (s.events c) fd none))
    (records : after.records = Function.update s.records record none) :
    Tied config valid after := by
  obtain ⟨owner, number, registered⟩ := tied.record held live
  have gone : after.sockets c fd = none := by
    rw [sockets, Function.update_self, Function.update_self]
  have other : ∀ d k, ¬(d = c ∧ k = fd) → after.sockets d k = s.sockets d k := by
    intro d k elsewhere
    rw [sockets]
    by_cases same : d = c
    · subst same
      rw [Function.update_self, Function.update_of_ne fun there => elsewhere ⟨rfl, there⟩]
    · rw [Function.update_of_ne same]
  -- a socket is at one place, so the others keep theirs
  refine ⟨?_, ?_, ?_⟩
  · intro d k p open'
    have elsewhere : ¬(d = c ∧ k = fd) := by
      rintro ⟨rfl, rfl⟩
      rw [gone] at open'
      cases open'
    rw [other d k elsewhere] at open'
    obtain ⟨small, old, alive, owner', number', positive, nonnull, registered'⟩ :=
      tied.sockets d k p open'
    have different : p ≠ record := by
      rintro rfl
      obtain ⟨same, same'⟩ := tied.place open' held
      exact elsewhere ⟨same, same'⟩
    refine ⟨small, old, by rw [records, Function.update_of_ne different, alive], owner', number',
      positive, nonnull, ?_⟩
    rw [address, Function.update_of_ne, registered']
    intro there
    rw [there, registered] at registered'
    exact different (Option.some.inj registered').symm
  · intro a p entry
    rw [address] at entry
    have elsewhere : a ≠ socket.socket := by
      rintro rfl
      rw [Function.update_self] at entry
      cases entry
    rw [Function.update_of_ne elsewhere] at entry
    obtain ⟨old, alive, there, back⟩ := tied.address a p entry
    have different : p ≠ record := by
      rintro rfl
      obtain rfl := Option.some.inj (live.symm.trans alive)
      exact elsewhere there.symm
    refine ⟨old, by rw [records, Function.update_of_ne different, alive], there, ?_⟩
    rw [other, back]
    rintro ⟨same, same'⟩
    rw [same, same', held] at back
    exact different (Option.some.inj back).symm
  · intro d k event
    rw [events] at event
    have elsewhere : ¬(d = c ∧ k = fd) := by
      rintro ⟨rfl, rfl⟩
      simp at event
    rw [other d k elsewhere]
    apply tied.events d k
    by_cases same : d = c
    · subst same
      rwa [Function.update_self, Function.update_of_ne fun there => elsewhere ⟨rfl, there⟩] at event
    · rwa [Function.update_of_ne same] at event

theorem records_key {record : Ptr} {socket : Socket} {events : UInt16}
    (live : s.records record = some socket)
    (records : after.records =
      Function.update s.records record (some { socket with events := events })) (p : Ptr) :
    (after.records p).map Socket.key = (s.records p).map Socket.key := by
  rw [records]
  by_cases here : p = record
  · subst here
    rw [Function.update_self, live]
    rfl
  · rw [Function.update_of_ne here]

theorem Tied.setEvents (tied : Tied config valid s)
    (sockets : after.sockets = s.sockets) (address : after.address = s.address)
    (records : ∀ p, (after.records p).map Socket.key = (s.records p).map Socket.key)
    (events : ∀ c fd, after.events c fd ≠ none → s.sockets c fd ≠ none) :
    Tied config valid after := by
  have same : Tied config valid { after with events := s.events } :=
    tied.congr ⟨sockets, address, rfl⟩ records
  exact ⟨same.sockets, same.address, sockets ▸ events⟩

theorem BooksStep.tied {opener : Option Nat} (step : BooksStep config s after opener)
    (tied : Tied config valid s) (free : ∀ c, opener = some c → s.sockets c (s.bump c) = none)
    (usable : ∀ c, opener = some c → valid (s.bump c).toInt32) : Tied config valid after := by
  cases step with
  | same entries _ records => exact tied.congr entries fun p => by rw [records]
  | failed entries _ records => exact tied.congr entries fun p => by rw [records]
  | @entered c record _ _ client dead nonnull unregistered _ sockets address events records =>
    exact tied.enter client dead nonnull unregistered
      (free c rfl) (usable c rfl) rfl sockets address events records
  | deleted held live _ sockets address events records =>
    exact tied.delete held live sockets address events records
  | @polled c fd _ _ _ _ live _ sockets address events records =>
    apply tied.setEvents sockets address (records_key live records)
    intro d k event
    rw [events] at event
    apply tied.events d k
    by_cases same : d = c
    · subst same
      rw [Function.update_self] at event
      by_cases same' : k = fd
      · simp [same'] at event
      · rwa [Function.update_of_ne same'] at event
    · rwa [Function.update_of_ne same] at event
  | @noted c fd record _ ev held live _ sockets address events records =>
    apply tied.setEvents sockets address (records_key live records)
    rcases events with events | events
    · rw [events]
      exact tied.events
    · intro d k event
      rw [events] at event
      by_cases same : d = c ∧ k = fd
      · rw [same.1, same.2, held]
        exact Option.some_ne_none record
      · apply tied.events d k
        by_cases same' : d = c
        · subst same'
          rwa [Function.update_self, Function.update_of_ne fun there => same ⟨rfl, there⟩] at event
        · rwa [Function.update_of_ne same'] at event

theorem BooksStep.agree {opener : Option Nat} (step : BooksStep config s after opener)
    (agree : Agree config s) (free : ∀ c, opener = some c → s.sockets c (s.bump c) = none)
    (positive : ∀ c, opener = some c → (1 : Int32) ≤ (s.bump c).toInt32) :
    Agree config after := (step.tied agree.tied free positive).agree

end

end GlobalComponents.PicoServer
