import GlobalComponents.PicoServer.Identity

/-! What the operations of `picoserver_client.c` do to the books, read as maps.

`sockets` maps the fds of each client to records, `address` the PicoTCP addresses, and `events` says
which fds have events.
-/

set_option autoImplicit false

namespace GlobalComponents.PicoServer

open Library

namespace Server

def sockets (s : Server) (clientId : Nat) (fd : UInt32) : Option Ptr :=
  (s.clients clientId).socketTable.lookup fd

def address (s : Server) (socket : Ptr) : Option Ptr := s.socketAddrTable.lookup socket

def events (s : Server) (clientId : Nat) (fd : UInt32) : Option Unit :=
  (s.clients clientId).socketEventSet.lookup fd

def bump (s : Server) (clientId : Nat) : UInt32 := (s.clients clientId).bumpIndex

variable {s : Server} {c : Nat}

theorem sockets_setClient {client : Client} : (s.setClient c client).sockets =
    Function.update s.sockets c client.socketTable.lookup := by
  funext other fd
  by_cases here : other = c
  · subst here
    simp [sockets, setClient]
  · simp [sockets, setClient, Function.update_of_ne here]

theorem events_setClient {client : Client} : (s.setClient c client).events =
    Function.update s.events c client.socketEventSet.lookup := by
  funext other fd
  by_cases here : other = c
  · subst here
    simp [events, setClient]
  · simp [events, setClient, Function.update_of_ne here]

theorem bump_setClient {client : Client} : (s.setClient c client).bump =
    Function.update s.bump c client.bumpIndex := by
  funext other
  by_cases here : other = c
  · subst here
    simp [bump, setClient]
  · simp [bump, setClient, Function.update_of_ne here]

@[simp] theorem sockets_setSocketTable {table : Table intHashFunc Ptr} :
    (s.setSocketTable c table).sockets = Function.update s.sockets c table.lookup :=
  sockets_setClient

@[simp] theorem events_setSocketTable {table : Table intHashFunc Ptr} :
    (s.setSocketTable c table).events = s.events := by
  rw [setSocketTable, events_setClient]
  exact Function.update_eq_self c s.events

@[simp] theorem bump_setSocketTable {table : Table intHashFunc Ptr} :
    (s.setSocketTable c table).bump = s.bump := by
  rw [setSocketTable, bump_setClient]
  exact Function.update_eq_self c s.bump

@[simp] theorem sockets_setSocketEventSet {set : Table intHashFunc Unit} :
    (s.setSocketEventSet c set).sockets = s.sockets := by
  rw [setSocketEventSet, sockets_setClient]
  exact Function.update_eq_self c s.sockets

@[simp] theorem events_setSocketEventSet {set : Table intHashFunc Unit} :
    (s.setSocketEventSet c set).events = Function.update s.events c set.lookup :=
  events_setClient

@[simp] theorem bump_setSocketEventSet {set : Table intHashFunc Unit} :
    (s.setSocketEventSet c set).bump = s.bump := by
  rw [setSocketEventSet, bump_setClient]
  exact Function.update_eq_self c s.bump

@[simp] theorem address_setSocketAddrTable {table : Table int64HashFunc Ptr} :
    (s.setSocketAddrTable table).address = table.lookup := rfl

@[simp] theorem sockets_setSocketAddrTable {table : Table int64HashFunc Ptr} :
    (s.setSocketAddrTable table).sockets = s.sockets := rfl

@[simp] theorem events_setSocketAddrTable {table : Table int64HashFunc Ptr} :
    (s.setSocketAddrTable table).events = s.events := rfl

@[simp] theorem bump_setSocketAddrTable {table : Table int64HashFunc Ptr} :
    (s.setSocketAddrTable table).bump = s.bump := rfl

@[simp] theorem sockets_free {record : Ptr} : (s.free record).sockets = s.sockets := rfl

@[simp] theorem events_free {record : Ptr} : (s.free record).events = s.events := rfl

@[simp] theorem bump_free {record : Ptr} : (s.free record).bump = s.bump := rfl

@[simp] theorem sockets_setRecord {record : Ptr} {socket : Socket} :
    (s.setRecord record socket).sockets = s.sockets := rfl

@[simp] theorem events_setRecord {record : Ptr} {socket : Socket} :
    (s.setRecord record socket).events = s.events := rfl

@[simp] theorem bump_setRecord {record : Ptr} {socket : Socket} :
    (s.setRecord record socket).bump = s.bump := rfl

end Server

theorem entry_update {α : Type} (f : Nat → UInt32 → α) (c : Nat) (fd : UInt32) (v : α) (d : Nat)
    (k : UInt32) :
    Function.update f c (Function.update (f c) fd v) d k = if d = c ∧ k = fd then v else f d k := by
  by_cases client : d = c
  · subst client
    by_cases here : k = fd
    · simp [here]
    · simp [here]
  · simp [client]

def Socket.key (socket : Socket) : Nat × Int32 × Ptr :=
  (socket.clientId, socket.socketFd, socket.socket)

/-- The books as maps; the records are without their pending lists. -/
structure Books where
  sockets : Nat → UInt32 → Option Ptr
  address : Ptr → Option Ptr
  events : Nat → UInt32 → Option Unit
  bump : Nat → UInt32
  records : Ptr → Option Socket

def Server.books (s : Server) : Books where
  sockets := s.sockets
  address := s.address
  events := s.events
  bump := s.bump
  records p := (s.records p).map Socket.plain

structure SameEntries (before after : Books) : Prop where
  sockets : after.sockets = before.sockets
  address : after.address = before.address
  events : after.events = before.events

theorem SameEntries.refl (b : Books) : SameEntries b b := ⟨rfl, rfl, rfl⟩

theorem SameEntries.of_server {s after : Server} (sockets : after.sockets = s.sockets)
    (address : after.address = s.address) (events : after.events = s.events) :
    SameEntries s.books after.books := ⟨sockets, address, events⟩

theorem dropEvent_spec (s : Server) (c : Nat) (fd : Int32) :
    (dropEvent s c fd).sockets = s.sockets ∧ (dropEvent s c fd).address = s.address ∧
      (dropEvent s c fd).records = s.records ∧ (dropEvent s c fd).bump = s.bump ∧
      (dropEvent s c fd).events =
        Function.update s.events c (Function.update (s.events c) fd.toUInt32 none) := by
  rw [dropEvent]
  split
  · next found =>
    refine ⟨by simp, rfl, rfl, by simp, ?_⟩
    rw [Server.events_setSocketEventSet, Table.lookup_del_get found]
    rfl
  · next missing =>
    refine ⟨rfl, rfl, rfl, rfl, ?_⟩
    have none : s.events c fd.toUInt32 = none := Table.lookup_eq_none.mpr (not_not.mp missing)
    rw [← none, Function.update_eq_self, Function.update_eq_self]

theorem clientDeleteSocket_spec {s after : Server} {c : Nat} {fd ret : Int32}
    (done : clientDeleteSocket s c fd = .ok (after, ret)) :
    (ret = -1 ∧ after = s ∧ s.sockets c fd.toUInt32 = none) ∨
      (ret = 0 ∧ ∃ record socket, s.sockets c fd.toUInt32 = some record ∧
        s.records record = some socket ∧
        after.sockets = Function.update s.sockets c
          (Function.update (s.sockets c) fd.toUInt32 none) ∧
        after.address = Function.update s.address socket.socket none ∧
        after.events = Function.update s.events c
          (Function.update (s.events c) fd.toUInt32 none) ∧
        after.records = Function.update s.records record none ∧ after.bump = s.bump) := by
  rw [clientDeleteSocket] at done
  split at done
  · next missing =>
    obtain ⟨rfl, rfl⟩ := pair_ok.mp done
    exact .inl ⟨rfl, rfl, Table.lookup_eq_none.mpr missing⟩
  · next found =>
    right
    obtain ⟨socket, deref, done⟩ := bind_ok.mp done
    obtain ⟨_, registered, done⟩ := bind_ok.mp done
    obtain ⟨rfl, rfl⟩ := pair_ok.mp done
    have registered := zfLogfIf_ok.mp registered
    generalize middle :
      ((s.free _).setSocketTable c ((s.clients c).socketTable.del _)).setSocketAddrTable _ = state
    obtain ⟨sockets, address, records, bump, events⟩ := dropEvent_spec state c fd
    subst middle
    refine ⟨rfl, _, socket, Table.lookup_eq_some.mpr ⟨found, rfl⟩, Server.deref_ok.mp deref,
      ?_, ?_, ?_, ?_, ?_⟩
    · rw [sockets, Server.sockets_setSocketAddrTable, Server.sockets_setSocketTable,
        Table.lookup_del_get found]
      rfl
    · rw [address, Server.address_setSocketAddrTable]
      exact Table.lookup_del_get registered
    · rw [events]
      simp
    · rw [records]
      rfl
    · rw [bump]
      simp

/-- What `client_get_event` does: an event of the client is taken from its set, if there is one. -/
theorem clientGetEvent_spec {s after : Server} {c : Nat} {event : SocketEvent}
    (done : clientGetEvent s c = .ok (after, event)) :
    (after = s ∧ event = .none ∧ ∀ fd, s.events c fd = none) ∨
      ∃ fd, s.events c fd ≠ none ∧ after.sockets = s.sockets ∧ after.address = s.address ∧
        after.bump = s.bump ∧ after.events =
          Function.update s.events c (Function.update (s.events c) fd none) ∧
        ((fd = 0 ∧ event = .none ∧ after.records = s.records) ∨
          ∃ record socket, s.sockets c fd = some record ∧ s.records record = some socket ∧
            after.records = Function.update s.records record (some { socket with events := 0 }) ∧
            event = ⟨fd.toInt32, socket.events, (after.clients c).socketEventSet.size⟩) := by
  rw [clientGetEvent] at done
  split at done
  · next nothing =>
    obtain ⟨rfl, rfl⟩ := pair_ok.mp done
    exact .inl ⟨rfl, rfl, Table.lookup_of_first nothing⟩
  · next found =>
    right
    obtain ⟨bucket, live⟩ := Table.first_spec found
    generalize (s.clients c).socketEventSet.first = iter at bucket live done
    have present := Table.lookup_of_exist bucket live
    have removed := Table.lookup_del bucket live
    generalize (s.clients c).socketEventSet.del iter = set at removed done
    have events : (s.setSocketEventSet c set).events = Function.update s.events c
        (Function.update (s.events c) ((s.clients c).socketEventSet.key iter) none) := by
      rw [Server.events_setSocketEventSet, removed]
      rfl
    refine ⟨(s.clients c).socketEventSet.key iter, ?_, ?_⟩
    · rw [Server.events, present]
      exact Option.some_ne_none _
    generalize (s.clients c).socketEventSet.key iter = fd at events done
    dsimp only at done
    split at done
    · next zero =>
      obtain ⟨rfl, rfl⟩ := pair_ok.mp done
      exact ⟨by simp, rfl, by simp, events, .inl ⟨zero, rfl, rfl⟩⟩
    · split at done
      · cases done
      · next record open' =>
        obtain ⟨socket, deref, done⟩ := bind_ok.mp done
        obtain ⟨rfl, rfl⟩ := pair_ok.mp done
        refine ⟨by simp, rfl, by simp, events, .inr ⟨record, socket, ?_, Server.deref_ok.mp deref,
          rfl, ?_⟩⟩
        · rw [clientGetSocket, UInt32.toUInt32_toInt32] at open'
          have same : (s.setSocketEventSet c set).sockets c fd = some record := open'
          rwa [Server.sockets_setSocketEventSet] at same
        · simp [Server.setRecord, Server.setSocketEventSet, Server.setClient]

/-- What `kh_put` does to the event set of a client, and what `client_put_event` returns. A crowded
set does not take a new socket, and nobody is told. -/
inductive Marked (s after : Server) (c : Nat) (fd : UInt32) (memory : Bool) : Int32 → Prop where
  | refused : (s.clients c).socketEventSet.Refuses memory → after.events = s.events →
      Marked s after c fd memory (-1)
  | lost : s.events c fd = none → (s.clients c).socketEventSet.Crowded → after.events = s.events →
      Marked s after c fd memory 0
  | entered : (s.events c fd = none → ¬(s.clients c).socketEventSet.Refuses memory ∧
        ¬(s.clients c).socketEventSet.Crowded) →
      after.events = Function.update s.events c (Function.update (s.events c) fd (some ())) →
      Marked s after c fd memory 0

theorem Marked.events {s after : Server} {c : Nat} {fd : UInt32} {memory : Bool} {ret : Int32}
    (marked : Marked s after c fd memory ret) : after.events = s.events ∨
      after.events = Function.update s.events c (Function.update (s.events c) fd (some ())) := by
  cases marked with
  | refused _ events => exact .inl events
  | lost _ _ events => exact .inl events
  | entered _ events => exact .inr events

theorem clientPutEvent_spec {s after : Server} {c : Nat} {fd ret : Int32} {ev : UInt16}
    {memory : Bool} (done : clientPutEvent s c fd ev memory = .ok (after, ret)) :
    (ret = -1 ∧ after = s ∧ s.sockets c fd.toUInt32 = none) ∨
      ∃ record socket, s.sockets c fd.toUInt32 = some record ∧ s.records record = some socket ∧
        after.sockets = s.sockets ∧ after.address = s.address ∧ after.bump = s.bump ∧
        after.records = Function.update s.records record
          (some { socket with events := socket.events ||| ev }) ∧
        Marked s after c fd.toUInt32 memory ret := by
  rw [clientPutEvent] at done
  split at done
  · next missing =>
    obtain ⟨rfl, rfl⟩ := pair_ok.mp done
    exact .inl ⟨rfl, rfl, missing⟩
  · next record open' =>
    right
    obtain ⟨socket, deref, done⟩ := bind_ok.mp done
    dsimp only at done
    have spec := ((s.clients c).socketEventSet).put_spec fd.toUInt32 memory
    change (pure (Server.setSocketEventSet _ c
      ((s.clients c).socketEventSet.put fd.toUInt32 memory).1, if
        ((s.clients c).socketEventSet.put fd.toUInt32 memory).2.2 = -1 then (-1 : Int32) else 0) :
      Except Fault (Server × Int32)) = _ at done
    generalize (s.clients c).socketEventSet.put fd.toUInt32 memory = result at spec done
    obtain ⟨set, iter, code⟩ := result
    obtain ⟨rfl, rfl⟩ := pair_ok.mp done
    refine ⟨record, socket, open', Server.deref_ok.mp deref, by simp, rfl, by simp, rfl, ?_⟩
    cases spec with
    | failed refuses =>
      refine .refused refuses ?_
      rw [Server.events_setSocketEventSet]
      exact Function.update_eq_self _ _
    | @kept _ _ key same found kind made crowded =>
      rcases kind with rfl | absent
      · have held : s.events c fd.toUInt32 = some () := found
        refine .entered (fun none => absurd (held.symm.trans none) (Option.some_ne_none _)) ?_
        rw [Server.events_setSocketEventSet, same]
        change Function.update s.events c (s.events c) = _
        rw [← held, Function.update_eq_self (fd.toUInt32) (s.events c), Function.update_eq_self]
      · refine .lost absent (crowded absent) ?_
        rw [Server.events_setSocketEventSet, same]
        exact Function.update_eq_self _ _
    | added kind _ _ _ _ same made free =>
      have positive : ¬code = -1 := by rcases kind with rfl | rfl <;> decide
      dsimp only
      rw [if_neg positive]
      refine .entered (fun _ => ⟨made, free⟩) ?_
      rw [Server.events_setSocketEventSet, same]
      rfl

theorem findFreeIdLoop_of_get {table : Table intHashFunc Ptr} {oldIndex curr : UInt32} {fuel : Nat}
    (some : 0 < fuel) (free : table.get curr = table.last) :
    findFreeIdLoop table oldIndex fuel curr = .ok (curr, curr + 1) := by
  cases fuel with
  | zero => exact absurd some (Nat.lt_irrefl 0)
  | succ fuel => rw [findFreeIdLoop, if_pos free]

theorem findFreeId_of_lookup {client : Client}
    (free : client.socketTable.lookup client.bumpIndex = none) :
    findFreeId client = .ok (client.bumpIndex, { client with bumpIndex := client.bumpIndex + 1 }) := by
  rw [findFreeId, findFreeIdLoop_of_get (by decide) (Table.lookup_eq_none.mp free)]
  rfl

inductive Registered (s : Server) (c : Nat) (record socket : Ptr) (after : Server) : Int32 → Prop where
  | failed : SameEntries s.books after.books → Registered s c record socket after (-1)
  | entered : after.sockets =
        Function.update s.sockets c (Function.update (s.sockets c) (s.bump c) (some record)) →
      after.address = Function.update s.address socket (some record) → after.events = s.events →
      Registered s c record socket after (s.bump c).toInt32

/-- Every entry of the address table is for the address of its socket. -/
def Server.Addressed (s : Server) : Prop :=
  ∀ a p, s.address a = some p → ∃ old, s.records p = some old ∧ old.socket = a

theorem invalidateOld_foreign {s after : Server} {c : Nat} {p socket : Ptr} {old : Socket}
    (held : s.records p = some old) (foreign : old.socket ≠ socket) :
    invalidateOld s c p socket ≠ .ok after := by
  intro done
  obtain ⟨read, deref, done⟩ := bind_ok.mp done
  obtain ⟨_, checked, _⟩ := bind_ok.mp done
  obtain rfl := Option.some.inj (held.symm.trans (Server.deref_ok.mp deref))
  exact zfLogfIf_ok.mp checked foreign

/-- The second half of `client_put_socket` for a PicoTCP address that is not registered. The first half
has entered the socket in bucket `iter`. -/
theorem putSocketAddr_spec {s after : Server} {c : Nat} {record : Ptr} {new : Socket} {iter : Nat}
    {fd : UInt32} {memory : Bool} {ret : Int32} (held : s.records record = some new)
    (fresh : s.address new.socket = none) (addressed : s.Addressed)
    (done : putSocketAddr s c record iter fd memory = .ok (after, ret)) :
    after.records = s.records ∧ after.bump = s.bump ∧ after.events = s.events ∧
      ((ret = -1 ∧ after.address = s.address ∧ after.sockets =
          Function.update s.sockets c ((s.clients c).socketTable.del iter).lookup) ∨
        (ret = fd.toInt32 ∧ after.sockets = s.sockets ∧
          after.address = Function.update s.address new.socket (some record))) := by
  obtain ⟨read, deref, done⟩ := bind_ok.mp done
  obtain rfl := Option.some.inj (held.symm.trans (Server.deref_ok.mp deref))
  have spec := s.socketAddrTable.put_spec new.socket memory
  dsimp only at done
  generalize s.socketAddrTable.put new.socket memory = result at spec done
  cases spec with
  | failed =>
    rw [if_pos rfl] at done
    obtain ⟨rfl, rfl⟩ := pair_ok.mp done
    exact ⟨rfl, by simp [Server.setSocketAddrTable], by simp, .inl ⟨rfl, rfl, by
      rw [Server.sockets_setSocketTable]
      rfl⟩⟩
  | @kept table x key same found kind =>
    -- A full table: the bucket of another address is handed out, and the first assertion fires.
    obtain ⟨old, live, there⟩ := addressed key _ found
    have foreign : old.socket ≠ new.socket := by
      intro here
      rw [← here, there] at fresh
      exact Option.some_ne_none _ (found.symm.trans fresh)
    rw [if_neg (by decide : ¬(0 : Int) = -1), if_pos rfl] at done
    obtain ⟨settled, settle, _⟩ := bind_ok.mp done
    exact absurd settle (invalidateOld_foreign live foreign)
  | @added table x code kind none bucket live here same =>
    have new1 : ¬code = -1 := by rcases kind with rfl | rfl <;> decide
    have new0 : ¬code = 0 := by rcases kind with rfl | rfl <;> decide
    rw [if_neg new1, if_neg new0] at done
    obtain ⟨rfl, rfl⟩ := pair_ok.mp done
    refine ⟨rfl, rfl, rfl, .inr ⟨rfl, rfl, ?_⟩⟩
    rw [Server.address_setSocketAddrTable]
    change (table.setVal x record).lookup = _
    rw [Table.lookup_setVal bucket live, here, same, Function.update_idem]
    rfl

theorem clientPutSocket_spec {config : Config} {s after : Server} {c : Nat} {record : Ptr}
    {new : Socket} {memory : Bool × Bool} {ret : Int32} (held : s.records record = some new)
    (fresh : s.address new.socket = none) (addressed : s.Addressed)
    (free : s.sockets c (s.bump c) = none) (nonzero : s.bump c ≠ 0)
    (done : clientPutSocket config s c record memory = .ok (after, ret)) :
    after.records = s.records ∧ after.bump = Function.update s.bump c (s.bump c + 1) ∧
      Registered s c record new.socket after ret := by
  obtain ⟨_, _, done⟩ := bind_ok.mp done
  obtain ⟨⟨freeId, client⟩, found, done⟩ := bind_ok.mp done
  obtain ⟨rfl, rfl⟩ := Prod.mk.inj (Except.ok.inj ((findFreeId_of_lookup free).symm.trans found))
  dsimp only at done
  rw [if_neg (show (s.clients c).bumpIndex ≠ 0 from nonzero)] at done
  generalize bumped :
    s.setClient c { s.clients c with bumpIndex := (s.clients c).bumpIndex + 1 } = s' at done
  -- so far only the bump index has changed
  have sockets : s'.sockets = s.sockets := by
    rw [← bumped, Server.sockets_setClient]
    exact Function.update_eq_self c s.sockets
  have events : s'.events = s.events := by
    rw [← bumped, Server.events_setClient]
    exact Function.update_eq_self c s.events
  have bump : s'.bump = Function.update s.bump c (s.bump c + 1) := by
    rw [← bumped, Server.bump_setClient]
    rfl
  have records : s'.records = s.records := by rw [← bumped]; rfl
  have address : s'.address = s.address := by rw [← bumped]; rfl
  have spec := (s.clients c).socketTable.put_spec (s.bump c) memory.1
  clear bumped
  change Table.Put _ _ _ ((s.clients c).socketTable.put (s.clients c).bumpIndex memory.1) at spec
  generalize (s.clients c).socketTable.put (s.clients c).bumpIndex memory.1 = result at spec done
  -- the first insertion, into the client's own table
  cases spec with
  | failed =>
    rw [if_pos rfl] at done
    obtain ⟨rfl, rfl⟩ := pair_ok.mp done
    refine ⟨records, by simpa using bump, .failed (.of_server ?_ address (by simpa using events))⟩
    rw [Server.sockets_setSocketTable, sockets]
    exact Function.update_eq_self c s.sockets
  | kept =>
    rw [if_neg (by decide : ¬(0 : Int) = -1)] at done
    obtain ⟨_, checked, _⟩ := bind_ok.mp done
    exact absurd rfl (zfLogfIf_ok.mp checked)
  | @added table' x code kind none bucket live here same =>
    have new1 : ¬code = -1 := by rcases kind with rfl | rfl <;> decide
    rw [if_neg new1] at done
    obtain ⟨_, _, done⟩ := bind_ok.mp done
    have entered : (table'.setVal x record).lookup =
        Function.update (s.sockets c) (s.bump c) (some record) := by
      rw [Table.lookup_setVal bucket live, here, same, Function.update_idem]
      rfl
    have deleted : ((table'.setVal x record).del x).lookup = s.sockets c := by
      rw [Table.lookup_del (t := table'.setVal x record) bucket live, entered]
      change Function.update (Function.update (s.sockets c) (s.bump c) (some record))
        (table'.key x) Option.none = s.sockets c
      rw [here, Function.update_idem, ← free, Function.update_eq_self]
    obtain ⟨records', bump', events', outcome⟩ :=
      putSocketAddr_spec (s := s'.setSocketTable c (table'.setVal x record))
        (by rw [← held, ← records]; rfl) (by rw [← fresh, ← address]; rfl)
        (fun a p entry => by
          obtain ⟨old, live, there⟩ := addressed a p (by rw [← address]; exact entry)
          exact ⟨old, by rw [← live, ← records]; rfl, there⟩) done
    refine ⟨records'.trans records, by rw [bump', Server.bump_setSocketTable, bump], ?_⟩
    have quiet : after.events = s.events := by rw [events', Server.events_setSocketTable, events]
    -- the second insertion, which takes the first one back when it fails
    rcases outcome with ⟨rfl, addresses, tables⟩ | ⟨rfl, tables, addresses⟩
    · refine .failed (.of_server ?_ (addresses.trans address) quiet)
      rw [tables, Server.sockets_setSocketTable, sockets, Function.update_idem]
      simp only [Server.setSocketTable, Server.setClient, Function.update_self]
      rw [deleted, Function.update_eq_self]
    · refine .entered ?_ ?_ quiet
      · rw [tables, Server.sockets_setSocketTable, sockets, entered]
      · rw [addresses, ← address]
        rfl

end GlobalComponents.PicoServer
