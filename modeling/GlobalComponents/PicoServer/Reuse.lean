import GlobalComponents.PicoServer.Ids

/-! PicoTCP reuses the address of a socket that is still registered.

`client_put_socket` then drops the old socket, but from the table of the client that opens the new one,
and by bucket instead of by key; the messages that wait at the old socket are left behind.
-/

set_option autoImplicit false

namespace GlobalComponents.PicoServer

open Library

/-- A message in the list that begins there. -/
inductive Server.Waits (s : Server) : Option Ptr → Ptr → Prop where
  | first {msg : Ptr} : s.Waits (some msg) msg
  | later {front msg : Ptr} : s.Waits (s.msgs front).next msg → s.Waits (some front) msg

/-- The insertions of `client_put_socket` succeed, the second for an address that is registered. -/
def Server.Inserts (s : Server) (c : Nat) (memory : Bool × Bool) : Prop :=
  ∃ id found, findFreeId (s.clients c) = .ok (id, found) ∧ id ≠ 0 ∧
    ¬found.socketTable.Refuses memory.1 ∧ ¬found.socketTable.Crowded ∧
    ¬s.socketAddrTable.Refuses memory.2

/-- The old socket is the client's own, lies in the bucket with the number of its fd once the new one is
entered, and no message waits at it. -/
structure Replaceable (s : Server) (c : Nat) (old : Socket) (memory : Bool) : Prop where
  owner : old.clientId = c
  bucket : ∀ id found, findFreeId (s.clients c) = .ok (id, found) →
    (found.socketTable.put id memory).1.get old.socketFd.toUInt32 = old.socketFd.toUInt32.toNat
  idle : ∀ async, old.asyncTransport = some async → ∀ dir, (async.pending dir).queue = none

/-- The new socket of client `c` has taken the place of the old one at address `a`. -/
structure Replaced (s after : Server) (c : Nat) (a new p : Ptr) (old : Socket) (ret : Int32) :
    Prop where
  gone : after.sockets old.clientId old.socketFd.toUInt32 = none
  noEvent : after.events old.clientId old.socketFd.toUInt32 = none
  sockets : ∀ d k, ¬(d = old.clientId ∧ k = old.socketFd.toUInt32) →
    ¬(d = c ∧ k = ret.toUInt32) → after.sockets d k = s.sockets d k
  events : ∀ d k, ¬(d = old.clientId ∧ k = old.socketFd.toUInt32) →
    after.events d k = s.events d k
  entered : after.sockets c ret.toUInt32 = some new
  address : after.address a = some new
  freed : (∀ d k, after.sockets d k ≠ some p) ∧ ∀ b, after.address b ≠ some p
  completed : ∀ async dir msg, old.asyncTransport = some async →
    s.Waits (async.pending dir).queue msg → ∃ receiver len content,
      Action.completed dir receiver (s.msgs msg).cookieSave len content ∈
        after.journal.drop s.journal.length

section
variable {config : Config} {s after : Server} {c : Nat} {record p socket : Ptr} {old new : Socket}

def Server.invalidated (s : Server) (c : Nat) (p : Ptr) (fd : Int32) : Server :=
  dropEvent ((s.setSocketTable c ((s.clients c).socketTable.del fd.toUInt32.toNat)).free p) c fd

theorem invalidateOld_iff (live : s.records p = some old) (same : old.socket = socket) :
    invalidateOld s c p socket = .ok after ↔
      (s.clients c).socketTable.get old.socketFd.toUInt32 ≠ (s.clients c).socketTable.last ∧
        (old.socketFd.toUInt32.toNat = (s.clients c).socketTable.last ∨
          (s.clients c).socketTable.InFlags old.socketFd.toUInt32.toNat) ∧
        after = s.invalidated c p old.socketFd := by
  rw [invalidateOld, Server.deref_ok.mpr live]
  have checked : zfLogfIf (old.socket ≠ socket)
      "Tried to replace an entry in the socket addr table" = .ok () :=
    zfLogfIf_ok.mpr (not_not.mpr same)
  simp only [bind, Except.bind]
  rw [checked]
  constructor
  · intro done
    obtain ⟨_, found, done⟩ := bind_ok.mp done
    obtain ⟨_, within, done⟩ := bind_ok.mp done
    refine ⟨zfLogfIf_ok.mp found, ?_, (Except.ok.inj done).symm⟩
    exact or_iff_not_imp_left.mpr fun other => not_not.mp fun outside =>
      faultIf_ok.mp within ⟨other, outside⟩
  · rintro ⟨found, within, rfl⟩
    refine bind_ok.mpr ⟨(), zfLogfIf_ok.mpr found, bind_ok.mpr ⟨(), ?_, rfl⟩⟩
    exact faultIf_ok.mpr fun outside => outside.2 (within.resolve_left outside.1)

theorem invalidated_spec (s : Server) (c : Nat) (p : Ptr) (fd : Int32) :
    (s.invalidated c p fd).sockets = Function.update s.sockets c
        ((s.clients c).socketTable.del fd.toUInt32.toNat).lookup ∧
      (s.invalidated c p fd).address = s.address ∧
      (s.invalidated c p fd).events =
        Function.update s.events c (Function.update (s.events c) fd.toUInt32 none) ∧
      (s.invalidated c p fd).records = Function.update s.records p none ∧
      (s.invalidated c p fd).bump = s.bump := by
  obtain ⟨sockets, address, records, bump, events⟩ := dropEvent_spec
    ((s.setSocketTable c ((s.clients c).socketTable.del fd.toUInt32.toNat)).free p) c fd
  refine ⟨?_, address, ?_, records, ?_⟩
  · exact sockets.trans (by simp)
  · exact events.trans (by simp)
  · exact bump.trans (by simp)

theorem dropEvent_journal (s : Server) (c : Nat) (fd : Int32) :
    (dropEvent s c fd).journal = s.journal := by
  rw [dropEvent_eq]
  rfl

theorem putSocketAddr_reused (iter : Nat) (id : UInt32) {memory : Bool}
    (held : s.records record = some new) (registered : s.address new.socket = some p)
    (made : ¬s.socketAddrTable.Refuses memory) :
    ∃ table x, table.lookup = s.address ∧
      (table.setVal x record).lookup = Function.update s.address new.socket (some record) ∧
      putSocketAddr s c record iter id memory =
        (invalidateOld (s.setSocketAddrTable table) c p new.socket >>= fun settled =>
          pure (settled.setSocketAddrTable (settled.socketAddrTable.setVal x record),
            id.toInt32)) := by
  obtain ⟨table, x, put, bucket, live, key, val, lookup⟩ := Table.put_present registered made
  refine ⟨table, x, lookup, ?_, ?_⟩
  · rw [Table.lookup_setVal bucket live, key, lookup]
    rfl
  · rw [putSocketAddr, Server.deref_ok.mpr held]
    simp only [bind, Except.bind]
    rw [put]
    dsimp only
    rw [if_neg (by decide : ¬(0 : Int) = -1), if_pos rfl, val]

theorem clientPutSocket_numbered (record : Ptr) {memory : Bool × Bool} (small : c < config.numClients)
    (inserts : s.Inserts c memory) :
    ∃ id found entered iter, findFreeId (s.clients c) = .ok (id, found) ∧ id ≠ 0 ∧
      Numbered found record id memory.1 entered iter ∧
      clientPutSocket config s c record memory =
        putSocketAddr (s.setClient c entered) c record iter id memory.2 := by
  obtain ⟨id, found, finding, nonzero, made, room, _⟩ := inserts
  obtain ⟨free, _⟩ := findFreeId_free finding
  obtain ⟨_, same, _⟩ := findFreeId_free finding
  have bounded : zfLogfIf (config.numClients ≤ c)
      "Client ID is greater than the number of clients registered" = .ok () :=
    zfLogfIf_ok.mpr (Nat.not_le.mpr small)
  have spec := found.socketTable.put_spec id memory.1
  generalize outcome : found.socketTable.put id memory.1 = result at spec
  cases spec with
  | failed refuses => exact absurd refuses made
  | kept _ _ _ _ crowded =>
    rw [same] at crowded room
    exact absurd (crowded (free.resolve_left nonzero)) room
  | @added table iter code kind absent bucket live key lookup made room =>
    have counts : ¬code = -1 ∧ ¬code = 0 := by rcases kind with rfl | rfl <;> decide
    have added : zfLogfIf (code = 0)
        "Tried to replace an entry in the socket table for client" = .ok () :=
      zfLogfIf_ok.mpr counts.2
    refine ⟨id, found, { found with socketTable := table.setVal iter record }, iter, finding,
      nonzero, ⟨absent, made, room, ?_, rfl, rfl, bucket, live, key, ?_⟩, ?_⟩
    · rw [outcome]
    · rw [Table.lookup_setVal bucket live, lookup, key, Function.update_idem]
    · rw [clientPutSocket, bounded]
      simp only [bind, Except.bind, finding]
      rw [if_neg nonzero, outcome]
      dsimp only
      rw [if_neg counts.1, added]
      dsimp only
      rw [Server.setClient_setSocketTable]

/-- The checks before the bucket is deleted. -/
def Client.Passes (client : Client) (fd : UInt32) : Prop :=
  client.socketTable.get fd ≠ client.socketTable.last ∧
    (fd.toNat = client.socketTable.last ∨ client.socketTable.InFlags fd.toNat)

structure Replacement (s after : Server) (c : Nat) (record p : Ptr) (old : Socket)
    (entered : Client) : Prop where
  sockets : after.sockets = Function.update s.sockets c
    (entered.socketTable.del old.socketFd.toUInt32.toNat).lookup
  address : after.address = Function.update s.address old.socket (some record)
  events : after.events = Function.update s.events c
    (Function.update (s.events c) old.socketFd.toUInt32 none)
  records : after.records = Function.update s.records p none
  journal : after.journal = s.journal

theorem replacement {entered : Client} {table : Table int64HashFunc Ptr} {x : Nat}
    (set : entered.socketEventSet = (s.clients c).socketEventSet)
    (address : (table.setVal x record).lookup =
      Function.update s.address old.socket (some record)) :
    Replacement s ((((s.setClient c entered).setSocketAddrTable table).invalidated c p
      old.socketFd).setSocketAddrTable (table.setVal x record)) c record p old entered := by
  obtain ⟨sockets, _, events, records, _⟩ := invalidated_spec
    ((s.setClient c entered).setSocketAddrTable table) c p old.socketFd
  have own : ((s.setClient c entered).setSocketAddrTable table).clients c = entered :=
    Function.update_self _ _ _
  refine ⟨?_, address, ?_, records, dropEvent_journal _ _ _⟩
  · refine sockets.trans ?_
    rw [own]
    funext d fd
    by_cases here : d = c
    · rw [here, Function.update_self, Function.update_self]
    · simp [Function.update_of_ne here, Server.sockets, Server.setClient]
  · refine events.trans ?_
    have kept : ((s.setClient c entered).setSocketAddrTable table).events = s.events := by
      funext d fd
      by_cases here : d = c
      · subst here
        simp [Server.events, Server.setClient, Server.setSocketAddrTable, set]
      · simp [Server.events, Server.setClient, Server.setSocketAddrTable,
          Function.update_of_ne here]
    rw [kept]

theorem clientPutSocket_replaces {memory : Bool × Bool} (small : c < config.numClients)
    (inserts : s.Inserts c memory) (held : s.records record = some new)
    (registered : s.address new.socket = some p) (live : s.records p = some old)
    (same : old.socket = new.socket) :
    ∃ id found entered iter, findFreeId (s.clients c) = .ok (id, found) ∧ id ≠ 0 ∧
      Numbered found record id memory.1 entered iter ∧
      (∀ after ret, clientPutSocket config s c record memory = .ok (after, ret) →
        entered.Passes old.socketFd.toUInt32 ∧ ret = id.toInt32 ∧
          Replacement s after c record p old entered) ∧
      (entered.Passes old.socketFd.toUInt32 →
        ∃ after, clientPutSocket config s c record memory = .ok (after, id.toInt32)) := by
  have made : ¬s.socketAddrTable.Refuses memory.2 := by
    obtain ⟨_, _, _, _, _, _, made⟩ := inserts
    exact made
  obtain ⟨id, found, entered, iter, finding, nonzero, numbered, putting⟩ :=
    clientPutSocket_numbered record small inserts
  have set : entered.socketEventSet = (s.clients c).socketEventSet :=
    numbered.set.trans (findFreeId_free finding).2.2
  obtain ⟨table, x, _, address, put⟩ := putSocketAddr_reused (s := s.setClient c entered) (c := c)
    iter id held registered made
  rw [← same] at address
  have own : ((s.setClient c entered).setSocketAddrTable table).clients c = entered :=
    Function.update_self _ _ _
  have settles : ∀ settled, invalidateOld ((s.setClient c entered).setSocketAddrTable table) c p
      new.socket = .ok settled ↔ entered.Passes old.socketFd.toUInt32 ∧
        settled = ((s.setClient c entered).setSocketAddrTable table).invalidated c p
          old.socketFd := by
    intro settled
    have live : ((s.setClient c entered).setSocketAddrTable table).records p = some old := live
    rw [invalidateOld_iff live same, own, Client.Passes, and_assoc]
  have table' : (((s.setClient c entered).setSocketAddrTable table).invalidated c p
      old.socketFd).socketAddrTable = table := by
    rw [Server.invalidated, dropEvent_eq]
    rfl
  refine ⟨id, found, entered, iter, finding, nonzero, numbered, fun after ret done => ?_,
    fun passes => ?_⟩
  · rw [putting, put] at done
    obtain ⟨settled, settle, done⟩ := bind_ok.mp done
    obtain ⟨rfl, rfl⟩ := pair_ok.mp done
    obtain ⟨passes, rfl⟩ := (settles settled).mp settle
    rw [table']
    exact ⟨passes, rfl, replacement set address⟩
  · rw [putting, put]
    exact ⟨_, bind_ok.mpr ⟨_, (settles _).mpr ⟨passes, rfl⟩, rfl⟩⟩

structure Registration (s : Server) (a p : Ptr) (old : Socket) : Prop where
  address : s.address a = some p
  live : s.records p = some old
  socket : old.socket = a
  entry : s.sockets old.clientId old.socketFd.toUInt32 = some p
  alone : ∀ d k, s.sockets d k = some p → d = old.clientId ∧ k = old.socketFd.toUInt32
  only : ∀ b, s.address b = some p → b = a

theorem Tied.registration {valid : Int32 → Prop} (tied : Tied config valid s.books) {a : Ptr}
    (address : s.address a = some p) (live : s.records p = some old) : Registration s a p old := by
  have plain : s.books.records p = some old.plain := by simp [Server.books, live]
  obtain ⟨socket, alive, there, entry⟩ := tied.address a p address
  obtain rfl := Option.some.inj (plain.symm.trans alive)
  refine ⟨address, live, there, entry, fun d k held => tied.place held entry, fun b held => ?_⟩
  obtain ⟨socket, alive, here, _⟩ := tied.address b p held
  obtain rfl := Option.some.inj (plain.symm.trans alive)
  exact here.symm.trans there

structure Swapped (s after : Server) (c : Nat) (a record p : Ptr) (id : UInt32) (old : Socket) :
    Prop where
  different : old.socketFd.toUInt32 ≠ id
  sockets : after.sockets = Function.update s.sockets c
    (Function.update (Function.update (s.sockets c) id (some record)) old.socketFd.toUInt32 none)
  address : after.address = Function.update s.address a (some record)
  events : after.events = Function.update s.events c
    (Function.update (s.events c) old.socketFd.toUInt32 none)
  records : after.records = Function.update s.records p none

theorem Registration.entered {a : Ptr} (registration : Registration s a p old)
    (owner : old.clientId = c) {found entered : Client} {id : UInt32} {memory : Bool} {iter : Nat}
    (numbered : Numbered found record id memory entered iter)
    (own : found.socketTable.lookup = s.sockets c) :
    old.socketFd.toUInt32 ≠ id ∧
      entered.socketTable.lookup old.socketFd.toUInt32 = some p := by
  have entry := registration.entry
  rw [owner] at entry
  have different : old.socketFd.toUInt32 ≠ id := by
    intro same
    have free := numbered.absent
    rw [own, ← same, entry] at free
    cases free
  refine ⟨different, ?_⟩
  rw [numbered.lookup, Function.update_of_ne different, own, entry]

theorem Replaceable.swaps {a : Ptr} {memory : Bool × Bool}
    (replaceable : Replaceable s c old memory.1) (registration : Registration s a p old)
    (small : c < config.numClients) (inserts : s.Inserts c memory)
    (held : s.records record = some new) (address : new.socket = a) :
    ∃ id after, (∃ found, findFreeId (s.clients c) = .ok (id, found)) ∧ id ≠ 0 ∧
      s.sockets c id = none ∧
      clientPutSocket config s c record memory = .ok (after, id.toInt32) ∧
      Swapped s after c a record p id old := by
  obtain ⟨owner, inPlace, idle⟩ := replaceable
  obtain ⟨id, found, entered, iter, finding, nonzero, numbered, returns, succeeds⟩ :=
    clientPutSocket_replaces small inserts held (address ▸ registration.address)
      registration.live (registration.socket.trans address.symm)
  have own : found.socketTable.lookup = s.sockets c := by
    rw [(findFreeId_free finding).2.1]
    rfl
  obtain ⟨different, present⟩ := registration.entered owner numbered own
  have get : entered.socketTable.get old.socketFd.toUInt32 = old.socketFd.toUInt32.toNat := by
    rw [numbered.table, Table.get_setVal]
    exact inPlace id found finding
  have there : entered.socketTable.get old.socketFd.toUInt32 ≠ entered.socketTable.last :=
    (Table.lookup_eq_some.mp present).1
  have within : entered.socketTable.InFlags old.socketFd.toUInt32.toNat := by
    rw [← get]
    exact Table.inFlags_of_lt (Table.get_exist there).1
  obtain ⟨after, done⟩ := succeeds ⟨there, .inr within⟩
  obtain ⟨_, _, replacement⟩ := returns after _ done
  refine ⟨id, after, ⟨found, finding⟩, nonzero, own ▸ numbered.absent, done, different, ?_, ?_,
    replacement.events, replacement.records⟩
  · rw [replacement.sockets, ← get, Table.lookup_del_get there, numbered.lookup, own]
  · rw [replacement.address, registration.socket]

section
variable {t : Server} (filled : FilledIn s t record new)
include filled

theorem FilledIn.registration {a : Ptr} (registration : Registration s a p old)
    (dead : s.records record = none) : Registration t a p old where
  address := filled.address ▸ registration.address
  live := filled.others dead registration.live
  socket := registration.socket
  entry := filled.sockets ▸ registration.entry
  alone := filled.sockets ▸ registration.alone
  only := filled.address ▸ registration.only

theorem FilledIn.inserts {memory : Bool × Bool} : t.Inserts c memory ↔ s.Inserts c memory := by
  rw [Server.Inserts, Server.Inserts, filled.clients, filled.table]

theorem FilledIn.replaceable {memory : Bool} (replaceable : Replaceable s c old memory) :
    Replaceable t c old memory :=
  ⟨replaceable.owner, filled.clients ▸ replaceable.bucket, replaceable.idle⟩

end

theorem Swapped.replaced {a : Ptr} {id : UInt32} {memory : Bool} {t : Server}
    (swapped : Swapped t after c a record p id old) (filled : FilledIn s t record new)
    (registration : Registration s a p old) (dead : s.records record = none)
    (replaceable : Replaceable s c old memory) : Replaced s after c a record p old id.toInt32 := by
  have owner := replaceable.owner
  have other : p ≠ record := by
    rintro rfl
    rw [registration.live] at dead
    cases dead
  have sockets := swapped.sockets
  have events := swapped.events
  have address := swapped.address
  rw [filled.sockets] at sockets
  rw [filled.events] at events
  rw [filled.address] at address
  refine ⟨?_, ?_, ?_, ?_, ?_, ?_, ⟨?_, ?_⟩, ?_⟩
  · rw [sockets, owner, Function.update_self, Function.update_self]
  · rw [events, owner, Function.update_self, Function.update_self]
  · intro d k elsewhere new
    rw [UInt32.toUInt32_toInt32] at new
    rw [sockets]
    by_cases here : d = c
    · subst here
      rw [Function.update_self, Function.update_of_ne fun same => elsewhere ⟨owner.symm, same⟩,
        Function.update_of_ne fun same => new ⟨rfl, same⟩]
    · rw [Function.update_of_ne here]
  · intro d k elsewhere
    rw [events, entry_update, if_neg]
    exact fun same => elsewhere ⟨same.1.trans owner.symm, same.2⟩
  · rw [sockets, UInt32.toUInt32_toInt32, Function.update_self,
      Function.update_of_ne swapped.different.symm, Function.update_self]
  · rw [address, Function.update_self]
  · intro d k entry
    rw [sockets] at entry
    by_cases here : d = c
    · subst here
      rw [Function.update_self] at entry
      by_cases gone : k = old.socketFd.toUInt32
      · rw [gone, Function.update_self] at entry
        cases entry
      · rw [Function.update_of_ne gone] at entry
        by_cases fresh : k = id
        · rw [fresh, Function.update_self] at entry
          exact other (Option.some.inj entry).symm
        · rw [Function.update_of_ne fresh] at entry
          exact gone (registration.alone d k entry).2
    · rw [Function.update_of_ne here] at entry
      exact here ((registration.alone d k entry).1.trans owner)
  · intro b entry
    rw [address] at entry
    by_cases here : b = a
    · rw [here, Function.update_self] at entry
      exact other (Option.some.inj entry).symm
    · rw [Function.update_of_ne here] at entry
      exact here (registration.only b entry)
  · intro async dir msg transport waits
    rw [replaceable.idle async transport dir] at waits
    cases waits

/-- `client_put_socket` puts a new socket in the place of an old one exactly if the old one can be
replaced. -/
theorem replaces_iff {a : Ptr} {protocol : Protocol} {memory : Bool × Bool}
    (small : c < config.numClients) (registration : Registration s a p old)
    (dead : s.records record = none) (inserts : s.Inserts c memory) :
    (∃ after ret, clientPutSocket config (s.filled c record a protocol) c record memory =
        .ok (after, ret) ∧ Replaced s after c a record p old ret) ↔
      Replaceable s c old memory.1 := by
  have filled : FilledIn s (s.filled c record a protocol) record ⟨protocol, c, 0, a, 0, none⟩ :=
    ⟨rfl, rfl, rfl⟩
  constructor
  · rintro ⟨after, ret, done, replaced⟩
    obtain ⟨id, found, entered, iter, finding, nonzero, numbered, returns, _⟩ :=
      clientPutSocket_replaces small (filled.inserts.mpr inserts) filled.held registration.address
        (filled.others dead registration.live) registration.socket
    obtain ⟨_, rfl, replacement⟩ := returns after ret done
    have own : found.socketTable.lookup = s.sockets c := by
      rw [(findFreeId_free finding).2.1]
      rfl
    have gone := replaced.gone
    rw [replacement.sockets] at gone
    have owner : old.clientId = c := by
      by_contra foreign
      rw [Function.update_of_ne foreign] at gone
      exact absurd (registration.entry.symm.trans gone) (Option.some_ne_none p)
    rw [owner, Function.update_self, Table.lookup_del_eq_none, numbered.table,
      Table.get_setVal] at gone
    · refine ⟨owner, fun id' found' finding' => ?_, fun async transport dir => ?_⟩
      · obtain ⟨rfl, rfl⟩ := Prod.mk.inj (Except.ok.inj (finding.symm.trans finding'))
        exact gone
      · -- nothing is completed, so nothing may wait
        by_contra some
        obtain ⟨msg, first⟩ := Option.ne_none_iff_exists'.mp some
        have waits : s.Waits (async.pending dir).queue msg := first ▸ .first
        obtain ⟨_, _, _, member⟩ := replaced.completed async dir msg transport waits
        rw [replacement.journal] at member
        have none : (s.filled c record a protocol).journal.drop s.journal.length = [] :=
          List.drop_length
        rw [none] at member
        cases member
    · rw [(registration.entered owner numbered own).2]
      exact Option.some_ne_none p
  · intro replaceable
    obtain ⟨id, after, _, _, _, done, swapped⟩ := (filled.replaceable replaceable).swaps
      (filled.registration registration dead) small (filled.inserts.mpr inserts) filled.held rfl
    exact ⟨after, _, done, swapped.replaced filled registration dead replaceable⟩

/-! ## Runs -/

def Books.without (s : Books) (c : Nat) (fd : UInt32) (p socket : Ptr) : Books where
  sockets := Function.update s.sockets c (Function.update (s.sockets c) fd none)
  address := Function.update s.address socket none
  events := Function.update s.events c (Function.update (s.events c) fd none)
  bump := s.bump
  records := Function.update s.records p none

theorem Tied.swap {valid : Int32 → Prop} {s after : Books} (tied : Tied config valid s)
    {id fd : UInt32} {fresh : Socket} (client : c < config.numClients)
    (held : s.sockets c fd = some p) (live : s.records p = some old) (nonnull : old.socket ≠ 0)
    (dead : s.records record = none) (free : s.sockets c id = none) (number : valid id.toInt32)
    (key : fresh.key = (c, id.toInt32, old.socket))
    (sockets : after.sockets = Function.update s.sockets c
      (Function.update (Function.update (s.sockets c) id (some record)) fd none))
    (address : after.address = Function.update s.address old.socket (some record))
    (events : after.events = Function.update s.events c (Function.update (s.events c) fd none))
    (records : after.records =
      Function.update (Function.update s.records p none) record (some fresh)) :
    Tied config valid after := by
  have different : fd ≠ id := by
    rintro rfl
    rw [free] at held
    cases held
  have dropped : Tied config valid (s.without c fd p old.socket) :=
    tied.delete held live rfl rfl rfl rfl
  have other : record ≠ p := by
    rintro rfl
    rw [dead] at live
    cases live
  refine dropped.enter client ?_ nonnull ?_ ?_ number key ?_ ?_ events records
  · exact (Function.update_of_ne other _ _).trans dead
  · exact Function.update_self _ _ _
  · dsimp only [Books.without]
    rw [Function.update_self, Function.update_of_ne different.symm, free]
  · dsimp only [Books.without]
    rw [sockets, Function.update_self, Function.update_idem, Function.update_comm different]
  · dsimp only [Books.without]
    rw [address, Function.update_idem]

abbrev Server.Consistent (config : Config) (s : Server) : Prop :=
  Tied config (fun _ => True) s.books

/-- What the registration of a new socket has to meet: the id does not read as an error, and a socket
that it replaces can be replaced. -/
structure Registrable (s : Server) (c : Nat) (a : Ptr) (memory : Bool × Bool) : Prop where
  id : ∀ id found, findFreeId (s.clients c) = .ok (id, found) → id.toInt32 ≠ -1
  replaces : ∀ p old, s.address a = some p → s.records p = some old → s.Inserts c memory →
    Replaceable s c old memory.1

section
variable {t put : Server} {fresh : Socket} (filled : FilledIn s t record new)
include filled

/-- When nothing is entered the record is freed again. -/
theorem FilledIn.undone (tied : s.Consistent config) (dead : s.records record = none)
    (sockets : put.sockets = s.sockets) (address : put.address = s.address)
    (events : put.events = s.events) (kept : put.records = t.records) :
    (put.free record).Consistent config := by
  have same : SameEntries s.books (put.free record).books := ⟨sockets, address, events⟩
  exact tied.congr same fun q => by simp only [Server.books, filled.freed dead kept]

theorem FilledIn.entered {id : UInt32} (tied : s.Consistent config)
    (dead : s.records record = none) (small : new.clientId < config.numClients)
    (nonnull : new.socket ≠ 0) (unregistered : s.address new.socket = none)
    (free : s.sockets new.clientId id = none)
    (sockets : put.sockets = Function.update s.sockets new.clientId
      (Function.update (s.sockets new.clientId) id (some record)))
    (address : put.address = Function.update s.address new.socket (some record))
    (events : put.events = s.events) (kept : put.records = t.records)
    (read : put.records record = some fresh) :
    (put.setRecord record { fresh with socketFd := id.toInt32 }).Consistent config := by
  rw [kept, filled.held] at read
  obtain rfl := Option.some.inj read
  have gone : s.books.records record = none := by simp [Server.books, dead]
  exact tied.enter small gone nonnull unregistered free trivial rfl sockets address events
    (books_records (filled.recorded kept))

theorem FilledIn.swapped {id : UInt32} (tied : s.Consistent config)
    (dead : s.records record = none) (small : new.clientId < config.numClients)
    (nonnull : new.socket ≠ 0) (registration : Registration s new.socket p old)
    (owner : old.clientId = new.clientId) (free : s.sockets new.clientId id = none)
    (swapped : Swapped t put new.clientId new.socket record p id old)
    (read : put.records record = some fresh) :
    (put.setRecord record { fresh with socketFd := id.toInt32 }).Consistent config := by
  obtain ⟨_, sockets, address, events, records⟩ := swapped
  have other : record ≠ p := by
    rintro rfl
    rw [registration.live] at dead
    cases dead
  rw [records, Function.update_of_ne other, filled.held] at read
  obtain rfl := Option.some.inj read
  have held : s.books.sockets new.clientId old.socketFd.toUInt32 = some p :=
    owner ▸ registration.entry
  have live : s.books.records p = some old.plain := by simp [Server.books, registration.live]
  have gone : s.books.records record = none := by simp [Server.books, dead]
  have cleared : (s.free p).records = Function.update s.records p none := rfl
  have recorded : (put.setRecord record { new with socketFd := id.toInt32 }).records =
      Function.update (s.free p).records record (some { new with socketFd := id.toInt32 }) := by
    change Function.update put.records record _ = _
    rw [cleared, records, filled.records, Function.update_comm other, Function.update_idem]
  have final := books_records recorded
  rw [books_records cleared] at final
  have socket : old.plain.socket = new.socket := registration.socket
  rw [filled.sockets] at sockets
  rw [filled.address] at address
  rw [filled.events] at events
  refine tied.swap small held live ?_ gone free trivial ?_ sockets ?_ events final
  · rw [socket]
    exact nonnull
  · rw [socket]
    rfl
  · rw [socket]
    exact address

end

section
variable {found entered : Client} {id : UInt32} {memory : Bool} {iter : Nat}
  (numbered : Numbered found record id memory entered iter)
include numbered

theorem Numbered.sockets_setClient (own : found.socketTable.lookup = s.sockets c) :
    (s.setClient c entered).sockets =
      Function.update s.sockets c (Function.update (s.sockets c) id (some record)) := by
  rw [Server.sockets_setClient, numbered.lookup, own]

theorem Numbered.events_setClient
    (set : found.socketEventSet = (s.clients c).socketEventSet) :
    (s.setClient c entered).events = s.events := by
  rw [Server.events_setClient, numbered.set, set]
  exact Function.update_eq_self c s.events

theorem Numbered.sockets_del (own : found.socketTable.lookup = s.sockets c) :
    Function.update (s.setClient c entered).sockets c
      (((s.setClient c entered).clients c).socketTable.del iter).lookup = s.sockets := by
  have cell : (s.setClient c entered).clients c = entered := Function.update_self _ _ _
  rw [numbered.sockets_setClient own, Function.update_idem, cell, numbered.lookup_del, own,
    Function.update_eq_self]

end

theorem putNewSocket_consistent {a : Ptr} {protocol : Protocol} {memory : Bool × Bool}
    {ret : Int32} (tied : s.Consistent config) (dead : s.records record = none) (nonnull : a ≠ 0)
    (well : Registrable s c a memory)
    (done : putNewSocket config s c record a protocol memory = .ok (after, ret)) :
    after.Consistent config := by
  obtain ⟨t, put, number, filled, putting, ending⟩ := putNewSocket_cases done
  have undone : put.sockets = s.sockets → put.address = s.address → put.events = s.events →
      put.records = t.records → number = -1 → after.Consistent config := by
    intro sockets address events kept failed
    obtain ⟨_, _, rfl⟩ := ending.resolve_right fun other => other.1 failed
    exact filled.undone tied dead sockets address events kept
  have whole := putting
  obtain ⟨small, id, found, finding, outcome⟩ := clientPutSocket_cases putting
  obtain ⟨_, socketTable, eventSet⟩ := findFreeId_free finding
  have own : found.socketTable.lookup = t.sockets c := by
    rw [socketTable]
    rfl
  rcases outcome with ⟨failed, rfl⟩ | ⟨nonzero, entered, iter, numbered, putting⟩
  · refine undone ?_ filled.address ?_ rfl failed
    · rw [Server.sockets_setClient, own, Function.update_eq_self, filled.sockets]
    · rw [Server.events_setClient, eventSet, ← filled.events]
      exact Function.update_eq_self c t.events
  · have deleted := (numbered.sockets_del own).trans filled.sockets
    have quiet := (numbered.events_setClient eventSet).trans filled.events
    have free : s.sockets c id = none := by
      rw [← filled.sockets, ← own]
      exact numbered.absent
    have named := well.id id found (filled.clients ▸ finding)
    cases registered : s.address a with
    | none =>
      have unregistered : (t.setClient c entered).address a = none := by
        rw [← registered, ← filled.address]
        rfl
      obtain ⟨kept, _, events, outcome⟩ := putSocketAddr_spec (s := t.setClient c entered)
        filled.held unregistered (filled.addressed tied.addressed dead) putting
      rcases outcome with ⟨failed, address, sockets⟩ | ⟨rfl, sockets, address⟩
      · exact undone (sockets.trans deleted) (address.trans filled.address) (events.trans quiet)
          kept failed
      · obtain ⟨_, _, fresh, read, rfl⟩ := ending.resolve_left fun failed => named failed.1
        refine filled.entered tied dead small nonnull registered free ?_ ?_ (events.trans quiet)
          kept read
        · rw [sockets, numbered.sockets_setClient own, filled.sockets]
        · rw [← filled.address]
          exact address
    | some p =>
      obtain ⟨_, alive, _⟩ := tied.address a p registered
      obtain ⟨old, live, rfl⟩ := Option.map_eq_some_iff.mp alive
      have registration := tied.registration registered live
      obtain ⟨_, _, outcome⟩ := putSocketAddr_cases putting
      rcases outcome with ⟨failed, rfl⟩ | ⟨rfl, made, _⟩
      · refine undone ?_ filled.address ?_ rfl failed
        · rw [Server.sockets_setSocketTable]
          exact deleted
        · rw [Server.events_setSocketTable, quiet]
      · have inserts : t.Inserts c memory :=
          ⟨id, found, finding, nonzero, numbered.made, numbered.room, made⟩
        have replaceable := well.replaces p old registered live (filled.inserts.mp inserts)
        obtain ⟨_, _, ⟨_, finding'⟩, _, _, done', swapped⟩ :=
          (filled.replaceable replaceable).swaps (filled.registration registration dead) small
            inserts filled.held rfl
        obtain ⟨rfl, _⟩ := Prod.mk.inj (Except.ok.inj (finding.symm.trans finding'))
        obtain ⟨rfl, _⟩ := Prod.mk.inj (Except.ok.inj (whole.symm.trans done'))
        obtain ⟨_, _, fresh, read, rfl⟩ := ending.resolve_left fun failed => named failed.1
        exact filled.swapped tied dead small nonnull registration replaceable.owner free swapped
          read

def Server.registers (s : Server) : Event → Option (Nat × Ptr × Bool × Bool)
  | .control client (.open _ (some _) socket memory) =>
    if socket = 0 then none else some (client, socket, memory)
  | .control client (.accept socketFd socket _ _ (some _) memory) =>
    if socket = 0 ∨ serverControlCommon s client socketFd = none then none
    else some (client, socket, memory)
  | _ => none

def Server.RegistersWell (s : Server) (event : Event) : Prop :=
  ∀ c a memory, s.registers event = some (c, a, memory) → Registrable s c a memory

theorem Tied.of_books {valid : Int32 → Prop} (tied : Tied config valid s.books)
    (same : after.books = s.books) : Tied config valid after.books := same ▸ tied

theorem picoControlOpen_consistent {isUdp : Bool} {record : Option Ptr} {socket : Ptr}
    {memory : Bool × Bool} {reply : Reply} (tied : s.Consistent config)
    (client : ∀ d, clientCheck config s = .ok d → d = c)
    (dead : ∀ p ∈ record, s.records p = none)
    (well : s.RegistersWell (.control c (.open isUdp record socket memory)))
    (done : picoControlOpen config s isUdp record socket memory = .ok (after, reply)) :
    after.Consistent config := by
  obtain ⟨clientId, checked, done⟩ := bind_ok.mp done
  obtain rfl := client clientId checked
  cases record with
  | none =>
    obtain ⟨rfl, _⟩ := pair_ok.mp done
    exact tied
  | some p =>
    dsimp only at done
    split at done
    · obtain ⟨rfl, _⟩ := pair_ok.mp done
      exact tied
    · next nonnull =>
      obtain ⟨⟨put, ret⟩, putting, done⟩ := bind_ok.mp done
      obtain ⟨rfl, _⟩ := pair_ok.mp done
      exact putNewSocket_consistent tied (dead p rfl) nonnull
        (well clientId socket memory (if_neg nonnull)) putting

theorem picoControlAccept_consistent {socketFd : Int32} {socket : Ptr} {peerAddr : UInt32}
    {remotePort : UInt16} {record : Option Ptr} {memory : Bool × Bool} {reply : Reply}
    (tied : s.Consistent config) (client : ∀ d, clientCheck config s = .ok d → d = c)
    (dead : ∀ p ∈ record, s.records p = none)
    (well : s.RegistersWell
      (.control c (.accept socketFd socket peerAddr remotePort record memory)))
    (done : picoControlAccept config s socketFd socket peerAddr remotePort record memory =
      .ok (after, reply)) : after.Consistent config := by
  obtain ⟨clientId, checked, done⟩ := bind_ok.mp done
  obtain rfl := client clientId checked
  split at done
  · obtain ⟨rfl, _⟩ := pair_ok.mp done
    exact tied
  · next listener found =>
    obtain ⟨_, _, done⟩ := bind_ok.mp done
    split at done
    · obtain ⟨rfl, _⟩ := pair_ok.mp done
      exact tied
    · next nonnull =>
      cases record with
      | none =>
        obtain ⟨rfl, _⟩ := pair_ok.mp done
        exact tied
      | some p =>
        obtain ⟨⟨put, ret⟩, putting, done⟩ := bind_ok.mp done
        have called : s.registers (.control clientId
            (.accept socketFd socket peerAddr remotePort (some p) memory)) =
            some (clientId, socket, memory) := by
          refine if_neg ?_
          rintro (null | missing)
          · exact nonnull null
          · rw [found] at missing
            cases missing
        have kept := putNewSocket_consistent tied (dead p rfl) nonnull
          (well clientId socket memory called) putting
        dsimp only at done
        split at done
        · obtain ⟨rfl, _⟩ := pair_ok.mp done
          exact kept
        · obtain ⟨rfl, _⟩ := pair_ok.mp done
          exact kept

theorem BooksStep.consistent {opener : Option Nat} (tied : s.Consistent config)
    (step : BooksStep config s.books after.books opener) (none : opener = none) :
    after.Consistent config := by
  subst none
  exact step.tied tied nofun nofun

theorem step_consistent (valid : config.Valid) (tied : s.Consistent config)
    (zero : ∀ c, s.sockets c 0 = none) {event : Event} {reply : Reply}
    (allowed : s.permits config event) (well : s.RegistersWell event)
    (done : s.step config event = .ok (after, reply)) : after.Consistent config := by
  cases event with
  | control client call =>
    have done : controlHandleMessage config s client call = .ok (after, reply) := done
    rw [controlHandleMessage.eq_def] at done
    have check := fun d => clientCheck_control (s := s) (d := d) valid allowed.1
    generalize called : { s with controlBadge := enumerateBadge config.controlBadges client } = s'
      at done check
    have books : s'.books = s.books := by rw [← called]; rfl
    have records : s'.records = s.records := by rw [← called]
    have tied' : s'.Consistent config := tied.of_books books
    have well' : s'.RegistersWell (.control client call) := by
      rw [← called]
      intro c a memory registers
      obtain ⟨id, replaces⟩ := well c a memory registers
      exact ⟨id, fun p old entry live inserts =>
        ⟨(replaces p old entry live inserts).owner, (replaces p old entry live inserts).bucket,
          (replaces p old entry live inserts).idle⟩⟩
    cases call with
    | «open» => exact picoControlOpen_consistent tied' check (records ▸ allowed.2) well' done
    | accept => exact picoControlAccept_consistent tied' check (records ▸ allowed.2) well' done
    | close => exact (picoControlClose_books done).step.consistent tied' rfl
    | setAsync => exact tied'.of_books (picoControlSetAsync_books done)
    | eventPoll =>
      obtain ⟨clientId, _, done⟩ := bind_ok.mp done
      obtain ⟨⟨polled, event⟩, polling, done⟩ := bind_ok.mp done
      obtain ⟨rfl, rfl⟩ := pair_ok.mp done
      have none : s'.events clientId 0 = none := by
        by_contra pending
        apply tied'.events clientId 0 pending
        rw [books]
        exact zero clientId
      exact BooksStep.consistent tied' (clientGetEvent_books none polling) rfl
    | stack => exact tied'.of_books (picoControlStack_books done)
    | getIpv4 device =>
      cases device with
      | none | some =>
        obtain ⟨rfl, _⟩ := pair_ok.mp done
        exact tied'
  | callback =>
    obtain ⟨_, called, done⟩ := bind_ok.mp done
    obtain ⟨rfl, rfl⟩ := pair_ok.mp done
    exact (socketCb_books called).step.consistent tied rfl
  | putEvent =>
    obtain ⟨⟨_, _⟩, putting, done⟩ := bind_ok.mp done
    obtain ⟨rfl, rfl⟩ := pair_ok.mp done
    exact (clientPutEvent_books putting).step.consistent tied rfl
  | communicate | irq | notify | submit | collect =>
    exact tied.of_books (quiet_books rfl done)

/-- The tables agree in every state of a run that registers its sockets well. -/
theorem run_consistent {msgs : Ptr → Msg} {trace : List (Event × Reply)} {final : Server}
    (valid : config.Valid) (run : (machine config).Run (.init msgs) trace final)
    (every : (machine config).EveryStep (.init msgs) trace Server.RegistersWell) :
    final.Consistent config := by
  have both : final.Consistent config ∧ (machine config).Run (.init msgs) trace final := by
    apply every.history run
    · exact ⟨⟨nofun, nofun, fun c fd held => absurd (init_events msgs c fd) held⟩, .start⟩
    · intro trace before event after reply ⟨tied, run⟩ allowed well step
      refine ⟨?_, run.next allowed step⟩
      exact step_consistent valid tied (fun c => (run_counted valid run c).zero) allowed well
        (machine_step.mp step)
  exact both.1

/-- In every state of a run that has registered its sockets well: a new socket takes the place of an old
one at the same address exactly if the old one can be replaced. -/
theorem address_reuse_iff {msgs : Ptr → Msg} {trace : List (Event × Reply)} {a : Ptr}
    {protocol : Protocol} {memory : Bool × Bool} (valid : config.Valid)
    (run : (machine config).Run (.init msgs) trace s)
    (every : (machine config).EveryStep (.init msgs) trace Server.RegistersWell)
    (small : c < config.numClients) (registered : s.address a = some p)
    (live : s.records p = some old) (dead : s.records record = none)
    (inserts : s.Inserts c memory) :
    (∃ after ret, clientPutSocket config (s.filled c record a protocol) c record memory =
        .ok (after, ret) ∧ Replaced s after c a record p old ret) ↔
      Replaceable s c old memory.1 := by
  have tied := run_consistent valid run every
  exact replaces_iff small (tied.registration registered live) dead inserts

end

/-! ## One address for two sockets -/

structure OneOpen (s : Server) : Prop where
  run : ∃ trace, (machine twoClients).Run (.init fun _ => blankMsg) trace s ∧
    (machine twoClients).EveryStep (.init fun _ => blankMsg) trace Server.RegistersWell
  address : s.address 0x2000 = some 0x1000
  live : s.records 0x1000 = some ⟨.tcp, 0, 1, 0x2000, 0, none⟩
  dead : s.records 0x1100 = none
  usable : ∀ c < 2, s.sockets c (s.bump c) = none ∧ s.bump c ≠ 0 ∧
    (s.clients c).socketTable.last < 2 ^ 27
  inPlace : ((s.clients 0).socketTable.put (s.bump 0) true).1.get 1 = 1
  /-- What becomes of a socket that client 1 opens at the same address. -/
  foreign : ∃ after, clientPutSocket twoClients (s.filled 1 0x1100 0x2000 .tcp) 1 0x1100
    (true, true) = .ok (after, 1) ∧ after.sockets 1 1 = none ∧ after.sockets 0 1 = some 0x1000 ∧
      after.records 0x1000 = none

theorem exists_oneOpen : ∃ s, OneOpen s := by
  have evaluated : ((machine twoClients).step (.init fun _ => blankMsg)
      (.control 0 (.open false (some 0x1000) 0x2000 (true, true)))).any (fun opened =>
        opened.1.address 0x2000 = some 0x1000 ∧
        opened.1.records 0x1000 = some ⟨.tcp, 0, 1, 0x2000, 0, none⟩ ∧
        opened.1.records 0x1100 = none ∧
        (∀ c < 2, opened.1.sockets c (opened.1.bump c) = none ∧ opened.1.bump c ≠ 0 ∧
          (opened.1.clients c).socketTable.last < 2 ^ 27) ∧
        ((opened.1.clients 0).socketTable.put (opened.1.bump 0) true).1.get 1 = 1 ∧
        (clientPutSocket twoClients (opened.1.filled 1 0x1100 0x2000 .tcp) 1 0x1100
          (true, true)).toOption.any (fun put => put.2 = 1 ∧ put.1.sockets 1 1 = none ∧
            put.1.sockets 0 1 = some 0x1000 ∧ put.1.records 0x1000 = none)) = true := by
    decide +kernel
  obtain ⟨⟨s, reply⟩, step, facts⟩ := (Option.any_eq_true _ _).mp evaluated
  obtain ⟨address, live, dead, usable, inPlace, foreign⟩ := of_decide_eq_true facts
  obtain ⟨⟨after, ret⟩, done, outcome⟩ := (Option.any_eq_true _ _).mp foreign
  obtain ⟨rfl, dropped⟩ := of_decide_eq_true outcome
  have permitted : (machine twoClients).allowed (.init fun _ => blankMsg)
      (.control 0 (.open false (some 0x1000) 0x2000 (true, true))) :=
    ⟨by decide, fun _ _ => rfl⟩
  have run := Machine.Run.start.next permitted step
  have well : (Server.init fun _ => blankMsg).RegistersWell
      (.control 0 (.open false (some 0x1000) 0x2000 (true, true))) := by
    rintro c a memory registers
    cases registers
    refine ⟨fun id found finding => ?_, fun p old entry => by cases entry⟩
    have first : findFreeId (Client.init) = .ok (1, { Client.init with bumpIndex := 2 }) := rfl
    obtain ⟨rfl, _⟩ := Prod.mk.inj (Except.ok.inj (first.symm.trans finding))
    decide
  refine ⟨s, ⟨_, run, Machine.EveryStep.start.next .start well⟩, address, live, dead, usable,
    inPlace, after, ?_, dropped⟩
  cases here : clientPutSocket twoClients (s.filled 1 0x1100 0x2000 .tcp) 1 0x1100 (true, true) with
  | error => simp [here, Except.toOption] at done
  | ok result =>
    rw [here] at done
    exact congrArg Except.ok (Option.some.inj done)

theorem OneOpen.inserts {s : Server} (opened : OneOpen s) {c : Nat} (client : c < 2) :
    s.Inserts c (true, true) := by
  obtain ⟨free, nonzero, small⟩ := opened.usable c client
  refine ⟨_, _, findFreeId_of_lookup free, nonzero, Table.not_refuses _, ?_, Table.not_refuses _⟩
  exact fun crowded => absurd crowded.1 (Nat.not_le.mpr small)

/-- Client 0 opens its second socket at the address of the first. -/
theorem address_reuse_own : ∃ trace s after ret,
    (machine twoClients).Run (.init fun _ => blankMsg) trace s ∧
      clientPutSocket twoClients (s.filled 0 0x1100 0x2000 .tcp) 0 0x1100 (true, true) =
        .ok (after, ret) ∧
      Replaced s after 0 0x2000 0x1100 0x1000 ⟨.tcp, 0, 1, 0x2000, 0, none⟩ ret := by
  obtain ⟨s, opened⟩ := exists_oneOpen
  obtain ⟨trace, run, every⟩ := opened.run
  obtain ⟨free, _⟩ := opened.usable 0 (by decide)
  have replaceable : Replaceable s 0 ⟨.tcp, 0, 1, 0x2000, 0, none⟩ true := by
    refine ⟨rfl, fun id found finding => ?_, nofun⟩
    obtain ⟨rfl, rfl⟩ := Prod.mk.inj (Except.ok.inj ((findFreeId_of_lookup free).symm.trans finding))
    exact opened.inPlace
  obtain ⟨after, ret, replaced⟩ := (address_reuse_iff twoClients_valid run every (by decide)
    opened.address opened.live opened.dead (opened.inserts (by decide))).mpr replaceable
  exact ⟨trace, s, after, ret, run, replaced⟩

/-- Client 1 opens a socket at the address of client 0. The new socket is dropped at once, and the old fd
is left with a record that is freed. -/
theorem address_reuse_drops_new : ∃ trace s,
    (machine twoClients).Run (.init fun _ => blankMsg) trace s ∧
      s.address 0x2000 = some 0x1000 ∧
      s.records 0x1000 = some ⟨.tcp, 0, 1, 0x2000, 0, none⟩ ∧ s.records 0x1100 = none ∧
      s.Inserts 1 (true, true) ∧
      ¬∃ after ret, clientPutSocket twoClients (s.filled 1 0x1100 0x2000 .tcp) 1 0x1100
          (true, true) = .ok (after, ret) ∧
        Replaced s after 1 0x2000 0x1100 0x1000 ⟨.tcp, 0, 1, 0x2000, 0, none⟩ ret := by
  obtain ⟨s, opened⟩ := exists_oneOpen
  obtain ⟨trace, run, _⟩ := opened.run
  refine ⟨trace, s, run, opened.address, opened.live, opened.dead, opened.inserts (by decide), ?_⟩
  rintro ⟨after, ret, done, replaced⟩
  obtain ⟨after', done', gone, _⟩ := opened.foreign
  obtain ⟨rfl, rfl⟩ := Prod.mk.inj (Except.ok.inj (done.symm.trans done'))
  exact absurd (replaced.entered.symm.trans gone) (Option.some_ne_none _)

end GlobalComponents.PicoServer
