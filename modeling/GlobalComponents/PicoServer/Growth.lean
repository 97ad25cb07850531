import GlobalComponents.PicoServer.Tables

/-! How the tables grow, and when calls succeed.

A table that is only ever filled stays at `2 ^ 27` buckets, because `COMPUTE_SIZE` overflows for more. A
table with many deleted buckets still grows when it is resized.
-/

set_option autoImplicit false

namespace GlobalComponents.PicoServer

open Library Library.Slots

namespace Khash

variable {K V : Type} {hash : K → UInt32} {h room : Khash K V} {memory : Bool}

theorem computeSize_27 : computeSize (2 ^ 27) = 103347651 := by decide +kernel

theorem computeSize_28 : computeSize (2 ^ 28) = 72477573 := by decide +kernel

/-- `kh_put` never shrinks a table. -/
theorem makeRoom_grows (wf : Wf hash h) (made : h.makeRoom hash memory = some room) :
    h.nBuckets ≤ room.nBuckets := by
  rcases makeRoom_asks wf made with ⟨_, rfl⟩ | ⟨_, j, asks, _, _, outcome⟩
  · exact le_rfl
  · rcases outcome with ⟨_, rfl⟩ | ⟨fits, buckets, _⟩
    · exact le_rfl
    · rw [buckets]
      cases asks with
      | fresh none => omega
      | same size => exact size.le
      | @double k size => rw [size, pow_succ]; omega
      | last size half =>
        have := computeSize_lt 2 (by decide) le_rfl
        omega

/-- A table of `2 ^ 27` buckets with enough deleted ones among them grows. -/
theorem makeRoom_stretches (wf : Wf hash h) (made : h.makeRoom hash memory = some room)
    (size : h.nBuckets = 2 ^ 27) (worn : h.upperBound ≤ h.nOccupied) (half : 2 ^ 26 ≤ h.size)
    (few : h.size < computeSize (2 ^ 28)) : room.nBuckets = 2 ^ 28 := by
  rcases makeRoom_asks wf made with ⟨_, _⟩ | ⟨_, j, asks, _, _, outcome⟩
  · omega
  · cases asks with
    | fresh | last => omega
    | same size' loose =>
      rw [computeSize_28] at few
      omega
    | @double k size' =>
      obtain rfl : k = 27 := Nat.pow_right_injective le_rfl (size'.symm.trans size)
      rcases outcome with ⟨cramped, _⟩ | ⟨_, buckets, _⟩
      · exact absurd few (Nat.not_lt.mpr cramped)
      · exact buckets

/-- A table without deleted buckets does not grow beyond `2 ^ 27` buckets. -/
theorem makeRoom_dense (wf : Wf hash h) (made : h.makeRoom hash memory = some room)
    (dense : h.nOccupied ≤ h.size) (most : h.nBuckets ≤ 2 ^ 27) :
    room.nOccupied ≤ room.size ∧ room.nBuckets ≤ 2 ^ 27 := by
  obtain ⟨wf', entries, _⟩ := makeRoom_wf wf made
  have same : room.size = h.size := by rw [wf'.count, entries, wf.count]
  rcases makeRoom_asks wf made with ⟨_, rfl⟩ | ⟨full, j, asks, _, _, outcome⟩
  · exact ⟨dense, most⟩
  · rcases outcome with ⟨_, rfl⟩ | ⟨fits, buckets, occupied⟩
    · exact ⟨dense, most⟩
    · refine ⟨by omega, ?_⟩
      rw [buckets]
      cases asks with
      | fresh | last => decide
      | same size => omega
      | @double k size =>
        by_contra large
        obtain rfl : k = 27 := by
          apply le_antisymm
          · exact (Nat.pow_le_pow_iff_right Nat.one_lt_two).mp (size ▸ most)
          · rw [pow_succ, not_le] at large
            by_contra short
            have : 2 ^ k ≤ 2 ^ 26 := Nat.pow_le_pow_right (by omega) (by omega)
            omega
        have bound := wf.bound
        rw [size, computeSize_27] at bound
        rw [computeSize_28] at fits
        omega

theorem makeRoom_memory (h : Khash K V) : ∃ room, h.makeRoom hash true = some room := by
  have resized : ∀ n, ∃ room, h.resize hash n true = some room := by
    intro n
    unfold resize
    dsimp only
    generalize (if (kroundup32 (UInt32.ofNat n)).toNat < 4 then 4
      else (kroundup32 (UInt32.ofNat n)).toNat) = rounded
    split
    · exact ⟨h, rfl⟩
    · exact ⟨_, rfl⟩
  rw [makeRoom]
  split
  · split
    · exact resized _
    · exact resized _
  · exact ⟨h, rfl⟩

variable [DecidableEq K]

theorem put_made (key : K) (made : h.makeRoom hash memory = some room) :
    (h.put hash key memory).1.nBuckets = room.nBuckets ∧
      (room.nOccupied ≤ room.size →
        (h.put hash key memory).1.nOccupied ≤ (h.put hash key memory).1.size) := by
  rw [put, made]
  dsimp only
  split
  · exact ⟨rfl, Nat.succ_le_succ⟩
  · split
    · exact ⟨rfl, Nat.le_succ_of_le⟩
    · exact ⟨rfl, id⟩

end Khash

namespace Table

variable {K V : Type} {hash : K → UInt32} {t other : Table hash V} {k : K} {v : V}

def Worn (t : Table hash V) : Prop :=
  2 ^ 28 ≤ t.last ∨ t.last = 2 ^ 27 ∧ t.table.upperBound ≤ t.table.nOccupied

def Dense (t : Table hash V) : Prop := t.table.nOccupied ≤ t.size ∧ t.last ≤ 2 ^ 27

theorem worn_del {x : Nat} (worn : t.Worn) : (t.del x).Worn := by
  have same : (t.del x).table.upperBound = t.table.upperBound ∧
      (t.del x).table.nOccupied = t.table.nOccupied := by
    rw [del]
    dsimp only
    rw [Khash.del]
    split <;> exact ⟨rfl, rfl⟩
  rw [Worn, del_last, same.1, same.2]
  exact worn

theorem worn_of_size (large : computeSize (2 ^ 27) ≤ t.size) : t.Worn := by
  have most := t.wf.size_le_nBuckets
  have least := t.wf.size_le
  have bound := t.wf.bound
  rw [Khash.computeSize_27] at large
  have large : 103347651 ≤ t.table.size := large
  rcases t.wf.shape with ⟨none, _⟩ | ⟨k, low, high, size⟩
  · omega
  · have many : 27 ≤ k := by
      by_contra short
      have : 2 ^ k ≤ 2 ^ 26 := Nat.pow_le_pow_right (by omega) (by omega)
      omega
    by_cases here : k = 27
    · subst here
      refine .inr ⟨size, ?_⟩
      rw [bound, size, Khash.computeSize_27]
      omega
    · left
      rw [last, size]
      exact Nat.pow_le_pow_right (by omega) (by omega)

theorem dense_init [Inhabited K] [Inhabited V] : (init : Table hash V).Dense :=
  ⟨le_rfl, Nat.zero_le _⟩

theorem Dense.crowded (dense : t.Dense) (size : t.size = 2 ^ 27) : t.Crowded := by
  have most : t.size ≤ t.last := t.wf.size_le_nBuckets
  have few := dense.2
  exact ⟨by omega, by omega⟩

theorem not_crowded_of_size (few : t.size < 2 ^ 27) : ¬t.Crowded := by
  rintro ⟨large, full⟩
  omega

theorem not_refuses (t : Table hash V) : ¬t.Refuses true := by
  obtain ⟨_, made⟩ := t.table.makeRoom_memory
  exact fun refuses => absurd (made.symm.trans refuses) (Option.some_ne_none _)

section
variable [DecidableEq K]

theorem put_grows (t : Table hash V) (k : K) : t.last ≤ (t.put k true).1.last := by
  obtain ⟨room, made⟩ := t.table.makeRoom_memory
  calc
    t.last ≤ room.nBuckets := Khash.makeRoom_grows t.wf made
    _ = (t.put k true).1.last := (Khash.put_made k made).1.symm

theorem Worn.put (worn : t.Worn) (half : 2 ^ 26 ≤ t.size) (few : t.size < computeSize (2 ^ 28)) :
    2 ^ 28 ≤ (t.put k true).1.last := by
  obtain ⟨room, made⟩ := t.table.makeRoom_memory
  rcases worn with large | ⟨size, worn⟩
  · exact large.trans (put_grows t k)
  · rw [← Khash.makeRoom_stretches t.wf made size worn half few]
    exact (Khash.put_made k made).1.ge

theorem Dense.put (dense : t.Dense) : (t.put k true).1.Dense := by
  obtain ⟨room, made⟩ := t.table.makeRoom_memory
  obtain ⟨occupied, buckets⟩ := Khash.makeRoom_dense t.wf made dense.1 dense.2
  obtain ⟨same, rest⟩ := Khash.put_made k made
  exact ⟨rest occupied, same.trans_le buckets⟩

end

end Table

/-! ## Calls that succeed -/

section
variable {config : Config} {s : Server} {c : Nat} {record : Ptr}

theorem table_put {K V : Type} [DecidableEq K] {hash : K → UInt32} (t : Table hash V) (k : K) :
    ¬(t.put k true).2.2 = -1 ∧
      (t.lookup k = none → ¬t.Crowded → ¬(t.put k true).2.2 = 0) := by
  have spec := t.put_spec k true
  generalize t.put k true = result at spec
  cases spec with
  | failed refuses => exact absurd refuses t.not_refuses
  | kept _ _ _ _ crowded => exact ⟨by simp, fun absent room => absurd (crowded absent) room⟩
  | added kind => rcases kind with rfl | rfl <;> exact ⟨by simp, fun _ _ => by simp⟩

structure Enters (s after : Server) (c : Nat) (record socket : Ptr) : Prop where
  table : ∃ x v, (after.clients c).socketTable =
    ((s.clients c).socketTable.put (s.bump c) true).1.setVal x v
  set : (after.clients c).socketEventSet = (s.clients c).socketEventSet
  addrTable : ∃ x v, after.socketAddrTable = (s.socketAddrTable.put socket true).1.setVal x v
  sockets : after.sockets =
    Function.update s.sockets c (Function.update (s.sockets c) (s.bump c) (some record))
  address : after.address = Function.update s.address socket (some record)
  bump : after.bump = Function.update s.bump c (s.bump c + 1)

theorem Registered.entered_of {after : Server} {socket : Ptr} {ret : Int32}
    (registered : Registered s c record socket after ret) (real : ret ≠ -1) :
    after.sockets =
        Function.update s.sockets c (Function.update (s.sockets c) (s.bump c) (some record)) ∧
      after.address = Function.update s.address socket (some record) := by
  cases registered with
  | failed => exact absurd rfl real
  | entered sockets address => exact ⟨sockets, address⟩

structure Usable (s : Server) (c : Nat) : Prop where
  free : s.sockets c (s.bump c) = none
  nonzero : s.bump c ≠ 0
  real : (s.bump c).toInt32 ≠ -1

theorem Ready.usable (ready : Ready s c) : Usable s c where
  free := ready.free
  nonzero := by
    intro zero
    have positive := ready.positive
    rw [zero] at positive
    exact absurd positive (by decide)
  real := by
    intro same
    have positive := ready.toInt32
    rw [same] at positive
    exact absurd positive (by decide)

theorem Server.Addressed.setRecord (addressed : s.Addressed) (dead : s.records record = none)
    (new : Socket) : (s.setRecord record new).Addressed := by
  intro a p entry
  obtain ⟨old, held, there⟩ := addressed a p entry
  refine ⟨old, ?_, there⟩
  change Function.update s.records record _ p = _
  rw [Function.update_of_ne, held]
  rintro rfl
  rw [dead] at held
  cases held

theorem putSocketAddr_ok {new : Socket} (c iter : Nat) (freeId : UInt32)
    (held : s.records record = some new) (fresh : s.address new.socket = none)
    (room : ¬s.socketAddrTable.Crowded) :
    ∃ after, putSocketAddr s c record iter freeId true = .ok (after, freeId.toInt32) ∧
      after.clients = s.clients ∧ after.records = s.records ∧
      ∃ x v, after.socketAddrTable = (s.socketAddrTable.put new.socket true).1.setVal x v := by
  obtain ⟨new1, new0⟩ := table_put s.socketAddrTable new.socket
  have new0 := new0 fresh room
  rw [putSocketAddr, Server.deref_ok.mpr held]
  simp only [bind, Except.bind]
  rw [if_neg new1, if_neg new0]
  exact ⟨_, rfl, rfl, rfl, _, record, rfl⟩

theorem clientPutSocket_ok {new : Socket} (client : c < config.numClients)
    (held : s.records record = some new) (fresh : s.address new.socket = none)
    (addressed : s.Addressed) (usable : Usable s c)
    (room : ¬(s.clients c).socketTable.Crowded) (room' : ¬s.socketAddrTable.Crowded) :
    ∃ after, clientPutSocket config s c record (true, true) = .ok (after, (s.bump c).toInt32) ∧
      after.records = s.records ∧ Enters s after c record new.socket := by
  obtain ⟨new1, new0⟩ := table_put (s.clients c).socketTable (s.bump c)
  have new0 := new0 usable.free room
  have bounded : zfLogfIf (config.numClients ≤ c)
      "Client ID is greater than the number of clients registered" = .ok () :=
    zfLogfIf_ok.mpr (Nat.not_le.mpr client)
  have added : zfLogfIf (((s.clients c).socketTable.put (s.clients c).bumpIndex true).2.2 = 0)
      "Tried to replace an entry in the socket table for client" = .ok () := zfLogfIf_ok.mpr new0
  generalize bumped : s.setClient c { s.clients c with bumpIndex := s.bump c + 1 } = s'
  generalize entering : s'.setSocketTable c
    (((s.clients c).socketTable.put (s.bump c) true).1.setVal
      ((s.clients c).socketTable.put (s.bump c) true).2.1 record) = entered
  obtain ⟨after, done, clients, records, addresses⟩ := putSocketAddr_ok c
    ((s.clients c).socketTable.put (s.bump c) true).2.1 (s.bump c)
    (show entered.records record = some new by rw [← entering, ← bumped]; exact held)
    (show entered.address new.socket = none by rw [← entering, ← bumped]; exact fresh)
    (show ¬entered.socketAddrTable.Crowded by rw [← entering, ← bumped]; exact room')
  have done : clientPutSocket config s c record (true, true) =
      .ok (after, (s.bump c).toInt32) := by
    have nonzero : ¬(s.clients c).bumpIndex = 0 := usable.nonzero
    change ¬((s.clients c).socketTable.put (s.clients c).bumpIndex true).2.2 = -1 at new1
    rw [clientPutSocket, bounded, findFreeId_of_lookup usable.free]
    simp only [bind, Except.bind]
    rw [if_neg nonzero, if_neg new1, added]
    rw [← entering, ← bumped] at done
    exact done
  obtain ⟨_, bump, registered⟩ :=
    clientPutSocket_spec held fresh addressed usable.free usable.nonzero done
  obtain ⟨sockets, address⟩ := registered.entered_of usable.real
  refine ⟨after, done, by rw [records, ← entering, ← bumped]; rfl, ?_, ?_, ?_, sockets, address,
    bump⟩
  · rw [clients, ← entering, ← bumped]
    exact ⟨((s.clients c).socketTable.put (s.bump c) true).2.1, record, by
      simp [Server.setSocketTable, Server.setClient]⟩
  · rw [clients, ← entering, ← bumped]
    simp [Server.setSocketTable, Server.setClient]
  · obtain ⟨x, v, same⟩ := addresses
    refine ⟨x, v, ?_⟩
    rw [same, ← entering, ← bumped]
    rfl

theorem putNewSocket_ok (client : c < config.numClients) (addressed : s.Addressed)
    (usable : Usable s c) {socket : Ptr} {protocol : Protocol} (dead : s.records record = none)
    (fresh : s.address socket = none) (room : ¬(s.clients c).socketTable.Crowded)
    (room' : ¬s.socketAddrTable.Crowded) :
    ∃ after, putNewSocket config s c record socket protocol (true, true) =
        .ok (after, (s.bump c).toInt32) ∧ Enters s after c record socket ∧
      after.records = Function.update s.records record
        (some ⟨protocol, c, (s.bump c).toInt32, socket, 0, none⟩) := by
  generalize born : (s.setRecord record ⟨protocol, c, 0, socket, 0, none⟩).note
    (.born record protocol) = s'
  have live : s'.records record = some ⟨protocol, c, 0, socket, 0, none⟩ := by
    rw [← born]
    exact Function.update_self _ _ _
  have addressed : s'.Addressed := by
    rw [← born]
    exact addressed.setRecord dead _
  obtain ⟨put, putting, records, enters⟩ : ∃ put, clientPutSocket config s' c record (true, true) =
      .ok (put, (s'.bump c).toInt32) ∧ put.records = s'.records ∧ Enters s' put c record socket :=
    clientPutSocket_ok client live
    (by rw [← born]; exact fresh) addressed
    (by rw [← born]; exact ⟨usable.free, usable.nonzero, usable.real⟩)
    (by rw [← born]; exact room) (by rw [← born]; exact room')
  have live' : put.deref record = .ok ⟨protocol, c, 0, socket, 0, none⟩ :=
    Server.deref_ok.mpr (records ▸ live)
  refine ⟨put.setRecord record ⟨protocol, c, (s.bump c).toInt32, socket, 0, none⟩, ?_, ?_, ?_⟩
  · have bump : s'.bump c = s.bump c := by rw [← born]; rfl
    rw [putNewSocket, born, putting]
    simp only [bind, Except.bind]
    rw [bump, if_neg usable.real, live']
    rfl
  · rw [← born] at enters
    exact ⟨enters.table, enters.set, enters.addrTable, enters.sockets, enters.address,
      enters.bump⟩
  · change Function.update put.records record _ = _
    rw [records, ← born]
    exact Function.update_idem _ _ _

theorem open_ok (valid : config.Valid) (client : c < config.numClients)
    (addressed : s.Addressed) (usable : Usable s c) {isUdp : Bool} {socket : Ptr}
    (dead : s.records record = none) (nonnull : socket ≠ 0) (fresh : s.address socket = none)
    (room : ¬(s.clients c).socketTable.Crowded) (room' : ¬s.socketAddrTable.Crowded) :
    ∃ after, s.step config (.control c (.open isUdp (some record) socket (true, true))) =
        .ok (after, .int (s.bump c).toInt32) ∧ Enters s after c record socket ∧
      after.records = Function.update s.records record
        (some ⟨if isUdp then .udp else .tcp, c, (s.bump c).toInt32, socket, 0, none⟩) := by
  generalize called : { s with controlBadge := enumerateBadge config.controlBadges c } = s'
  have check : clientCheck config s' = .ok c :=
    (clientCheck_spec valid).mpr ⟨client, by rw [← called]⟩
  have usable' : Usable s' c := by
    rw [← called]
    exact ⟨usable.free, usable.nonzero, usable.real⟩
  obtain ⟨after, done, enters, records⟩ : ∃ after, putNewSocket config s' c record socket
      (if isUdp then .udp else .tcp) (true, true) = .ok (after, (s'.bump c).toInt32) ∧
      Enters s' after c record socket ∧ after.records = Function.update s'.records record _ :=
    putNewSocket_ok client
    (show s'.Addressed by rw [← called]; exact addressed) usable'
    (by rw [← called]; exact dead) (by rw [← called]; exact fresh)
    (by rw [← called]; exact room) (by rw [← called]; exact room')
  refine ⟨after, ?_, ?_, ?_⟩
  · have same : s.step config (.control c (.open isUdp (some record) socket (true, true))) =
        picoControlOpen config s' isUdp (some record) socket (true, true) := by
      rw [← called]
      rfl
    rw [same, picoControlOpen, check]
    simp only [bind, Except.bind]
    rw [if_neg nonnull, done, ← called]
    rfl
  · rw [← called] at enters
    exact ⟨enters.table, enters.set, enters.addrTable, enters.sockets, enters.address,
      enters.bump⟩
  · rw [records, ← called]
    rfl

structure Leaves (s after : Server) (c : Nat) (fd : UInt32) (record socket : Ptr) : Prop where
  table : ∃ x, (after.clients c).socketTable = (s.clients c).socketTable.del x
  set : s.events c fd = none →
    (after.clients c).socketEventSet = (s.clients c).socketEventSet
  addrTable : ∃ x, after.socketAddrTable = s.socketAddrTable.del x
  sockets : after.sockets = Function.update s.sockets c (Function.update (s.sockets c) fd none)
  address : after.address = Function.update s.address socket none
  bump : after.bump = s.bump
  records : after.records = Function.update s.records record none

theorem dropEvent_none {fd : Int32} (none : s.events c fd.toUInt32 = none) :
    dropEvent s c fd = s := by
  have missing : (s.clients c).socketEventSet.get fd.toUInt32 = (s.clients c).socketEventSet.last :=
    Table.lookup_eq_none.mp none
  rw [dropEvent, if_neg (not_not.mpr missing)]

theorem dropEvent_tables {fd : Int32} :
    ((dropEvent s c fd).clients c).socketTable = (s.clients c).socketTable ∧
      (dropEvent s c fd).socketAddrTable = s.socketAddrTable := by
  rw [dropEvent]
  split
  · simp [Server.setSocketEventSet, Server.setClient]
  · exact ⟨rfl, rfl⟩

theorem clientDeleteSocket_ok {fd : Int32} {socket : Socket}
    (held : s.sockets c fd.toUInt32 = some record) (live : s.records record = some socket)
    (registered : s.address socket.socket ≠ none) :
    ∃ after, clientDeleteSocket s c fd = .ok (after, 0) ∧
      Leaves s after c fd.toUInt32 record socket.socket := by
  obtain ⟨found, here⟩ := Table.lookup_eq_some.mp held
  have entry : zfLogfIf (s.socketAddrTable.get socket.socket = s.socketAddrTable.last)
      "Corresponding entry in the socket address table doesn't exist!" = .ok () :=
    zfLogfIf_ok.mpr fun missing => registered (Table.lookup_eq_none.mpr missing)
  generalize deleted : ((s.free record).setSocketTable c ((s.clients c).socketTable.del
    ((s.clients c).socketTable.get fd.toUInt32))).setSocketAddrTable
    (s.socketAddrTable.del (s.socketAddrTable.get socket.socket)) = s'
  have done : clientDeleteSocket s c fd = .ok (dropEvent s' c fd, 0) := by
    rw [clientDeleteSocket, if_neg found, here]
    simp only [bind, Except.bind, Server.deref_ok.mpr live]
    rw [entry, ← deleted]
    rfl
  obtain ⟨sockets, addresses⟩ : ((dropEvent s' c fd).clients c).socketTable = _ ∧ _ :=
    dropEvent_tables
  have table : (s'.clients c).socketTable = (s.clients c).socketTable.del
      ((s.clients c).socketTable.get fd.toUInt32) := by
    rw [← deleted]
    simp [Server.setSocketTable, Server.setSocketAddrTable, Server.setClient]
  rcases clientDeleteSocket_spec done with
    ⟨negative, _⟩ | ⟨_, p, old, held', live', sockets', address, _, records, bump⟩
  · exact absurd negative (by decide)
  obtain rfl := Option.some.inj (held.symm.trans held')
  obtain rfl := Option.some.inj (live.symm.trans live')
  refine ⟨_, done, ⟨_, sockets.trans table⟩, fun none => ?_,
    ⟨_, addresses.trans (by rw [← deleted]; rfl)⟩, sockets', address, bump, records⟩
  have quiet : s'.events c fd.toUInt32 = Option.none := by
    rw [← deleted]
    simpa using none
  rw [dropEvent_none quiet, ← deleted]
  simp [Server.setSocketTable, Server.setSocketAddrTable, Server.setClient, Server.free]

theorem close_ok (valid : config.Valid) (client : c < config.numClients) {fd : Int32}
    {socket : Socket} (positive : ¬fd < 0) (held : s.sockets c fd.toUInt32 = some record)
    (live : s.records record = some socket) (sync : socket.asyncTransport = none)
    (registered : s.address socket.socket ≠ none) :
    ∃ after, s.step config (.control c (.close fd)) = .ok (after, .int 0) ∧
      Leaves s after c fd.toUInt32 record socket.socket := by
  generalize called : { s with controlBadge := enumerateBadge config.controlBadges c } = s'
  have check : clientCheck config s' = .ok c :=
    (clientCheck_spec valid).mpr ⟨client, by rw [← called]⟩
  have held' : s'.sockets c fd.toUInt32 = some record := by rw [← called]; exact held
  have live' : s'.records record = some socket := by rw [← called]; exact live
  obtain ⟨after, done, leaves⟩ := clientDeleteSocket_ok held' live'
    (by rw [← called]; exact registered)
  refine ⟨after, ?_, ?_⟩
  · have same : s.step config (.control c (.close fd)) = picoControlClose config s' fd := by
      rw [← called]
      rfl
    have common : serverControlCommon s' c fd = some record := (if_neg positive).trans held'
    have cleaned : cleanupAsyncSocket config s' record = .ok s' := by
      rw [cleanupAsyncSocket, Server.deref_ok.mpr live']
      simp only [bind, Except.bind]
      rw [if_pos sync]
      rfl
    rw [same, picoControlClose, check]
    simp only [bind, Except.bind, common, cleaned, done]
    rfl
  · rw [← called] at leaves
    exact ⟨leaves.table, leaves.set, leaves.addrTable, leaves.sockets, leaves.address,
      leaves.bump, leaves.records⟩

structure Marks (s after : Server) (c : Nat) (fd : UInt32) : Prop where
  table : (after.clients c).socketTable = (s.clients c).socketTable
  set : (after.clients c).socketEventSet = ((s.clients c).socketEventSet.put fd true).1
  addrTable : after.socketAddrTable = s.socketAddrTable
  sockets : after.sockets = s.sockets
  bump : after.bump = s.bump

theorem putEvent_ok {fd : Int32} {socket : Socket} {ev : UInt16}
    (held : s.sockets c fd.toUInt32 = some record) (live : s.records record = some socket) :
    ∃ after, s.step config (.putEvent c fd ev true) = .ok (after, .int 0) ∧
      Marks s after c fd.toUInt32 ∧ after.records = Function.update s.records record
        (some { socket with events := socket.events ||| ev }) := by
  have found : clientGetSocket s c fd = some record := held
  have put : ∃ after, clientPutEvent s c fd ev true = .ok (after, 0) ∧
      Marks s after c fd.toUInt32 ∧ after.records = Function.update s.records record
        (some { socket with events := socket.events ||| ev }) := by
    rw [clientPutEvent, found]
    simp only [bind, Except.bind, Server.deref_ok.mpr live]
    have taken := (table_put (s.clients c).socketEventSet fd.toUInt32).1
    refine ⟨_, congrArg (fun ret => Except.ok (_, ret)) (if_neg taken),
      ⟨?_, ?_, rfl, by simp, by simp⟩, rfl⟩
    · simp [Server.setSocketEventSet, Server.setClient, Server.setRecord]
    · simp [Server.setSocketEventSet, Server.setClient, Server.setRecord]
  obtain ⟨after, done, marks, records⟩ := put
  refine ⟨after, ?_, marks, records⟩
  change (clientPutEvent s c fd ev true >>= _) = _
  rw [done]
  rfl

end

end GlobalComponents.PicoServer
