import GlobalComponents.PicoServer.EventPoll
import GlobalComponents.PicoServer.Growth

/-! A client with more sockets than its event set has room for.

The tables of sockets are full of deleted buckets when they are resized, and grow; the event set is only
filled, and does not.
-/

set_option autoImplicit false

namespace GlobalComponents.PicoServer

open Library

def recordAt (n : Nat) : Ptr := UInt64.ofNat (2 ^ 20 + 256 * n)

def socketAt (n : Nat) : Ptr := UInt64.ofNat (2 ^ 40 + 256 * n)

theorem toNat_spaced {base n : Nat} (low : base ≤ 2 ^ 40) (small : n < 2 ^ 31) :
    (UInt64.ofNat (base + 256 * n)).toNat = base + 256 * n :=
  UInt64.toNat_ofNat_of_lt' (by change _ < 2 ^ 64; omega)

theorem recordAt_inj {n m : Nat} (left : n < 2 ^ 31) (right : m < 2 ^ 31)
    (same : recordAt n = recordAt m) : n = m := by
  have same := congrArg UInt64.toNat same
  rw [recordAt, recordAt, toNat_spaced (by decide) left, toNat_spaced (by decide) right] at same
  omega

theorem socketAt_inj {n m : Nat} (left : n < 2 ^ 31) (right : m < 2 ^ 31)
    (same : socketAt n = socketAt m) : n = m := by
  have same := congrArg UInt64.toNat same
  rw [socketAt, socketAt, toNat_spaced le_rfl left, toNat_spaced le_rfl right] at same
  omega

theorem socketAt_nonnull {n : Nat} (small : n < 2 ^ 31) : socketAt n ≠ 0 := by
  intro zero
  have zero := congrArg UInt64.toNat zero
  rw [socketAt, toNat_spaced le_rfl small] at zero
  have : (0 : UInt64).toNat = 0 := rfl
  omega

def opening (n : Nat) : Event :=
  .control 0 (.open true (some (recordAt n)) (socketAt n) (true, true))

def closing (n : Nat) : Event := .control 0 (.close (UInt32.ofNat n).toInt32)

def marking (n : Nat) : Event := .putEvent 0 (UInt32.ofNat n).toInt32 4 true

/-- Client 0 has opened the sockets below `high` and closed those below `low`. -/
structure Filled (events : List Event) (s : Server) (low high : Nat)
    (set : Table intHashFunc Unit) : Prop where
  run : ∃ trace, (machine twoClients).Run (.init fun _ => blankMsg) trace s ∧
    (machine twoClients).EveryStep (.init fun _ => blankMsg) trace FreshAddress ∧
    trace.map Prod.fst = events ∧ ∀ c, opens c trace < high
  bump : (s.bump 0).toNat = high
  sockets : ∀ n, low ≤ n → n < high → s.sockets 0 (UInt32.ofNat n) = some (recordAt n)
  records : ∀ p socket, s.records p = some socket → ∃ n < high, p = recordAt n ∧
    socket.socket = socketAt n ∧ socket.asyncTransport = none
  set : (s.clients 0).socketEventSet = set
  table : (s.clients 0).socketTable.size + low = high
  addrTable : s.socketAddrTable.size + low = high

theorem Filled.invariant {events : List Event} {s : Server} {low high : Nat}
    {set : Table intHashFunc Unit} (filled : Filled events s low high set) (small : high < 2 ^ 30) :
    Agree twoClients s.books ∧ Ready s 0 := by
  obtain ⟨trace, run, fresh, _, few⟩ := filled.run
  have few' : ∀ c, opens c (trace ++ [(opening 0, Reply.none)]) < 2 ^ 31 - 1 := by
    intro c
    have := few c
    rw [opens_concat]
    split <;> omega
  have inv := run_books twoClients_valid run fresh fun c => lt_trans (few c) (by omega)
  exact ⟨inv.agree, inv.ready few' rfl⟩

theorem Filled.open {events : List Event} {s : Server} {low high : Nat}
    {set : Table intHashFunc Unit} (filled : Filled events s low high set) (small : high < 2 ^ 30)
    (room : ¬(s.clients 0).socketTable.Crowded) (room' : ¬s.socketAddrTable.Crowded) :
    ∃ after, Filled (events ++ [opening high]) after low (high + 1) set ∧
      Enters s after 0 (recordAt high) (socketAt high) := by
  obtain ⟨agree, ready⟩ := filled.invariant small
  obtain ⟨trace, run, fresh, names, few⟩ := filled.run
  -- record and address are those of no socket before
  have dead : s.records (recordAt high) = none := by
    by_contra some
    obtain ⟨socket, live⟩ := Option.ne_none_iff_exists'.mp some
    obtain ⟨n, less, same, _⟩ := filled.records _ _ live
    exact absurd (recordAt_inj (by omega) (by omega) same) (by omega)
  have unused : s.address (socketAt high) = none := by
    by_contra some
    obtain ⟨p, entry⟩ := Option.ne_none_iff_exists'.mp some
    obtain ⟨plain, alive, there, _⟩ := agree.address _ p entry
    obtain ⟨socket, live, rfl⟩ := Option.map_eq_some_iff.mp alive
    obtain ⟨n, less, _, same, _⟩ := filled.records _ _ live
    have there : socket.socket = socketAt high := there
    exact absurd (socketAt_inj (by omega) (by omega) (same.symm.trans there)) (by omega)
  obtain ⟨after, done, enters, records⟩ : ∃ after, s.step twoClients (opening high) =
      .ok (after, .int (s.bump 0).toInt32) ∧ Enters s after 0 (recordAt high) (socketAt high) ∧
        after.records = _ :=
    open_ok twoClients_valid (by decide) agree.addressed ready.usable dead
      (socketAt_nonnull (by omega)) unused room room'
  have next : s.bump 0 = UInt32.ofNat high := by
    rw [← filled.bump, UInt32.ofNat_toNat]
  have value : ∀ n < 2 ^ 31, (UInt32.ofNat n).toNat = n := fun n less =>
    UInt32.toNat_ofNat_of_lt' (lt_trans less (by decide))
  -- what remains is what the new entry adds to each clause
  refine ⟨after, ⟨⟨trace ++ [(opening high, .int (s.bump 0).toInt32)],
    run.next ⟨by decide, fun p here => by cases here; exact dead⟩ (machine_step.mpr done),
    fresh.next run unused, by rw [List.map_append, names]; rfl, ?_⟩, ?_, ?_, ?_, ?_, ?_, ?_⟩, enters⟩
  · intro c
    rw [opens_concat]
    have := few c
    split <;> omega
  · rw [enters.bump, Function.update_self, UInt32.toNat_add, filled.bump]
    exact Nat.mod_eq_of_lt (by change high + 1 < 2 ^ 32; omega)
  · intro n least less
    rw [enters.sockets, Function.update_self, next]
    by_cases here : n = high
    · rw [here, Function.update_self]
    · rw [Function.update_of_ne]
      · exact filled.sockets n least (by omega)
      · intro same
        have same := congrArg UInt32.toNat same
        rw [value n (by omega), value high (by omega)] at same
        exact here same
  · intro p socket live
    rw [records] at live
    by_cases here : p = recordAt high
    · subst here
      rw [Function.update_self] at live
      cases live
      exact ⟨high, Nat.lt_succ_self high, rfl, rfl, rfl⟩
    · rw [Function.update_of_ne here] at live
      obtain ⟨n, less, rest⟩ := filled.records p socket live
      exact ⟨n, by omega, rest⟩
  · rw [enters.set, filled.set]
  · have more : (after.clients 0).socketTable.size = (s.clients 0).socketTable.size + 1 :=
      Table.size_insert ready.free
        ((congrFun enters.sockets 0).trans (Function.update_self _ _ _))
    have := filled.table
    omega
  · have more : after.socketAddrTable.size = s.socketAddrTable.size + 1 :=
      Table.size_insert unused enters.address
    have := filled.addrTable
    omega

theorem toInt32_nonneg {n : Nat} (small : n < 2 ^ 31) : ¬(UInt32.ofNat n).toInt32 < 0 := by
  have value : (UInt32.ofNat n).toNat = n :=
    UInt32.toNat_ofNat_of_lt' (lt_trans small (by decide))
  have same : (UInt32.ofNat n).toInt32.toInt = (UInt32.ofNat n).toNat :=
    BitVec.toInt_eq_toNat_of_lt (x := (UInt32.ofNat n).toBitVec) (by
      change 2 * (UInt32.ofNat n).toNat < 2 ^ 32
      omega)
  rw [Int32.lt_iff_toInt_lt, same]
  exact Int.not_lt.mpr (Int.natCast_nonneg _)

theorem Filled.close {events : List Event} {s : Server} {low high : Nat}
    {set : Table intHashFunc Unit} (filled : Filled events s low high set) (small : high < 2 ^ 30)
    (some : low < high) (quiet : set.lookup (UInt32.ofNat low) = none) :
    ∃ after, Filled (events ++ [closing low]) after (low + 1) high set ∧
      Leaves s after 0 (UInt32.ofNat low) (recordAt low) (socketAt low) := by
  obtain ⟨agree, ready⟩ := filled.invariant small
  obtain ⟨trace, run, fresh, names, few⟩ := filled.run
  have held := filled.sockets low le_rfl some
  obtain ⟨_, plain, alive, _, _, _, _, registered⟩ := agree.sockets 0 _ _ held
  obtain ⟨socket, live, rfl⟩ := Option.map_eq_some_iff.mp alive
  obtain ⟨n, less, same, address, sync⟩ := filled.records _ _ live
  obtain rfl := recordAt_inj (by omega) (by omega) same
  have registered : s.address socket.socket = Option.some (recordAt low) := registered
  have held' : s.sockets 0 (UInt32.ofNat low).toInt32.toUInt32 = Option.some (recordAt low) := by
    rw [UInt32.toUInt32_toInt32]
    exact held
  obtain ⟨after, done, leaves⟩ : ∃ after, s.step twoClients (closing low) =
      .ok (after, .int 0) ∧ Leaves s after 0 _ (recordAt low) socket.socket :=
    close_ok twoClients_valid (by decide) (toInt32_nonneg (by omega)) held' live sync
      (by rw [registered]; exact Option.some_ne_none _)
  rw [UInt32.toUInt32_toInt32, address] at leaves
  have value : ∀ n < 2 ^ 31, (UInt32.ofNat n).toNat = n := fun n less =>
    UInt32.toNat_ofNat_of_lt' (lt_trans less (by decide))
  refine ⟨after, ⟨⟨trace ++ [(closing low, .int 0)],
    run.next ⟨by decide, trivial⟩ (machine_step.mpr done), fresh.next run trivial,
    by rw [List.map_append, names]; rfl, ?_⟩, ?_, ?_, ?_, ?_, ?_, ?_⟩, leaves⟩
  · intro c
    rw [opens_concat]
    exact few c
  · rw [leaves.bump, filled.bump]
  · intro n least less
    rw [leaves.sockets, Function.update_self, Function.update_of_ne]
    · exact filled.sockets n (by omega) less
    · intro same
      have same := congrArg UInt32.toNat same
      rw [value n (by omega), value low (by omega)] at same
      omega
  · intro p other live'
    rw [leaves.records] at live'
    by_cases here : p = recordAt low
    · subst here
      rw [Function.update_self] at live'
      cases live'
    · rw [Function.update_of_ne here] at live'
      exact filled.records p other live'
  · rw [leaves.set, filled.set]
    rw [Server.events, filled.set]
    exact quiet
  · have less : (after.clients 0).socketTable.size + 1 = (s.clients 0).socketTable.size :=
      Table.size_remove held ((congrFun leaves.sockets 0).trans (Function.update_self _ _ _))
    have := filled.table
    omega
  · have less : after.socketAddrTable.size + 1 = s.socketAddrTable.size :=
      Table.size_remove (address ▸ registered) leaves.address
    have := filled.addrTable
    omega

theorem Filled.mark {events : List Event} {s : Server} {low high n : Nat}
    {set : Table intHashFunc Unit} (filled : Filled events s low high set) (small : high < 2 ^ 30)
    (least : low ≤ n) (less : n < high) :
    ∃ after, s.step twoClients (marking n) = .ok (after, .int 0) ∧
      Filled (events ++ [marking n]) after low high (set.put (UInt32.ofNat n) true).1 := by
  obtain ⟨agree, ready⟩ := filled.invariant small
  obtain ⟨trace, run, fresh, names, few⟩ := filled.run
  have held := filled.sockets n least less
  obtain ⟨_, plain, alive, _⟩ := agree.sockets 0 _ _ held
  obtain ⟨socket, live, rfl⟩ := Option.map_eq_some_iff.mp alive
  have held' : s.sockets 0 (UInt32.ofNat n).toInt32.toUInt32 = some (recordAt n) := by
    rw [UInt32.toUInt32_toInt32]
    exact held
  obtain ⟨after, done, marks, records⟩ : ∃ after,
      s.step twoClients (marking n) = .ok (after, .int 0) ∧ Marks s after 0 _ ∧
        after.records = _ := putEvent_ok held' live
  rw [UInt32.toUInt32_toInt32] at marks
  refine ⟨after, done, ⟨trace ++ [(marking n, .int 0)],
    run.next (by decide : 0 < 2) (machine_step.mpr done), fresh.next run trivial,
    by rw [List.map_append, names]; rfl, ?_⟩, ?_, ?_, ?_, ?_, ?_, ?_⟩
  · intro c
    rw [opens_concat]
    exact few c
  · rw [marks.bump, filled.bump]
  · rw [marks.sockets]
    exact filled.sockets
  · intro p other live'
    rw [records] at live'
    by_cases here : p = recordAt n
    · subst here
      rw [Function.update_self] at live'
      cases live'
      exact filled.records _ socket live
    · rw [Function.update_of_ne here] at live'
      exact filled.records p other live'
  · rw [marks.set, filled.set]
  · rw [marks.table, filled.table]
  · rw [marks.addrTable, filled.addrTable]

/-- Both tables of sockets have outgrown `2 ^ 27` buckets. -/
def Roomy (s : Server) : Prop :=
  2 ^ 28 ≤ (s.clients 0).socketTable.last ∧ 2 ^ 28 ≤ s.socketAddrTable.last

def Worn (s : Server) : Prop := (s.clients 0).socketTable.Worn ∧ s.socketAddrTable.Worn

theorem Enters.roomy {s after : Server} {record socket : Ptr} (enters : Enters s after 0 record socket)
    (table : 2 ^ 28 ≤ ((s.clients 0).socketTable.put (s.bump 0) true).1.last)
    (addrTable : 2 ^ 28 ≤ (s.socketAddrTable.put socket true).1.last) : Roomy after := by
  obtain ⟨_, _, same⟩ := enters.table
  obtain ⟨_, _, same'⟩ := enters.addrTable
  rw [Roomy, same, same']
  exact ⟨table, addrTable⟩

section
variable {events : List Event} {s : Server} {low high : Nat} {set : Table intHashFunc Unit}

theorem Filled.fill (n : Nat) (filled : Filled events s low high set) (small : high + n ≤ 2 ^ 30)
    (room : high + n ≤ low + 2 ^ 27 ∨ Roomy s ∧ high + n ≤ low + 2 ^ 28) :
    ∃ after, Filled (events ++ (List.range' high n).map opening) after low (high + n) set ∧
      (Roomy s → Roomy after) := by
  -- socket by socket; the tables have room as long as their largest size is not reached
  induction n with
  | zero => exact ⟨s, by simpa using filled, id⟩
  | succ n ih =>
    obtain ⟨middle, filled', roomy⟩ := ih (by omega)
      (room.imp (fun few => by omega) fun few => ⟨few.1, by omega⟩)
    have size := filled'.table
    have size' := filled'.addrTable
    have free : ∀ {K V : Type} {hash : K → UInt32} (t : Table hash V), t.size + low = high + n →
        (Roomy s → 2 ^ 28 ≤ t.last) → ¬t.Crowded := by
      rintro K V hash t size large ⟨_, full⟩
      rcases room with few | ⟨roomy, few⟩
      · omega
      · have := large roomy
        omega
    obtain ⟨after, filled'', enters⟩ := filled'.open (by omega)
      (free _ size fun rest => (roomy rest).1) (free _ size' fun rest => (roomy rest).2)
    refine ⟨after, ?_, fun rest => ?_⟩
    · rw [List.range'_1_concat, List.map_append, ← List.append_assoc]
      exact filled''
    · obtain ⟨table, addrTable⟩ := roomy rest
      exact enters.roomy (table.trans (Table.put_grows _ _)) (addrTable.trans (Table.put_grows _ _))

theorem Filled.drain (n : Nat) (filled : Filled events s low high set) (small : high < 2 ^ 30)
    (some : low + n ≤ high) (quiet : ∀ fd, set.lookup fd = none) (worn : Worn s) :
    ∃ after, Filled (events ++ (List.range' low n).map closing) after (low + n) high set ∧
      Worn after := by
  induction n with
  | zero => exact ⟨s, by simpa using filled, worn⟩
  | succ n ih =>
    obtain ⟨middle, filled', worn', worn''⟩ := ih (by omega)
    obtain ⟨after, filled'', leaves⟩ := filled'.close small (by omega) (quiet _)
    refine ⟨after, ?_, ?_, ?_⟩
    · rw [List.range'_1_concat, List.map_append, ← List.append_assoc]
      exact filled''
    · obtain ⟨_, same⟩ := leaves.table
      rw [same]
      exact Table.worn_del worn'
    · obtain ⟨_, same⟩ := leaves.addrTable
      rw [same]
      exact Table.worn_del worn''

/-- Tables with many deleted buckets make room for more sockets than they have taken before. -/
theorem Filled.refill (n : Nat) (filled : Filled events s low high set)
    (small : high + 1 + n ≤ 2 ^ 30) (worn : Worn s) (half : low + 2 ^ 26 ≤ high)
    (few : high < low + 72477573) (room : high + 1 + n ≤ low + 2 ^ 28) :
    ∃ after, Filled (events ++ (List.range' high (n + 1)).map opening) after low (high + 1 + n)
      set := by
  have size := filled.table
  have size' := filled.addrTable
  obtain ⟨middle, filled', enters⟩ := filled.open (by omega)
    (Table.not_crowded_of_size (by omega)) (Table.not_crowded_of_size (by omega))
  have limit := Khash.computeSize_28
  have roomy := enters.roomy (worn.1.put (by omega) (by omega)) (worn.2.put (by omega) (by omega))
  obtain ⟨after, filled'', _⟩ := filled'.fill n (by omega) (.inr ⟨roomy, by omega⟩)
  rw [List.append_assoc] at filled''
  exact ⟨after, filled''⟩

theorem Filled.marks (n : Nat) (filled : Filled events s low high set) (small : high < 2 ^ 30)
    (some : low + n ≤ high) (few : n ≤ 2 ^ 27) (dense : set.Dense)
    (quiet : ∀ fd, set.lookup fd = none) (none : set.size = 0) :
    ∃ after marked, Filled (events ++ (List.range' low n).map marking) after low high marked ∧
      marked.Dense ∧ marked.size = n ∧
      ∀ k, low + n ≤ k → k < 2 ^ 30 → marked.lookup (UInt32.ofNat k) = Option.none := by
  induction n with
  | zero => exact ⟨s, set, by simpa using filled, dense, none, fun _ _ _ => quiet _⟩
  | succ n ih =>
    obtain ⟨middle, marked, filled', dense', size, absent⟩ := ih (by omega) (by omega)
    obtain ⟨after, _, filled''⟩ := filled'.mark small (n := low + n) (by omega) (by omega)
    have here := absent (low + n) le_rfl (by omega)
    have spec := marked.put_spec (UInt32.ofNat (low + n)) true
    have grown := dense'.put (k := UInt32.ofNat (low + n))
    generalize put : marked.put (UInt32.ofNat (low + n)) true = result at spec filled'' grown
    cases spec with
    | failed refuses => exact absurd refuses marked.not_refuses
    | kept _ _ _ _ crowded =>
      exact absurd (crowded here) (Table.not_crowded_of_size (by omega))
    | @added more x _ _ _ _ _ _ lookup =>
      refine ⟨after, more, ?_, grown, ?_, ?_⟩
      · rw [List.range'_1_concat, List.map_append, ← List.append_assoc]
        exact filled''
      · rw [Table.size_insert here lookup, size]
      · intro k beyond bound
        rw [lookup, Function.update_of_ne]
        · exact absent k (by omega) bound
        · intro same
          have same := congrArg UInt32.toNat same
          rw [UInt32.toNat_ofNat_of_lt' (by change k < 2 ^ 32; omega),
            UInt32.toNat_ofNat_of_lt' (by change low + n < 2 ^ 32; omega)] at same
          omega

end

theorem Filled.init : Filled [] (.init fun _ => blankMsg) 1 1 .init where
  run := ⟨[], .start, .start, rfl, fun _ => Nat.zero_lt_one⟩
  bump := rfl
  sockets n least less := absurd less (by omega)
  records p socket live := by cases live
  set := rfl
  table := rfl
  addrTable := rfl

/-- So many sockets are opened, the first of them are closed, more are opened, and then the first that
are open get events. -/
def crowding (opened closed more marked : Nat) : List Event :=
  (List.range' 1 opened).map opening ++ (List.range' 1 closed).map closing ++
    (List.range' (1 + opened) (more + 1)).map opening ++
    (List.range' (1 + closed) marked).map marking

/-- A client can fill its event set up and still have an open socket that is not in it. -/
theorem crowding_filled (opened closed more marked : Nat) (many : 103347651 ≤ opened)
    (most : opened ≤ 2 ^ 27) (half : closed + 2 ^ 26 ≤ opened) (few : opened < closed + 72477573)
    (full : marked = 2 ^ 27) (last : opened + more = closed + marked) :
    ∃ s set, Filled (crowding opened closed more marked) s (1 + closed) (1 + opened + 1 + more) set ∧
      set.Crowded ∧ set.lookup (UInt32.ofNat (1 + opened + more)) = none := by
  have quiet : ∀ fd, (Table.init : Table intHashFunc Unit).lookup fd = none := fun fd => rfl
  obtain ⟨first, filled, _⟩ := Filled.init.fill opened (by omega) (.inl (by omega))
  have size := filled.table
  have size' := filled.addrTable
  have limit := Khash.computeSize_27
  have worn : Worn first :=
    ⟨Table.worn_of_size (by omega), Table.worn_of_size (by omega)⟩
  obtain ⟨second, drained, worn⟩ := filled.drain closed (by omega) (by omega) quiet worn
  obtain ⟨third, refilled⟩ := drained.refill more (by omega) worn (by omega) (by omega) (by omega)
  obtain ⟨fourth, set, marks, dense, size, absent⟩ := refilled.marks marked (by omega) (by omega)
    (by omega) Table.dense_init quiet rfl
  refine ⟨fourth, set, marks, dense.crowded (size.trans full), absent _ (by omega) (by omega)⟩

theorem crowding_plain {opened closed more marked : Nat} :
    ∀ event ∈ crowding opened closed more marked, event.memory = true ∧ event.Masked := by
  intro event member
  simp only [crowding, List.mem_append, List.mem_map] at member
  rcases member with ((⟨n, _, rfl⟩ | ⟨n, _, rfl⟩) | ⟨n, _, rfl⟩) | ⟨n, _, rfl⟩
  · exact ⟨rfl, trivial⟩
  · exact ⟨rfl, trivial⟩
  · exact ⟨rfl, trivial⟩
  · exact ⟨rfl, (by decide : (4 : UInt16) ≠ 0)⟩

/-- After that the next socket in turn gets an event. All memory is there, and `client_put_event`
returns 0, but the event is not reported. -/
theorem event_lost : ∃ trace final,
    (reporting twoClients).Run (.init fun _ => blankMsg, fun _ => ∅)
        (trace ++ [(marking 167565380, .int 0)]) final ∧
      trace.map Prod.fst = crowding 103347651 33347651 64217728 134217728 ∧
      (∀ event ∈ trace, event.1.memory = true) ∧
      (machine twoClients).EveryStep (.init fun _ => blankMsg)
        (trace ++ [(marking 167565380, .int 0)]) FreshAddress ∧
      (∀ c, opens c (trace ++ [(marking 167565380, .int 0)]) < 2 ^ 31 - 1) ∧
      (∀ event ∈ trace ++ [(marking 167565380, .int 0)], event.1.Masked) ∧
      ¬(reporting twoClients).Always (.init fun _ => blankMsg, fun _ => ∅)
        (trace ++ [(marking 167565380, .int 0)]) (Reports twoClients) := by
  obtain ⟨s, set, filled, crowded, absent⟩ := crowding_filled 103347651 33347651 64217728 134217728
    (by omega) (by omega) (by omega) (by omega) (by omega) (by omega)
  obtain ⟨trace, run, fresh, names, few⟩ := filled.run
  obtain ⟨after, done, _⟩ := filled.mark (n := 167565380) (by omega) (by omega) (by omega)
  have plain : ∀ event ∈ trace, event.1.memory = true ∧ event.1.Masked := by
    intro event member
    apply crowding_plain
    rw [← names]
    exact List.mem_map_of_mem member
  obtain ⟨owed, run'⟩ : ∃ owed, (reporting twoClients).Run (.init fun _ => blankMsg, fun _ => ∅)
      trace (s, owed) := run.recorded _
  have allowed : (reporting twoClients).allowed (s, owed) (marking 167565380) :=
    (by decide : 0 < 2)
  have step : (reporting twoClients).step (s, owed) (marking 167565380) =
      some ((after, noteEvent s (marking 167565380) (.int 0) owed), .int 0) :=
    Option.map_eq_some_iff.mpr ⟨_, machine_step.mpr done, rfl⟩
  have whole := run'.next allowed step
  have fresh' : (machine twoClients).EveryStep (.init fun _ => blankMsg)
      (trace ++ [(marking 167565380, .int 0)]) FreshAddress := fresh.next run trivial
  have few' : ∀ c, opens c (trace ++ [(marking 167565380, .int 0)]) < 2 ^ 31 - 1 := by
    intro c
    rw [opens_concat]
    exact lt_trans (few c) (by omega)
  have masked : ∀ event ∈ trace ++ [(marking 167565380, .int 0)], event.1.Masked := by
    intro event member
    rcases List.mem_append.mp member with early | last
    · exact (plain event early).2
    · rw [List.mem_singleton.mp last]
      exact (by decide : (4 : UInt16) ≠ 0)
  refine ⟨trace, _, whole, names, fun event member => (plain event member).1, fresh', few', masked,
    fun always => ?_⟩
  -- the event set of the client takes no more sockets
  have inserts := (events_reported_iff twoClients_valid whole fresh' few' masked).mp always
  have room := inserts trace (marking 167565380) (.int 0) (List.prefix_refl _) (s, owed) run'
  have open' : s.sockets 0 (UInt32.ofNat 167565380).toInt32.toUInt32 ≠ none := by
    rw [UInt32.toUInt32_toInt32, filled.sockets 167565380 (by omega) (by omega)]
    exact Option.some_ne_none _
  have put : puts s (marking 167565380) = some (0, (UInt32.ofNat 167565380).toInt32, 4) :=
    if_pos open'
  have quiet : s.events 0 (UInt32.ofNat 167565380).toInt32.toUInt32 = none := by
    rw [UInt32.toUInt32_toInt32, Server.events, filled.set]
    exact absent
  apply (room 0 _ 4 put quiet).2
  rw [filled.set]
  exact crowded

end GlobalComponents.PicoServer
