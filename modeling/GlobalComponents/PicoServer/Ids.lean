import GlobalComponents.PicoServer.Calls
import GlobalComponents.PicoServer.Growth

/-! The ids that `find_free_id` hands out.

The search goes round the ids from 1 to `INT_MAX`. The bump index is one more than the last id, so it
leaves this range after `INT_MAX`, and a search from outside the range ends with what is no fd.
-/

set_option autoImplicit false

namespace GlobalComponents.PicoServer

open Library

/-! ## No table has all ids -/

theorem Khash.computeSize_29 : computeSize (2 ^ 29) = 10737418 := by decide +kernel

namespace Table

variable {K V : Type} {hash : K → UInt32} {t : Table hash V}

/-- A table stops growing at `2 ^ 28` buckets. -/
theorem put_last [DecidableEq K] (k : K) (memory : Bool) (small : t.last ≤ 2 ^ 28) :
    (t.put k memory).1.last ≤ 2 ^ 28 := by
  cases made : t.table.makeRoom hash memory with
  | none =>
    have same : (t.put k memory).1.table = t.table := by simp [put, Khash.put, made]
    exact (congrArg Khash.nBuckets same).trans_le small
  | some room =>
    refine (Khash.put_made k made).1.trans_le ?_
    rcases Khash.makeRoom_asks t.wf made with ⟨_, rfl⟩ | ⟨_, j, asks, _, _, outcome⟩
    · exact small
    · rcases outcome with ⟨_, rfl⟩ | ⟨fits, buckets, _⟩
      · exact small
      · rw [buckets]
        have small : t.table.nBuckets ≤ 2 ^ 28 := small
        cases asks with
        | fresh | last => decide
        | same size => rwa [← size]
        | @double k size _ half =>
          rw [size] at small
          have most : k ≤ 28 := (Nat.pow_le_pow_iff_right Nat.one_lt_two).mp small
          by_cases full : k = 28
          · subst full
            rw [Khash.computeSize_29] at fits
            omega
          · exact Nat.pow_le_pow_right (by omega) (by omega)

end Table

/-! ## The search -/

theorem one_le_toInt32 {id : UInt32} :
    (1 : Int32) ≤ id.toInt32 ↔ 1 ≤ id.toNat ∧ id.toNat < 2 ^ 31 := by
  have value : id.toInt32.toInt = if 2 * id.toNat < 2 ^ 32 then (id.toNat : Int)
      else id.toNat - 2 ^ 32 := BitVec.toInt_eq_toNat_cond id.toBitVec
  have bound : id.toNat < 2 ^ 32 := id.toNat_lt
  rw [Int32.le_iff_toInt_le, value, show (1 : Int32).toInt = 1 from rfl]
  split <;> omega

/-- The search from `oldIndex` has come to `curr`, and the ids it has passed are in use. -/
def Searched (table : Table intHashFunc Ptr) (oldIndex curr : UInt32) : Prop :=
  ∀ id : UInt32, 1 ≤ id.toNat → id.toNat < 2 ^ 31 →
    (oldIndex ≤ curr ∧ oldIndex ≤ id ∧ id < curr) ∨
      (curr < oldIndex ∧ (oldIndex ≤ id ∨ id < curr)) → table.lookup id ≠ none

def ahead (oldIndex curr : UInt32) : Nat :=
  if oldIndex ≤ curr then 2 ^ 31 - curr.toNat + oldIndex.toNat
  else oldIndex.toNat - curr.toNat

inductive Found (table : Table intHashFunc Ptr) (oldIndex : UInt32) : UInt32 × UInt32 → Prop where
  | free {id : UInt32} : (1 : Int32) ≤ id.toInt32 → table.lookup id = none →
      Found table oldIndex (id, id + 1)
  | full : (∀ id : UInt32, (1 : Int32) ≤ id.toInt32 → table.lookup id ≠ none) →
      Found table oldIndex (0, oldIndex)

section
variable {table : Table intHashFunc Ptr} {oldIndex curr : UInt32} {fuel : Nat}

theorem findFreeIdLoop_found (begun : (1 : Int32) ≤ oldIndex.toInt32)
    (there : (1 : Int32) ≤ curr.toInt32) (searched : Searched table oldIndex curr)
    (enough : ahead oldIndex curr ≤ fuel) :
    ∃ result, findFreeIdLoop table oldIndex fuel curr = .ok result ∧
      Found table oldIndex result := by
  rw [one_le_toInt32] at begun
  -- on the ids that are ahead of `curr` before the search is back at its start
  induction fuel generalizing curr with
  | zero =>
    rw [one_le_toInt32] at there
    rw [ahead] at enough
    split at enough
    · omega
    · next before =>
      rw [UInt32.le_iff_toNat_le] at before
      omega
  | succ fuel ih =>
    rw [findFreeIdLoop]
    split
    · next free => exact ⟨_, rfl, .free there (Table.lookup_eq_none.mpr free)⟩
    · next used =>
      have used : table.lookup curr ≠ none := mt Table.lookup_eq_none.mp used
      rw [one_le_toInt32] at there
      dsimp only
      generalize following : (if curr + 1 = 0x80000000 then 1 else curr + 1) = next
      have value : curr.toNat + 1 = 2 ^ 31 ∧ next.toNat = 1 ∨
          curr.toNat + 1 < 2 ^ 31 ∧ next.toNat = curr.toNat + 1 := by
        have sum : (curr + 1).toNat = curr.toNat + 1 := by
          rw [UInt32.toNat_add]
          exact Nat.mod_eq_of_lt (by change curr.toNat + 1 < 2 ^ 32; omega)
        rw [← following, ← sum]
        split
        · next last => exact .inl ⟨by rw [last]; rfl, rfl⟩
        · next inside =>
          have other : (curr + 1).toNat ≠ 2 ^ 31 := fun same => inside (UInt32.toNat_inj.mp same)
          exact .inr ⟨by omega, rfl⟩
      have valid : (1 : Int32) ≤ next.toInt32 := by
        rw [one_le_toInt32]
        omega
      -- with `curr` in use, the search has passed all ids before the next one
      have passed : ∀ id : UInt32, 1 ≤ id.toNat → id.toNat < 2 ^ 31 → oldIndex = next ∨
          (oldIndex ≤ next ∧ oldIndex ≤ id ∧ id < next) ∨
            (next < oldIndex ∧ (oldIndex ≤ id ∨ id < next)) → table.lookup id ≠ none := by
        intro id low high place
        by_cases here : id = curr
        · exact here ▸ used
        · have other : id.toNat ≠ curr.toNat := fun same => here (UInt32.toNat_inj.mp same)
          apply searched id low high
          simp only [UInt32.le_iff_toNat_le, UInt32.lt_iff_toNat_lt, ← UInt32.toNat_inj] at place ⊢
          omega
      split
      · next round =>
        refine ⟨_, rfl, .full fun id fd => ?_⟩
        obtain ⟨low, high⟩ := one_le_toInt32.mp fd
        exact passed id low high (.inl round)
      · next more =>
        refine ih valid (fun id low high place => passed id low high (.inr place)) ?_
        have more : oldIndex.toNat ≠ next.toNat := fun same => more (UInt32.toNat_inj.mp same)
        simp only [ahead, UInt32.le_iff_toNat_le] at enough ⊢
        split at enough <;> split <;> omega

/-- A search that begins outside the range of the fds ends outside it. -/
theorem findFreeIdLoop_outside {id bump : UInt32} (zero : table.lookup 0 = none)
    (there : ¬(1 : Int32) ≤ curr.toInt32)
    (done : findFreeIdLoop table oldIndex fuel curr = .ok (id, bump)) :
    ¬(1 : Int32) ≤ id.toInt32 := by
  -- on the fuel: an id outside the range is not followed by one inside of it
  induction fuel generalizing curr with
  | zero => cases done
  | succ fuel ih =>
    rw [findFreeIdLoop] at done
    split at done
    · cases done
      exact there
    · next used =>
      have nonzero : curr.toNat ≠ 0 := by
        intro same
        obtain rfl : curr = 0 := UInt32.toNat_inj.mp same
        exact used (Table.lookup_eq_none.mp zero)
      rw [one_le_toInt32] at there
      have sum : (curr + 1).toNat = (curr.toNat + 1) % 2 ^ 32 := UInt32.toNat_add curr 1
      have bound : curr.toNat < 2 ^ 32 := curr.toNat_lt
      have inside : curr + 1 ≠ 0x80000000 := by
        intro same
        rw [same] at sum
        have : (0x80000000 : UInt32).toNat = 2 ^ 31 := rfl
        omega
      dsimp only at done
      rw [if_neg inside] at done
      split at done
      · cases done
        decide
      · refine ih ?_ done
        rw [one_le_toInt32, sum]
        omega

end

theorem Table.exists_free {table : Table intHashFunc Ptr} (small : table.last ≤ 2 ^ 28) :
    ∃ id : UInt32, (1 : Int32) ≤ id.toInt32 ∧ table.lookup id = none := by
  by_contra none
  have used : ∀ id : UInt32, (1 : Int32) ≤ id.toInt32 → table.lookup id ≠ Option.none :=
    fun id fd free => none ⟨id, fd, free⟩
  have value : ∀ n < 2 ^ 28 + 1, (UInt32.ofNat (n + 1)).toNat = n + 1 := fun n less =>
    UInt32.toNat_ofNat_of_lt' (show n + 1 < 2 ^ 32 by omega)
  have inside : (Finset.range (2 ^ 28 + 1)).image (fun n => UInt32.ofNat (n + 1)) ⊆
      table.keys := by
    intro id member
    obtain ⟨n, less, rfl⟩ := Finset.mem_image.mp member
    rw [Finset.mem_range] at less
    refine Table.mem_keys.mpr (used _ ?_)
    rw [one_le_toInt32, value n less]
    omega
  have distinct : Set.InjOn (fun n => UInt32.ofNat (n + 1)) (Finset.range (2 ^ 28 + 1)) := by
    intro n left m right same
    have same := congrArg UInt32.toNat same
    dsimp only at same
    rw [value n (Finset.mem_range.mp left), value m (Finset.mem_range.mp right)] at same
    omega
  have most : 2 ^ 28 + 1 ≤ table.last := calc
    2 ^ 28 + 1 = ((Finset.range (2 ^ 28 + 1)).image fun n => UInt32.ofNat (n + 1)).card := by
      rw [Finset.card_image_of_injOn distinct, Finset.card_range]
    _ ≤ table.keys.card := Finset.card_le_card inside
    _ = table.size := table.size_keys.symm
    _ ≤ table.last := table.wf.size_le_nBuckets
  omega

/-- `find_free_id` ends with an fd that no socket has, or with 0 if there is none. -/
def Client.FindsFreeId (client : Client) : Prop :=
  ∃ id after, findFreeId client = .ok (id, after) ∧
    ((1 : Int32) ≤ id.toInt32 ∧ client.socketTable.lookup id = none ∨
      id = 0 ∧ ∀ other : UInt32, (1 : Int32) ≤ other.toInt32 →
        client.socketTable.lookup other ≠ none)

theorem findFreeId_found {client : Client} (begun : (1 : Int32) ≤ client.bumpIndex.toInt32) :
    ∃ id bumpIndex, findFreeId client = .ok (id, { client with bumpIndex }) ∧
      Found client.socketTable client.bumpIndex (id, bumpIndex) := by
  have searched : Searched client.socketTable client.bumpIndex client.bumpIndex := by
    intro id _ _ place
    simp only [UInt32.le_iff_toNat_le, UInt32.lt_iff_toNat_lt] at place
    omega
  have enough : ahead client.bumpIndex client.bumpIndex ≤ 2 ^ 32 := by
    have bound : client.bumpIndex.toNat < 2 ^ 31 := (one_le_toInt32.mp begun).2
    rw [ahead, if_pos (UInt32.le_refl _)]
    omega
  obtain ⟨⟨id, bumpIndex⟩, done, found⟩ := findFreeIdLoop_found begun begun searched enough
  refine ⟨id, bumpIndex, ?_, found⟩
  rw [findFreeId, done]
  rfl

/-- It does so exactly if the bump index is an fd itself. -/
theorem findsFreeId_iff {client : Client} (zero : client.socketTable.lookup 0 = none)
    (small : client.socketTable.last ≤ 2 ^ 28) :
    client.FindsFreeId ↔ (1 : Int32) ≤ client.bumpIndex.toInt32 := by
  constructor
  · rintro ⟨id, after, done, valid⟩
    by_contra outside
    obtain ⟨⟨id', bump⟩, loop, rest⟩ := bind_ok.mp done
    cases rest
    have ends := findFreeIdLoop_outside zero outside loop
    rcases valid with ⟨fd, _⟩ | ⟨_, full⟩
    · exact ends fd
    · obtain ⟨free, fd, none⟩ := Table.exists_free small
      exact full free fd none
  · intro begun
    obtain ⟨id, bumpIndex, done, found⟩ := findFreeId_found begun
    refine ⟨id, _, done, ?_⟩
    cases found with
    | free fd none => exact .inl ⟨fd, none⟩
    | full all => exact .inr ⟨rfl, all⟩

/-! ## What `client_put_socket` comes to -/

/-- The new socket has its entry in the client's own table, in bucket `iter`. -/
structure Numbered (client : Client) (record : Ptr) (id : UInt32) (memory : Bool)
    (entered : Client) (iter : Nat) : Prop where
  absent : client.socketTable.lookup id = none
  made : ¬client.socketTable.Refuses memory
  room : ¬client.socketTable.Crowded
  table : entered.socketTable = (client.socketTable.put id memory).1.setVal iter record
  bump : entered.bumpIndex = client.bumpIndex
  set : entered.socketEventSet = client.socketEventSet
  bucket : iter < entered.socketTable.last
  live : entered.socketTable.exist iter = true
  key : entered.socketTable.key iter = id
  lookup : entered.socketTable.lookup =
    Function.update client.socketTable.lookup id (some record)

/-- The entry goes again with its bucket. -/
theorem Numbered.lookup_del {client entered : Client} {record : Ptr} {id : UInt32} {memory : Bool}
    {iter : Nat} (numbered : Numbered client record id memory entered iter) :
    (entered.socketTable.del iter).lookup = client.socketTable.lookup := by
  rw [Table.lookup_del numbered.bucket numbered.live, numbered.key, numbered.lookup,
    Function.update_idem, ← numbered.absent, Function.update_eq_self]

section
variable {config : Config} {s after : Server} {c : Nat} {record : Ptr} {ret : Int32}

theorem clientPutSocket_cases {memory : Bool × Bool}
    (done : clientPutSocket config s c record memory = .ok (after, ret)) :
    c < config.numClients ∧ ∃ id found, findFreeId (s.clients c) = .ok (id, found) ∧
      (ret = -1 ∧ after = s.setClient c found ∨
        id ≠ 0 ∧ ∃ entered iter, Numbered found record id memory.1 entered iter ∧
          putSocketAddr (s.setClient c entered) c record iter id memory.2 = .ok (after, ret)) := by
  obtain ⟨_, small, done⟩ := bind_ok.mp done
  obtain ⟨⟨id, found⟩, finding, done⟩ := bind_ok.mp done
  refine ⟨Nat.not_le.mp (zfLogfIf_ok.mp small), id, found, finding, ?_⟩
  dsimp only at done
  split at done
  · obtain ⟨rfl, rfl⟩ := pair_ok.mp done
    exact .inl ⟨rfl, rfl⟩
  · next nonzero =>
    have spec := found.socketTable.put_spec id memory.1
    generalize outcome : found.socketTable.put id memory.1 = result at spec done
    cases spec with
    | failed =>
      rw [if_pos rfl] at done
      obtain ⟨rfl, rfl⟩ := pair_ok.mp done
      exact .inl ⟨rfl, Server.setClient_setSocketTable⟩
    | kept =>
      rw [if_neg (by decide : ¬(0 : Int) = -1)] at done
      obtain ⟨_, checked, _⟩ := bind_ok.mp done
      exact absurd rfl (zfLogfIf_ok.mp checked)
    | @added table iter code kind absent bucket live key lookup made room =>
      have counts : ¬code = -1 := by rcases kind with rfl | rfl <;> decide
      rw [if_neg counts] at done
      obtain ⟨_, _, done⟩ := bind_ok.mp done
      rw [Server.setClient_setSocketTable] at done
      refine .inr ⟨nonzero, { found with socketTable := table.setVal iter record }, iter,
        ⟨absent, made, room, ?_, rfl, rfl, bucket, live, key, ?_⟩, done⟩
      · rw [outcome]
      · rw [Table.lookup_setVal bucket live, lookup, key, Function.update_idem]

theorem putSocketAddr_cases {iter : Nat} {id : UInt32} {memory : Bool}
    (done : putSocketAddr s c record iter id memory = .ok (after, ret)) :
    ∃ new, s.records record = some new ∧
      (ret = -1 ∧ after =
          s.setSocketTable c ((s.clients c).socketTable.del iter) ∨
        ret = id.toInt32 ∧ ¬s.socketAddrTable.Refuses memory ∧ ∃ settled,
          (settled = s.setSocketAddrTable (s.socketAddrTable.put new.socket memory).1 ∨
            invalidateOld (s.setSocketAddrTable (s.socketAddrTable.put new.socket memory).1) c
              ((s.socketAddrTable.put new.socket memory).1.val
                (s.socketAddrTable.put new.socket memory).2.1) new.socket = .ok settled) ∧
          after = settled.setSocketAddrTable (settled.socketAddrTable.setVal
            (s.socketAddrTable.put new.socket memory).2.1 record)) := by
  obtain ⟨new, deref, done⟩ := bind_ok.mp done
  refine ⟨new, Server.deref_ok.mp deref, ?_⟩
  have spec := s.socketAddrTable.put_spec new.socket memory
  dsimp only at done
  generalize s.socketAddrTable.put new.socket memory = result at spec done
  obtain ⟨table, x, code⟩ := result
  dsimp only at done ⊢
  have made : code ≠ -1 → ¬s.socketAddrTable.Refuses memory := by
    cases spec with
    | failed => exact absurd rfl
    | kept _ _ _ made => exact fun _ => made
    | added _ _ _ _ _ _ made => exact fun _ => made
  split at done
  · next failed =>
    obtain ⟨rfl, rfl⟩ := pair_ok.mp done
    refine .inl ⟨rfl, ?_⟩
    cases spec with
    | failed => rfl
    | kept => cases failed
    | added kind => rcases kind with rfl | rfl <;> cases failed
  · next entered =>
    split at done
    · obtain ⟨settled, settle, done⟩ := bind_ok.mp done
      obtain ⟨rfl, rfl⟩ := pair_ok.mp done
      exact .inr ⟨rfl, made entered, settled, .inr settle, rfl⟩
    · obtain ⟨rfl, rfl⟩ := pair_ok.mp done
      exact .inr ⟨rfl, made entered, _, .inl rfl, rfl⟩

def Client.Thinned (before after : Client) : Prop :=
  after.bumpIndex = before.bumpIndex ∧
    (after.socketTable = before.socketTable ∨ ∃ x, after.socketTable = before.socketTable.del x)

theorem Client.Thinned.refl (client : Client) : client.Thinned client := ⟨rfl, .inl rfl⟩

def Client.Numbers (client after : Client) : Prop :=
  ∃ id found, findFreeId client = .ok (id, found) ∧
    (after = found ∨ id ≠ 0 ∧ ∃ record memory iter, Numbered found record id memory after iter)

theorem dropEvent_thins (s : Server) (c : Nat) (fd : Int32) (d : Nat) :
    (s.clients d).Thinned ((dropEvent s c fd).clients d) := by
  rw [dropEvent_eq, Server.setClient]
  by_cases here : d = c
  · subst here
    simp [Client.Thinned]
  · simp [Client.Thinned, Function.update_of_ne here]

theorem setSocketTable_thins (s : Server) (c x d : Nat) : (s.clients d).Thinned
    ((s.setSocketTable c ((s.clients c).socketTable.del x)).clients d) := by
  by_cases here : d = c
  · subst here
    exact ⟨by simp [Server.setSocketTable, Server.setClient],
      .inr ⟨x, by simp [Server.setSocketTable, Server.setClient]⟩⟩
  · simp [Client.Thinned, Server.setSocketTable, Server.setClient, Function.update_of_ne here]

theorem Client.Thinned.dropEvent {client : Client} {fd : Int32} {d : Nat}
    (thinned : client.Thinned (s.clients d)) :
    client.Thinned ((dropEvent s c fd).clients d) := by
  obtain ⟨bump, _⟩ := dropEvent_thins s c fd d
  have table : ((PicoServer.dropEvent s c fd).clients d).socketTable =
      (s.clients d).socketTable := by
    rw [dropEvent_eq, Server.setClient]
    by_cases here : d = c
    · subst here
      simp
    · simp [Function.update_of_ne here]
  rw [Client.Thinned, bump, table]
  exact thinned

theorem invalidateOld_thins {p socket : Ptr} (done : invalidateOld s c p socket = .ok after)
    (d : Nat) : (s.clients d).Thinned (after.clients d) := by
  obtain ⟨old, _, done⟩ := bind_ok.mp done
  obtain ⟨_, _, done⟩ := bind_ok.mp done
  obtain ⟨_, _, done⟩ := bind_ok.mp done
  obtain ⟨_, _, done⟩ := bind_ok.mp done
  obtain rfl := Except.ok.inj done
  apply Client.Thinned.dropEvent
  exact setSocketTable_thins s c old.socketFd.toUInt32.toNat d

theorem putSocketAddr_thins {iter : Nat} {id : UInt32} {memory : Bool}
    (done : putSocketAddr s c record iter id memory = .ok (after, ret)) (d : Nat) :
    (s.clients d).Thinned (after.clients d) := by
  obtain ⟨_, _, outcome⟩ := putSocketAddr_cases done
  rcases outcome with ⟨_, rfl⟩ | ⟨_, _, settled, settle, rfl⟩
  · exact setSocketTable_thins s c iter d
  · rcases settle with rfl | settle
    · exact .refl _
    · exact invalidateOld_thins settle d

theorem clientPutSocket_numbers {memory : Bool × Bool}
    (done : clientPutSocket config s c record memory = .ok (after, ret)) :
    (∀ d, d ≠ c → (s.clients d).Thinned (after.clients d)) ∧
      ∃ middle, (s.clients c).Numbers middle ∧ middle.Thinned (after.clients c) := by
  obtain ⟨_, id, found, finding, outcome⟩ := clientPutSocket_cases done
  have own : ∀ client, (s.setClient c client).clients c = client := fun client =>
    Function.update_self _ _ _
  have others : ∀ client d, d ≠ c → (s.setClient c client).clients d = s.clients d :=
    fun client d other => Function.update_of_ne other _ _
  rcases outcome with ⟨_, rfl⟩ | ⟨nonzero, entered, iter, numbered, done⟩
  · refine ⟨fun d other => ?_, found, ⟨id, found, finding, .inl rfl⟩, ?_⟩
    · rw [others found d other]
      exact .refl _
    · rw [own]
      exact .refl _
  · have thins := putSocketAddr_thins done
    refine ⟨fun d other => ?_, entered,
      ⟨id, found, finding, .inr ⟨nonzero, record, memory.1, iter, numbered⟩⟩, ?_⟩
    · have thinned := thins d
      rwa [others entered d other] at thinned
    · have thinned := thins c
      rwa [own] at thinned

theorem clientDeleteSocket_thins {fd : Int32} (done : clientDeleteSocket s c fd = .ok (after, ret))
    (d : Nat) : (s.clients d).Thinned (after.clients d) := by
  rw [clientDeleteSocket] at done
  split at done
  · obtain ⟨rfl, _⟩ := pair_ok.mp done
    exact .refl _
  · obtain ⟨socket, _, done⟩ := bind_ok.mp done
    obtain ⟨_, _, done⟩ := bind_ok.mp done
    obtain ⟨rfl, _⟩ := pair_ok.mp done
    apply Client.Thinned.dropEvent
    exact setSocketTable_thins s c ((s.clients c).socketTable.get fd.toUInt32) d

theorem setSocketEventSet_thins (s : Server) (c d : Nat) (set : Table intHashFunc Unit) :
    (s.clients d).Thinned ((s.setSocketEventSet c set).clients d) := by
  by_cases here : d = c
  · subst here
    simp [Client.Thinned, Server.setSocketEventSet, Server.setClient]
  · simp [Client.Thinned, Server.setSocketEventSet, Server.setClient, Function.update_of_ne here]

theorem clientGetEvent_thins {event : SocketEvent} (done : clientGetEvent s c = .ok (after, event))
    (d : Nat) : (s.clients d).Thinned (after.clients d) := by
  rw [clientGetEvent] at done
  split at done
  · obtain ⟨rfl, _⟩ := pair_ok.mp done
    exact .refl _
  · dsimp only at done
    split at done
    · obtain ⟨rfl, _⟩ := pair_ok.mp done
      exact setSocketEventSet_thins s c d _
    · split at done
      · cases done
      · obtain ⟨socket, _, done⟩ := bind_ok.mp done
        obtain ⟨rfl, _⟩ := pair_ok.mp done
        exact setSocketEventSet_thins s c d _

theorem clientPutEvent_thins {fd : Int32} {ev : UInt16} {memory : Bool}
    (done : clientPutEvent s c fd ev memory = .ok (after, ret)) (d : Nat) :
    (s.clients d).Thinned (after.clients d) := by
  rw [clientPutEvent] at done
  split at done
  · obtain ⟨rfl, _⟩ := pair_ok.mp done
    exact .refl _
  · obtain ⟨socket, _, done⟩ := bind_ok.mp done
    obtain ⟨rfl, _⟩ := pair_ok.mp done
    exact setSocketEventSet_thins _ c d _

theorem putNewSocket_numbers {socket : Ptr} {protocol : Protocol} {memory : Bool × Bool}
    (done : putNewSocket config s c record socket protocol memory = .ok (after, ret)) :
    (∀ d, d ≠ c → (s.clients d).Thinned (after.clients d)) ∧
      ∃ middle, (s.clients c).Numbers middle ∧ middle.Thinned (after.clients c) := by
  obtain ⟨⟨put, ret'⟩, putting, done⟩ := bind_ok.mp done
  have numbers := clientPutSocket_numbers putting
  dsimp only at done
  split at done
  · obtain ⟨rfl, _⟩ := pair_ok.mp done
    exact numbers
  · obtain ⟨_, _, done⟩ := bind_ok.mp done
    obtain ⟨rfl, _⟩ := pair_ok.mp done
    exact numbers

def Server.Follows (s after : Server) (opener : Option Nat) : Prop :=
  ∀ d, (s.clients d).Thinned (after.clients d) ∨
    opener = some d ∧ ∃ middle, (s.clients d).Numbers middle ∧ middle.Thinned (after.clients d)

theorem Server.Follows.of_same {opener : Option Nat} (same : after.clients = s.clients) :
    s.Follows after opener := fun d => .inl (same ▸ .refl (s.clients d))

theorem Server.Follows.of_numbers
    (numbers : (∀ d, d ≠ c → (s.clients d).Thinned (after.clients d)) ∧
      ∃ middle, (s.clients c).Numbers middle ∧ middle.Thinned (after.clients c)) :
    s.Follows after (some c) := by
  intro d
  by_cases here : d = c
  · subst here
    exact .inr ⟨rfl, numbers.2⟩
  · exact .inl (numbers.1 d here)

theorem control_follows (valid : config.Valid) {client : Nat} {call : Control} {reply : Reply}
    (allowed : s.permits config (.control client call))
    (done : controlHandleMessage config s client call = .ok (after, reply)) :
    s.Follows after (Event.control client call).opener := by
  rw [controlHandleMessage.eq_def] at done
  have check := fun d => clientCheck_control (s := s) (d := d) valid allowed.1
  have clients : ({ s with controlBadge := enumerateBadge config.controlBadges client } :
    Server).clients = s.clients := rfl
  generalize { s with controlBadge := enumerateBadge config.controlBadges client } = s'
    at done check clients
  suffices follows : s'.Follows after (Event.control client call).opener by
    rw [Server.Follows, ← clients]
    exact follows
  cases call with
  | «open» =>
    obtain ⟨clientId, checked, done⟩ := bind_ok.mp done
    obtain rfl := check clientId checked
    split at done
    · obtain ⟨rfl, _⟩ := pair_ok.mp done
      exact .of_same rfl
    · split at done
      · obtain ⟨rfl, _⟩ := pair_ok.mp done
        exact .of_same rfl
      · obtain ⟨⟨put, ret⟩, putting, done⟩ := bind_ok.mp done
        obtain ⟨rfl, _⟩ := pair_ok.mp done
        exact .of_numbers (putNewSocket_numbers putting)
  | accept =>
    obtain ⟨clientId, checked, done⟩ := bind_ok.mp done
    obtain rfl := check clientId checked
    split at done
    · obtain ⟨rfl, _⟩ := pair_ok.mp done
      exact .of_same rfl
    · obtain ⟨_, _, done⟩ := bind_ok.mp done
      split at done
      · obtain ⟨rfl, _⟩ := pair_ok.mp done
        exact .of_same rfl
      · split at done
        · obtain ⟨rfl, _⟩ := pair_ok.mp done
          exact .of_same rfl
        · obtain ⟨⟨put, ret⟩, putting, done⟩ := bind_ok.mp done
          dsimp only at done
          split at done
          · obtain ⟨rfl, _⟩ := pair_ok.mp done
            exact .of_numbers (putNewSocket_numbers putting)
          · obtain ⟨rfl, _⟩ := pair_ok.mp done
            exact .of_numbers (putNewSocket_numbers putting)
  | close =>
    obtain ⟨clientId, checked, done⟩ := bind_ok.mp done
    split at done
    · obtain ⟨rfl, _⟩ := pair_ok.mp done
      exact .of_same rfl
    · obtain ⟨cleaned, cleaning, done⟩ := bind_ok.mp done
      obtain ⟨⟨deleted, ret⟩, deleting, done⟩ := bind_ok.mp done
      obtain ⟨rfl, _⟩ := pair_ok.mp done
      intro d
      have thinned := clientDeleteSocket_thins deleting d
      rw [(SameBooks.cleanup cleaning).clients] at thinned
      exact .inl thinned
  | setAsync =>
    obtain ⟨clientId, checked, done⟩ := bind_ok.mp done
    split at done
    · obtain ⟨rfl, _⟩ := pair_ok.mp done
      exact .of_same rfl
    · obtain ⟨_, _, done⟩ := bind_ok.mp done
      split at done
      · split at done
        · obtain ⟨rfl, _⟩ := pair_ok.mp done
          exact .of_same rfl
        · obtain ⟨rfl, _⟩ := pair_ok.mp done
          exact .of_same rfl
      · split at done
        · obtain ⟨cleaned, cleaning, done⟩ := bind_ok.mp done
          obtain ⟨rfl, _⟩ := pair_ok.mp done
          exact .of_same (SameBooks.cleanup cleaning).clients
        · obtain ⟨rfl, _⟩ := pair_ok.mp done
          exact .of_same rfl
  | eventPoll =>
    obtain ⟨clientId, _, done⟩ := bind_ok.mp done
    obtain ⟨⟨polled, event⟩, polling, done⟩ := bind_ok.mp done
    obtain ⟨rfl, _⟩ := pair_ok.mp done
    exact fun d => .inl (clientGetEvent_thins polling d)
  | stack =>
    obtain ⟨clientId, _, done⟩ := bind_ok.mp done
    split at done
    · obtain ⟨rfl, _⟩ := pair_ok.mp done
      exact .of_same rfl
    · obtain ⟨_, _, done⟩ := bind_ok.mp done
      obtain ⟨rfl, _⟩ := pair_ok.mp done
      exact .of_same rfl
  | getIpv4 device =>
    cases device with
    | none | some =>
      obtain ⟨rfl, _⟩ := pair_ok.mp done
      exact .of_same rfl

theorem reportEvent_thins {clientSocket : Socket} {ev : UInt16} {memory : Bool}
    (done : reportEvent s clientSocket ev memory = .ok after) (d : Nat) :
    (s.clients d).Thinned (after.clients d) := by
  rw [reportEvent] at done
  split at done
  · obtain rfl := Except.ok.inj done
    exact .refl _
  · obtain ⟨⟨put, ret⟩, putting, done⟩ := bind_ok.mp done
    obtain ⟨_, _, done⟩ := bind_ok.mp done
    obtain rfl := Except.ok.inj done
    exact clientPutEvent_thins putting d

theorem socketCb_thins {ev : UInt16} {socket : Ptr} {answers : List Answer} {memory : Bool}
    (done : socketCb config s ev socket answers memory = .ok after) (d : Nat) :
    (s.clients d).Thinned (after.clients d) := by
  rw [socketCb] at done
  split at done
  · split at done
    · obtain rfl := Except.ok.inj done
      exact .refl _
    · cases done
  · obtain ⟨clientSocket, _, done⟩ := bind_ok.mp done
    split at done
    · obtain ⟨⟨served, ev'⟩, serving, done⟩ := bind_ok.mp done
      have thinned := reportEvent_thins done d
      rwa [(SameBooks.of_steps (serveAsync_steps serving)).clients] at thinned
    · exact reportEvent_thins done d

theorem notifyClient_clients (s : Server) : (notifyClient s).clients = s.clients := by
  rw [notifyClient]
  dsimp only
  split <;> split <;> rfl

theorem communicate_clients {issuer : Nat} {call : StackCall}
    {socketFd len bufferOffset ret : Int32} {reply : Reply}
    (done : communicateHandleMessage config s issuer call socketFd len bufferOffset ret =
      .ok (after, reply)) : after.clients = s.clients := by
  obtain ⟨stored, same, done⟩ : ∃ stored : Server, stored.clients = s.clients ∧
      communicate config (config.badges call) (config.bufSize call) call stored issuer socketFd len
        bufferOffset ret = .ok (after, reply) := by
    cases call with
    | write | send | sendto =>
      exact ⟨{ s with sendBadge := enumerateBadge config.sendBadges issuer }, rfl, done⟩
    | read | recv | recvfrom =>
      exact ⟨{ s with recvBadge := enumerateBadge config.recvBadges issuer }, rfl, done⟩
  obtain ⟨client, checked, done⟩ := bind_ok.mp done
  dsimp only at done
  split at done
  · obtain ⟨rfl, _⟩ := pair_ok.mp done
    exact same
  · obtain ⟨socket, _, done⟩ := bind_ok.mp done
    obtain ⟨rfl, _⟩ := pair_ok.mp done
    exact same

theorem step_follows (valid : config.Valid) {event : Event} {reply : Reply}
    (allowed : s.permits config event) (done : s.step config event = .ok (after, reply)) :
    s.Follows after event.opener := by
  cases event with
  | control client call => exact control_follows valid allowed done
  | communicate => exact .of_same (communicate_clients done)
  | callback =>
    obtain ⟨_, called, done⟩ := bind_ok.mp done
    obtain ⟨rfl, _⟩ := pair_ok.mp done
    exact fun d => .inl (socketCb_thins called d)
  | putEvent =>
    obtain ⟨⟨_, _⟩, putting, done⟩ := bind_ok.mp done
    obtain ⟨rfl, _⟩ := pair_ok.mp done
    exact fun d => .inl (clientPutEvent_thins putting d)
  | irq =>
    obtain ⟨⟨_, _⟩, receiving, done⟩ := bind_ok.mp done
    obtain ⟨⟨_, _⟩, sending, done⟩ := bind_ok.mp done
    obtain ⟨rfl, _⟩ := pair_ok.mp done
    exact .of_same (SameBooks.of_steps ((queueHandle_steps receiving).trans
      (queueHandle_steps sending))).clients
  | notify =>
    obtain ⟨rfl, _⟩ := pair_ok.mp done
    exact .of_same (notifyClient_clients s)
  | submit =>
    obtain ⟨rfl, _⟩ := pair_ok.mp done
    exact .of_same (((SameBooks.refl s).setMsg _ _).setQueue _ _).clients
  | collect =>
    obtain ⟨rfl, _⟩ := pair_ok.mp done
    exact .of_same ((SameBooks.refl s).setQueue _ _).clients

end

/-! ## All runs -/

structure Client.Counted (n : Nat) (client : Client) : Prop where
  small : client.socketTable.last ≤ 2 ^ 28
  zero : client.socketTable.lookup 0 = none
  bump : n < 2 ^ 31 - 1 → 1 ≤ client.bumpIndex.toNat ∧ client.bumpIndex.toNat ≤ 1 + n
  below : n < 2 ^ 31 - 1 → ∀ fd, client.socketTable.lookup fd ≠ none → fd < client.bumpIndex

namespace Client.Counted

variable {n : Nat} {client after found : Client} {id : UInt32}

theorem init : Client.init.Counted 0 where
  small := Nat.zero_le _
  zero := rfl
  bump _ := ⟨le_rfl, le_rfl⟩
  below _ _ held := absurd rfl held

theorem thin (counted : client.Counted n) (thinned : client.Thinned after) : after.Counted n := by
  obtain ⟨bump, table⟩ := thinned
  have absent : ∀ fd, client.socketTable.lookup fd = none →
      after.socketTable.lookup fd = none := by
    intro fd missing
    rcases table with same | ⟨x, same⟩
    · rw [same, missing]
    · rw [same]
      exact Table.lookup_del_absent missing x
  refine ⟨?_, absent 0 counted.zero, fun few => bump ▸ counted.bump few, fun few fd held => ?_⟩
  · rcases table with same | ⟨x, same⟩
    · exact same ▸ counted.small
    · rw [same, Table.del_last]
      exact counted.small
  · rw [bump]
    exact counted.below few fd fun missing => held (absent fd missing)

theorem next (counted : client.Counted n) (few : n + 1 < 2 ^ 31 - 1)
    (done : findFreeId client = .ok (id, found)) : id = client.bumpIndex ∧
      found.bumpIndex.toNat = client.bumpIndex.toNat + 1 := by
  obtain ⟨low, high⟩ := counted.bump (by omega)
  have free : client.socketTable.lookup client.bumpIndex = none := by
    by_contra held
    exact absurd (counted.below (by omega) _ held) (UInt32.lt_irrefl _)
  obtain ⟨rfl, rfl⟩ := Prod.mk.inj (Except.ok.inj ((findFreeId_of_lookup free).symm.trans done))
  refine ⟨rfl, ?_⟩
  rw [UInt32.toNat_add]
  exact Nat.mod_eq_of_lt (by change client.bumpIndex.toNat + 1 < 2 ^ 32; omega)

theorem number (counted : client.Counted n) (numbers : client.Numbers after) :
    after.Counted (n + 1) := by
  obtain ⟨id, found, done, outcome⟩ := numbers
  obtain ⟨_, table, _⟩ := findFreeId_free done
  have kept : found.Counted (n + 1) := by
    refine ⟨table ▸ counted.small, table ▸ counted.zero, fun few => ?_, fun few fd held => ?_⟩
    · have same := (counted.next few done).2
      have bound := counted.bump (by omega)
      omega
    · have same := (counted.next few done).2
      have less := counted.below (by omega) fd (table ▸ held)
      rw [UInt32.lt_iff_toNat_lt] at less ⊢
      omega
  rcases outcome with rfl | ⟨nonzero, record, memory, iter, numbered⟩
  · exact kept
  · refine ⟨?_, ?_, numbered.bump ▸ kept.bump, fun few fd held => ?_⟩
    · rw [numbered.table]
      exact Table.put_last id memory kept.small
    · rw [numbered.lookup, Function.update_of_ne nonzero.symm]
      exact kept.zero
    · rw [numbered.bump]
      by_cases here : fd = id
      · obtain ⟨same, more⟩ := counted.next few done
        rw [UInt32.lt_iff_toNat_lt, here, same, more]
        exact Nat.lt_succ_self _
      · rw [numbered.lookup, Function.update_of_ne here] at held
        exact kept.below few fd held

theorem more (counted : client.Counted n) : client.Counted (n + 1) where
  small := counted.small
  zero := counted.zero
  bump few := by
    have bound := counted.bump (by omega)
    omega
  below few := counted.below (by omega)

end Client.Counted

section
variable {config : Config} {msgs : Ptr → Msg} {trace : List (Event × Reply)} {s after : Server}
  {c : Nat} {record : Ptr} {ret : Int32}

theorem run_counted (valid : config.Valid) (run : (machine config).Run (.init msgs) trace s) :
    ∀ c, (s.clients c).Counted (opens c trace) := by
  induction run with
  | start => exact fun _ => .init
  | @next trace before after event reply _ allowed step ih =>
    intro c
    rw [opens_concat]
    -- only an opening or accepting call uses up a number of its client
    rcases step_follows valid allowed (machine_step.mp step) c with
      thinned | ⟨opener, middle, numbers, thinned⟩
    · have kept := (ih c).thin thinned
      split
      · exact kept.more
      · exact kept
    · rw [if_pos opener]
      exact ((ih c).number numbers).thin thinned

/-! ## The fds that are returned -/

/-- A socket gets an fd, or -1 and no place in a table. -/
def FdOutcome (s after : Server) (ret : Int32) : Prop :=
  1 ≤ ret ∨ ret = -1 ∧ after.sockets = s.sockets ∧ after.address = s.address

theorem clientPutSocket_fd {memory : Bool × Bool} (begun : (1 : Int32) ≤ (s.bump c).toInt32)
    (done : clientPutSocket config s c record memory = .ok (after, ret)) :
    FdOutcome s after ret := by
  obtain ⟨_, id, found, finding, outcome⟩ := clientPutSocket_cases done
  obtain ⟨_, table, _⟩ := findFreeId_free finding
  rcases outcome with ⟨rfl, rfl⟩ | ⟨nonzero, entered, iter, numbered, done⟩
  · refine .inr ⟨rfl, ?_, rfl⟩
    rw [Server.sockets_setClient, table]
    exact Function.update_eq_self c s.sockets
  · obtain ⟨new, _, outcome⟩ := putSocketAddr_cases done
    rcases outcome with ⟨rfl, rfl⟩ | ⟨rfl, _⟩
    · refine .inr ⟨rfl, ?_, rfl⟩
      have own : (s.setClient c entered).clients c = entered := Function.update_self _ _ _
      rw [Server.sockets_setSocketTable, Server.sockets_setClient, Function.update_idem, own,
        numbered.lookup_del, table]
      exact Function.update_eq_self c s.sockets
    · left
      obtain ⟨id', bumpIndex, finding', fd⟩ := findFreeId_found begun
      obtain ⟨rfl, _⟩ := Prod.mk.inj (Except.ok.inj (finding.symm.trans finding'))
      cases fd with
      | free fd => exact fd
      | full => exact absurd rfl nonzero

theorem putNewSocket_fd {socket : Ptr} {protocol : Protocol} {memory : Bool × Bool}
    (begun : (1 : Int32) ≤ (s.bump c).toInt32)
    (done : putNewSocket config s c record socket protocol memory = .ok (after, ret)) :
    FdOutcome s after ret := by
  obtain ⟨t, put, number, filled, putting, ending⟩ := putNewSocket_cases done
  have outcome := clientPutSocket_fd (filled.bump ▸ begun) putting
  rw [FdOutcome, filled.sockets, filled.address] at outcome
  rcases ending with ⟨rfl, rfl, rfl⟩ | ⟨real, rfl, _, _, rfl⟩
  · exact outcome
  · exact outcome.imp_right fun failed => absurd failed.1 real

def Reply.FdOutcome (s after : Server) : Reply → Prop
  | .int ret => PicoServer.FdOutcome s after ret
  | .peer result socket _ _ => result = 0 ∧ 1 ≤ socket ∨
      result = -1 ∧ after.sockets = s.sockets ∧ after.address = s.address
  | _ => False

/-- The ids of a client are fds for ever. -/
structure FdsValid (config : Config) (s : Server) (c : Nat) : Prop where
  finds : (s.clients c).FindsFreeId
  put : ∀ record memory after ret,
    clientPutSocket config s c record memory = .ok (after, ret) → FdOutcome s after ret
  opens : ∀ isUdp record socket memory after reply,
    s.step config (.control c (.open isUdp record socket memory)) = .ok (after, reply) →
      reply.FdOutcome s after
  accepts : ∀ socketFd socket peerAddr remotePort record memory after reply,
    s.step config (.control c (.accept socketFd socket peerAddr remotePort record memory)) =
      .ok (after, reply) → reply.FdOutcome s after

theorem picoControlOpen_fd (client : ∀ d, clientCheck config s = .ok d → d = c)
    (begun : (1 : Int32) ≤ (s.bump c).toInt32) {isUdp : Bool} {record : Option Ptr} {socket : Ptr}
    {memory : Bool × Bool} {reply : Reply}
    (done : picoControlOpen config s isUdp record socket memory = .ok (after, reply)) :
    reply.FdOutcome s after := by
  obtain ⟨clientId, checked, done⟩ := bind_ok.mp done
  obtain rfl := client clientId checked
  split at done
  · obtain ⟨rfl, rfl⟩ := pair_ok.mp done
    exact .inr ⟨rfl, rfl, rfl⟩
  · split at done
    · obtain ⟨rfl, rfl⟩ := pair_ok.mp done
      exact .inr ⟨rfl, rfl, rfl⟩
    · obtain ⟨⟨put, ret⟩, putting, done⟩ := bind_ok.mp done
      obtain ⟨rfl, rfl⟩ := pair_ok.mp done
      exact putNewSocket_fd begun putting

theorem picoControlAccept_fd (client : ∀ d, clientCheck config s = .ok d → d = c)
    (begun : (1 : Int32) ≤ (s.bump c).toInt32) {socketFd : Int32} {socket : Ptr}
    {peerAddr : UInt32} {remotePort : UInt16} {record : Option Ptr} {memory : Bool × Bool}
    {reply : Reply} (done : picoControlAccept config s socketFd socket peerAddr remotePort record
      memory = .ok (after, reply)) : reply.FdOutcome s after := by
  obtain ⟨clientId, checked, done⟩ := bind_ok.mp done
  obtain rfl := client clientId checked
  split at done
  · obtain ⟨rfl, rfl⟩ := pair_ok.mp done
    exact .inr ⟨rfl, rfl, rfl⟩
  · obtain ⟨_, _, done⟩ := bind_ok.mp done
    split at done
    · obtain ⟨rfl, rfl⟩ := pair_ok.mp done
      exact .inr ⟨rfl, rfl, rfl⟩
    · split at done
      · obtain ⟨rfl, rfl⟩ := pair_ok.mp done
        exact .inr ⟨rfl, rfl, rfl⟩
      · obtain ⟨⟨put, ret⟩, putting, done⟩ := bind_ok.mp done
        have outcome := putNewSocket_fd begun putting
        dsimp only at done
        split at done
        · next failed =>
          obtain ⟨rfl, rfl⟩ := pair_ok.mp done
          subst failed
          exact .inr ⟨rfl, (outcome.resolve_left (by decide)).2⟩
        · next real =>
          obtain ⟨rfl, rfl⟩ := pair_ok.mp done
          exact .inl ⟨rfl, outcome.resolve_right fun failed => real failed.1⟩

theorem control_fd (valid : config.Valid) (small : c < config.numClients)
    (begun : (1 : Int32) ≤ (s.bump c).toInt32) {call : Control} {reply : Reply}
    (opener : (Event.control c call).opener = some c)
    (done : s.step config (.control c call) = .ok (after, reply)) : reply.FdOutcome s after := by
  have done : controlHandleMessage config s c call = .ok (after, reply) := done
  rw [controlHandleMessage.eq_def] at done
  have check := fun d => clientCheck_control (s := s) (d := d) valid small
  generalize called : { s with controlBadge := enumerateBadge config.controlBadges c } = s'
    at done check
  have bump : s'.bump = s.bump := by rw [← called]; rfl
  have same : ∀ reply : Reply, reply.FdOutcome s' after → reply.FdOutcome s after := by
    intro reply outcome
    rw [← called] at outcome
    exact outcome
  apply same
  cases call with
  | «open» => exact picoControlOpen_fd check (bump ▸ begun) done
  | accept => exact picoControlAccept_fd check (bump ▸ begun) done
  | close | setAsync | eventPoll | stack | getIpv4 => cases opener

/-- In every reachable state the ids of a client are fds exactly if its bump index is one. The index is
an fd as long as the client has opened or accepted fewer than `INT_MAX` sockets. -/
theorem fds_valid_iff (valid : config.Valid) (run : (machine config).Run (.init msgs) trace s)
    (small : c < config.numClients) :
    (FdsValid config s c ↔ (1 : Int32) ≤ (s.bump c).toInt32) ∧
      (opens c trace < 2 ^ 31 - 1 → (1 : Int32) ≤ (s.bump c).toInt32) := by
  have counted := run_counted valid run c
  refine ⟨⟨fun fds => ?_, fun begun => ?_⟩, fun few => ?_⟩
  · exact (findsFreeId_iff counted.zero counted.small).mp fds.finds
  · exact {
      finds := (findsFreeId_iff counted.zero counted.small).mpr begun
      put := fun _ _ _ _ => clientPutSocket_fd begun
      opens := fun _ _ _ _ _ _ => control_fd valid small begun rfl
      accepts := fun _ _ _ _ _ _ _ _ => control_fd valid small begun rfl }
  · have bound := counted.bump few
    rw [one_le_toInt32]
    change 1 ≤ (s.clients c).bumpIndex.toNat ∧ (s.clients c).bumpIndex.toNat < 2 ^ 31
    omega

end

/-! ## A client that opens and closes sockets -/

def openOne : Event := .control 0 (.open true (some 0x1000) 0x2000 (true, true))

structure Closed (n : Nat) (s : Server) : Prop where
  run : ∃ trace, (machine twoClients).Run (.init fun _ => blankMsg) trace s ∧ opens 0 trace = n
  bump : (s.bump 0).toNat = 1 + n
  sockets : ∀ fd, s.sockets 0 fd = none
  address : ∀ a, s.address a = none
  records : ∀ p, s.records p = none

theorem Closed.init : Closed 0 (.init fun _ => blankMsg) where
  run := ⟨[], .start, rfl⟩
  bump := rfl
  sockets _ := rfl
  address _ := rfl
  records _ := rfl

section
variable {s : Server} {n : Nat}

theorem Closed.addressed (closed : Closed n s) : s.Addressed := by
  intro a p entry
  rw [closed.address] at entry
  cases entry

theorem not_crowded_of_none {K V : Type} [DecidableEq K] {hash : K → UInt32} {t : Table hash V}
    (none : ∀ k, t.lookup k = none) : ¬t.Crowded := by
  apply Table.not_crowded_of_size
  have empty : t.keys = ∅ := by
    apply Finset.eq_empty_of_forall_notMem
    exact fun k member => Table.mem_keys.mp member (none k)
  rw [Table.size_keys, empty, Finset.card_empty]
  exact Nat.two_pow_pos 27

theorem Closed.opens (closed : Closed n s) (usable : Usable s 0) :
    ∃ after, s.step twoClients openOne = .ok (after, .int (s.bump 0).toInt32) ∧
      Enters s after 0 0x1000 0x2000 ∧ after.records = Function.update s.records 0x1000
        (some ⟨.udp, 0, (s.bump 0).toInt32, 0x2000, 0, none⟩) :=
  open_ok twoClients_valid (by decide) closed.addressed usable (closed.records _) (by decide)
    (closed.address _) (not_crowded_of_none closed.sockets) (not_crowded_of_none closed.address)

theorem Closed.next (closed : Closed n s) (small : n < 2 ^ 31 - 1) : ∃ after, Closed (n + 1) after := by
  obtain ⟨trace, run, count⟩ := closed.run
  have bump := closed.bump
  have positive : (1 : Int32) ≤ (s.bump 0).toInt32 := by
    rw [one_le_toInt32]
    omega
  have usable : Usable s 0 := by
    refine ⟨closed.sockets _, fun zero => ?_, fun negative => ?_⟩
    · rw [zero] at positive
      exact absurd positive (by decide)
    · rw [negative] at positive
      exact absurd positive (by decide)
  obtain ⟨opened, opening, enters, records⟩ := closed.opens usable
  have held : opened.sockets 0 (s.bump 0).toInt32.toUInt32 = some 0x1000 := by
    rw [UInt32.toUInt32_toInt32, enters.sockets, Function.update_self, Function.update_self]
  have live : opened.records 0x1000 = some ⟨.udp, 0, (s.bump 0).toInt32, 0x2000, 0, none⟩ := by
    rw [records, Function.update_self]
  have registered : opened.address 0x2000 ≠ none := by
    rw [enters.address, Function.update_self]
    exact Option.some_ne_none _
  have fd : ¬(s.bump 0).toInt32 < 0 := by
    rw [Int32.le_iff_toInt_le] at positive
    rw [Int32.lt_iff_toInt_lt]
    change 1 ≤ (s.bump 0).toInt32.toInt at positive
    change ¬(s.bump 0).toInt32.toInt < 0
    omega
  obtain ⟨after, closing, leaves⟩ :=
    close_ok twoClients_valid (by decide) fd held live rfl registered
  have permitted : ∀ p ∈ some (0x1000 : Ptr), s.records p = none := fun p _ => closed.records p
  have run := run.on openOne ⟨by decide, permitted⟩ (machine_step.mpr opening)
  have run := run.on (.control 0 (.close (s.bump 0).toInt32)) ⟨by decide, trivial⟩
    (machine_step.mpr closing)
  refine ⟨after, ⟨_, run, ?_⟩, ?_, ?_, ?_, ?_⟩
  · rw [opens_concat, opens_concat, count]
    rfl
  · rw [leaves.bump, enters.bump, Function.update_self, UInt32.toNat_add, bump]
    exact Nat.mod_eq_of_lt (by change 1 + n + 1 < 2 ^ 32; omega)
  · rw [leaves.sockets, enters.sockets, UInt32.toUInt32_toInt32, Function.update_self,
      Function.update_self, Function.update_idem]
    intro fd
    by_cases here : fd = s.bump 0
    · rw [here, Function.update_self]
    · rw [Function.update_of_ne here, closed.sockets]
  · rw [leaves.address, enters.address, Function.update_idem]
    intro a
    by_cases here : a = 0x2000
    · rw [here, Function.update_self]
    · rw [Function.update_of_ne here, closed.address]
  · rw [leaves.records, records, Function.update_idem]
    intro p
    by_cases here : p = 0x1000
    · rw [here, Function.update_self]
    · rw [Function.update_of_ne here, closed.records]

theorem exists_closed (n : Nat) (small : n ≤ 2 ^ 31 - 1) : ∃ s, Closed n s := by
  induction n with
  | zero => exact ⟨_, .init⟩
  | succ n ih =>
    obtain ⟨s, closed⟩ := ih (by omega)
    exact closed.next (by omega)

/-- One socket before `INT_MAX` the ids are still fds. -/
theorem fds_valid_late : ∃ trace s, (machine twoClients).Run (.init fun _ => blankMsg) trace s ∧
    opens 0 trace = 2 ^ 31 - 2 ∧ FdsValid twoClients s 0 := by
  obtain ⟨s, closed⟩ := exists_closed (2 ^ 31 - 2) (by omega)
  obtain ⟨trace, run, count⟩ := closed.run
  obtain ⟨fds, begun⟩ := fds_valid_iff twoClients_valid run (show 0 < 2 by decide)
  exact ⟨trace, s, run, count, fds.mpr (begun (by omega))⟩

/-- The socket after `INT_MAX` others has a negative fd. -/
theorem fds_run_out : ∃ trace s after,
    (machine twoClients).Run (.init fun _ => blankMsg) trace s ∧ opens 0 trace = 2 ^ 31 - 1 ∧
      s.step twoClients openOne = .ok (after, .int (-2147483648)) ∧ ¬FdsValid twoClients s 0 := by
  obtain ⟨s, closed⟩ := exists_closed (2 ^ 31 - 1) le_rfl
  obtain ⟨trace, run, count⟩ := closed.run
  have bump : s.bump 0 = 0x80000000 := by
    apply UInt32.toNat_inj.mp
    rw [closed.bump]
    rfl
  have usable : Usable s 0 := by
    refine ⟨closed.sockets _, ?_, ?_⟩
    · rw [bump]
      decide
    · rw [bump]
      decide
  obtain ⟨after, opening, _⟩ := closed.opens usable
  have negative : (s.bump 0).toInt32 = -2147483648 := by
    rw [bump]
    decide
  rw [negative] at opening
  refine ⟨trace, s, after, run, count, opening, fun fds => ?_⟩
  rcases fds.opens _ _ _ _ _ _ opening with positive | ⟨failed, _⟩
  · exact absurd positive (by decide)
  · exact absurd failed (by decide)

end

end GlobalComponents.PicoServer
