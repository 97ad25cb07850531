import GlobalComponents.Library.Run
import GlobalComponents.PicoServer.Books

/-! The functions of `picoserver_client.c` on behalf of different clients.

Each call is what it does to the tables of its own client, and what it does to the parts that all
clients share: the socket address table and the memory of the socket records.
-/

set_option autoImplicit false

namespace GlobalComponents.PicoServer

open Library

/-- The caller of `client_put_socket` has filled a new record. `memory` says whether the insertions
find memory. -/
inductive ClientCall where
  | putSocket (record socket : Ptr) (protocol : Protocol) (memory : Bool × Bool)
  | deleteSocket (socketId : Int32)
  | putEvent (socketId : Int32) (event : UInt16) (memory : Bool)
  | getEvent

inductive Returned where
  | int (ret : Int32)
  | event (event : SocketEvent)
  deriving DecidableEq

def Server.clientCall (config : Config) (s : Server) (clientId : Nat) :
    ClientCall → Except Fault (Server × Returned)
  | .putSocket record socket protocol memory => do
    let s := s.setRecord record ⟨protocol, clientId, 0, socket, 0, none⟩
    let (s, ret) ← clientPutSocket config s clientId record memory
    return (s, .int ret)
  | .deleteSocket socketId => do
    let (s, ret) ← clientDeleteSocket s clientId socketId
    return (s, .int ret)
  | .putEvent socketId event memory => do
    let (s, ret) ← clientPutEvent s clientId socketId event memory
    return (s, .int ret)
  | .getEvent => do
    let (s, event) ← clientGetEvent s clientId
    return (s, .event event)

/-- A record is handed in while no table has it, and the stack does not hand out an address that is
still registered. The shared table has room for it. -/
def Server.MayCall (config : Config) (s : Server) : Nat × ClientCall → Prop
  | (clientId, .putSocket record socket _ memory) => clientId < config.numClients ∧
    (∀ c fd, s.sockets c fd ≠ some record) ∧ clientGetSocketByAddr s socket = none ∧
    ¬s.socketAddrTable.Refuses memory.2 ∧ ¬s.socketAddrTable.Crowded
  | (clientId, _) => clientId < config.numClients

/-- A call that faults is a result too. -/
def clientCalls (config : Config) : Machine Server (Nat × ClientCall) (Except Fault Returned) where
  allowed s event := s.MayCall config event
  step s event := match s.clientCall config event.1 event.2 with
    | .ok (after, returned) => some (after, .ok returned)
    | .error fault => some (s, .error fault)

/-! ## The client's own tables -/

def Client.enter (client : Client) (record : Ptr) (memory : Bool) :
    Except Fault (Client × Option UInt32) := do
  let (freeId, client) ← findFreeId client
  if freeId = 0 then return (client, none)
  let (table, socketIter, ret) := client.socketTable.put freeId memory
  if ret = -1 then return ({ client with socketTable := table }, none)
  zfLogfIf (ret = 0) "Tried to replace an entry in the socket table for client"
  return ({ client with socketTable := table.setVal socketIter record }, some freeId)

def Client.drop (client : Client) (fd : UInt32) : Client where
  bumpIndex := client.bumpIndex
  socketTable := client.socketTable.del (client.socketTable.get fd)
  socketEventSet :=
    if client.socketEventSet.get fd ≠ client.socketEventSet.last then
      client.socketEventSet.del (client.socketEventSet.get fd)
    else client.socketEventSet

variable {config : Config} {s t after after' : Server} {c d : Nat} {record socket p : Ptr}
  {client : Client}

theorem findFreeIdLoop_free {table : Table intHashFunc Ptr} {oldIndex curr id bump : UInt32}
    {fuel : Nat} (done : findFreeIdLoop table oldIndex fuel curr = .ok (id, bump)) :
    id = 0 ∨ table.lookup id = none := by
  -- the loop ends at a free id, or with 0 once it is back where it began
  induction fuel generalizing curr with
  | zero => cases done
  | succ fuel ih =>
    rw [findFreeIdLoop] at done
    split at done
    · next free =>
      cases done
      exact .inr (Table.lookup_eq_none.mpr free)
    · dsimp only at done
      generalize (if curr + 1 = 0x80000000 then 1 else curr + 1) = following at done
      split at done
      · cases done
        exact .inl rfl
      · exact ih done

theorem findFreeId_free {after : Client} {id : UInt32} (done : findFreeId client = .ok (id, after)) :
    (id = 0 ∨ client.socketTable.lookup id = none) ∧
      after.socketTable = client.socketTable ∧ after.socketEventSet = client.socketEventSet := by
  obtain ⟨⟨freeId, bump⟩, found, done⟩ := bind_ok.mp done
  cases done
  exact ⟨findFreeIdLoop_free found, rfl, rfl⟩

theorem enter_sockets {after : Client} {memory : Bool} {id : Option UInt32}
    (done : client.enter record memory = .ok (after, id)) :
    (id = none ∧ after.socketTable.lookup = client.socketTable.lookup) ∨
      ∃ fd, id = some fd ∧ client.socketTable.lookup fd = none ∧
        after.socketTable.lookup = Function.update client.socketTable.lookup fd (some record) := by
  obtain ⟨⟨freeId, middle⟩, found, done⟩ := bind_ok.mp done
  obtain ⟨free, table, _⟩ := findFreeId_free found
  dsimp only at done
  split at done
  · cases done
    exact .inl ⟨rfl, by rw [table]⟩
  · next nonzero =>
    have free := free.resolve_left nonzero
    have spec := middle.socketTable.put_spec freeId memory
    generalize middle.socketTable.put freeId memory = result at spec done
    cases spec with
    | failed refuses =>
      cases done
      exact .inl ⟨rfl, by rw [← table]⟩
    | kept => cases done
    | @added table' iter ret kind absent bucket live here lookup made room =>
      have counts : ¬ret = -1 ∧ ¬ret = 0 := by rcases kind with rfl | rfl <;> decide
      dsimp only at done
      rw [if_neg counts.1] at done
      obtain ⟨_, _, done⟩ := bind_ok.mp done
      cases done
      refine .inr ⟨freeId, rfl, free, ?_⟩
      dsimp only
      rw [Table.lookup_setVal bucket live, lookup, here, Function.update_idem, table]

/-! ## The calls in terms of the client's own part -/

theorem Server.setClient_setSocketTable {table : Table intHashFunc Ptr} :
    (s.setClient c client).setSocketTable c table =
      s.setClient c { client with socketTable := table } := by
  simp [Server.setSocketTable, Server.setClient]

def Server.registered (s : Server) (socket record : Ptr) (memory : Bool) :
    Table int64HashFunc Ptr :=
  (s.socketAddrTable.put socket memory).1.setVal (s.socketAddrTable.put socket memory).2.1 record

theorem putSocketAddr_takes {new : Socket} (freeId : UInt32) (iter : Nat) {memory : Bool}
    (held : s.records record = some new) (fresh : s.address new.socket = none)
    (made : ¬s.socketAddrTable.Refuses memory) (room : ¬s.socketAddrTable.Crowded) :
    (s.registered new.socket record memory).lookup =
        Function.update s.address new.socket (some record) ∧
      putSocketAddr s c record iter freeId memory =
        .ok (s.setSocketAddrTable (s.registered new.socket record memory), freeId.toInt32) := by
  have spec := s.socketAddrTable.put_spec new.socket memory
  rw [putSocketAddr, Server.deref_ok.mpr held]
  unfold Server.registered
  simp only [bind, Except.bind]
  generalize s.socketAddrTable.put new.socket memory = result at spec
  cases spec with
  | failed refuses => exact absurd refuses made
  | kept _ _ _ _ crowded => exact absurd (crowded fresh) room
  | @added table x ret kind absent bucket live here lookup =>
    have counts : ¬ret = -1 ∧ ¬ret = 0 := by rcases kind with rfl | rfl <;> decide
    rw [if_neg counts.1, if_neg counts.2]
    refine ⟨?_, rfl⟩
    rw [Table.lookup_setVal bucket live, lookup, here, Function.update_idem]
    rfl

def Server.filled (s : Server) (c : Nat) (record socket : Ptr) (protocol : Protocol) : Server :=
  s.setRecord record ⟨protocol, c, 0, socket, 0, none⟩

theorem putSocket_eq {protocol : Protocol} {memory : Bool × Bool}
    (allowed : s.MayCall config (c, .putSocket record socket protocol memory)) :
    (s.registered socket record memory.2).lookup =
        Function.update s.address socket (some record) ∧
      s.clientCall config c (.putSocket record socket protocol memory) =
        ((s.clients c).enter record memory.1).map fun entered =>
          let after := (s.filled c record socket protocol).setClient c entered.1
          match entered.2 with
          | none => (after, .int (-1))
          | some freeId => (after.setSocketAddrTable (s.registered socket record memory.2),
              .int freeId.toInt32) := by
  obtain ⟨small, _, fresh, made, room⟩ := allowed
  have takes : ∀ entered iter freeId,
      putSocketAddr ((s.filled c record socket protocol).setClient c entered) c record iter freeId
        memory.2 = .ok (((s.filled c record socket protocol).setClient c entered).setSocketAddrTable
          (s.registered socket record memory.2), freeId.toInt32) := by
    intro entered iter freeId
    have held : ((s.filled c record socket protocol).setClient c entered).records record =
        some ⟨protocol, c, 0, socket, 0, none⟩ := Function.update_self _ _ _
    exact (putSocketAddr_takes freeId iter held fresh made room).2
  have held : (s.filled c record socket protocol).records record =
      some ⟨protocol, c, 0, socket, 0, none⟩ := Function.update_self _ _ _
  refine ⟨(putSocketAddr_takes (c := c) 0 0 held fresh made room).1, ?_⟩
  have bounded : zfLogfIf (config.numClients ≤ c)
      "Client ID is greater than the number of clients registered" = .ok () :=
    zfLogfIf_ok.mpr (Nat.not_le.mpr small)
  have own : (s.filled c record socket protocol).clients c = s.clients c := rfl
  change (clientPutSocket config (s.filled c record socket protocol) c record memory >>= _) = _
  unfold clientPutSocket Client.enter
  rw [bounded, own]
  cases findFreeId (s.clients c) with
  | error fault => rfl
  | ok found =>
    obtain ⟨freeId, middle⟩ := found
    simp only [bind, Except.bind]
    by_cases zero : freeId = 0
    · rw [if_pos zero, if_pos zero]
      rfl
    · rw [if_neg zero, if_neg zero]
      generalize middle.socketTable.put freeId memory.1 = result
      obtain ⟨table, iter, ret⟩ := result
      dsimp only
      by_cases failed : ret = -1
      · rw [if_pos failed, if_pos failed, Server.setClient_setSocketTable]
        rfl
      · rw [if_neg failed, if_neg failed, Server.setClient_setSocketTable, takes]
        by_cases replaced : ret = 0
        · rw [zfLogfIf, faultIf, if_pos replaced]
          rfl
        · rw [zfLogfIf, faultIf, if_neg replaced]
          rfl

theorem dropEvent_eq (fd : Int32) : dropEvent s c fd = s.setClient c { s.clients c with
    socketEventSet := if (s.clients c).socketEventSet.get fd.toUInt32 ≠
        (s.clients c).socketEventSet.last then
      (s.clients c).socketEventSet.del ((s.clients c).socketEventSet.get fd.toUInt32)
    else (s.clients c).socketEventSet } := by
  unfold dropEvent
  dsimp only
  split
  · rfl
  · simp [Server.setClient]

theorem deleteSocket_none {fd : Int32} (missing : s.sockets c fd.toUInt32 = none) :
    s.clientCall config c (.deleteSocket fd) = .ok (s, .int (-1)) := by
  have absent := Table.lookup_eq_none.mp missing
  rw [Server.clientCall, clientDeleteSocket, if_pos absent]
  rfl

theorem deleteSocket_some {fd : Int32} {old : Socket} (held : s.sockets c fd.toUInt32 = some p)
    (live : s.records p = some old) (registered : s.address old.socket = some p) :
    s.clientCall config c (.deleteSocket fd) =
      .ok (((s.free p).setClient c ((s.clients c).drop fd.toUInt32)).setSocketAddrTable
        (s.socketAddrTable.del (s.socketAddrTable.get old.socket)), .int 0) := by
  obtain ⟨found, here⟩ := Table.lookup_eq_some.mp held
  have entry : zfLogfIf (s.socketAddrTable.get old.socket = s.socketAddrTable.last)
      "Corresponding entry in the socket address table doesn't exist!" = .ok () :=
    zfLogfIf_ok.mpr (Table.lookup_eq_some.mp registered).1
  rw [Server.clientCall, clientDeleteSocket, if_neg found, here]
  simp only [bind, Except.bind, Server.deref_ok.mpr live]
  rw [entry]
  have dropped := dropEvent_eq (s := ((s.free p).setSocketTable c ((s.clients c).socketTable.del
    ((s.clients c).socketTable.get fd.toUInt32))).setSocketAddrTable
    (s.socketAddrTable.del (s.socketAddrTable.get old.socket))) (c := c) fd
  refine (congrArg (fun after => Except.ok (after, Returned.int 0)) dropped).trans ?_
  simp [Server.setSocketTable, Server.setSocketAddrTable, Server.setClient, Server.free,
    Client.drop]

theorem putEvent_none {fd : Int32} {ev : UInt16} {memory : Bool}
    (missing : s.sockets c fd.toUInt32 = none) :
    s.clientCall config c (.putEvent fd ev memory) = .ok (s, .int (-1)) := by
  have absent : clientGetSocket s c fd = none := missing
  rw [Server.clientCall, clientPutEvent, absent]
  rfl

theorem putEvent_some {fd : Int32} {ev : UInt16} {memory : Bool} {old : Socket}
    (held : s.sockets c fd.toUInt32 = some p) (live : s.records p = some old) :
    s.clientCall config c (.putEvent fd ev memory) =
      .ok ((s.setRecord p { old with events := old.events ||| ev }).setClient c
        { s.clients c with
          socketEventSet := ((s.clients c).socketEventSet.put fd.toUInt32 memory).1 },
        .int (if ((s.clients c).socketEventSet.put fd.toUInt32 memory).2.2 = -1 then -1 else 0)) := by
  have found : clientGetSocket s c fd = some p := held
  rw [Server.clientCall, clientPutEvent, found]
  simp only [bind, Except.bind, Server.deref_ok.mpr live]
  rfl

def Client.firstEvent (client : Client) : Option (UInt32 × Client) :=
  let set := client.socketEventSet
  let iter := set.first
  if set.last ≤ iter then none
  else some (set.key iter, { client with socketEventSet := set.del iter })

theorem firstEvent_none (empty : client.firstEvent = none) :
    client.socketEventSet.last ≤ client.socketEventSet.first := by
  unfold Client.firstEvent at empty
  dsimp only at empty
  split at empty
  · next nothing => exact nothing
  · cases empty

theorem firstEvent_some {fd : UInt32} {rest : Client} (first : client.firstEvent = some (fd, rest)) :
    ¬client.socketEventSet.last ≤ client.socketEventSet.first ∧
      client.socketEventSet.key client.socketEventSet.first = fd ∧
      rest = { client with
        socketEventSet := client.socketEventSet.del client.socketEventSet.first } := by
  unfold Client.firstEvent at first
  dsimp only at first
  split at first
  · cases first
  · next found =>
    cases first
    exact ⟨found, rfl, rfl⟩

theorem firstEvent_sockets {fd : UInt32} {rest : Client}
    (first : client.firstEvent = some (fd, rest)) : rest.socketTable = client.socketTable := by
  obtain ⟨_, _, rfl⟩ := firstEvent_some first
  rfl

theorem clientGetSocket_setSocketEventSet {set : Table intHashFunc Unit} (fd : UInt32) :
    clientGetSocket (s.setSocketEventSet c set) c fd.toInt32 = s.sockets c fd := by
  rw [clientGetSocket, UInt32.toUInt32_toInt32]
  exact congrFun (congrFun Server.sockets_setSocketEventSet c) fd

theorem getEvent_none (empty : (s.clients c).firstEvent = none) :
    s.clientCall config c .getEvent = .ok (s, .event .none) := by
  rw [Server.clientCall, clientGetEvent, if_pos (firstEvent_none empty)]
  rfl

theorem getEvent_zero (first : (s.clients c).firstEvent = some (0, client)) :
    s.clientCall config c .getEvent = .ok (s.setClient c client, .event .none) := by
  obtain ⟨found, key, rfl⟩ := firstEvent_some first
  rw [Server.clientCall, clientGetEvent, if_neg found]
  dsimp only
  rw [if_pos key]
  rfl

theorem getEvent_missing {fd : UInt32} (first : (s.clients c).firstEvent = some (fd, client))
    (nonzero : fd ≠ 0) (missing : s.sockets c fd = none) :
    s.clientCall config c .getEvent = .error
      (.logf "Could not find picoserver_socket struct for client id and socket") := by
  obtain ⟨found, key, rfl⟩ := firstEvent_some first
  rw [Server.clientCall, clientGetEvent, if_neg found]
  dsimp only
  rw [key, if_neg nonzero, clientGetSocket_setSocketEventSet, missing]
  rfl

theorem getEvent_some {fd : UInt32} {old : Socket}
    (first : (s.clients c).firstEvent = some (fd, client)) (nonzero : fd ≠ 0)
    (held : s.sockets c fd = some p) (live : s.records p = some old) :
    s.clientCall config c .getEvent =
      .ok ((s.setClient c client).setRecord p { old with events := 0 },
        .event ⟨fd.toInt32, old.events, client.socketEventSet.size⟩) := by
  obtain ⟨found, key, rfl⟩ := firstEvent_some first
  rw [Server.clientCall, clientGetEvent, if_neg found]
  dsimp only
  have deref : (s.setSocketEventSet c ((s.clients c).socketEventSet.del
      (s.clients c).socketEventSet.first)).deref p = .ok old := Server.deref_ok.mpr live
  rw [key, if_neg nonzero, clientGetSocket_setSocketEventSet, held]
  dsimp only
  rw [deref]
  rfl

end GlobalComponents.PicoServer
