import GlobalComponents.Library.Unwinding
import GlobalComponents.PicoServer.Calls

/-! No client of the PicoServer sees the calls of another.

What a call returns depends on the tables of its own client and on the records in them. The others
change neither: a record is in one table only.
-/

set_option autoImplicit false

namespace GlobalComponents.PicoServer

open Library

variable {config : Config} {s t after : Server} {c d : Nat} {record p : Ptr} {client : Client}

/-! ## The clients keep apart -/

structure Separate (s : Server) : Prop where
  live : ∀ c fd p, s.sockets c fd = some p →
    ∃ old, s.records p = some old ∧ s.address old.socket = some p
  place : ∀ c d fd k p, s.sockets c fd = some p → s.sockets d k = some p → c = d ∧ fd = k
  entry : ∀ a p, s.address a = some p →
    ∃ c fd old, s.sockets c fd = some p ∧ s.records p = some old ∧ old.socket = a

theorem Separate.fill (separate : Separate s) (unused : ∀ c fd, s.sockets c fd ≠ some record)
    {new : Socket} (sockets : after.sockets = s.sockets) (address : after.address = s.address)
    (records : after.records = Function.update s.records record (some new)) :
    Separate after where
  live d k q held := by
    rw [sockets] at held
    obtain ⟨old, alive, registered⟩ := separate.live d k q held
    have other : q ≠ record := fun same => unused d k (same ▸ held)
    exact ⟨old, by rw [records, Function.update_of_ne other, alive], address ▸ registered⟩
  place := sockets ▸ separate.place
  entry a q held := by
    rw [address] at held
    obtain ⟨d, k, old, there, alive, same⟩ := separate.entry a q held
    have other : q ≠ record := fun same => unused d k (same ▸ there)
    exact ⟨d, k, old, sockets ▸ there, by rw [records, Function.update_of_ne other, alive], same⟩

theorem Separate.write (separate : Separate s) {fd : UInt32} {old new : Socket}
    (held : s.sockets c fd = some p) (live : s.records p = some old)
    (same : new.socket = old.socket) (sockets : after.sockets = s.sockets)
    (address : after.address = s.address)
    (records : after.records = Function.update s.records p (some new)) : Separate after := by
  have alive : ∀ q plain, s.records q = some plain →
      ∃ plain', after.records q = some plain' ∧ plain'.socket = plain.socket := by
    intro q plain there
    rw [records]
    by_cases here : q = p
    · subst here
      obtain rfl := Option.some.inj (live.symm.trans there)
      exact ⟨new, Function.update_self _ _ _, same⟩
    · exact ⟨plain, by rw [Function.update_of_ne here, there], rfl⟩
  refine ⟨fun d k q there => ?_, sockets ▸ separate.place, fun a q there => ?_⟩
  · rw [sockets] at there
    obtain ⟨plain, live, registered⟩ := separate.live d k q there
    obtain ⟨plain', live', socket⟩ := alive q plain live
    exact ⟨plain', live', by rw [address, socket, registered]⟩
  · rw [address] at there
    obtain ⟨d, k, plain, place, live, socket⟩ := separate.entry a q there
    obtain ⟨plain', live', socket'⟩ := alive q plain live
    exact ⟨d, k, plain', sockets ▸ place, live', socket'.trans socket⟩

theorem Separate.enter (separate : Separate s) (unused : ∀ c fd, s.sockets c fd ≠ some record)
    {fd : UInt32} {new : Socket} (fresh : s.address new.socket = none)
    (absent : s.sockets c fd = none)
    (sockets : after.sockets =
      Function.update s.sockets c (Function.update (s.sockets c) fd (some record)))
    (address : after.address = Function.update s.address new.socket (some record))
    (records : after.records = Function.update s.records record (some new)) :
    Separate after := by
  have entry : after.sockets c fd = some record := by
    rw [sockets, Function.update_self, Function.update_self]
  have cases' : ∀ d k q, after.sockets d k = some q →
      d = c ∧ k = fd ∧ q = record ∨ s.sockets d k = some q ∧ q ≠ record := by
    intro d k q held
    rw [sockets, entry_update] at held
    split at held
    · next here => exact .inl ⟨here.1, here.2, (Option.some.inj held).symm⟩
    · exact .inr ⟨held, fun same => unused d k (same ▸ held)⟩
  refine ⟨fun d k q held => ?_, fun d e k j q here there => ?_, fun a q held => ?_⟩
  · rcases cases' d k q held with ⟨rfl, rfl, rfl⟩ | ⟨before, other⟩
    · exact ⟨new, by rw [records, Function.update_self], by rw [address, Function.update_self]⟩
    · obtain ⟨old, alive, registered⟩ := separate.live d k q before
      refine ⟨old, by rw [records, Function.update_of_ne other, alive], ?_⟩
      rw [address, Function.update_of_ne, registered]
      intro same
      rw [same, fresh] at registered
      cases registered
  · rcases cases' d k q here with ⟨rfl, rfl, new⟩ | ⟨before, old⟩
    · rcases cases' e j q there with ⟨rfl, rfl, _⟩ | ⟨_, old⟩
      · exact ⟨rfl, rfl⟩
      · exact absurd new old
    · rcases cases' e j q there with ⟨_, _, new⟩ | ⟨before', _⟩
      · exact absurd new old
      · exact separate.place d e k j q before before'
  · rw [address] at held
    by_cases here : a = new.socket
    · rw [here, Function.update_self] at held
      cases held
      exact ⟨c, fd, new, entry, by rw [records, Function.update_self], here.symm⟩
    · rw [Function.update_of_ne here] at held
      obtain ⟨d, k, old, there, alive, same⟩ := separate.entry a q held
      have other : q ≠ record := fun same => unused d k (same ▸ there)
      refine ⟨d, k, old, ?_, by rw [records, Function.update_of_ne other, alive], same⟩
      rw [sockets, entry_update, if_neg, there]
      rintro ⟨rfl, rfl⟩
      rw [absent] at there
      cases there

theorem Separate.delete (separate : Separate s) {fd : UInt32} {old : Socket}
    (held : s.sockets c fd = some p) (live : s.records p = some old)
    (sockets : after.sockets = Function.update s.sockets c (Function.update (s.sockets c) fd none))
    (address : after.address = Function.update s.address old.socket none)
    (records : after.records = Function.update s.records p none) : Separate after := by
  obtain ⟨plain, alive, registered⟩ := separate.live c fd p held
  obtain rfl := Option.some.inj (live.symm.trans alive)
  have before : ∀ d k q, after.sockets d k = some q → s.sockets d k = some q ∧ q ≠ p := by
    intro d k q there
    rw [sockets, entry_update] at there
    split at there
    · cases there
    · next elsewhere =>
      refine ⟨there, ?_⟩
      rintro rfl
      exact elsewhere (separate.place d c k fd q there held)
  refine ⟨fun d k q there => ?_, fun d e k j q here there => ?_, fun a q there => ?_⟩
  · obtain ⟨there, other⟩ := before d k q there
    obtain ⟨plain, alive, registered'⟩ := separate.live d k q there
    refine ⟨plain, by rw [records, Function.update_of_ne other, alive], ?_⟩
    rw [address, Function.update_of_ne, registered']
    intro same
    rw [same, registered] at registered'
    exact other (Option.some.inj registered').symm
  · exact separate.place d e k j q (before d k q here).1 (before e j q there).1
  · rw [address] at there
    have elsewhere : a ≠ old.socket := by
      rintro rfl
      rw [Function.update_self] at there
      cases there
    rw [Function.update_of_ne elsewhere] at there
    obtain ⟨d, k, plain, place, found, same⟩ := separate.entry a q there
    have other : q ≠ p := by
      rintro rfl
      obtain rfl := Option.some.inj (live.symm.trans found)
      exact elsewhere same.symm
    refine ⟨d, k, plain, ?_, by rw [records, Function.update_of_ne other, found], same⟩
    rw [sockets, entry_update, if_neg, place]
    rintro ⟨rfl, rfl⟩
    exact other (Option.some.inj (place.symm.trans held))

/-! ## What a call does to the shared part -/

inductive Change where
  | none
  | fill (record : Ptr) (new : Socket)
  | enter (record : Ptr) (new : Socket) (memory : Bool)
  | delete (record socket : Ptr)
  | write (record : Ptr) (new : Socket)

def Change.apply (s : Server) : Change → Server
  | .none => s
  | .fill record new | .write record new => s.setRecord record new
  | .enter record new memory =>
    (s.setRecord record new).setSocketAddrTable (s.registered new.socket record memory)
  | .delete record socket =>
    (s.free record).setSocketAddrTable (s.socketAddrTable.del (s.socketAddrTable.get socket))

def Change.perform (change : Change) (s : Server) (c : Nat) (client : Client) : Server :=
  (change.apply s).setClient c client

def Client.call (client : Client) (clientId : Nat) (records : Ptr → Option Socket) :
    ClientCall → Except Fault (Client × Change × Returned)
  | .putSocket record socket protocol memory =>
    (client.enter record memory.1).map fun entered =>
      let new := ⟨protocol, clientId, 0, socket, 0, none⟩
      match entered.2 with
      | none => (entered.1, .fill record new, .int (-1))
      | some freeId => (entered.1, .enter record new memory.2, .int freeId.toInt32)
  | .deleteSocket socketId =>
    match client.socketTable.lookup socketId.toUInt32 with
    | none => .ok (client, .none, .int (-1))
    | some record =>
      match records record with
      | none => .error .dangling
      | some old => .ok (client.drop socketId.toUInt32, .delete record old.socket, .int 0)
  | .putEvent socketId event memory =>
    match client.socketTable.lookup socketId.toUInt32 with
    | none => .ok (client, .none, .int (-1))
    | some record =>
      match records record with
      | none => .error .dangling
      | some old =>
        let (set, _, ret) := client.socketEventSet.put socketId.toUInt32 memory
        .ok ({ client with socketEventSet := set },
          .write record { old with events := old.events ||| event },
          .int (if ret = -1 then -1 else 0))
  | .getEvent =>
    match client.firstEvent with
    | none => .ok (client, .none, .event .none)
    | some (fd, client') =>
      if fd = 0 then .ok (client', .none, .event .none)
      else
        match client.socketTable.lookup fd with
        | none =>
          .error (.logf "Could not find picoserver_socket struct for client id and socket")
        | some record =>
          match records record with
          | none => .error .dangling
          | some old => .ok (client', .write record { old with events := 0 },
              .event ⟨fd.toInt32, old.events, client'.socketEventSet.size⟩)

theorem Server.setClient_self : s.setClient c (s.clients c) = s := by
  simp [Server.setClient]

/-- The server makes the call for its client and changes the shared part accordingly. -/
theorem clientCall_eq {call : ClientCall} (separate : Separate s)
    (allowed : s.MayCall config (c, call)) :
    s.clientCall config c call = ((s.clients c).call c s.records call).map fun called =>
      (called.2.1.perform s c called.1, called.2.2) := by
  -- each operation on the whole server is its own part and a change elsewhere
  cases call with
  | putSocket record socket protocol memory =>
    rw [(putSocket_eq allowed).2, Client.call]
    cases (s.clients c).enter record memory.1 with
    | error fault => rfl
    | ok entered =>
      obtain ⟨client, id⟩ := entered
      cases id with
      | none | some => rfl
  | deleteSocket fd =>
    rw [Client.call]
    cases held : (s.clients c).socketTable.lookup fd.toUInt32 with
    | none =>
      rw [deleteSocket_none held]
      exact congrArg (fun s => Except.ok (s, Returned.int (-1))) Server.setClient_self.symm
    | some p =>
      obtain ⟨old, live, registered⟩ := separate.live c fd.toUInt32 p held
      rw [deleteSocket_some held live registered]
      dsimp only
      rw [live]
      rfl
  | putEvent fd ev memory =>
    rw [Client.call]
    cases held : (s.clients c).socketTable.lookup fd.toUInt32 with
    | none =>
      rw [putEvent_none held]
      exact congrArg (fun s => Except.ok (s, Returned.int (-1))) Server.setClient_self.symm
    | some p =>
      obtain ⟨old, live, _⟩ := separate.live c fd.toUInt32 p held
      rw [putEvent_some held live]
      dsimp only
      rw [live]
      rfl
  | getEvent =>
    rw [Client.call]
    cases first : (s.clients c).firstEvent with
    | none =>
      rw [getEvent_none first]
      exact congrArg (fun s => Except.ok (s, Returned.event .none)) Server.setClient_self.symm
    | some taken =>
      obtain ⟨fd, client⟩ := taken
      dsimp only
      by_cases zero : fd = 0
      · subst zero
        rw [getEvent_zero first, if_pos rfl]
        rfl
      · rw [if_neg zero]
        cases held : (s.clients c).socketTable.lookup fd with
        | none =>
          rw [getEvent_missing first zero held]
          rfl
        | some p =>
          obtain ⟨old, live, _⟩ := separate.live c fd p held
          rw [getEvent_some first zero held live]
          dsimp only
          rw [live]
          rfl

/-- A call reads no records but those in its client's table. -/
theorem call_congr {records records' : Ptr → Option Socket} (call : ClientCall)
    (same : ∀ fd p, client.socketTable.lookup fd = some p → records' p = records p) :
    client.call c records' call = client.call c records call := by
  cases call with
  | putSocket => rfl
  | deleteSocket fd =>
    rw [Client.call, Client.call]
    cases held : client.socketTable.lookup fd.toUInt32 with
    | none => rfl
    | some p =>
      dsimp only
      rw [same _ p held]
  | putEvent fd ev memory =>
    rw [Client.call, Client.call]
    cases held : client.socketTable.lookup fd.toUInt32 with
    | none => rfl
    | some p =>
      dsimp only
      rw [same _ p held]
  | getEvent =>
    rw [Client.call, Client.call]
    cases first : client.firstEvent with
    | none => rfl
    | some taken =>
      obtain ⟨fd, client'⟩ := taken
      dsimp only
      cases held : client.socketTable.lookup fd with
      | none => rfl
      | some p =>
        dsimp only
        rw [same _ p held]

inductive Effect (s : Server) (c : Nat) (client : Client) : Change → Prop where
  | none : client.socketTable.lookup = s.sockets c → Effect s c client .none
  | fill {record : Ptr} {new : Socket} : (∀ d k, s.sockets d k ≠ some record) →
      client.socketTable.lookup = s.sockets c → Effect s c client (.fill record new)
  | enter {record : Ptr} {new : Socket} {memory : Bool} {fd : UInt32} :
      (∀ d k, s.sockets d k ≠ some record) → s.address new.socket = Option.none →
      (s.registered new.socket record memory).lookup =
        Function.update s.address new.socket (some record) →
      s.sockets c fd = Option.none →
      client.socketTable.lookup = Function.update (s.sockets c) fd (some record) →
      Effect s c client (.enter record new memory)
  | delete {record : Ptr} {old : Socket} {fd : UInt32} : s.sockets c fd = some record →
      s.records record = some old →
      client.socketTable.lookup = Function.update (s.sockets c) fd Option.none →
      Effect s c client (.delete record old.socket)
  | write {record : Ptr} {old new : Socket} {fd : UInt32} : s.sockets c fd = some record →
      s.records record = some old → new.socket = old.socket →
      client.socketTable.lookup = s.sockets c → Effect s c client (.write record new)

theorem call_effect {call : ClientCall} {change : Change} {returned : Returned}
    (allowed : s.MayCall config (c, call))
    (done : (s.clients c).call c s.records call = .ok (client, change, returned)) :
    Effect s c client change := by
  cases call with
  | putSocket record socket protocol memory =>
    have lookup := (putSocket_eq allowed).1
    rw [Client.call] at done
    cases entering : (s.clients c).enter record memory.1 with
    | error fault =>
      rw [entering] at done
      cases done
    | ok entered =>
      rw [entering] at done
      obtain ⟨after, id⟩ := entered
      rcases enter_sockets entering with ⟨rfl, same⟩ | ⟨fd, rfl, absent, same⟩
      · cases done
        exact .fill allowed.2.1 same
      · cases done
        exact .enter allowed.2.1 allowed.2.2.1 lookup absent same
  | deleteSocket fd =>
    rw [Client.call] at done
    split at done
    · cases done
      exact .none rfl
    · next p held =>
      split at done
      · cases done
      · next old live =>
        cases done
        exact .delete held live (Table.lookup_del_get (Table.lookup_eq_some.mp held).1)
  | putEvent fd ev memory =>
    rw [Client.call] at done
    split at done
    · cases done
      exact .none rfl
    · next p held =>
      split at done
      · cases done
      · next old live =>
        cases done
        exact .write held live rfl rfl
  | getEvent =>
    rw [Client.call] at done
    split at done
    · cases done
      exact .none rfl
    · next fd client' first =>
      have table : client'.socketTable.lookup = s.sockets c :=
        congrArg Table.lookup (firstEvent_sockets first)
      split at done
      · cases done
        exact .none table
      · split at done
        · cases done
        · next p held =>
          split at done
          · cases done
          · next old live =>
            cases done
            exact .write held live rfl table

theorem perform_clients {change : Change} (d : Nat) : (change.perform s c client).clients d =
    if d = c then client else s.clients d := by
  have same : (change.apply s).clients = s.clients := by
    cases change with
    | none | fill | enter | delete | write => rfl
  unfold Change.perform Server.setClient
  dsimp only
  rw [same, Function.update_apply]

theorem perform_sockets {change : Change} : (change.perform s c client).sockets =
    Function.update s.sockets c client.socketTable.lookup := by
  funext d fd
  unfold Server.sockets
  rw [perform_clients]
  by_cases here : d = c
  · subst here
    rw [if_pos rfl, Function.update_self]
  · rw [if_neg here, Function.update_of_ne here]

theorem Effect.separate {change : Change} (effect : Effect s c client change)
    (separate : Separate s) : Separate (change.perform s c client) := by
  have sockets : (change.perform s c client).sockets =
      Function.update s.sockets c client.socketTable.lookup := perform_sockets
  cases effect with
  | none same =>
    rw [same, Function.update_eq_self] at sockets
    exact ⟨sockets ▸ separate.live, sockets ▸ separate.place, sockets ▸ separate.entry⟩
  | fill unused same =>
    rw [same, Function.update_eq_self] at sockets
    exact separate.fill unused sockets rfl rfl
  | enter unused fresh lookup absent same =>
    rw [same] at sockets
    exact separate.enter unused fresh absent sockets lookup rfl
  | @delete record old fd held live same =>
    rw [same] at sockets
    obtain ⟨plain, alive, registered⟩ := separate.live c fd record held
    obtain rfl := Option.some.inj (live.symm.trans alive)
    exact separate.delete held live sockets
      (Table.lookup_del_get (Table.lookup_eq_some.mp registered).1) rfl
  | write held live address same =>
    rw [same, Function.update_eq_self] at sockets
    exact separate.write held live address sockets rfl rfl

theorem Effect.records {change : Change} (effect : Effect s c client change)
    (separate : Separate s) (other : d ≠ c) {fd : UInt32} (held : s.sockets d fd = some p) :
    (change.perform s c client).records p = s.records p := by
  cases effect with
  | none => rfl
  | @fill record _ unused | @enter record _ _ _ unused =>
    have different : p ≠ record := by
      rintro rfl
      exact unused d fd held
    exact Function.update_of_ne different _ _
  | @delete record _ _ owned =>
    have different : p ≠ record := by
      rintro rfl
      exact other (separate.place d c _ _ p held owned).1
    exact Function.update_of_ne different _ _
  | @write record _ _ _ owned =>
    have different : p ≠ record := by
      rintro rfl
      exact other (separate.place d c _ _ p held owned).1
    exact Function.update_of_ne different _ _

/-- The same change makes the same of the records that were the same, and of a new one. -/
theorem Effect.records_congr {change : Change} (effect : Effect s c client change)
    {client' : Client} (same : ∀ fd p, s.sockets c fd = some p → t.records p = s.records p)
    {fd : UInt32} (held : client.socketTable.lookup fd = some p) :
    (change.perform t c client').records p = (change.perform s c client).records p := by
  cases effect with
  | none sockets =>
    rw [sockets] at held
    exact same fd p held
  | @fill record new unused sockets =>
    rw [sockets] at held
    have different : p ≠ record := fun here => unused c fd (here ▸ held)
    show Function.update t.records record (some new) p =
      Function.update s.records record (some new) p
    rw [Function.update_of_ne different, Function.update_of_ne different, same fd p held]
  | @enter record new memory fd' unused _ _ _ sockets =>
    show Function.update t.records record (some new) p =
      Function.update s.records record (some new) p
    by_cases here : p = record
    · rw [here, Function.update_self, Function.update_self]
    · rw [Function.update_of_ne here, Function.update_of_ne here]
      rw [sockets] at held
      by_cases entered : fd = fd'
      · rw [entered, Function.update_self] at held
        exact absurd (Option.some.inj held).symm here
      · rw [Function.update_of_ne entered] at held
        exact same fd p held
  | @delete record old fd' _ _ sockets =>
    show Function.update t.records record Option.none p =
      Function.update s.records record Option.none p
    by_cases here : p = record
    · rw [here, Function.update_self, Function.update_self]
    · rw [Function.update_of_ne here, Function.update_of_ne here]
      rw [sockets] at held
      by_cases gone : fd = fd'
      · rw [gone, Function.update_self] at held
        cases held
      · rw [Function.update_of_ne gone] at held
        exact same fd p held
  | @write record old new _ _ _ _ sockets =>
    show Function.update t.records record (some new) p =
      Function.update s.records record (some new) p
    rw [sockets] at held
    by_cases here : p = record
    · rw [here, Function.update_self, Function.update_self]
    · rw [Function.update_of_ne here, Function.update_of_ne here, same fd p held]

/-! ## The two runs -/

/-- The client `own` cannot tell the servers apart. The second one has served nobody else. -/
structure Alike (own : Nat) (s t : Server) : Prop where
  client : t.clients own = s.clients own
  records : ∀ fd p, s.sockets own fd = some p → t.records p = s.records p
  separate : Separate s
  separate' : Separate t
  alone : ∀ other, other ≠ own → t.clients other = .init

theorem sockets_none {t : Server} (fresh : t.clients d = .init) (fd : UInt32) :
    t.sockets d fd = none := by
  rw [Server.sockets, fresh]
  exact Table.lookup_init fd

theorem Separate.init (msgs : Ptr → Msg) : Separate (.init msgs) where
  live d fd p held := by
    rw [sockets_none rfl] at held
    cases held
  place d e fd k p held := by
    rw [sockets_none rfl] at held
    cases held
  entry a p held := by
    rw [Server.address, Server.init, Table.lookup_init] at held
    cases held

theorem Alike.init (own : Nat) (msgs : Ptr → Msg) : Alike own (.init msgs) (.init msgs) where
  client := rfl
  records _ _ _ := rfl
  separate := .init msgs
  separate' := .init msgs
  alone _ _ := rfl

/-- What the client asks of the server it has to itself is allowed if the shared table, which is another
one there, takes the address. -/
theorem Alike.mayCall {own : Nat} (alike : Alike own s t) {call : ClientCall}
    (allowed : s.MayCall config (own, call))
    (takes : ∀ record socket protocol memory, call = .putSocket record socket protocol memory →
      ¬t.socketAddrTable.Refuses memory.2 ∧ ¬t.socketAddrTable.Crowded) :
    t.MayCall config (own, call) := by
  have within : ∀ e fd q, t.sockets e fd = some q → e = own ∧ s.sockets own fd = some q := by
    intro e fd q held
    by_cases mine : e = own
    · subst mine
      rw [Server.sockets, alike.client] at held
      exact ⟨rfl, held⟩
    · rw [sockets_none (alike.alone e mine)] at held
      cases held
  cases call with
  | deleteSocket | putEvent | getEvent => exact allowed
  | putSocket record socket protocol memory =>
    obtain ⟨small, unused, fresh, _⟩ := allowed
    have unused' : ∀ e fd, t.sockets e fd ≠ some record := by
      intro e fd held
      exact unused own fd (within e fd record held).2
    have fresh' : clientGetSocketByAddr t socket = none := by
      cases entry : clientGetSocketByAddr t socket with
      | none => rfl
      | some q =>
        obtain ⟨e, fd, old, held, live, same⟩ := alike.separate'.entry socket q entry
        have held := (within e fd q held).2
        obtain ⟨old', live', registered⟩ := alike.separate.live own fd q held
        rw [alike.records fd q held, live'] at live
        obtain rfl := Option.some.inj live
        rw [same] at registered
        cases fresh.symm.trans registered
    exact ⟨small, unused', fresh', takes record socket protocol memory rfl⟩

theorem clientCalls_step {call : ClientCall} {result : Except Fault Returned}
    (separate : Separate s) (allowed : s.MayCall config (c, call))
    (step : (clientCalls config).step s (c, call) = some (after, result)) :
    match (s.clients c).call c s.records call with
    | .error fault => after = s ∧ result = .error fault
    | .ok (client, change, returned) =>
      after = change.perform s c client ∧ result = .ok returned ∧ Effect s c client change := by
  unfold clientCalls at step
  dsimp only at step
  rw [clientCall_eq separate allowed] at step
  cases called : (s.clients c).call c s.records call with
  | error fault =>
    rw [called] at step
    cases step
    exact ⟨rfl, rfl⟩
  | ok called' =>
    rw [called] at step
    cases step
    exact ⟨rfl, rfl, call_effect allowed called⟩

theorem run_separate {msgs : Ptr → Msg} {final : Server}
    {trace : List ((Nat × ClientCall) × Except Fault Returned)}
    (run : (clientCalls config).Run (.init msgs) trace final) : Separate final := by
  apply run.invariant (.init msgs)
  rintro before ⟨c, call⟩ after result separate allowed step
  have stepped := clientCalls_step separate allowed step
  cases called : (before.clients c).call c before.records call with
  | error fault =>
    rw [called] at stepped
    exact stepped.1 ▸ separate
  | ok called' =>
    rw [called] at stepped
    obtain ⟨rfl, _, effect⟩ := stepped
    exact effect.separate separate

theorem Alike.foreign {own : Nat} {change : Change} (alike : Alike own s t) (other : own ≠ c)
    (effect : Effect s c client change) : Alike own (change.perform s c client) t where
  client := alike.client.trans ((perform_clients own).trans (if_neg other)).symm
  records fd p held := by
    rw [perform_sockets, Function.update_of_ne other] at held
    exact (alike.records fd p held).trans (effect.records alike.separate other held).symm
  separate := effect.separate alike.separate
  separate' := alike.separate'
  alone := alike.alone

theorem Alike.mine {change : Change} (alike : Alike c s t) (effect : Effect s c client change)
    (effect' : Effect t c client change) :
    Alike c (change.perform s c client) (change.perform t c client) where
  client := ((perform_clients c).trans (if_pos rfl)).trans
    ((perform_clients c).trans (if_pos rfl)).symm
  records fd p held := by
    rw [perform_sockets, Function.update_self] at held
    exact effect.records_congr alike.records held
  separate := effect.separate alike.separate
  separate' := effect'.separate alike.separate'
  alone other foreign :=
    ((perform_clients other).trans (if_neg foreign)).trans (alike.alone other foreign)

def ofClient (own : Nat) (event : Nat × ClientCall) : Bool := event.1 == own

theorem alike_unwinding (config : Config) (own : Nat) :
    (clientCalls config).Unwinding (ofClient own) (Alike own) where
  others s t event after result alike foreign allowed step := by
    obtain ⟨c, call⟩ := event
    have other : own ≠ c := fun same => by simp [ofClient, same] at foreign
    have stepped := clientCalls_step alike.separate allowed step
    cases called : (s.clients c).call c s.records call with
    | error fault =>
      rw [called] at stepped
      exact stepped.1 ▸ alike
    | ok called' =>
      rw [called] at stepped
      obtain ⟨rfl, _, effect⟩ := stepped
      exact alike.foreign other effect
  observer s t event after after' result result' alike mine allowed allowed' step step' := by
    obtain ⟨c, call⟩ := event
    obtain rfl : c = own := eq_of_beq mine
    have stepped := clientCalls_step alike.separate allowed step
    have stepped' := clientCalls_step alike.separate' allowed' step'
    rw [alike.client, call_congr call alike.records] at stepped'
    cases called : (s.clients c).call c s.records call with
    | error fault =>
      rw [called] at stepped stepped'
      obtain ⟨rfl, rfl⟩ := stepped
      obtain ⟨rfl, rfl⟩ := stepped'
      exact ⟨rfl, alike⟩
    | ok called' =>
      rw [called] at stepped stepped'
      obtain ⟨rfl, rfl, effect⟩ := stepped
      obtain ⟨rfl, rfl, effect'⟩ := stepped'
      exact ⟨rfl, alike.mine effect effect'⟩

/-- A client gets the same fds, return values and events as if it had the server to itself, and may go
on asking for the same. -/
theorem clients_do_not_interfere {own : Nat} {msgs : Ptr → Msg} {final final' : Server}
    {trace alone : List ((Nat × ClientCall) × Except Fault Returned)}
    (run : (clientCalls config).Run (.init msgs) trace final)
    (run' : (clientCalls config).Run (.init msgs) alone final')
    (same : alone.map Prod.fst = (Machine.observed (ofClient own) trace).map Prod.fst) :
    alone = Machine.observed (ofClient own) trace ∧
      ∀ call, final.MayCall config (own, call) →
        (∀ record socket protocol memory, call = .putSocket record socket protocol memory →
          ¬final'.socketAddrTable.Refuses memory.2 ∧ ¬final'.socketAddrTable.Crowded) →
        final'.MayCall config (own, call) := by
  obtain ⟨results, alike⟩ :=
    (alike_unwinding config own).purged (.init own msgs) run run' same
  exact ⟨results, fun call => alike.mayCall⟩

def Server.mayCall (config : Config) (s : Server) : Nat × ClientCall → Bool
  | (clientId, .putSocket record socket _ memory) => clientId < config.numClients ∧
    (s.records record).isNone ∧ (clientGetSocketByAddr s socket).isNone ∧
    (s.socketAddrTable.table.makeRoom int64HashFunc memory.2).isSome ∧
    s.socketAddrTable.last < 2 ^ 27
  | (clientId, _) => clientId < config.numClients

theorem Server.mayCall_sound {event : Nat × ClientCall} (separate : Separate s)
    (checked : s.mayCall config event = true) : s.MayCall config event := by
  obtain ⟨c, call⟩ := event
  cases call with
  | deleteSocket | putEvent | getEvent =>
    have small : c < config.numClients := of_decide_eq_true checked
    exact small
  | putSocket record socket protocol memory =>
    obtain ⟨small, dead, fresh, made, few⟩ := of_decide_eq_true checked
    have unused : ∀ e fd, s.sockets e fd ≠ some record := by
      intro e fd held
      obtain ⟨old, live, _⟩ := separate.live e fd record held
      rw [live] at dead
      cases dead
    refine ⟨small, unused, Option.isNone_iff_eq_none.mp fresh, ?_, ?_⟩
    · intro refuses
      rw [refuses] at made
      cases made
    · intro crowded
      exact absurd crowded.1 (Nat.not_le.mpr few)

/-- Both clients have an fd 1. Client 1 deletes its own before client 0 polls. -/
def sameFd : List (Nat × ClientCall) :=
  [(1, .putSocket 0x1100 0x2100 .udp (true, true)), (0, .putSocket 0x1200 0x2200 .tcp (true, true)),
    (1, .putEvent 1 4 true), (0, .putEvent 1 8 true), (1, .deleteSocket 1), (0, .getEvent),
    (1, .getEvent), (0, .putSocket 0x1300 0x2300 .tcp (true, true))]

theorem clientCalls_exec {events : List (Nat × ClientCall)}
    {trace : List ((Nat × ClientCall) × Except Fault Returned)} {final : Server} {msgs : Ptr → Msg}
    (done : (clientCalls config).exec (fun s event => s.mayCall config event) [] (.init msgs) events =
      some (trace, final)) :
    (clientCalls config).Run (.init msgs) trace final ∧ trace.map Prod.fst = events := by
  have sound : ∀ early s event, (clientCalls config).Run (.init msgs) early s →
      s.mayCall config event = true → (clientCalls config).allowed s event ∧ True :=
    fun _ _ _ run checked => ⟨Server.mayCall_sound (run_separate run) checked, trivial⟩
  obtain ⟨run, _, same⟩ := Machine.exec_reached sound .start .start done
  exact ⟨run, same⟩

theorem clients_do_not_interfere_sameFd :
    ∃ trace alone final final', (clientCalls twoClients).Run (.init fun _ => blankMsg) trace final ∧
      (clientCalls twoClients).Run (.init fun _ => blankMsg) alone final' ∧
      trace.map Prod.fst = sameFd ∧ alone = Machine.observed (ofClient 0) trace ∧
      final'.MayCall twoClients (0, .getEvent) := by
  have evaluated : ((clientCalls twoClients).exec (fun s event => s.mayCall twoClients event) []
      (.init fun _ => blankMsg) sameFd).isSome = true := by
    decide +kernel
  have evaluated' : ((clientCalls twoClients).exec (fun s event => s.mayCall twoClients event) []
      (.init fun _ => blankMsg) (sameFd.filter (ofClient 0))).isSome = true := by
    decide +kernel
  obtain ⟨⟨trace, final⟩, done⟩ := Option.isSome_iff_exists.mp evaluated
  obtain ⟨⟨alone, final'⟩, done'⟩ := Option.isSome_iff_exists.mp evaluated'
  obtain ⟨run, events⟩ := clientCalls_exec done
  obtain ⟨run', events'⟩ := clientCalls_exec done'
  have same : alone.map Prod.fst = (Machine.observed (ofClient 0) trace).map Prod.fst := by
    rw [events', ← events, Machine.observed, List.filter_map]
    rfl
  obtain ⟨results, may⟩ := clients_do_not_interfere run run' same
  exact ⟨trace, alone, final, final', run, run', events, results, may .getEvent Nat.two_pos nofun⟩

end GlobalComponents.PicoServer
