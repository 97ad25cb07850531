import GlobalComponents.PicoServer.Identity

/-! The windows of the shared buffers that the stack is called with.

The end of a window is computed with a client's two `int`s and compared as a `size_t`. A sum that
wraps is negative, and as a `size_t` it lies behind every buffer below 2 GiB.
-/

set_option autoImplicit false

namespace GlobalComponents.PicoServer

open Library

/-- The six operations on a client's shared buffers. -/
def operation (config : Config) : StackCall → Server → Nat → Int32 → Int32 → Int32 → Int32 →
    Except Fault (Server × Reply)
  | .write => picoSendWrite config
  | .send => picoSendSend config
  | .sendto => picoSendSendto config
  | .read => picoRecvRead config
  | .recv => picoRecvRecv config
  | .recvfrom => picoRecvRecvfrom config

/-- The window lies inside the buffer, in integers. -/
def Inside (len bufferOffset : Int32) (bufferSize : UInt64) : Prop :=
  0 ≤ len.toInt ∧ 0 ≤ bufferOffset.toInt ∧ bufferOffset.toInt + len.toInt ≤ bufferSize.toNat

def Server.Registers (s : Server) (client : Nat) (socketFd : Int32) (record : Ptr) : Prop :=
  0 ≤ socketFd.toInt ∧ clientGetSocket s client socketFd = some record

def CallsStack (s : Server) (issuer : Nat) (call : StackCall) (client : Nat) (badge : UInt64)
    (result : Except Fault (Server × Reply)) : Prop :=
  ∃ after reply socket offset len, result = .ok (after, reply) ∧
    after.journal = s.journal ++ [.identity issuer call client badge,
      .window issuer call client socket badge offset len]

section
variable {len bufferOffset socketFd : Int32} {bufferSize : UInt64}

theorem sizeT_toNat (x : Int32) :
    ((sizeT x).toNat : Int) = if x.toInt < 0 then x.toInt + 2 ^ 64 else x.toInt := by
  have bits : x.toInt64.toBitVec.toInt = x.toInt := Int32.toInt_toInt64 x
  have same : (sizeT x).toNat = x.toInt64.toBitVec.toNat := rfl
  have below := x.toInt64.toBitVec.isLt
  rw [BitVec.toInt_eq_toNat_cond] at bits
  rw [same]
  split at bits <;> split <;> omega

/-- The comparison of a `size_t` decides as the integers do, also where the sum wraps. -/
theorem window_checked (small : bufferSize.toNat < 2 ^ 31) (first : 0 ≤ len.toInt)
    (second : 0 ≤ bufferOffset.toInt) : sizeT (bufferOffset + len) > bufferSize ↔
      ¬bufferOffset.toInt + len.toInt ≤ bufferSize.toNat := by
  have sum : (bufferOffset + len).toInt = (bufferOffset.toInt + len.toInt).bmod (2 ^ 32) :=
    Int32.toInt_add _ _
  have wide := sizeT_toNat (bufferOffset + len)
  have above := len.toInt_lt
  have above' := bufferOffset.toInt_lt
  rw [gt_iff_lt, UInt64.lt_iff_toNat_lt, Int.not_le]
  by_cases wraps : bufferOffset.toInt + len.toInt < 2 ^ 31
  · rw [Int.bmod_eq_of_le (by omega) (by omega)] at sum
    rw [sum, if_neg (by omega)] at wide
    omega
  · have negative : (bufferOffset + len).toInt = bufferOffset.toInt + len.toInt - 2 ^ 32 := by
      rw [sum, Int.bmod_def]
      split <;> omega
    rw [negative, if_pos (by omega)] at wide
    omega

end

section
variable {config : Config} {s : Server} {issuer client : Nat} {call : StackCall}
  {socketFd len bufferOffset ret : Int32}

theorem operation_eq : operation config call s issuer socketFd len bufferOffset ret =
    communicate config (config.badges call) (config.bufSize call) call s issuer socketFd len
      bufferOffset ret := by
  cases call <;> rfl

theorem serverCommunicationCommon_eq {bufferSize : UInt64} (small : bufferSize.toNat < 2 ^ 31)
    (record : Ptr) : serverCommunicationCommon s client socketFd len bufferOffset bufferSize =
      some record ↔ s.Registers client socketFd record ∧ Inside len bufferOffset bufferSize := by
  unfold serverCommunicationCommon Server.Registers Inside
  simp only [Int32.lt_iff_toInt_lt, Int32.toInt_zero]
  split
  · next negative =>
    refine ⟨nofun, ?_⟩
    rintro ⟨⟨fd, _⟩, first, second, _⟩
    omega
  next positive =>
  obtain ⟨fd, first, second⟩ : 0 ≤ socketFd.toInt ∧ 0 ≤ len.toInt ∧ 0 ≤ bufferOffset.toInt := by
    omega
  have checked := window_checked small first second
  split
  · next outside => exact ⟨nofun, fun both => absurd both.2.2.2 (checked.mp outside)⟩
  · next inside =>
    have within := not_not.mp (mt checked.mpr inside)
    exact ⟨fun found => ⟨⟨fd, found⟩, first, second, within⟩, fun both => both.1.2⟩

def Config.port (config : Config) (call : StackCall) (client : Nat) : UInt64 :=
  enumerateBadge (config.badges call) client

def Server.identified (s : Server) (config : Config) (issuer : Nat) (call : StackCall)
    (client : Nat) : Server :=
  s.note (.identity issuer call client (config.port call client))

theorem operation_checked (checked : clientCheck config s = .ok client) :
    operation config call s issuer socketFd len bufferOffset ret =
      match serverCommunicationCommon s client socketFd len bufferOffset
        (config.bufSize call (config.port call client)) with
      | none => .ok (s.identified config issuer call client, .int (-1))
      | some record => do
        let socket ← s.deref record
        return ((s.identified config issuer call client).note
          (.window issuer call client socket.socket (config.port call client) bufferOffset len),
          .int ret) := by
  rw [operation_eq, communicate, checked]
  rfl

/-- With an open socket and a window inside the buffer the stack is called with that window. Otherwise
the operation returns -1 and does nothing, unless the socket's record has been freed behind its table
entry. -/
theorem stack_called_iff (checked : clientCheck config s = .ok client)
    (small : (config.bufSize call (config.port call client)).toNat < 2 ^ 31) :
    (CallsStack s issuer call client (config.port call client)
        (operation config call s issuer socketFd len bufferOffset ret) ↔
      ∃ record socket, s.Registers client socketFd record ∧ s.records record = some socket ∧
        Inside len bufferOffset (config.bufSize call (config.port call client))) ∧
    (∀ record socket, s.Registers client socketFd record → s.records record = some socket →
      Inside len bufferOffset (config.bufSize call (config.port call client)) →
      operation config call s issuer socketFd len bufferOffset ret =
        .ok ((s.identified config issuer call client).note
          (.window issuer call client socket.socket (config.port call client) bufferOffset len),
          .int ret)) ∧
    (¬(∃ record, s.Registers client socketFd record ∧
        Inside len bufferOffset (config.bufSize call (config.port call client))) →
      operation config call s issuer socketFd len bufferOffset ret =
        .ok (s.identified config issuer call client, .int (-1))) ∧
    (∀ record, s.Registers client socketFd record → s.records record = none →
      Inside len bufferOffset (config.bufSize call (config.port call client)) →
      operation config call s issuer socketFd len bufferOffset ret = .error .dangling) := by
  have common := @serverCommunicationCommon_eq s client socketFd len bufferOffset _ small
  rw [operation_checked checked]
  -- everything follows from what `server_communication_common` returns
  refine ⟨⟨?_, ?_⟩, ?_, ?_, ?_⟩
  · rintro ⟨after, reply, socket, offset, length, done, journal⟩
    split at done
    · obtain ⟨rfl, _⟩ := Prod.mk.inj (Except.ok.inj done)
      simp [Server.identified, Server.note] at journal
    · next record found =>
      obtain ⟨live, held, _⟩ := bind_ok.mp done
      obtain ⟨registered, inside⟩ := (common record).mp found
      exact ⟨record, live, registered, Server.deref_ok.mp held, inside⟩
  · rintro ⟨record, socket, registered, live, inside⟩
    rw [(common record).mpr ⟨registered, inside⟩]
    dsimp only
    rw [Server.deref_ok.mpr live]
    exact ⟨_, _, socket.socket, bufferOffset, len, rfl, by simp [Server.identified, Server.note]⟩
  · intro record socket registered live inside
    rw [(common record).mpr ⟨registered, inside⟩]
    dsimp only
    rw [Server.deref_ok.mpr live]
    rfl
  · intro outside
    have none : serverCommunicationCommon s client socketFd len bufferOffset
        (config.bufSize call (config.port call client)) = Option.none := by
      rw [Option.eq_none_iff_forall_ne_some]
      exact fun record found => outside ⟨record, (common record).mp found⟩
    rw [none]
  · intro record registered freed inside
    rw [(common record).mpr ⟨registered, inside⟩]
    dsimp only
    rw [Server.deref, freed]
    rfl

end

/-- Client 0 has opened a socket and sends the first 16 bytes of its dataport. -/
theorem stack_called_iff_open : ∃ trace s,
    (machine twoClients).Run (.init fun _ => blankMsg) trace s ∧
      CallsStack s 0 .send 0 (twoClients.port .send 0)
        (operation twoClients .send s 0 1 16 0 16) := by
  have evaluated : ((machine twoClients).exec (fun s event => s.permits twoClients event) []
      (.init fun _ => blankMsg) [.control 0 (.open false (some 0x1000) 0x2000 (true, true))]).any
      (fun result => decide ((clientCheck twoClients result.2).toOption = some 0 ∧
        clientGetSocket result.2 0 1 = some 0x1000 ∧
        (result.2.records 0x1000).isSome = true)) = true := by
    decide +kernel
  obtain ⟨⟨trace, s⟩, done, outcome⟩ := (Option.any_eq_true _ _).mp evaluated
  obtain ⟨checked, registered, live⟩ := of_decide_eq_true outcome
  obtain ⟨socket, live⟩ := Option.isSome_iff_exists.mp live
  have checked : clientCheck twoClients s = .ok 0 := by
    cases check : clientCheck twoClients s with
    | ok client =>
      rw [check] at checked
      rw [Option.some.inj checked]
    | error fault =>
      rw [check] at checked
      cases checked
  refine ⟨trace, s, (permitted_run done).1, ?_⟩
  exact (stack_called_iff checked (by decide)).1.mpr
    ⟨0x1000, socket, ⟨by decide, registered⟩, live, by unfold Inside; decide⟩

end GlobalComponents.PicoServer
