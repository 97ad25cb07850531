import GlobalComponents.BPMPServer.Call
import GlobalComponents.Library.Refinement

/-! Many clients of the BPMP at once.

A call is made of steps between which other clients go on: the client cleans its shared memory,
copies the request into it and calls; the server serves one call after the other; the client copies
the response. To the clients it looks as if each of them called the BPMP itself, at one moment.
-/

set_option autoImplicit false

namespace GlobalComponents.BPMPServer

open Library Library.Window

/-- The BPMP, which may remember what it was asked, and what the server is built with. -/
structure Firmware (Bpmp : Type) where
  tx2BpmpCall : Bpmp → Int32 → List UInt8 → Nat → Bpmp × Reply
  enumerateBadge : Nat → UInt64
  msgMinSz : Nat
  sharedMemSize : Nat → Nat
  numClients : Nat

def Firmware.platform {Bpmp : Type} (firmware : Firmware Bpmp) (bpmp : Bpmp) : Platform where
  tx2BpmpCall mrq request room := (firmware.tx2BpmpCall bpmp mrq request room).2
  enumerateBadge := firmware.enumerateBadge
  msgMinSz := firmware.msgMinSz

structure Request where
  mrq : Int32
  txMsg : Nat
  txSize : Nat
  rxMsg : Option Nat
  rxSize : Nat

inductive Phase where
  | idle
  | cleaning (request : Request)
  | copying (request : Request)
  | calling (request : Request)
  | answered (request : Request) (bytesReceived : Nat) (ret : Int32)

structure Client where
  memory : Nat → UInt8
  log : List String
  phase : Phase

structure System (Bpmp : Type) where
  bpmp : Bpmp
  server : Server
  clients : Nat → Client

inductive Event where
  /-- The client's own work between two calls. -/
  | compute (client : Nat) (memory : Nat → UInt8)
  | enter (client : Nat) (mrq : Int32) (txMsg : Option Nat) (txSize : Nat) (rxMsg : Option Nat)
      (rxSize : Nat)
  | memset (client : Nat)
  | memcpy (client : Nat)
  | serve (client : Nat)
  | leave (client : Nat)

def Event.client : Event → Nat
  | .compute client _ | .enter client _ _ _ _ _ | .memset client | .memcpy client | .serve client
  | .leave client => client

abbrev Returned := Option Int32

def Client.logged (c : Client) (line : String) : Client := { c with log := c.log ++ [line] }

def refusal (txMsg : Option Nat) : String :=
  if txMsg.isNone then "tx_msg is NULL!" else "Supplied buffer is too large!"

def enter (sharedMemSize : Nat) (c : Client) (mrq : Int32) (txMsg : Option Nat) (txSize : Nat)
    (rxMsg : Option Nat) (rxSize : Nat) : Client × Returned :=
  match txMsg with
  | none => (c.logged "tx_msg is NULL!", some (-einval))
  | some txMsg =>
    if sharedMemSize ≤ txSize then (c.logged "Supplied buffer is too large!", some (-einval))
    else ({ c with phase := .cleaning ⟨mrq, txMsg, txSize, rxMsg, rxSize⟩ }, none)

def leave (response : Nat → UInt8) (c : Client) (request : Request) (bytesReceived : Nat)
    (ret : Int32) : Client × Returned :=
  let c := { c with phase := .idle }
  match request.rxMsg with
  | none => (c, some ret)
  | some rxMsg =>
    if 0 ≤ ret then
      let c := if request.rxSize < bytesReceived then c.logged tooLarge else c
      ({ c with memory := store c.memory rxMsg (window response 0 bytesReceived) },
        some (Int32.ofNat bytesReceived))
    else (c, some ret)

section
variable {Bpmp : Type} (firmware : Firmware Bpmp)

def System.setClient (s : System Bpmp) (client : Nat) (c : Client) : System Bpmp :=
  { s with clients := Function.update s.clients client c }

def System.writeBuf (s : System Bpmp) (client : Nat) (cells : List UInt8) : System Bpmp :=
  { s with server := s.server.writeBuf (firmware.enumerateBadge client) cells }

/-- `none` when the client is not at this step. -/
def System.run (s : System Bpmp) : Event → Option (System Bpmp × Returned)
  | .compute client memory =>
    match (s.clients client).phase with
    | .idle => some (s.setClient client { s.clients client with memory }, none)
    | _ => none
  | .enter client mrq txMsg txSize rxMsg rxSize =>
    match (s.clients client).phase with
    | .idle =>
      let (c, returned) :=
        enter (firmware.sharedMemSize client) (s.clients client) mrq txMsg txSize rxMsg rxSize
      some (s.setClient client c, returned)
    | _ => none
  | .memset client =>
    match (s.clients client).phase with
    | .cleaning request =>
      let s := s.writeBuf firmware client (List.replicate (firmware.sharedMemSize client) 0)
      some (s.setClient client { s.clients client with phase := .copying request }, none)
    | _ => none
  | .memcpy client =>
    match (s.clients client).phase with
    | .copying request =>
      let s := s.writeBuf firmware client
        (window (s.clients client).memory request.txMsg request.txSize)
      some (s.setClient client { s.clients client with phase := .calling request }, none)
    | _ => none
  | .serve client =>
    match (s.clients client).phase with
    | .calling request =>
      let asked := window (s.server.buf (firmware.enumerateBadge client)) 0 request.txSize
      let (bpmp, _) := firmware.tx2BpmpCall s.bpmp request.mrq asked firmware.msgMinSz
      let (server, bytesRxd, ret) :=
        theBpmpCall (firmware.platform s.bpmp) s.server client request.mrq request.txSize (some 0)
      let s := { s with bpmp, server }
      some (s.setClient client
        { s.clients client with phase := .answered request (bytesRxd.getD 0) ret }, none)
    | _ => none
  | .leave client =>
    match (s.clients client).phase with
    | .answered request bytesReceived ret =>
      let (c, returned) := leave (s.server.buf (firmware.enumerateBadge client))
        (s.clients client) request bytesReceived ret
      some (s.setClient client c, returned)
    | _ => none

def system : Machine (System Bpmp) Event Returned where
  allowed _ event := event.client < firmware.numClients
  step := System.run firmware

end

section
variable {Bpmp : Type} {firmware : Firmware Bpmp} {s : System Bpmp} {client : Nat}

theorem System.setClient_self (s : System Bpmp) (client : Nat) (c : Client) :
    (s.setClient client c).clients client = c := Function.update_self ..

variable {memory : Nat → UInt8} {log : List String} {request : Request}

theorem run_memset :
    (s.setClient client ⟨memory, log, .cleaning request⟩).run firmware (.memset client) =
      some ((s.writeBuf firmware client
        (List.replicate (firmware.sharedMemSize client) 0)).setClient client
          ⟨memory, log, .copying request⟩, none) := by
  simp [System.run, System.setClient, System.writeBuf]

theorem run_memcpy :
    (s.setClient client ⟨memory, log, .copying request⟩).run firmware (.memcpy client) =
      some ((s.writeBuf firmware client (window memory request.txMsg request.txSize)).setClient
        client ⟨memory, log, .calling request⟩, none) := by
  simp [System.run, System.setClient, System.writeBuf]

theorem run_serve {server : Server} {bytesRxd : Option Nat} {ret : Int32}
    (answered : theBpmpCall (firmware.platform s.bpmp) s.server client request.mrq request.txSize
      (some 0) = (server, bytesRxd, ret)) :
    ∃ bpmp, (s.setClient client ⟨memory, log, .calling request⟩).run firmware (.serve client) =
      some (({ s with bpmp, server } : System Bpmp).setClient client
        ⟨memory, log, .answered request (bytesRxd.getD 0) ret⟩, none) := by
  simp [System.run, System.setClient, answered]

theorem run_leave {bytesReceived : Nat} {ret : Int32} :
    (s.setClient client ⟨memory, log, .answered request bytesReceived ret⟩).run firmware
        (.leave client) =
      some (s.setClient client (leave (s.server.buf (firmware.enumerateBadge client))
          ⟨memory, log, .idle⟩ request bytesReceived ret).1,
        (leave (s.server.buf (firmware.enumerateBadge client)) ⟨memory, log, .idle⟩ request
          bytesReceived ret).2) := by
  simp [System.run, System.setClient, leave]

/-- The steps of a call in a row are `bpmpserver_call_wrapper`. -/
theorem run_wrapper {mrq : Int32} {txMsg txSize : Nat} {rxMsg : Option Nat} {rxSize : Nat}
    (known : client < firmware.numClients) (idle : (s.clients client).phase = .idle)
    (within : txSize < firmware.sharedMemSize client) :
    let data : InterfaceData := ⟨client, firmware.sharedMemSize client⟩
    let process : Process := ⟨s.server, (s.clients client).memory, (s.clients client).log⟩
    let after := bpmpserverCallWrapper (firmware.platform s.bpmp) data process mrq (some txMsg)
      txSize rxMsg rxSize
    ∃ s', (system firmware).Run s [(.enter client mrq (some txMsg) txSize rxMsg rxSize, none),
        (.memset client, none), (.memcpy client, none), (.serve client, none),
        (.leave client, some after.2)] s' ∧
      s'.server = after.1.server ∧ s'.clients client = ⟨after.1.memory, after.1.log, .idle⟩ := by
  intro data process after
  have entered : s.run firmware (.enter client mrq (some txMsg) txSize rxMsg rxSize) =
      some (s.setClient client ⟨(s.clients client).memory, (s.clients client).log,
        .cleaning ⟨mrq, txMsg, txSize, rxMsg, rxSize⟩⟩, none) := by
    have checked : enter (firmware.sharedMemSize client) (s.clients client) mrq (some txMsg) txSize
        rxMsg rxSize = (⟨(s.clients client).memory, (s.clients client).log,
          .cleaning ⟨mrq, txMsg, txSize, rxMsg, rxSize⟩⟩, none) := if_neg (Nat.not_le.mpr within)
    rw [System.run, idle, checked]
  rcases answered : theBpmpCall (firmware.platform s.bpmp)
    ((s.server.writeBuf ((firmware.platform s.bpmp).enumerateBadge client)
      (List.replicate (firmware.sharedMemSize client) 0)).writeBuf
        ((firmware.platform s.bpmp).enumerateBadge client)
        (window (s.clients client).memory txMsg txSize)) client mrq txSize (some 0)
    with ⟨server, bytesRxd, ret⟩
  have begun : (system firmware).Run s [] s := .start
  have entered := begun.on (.enter client mrq (some txMsg) txSize rxMsg rxSize) known entered
  have cleaned := entered.on (.memset client) known run_memset
  have copied := cleaned.on (.memcpy client) known run_memcpy
  obtain ⟨bpmp, served⟩ := @run_serve _ firmware ((s.writeBuf firmware client
    (List.replicate (firmware.sharedMemSize client) 0)).writeBuf firmware client
    (window (s.clients client).memory txMsg txSize)) client (s.clients client).memory
    (s.clients client).log ⟨mrq, txMsg, txSize, rxMsg, rxSize⟩ server bytesRxd ret answered
  have served := copied.on (.serve client) known served
  have left := served.on (.leave client) known run_leave
  have wrapped : after = bpmpserverCallWrapper _ _ _ _ _ _ _ _ := rfl
  simp only [bpmpserverCallWrapper, data, process, if_neg (Nat.not_le.mpr within)] at wrapped
  rw [answered] at wrapped
  have same : leave (server.buf (firmware.enumerateBadge client))
      ⟨(s.clients client).memory, (s.clients client).log, .idle⟩
      ⟨mrq, txMsg, txSize, rxMsg, rxSize⟩ (bytesRxd.getD 0) ret =
        (⟨after.1.memory, after.1.log, .idle⟩, some after.2) ∧ server = after.1.server := by
    rw [wrapped]
    cases rxMsg with
    | none => exact ⟨rfl, rfl⟩
    | some rxMsg =>
      unfold leave
      dsimp only
      by_cases success : 0 ≤ ret
      · rw [if_pos success, if_pos success]
        split
        · exact ⟨rfl, rfl⟩
        · exact ⟨rfl, rfl⟩
      · rw [if_neg success, if_neg success]
        exact ⟨rfl, rfl⟩
  rw [same.1] at left
  exact ⟨_, left, same.2, System.setClient_self _ _ _⟩

end

/-! ## Calls of the BPMP itself -/

inductive Progress where
  | idle
  | waiting (request : Request)
  | made (request : Request) (reply : Reply)

structure Caller where
  memory : Nat → UInt8
  log : List String
  progress : Progress

structure Direct (Bpmp : Type) where
  bpmp : Bpmp
  callers : Nat → Caller

/-- The response goes into the caller's buffer and past its end. -/
def Caller.take (c : Caller) (request : Request) (reply : Reply) : Caller :=
  match request.rxMsg with
  | none => { c with progress := .idle }
  | some rxMsg =>
    if 0 ≤ reply.ret then
      { memory := store c.memory rxMsg reply.bytes
        log := if request.rxSize < reply.bytes.length then c.log ++ [tooLarge] else c.log
        progress := .idle }
    else { c with progress := .idle }

def Request.returns (request : Request) (reply : Reply) : Int32 :=
  if request.rxMsg = none ∧ 0 ≤ reply.ret then 0 else reply.ret

section
variable {Bpmp : Type} (firmware : Firmware Bpmp)

def Direct.setCaller (d : Direct Bpmp) (client : Nat) (c : Caller) : Direct Bpmp :=
  { d with callers := Function.update d.callers client c }

/-- One step of the direct callers. Only a call that is made reaches the BPMP, with the request as it
is in the caller's memory. -/
inductive DirectStep (d : Direct Bpmp) : Event → Returned → Direct Bpmp → Prop where
  | compute {client : Nat} (memory : Nat → UInt8) : (d.callers client).progress = .idle →
      DirectStep d (.compute client memory) none
        (d.setCaller client { d.callers client with memory })
  | refused {client : Nat} {mrq : Int32} {txMsg : Option Nat} {txSize : Nat} {rxMsg : Option Nat}
      {rxSize : Nat} : (d.callers client).progress = .idle →
      txMsg = none ∨ firmware.sharedMemSize client ≤ txSize →
      DirectStep d (.enter client mrq txMsg txSize rxMsg rxSize) (some (-einval))
        (d.setCaller client
          { d.callers client with log := (d.callers client).log ++ [refusal txMsg] })
  | entered {client : Nat} {mrq : Int32} {txMsg txSize : Nat} {rxMsg : Option Nat} {rxSize : Nat} :
      (d.callers client).progress = .idle → txSize < firmware.sharedMemSize client →
      DirectStep d (.enter client mrq (some txMsg) txSize rxMsg rxSize) none
        (d.setCaller client
          { d.callers client with progress := .waiting ⟨mrq, txMsg, txSize, rxMsg, rxSize⟩ })
  | cleaned {client : Nat} : DirectStep d (.memset client) none d
  | copied {client : Nat} : DirectStep d (.memcpy client) none d
  | made {client : Nat} {request : Request} : (d.callers client).progress = .waiting request →
      DirectStep d (.serve client) none
        ({ d with bpmp := (firmware.tx2BpmpCall d.bpmp request.mrq
            (window (d.callers client).memory request.txMsg request.txSize)
            firmware.msgMinSz).1 }.setCaller client
          { d.callers client with progress := .made request (firmware.tx2BpmpCall d.bpmp request.mrq
            (window (d.callers client).memory request.txMsg request.txSize) firmware.msgMinSz).2 })
  | returned {client : Nat} {request : Request} {reply : Reply} :
      (d.callers client).progress = .made request reply →
      DirectStep d (.leave client) (some (request.returns reply))
        (d.setCaller client ((d.callers client).take request reply))

def direct : Spec (Direct Bpmp) Event Returned where
  step := DirectStep firmware

end

/-! ## The clients follow the callers -/

inductive Stage (room : Nat) (shared memory : Nat → UInt8) : Phase → Progress → Prop where
  | idle : Stage room shared memory .idle .idle
  | cleaning {request : Request} : request.txSize < room →
      Stage room shared memory (.cleaning request) (.waiting request)
  | copying {request : Request} : request.txSize < room →
      Stage room shared memory (.copying request) (.waiting request)
  | calling {request : Request} :
      window shared 0 request.txSize = window memory request.txMsg request.txSize →
      Stage room shared memory (.calling request) (.waiting request)
  | failed (request : Request) {reply : Reply} (bytesReceived : Nat) : ¬0 ≤ reply.ret →
      Stage room shared memory (.answered request bytesReceived reply.ret) (.made request reply)
  | succeeded (request : Request) {reply : Reply} : 0 ≤ reply.ret →
      reply.ret.toInt = reply.bytes.length →
      window shared 0 reply.bytes.length = reply.bytes →
      Stage room shared memory (.answered request reply.bytes.length 0) (.made request reply)

section
variable {room : Nat} {shared memory : Nat → UInt8} {progress : Progress} {request : Request}

theorem Stage.of_idle (stage : Stage room shared memory .idle progress) : progress = .idle := by
  cases stage
  rfl

theorem Stage.of_cleaning (stage : Stage room shared memory (.cleaning request) progress) :
    progress = .waiting request ∧ request.txSize < room := by
  cases stage with
  | cleaning within => exact ⟨rfl, within⟩

theorem Stage.of_copying (stage : Stage room shared memory (.copying request) progress) :
    progress = .waiting request ∧ request.txSize < room := by
  cases stage with
  | copying within => exact ⟨rfl, within⟩

theorem Stage.of_answered {bytesReceived : Nat} {ret : Int32}
    (stage : Stage room shared memory (.answered request bytesReceived ret) progress) :
    ∃ reply, progress = .made request reply := by
  cases stage with
  | failed | succeeded => exact ⟨_, rfl⟩

end

structure Client.Follows (room : Nat) (shared : Nat → UInt8) (c : Client) (caller : Caller) :
    Prop where
  memory : c.memory = caller.memory
  log : c.log = caller.log
  stage : Stage room shared c.memory c.phase caller.progress

section
variable {Bpmp : Type} (firmware : Firmware Bpmp)

/-- Behind its end no shared memory has changed since the start. -/
structure System.Follows (start : Server) (s : System Bpmp) (d : Direct Bpmp) : Prop where
  bpmp : s.bpmp = d.bpmp
  clients : ∀ client < firmware.numClients, (s.clients client).Follows
    (firmware.sharedMemSize client) (s.server.buf (firmware.enumerateBadge client))
    (d.callers client)
  beyond : ∀ client < firmware.numClients, ∀ address, firmware.sharedMemSize client ≤ address →
    s.server.buf (firmware.enumerateBadge client) address =
      start.buf (firmware.enumerateBadge client) address

variable {firmware} {start : Server} {s : System Bpmp} {d : Direct Bpmp} {client : Nat}

theorem System.Follows.stage (follows : s.Follows firmware start d)
    (known : client < firmware.numClients) {phase : Phase}
    (here : (s.clients client).phase = phase) :
    Stage (firmware.sharedMemSize client) (s.server.buf (firmware.enumerateBadge client))
      (s.clients client).memory phase (d.callers client).progress :=
  here ▸ (follows.clients client known).stage

/-- A step of one client, which may have changed its own shared memory. -/
theorem System.Follows.set (follows : s.Follows firmware start d) {bpmp : Bpmp} {server : Server}
    {c : Client} {caller : Caller}
    (others : ∀ other < firmware.numClients, other ≠ client →
      server.buf (firmware.enumerateBadge other) = s.server.buf (firmware.enumerateBadge other))
    (beyond : ∀ address, firmware.sharedMemSize client ≤ address →
      server.buf (firmware.enumerateBadge client) address =
        s.server.buf (firmware.enumerateBadge client) address)
    (own : c.Follows (firmware.sharedMemSize client)
      (server.buf (firmware.enumerateBadge client)) caller) :
    System.Follows firmware start ⟨bpmp, server, Function.update s.clients client c⟩
      ({ d with bpmp }.setCaller client caller) where
  bpmp := rfl
  clients other known := by
    rcases eq_or_ne other client with rfl | different
    · simp only [Direct.setCaller, Function.update_self]
      exact own
    · simp only [Direct.setCaller, Function.update_of_ne different]
      rw [others other known different]
      exact follows.clients other known
  beyond other known address outside := by
    rw [← follows.beyond other known address outside]
    rcases eq_or_ne other client with rfl | different
    · exact beyond address outside
    · rw [others other known different]

theorem System.Follows.keep (follows : s.Follows firmware start d) {server : Server} {c : Client}
    {caller : Caller}
    (others : ∀ other < firmware.numClients, other ≠ client →
      server.buf (firmware.enumerateBadge other) = s.server.buf (firmware.enumerateBadge other))
    (beyond : ∀ address, firmware.sharedMemSize client ≤ address →
      server.buf (firmware.enumerateBadge client) address =
        s.server.buf (firmware.enumerateBadge client) address)
    (own : c.Follows (firmware.sharedMemSize client)
      (server.buf (firmware.enumerateBadge client)) caller) :
    System.Follows firmware start (({ s with server } : System Bpmp).setClient client c)
      (d.setCaller client caller) := by
  obtain ⟨bpmp, server', clients⟩ := s
  obtain rfl : bpmp = d.bpmp := follows.bpmp
  exact follows.set others beyond own

theorem Direct.setCaller_self (d : Direct Bpmp) : d.setCaller client (d.callers client) = d := by
  rw [Direct.setCaller, Function.update_eq_self]

theorem writeBuf_beyond (server : Server) {cells : List UInt8} {badge : UInt64} {room : Nat}
    (within : cells.length ≤ room) (address : Nat) (outside : room ≤ address) :
    (server.writeBuf badge cells).buf badge address = server.buf badge address :=
  server.writeBuf_outside fun _ => within.trans outside

theorem enter_follows {mrq : Int32} {txMsg : Option Nat} {txSize : Nat} {rxMsg : Option Nat}
    {rxSize : Nat} {shared : Nat → UInt8} {c : Client} (idle : (d.callers client).progress = .idle)
    (own : c.Follows (firmware.sharedMemSize client) shared (d.callers client))
    (rest : c.phase = .idle) :
    ∃ caller, DirectStep firmware d (.enter client mrq txMsg txSize rxMsg rxSize)
        (enter (firmware.sharedMemSize client) c mrq txMsg txSize rxMsg rxSize).2
        (d.setCaller client caller) ∧
      (enter (firmware.sharedMemSize client) c mrq txMsg txSize rxMsg rxSize).1.Follows
        (firmware.sharedMemSize client) shared caller := by
  have stays : ∀ line : String, (c.logged line).Follows (firmware.sharedMemSize client) shared
      { d.callers client with log := (d.callers client).log ++ [line] } := by
    intro line
    refine ⟨own.memory, ?_, ?_⟩
    · rw [← own.log]
      rfl
    · rw [idle]
      exact rest ▸ .idle
  unfold enter
  cases txMsg with
  | none => exact ⟨_, .refused idle (.inl rfl), stays _⟩
  | some txMsg =>
    dsimp only
    split
    · next large => exact ⟨_, .refused idle (.inr large), stays _⟩
    · next large =>
      have fits := Nat.lt_of_not_le large
      exact ⟨_, .entered idle fits, own.memory, own.log, .cleaning fits⟩

theorem leave_follows {room : Nat} {shared : Nat → UInt8} {c : Client} {caller : Caller}
    {request : Request} {reply : Reply} {bytesReceived : Nat} {ret : Int32}
    (own : c.Follows room shared caller) (phase : c.phase = .answered request bytesReceived ret)
    (made : caller.progress = .made request reply) :
    (leave shared c request bytesReceived ret).2 = some (request.returns reply) ∧
      (leave shared c request bytesReceived ret).1.Follows room shared
        (caller.take request reply) := by
  have stage := own.stage
  rw [phase, made] at stage
  unfold leave Caller.take Request.returns
  cases request.rxMsg with
  | none =>
    cases stage with
    | failed _ _ fails =>
      rw [if_neg fun both => fails both.2]
      exact ⟨rfl, own.memory, own.log, .idle⟩
    | succeeded _ succeeds counted there =>
      rw [if_pos ⟨rfl, succeeds⟩]
      exact ⟨rfl, own.memory, own.log, .idle⟩
  | some rxMsg =>
    rw [if_neg fun both => Option.some_ne_none rxMsg both.1]
    cases stage with
    | failed _ _ fails =>
      dsimp only
      rw [if_neg fails, if_neg fails]
      exact ⟨rfl, own.memory, own.log, .idle⟩
    | succeeded _ succeeds counted there =>
      dsimp only
      have count : Int32.ofNat reply.bytes.length = reply.ret := by
        rw [← Int.toNat_natCast (List.length _), ← counted, ofNat_count succeeds]
      rw [if_pos (by decide), if_pos succeeds, there, count, ← own.log, ← own.memory]
      split
      · exact ⟨rfl, rfl, rfl, .idle⟩
      · exact ⟨rfl, rfl, rfl, .idle⟩

theorem asked_platform {memory : Nat → UInt8} {request : Request} {bpmp : Bpmp} {server : Server}
    (asked : window (server.buf (firmware.enumerateBadge client)) 0 request.txSize =
      window memory request.txMsg request.txSize) :
    (firmware.platform bpmp).tx2BpmpCall request.mrq
      (window (server.buf ((firmware.platform bpmp).enumerateBadge client)) 0 request.txSize)
      (firmware.platform bpmp).msgMinSz = (firmware.tx2BpmpCall bpmp request.mrq
        (window memory request.txMsg request.txSize) firmware.msgMinSz).2 := by
  show (firmware.tx2BpmpCall bpmp request.mrq
    (window (server.buf (firmware.enumerateBadge client)) 0 request.txSize) firmware.msgMinSz).2 = _
  rw [asked]

theorem serve_stage {memory : Nat → UInt8} {request : Request} {bpmp : Bpmp} {server : Server}
    (asked : window (server.buf (firmware.enumerateBadge client)) 0 request.txSize =
      window memory request.txMsg request.txSize)
    (fits : (firmware.tx2BpmpCall bpmp request.mrq
      (window memory request.txMsg request.txSize) firmware.msgMinSz).2.Fits firmware.msgMinSz) :
    let after := theBpmpCall (firmware.platform bpmp) server client request.mrq request.txSize (some 0)
    Stage (firmware.sharedMemSize client) (after.1.buf (firmware.enumerateBadge client)) memory
        (.answered request (after.2.1.getD 0) after.2.2)
        (.made request (firmware.tx2BpmpCall bpmp request.mrq
          (window memory request.txMsg request.txSize) firmware.msgMinSz).2) := by
  intro after
  have answered := @asked_platform _ firmware client memory request bpmp server asked
  by_cases succeeds : 0 ≤ (firmware.tx2BpmpCall bpmp request.mrq
      (window memory request.txMsg request.txSize) firmware.msgMinSz).2.ret
  · have served := theBpmpCall_succeeded 0 answered fits succeeds
    rw [show after = _ from served]
    exact .succeeded request succeeds (fits.counted succeeds) (Server.writeBuf_request _ _ _)
  · have served := theBpmpCall_failed 0 answered succeeds
    rw [show after = _ from served]
    exact .failed request 0 succeeds

/-- Badges tell the clients apart, the driver keeps to its buffer, and a response fits into every
shared memory. -/
structure Firmware.Proper (firmware : Firmware Bpmp) : Prop where
  distinct : ∀ client < firmware.numClients, ∀ other < firmware.numClients,
    firmware.enumerateBadge other = firmware.enumerateBadge client → other = client
  fits : ∀ bpmp mrq request,
    (firmware.tx2BpmpCall bpmp mrq request firmware.msgMinSz).2.Fits firmware.msgMinSz
  room : ∀ client, firmware.msgMinSz ≤ firmware.sharedMemSize client

theorem Firmware.Proper.others (proper : firmware.Proper) (known : client < firmware.numClients)
    (server : Server) (cells : List UInt8) (other : Nat) (known' : other < firmware.numClients)
    (different : other ≠ client) :
    (server.writeBuf (firmware.enumerateBadge client) cells).buf (firmware.enumerateBadge other) =
      server.buf (firmware.enumerateBadge other) :=
  server.writeBuf_other cells fun same => different (proper.distinct _ known _ known' same)

theorem serve_follows (proper : firmware.Proper) {request : Request} {s' : System Bpmp}
    {returned : Returned} (follows : s.Follows firmware start d)
    (known : client < firmware.numClients) (phase : (s.clients client).phase = .calling request)
    (done : s.run firmware (.serve client) = some (s', returned)) :
    ∃ d', DirectStep firmware d (.serve client) returned d' ∧ s'.Follows firmware start d' := by
  obtain ⟨bpmp, server, clients⟩ := s
  obtain ⟨bpmp', callers⟩ := d
  obtain rfl : bpmp = bpmp' := follows.bpmp
  have own := follows.clients client known
  dsimp only at own
  have stage := own.stage
  rw [show (clients client).phase = _ from phase] at stage
  generalize here : (callers client).progress = progress at stage
  cases stage with
  | calling asked =>
    have fits := proper.fits bpmp request.mrq
      (window (clients client).memory request.txMsg request.txSize)
    have outside : ∀ (badge : UInt64) (address : Nat),
        (badge = firmware.enumerateBadge client → firmware.msgMinSz ≤ address) →
        (theBpmpCall (firmware.platform bpmp) server client request.mrq request.txSize
          (some 0)).1.buf badge address = server.buf badge address :=
      fun _ _ apart => theBpmpCall_outside 0 (asked_platform asked) fits apart
    have step : DirectStep firmware ⟨bpmp, callers⟩ (.serve client) none _ := .made here
    rw [show (callers client).memory = _ from own.memory.symm] at step
    rw [System.run, show (clients client).phase = _ from phase] at done
    dsimp only at done
    rw [asked] at done
    cases done
    refine ⟨_, step, follows.set ?_ ?_ ⟨own.memory, own.log, serve_stage asked fits⟩⟩
    · intro other known' different
      funext address
      exact outside _ address fun same =>
        absurd (proper.distinct _ known _ known' same) different
    · intro address beyond
      exact outside _ address fun _ => (proper.room client).trans beyond

theorem compute_follows {memory : Nat → UInt8} {s' : System Bpmp} {returned : Returned}
    (follows : s.Follows firmware start d) (known : client < firmware.numClients)
    (done : s.run firmware (.compute client memory) = some (s', returned)) :
    ∃ d', DirectStep firmware d (.compute client memory) returned d' ∧
      s'.Follows firmware start d' := by
  rw [System.run] at done
  split at done
  · next phase =>
    cases done
    have here := (follows.stage known phase).of_idle
    refine ⟨_, .compute memory here, follows.keep (fun _ _ _ => rfl) (fun _ _ => rfl)
      ⟨rfl, (follows.clients client known).log, ?_⟩⟩
    dsimp only
    rw [here, phase]
    exact .idle
  · cases done

theorem memset_follows {s' : System Bpmp} {returned : Returned} (proper : firmware.Proper)
    (follows : s.Follows firmware start d) (known : client < firmware.numClients)
    (done : s.run firmware (.memset client) = some (s', returned)) :
    ∃ d', DirectStep firmware d (.memset client) returned d' ∧ s'.Follows firmware start d' := by
  rw [System.run] at done
  split at done
  · next request phase =>
    cases done
    have own := follows.clients client known
    obtain ⟨here, within⟩ := (follows.stage known phase).of_cleaning
    refine ⟨d.setCaller client (d.callers client), ?_, follows.keep (proper.others known _ _)
      (writeBuf_beyond _ (List.length_replicate ..).le) ⟨own.memory, own.log, ?_⟩⟩
    · rw [Direct.setCaller_self]
      exact .cleaned
    · rw [here]
      exact .copying within
  · cases done

theorem memcpy_follows {s' : System Bpmp} {returned : Returned} (proper : firmware.Proper)
    (follows : s.Follows firmware start d) (known : client < firmware.numClients)
    (done : s.run firmware (.memcpy client) = some (s', returned)) :
    ∃ d', DirectStep firmware d (.memcpy client) returned d' ∧ s'.Follows firmware start d' := by
  rw [System.run] at done
  split at done
  · next request phase =>
    cases done
    have own := follows.clients client known
    obtain ⟨here, within⟩ := (follows.stage known phase).of_copying
    refine ⟨d.setCaller client (d.callers client), ?_, follows.keep (proper.others known _ _)
      (writeBuf_beyond _ ?_) ⟨own.memory, own.log, ?_⟩⟩
    · rw [Direct.setCaller_self]
      exact .copied
    · rw [window_length]
      exact within.le
    · rw [here]
      refine .calling ?_
      have there := s.server.writeBuf_request (firmware.enumerateBadge client)
        (window (s.clients client).memory request.txMsg request.txSize)
      rwa [window_length] at there
  · cases done

theorem run_follows (proper : firmware.Proper) {event : Event} {s' : System Bpmp}
    {returned : Returned} (follows : s.Follows firmware start d)
    (known : event.client < firmware.numClients)
    (done : s.run firmware event = some (s', returned)) :
    ∃ d', DirectStep firmware d event returned d' ∧ s'.Follows firmware start d' := by
  cases event with
  | compute client memory => exact compute_follows follows known done
  | enter client mrq txMsg txSize rxMsg rxSize =>
    rw [System.run] at done
    split at done
    · next phase =>
      cases done
      obtain ⟨caller, step, follows'⟩ := enter_follows (follows.stage known phase).of_idle
        (follows.clients client known) phase
      exact ⟨_, step, follows.keep (fun _ _ _ => rfl) (fun _ _ => rfl) follows'⟩
    · cases done
  | memset client => exact memset_follows proper follows known done
  | memcpy client => exact memcpy_follows proper follows known done
  | serve client =>
    have served := done
    rw [System.run] at done
    split at done
    · next request phase => exact serve_follows proper follows known phase served
    · cases done
  | leave client =>
    rw [System.run] at done
    split at done
    · next request bytesReceived ret phase =>
      cases done
      obtain ⟨reply, here⟩ := (follows.stage known phase).of_answered
      obtain ⟨returned, follows'⟩ := leave_follows (follows.clients client known) phase here
      have step : DirectStep firmware d (.leave client) _ _ := .returned here
      rw [← returned] at step
      exact ⟨_, step, follows.keep (fun _ _ _ => rfl) (fun _ _ => rfl) follows'⟩
    · cases done

def System.init (bpmp : Bpmp) (server : Server) (memory : Nat → Nat → UInt8) : System Bpmp :=
  ⟨bpmp, server, fun client => ⟨memory client, [], .idle⟩⟩

def Direct.init (bpmp : Bpmp) (memory : Nat → Nat → UInt8) : Direct Bpmp :=
  ⟨bpmp, fun client => ⟨memory client, [], .idle⟩⟩

/-- However the steps of the clients and of the server interleave, every call returns what it would
return had its client called the BPMP itself at the moment of the service, and leaves the same in the
client's memory. No byte behind the end of a shared memory is written. -/
theorem calls_linearizable (proper : firmware.Proper) (bpmp : Bpmp) (server : Server)
    (memory : Nat → Nat → UInt8) {trace : List (Event × Returned)} {final : System Bpmp}
    (run : (system firmware).Run (.init bpmp server memory) trace final) :
    ∃ d, (direct firmware).Run (.init bpmp memory) trace d ∧ final.bpmp = d.bpmp ∧
      (∀ client < firmware.numClients,
        (final.clients client).memory = (d.callers client).memory ∧
          (final.clients client).log = (d.callers client).log) ∧
      ∀ client < firmware.numClients, ∀ address, firmware.sharedMemSize client ≤ address →
        final.server.buf (firmware.enumerateBadge client) address =
          server.buf (firmware.enumerateBadge client) address := by
  have initially : (System.init bpmp server memory).Follows firmware server (.init bpmp memory) :=
    ⟨rfl, fun _ _ => ⟨rfl, rfl, .idle⟩, fun _ _ _ _ => rfl⟩
  have simulated : ∀ before d event after returned, System.Follows firmware server before d →
      (system firmware).allowed before event → True →
      (system firmware).step before event = some (after, returned) →
      ∃ d', (direct firmware).step d event returned d' ∧
        System.Follows firmware server after d' :=
    fun _ _ _ _ _ follows known _ done => run_follows proper follows known done
  obtain ⟨d, image, follows⟩ := run.refines (System.Follows firmware server) simulated initially
    fun _ _ _ _ _ _ => True.intro
  exact ⟨d, image, follows.bpmp,
    fun client known =>
      ⟨(follows.clients client known).memory, (follows.clients client known).log⟩, follows.beyond⟩

end

def counting : Firmware Nat where
  tx2BpmpCall calls _ _ _ := (calls + 1, ⟨1, [UInt8.ofNat calls]⟩)
  enumerateBadge := UInt64.ofNat
  msgMinSz := 8
  sharedMemSize _ := 16
  numClients := 2

theorem counting_proper : counting.Proper where
  distinct := by decide
  fits _ _ _ := ⟨show 1 ≤ 8 by decide, fun _ => rfl⟩
  room _ := show 8 ≤ 16 by decide

theorem calls_linearizable_two : ∃ trace final,
    (system counting).Run (.init 5 unused.server fun _ _ => 0) trace final ∧
      (trace.map Prod.snd).filterMap id = [1, 1] ∧
      ((final.clients 0).memory 4, (final.clients 1).memory 4) = (6, 5) ∧
      ∃ d, (direct counting).Run (.init 5 fun _ _ => 0) trace d ∧ final.bpmp = d.bpmp ∧
        (∀ client < counting.numClients, (final.clients client).memory = (d.callers client).memory ∧
          (final.clients client).log = (d.callers client).log) ∧
        ∀ client < counting.numClients, ∀ address, counting.sharedMemSize client ≤ address →
          final.server.buf (counting.enumerateBadge client) address =
            unused.server.buf (counting.enumerateBadge client) address := by
  have zero : 0 < counting.numClients := by decide
  have one : 1 < counting.numClients := by decide
  have begun : (system counting).Run (.init 5 unused.server fun _ _ => 0) [] _ := .start
  have first := begun.on (.enter 0 3 (some 0) 1 (some 4) 2) zero rfl
  have second := first.on (.enter 1 3 (some 0) 1 (some 4) 2) one rfl
  have cleaned := (second.on (.memset 0) zero rfl).on (.memset 1) one rfl
  have copied := (cleaned.on (.memcpy 0) zero rfl).on (.memcpy 1) one rfl
  have served := (copied.on (.serve 1) one rfl).on (.serve 0) zero rfl
  have left := (served.on (.leave 0) zero rfl).on (.leave 1) one rfl
  exact ⟨_, _, left, rfl, rfl, calls_linearizable counting_proper 5 unused.server _ left⟩

end GlobalComponents.BPMPServer
