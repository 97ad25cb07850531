import GlobalComponents.FileServer.Errors
import GlobalComponents.FileServer.Isolation
import GlobalComponents.Library.Program
import Mathlib.Algebra.Order.BigOperators.Group.List
import Mathlib.Algebra.Order.Group.Nat

/-! System calls between the requests of other clients.

A wrapper of the client library makes several requests and copies from the dataport after each, and
the server may serve other clients in between. The client cannot tell: its calls return and leave in
its memory what they would, each as a whole, on a server that it has for itself.
-/

set_option autoImplicit false

namespace GlobalComponents.FileServer

open Library Library.Window Library.Program

variable {w : Nat} {config : Config w} {client : Nat}

/-! ## Clients -/

inductive Op (w : Nat) where
  | request (event : Event w)
  | memcpy (dst : Nat) (n : BitVec w)
  | compute (f : (Nat → UInt8) → (Nat → UInt8) × Int)

def Process.machine (config : Config w) (client : Nat) : Machine (Process w) (Op w) Int where
  allowed p
    | .request event => event.client = client ∧ (FileServer.machine config).allowed p.server event
    | .memcpy _ _ | .compute _ => True
  step p
    | .request event =>
      let (server, reply) := p.server.run config event
      some ({ p with server }, reply.value)
    | .memcpy dst n => some (p.memcpy client dst n, 0)
    | .compute f =>
      let (memory, value) := f p.memory
      some ({ p with memory }, value)

inductive Foreign (w : Nat) where
  | request (event : Event w)
  | write (other : Nat) (contents : Nat → UInt8)

def strangers (config : Config w) (client : Nat) : Machine (Process w) (Foreign w) Unit where
  allowed p
    | .request event => event.client ≠ client ∧ (machine config).allowed p.server event
    | .write other _ => other ≠ client
  step p
    | .request event => some ({ p with server := (p.server.run config event).1 }, ())
    | .write other contents =>
      some ({ p with server.buf := Function.update p.server.buf other contents }, ())

/-! ## The wrappers, piece by piece -/

structure Outcome where
  value : Int
  result : Option Int
  deriving DecidableEq

abbrev Wrapper (w : Nat) := Program (Op w) Int (Option Outcome)

namespace Wrapper

section
variable (client : Nat)

def fileserverOpen (pathname : String) (flags fd : Int) (room : Bool) : Wrapper w :=
  .perform (.request (.open client pathname flags fd room)) fun value => .done (some ⟨value, none⟩)

def fileserverOpenat (dirfd : Int) (pathname : String) (flags fd : Int) (room : Bool) : Wrapper w :=
  if dirfd ≠ atFdcwd then .done (some ⟨-einval, none⟩)
  else fileserverOpen client pathname flags fd room

def fileserverClose (fd result : Int) : Wrapper w :=
  .perform (.request (.close client fd result)) fun value => .done (some ⟨value, none⟩)

def readLoop (fd : Int) (buf : Nat) (count : BitVec w) :
    Nat → BitVec w → BitVec w → Program (Op w) Int (Option (BitVec w))
  | 0, _, _ => .done none
  | fuel + 1, total, remain =>
    if total < count then
      .perform (.request (.read client fd remain)) fun value =>
        let result := BitVec.ofInt w value
        -- an error looks like the end of the file
        if result.sle 0#w then .done (some total)
        else .perform (.memcpy (buf + total.toNat) result) fun _ =>
          readLoop fd buf count fuel (total + result) (remain - result)
    else .done (some total)

def fileserverRead (fuel : Nat) (fd : Int) (buf : Nat) (count : BitVec w) : Wrapper w :=
  (readLoop client fd buf count fuel 0#w count).bind fun total =>
    .done (total.map fun total => ⟨total.toInt, none⟩)

def iovLoop (fd : Int) (iov : Iovec w) :
    Nat → BitVec w → BitVec w → Program (Op w) Int (Option (BitVec w × Bool))
  | 0, _, _ => .done none
  | fuel + 1, iovOffset, total =>
    if iovOffset < iov.len then
      .perform (.request (.read client fd (iov.len - iovOffset))) fun value =>
        let read := BitVec.ofInt w value
        if read.sle 0#w then .done (some (total, true))
        else .perform (.memcpy (iov.base + iovOffset.toNat) read) fun _ =>
          iovLoop fd iov fuel (iovOffset + read) (total + read)
    else .done (some (total, false))

def readvLoop (fuel : Nat) (fd : Int) :
    List (Iovec w) → BitVec w → Program (Op w) Int (Option (BitVec w))
  | [], total => .done (some total)
  | iov :: rest, total => (iovLoop client fd iov fuel 0#w total).bind fun
    | none => .done none
    | some (total, true) => .done (some total)
    | some (total, false) => readvLoop fuel fd rest total

def fileserverReadv (fuel : Nat) (fd : Int) (iov : List (Iovec w)) : Wrapper w :=
  (readvLoop client fuel fd iov 0#w).bind fun total =>
    .done (total.map fun total => ⟨total.toInt, none⟩)

def fileserverLseek (fd offset whence : Int) : Wrapper w :=
  .perform (.request (.seek client fd offset whence)) fun position =>
    .done (some ⟨(BitVec.ofInt w position).toInt, none⟩)

def fileserverLlseek (fd : Int) (offsetHigh offsetLow : BitVec 32) (whence : Int) : Wrapper w :=
  .perform (.request (.seek client fd (offsetHigh ++ offsetLow).toInt whence)) fun position =>
    .done (some ⟨0, some position⟩)

end

end Wrapper

namespace Call

def iterations : Call w → Nat
  | .read _ _ count => count.toNat + 1
  | .readv _ iov => totalLength iov + 1
  | .open .. | .openat .. | .close .. | .lseek .. | .llseek .. => 0

theorem within_iterations (call : Call w) : call.Within call.iterations := by
  cases call with
  | read fd buf count => exact Nat.lt_succ_self _
  | readv fd iov =>
    intro one member
    exact Nat.lt_succ_of_le (List.single_le_sum (fun _ _ => Nat.zero_le _) _
      (List.mem_map_of_mem member))
  | «open» | openat | close | lseek | llseek => trivial

def steps (client : Nat) (call : Call w) : Wrapper w :=
  match call with
  | .open pathname flags fd room => Wrapper.fileserverOpen client pathname flags fd room
  | .openat dirfd pathname flags fd room =>
    Wrapper.fileserverOpenat client dirfd pathname flags fd room
  | .close fd result => Wrapper.fileserverClose client fd result
  | .read fd buf count => Wrapper.fileserverRead client call.iterations fd buf count
  | .readv fd iov => Wrapper.fileserverReadv client call.iterations fd iov
  | .lseek fd offset whence => Wrapper.fileserverLseek client fd offset whence
  | .llseek fd offsetHigh offsetLow whence =>
    Wrapper.fileserverLlseek client fd offsetHigh offsetLow whence

def whole (config : Config w) (client : Nat) (p : Process w) (call : Call w) :
    Option (Process w × Outcome) :=
  match call with
  | .llseek fd offsetHigh offsetLow whence =>
    let (p, value, position) := fileserverLlseek config client p fd offsetHigh offsetLow whence
    some (p, ⟨value, some position⟩)
  | .open .. | .openat .. | .close .. | .read .. | .readv .. | .lseek .. =>
    (call.run config client call.iterations p).map fun (p, value) => (p, ⟨value, none⟩)

end Call

inductive Act (w : Nat) where
  | system (call : Call w)
  | compute (f : (Nat → UInt8) → (Nat → UInt8) × Int)

namespace Act

def steps (client : Nat) : Act w → Wrapper w
  | .system call => call.steps client
  | .compute f => .perform (.compute f) fun value => .done (some ⟨value, none⟩)

def whole (config : Config w) (client : Nat) (p : Process w) : Act w → Option (Process w × Outcome)
  | .system call => call.whole config client p
  | .compute f =>
    let (memory, value) := f p.memory
    some ({ p with memory }, ⟨value, none⟩)

end Act

/-! ## A wrapper without interruption -/

theorem step_request (p : Process w) (event : Event w) :
    (Process.machine config client).step p (.request event) =
      some ({ p with server := (p.server.run config event).1 },
        (p.server.run config event).2.value) := rfl

theorem step_read (p : Process w) (fd : Int) (size : BitVec w) :
    (Process.machine config client).step p (.request (.read client fd size)) =
      some ((p.extRead config client fd size).1, (p.extRead config client fd size).2.toInt) := rfl

theorem readLoop_run (fd : Int) (buf : Nat) (count : BitVec w) (fuel : Nat) (p : Process w)
    (total remain : BitVec w) :
    completed ((Wrapper.readLoop client fd buf count fuel total remain).run
        (Process.machine config client).step p) =
      readLoop config client fd buf count fuel p total remain := by
  induction fuel generalizing p total remain with
  | zero => rfl
  | succ fuel ih =>
    unfold Wrapper.readLoop readLoop
    split
    · rw [Program.run, step_read, Option.bind_some]
      dsimp only
      rw [BitVec.ofInt_toInt]
      split
      · rfl
      · exact ih _ _ _
    · rfl

theorem iovLoop_run (fd : Int) (iov : Iovec w) (fuel : Nat) (p : Process w)
    (iovOffset total : BitVec w) :
    completed ((Wrapper.iovLoop client fd iov fuel iovOffset total).run
        (Process.machine config client).step p) =
      iovLoop config client fd iov fuel p iovOffset total := by
  induction fuel generalizing p iovOffset total with
  | zero => rfl
  | succ fuel ih =>
    unfold Wrapper.iovLoop iovLoop
    split
    · rw [Program.run, step_read, Option.bind_some]
      dsimp only
      rw [BitVec.ofInt_toInt]
      split
      · rfl
      · exact ih _ _ _
    · rfl

theorem readvLoop_run (fuel : Nat) (fd : Int) (iov : List (Iovec w)) (p : Process w)
    (total : BitVec w) :
    completed ((Wrapper.readvLoop client fuel fd iov total).run
        (Process.machine config client).step p) =
      readvLoop config client fuel fd iov p total := by
  induction iov generalizing p total with
  | nil => rfl
  | cons iov rest ih =>
    rw [Wrapper.readvLoop, readvLoop, run_bind, ← iovLoop_run]
    -- the next buffer comes only after one that was filled
    cases (Wrapper.iovLoop client fd iov fuel 0#w total).run (Process.machine config client).step p
      with
    | none => rfl
    | some after =>
      obtain ⟨p, result⟩ := after
      cases result with
      | none => rfl
      | some result =>
        obtain ⟨total, ended⟩ := result
        cases ended with
        | true => rfl
        | false => exact ih p total

theorem steps_run (call : Call w) (p : Process w) :
    completed ((call.steps client).run (Process.machine config client).step p) =
      call.whole config client p := by
  cases call with
  | «open» => rfl
  | openat dirfd pathname flags fd room =>
    simp only [Call.steps, Call.whole, Call.run, Wrapper.fileserverOpenat, fileserverOpenat]
    split
    · rfl
    · rfl
  | close => rfl
  | read fd buf count =>
    simp only [Call.steps, Call.whole, Call.run, Wrapper.fileserverRead, fileserverRead]
    rw [completed_map, readLoop_run, Option.map_map]
    rfl
  | readv fd iov =>
    simp only [Call.steps, Call.whole, Call.run, Wrapper.fileserverReadv, fileserverReadv]
    rw [completed_map, readvLoop_run, Option.map_map]
    rfl
  | lseek => rfl
  | llseek => rfl

theorem act_run (act : Act w) (p : Process w) :
    completed ((act.steps client).run (Process.machine config client).step p) =
      act.whole config client p := by
  cases act with
  | system call => exact steps_run call p
  | compute f => rfl

theorem fileserverRead_ends (p : Process w) (fd : Int) (buf : Nat) {count : BitVec w} {fuel : Nat}
    (enough : count.toNat < fuel) :
    ∃ p' value, fileserverRead config client fuel p fd buf count = some (p', value) := by
  cases accepted : validateClientFd config p.server fd client with
  | false => exact ⟨p, 0, fileserverRead_of_rejected accepted buf count (by omega)⟩
  | true =>
    obtain ⟨file, readable⟩ := readable_of_accepted accepted
    obtain ⟨p', n, done, _⟩ := fileserverRead_spec readable buf enough
    exact ⟨p', n, done⟩

theorem fileserverReadv_ends (p : Process w) (fd : Int) {iov : List (Iovec w)} {fuel : Nat}
    (enough : ∀ one ∈ iov, one.len.toNat < fuel) :
    ∃ p' value, fileserverReadv config client fuel p fd iov = some (p', value) := by
  cases accepted : validateClientFd config p.server fd client with
  | false => exact ⟨p, 0, fileserverReadv_of_rejected accepted iov enough⟩
  | true =>
    obtain ⟨file, readable⟩ := readable_of_accepted accepted
    obtain ⟨p', n, done, _⟩ := fileserverReadv_spec readable enough
    exact ⟨p', n, done⟩

theorem whole_total (p : Process w) (act : Act w) :
    ∃ p' outcome, act.whole config client p = some (p', outcome) := by
  cases act with
  | compute f => exact ⟨_, _, rfl⟩
  | system call =>
    have within := call.within_iterations
    cases call with
    | «open» | openat | close | lseek | llseek => exact ⟨_, _, rfl⟩
    | read fd buf count =>
      obtain ⟨p', value, done⟩ := fileserverRead_ends p fd buf within
      exact ⟨p', ⟨value, none⟩, congrArg (Option.map _) done⟩
    | readv fd iov =>
      obtain ⟨p', value, done⟩ := fileserverReadv_ends p fd within
      exact ⟨p', ⟨value, none⟩, congrArg (Option.map _) done⟩

/-! ## What a client sees of the server -/

def Server.only (client : Nat) (s : Server w) : Server w where
  fds fd := (s.fds fd).filter fun data => data.client == some client
  buf := Function.update (fun _ _ => 0) client (s.buf client)

def Process.only (client : Nat) (p : Process w) : Process w :=
  { p with server := p.server.only client }

theorem validateClientFd_only (s : Server w) (fd : Int) :
    validateClientFd config (s.only client) fd client = validateClientFd config s fd client := by
  unfold validateClientFd Server.only
  cases record : s.fds fd with
  | none => simp [record]
  | some data =>
    by_cases mine : data.client = some client
    · simp [record, mine, Option.filter]
    · simp [record, mine, Option.filter]

theorem fds_only_of_accepted {s : Server w} {fd : Int}
    (accepted : validateClientFd config s fd client = true) :
    ∃ file, s.fds fd = some (mine client file) ∧
      (s.only client).fds fd = some (mine client file) := by
  obtain ⟨file, readable⟩ := readable_of_accepted accepted
  refine ⟨file, readable.record, ?_⟩
  simp [Server.only, readable.record, mine, Option.filter]

theorem setFd_only_mine (s : Server w) (fd : Int) (file : File w) :
    (s.setFd fd (some (mine client file))).only client =
      (s.only client).setFd fd (some (mine client file)) := by
  unfold Server.only Server.setFd
  congr 1
  funext other
  rcases eq_or_ne other fd with rfl | different
  · simp [mine, Option.filter]
  · simp [different]

theorem setFd_only_none (s : Server w) (fd : Int) :
    (s.setFd fd none).only client = (s.only client).setFd fd none := by
  unfold Server.only Server.setFd
  congr 1
  funext other
  rcases eq_or_ne other fd with rfl | different
  · simp
  · simp [different]

@[simp] theorem buf_only (s : Server w) : (s.only client).buf client = s.buf client := by
  simp [Server.only]

theorem store_only (s : Server w) (fd : Int) (file : File w) (contents : Nat → UInt8) :
    ({ s.setFd fd (some (mine client file)) with
        buf := Function.update s.buf client contents } : Server w).only client =
      { (s.only client).setFd fd (some (mine client file)) with
        buf := Function.update (s.only client).buf client contents } := by
  rw [← setFd_only_mine]
  simp [Server.only]

theorem open_only (s : Server w) (name : String) (flags fd : Int) (room : Bool) :
    fsCtrlOpen config (s.only client) client name flags fd room =
      ((fsCtrlOpen config s client name flags fd room).1.only client,
        (fsCtrlOpen config s client name flags fd room).2) := by
  unfold fsCtrlOpen
  by_cases failed : fd < 0
  · simp only [if_pos failed]
  · simp only [if_neg failed, setFd_setFd]
    cases room with
    | true => exact congrArg (·, fd) (setFd_only_mine s fd (config.find name flags)).symm
    | false => exact congrArg (·, -enomem) (setFd_only_none s fd).symm

theorem seek_only (s : Server w) (fd offset whence : Int) :
    fsCtrlSeek config (s.only client) client fd offset whence =
      ((fsCtrlSeek config s client fd offset whence).1.only client,
        (fsCtrlSeek config s client fd offset whence).2) := by
  unfold fsCtrlSeek
  rw [validateClientFd_only]
  cases accepted : validateClientFd config s fd client with
  | false => rfl
  | true =>
    obtain ⟨file, record, record'⟩ := fds_only_of_accepted accepted
    simp only [if_true, Server.lseek, record, record', mine]
    cases config.seek file offset whence with
    | none => rfl
    | some position => exact congrArg (·, (position : Int)) (setFd_only_mine s fd _).symm

theorem read_only (s : Server w) (fd : Int) (size : BitVec w) :
    fsCtrlRead config (s.only client) client fd size =
      ((fsCtrlRead config s client fd size).1.only client,
        (fsCtrlRead config s client fd size).2) := by
  unfold fsCtrlRead
  rw [validateClientFd_only]
  cases accepted : validateClientFd config s fd client with
  | false => rfl
  | true =>
    obtain ⟨file, record, record'⟩ := fds_only_of_accepted accepted
    simp only [if_true, Server.read, record, record', mine]
    cases config.readFails file (clamp config client size) with
    | true => rfl
    | false =>
      simp only [Bool.false_eq_true, if_false, buf_only]
      exact congrArg (·, _) (store_only s fd _ _).symm

theorem close_only (s : Server w) (fd result : Int) :
    fsCtrlClose config (s.only client) client fd result =
      ((fsCtrlClose config s client fd result).1.only client,
        (fsCtrlClose config s client fd result).2) := by
  unfold fsCtrlClose
  rw [validateClientFd_only]
  cases accepted : validateClientFd config s fd client with
  | false => rfl
  | true => exact congrArg (·, result) (setFd_only_none s fd).symm

theorem run_only (config : Config w) (s : Server w) {event : Event w} (own : event.client = client) :
    (s.only client).run config event =
      ((s.run config event).1.only client, (s.run config event).2) := by
  subst own
  cases event with
  | «open» name flags fd room => simp only [Server.run, Event.client, open_only]
  | seek fd offset whence => simp only [Server.run, Event.client, seek_only]
  | read fd size => simp only [Server.run, Event.client, read_only, buf_only]
  | close fd result => simp only [Server.run, Event.client, close_only]

theorem fds_only_iff (s : Server w) (fd : Int) (data : FileData w) :
    (s.only client).fds fd = some data ↔ ∃ file, data = mine client file ∧
      s.fds fd = some (mine client file) := by
  unfold Server.only
  rw [Option.filter_eq_some_iff]
  constructor
  · rintro ⟨record, own⟩
    obtain ⟨file, owner⟩ := data
    obtain rfl : owner = some client := by simpa using own
    exact ⟨file, rfl, record⟩
  · rintro ⟨file, rfl, record⟩
    exact ⟨record, by simp [mine]⟩

/-- The requests of the others do not show. -/
theorem run_only_of_foreign {s : Server w} (regular : s.Regular config) {event : Event w}
    (foreign : event.client ≠ client) (allowed : (machine config).allowed s event) :
    (s.run config event).1.only client = s.only client := by
  have did := step_did regular allowed rfl
  have dataport : (s.run config event).1.buf client = s.buf client := by
    by_contra changed
    exact foreign (did.confined.bufs client changed).1.symm
  -- descriptors may be taken and given up, but by others
  have files : ((s.run config event).1.only client).fds = (s.only client).fds := by
    funext fd
    apply Option.ext
    intro data
    rw [fds_only_iff, fds_only_iff]
    exact exists_congr fun file => and_congr_right fun _ => did.foreign foreign fd file
  unfold Server.only at files ⊢
  rw [dataport]
  exact congrArg (Server.mk · _) files

theorem allowed_only {s : Server w} {event : Event w} (allowed : (machine config).allowed s event) :
    (machine config).allowed (s.only client) event := by
  cases event with
  | «open» other name flags fd room =>
    refine Or.imp_right (fun ⟨valid, free⟩ => ⟨valid, ?_⟩) allowed
    simp [Server.only, free]
  | seek | read | close => trivial

theorem separate (config : Config w) (client : Nat) :
    Separate (Process.machine config client) (strangers config client) (Process.only client)
      fun p => p.server.Regular config where
  others := by
    intro p event p' result regular allowed step
    cases event with
    | request event =>
      obtain ⟨rfl, rfl⟩ := Prod.mk.inj (Option.some.inj step)
      have same := run_only_of_foreign regular allowed.1 allowed.2
      exact congrArg (Process.mk · p.memory) same
    | write other contents =>
      obtain ⟨rfl, rfl⟩ := Prod.mk.inj (Option.some.inj step)
      have apart : client ≠ other := Ne.symm allowed
      simp [Process.only, Server.only, apart]
  own := by
    intro p op p' value regular allowed step
    cases op with
    | request event =>
      rw [step_request] at step
      obtain ⟨rfl, rfl⟩ := Prod.mk.inj (Option.some.inj step)
      refine ⟨⟨allowed.1, allowed_only allowed.2⟩, ?_⟩
      rw [step_request, Process.only, run_only config p.server allowed.1]
      rfl
    | memcpy dst n =>
      obtain ⟨rfl, rfl⟩ := Prod.mk.inj (Option.some.inj step)
      refine ⟨trivial, ?_⟩
      simp only [Process.machine, Process.only, Process.memcpy, buf_only]
    | compute f =>
      obtain ⟨rfl, rfl⟩ := Prod.mk.inj (Option.some.inj step)
      exact ⟨trivial, rfl⟩

/-! ## Runs -/

def clients (Value : Type) (config : Config w) (client : Nat) :
    Machine (Program (Op w) Int (Option Value) × Process w) (Turn (Foreign w)) (Option Int) :=
  among (Option Value) (Process.machine config client) (strangers config client)

variable {Value : Type}

theorem turn_regular {before after : Program (Op w) Int (Option Value) × Process w}
    {turn : Turn (Foreign w)} {answer : Option Int} (regular : before.2.server.Regular config)
    (allowed : (clients Value config client).allowed before turn)
    (step : (clients Value config client).step before turn = some (after, answer)) :
    after.2.server.Regular config := by
  refine turn_keeps (fun p => p.server.Regular config) ?_ ?_ regular allowed step
  · intro p op p' value regular allowed step
    cases op with
    | request event =>
      rw [step_request] at step
      obtain ⟨rfl, rfl⟩ := Prod.mk.inj (Option.some.inj step)
      exact (step_did regular allowed.2 rfl).regular regular
    | memcpy | compute =>
      obtain ⟨rfl, rfl⟩ := Prod.mk.inj (Option.some.inj step)
      exact regular
  · intro p event p' value regular allowed step
    cases event with
    | request event =>
      cases step
      exact (step_did regular allowed.2 rfl).regular regular
    | write other contents =>
      cases step
      exact regular

/-- Whatever other clients ask of the server between the pieces of a client's calls, the calls
return and leave in the client's memory what they would, one after the other and each as a whole, on
a server that the client has for itself; and each of them ends when its pieces go on. -/
theorem calls_as_alone {buf : Nat → Nat → UInt8} {past : List (Event w × Reply)} {p p' : Process w}
    (reached : (machine config).Run (Server.init buf) past p.server)
    (program : Program (Act w) Outcome Value) {trace : List (Turn (Foreign w) × Option Int)}
    {rest : Program (Op w) Int (Option Value)}
    (run : (clients Value config client).Run (program.expand (Act.steps client), p) trace
      (rest, p')) :
    (Program.alone (Option Value) (Process.machine config client)).Run
        (program.expand (Act.steps client), p.only client) (trace.filterMap Program.answers)
        (rest, p'.only client) ∧
      ∃ final value, program.run (Act.whole config client) (p.only client) = some (final, value) ∧
        rest.run (Process.machine config client).step (p'.only client) =
          some (final, some value) := by
  have regular : ∀ early s, (clients Value config client).Run
      (program.expand (Act.steps client), p) early s → s.2.server.Regular config :=
    fun early s run => run.invariant (run_regular reached) fun _ _ _ _ => turn_regular
  -- without the others the same pieces run, and together they make up the calls
  have projected := ((separate config client).projection (Option Value)).run run regular
  obtain ⟨final, value, whole⟩ := run_total whole_total program (p.only client)
  refine ⟨projected, final, value, whole, ?_⟩
  calc rest.run (Process.machine config client).step (p'.only client)
    _ = (program.expand (Act.steps client)).run (Process.machine config client).step
          (p.only client) := (alone_run projected).symm
    _ = some (final, some value) := by
      rw [← completed_eq_some, run_expand, ← whole]
      exact run_congr (fun p act => act_run act p) program _

def opened : Server 64 :=
  (((Server.init fun _ _ => 0).run archive (.open 1 "hello" 0 3 true)).1.run archive
    (.open 2 "hello" 0 4 true)).1

def reading : Program (Act 64) Outcome Int :=
  .perform (.system (.read 3 16 7)) fun outcome => .done outcome.value

/-- Client 2 reads between the first piece of client 1 and its copy. -/
theorem calls_as_alone_archive : ∃ trace rest p,
    (clients Int archive 1).Run (reading.expand (Act.steps 1), ⟨opened, fun _ => 0⟩) trace
      (rest, p) ∧
    rest = .done (some 6) ∧ window p.memory 16 7 = [104, 101, 108, 108, 111, 33, 0] ∧
    ∃ final value,
      reading.run (Act.whole archive 1) (Process.only 1 ⟨opened, fun _ => 0⟩) =
          some (final, value) ∧
        rest.run (Process.machine archive 1).step (p.only 1) = some (final, some value) := by
  have unopened : (machine archive).Run (Server.init fun _ _ => 0) [] _ := .start
  have one := unopened.on (.open 1 "hello" 0 3 true) (.inr ⟨rfl, rfl⟩) rfl
  have both : (machine archive).Run _ _ opened :=
    one.on (.open 2 "hello" 0 4 true) (.inr ⟨rfl, rfl⟩) rfl
  have begun : (clients Int archive 1).Run
    (reading.expand (Act.steps 1), ⟨opened, fun _ => 0⟩) [] _ := .start
  have first := begun.on .own ⟨rfl, trivial⟩ rfl
  have between := first.on (.other (.request (.read 2 4 3))) ⟨by decide, trivial⟩ rfl
  have copied := between.on .own trivial rfl
  have written := copied.on (.other (.write 2 fun _ => 7)) (by decide : 2 ≠ 1) rfl
  have second := written.on .own ⟨rfl, trivial⟩ rfl
  have copied' := second.on .own trivial rfl
  have ended := copied'.on .own ⟨rfl, trivial⟩ rfl
  exact ⟨_, _, _, ended, rfl, rfl, (calls_as_alone both reading ended).2⟩

end GlobalComponents.FileServer
