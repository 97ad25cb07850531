import GlobalComponents.Library.Run
import Mathlib.Logic.Function.Basic

/-! The virtqueue channels of the serial server.

The server takes a request from a virtqueue, gives it a serial buffer and hands the buffer to the
device, with one static token per direction. A buffer stands for its allocation, what it holds is
left out, and a ring has room for what is put into it.
-/

set_option autoImplicit false

namespace GlobalComponents.SerialServer.Virtqueue

open Library

/-- `virtqueue_op`, which also names the virtqueue and the static objects of its direction. -/
inductive Op where
  | read
  | write
  deriving DecidableEq

abbrev Handle := Nat
abbrev Buf := Nat

structure Request where
  handle : Handle
  size : Nat

/-- `virtqueue_token_t`, where a null pointer is none. -/
structure Token where
  vq : Option Op
  handle : Handle
  serialBuf : Option Buf
  bufSize : Nat

/-- Whether the routines of the virtqueue library that copy a request's data, from its ring buffers
and into them, also put the handle into the used ring. -/
structure Copying where
  gather : Bool
  scatter : Bool

/-- One direction. `used` has all that was ever put into the ring, `accepted` is what the device is
working on. -/
structure Channel where
  avail : List Request
  used : List Handle
  notified : Nat
  token : Token
  inProgress : Bool
  accepted : List Buf

structure System where
  channel : Op → Channel
  allocated : Nat
  freed : List Buf

def System.modify (s : System) (op : Op) (change : Channel → Channel) : System :=
  { s with channel := Function.update s.channel op (change (s.channel op)) }

def System.addUsedBuf (s : System) (vq : Op) (handle : Handle) : System :=
  s.modify vq fun c => { c with used := c.used ++ [handle] }

def System.notify (s : System) (vq : Op) : System :=
  s.modify vq fun c => { c with notified := c.notified + 1 }

def System.setToken (s : System) (op : Op) (token : Token) : System :=
  s.modify op fun c => { c with token }

def System.setInProgress (s : System) (op : Op) (inProgress : Bool) : System :=
  s.modify op fun c => { c with inProgress }

def System.free (s : System) (buf : Buf) : System := { s with freed := s.freed ++ [buf] }

def gatherCopyBuffer (copying : Copying) (s : System) (vq : Op) (handle : Handle) : System :=
  if copying.gather then s.addUsedBuf vq handle else s

def scatterCopyBuffer (copying : Copying) (s : System) (vq : Op) (handle : Handle) : System :=
  if copying.scatter then s.addUsedBuf vq handle else s

/-- No result where a null pointer is used. -/
def writeCallback (s : System) (op : Op) : Option System :=
  let vqToken := (s.channel op).token
  match vqToken.serialBuf with
  | none => some s
  | some serialBuf => do
    let vq ← vqToken.vq
    let s := (s.notify vq).free serialBuf
    let s := s.setToken op { vqToken with serialBuf := none }
    return s.setInProgress .write false

def readCallback (copying : Copying) (s : System) (op : Op) : Option System :=
  let vqToken := (s.channel op).token
  match vqToken.serialBuf with
  | none => some s
  | some serialBuf => do
    let vq ← vqToken.vq
    let s := scatterCopyBuffer copying s vq vqToken.handle
    let s := (s.notify vq).free serialBuf
    let s := s.setToken op { vqToken with serialBuf := none }
    return s.setInProgress .read false

structure Answer where
  allocated : Bool
  accepted : Bool

structure Job where
  handle : Handle
  buf : Buf
  deriving DecidableEq

inductive Result where
  | done
  | unallocated (handle : Handle)
  | refused (job : Job)
  | accepted (job : Job)

/-- `plat_serial_read` and `plat_serial_write`, with the error path of their caller. -/
def submit (s : System) (vq : Op) (handle : Handle) (op : Op) (buf : Buf) (accepted : Bool) :
    System × Result :=
  if accepted then
    (s.modify op fun c => { c with accepted := c.accepted ++ [buf] }, .accepted ⟨handle, buf⟩)
  else ((s.free buf).addUsedBuf vq handle, .refused ⟨handle, buf⟩)

def handleVirtqueueMessage (copying : Copying) (s : System) (vq : Op) (request : Request) (op : Op)
    (answer : Answer) : System × Result :=
  let handle := request.handle
  if answer.allocated then
    let buf := s.allocated
    let s := { s with allocated := s.allocated + 1 }
    let s := s.setToken op ⟨some vq, handle, some buf, request.size⟩
    match op with
    | .read => submit s vq handle op buf answer.accepted
    | .write =>
      let s := gatherCopyBuffer copying s vq handle
      submit s vq handle op buf answer.accepted
  else (s.addUsedBuf vq handle, .unallocated handle)

def handleVirtqueueCallback (copying : Copying) (s : System) (vq op : Op) (answer : Answer) :
    System × Result :=
  match (s.channel vq).avail with
  | [] => (s, .done)
  | request :: rest =>
    handleVirtqueueMessage copying (s.modify vq fun c => { c with avail := rest }) vq request op
      answer

def waitCallback (copying : Copying) (s : System) (vq op : Op) (answer : Answer) :
    System × Result :=
  if (s.channel vq).avail ≠ [] then
    handleVirtqueueCallback copying (s.setInProgress op true) vq op answer
  else (s, .done)

def serialReadWaitCallback (copying : Copying) (s : System) (answer : Answer) : System × Result :=
  waitCallback copying s .read .read answer

def serialWriteWaitCallback (copying : Copying) (s : System) (answer : Answer) : System × Result :=
  waitCallback copying s .write .write answer

/-! ## The system -/

inductive Event where
  | enqueue (vq : Op) (request : Request)
  | wait (op : Op) (answer : Answer)
  | complete (op : Op) (buf : Buf)

def System.run (copying : Copying) (s : System) : Event → Option (System × Result)
  | .enqueue vq request =>
    some (s.modify vq fun c => { c with avail := c.avail ++ [request] }, .done)
  | .wait .read answer => some (serialReadWaitCallback copying s answer)
  | .wait .write answer => some (serialWriteWaitCallback copying s answer)
  | .complete op buf => do
    let s := s.modify op fun c => { c with accepted := c.accepted.erase buf }
    let s ← match op with
      | .read => readCallback copying s .read
      | .write => writeCallback s .write
    return (s, .done)

def System.init : System := ⟨fun _ => ⟨[], [], 0, ⟨none, 0, none, 0⟩, false, []⟩, 0, []⟩

/-- The device completes each request once, and only what it has accepted. -/
def machine (copying : Copying) : Machine System Event Result where
  allowed s
    | .complete op buf => buf ∈ (s.channel op).accepted
    | .enqueue _ _ | .wait _ _ => True
  step s event := s.run copying event

/-! ## Steps -/

/-- Whether a request of this kind is finished when it is submitted, or when it completes. -/
def Copying.atSubmission (copying : Copying) : Op → Bool
  | .read => false
  | .write => copying.gather

def Copying.atCompletion (copying : Copying) : Op → Bool
  | .read => copying.scatter
  | .write => false

def finishedIf (now : Bool) (handle : Handle) : List Handle := if now then [handle] else []

def Channel.given (c : Channel) (copying : Copying) (op : Op) (request : Request)
    (rest : List Request) (buf : Buf) : Channel :=
  { c with
    avail := rest
    inProgress := true
    token := ⟨some op, request.handle, some buf, request.size⟩
    used := c.used ++ finishedIf (copying.atSubmission op) request.handle }

def Channel.released (c : Channel) (copying : Copying) (op : Op) (buf : Buf) : Channel :=
  { c with
    accepted := c.accepted.erase buf
    used := c.used ++ finishedIf (copying.atCompletion op) c.token.handle
    notified := c.notified + 1
    token := { c.token with serialBuf := none }
    inProgress := false }

variable {copying : Copying} {s : System} {op : Op} {answer : Answer} {request : Request}
  {rest : List Request} {buf : Buf}

theorem run_idle (empty : (s.channel op).avail = []) :
    s.run copying (.wait op answer) = some (s, .done) := by
  cases op with
  | read | write => exact congrArg some (if_neg (not_not.mpr empty))

theorem run_wait (avail : (s.channel op).avail = request :: rest) :
    s.run copying (.wait op answer) = some (handleVirtqueueMessage copying
      (s.modify op fun c => { c with avail := rest, inProgress := true }) op request op answer) := by
  have taken : waitCallback copying s op op answer = handleVirtqueueMessage copying
      (s.modify op fun c => { c with avail := rest, inProgress := true }) op request op answer := by
    have left : (s.channel op).avail ≠ [] := by
      rw [avail]
      exact List.cons_ne_nil _ _
    have avail' : ((s.setInProgress op true).channel op).avail = request :: rest := by
      simp only [System.setInProgress, System.modify, Function.update_self, avail]
    unfold waitCallback handleVirtqueueCallback
    rw [if_pos left, avail']
    simp only [System.setInProgress, System.modify, Function.update_self, Function.update_idem]
  cases op with
  | read | write => exact congrArg some taken

theorem gatherCopyBuffer_eq (s : System) (handle : Handle) : gatherCopyBuffer copying s .write handle =
    s.modify .write fun c =>
      { c with used := c.used ++ finishedIf (copying.atSubmission .write) handle } := by
  unfold gatherCopyBuffer Copying.atSubmission finishedIf
  cases copying.gather with
  | false =>
    simp only [Bool.false_eq_true, if_false, List.append_nil]
    exact congrArg (System.mk · s.allocated s.freed) (Function.update_eq_self _ _).symm
  | true => rfl

theorem scatterCopyBuffer_eq (s : System) (handle : Handle) :
    scatterCopyBuffer copying s .read handle = s.modify .read fun c =>
      { c with used := c.used ++ finishedIf (copying.atCompletion .read) handle } := by
  unfold scatterCopyBuffer Copying.atCompletion finishedIf
  cases copying.scatter with
  | false =>
    simp only [Bool.false_eq_true, if_false, List.append_nil]
    exact congrArg (System.mk · s.allocated s.freed) (Function.update_eq_self _ _).symm
  | true => rfl

theorem run_unallocated (avail : (s.channel op).avail = request :: rest)
    (refused : answer.allocated = false) : s.run copying (.wait op answer) = some
      (s.modify op fun c =>
        { c with avail := rest, inProgress := true, used := c.used ++ [request.handle] },
      .unallocated request.handle) := by
  rw [run_wait avail, handleVirtqueueMessage, refused]
  simp only [System.addUsedBuf, System.modify, Function.update_self, Function.update_idem,
    Bool.false_eq_true, if_false]

theorem run_allocated (avail : (s.channel op).avail = request :: rest)
    (given : answer.allocated = true) : s.run copying (.wait op answer) = some (submit
      { s.modify op (·.given copying op request rest s.allocated) with allocated := s.allocated + 1 }
      op request.handle op s.allocated answer.accepted) := by
  rw [run_wait avail, handleVirtqueueMessage, given]
  cases op with
  | read =>
    simp only [System.setToken, System.modify, Function.update_self, Function.update_idem,
      Channel.given, Copying.atSubmission, finishedIf, Bool.false_eq_true, if_false, if_true,
      List.append_nil]
  | write =>
    simp only [gatherCopyBuffer_eq, System.setToken, System.modify, Function.update_self,
      Function.update_idem, Channel.given, if_true]

theorem run_refused (avail : (s.channel op).avail = request :: rest)
    (given : answer.allocated = true) (refused : answer.accepted = false) :
    s.run copying (.wait op answer) = some
      ({ s.modify op (fun c =>
          { c.given copying op request rest s.allocated with
            used := (c.given copying op request rest s.allocated).used ++ [request.handle] }) with
        allocated := s.allocated + 1
        freed := s.freed ++ [s.allocated] }, .refused ⟨request.handle, s.allocated⟩) := by
  rw [run_allocated avail given, submit, refused]
  simp only [System.free, System.addUsedBuf, System.modify, Function.update_self,
    Function.update_idem, Bool.false_eq_true, if_false]

theorem run_accepted (avail : (s.channel op).avail = request :: rest)
    (given : answer.allocated = true) (accepted : answer.accepted = true) :
    s.run copying (.wait op answer) = some
      ({ s.modify op (fun c =>
          { c.given copying op request rest s.allocated with
            accepted := c.accepted ++ [s.allocated] }) with
        allocated := s.allocated + 1 }, .accepted ⟨request.handle, s.allocated⟩) := by
  rw [run_allocated avail given, submit, accepted]
  simp only [System.modify, Function.update_self, Function.update_idem, if_true]
  rfl

/-- A token without a buffer turns the completion away. -/
theorem run_complete_none (empty : (s.channel op).token.serialBuf = none) :
    s.run copying (.complete op buf) = some
      (s.modify op fun c => { c with accepted := c.accepted.erase buf }, .done) := by
  cases op with
  | read =>
    simp only [System.run, readCallback, System.modify, Function.update_self, empty]
    rfl
  | write =>
    simp only [System.run, writeCallback, System.modify, Function.update_self, empty]
    rfl

theorem run_complete_some {held : Buf} (holds : (s.channel op).token.serialBuf = some held)
    (vq : (s.channel op).token.vq = some op) :
    s.run copying (.complete op buf) = some
      ({ s.modify op (·.released copying op buf) with freed := s.freed ++ [held] }, .done) := by
  cases op with
  | read =>
    simp only [System.run, readCallback, scatterCopyBuffer_eq, System.modify, System.notify,
      System.free, System.setToken, System.setInProgress, Function.update_self,
      Function.update_idem, holds, vq, Option.bind_eq_bind, Option.bind_some, Option.pure_def,
      Channel.released]
  | write =>
    simp only [System.run, writeCallback, System.modify, System.notify, System.free,
      System.setToken, System.setInProgress, Function.update_self, Function.update_idem, holds, vq,
      Channel.released, Copying.atCompletion, finishedIf, Bool.false_eq_true, if_false,
      List.append_nil, Option.bind_eq_bind, Option.bind_some, Option.pure_def]

end GlobalComponents.SerialServer.Virtqueue
