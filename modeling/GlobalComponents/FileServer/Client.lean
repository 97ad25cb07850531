import GlobalComponents.FileServer.Server

/-! The client library: system calls on files, made of requests to the file server.

Reads go chunk by chunk through the dataport.
-/

set_option autoImplicit false

namespace GlobalComponents.FileServer

open Library Library.Window

variable {w : Nat}

structure Process (w : Nat) where
  server : Server w
  memory : Nat → UInt8

structure Iovec (w : Nat) where
  base : Nat
  len : BitVec w

namespace Process

def extRead (config : Config w) (p : Process w) (client : Nat) (fd : Int) (size : BitVec w) :
    Process w × BitVec w :=
  let (server, result) := fsCtrlRead config p.server client fd size
  ({ p with server }, result)

def memcpy (p : Process w) (client dst : Nat) (n : BitVec w) : Process w :=
  { p with memory := store p.memory dst (window (p.server.buf client) 0 n.toNat) }

end Process

section
variable (config : Config w) (client : Nat)

def fileserverOpen (p : Process w) (pathname : String) (flags fd : Int) (room : Bool) :
    Process w × Int :=
  let (server, result) := fsCtrlOpen config p.server client pathname flags fd room
  ({ p with server }, result)

def atFdcwd : Int := -100

def fileserverOpenat (p : Process w) (dirfd : Int) (pathname : String) (flags fd : Int)
    (room : Bool) : Process w × Int :=
  if dirfd ≠ atFdcwd then (p, -einval)
  else fileserverOpen config client p pathname flags fd room

def fileserverClose (p : Process w) (fd result : Int) : Process w × Int :=
  let (server, result) := fsCtrlClose config p.server client fd result
  ({ p with server }, result)

def readLoop (fd : Int) (buf : Nat) (count : BitVec w) :
    Nat → Process w → BitVec w → BitVec w → Option (Process w × BitVec w)
  | 0, _, _, _ => none
  | fuel + 1, p, total, remain =>
    if total < count then
      let (p, result) := p.extRead config client fd remain
      -- an error and the end of the file leave the loop alike
      if result.sle 0#w then some (p, total)
      else readLoop fd buf count fuel (p.memcpy client (buf + total.toNat) result)
        (total + result) (remain - result)
    else some (p, total)

/-- `none` when the iterations do not suffice. -/
def fileserverRead (fuel : Nat) (p : Process w) (fd : Int) (buf : Nat) (count : BitVec w) :
    Option (Process w × Int) :=
  (readLoop config client fd buf count fuel p 0#w count).map fun (p, total) => (p, total.toInt)

/-- The loop over one `iovec`; the flag tells that `fileserver_readv` returns inside of it. -/
def iovLoop (fd : Int) (iov : Iovec w) :
    Nat → Process w → BitVec w → BitVec w → Option (Process w × BitVec w × Bool)
  | 0, _, _, _ => none
  | fuel + 1, p, iovOffset, total =>
    if iovOffset < iov.len then
      let (p, read) := p.extRead config client fd (iov.len - iovOffset)
      -- so they do here, and the vectors behind are skipped
      if read.sle 0#w then some (p, total, true)
      else iovLoop fd iov fuel (p.memcpy client (iov.base + iovOffset.toNat) read)
        (iovOffset + read) (total + read)
    else some (p, total, false)

def readvLoop (fuel : Nat) (fd : Int) :
    List (Iovec w) → Process w → BitVec w → Option (Process w × BitVec w)
  | [], p, total => some (p, total)
  | iov :: rest, p, total =>
    match iovLoop config client fd iov fuel p 0#w total with
    | none => none
    | some (p, total, true) => some (p, total)
    | some (p, total, false) => readvLoop fuel fd rest p total

def fileserverReadv (fuel : Nat) (p : Process w) (fd : Int) (iov : List (Iovec w)) :
    Option (Process w × Int) :=
  (readvLoop config client fuel fd iov p 0#w).map fun (p, total) => (p, total.toInt)

/-- An `off_t` has 64 bits, the returned `long` may have fewer. -/
def fileserverLseek (p : Process w) (fd offset whence : Int) : Process w × Int :=
  let (server, position) := fsCtrlSeek config p.server client fd offset whence
  ({ p with server }, (BitVec.ofInt w position).toInt)

def fileserverLlseek (p : Process w) (fd : Int) (offsetHigh offsetLow : BitVec 32) (whence : Int) :
    Process w × Int × Int :=
  let (server, position) :=
    fsCtrlSeek config p.server client fd (offsetHigh ++ offsetLow).toInt whence
  ({ p with server }, 0, position)

end

theorem readLoop_eq (config : Config w) (client : Nat) (fd : Int) (buf : Nat) (count : BitVec w)
    (fuel : Nat) (p : Process w) (total : BitVec w) :
    readLoop config client fd buf count fuel p total (count - total) =
      (iovLoop config client fd ⟨buf, count⟩ fuel p total total).map fun (p, total, _) =>
        (p, total) := by
  induction fuel generalizing p total with
  | zero => rfl
  | succ fuel ih =>
    unfold readLoop iovLoop
    split
    · dsimp only
      split
      · rfl
      · rw [BitVec.sub_sub]
        exact ih _ _
    · rfl

end GlobalComponents.FileServer
