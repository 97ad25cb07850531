import GlobalComponents.Library.Run
import GlobalComponents.Library.Window
import Mathlib.Algebra.Group.Nat.Defs

/-! The file server: the files of an archive, opened for clients that each have a dataport.

The C library below it is what the environment decides: which descriptor an open gets and whether
there is memory for its record, when a read fails, where a seek leads. It keeps a position for each
descriptor. `size_t`, `ssize_t` and `long` are words of `w` bits.
-/

set_option autoImplicit false

namespace GlobalComponents.FileServer

open Library Library.Window

variable {w : Nat}

/-- An open file of the archive, small enough for an `ssize_t` to count its bytes. -/
structure File (w : Nat) where
  content : List UInt8
  position : Nat
  small : 2 * content.length < 2 ^ w

namespace File

def left (file : File w) : List UInt8 := file.content.drop file.position

def advance (file : File w) (n : Nat) : File w := { file with position := file.position + n }

end File

structure Config (w : Nat) where
  validFd : Int → Bool
  /-- The file that a successful `open` finds. -/
  find : String → Int → File w
  readFails : File w → BitVec w → Bool
  /-- The position that `lseek` sets, if it succeeds. -/
  seek : File w → Int → Int → Option Nat
  /-- `fs_ctrl_buf_size` -/
  bufSize : Nat → BitVec w
  bufSize_pos : ∀ client, 0 < (bufSize client).toNat
  wide : 0 < w

/-- `cpio_file_data_wrap_t`, whose client is only there once the record was extended. -/
structure FileData (w : Nat) where
  file : File w
  client : Option Nat

structure Server (w : Nat) where
  /-- `get_fd_struct`: the data where the file type is `FILE_TYPE_CPIO`. -/
  fds : Int → Option (FileData w)
  /-- The dataports, by client. -/
  buf : Nat → Nat → UInt8

namespace Server

def setFd (s : Server w) (fd : Int) (data : Option (FileData w)) : Server w :=
  { s with fds := Function.update s.fds fd data }

def read (config : Config w) (s : Server w) (fd : Int) (client : Nat) (n : BitVec w) :
    Server w × BitVec w :=
  match s.fds fd with
  | some data =>
    if config.readFails data.file n then (s, -1#w)
    else
      let bytes := data.file.left.take n.toNat
      ({ s.setFd fd (some { data with file := data.file.advance bytes.length }) with
        buf := Function.update s.buf client (store (s.buf client) 0 bytes) },
        BitVec.ofNat w bytes.length)
  | none => (s, -1#w)

def lseek (config : Config w) (s : Server w) (fd offset whence : Int) : Server w × Int :=
  match s.fds fd with
  | some data =>
    match config.seek data.file offset whence with
    | some position =>
      (s.setFd fd (some { data with file := { data.file with position } }), position)
    | none => (s, -1)
  | none => (s, -1)

end Server

def enomem : Int := 12
def ebadf : Int := 9
def einval : Int := 22

def validateClientFd (config : Config w) (s : Server w) (fd : Int) (client : Nat) : Bool :=
  if config.validFd fd then
    match s.fds fd with
    | some data => data.client == some client
    | none => false
  else false

/-- `fd` is what `open` returned, `room` tells whether `realloc` succeeded. -/
def fsCtrlOpen (config : Config w) (s : Server w) (client : Nat) (name : String) (flags : Int)
    (fd : Int) (room : Bool) : Server w × Int :=
  if fd < 0 then (s, fd)
  else
    let data : FileData w := ⟨config.find name flags, none⟩
    let s := s.setFd fd (some data)
    if room then (s.setFd fd (some { data with client := some client }), fd)
    else (s.setFd fd none, -enomem)

def fsCtrlSeek (config : Config w) (s : Server w) (client : Nat) (fd offset whence : Int) :
    Server w × Int :=
  if validateClientFd config s fd client then s.lseek config fd offset whence else (s, -1)

def clamp (config : Config w) (client : Nat) (size : BitVec w) : BitVec w :=
  let max := config.bufSize client
  if size < max then size else max

def fsCtrlRead (config : Config w) (s : Server w) (client : Nat) (fd : Int) (size : BitVec w) :
    Server w × BitVec w :=
  if validateClientFd config s fd client then s.read config fd client (clamp config client size)
  else (s, -1#w)

def fsCtrlClose (config : Config w) (s : Server w) (client : Nat) (fd : Int) (result : Int) :
    Server w × Int :=
  if validateClientFd config s fd client then (s.setFd fd none, result) else (s, -ebadf)

inductive Event (w : Nat) where
  | open (client : Nat) (name : String) (flags fd : Int) (room : Bool)
  | seek (client : Nat) (fd offset whence : Int)
  | read (client : Nat) (fd : Int) (size : BitVec w)
  | close (client : Nat) (fd result : Int)

structure Reply where
  value : Int
  copied : List UInt8
  deriving DecidableEq

def Server.run (config : Config w) (s : Server w) : Event w → Server w × Reply
  | .open client name flags fd room =>
    let (s, value) := fsCtrlOpen config s client name flags fd room
    (s, ⟨value, []⟩)
  | .seek client fd offset whence =>
    let (s, value) := fsCtrlSeek config s client fd offset whence
    (s, ⟨value, []⟩)
  | .read client fd size =>
    let (s, n) := fsCtrlRead config s client fd size
    (s, ⟨n.toInt, window (s.buf client) 0 n.toInt.toNat⟩)
  | .close client fd result =>
    let (s, value) := fsCtrlClose config s client fd result
    (s, ⟨value, []⟩)

/-- `open` returns an error or a descriptor that is not open. -/
def machine (config : Config w) : Machine (Server w) (Event w) Reply where
  allowed s
    | .open _ _ _ fd _ => fd < 0 ∨ config.validFd fd = true ∧ s.fds fd = none
    | .seek _ _ _ _ | .read _ _ _ | .close _ _ _ => True
  step s event := some (s.run config event)

theorem ofNat_toInt {n : Nat} (small : 2 * n < 2 ^ w) : (BitVec.ofNat w n).toInt = n := by
  have within : n < 2 ^ w := by omega
  rw [BitVec.toInt_eq_toNat_of_lt, BitVec.toNat_ofNat, Nat.mod_eq_of_lt within]
  rwa [BitVec.toNat_ofNat, Nat.mod_eq_of_lt within]

theorem minus_one_toInt (config : Config w) : (-1#w).toInt = -1 := by
  rw [BitVec.neg_one_eq_allOnes, BitVec.toInt_allOnes, if_pos config.wide]

def Server.init (buf : Nat → Nat → UInt8) : Server w := ⟨fun _ => none, buf⟩

def archive : Config 64 where
  validFd fd := 3 ≤ fd && fd < 1024
  find _ _ := ⟨[104, 101, 108, 108, 111, 33], 0, by decide⟩
  readFails _ _ := false
  seek _ offset whence := if whence = 0 ∧ 0 ≤ offset then some offset.toNat else none
  bufSize _ := 4
  bufSize_pos _ := by decide
  wide := by decide

end GlobalComponents.FileServer
