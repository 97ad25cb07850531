import GlobalComponents.FileServer.Reads

/-! Which errors of the file server reach the C library of the client. -/

set_option autoImplicit false

namespace GlobalComponents.FileServer

open Library Library.Window

variable {w : Nat} {config : Config w} {client : Nat}

inductive Call (w : Nat) where
  | open (pathname : String) (flags fd : Int) (room : Bool)
  | openat (dirfd : Int) (pathname : String) (flags fd : Int) (room : Bool)
  | close (fd result : Int)
  | read (fd : Int) (buf : Nat) (count : BitVec w)
  | readv (fd : Int) (iov : List (Iovec w))
  | lseek (fd offset whence : Int)
  | llseek (fd : Int) (offsetHigh offsetLow : BitVec 32) (whence : Int)

namespace Call

def run (config : Config w) (client fuel : Nat) (p : Process w) : Call w → Option (Process w × Int)
  | .open pathname flags fd room => some (fileserverOpen config client p pathname flags fd room)
  | .openat dirfd pathname flags fd room =>
    some (fileserverOpenat config client p dirfd pathname flags fd room)
  | .close fd result => some (fileserverClose config client p fd result)
  | .read fd buf count => fileserverRead config client fuel p fd buf count
  | .readv fd iov => fileserverReadv config client fuel p fd iov
  | .lseek fd offset whence => some (fileserverLseek config client p fd offset whence)
  | .llseek fd offsetHigh offsetLow whence =>
    let (p, value, _) := fileserverLlseek config client p fd offsetHigh offsetLow whence
    some (p, value)

def Within (fuel : Nat) : Call w → Prop
  | .read _ _ count => count.toNat < fuel
  | .readv _ iov => ∀ one ∈ iov, one.len.toNat < fuel
  | .open .. | .openat .. | .close .. | .lseek .. | .llseek .. => True

end Call

/-- The server rejects a read of this size, or the read below it fails. -/
def Server.ReadRefused (config : Config w) (s : Server w) (client : Nat) (fd : Int)
    (size : BitVec w) : Prop :=
  validateClientFd config s fd client = false ∨
    ∃ data, s.fds fd = some data ∧ config.readFails data.file size = true

def Server.SeekRefused (config : Config w) (s : Server w) (client : Nat) (fd offset whence : Int) :
    Prop :=
  validateClientFd config s fd client = false ∨
    ∃ data, s.fds fd = some data ∧ config.seek data.file offset whence = none

namespace Call

/-- The first request of the call is rejected or fails. A call that asks for no bytes makes none. -/
def Refused (config : Config w) (client : Nat) (s : Server w) : Call w → Prop
  | .open _ _ fd room => fd < 0 ∨ room = false
  | .openat dirfd _ _ fd room => dirfd ≠ atFdcwd ∨ fd < 0 ∨ room = false
  | .close fd result => validateClientFd config s fd client = false ∨ result < 0
  | .read fd _ count => count.toNat ≠ 0 ∧ s.ReadRefused config client fd (clamp config client count)
  | .readv fd iov => ∃ size, firstRequest config client iov = some size ∧
      s.ReadRefused config client fd size
  | .lseek fd offset whence => s.SeekRefused config client fd offset whence
  | .llseek fd offsetHigh offsetLow whence =>
    s.SeekRefused config client fd (offsetHigh ++ offsetLow).toInt whence

def Asks (fd : Int) : Call w → Prop
  | .read fd' _ count => fd' = fd ∧ count.toNat ≠ 0
  | .readv fd' iov => fd' = fd ∧ totalLength iov ≠ 0
  | .open .. | .openat .. | .close .. | .lseek .. | .llseek .. => False

/-- An error is a negative value, and 0 bytes are the end of the file. -/
structure Told (config : Config w) (client : Nat) (s : Server w) (call : Call w) (value : Int) :
    Prop where
  error : call.Refused config client s → value < 0
  ended : ∀ fd, call.Asks fd → value = 0 → ∃ data, s.fds fd = some data ∧ data.file.left = []

/-- The wrappers that do not pass on what the first request returns. -/
def hidesErrors : Call w → Bool
  | .read .. | .readv .. | .llseek .. => true
  | .open .. | .openat .. | .close .. | .lseek .. => false

end Call

/-! ## Rejected reads -/

theorem extRead_of_rejected {p : Process w} {fd : Int}
    (rejected : validateClientFd config p.server fd client = false) (size : BitVec w) :
    p.extRead config client fd size = (p, -1#w) := by
  simp [Process.extRead, fsCtrlRead, rejected]

theorem iovLoop_of_rejected {fuel : Nat} {p : Process w} {fd : Int}
    (rejected : validateClientFd config p.server fd client = false) (iov : Iovec w)
    (total : BitVec w) (enough : 0 < fuel) :
    iovLoop config client fd iov fuel p 0#w total = some (p, total, decide (0#w < iov.len)) := by
  cases fuel with
  | zero => exact absurd enough (Nat.lt_irrefl _)
  | succ fuel =>
    unfold iovLoop
    by_cases more : 0#w < iov.len
    · rw [if_pos more, extRead_of_rejected rejected]
      dsimp only
      rw [if_pos (minus_one_sle config), decide_eq_true more]
    · rw [if_neg more, decide_eq_false more]

theorem fileserverRead_of_rejected {fuel : Nat} {p : Process w} {fd : Int}
    (rejected : validateClientFd config p.server fd client = false) (buf : Nat) (count : BitVec w)
    (enough : 0 < fuel) : fileserverRead config client fuel p fd buf count = some (p, 0) := by
  have whole := readLoop_eq config client fd buf count fuel p 0#w
  rw [BitVec.sub_zero, iovLoop_of_rejected rejected _ _ enough] at whole
  rw [fileserverRead, whole]
  simp

theorem fileserverReadv_of_rejected {fuel : Nat} {p : Process w} {fd : Int}
    (rejected : validateClientFd config p.server fd client = false) (iov : List (Iovec w))
    (enough : ∀ one ∈ iov, one.len.toNat < fuel) :
    fileserverReadv config client fuel p fd iov = some (p, 0) := by
  have loop : readvLoop config client fuel fd iov p 0#w = some (p, 0#w) := by
    induction iov with
    | nil => rfl
    | cons one rest ih =>
      obtain ⟨here, others⟩ := List.forall_mem_cons.mp enough
      rw [readvLoop, iovLoop_of_rejected rejected one _ (by omega)]
      by_cases more : 0#w < one.len
      · rw [decide_eq_true more]
      · rw [decide_eq_false more]
        exact ih others
  rw [fileserverReadv, loop]
  simp

theorem readable_of_accepted {s : Server w} {fd : Int}
    (accepted : validateClientFd config s fd client = true) :
    ∃ file, Readable config client fd s file := by
  unfold validateClientFd at accepted
  split at accepted
  · next valid =>
    split at accepted
    · next data record =>
      obtain ⟨file, owner⟩ := data
      obtain rfl : owner = some client := by simpa using accepted
      exact ⟨file, valid, record⟩
    · cases accepted
  · cases accepted

/-! ## Each wrapper -/

theorem open_refused {s : Server w} {name : String} {flags fd : Int} {room : Bool}
    (refused : fd < 0 ∨ room = false) :
    (fsCtrlOpen config s client name flags fd room).2 < 0 := by
  unfold fsCtrlOpen
  split
  · assumption
  · next opened =>
    rcases refused with failed | none
    · exact absurd failed opened
    · simp [none, enomem]

theorem seek_refused {s : Server w} {fd offset whence : Int}
    (refused : s.SeekRefused config client fd offset whence) :
    fsCtrlSeek config s client fd offset whence = (s, -1) := by
  unfold fsCtrlSeek
  rcases refused with rejected | ⟨data, record, failed⟩
  · simp [rejected]
  · split
    · simp only [Server.lseek, record, failed]
    · rfl

theorem ofInt_minus_one (config : Config w) : (BitVec.ofInt w (-1)).toInt = -1 := by
  have same : BitVec.ofInt w (-1) = BitVec.allOnes w := by
    rw [← BitVec.neg_one_eq_allOnes]
    exact BitVec.neg_ofNat_eq_ofInt_neg.symm
  rw [same, BitVec.toInt_allOnes, if_pos config.wide]

theorem told_iff_of_hides {s : Server w} {call : Call w} {value : Int} (positive : 0 ≤ value)
    (ended : ¬call.Refused config client s → ∀ fd, call.Asks fd → value = 0 →
      ∃ data, s.fds fd = some data ∧ data.file.left = []) :
    call.Told config client s value ↔ ¬call.Refused config client s := by
  constructor
  · intro told refused
    exact absurd (told.error refused) (Int.not_lt.mpr positive)
  · intro accepted
    exact ⟨fun refused => absurd refused accepted, ended accepted⟩

/-- Nothing was asked for in vain: a successful first request is empty at the end of the file only. -/
theorem left_eq_nil {s : Server w} {fd : Int} {file : File w} {asked : Nat}
    (readable : Readable config client fd s file) (some : asked ≠ 0) {size : BitVec w}
    (accepted : ¬s.ReadRefused config client fd size)
    (stopped : 0 < min asked file.left.length → config.readFails file size = true) :
    ∃ data, s.fds fd = Option.some data ∧ data.file.left = [] := by
  refine ⟨_, readable.record, ?_⟩
  by_contra more
  have positive : 0 < file.left.length := List.length_pos_iff.mpr more
  exact accepted (.inr ⟨_, readable.record, stopped (by omega)⟩)

theorem totalLength_eq_zero {iov : List (Iovec w)} (none : firstRequest config client iov = none) :
    totalLength iov = 0 := by
  rw [firstRequest, Option.map_eq_none_iff, List.find?_eq_none] at none
  refine List.sum_eq_zero fun n member => ?_
  obtain ⟨one, within, rfl⟩ := List.mem_map.mp member
  simpa using none one within

theorem read_told_iff {fuel : Nat} (p : Process w) (fd : Int) (buf : Nat) {count : BitVec w}
    (enough : count.toNat < fuel) :
    ∃ p' value, fileserverRead config client fuel p fd buf count = some (p', value) ∧
      ((Call.read fd buf count).Told config client p.server value ↔
        ¬(Call.read fd buf count).Refused config client p.server) := by
  cases accepted : validateClientFd config p.server fd client with
  | false =>
    refine ⟨_, _, fileserverRead_of_rejected accepted buf count (by omega), ?_⟩
    -- the descriptor is rejected: the loop ends at once with 0, as at the end of the file
    refine told_iff_of_hides (Int.le_refl 0) ?_
    rintro none fd' ⟨rfl, some⟩ _
    exact absurd ⟨some, .inl accepted⟩ none
  | true =>
    obtain ⟨file, readable⟩ := readable_of_accepted accepted
    -- a good descriptor: `n` bytes, and 0 only at the end or for a read that fails
    obtain ⟨p', n, done, _, stopped, _⟩ := fileserverRead_spec readable buf enough
    refine ⟨p', n, done, told_iff_of_hides (Int.natCast_nonneg n) ?_⟩
    rintro none fd' ⟨rfl, some⟩ zero
    obtain rfl : n = 0 := by simpa using zero
    rw [BitVec.sub_zero] at stopped
    exact left_eq_nil readable some (fun refused => none ⟨some, refused⟩) stopped

theorem readv_told_iff {fuel : Nat} (p : Process w) (fd : Int) {iov : List (Iovec w)}
    (enough : ∀ one ∈ iov, one.len.toNat < fuel) :
    ∃ p' value, fileserverReadv config client fuel p fd iov = some (p', value) ∧
      ((Call.readv fd iov).Told config client p.server value ↔
        ¬(Call.readv fd iov).Refused config client p.server) := by
  cases accepted : validateClientFd config p.server fd client with
  | false =>
    refine ⟨_, _, fileserverReadv_of_rejected accepted iov enough, ?_⟩
    refine told_iff_of_hides (Int.le_refl 0) ?_
    rintro none fd' ⟨rfl, some⟩ _
    cases first : firstRequest config client iov with
    | none => exact absurd (totalLength_eq_zero first) some
    | some size => exact absurd ⟨size, first, .inl accepted⟩ none
  | true =>
    obtain ⟨file, readable⟩ := readable_of_accepted accepted
    obtain ⟨p', n, done, _, stopped, _⟩ := fileserverReadv_spec readable enough
    refine ⟨p', n, done, told_iff_of_hides (Int.natCast_nonneg n) ?_⟩
    rintro none fd' ⟨rfl, some⟩ zero
    obtain rfl : n = 0 := by simpa using zero
    cases first : firstRequest config client iov with
    | none => exact absurd (totalLength_eq_zero first) some
    | some size =>
      refine left_eq_nil readable some (fun refused => none ⟨size, first, refused⟩) ?_
      intro less
      obtain ⟨size', fails, same⟩ := stopped less
      rw [first] at same
      cases same rfl
      exact fails

/-- Every error and nothing else is a negative value, and 0 bytes are the end of the file, unless
the call is a `read`, a `readv` or an `_llseek` whose first request is rejected or fails. -/
theorem errors_told_iff (config : Config w) (client fuel : Nat) (p : Process w) (call : Call w)
    (within : call.Within fuel) :
    ∃ p' value, call.run config client fuel p = some (p', value) ∧
      (call.Told config client p.server value ↔
        (call.hidesErrors = true → ¬call.Refused config client p.server)) := by
  cases call with
  | «open» pathname flags fd room =>
    refine ⟨_, _, rfl, iff_of_true ⟨open_refused, nofun⟩ nofun⟩
  | openat dirfd pathname flags fd room =>
    refine ⟨_, (fileserverOpenat config client p dirfd pathname flags fd room).2, rfl,
      iff_of_true ⟨fun refused => ?_, nofun⟩ nofun⟩
    unfold fileserverOpenat
    split
    · exact (by decide : -einval < 0)
    · next here =>
      rcases refused with elsewhere | refused
      · exact absurd elsewhere here
      · exact open_refused refused
  | close fd result =>
    refine ⟨_, (fileserverClose config client p fd result).2, rfl,
      iff_of_true ⟨fun refused => ?_, nofun⟩ nofun⟩
    change (fsCtrlClose config p.server client fd result).2 < 0
    unfold fsCtrlClose
    rcases refused with rejected | failed
    · simp [rejected, ebadf]
    · split
      · exact failed
      · exact (by decide : -ebadf < 0)
  | lseek fd offset whence =>
    refine ⟨_, (fileserverLseek config client p fd offset whence).2, rfl,
      iff_of_true ⟨fun refused => ?_, nofun⟩ nofun⟩
    rw [fileserverLseek, seek_refused refused]
    dsimp only
    rw [ofInt_minus_one config]
    decide
  | llseek fd offsetHigh offsetLow whence =>
    refine ⟨_, _, rfl, ?_⟩
    refine (told_iff_of_hides (Int.le_refl 0) fun _ _ asks => ?_).trans ?_
    · exact False.elim asks
    · simp [Call.hidesErrors]
  | read fd buf count =>
    obtain ⟨p', value, done, told⟩ := read_told_iff p fd buf (within : count.toNat < fuel)
    exact ⟨p', value, done, told.trans (by simp [Call.hidesErrors])⟩
  | readv fd iov =>
    obtain ⟨p', value, done, told⟩ :=
      readv_told_iff p fd (within : ∀ one ∈ iov, one.len.toNat < fuel)
    exact ⟨p', value, done, told.trans (by simp [Call.hidesErrors])⟩

theorem errors_told_iff_archive : ∃ (p' : Process 64) (value : Int),
    (Call.close 3 0).run archive 1 0 ⟨Server.init fun _ _ => 0, fun _ => 0⟩ = some (p', value) ∧
      value < 0 := by
  obtain ⟨p', value, done, told⟩ := errors_told_iff archive 1 0
    ⟨Server.init fun _ _ => 0, fun _ => 0⟩ (.close 3 0) trivial
  exact ⟨p', value, done, (told.mpr nofun).error (.inl rfl)⟩

/-- A read from a descriptor that was never opened looks like the end of a file. -/
theorem rejected_read_looks_ended :
    (Call.read 3 16 7).run archive 1 8 ⟨Server.init fun _ _ => 0, fun _ => 0⟩ =
      some (⟨Server.init fun _ _ => 0, fun _ => 0⟩, 0) ∧
    ¬(Call.read 3 16 7).Told archive 1 (Server.init fun _ _ => 0) 0 := by
  refine ⟨rfl, fun told => ?_⟩
  have negative := told.error ⟨by decide, .inl rfl⟩
  exact absurd negative (by decide)

end GlobalComponents.FileServer
