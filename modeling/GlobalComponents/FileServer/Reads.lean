import GlobalComponents.FileServer.Client
import Mathlib.Algebra.BigOperators.Group.List.Basic
import Mathlib.Algebra.Ring.Nat

/-! Reads through the dataport are direct reads.

A chunk takes bytes from the front of what is left of the file, and the loops go on where the last
chunk ended. Only the end of the file makes a chunk empty.
-/

set_option autoImplicit false

namespace GlobalComponents.FileServer

open Library Library.Window

variable {w : Nat} {config : Config w} {client : Nat} {fd : Int}

theorem File.left_advance (file : File w) (n : Nat) : (file.advance n).left = file.left.drop n := by
  rw [File.left, File.advance, File.left, List.drop_drop]

theorem File.advance_advance (file : File w) (m n : Nat) :
    (file.advance m).advance n = file.advance (m + n) := by
  simp [File.advance, Nat.add_assoc]

theorem File.left_small (file : File w) : 2 * file.left.length < 2 ^ w := by
  have small := file.small
  rw [File.left, List.length_drop]
  omega

structure Readable (config : Config w) (client : Nat) (fd : Int) (s : Server w) (file : File w) :
    Prop where
  valid : config.validFd fd = true
  record : s.fds fd = some ⟨file, some client⟩

structure Advanced (client : Nat) (fd : Int) (s s' : Server w) (file : File w) (n : Nat) :
    Prop where
  record : s'.fds fd = some ⟨file.advance n, some client⟩
  others : ∀ other, other ≠ fd → s'.fds other = s.fds other
  bufs : ∀ other, other ≠ client → s'.buf other = s.buf other

theorem Advanced.refl {s : Server w} {file : File w} (record : s.fds fd = some ⟨file, some client⟩) :
    Advanced client fd s s file 0 := ⟨record, fun _ _ => rfl, fun _ _ => rfl⟩

theorem Advanced.trans {s s' s'' : Server w} {file : File w} {m n : Nat}
    (first : Advanced client fd s s' file m)
    (second : Advanced client fd s' s'' (file.advance m) n) :
    Advanced client fd s s'' file (m + n) :=
  ⟨file.advance_advance m n ▸ second.record,
    fun other different => (second.others other different).trans (first.others other different),
    fun other different => (second.bufs other different).trans (first.bufs other different)⟩

theorem Readable.advanced {s s' : Server w} {file : File w} {n : Nat}
    (readable : Readable config client fd s file) (advanced : Advanced client fd s s' file n) :
    Readable config client fd s' (file.advance n) :=
  ⟨readable.valid, advanced.record⟩

theorem Readable.accepted {s : Server w} {file : File w}
    (readable : Readable config client fd s file) : validateClientFd config s fd client = true := by
  simp [validateClientFd, readable.valid, readable.record]

theorem ofNat_sle_zero_iff {n : Nat} (small : 2 * n < 2 ^ w) :
    (BitVec.ofNat w n).sle 0#w = true ↔ n = 0 := by
  rw [BitVec.sle_iff_toInt_le, ofNat_toInt small, BitVec.toInt_zero]
  omega

theorem minus_one_sle (config : Config w) : (-1#w).sle 0#w = true := by
  rw [BitVec.sle_iff_toInt_le, minus_one_toInt config, BitVec.toInt_zero]
  decide

theorem clamp_toNat (config : Config w) (client : Nat) (size : BitVec w) :
    (clamp config client size).toNat = min size.toNat (config.bufSize client).toNat := by
  unfold clamp
  dsimp only
  split
  · next less =>
    rw [BitVec.lt_def] at less
    omega
  · next more =>
    rw [BitVec.lt_def] at more
    omega

def chunk (config : Config w) (client : Nat) (file : File w) (size : BitVec w) : List UInt8 :=
  file.left.take (clamp config client size).toNat

theorem chunk_length (config : Config w) (client : Nat) (file : File w) (size : BitVec w) :
    (chunk config client file size).length =
      min (min size.toNat (config.bufSize client).toNat) file.left.length := by
  rw [chunk, List.length_take, clamp_toNat]

/-- A chunk and what later chunks take behind it are the front of the file. -/
theorem chunk_append (config : Config w) (client : Nat) (file : File w) (size : BitVec w) (n : Nat) :
    chunk config client file size ++
        (file.advance (chunk config client file size).length).left.take n =
      file.left.take ((chunk config client file size).length + n) := by
  have front : chunk config client file size =
      file.left.take (chunk config client file size).length :=
    List.prefix_iff_eq_take.mp (List.take_prefix _ _)
  rw [File.left_advance, List.take_add, ← front]

theorem extRead_of_fails {p : Process w} {file : File w} {size : BitVec w}
    (readable : Readable config client fd p.server file)
    (fails : config.readFails file (clamp config client size) = true) :
    p.extRead config client fd size = (p, -1#w) := by
  simp only [Process.extRead, fsCtrlRead, readable.accepted, if_true, Server.read,
    readable.record, fails]

/-- One request: the front of what is left, as far as it is asked for and the dataport reaches. -/
theorem extRead_spec {p : Process w} {file : File w} {size : BitVec w}
    (readable : Readable config client fd p.server file)
    (succeeds : config.readFails file (clamp config client size) = false) :
    (p.extRead config client fd size).2 = BitVec.ofNat w (chunk config client file size).length ∧
    (p.extRead config client fd size).1.memory = p.memory ∧
    Advanced client fd p.server (p.extRead config client fd size).1.server file
      (chunk config client file size).length ∧
    window ((p.extRead config client fd size).1.server.buf client) 0
      (chunk config client file size).length = chunk config client file size := by
  have result : fsCtrlRead config p.server client fd size =
      ({ p.server.setFd fd (some ⟨file.advance (chunk config client file size).length,
          some client⟩) with
        buf := Function.update p.server.buf client
          (store (p.server.buf client) 0 (chunk config client file size)) },
        BitVec.ofNat w (chunk config client file size).length) := by
    simp only [fsCtrlRead, readable.accepted, if_true, Server.read, readable.record, succeeds,
      Bool.false_eq_true, if_false, chunk]
  unfold Process.extRead
  rw [result]
  refine ⟨rfl, rfl, ⟨?_, fun other different => ?_, fun other different => ?_⟩, ?_⟩
  · simp [Server.setFd]
  · simp [Server.setFd, different]
  · simp [different]
  · simp only [Function.update_self]
    exact window_store _ 0 _

/-- What the loop over one `iovec` does from an offset on: it copies `n` bytes, and it is left early
where these are fewer than asked for, at the end of the file or because a read fails. -/
theorem iovLoop_spec {fuel : Nat} {p : Process w} {file : File w} (iov : Iovec w) {offset : Nat}
    (total : BitVec w) (readable : Readable config client fd p.server file)
    (within : offset ≤ iov.len.toNat) (enough : iov.len.toNat - offset < fuel) :
    ∃ p' n, iovLoop config client fd iov fuel p (BitVec.ofNat w offset) total =
        some (p', total + BitVec.ofNat w n, decide (n < iov.len.toNat - offset)) ∧
      n ≤ min (iov.len.toNat - offset) file.left.length ∧
      (n < min (iov.len.toNat - offset) file.left.length → config.readFails (file.advance n)
        (clamp config client (iov.len - BitVec.ofNat w (offset + n))) = true) ∧
      Advanced client fd p.server p'.server file n ∧
      p'.memory = store p.memory (iov.base + offset) (file.left.take n) := by
  -- on the fuel; the file is the rest of it, behind what the earlier chunks took
  induction fuel generalizing p file offset total with
  | zero => exact absurd enough (Nat.not_lt_zero _)
  | succ fuel ih =>
    have bound := iov.len.isLt
    have here : (BitVec.ofNat w offset).toNat = offset := by
      rw [BitVec.toNat_ofNat, Nat.mod_eq_of_lt (by omega)]
    unfold iovLoop
    by_cases more : offset < iov.len.toNat
    · rw [if_pos (by rw [BitVec.lt_def, here]; exact more)]
      have ahead : 0 < iov.len.toNat - offset := by omega
      cases fails : config.readFails file
          (clamp config client (iov.len - BitVec.ofNat w offset)) with
      | true =>
        -- the loop is left where it is
        rw [extRead_of_fails readable fails]
        dsimp only
        rw [if_pos (minus_one_sle config)]
        refine ⟨p, 0, ?_, Nat.zero_le _, fun _ => ?_, .refl readable.record, ?_⟩
        · simpa using ahead
        · simpa [File.advance] using fails
        · simp
      | false =>
        have asked : (iov.len - BitVec.ofNat w offset).toNat = iov.len.toNat - offset := by
          rw [BitVec.toNat_sub_of_le (by rw [BitVec.le_def, here]; omega), here]
        obtain ⟨result, memory, advanced, dataport⟩ := extRead_spec readable fails
        have room := config.bufSize_pos client
        have size := chunk_length config client file (iov.len - BitVec.ofNat w offset)
        have whole := chunk_append config client file (iov.len - BitVec.ofNat w offset)
        rw [asked] at size
        generalize p.extRead config client fd (iov.len - BitVec.ofNat w offset) = answer
          at result memory advanced dataport ⊢
        generalize chunk config client file (iov.len - BitVec.ofNat w offset) = bytes
          at result advanced dataport size whole
        obtain ⟨next, read⟩ := answer
        dsimp only at result memory advanced dataport ⊢
        subst result
        have small := file.left_small
        have stops := ofNat_sle_zero_iff (by omega : 2 * bytes.length < 2 ^ w)
        by_cases ended : bytes.length = 0
        · -- an empty chunk: nothing is left
          have none : file.left.length = 0 := by omega
          rw [if_pos (stops.mpr ended)]
          rw [ended] at advanced
          refine ⟨next, 0, ?_, Nat.zero_le _, fun less => ?_, advanced, ?_⟩
          · simpa using ahead
          · omega
          · simpa using memory
        · rw [if_neg (mt stops.mp ended)]
          have sum : BitVec.ofNat w offset + BitVec.ofNat w bytes.length =
              BitVec.ofNat w (offset + bytes.length) := (BitVec.ofNat_add ..).symm
          have left : (file.advance bytes.length).left.length =
              file.left.length - bytes.length := by
            rw [File.left_advance, List.length_drop]
          rw [sum, here]
          obtain ⟨p', n, loop, most, stopped, advanced', memory'⟩ :=
            ih (p := next.memcpy client (iov.base + offset) (BitVec.ofNat w bytes.length))
              (total + BitVec.ofNat w bytes.length) (readable.advanced advanced)
              (by omega : offset + bytes.length ≤ iov.len.toNat) (by omega)
          rw [left] at most stopped
          refine ⟨p', bytes.length + n, ?_, by omega, fun less => ?_,
            advanced.trans advanced', ?_⟩
          · have early : n < iov.len.toNat - (offset + bytes.length) ↔
                bytes.length + n < iov.len.toNat - offset := by omega
            rw [loop, BitVec.add_assoc, ← BitVec.ofNat_add, decide_eq_decide.mpr early]
          · have stopped := stopped (by omega)
            rwa [File.advance_advance, Nat.add_assoc] at stopped
          -- what the chunk copied is the front of what the whole loop copies
          · have length : (BitVec.ofNat w bytes.length).toNat = bytes.length := by
              rw [BitVec.toNat_ofNat, Nat.mod_eq_of_lt (by omega)]
            rw [memory', ← whole, store_append, ← Nat.add_assoc, Process.memcpy, length, dataport,
              memory]
    · rw [if_neg (by rw [BitVec.lt_def, here]; exact more)]
      have whole : iov.len.toNat - offset = 0 := by omega
      refine ⟨p, 0, ?_, Nat.zero_le _, fun less => ?_, .refl readable.record, ?_⟩
      · simp [whole]
      · omega
      · simp

/-! ## Scattered reads -/

def totalLength (iov : List (Iovec w)) : Nat := (iov.map fun iov => iov.len.toNat).sum

def scatter (memory : Nat → UInt8) : List (Iovec w) → List UInt8 → Nat → UInt8
  | [], _ => memory
  | iov :: rest, bytes =>
    scatter (store memory iov.base (bytes.take iov.len.toNat)) rest (bytes.drop iov.len.toNat)

theorem scatter_nil (memory : Nat → UInt8) (iov : List (Iovec w)) :
    scatter memory iov [] = memory := by
  induction iov with
  | nil => rfl
  | cons iov rest ih => simpa [scatter] using ih

def firstRequest (config : Config w) (client : Nat) (iov : List (Iovec w)) : Option (BitVec w) :=
  (iov.find? fun one => one.len.toNat ≠ 0).map fun one => clamp config client one.len

/-- The loops copy `n` bytes into the buffers: all that is asked for or left, unless a read fails. -/
theorem readvLoop_spec {fuel : Nat} {p : Process w} {file : File w} (iov : List (Iovec w))
    (total : BitVec w) (readable : Readable config client fd p.server file)
    (enough : ∀ one ∈ iov, one.len.toNat < fuel) :
    ∃ p' n, readvLoop config client fuel fd iov p total = some (p', total + BitVec.ofNat w n) ∧
      n ≤ min (totalLength iov) file.left.length ∧
      (n < min (totalLength iov) file.left.length → ∃ size,
        config.readFails (file.advance n) size = true ∧
          (n = 0 → firstRequest config client iov = some size)) ∧
      Advanced client fd p.server p'.server file n ∧
      p'.memory = scatter p.memory iov (file.left.take n) := by
  induction iov generalizing p file total with
  | nil =>
    refine ⟨p, 0, ?_, Nat.zero_le _, fun less => ?_, .refl readable.record, rfl⟩
    · simp [readvLoop]
    · simp [totalLength] at less
  | cons one rest ih =>
    obtain ⟨here, others⟩ := List.forall_mem_cons.mp enough
    obtain ⟨next, m, loop, most, stopped, advanced, memory⟩ := iovLoop_spec one total
      readable (Nat.zero_le _) (by omega : one.len.toNat - 0 < fuel)
    rw [Nat.sub_zero] at loop most stopped
    have lengths : totalLength (one :: rest) = one.len.toNat + totalLength rest := by
      simp [totalLength]
    rw [readvLoop, loop]
    -- a buffer that is not filled is the last one
    by_cases short : m < one.len.toNat
    · rw [decide_eq_true short]
      refine ⟨next, m, rfl, by omega, fun less => ?_, advanced, ?_⟩
      · refine ⟨_, stopped (by omega), fun none => ?_⟩
        subst none
        rw [firstRequest, List.find?_cons_of_pos (by simpa using short.ne'), Option.map_some,
          BitVec.sub_zero]
      · rw [memory, scatter, List.take_take, Nat.min_eq_right short.le, List.drop_take,
          Nat.sub_eq_zero_of_le short.le, List.take_zero, scatter_nil, Nat.add_zero]
    · rw [decide_eq_false short]
      have full : m = one.len.toNat := by omega
      subst full
      obtain ⟨p', n, rest', most', stopped', advanced', memory'⟩ :=
        ih (total + BitVec.ofNat w one.len.toNat) (readable.advanced advanced) others
      have left : (file.advance one.len.toNat).left.length =
          file.left.length - one.len.toNat := by
        rw [File.left_advance, List.length_drop]
      rw [left] at most' stopped'
      refine ⟨p', one.len.toNat + n, ?_, by omega, fun less => ?_, advanced.trans advanced', ?_⟩
      · dsimp only
        rw [rest', BitVec.add_assoc, ← BitVec.ofNat_add]
      · obtain ⟨size, fails, first⟩ := stopped' (by omega)
        rw [File.advance_advance] at fails
        refine ⟨size, fails, fun none => ?_⟩
        have empty : one.len.toNat = 0 := by omega
        rw [← first (by omega), firstRequest, firstRequest,
          List.find?_cons_of_neg (by simp [empty])]
      · rw [memory', memory, scatter, List.take_take, Nat.min_eq_left (Nat.le_add_right ..),
          List.drop_take, Nat.add_sub_cancel_left, File.left_advance, Nat.add_zero]

theorem fileserverRead_spec {fuel : Nat} {p : Process w} {file : File w}
    (readable : Readable config client fd p.server file) (buf : Nat) {count : BitVec w}
    (enough : count.toNat < fuel) :
    ∃ p' n, fileserverRead config client fuel p fd buf count = some (p', ((n : Nat) : Int)) ∧
      n ≤ min count.toNat file.left.length ∧
      (n < min count.toNat file.left.length →
        config.readFails (file.advance n)
          (clamp config client (count - BitVec.ofNat w n)) = true) ∧
      Advanced client fd p.server p'.server file n ∧
      p'.memory = store p.memory buf (file.left.take n) := by
  obtain ⟨p', n, loop, most, stopped, advanced, memory⟩ := iovLoop_spec
    ⟨buf, count⟩ 0#w readable (Nat.zero_le _)
    (by omega : count.toNat - 0 < fuel)
  rw [Nat.sub_zero] at loop most stopped
  rw [Nat.zero_add] at stopped
  refine ⟨p', n, ?_, most, stopped, advanced, memory⟩
  have small := file.left_small
  have whole := readLoop_eq config client fd buf count fuel p 0#w
  rw [BitVec.sub_zero, loop] at whole
  rw [fileserverRead, whole]
  simp [ofNat_toInt (by omega : 2 * n < 2 ^ w)]

theorem fileserverReadv_spec {fuel : Nat} {p : Process w} {file : File w} {iov : List (Iovec w)}
    (readable : Readable config client fd p.server file)
    (enough : ∀ one ∈ iov, one.len.toNat < fuel) :
    ∃ p' n, fileserverReadv config client fuel p fd iov = some (p', ((n : Nat) : Int)) ∧
      n ≤ min (totalLength iov) file.left.length ∧
      (n < min (totalLength iov) file.left.length → ∃ size,
        config.readFails (file.advance n) size = true ∧
          (n = 0 → firstRequest config client iov = some size)) ∧
      Advanced client fd p.server p'.server file n ∧
      p'.memory = scatter p.memory iov (file.left.take n) := by
  obtain ⟨p', n, loop, most, stopped, advanced, memory⟩ := readvLoop_spec iov 0#w
    readable enough
  refine ⟨p', n, ?_, most, stopped, advanced, memory⟩
  have small := file.left_small
  rw [fileserverReadv, loop]
  simp [ofNat_toInt (by omega : 2 * n < 2 ^ w)]

/-- `read` returns as many bytes as are asked for and left, in the caller's buffer and nowhere else,
and leaves the position behind them; `readv` does the same for all its buffers as one. -/
theorem reads_equal_direct_reads {p : Process w} {file : File w}
    (readable : Readable config client fd p.server file)
    (succeeds : ∀ file n, config.readFails file n = false) :
    (∀ buf count, ∀ fuel, count.toNat < fuel →
      ∃ p' : Process w, fileserverRead config client fuel p fd buf count =
          some (p', ((min count.toNat file.left.length : Nat) : Int)) ∧
        Advanced client fd p.server p'.server file (min count.toNat file.left.length) ∧
        p'.memory = store p.memory buf (file.left.take count.toNat)) ∧
    ∀ iov, ∀ fuel, (∀ one ∈ iov, one.len.toNat < fuel) →
      ∃ p' : Process w, fileserverReadv config client fuel p fd iov =
          some (p', ((min (totalLength iov) file.left.length : Nat) : Int)) ∧
        Advanced client fd p.server p'.server file (min (totalLength iov) file.left.length) ∧
        p'.memory = scatter p.memory iov (file.left.take (totalLength iov)) := by
  have small := file.left_small
  have least : ∀ n : Nat, file.left.take n = file.left.take (min n file.left.length) := by
    intro n
    rw [← List.take_take, List.take_length]
  constructor
  · intro buf count fuel enough
    obtain ⟨p', n, loop, most, stopped, advanced, memory⟩ := fileserverRead_spec readable buf enough
    have all : n = min count.toNat file.left.length := by
      by_contra different
      have fails := stopped (by omega)
      rw [succeeds] at fails
      cases fails
    subst all
    exact ⟨p', loop, advanced, by rw [least]; exact memory⟩
  · intro iov fuel enough
    obtain ⟨p', n, loop, most, stopped, advanced, memory⟩ := fileserverReadv_spec readable enough
    have all : n = min (totalLength iov) file.left.length := by
      by_contra different
      obtain ⟨size, fails, _⟩ := stopped (by omega)
      rw [succeeds] at fails
      cases fails
    subst all
    exact ⟨p', loop, advanced, by rw [least]; exact memory⟩

theorem reads_equal_direct_reads_archive : ∃ p' : Process 64,
    fileserverRead archive 1 8
      ⟨(Server.init fun _ _ => 0).setFd 3 (some ⟨archive.find "hello" 0, some 1⟩), fun _ => 0⟩
      3 16 7 = some (p', 6) ∧
    p'.memory = store (fun _ => 0) 16 [104, 101, 108, 108, 111, 33] := by
  have readable : Readable archive 1 3
      ((Server.init fun _ _ => 0).setFd 3 (some ⟨archive.find "hello" 0, some 1⟩))
      (archive.find "hello" 0) := ⟨rfl, rfl⟩
  obtain ⟨p', done, _, memory⟩ := (reads_equal_direct_reads (p := ⟨_, fun _ => 0⟩) readable
    fun _ _ => rfl).1 16 7 8 (by decide)
  exact ⟨p', done, memory⟩

end GlobalComponents.FileServer
