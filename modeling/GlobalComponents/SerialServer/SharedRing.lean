import GlobalComponents.Library.Ring
import GlobalComponents.SerialServer.Server

/-! The rings that clients share with the server, and when their indices can harm it.

A client may write any value into `head` and `tail`. The batch loops stop when `head` meets `tail`
and reduce only `head`; `internal_raw_putchar` stores at `tail` as it finds it.
-/

set_option autoImplicit false

namespace GlobalComponents.SerialServer

open Library

def charValue (config : Config) (c : UInt8) : Int :=
  if config.charIsSigned ∧ 128 ≤ c.toNat then c.toNat - 256 else c.toNat

/-- How a batch loop ends within the given number of iterations. -/
inductive Batch where
  | unfinished
  /-- A read outside of `buf`. -/
  | fault
  | finished (s : Server) (buf : ClientBuffer)

def batchLoop (config : Config) (put : Server → Int → Server) :
    Nat → Server → ClientBuffer → Batch
  | 0, _, _ => .unfinished
  | fuel + 1, s, buf =>
    if buf.head ≠ buf.tail then
      if within : buf.head.toNat < ringSize then
        let ch := charValue config (buf.buf ⟨buf.head.toNat, within⟩)
        batchLoop config put fuel (put s ch)
          { buf with head := (buf.head + 1) % UInt32.ofNat ringSize }
      else .fault
    else .finished s buf

def processedBatchBatch (config : Config) (fuel : Nat) (s : Server) (n : Nat)
    (putcharBuf : ClientBuffer) : Batch :=
  batchLoop config
    (fun s ch =>
      let s := if ch = 10 then internalPutchar s n 13 else s
      internalPutchar s n ch)
    fuel s putcharBuf

def rawBatchBatch (config : Config) (fuel : Nat) (s : Server) (n : Nat)
    (putcharBuf : ClientBuffer) : Batch :=
  batchLoop config (fun s ch => internalPutchar s (n + maxClients) ch) fuel s putcharBuf

def Batch.ends : Batch → Prop
  | .finished _ _ => True
  | .unfinished | .fault => False

theorem succ_mod_ringSize (index : UInt32) :
    ((index + 1) % UInt32.ofNat ringSize).toNat = (index.toNat + 1) % 2 ^ 32 % ringSize := by
  simp [UInt32.toNat_mod, UInt32.toNat_add, ringSize]

section
variable {config : Config} {put : Server → Int → Server}

/-- Each iteration takes one byte out of the ring. -/
theorem batchLoop_ends {fuel : Nat} {s : Server} {buf : ClientBuffer}
    (head : buf.head.toNat < ringSize) (tail : buf.tail.toNat < ringSize)
    (enough : Ring.occupancy ringSize buf.tail.toNat buf.head.toNat < fuel) :
    (batchLoop config put fuel s buf).ends := by
  -- on the fuel, of which each byte in the ring takes one
  induction fuel generalizing s buf with
  | zero => omega
  | succ fuel ih =>
    unfold batchLoop
    by_cases same : buf.head = buf.tail
    · simp [same, Batch.ends]
    · rw [if_pos same, dif_pos head]
      have next := succ_mod_ringSize buf.head
      rw [Nat.mod_eq_of_lt (a := buf.head.toNat + 1) (by unfold ringSize at head; omega)] at next
      -- one byte less in the ring after each iteration
      have fewer := Ring.occupancy_succ_tail tail head fun equal =>
        same (UInt32.toNat_inj.mp equal.symm)
      apply ih
      · rw [next]
        exact Ring.succ_mod_lt head
      · exact tail
      · simp only [next]
        omega

/-- A `tail` outside of the ring is never met. -/
theorem batchLoop_never_ends {s : Server} {buf : ClientBuffer}
    (different : buf.head ≠ buf.tail) (tail : ringSize ≤ buf.tail.toNat) (fuel : Nat) :
    ¬(batchLoop config put fuel s buf).ends := by
  induction fuel generalizing s buf with
  | zero => exact id
  | succ fuel ih =>
    unfold batchLoop
    rw [if_pos different]
    split
    -- `head` is reduced by the size of the ring, and so never gets to `tail`
    · refine ih (fun met => ?_) tail
      have reduced : ((buf.head + 1) % UInt32.ofNat ringSize).toNat < ringSize := by
        rw [succ_mod_ringSize]
        exact Nat.mod_lt _ (by decide)
      dsimp only at met
      rw [met] at reduced
      exact absurd reduced (Nat.not_lt.mpr tail)
    · exact id

theorem batchLoop_ends_iff (s : Server) (buf : ClientBuffer) :
    (∃ fuel, (batchLoop config put fuel s buf).ends) ↔
      buf.head = buf.tail ∨ buf.head.toNat < ringSize ∧ buf.tail.toNat < ringSize := by
  constructor
  · rintro ⟨fuel, ends⟩
    by_cases same : buf.head = buf.tail
    · exact .inl same
    by_cases tail : buf.tail.toNat < ringSize
    · refine .inr ⟨?_, tail⟩
      by_contra outside
      cases fuel with
      | zero => exact ends
      | succ fuel =>
        unfold batchLoop at ends
        rw [if_pos same, dif_neg outside] at ends
        exact ends
    · exact absurd ends (batchLoop_never_ends same (Nat.le_of_not_lt tail) fuel)
  · rintro (same | ⟨head, tail⟩)
    · refine ⟨1, ?_⟩
      simp [batchLoop, same, Batch.ends]
    · exact ⟨_, batchLoop_ends head tail (Nat.lt_succ_self _)⟩

end

/-- The full check alone does not keep a store within the ring. -/
theorem internalRawPutchar_isSome_iff {config : Config} (s : Server) {id : Nat}
    (client : id < config.numGetcharClients) (c : UInt8) :
    (internalRawPutchar config s id c).isSome ↔
      (s.getcharClients id).buf.tail.toNat < ringSize ∨
        ((s.getcharClients id).buf.tail.toNat + 1) % 2 ^ 32 % ringSize =
          (s.getcharClients id).buf.head.toNat := by
  rw [← succ_mod_ringSize, UInt32.toNat_inj]
  unfold internalRawPutchar
  rw [if_pos client]
  dsimp only
  by_cases full : ((s.getcharClients id).buf.tail + 1) % UInt32.ofNat ringSize =
      (s.getcharClients id).buf.head
  · simp [full]
  · rw [if_neg full]
    split
    · next within => split <;> simp [within]
    · next outside => simp [full, Nat.not_lt.mp outside]

/-- For any indices that a client has written: a batch call ends, and reads only within the buffer,
exactly when there is nothing to read or both indices are within it; and `internal_raw_putchar`
stores only within the ring exactly when `tail` is within it or the ring counts as full. -/
theorem shared_indices_safe_iff (config : Config) (s : Server) (n : Nat) (buf : ClientBuffer) :
    ((∃ fuel, (processedBatchBatch config fuel s n buf).ends) ↔
      buf.head = buf.tail ∨ buf.head.toNat < ringSize ∧ buf.tail.toNat < ringSize) ∧
    ((∃ fuel, (rawBatchBatch config fuel s n buf).ends) ↔
      buf.head = buf.tail ∨ buf.head.toNat < ringSize ∧ buf.tail.toNat < ringSize) ∧
    ∀ id < config.numGetcharClients, ∀ c, (s.getcharClients id).buf = buf →
      ((internalRawPutchar config s id c).isSome ↔
        buf.tail.toNat < ringSize ∨
          (buf.tail.toNat + 1) % 2 ^ 32 % ringSize = buf.head.toNat) := by
  refine ⟨batchLoop_ends_iff s buf, batchLoop_ends_iff s buf, ?_⟩
  rintro id client c rfl
  exact internalRawPutchar_isSome_iff s client c

/-- One client whose ring's `tail` lies right behind the buffer. -/
def strayTail : Config where
  hasGetchar := true
  numGetcharClients := 1
  badge := fun _ => 1
  getcharBuf := fun _ => ⟨0, 4088, fun _ => 0⟩
  debugBuild := false
  charIsSigned := true

theorem shared_indices_safe_iff_stray :
    (internalRawPutchar strayTail (Server.init strayTail) 0 65).isSome ↔
      4088 < ringSize ∨ (4088 + 1) % 2 ^ 32 % ringSize = 0 :=
  (shared_indices_safe_iff strayTail (Server.init strayTail) 0
    ⟨0, 4088, fun _ => 0⟩).2.2 0 (by decide) 65 rfl

theorem stray_indices_harm :
    (∀ fuel, ¬(processedBatchBatch strayTail fuel (Server.init strayTail) 0
      ⟨0, 4088, fun _ => 0⟩).ends) ∧
    processedBatchBatch strayTail 1 (Server.init strayTail) 0 ⟨4088, 0, fun _ => 0⟩ = .fault ∧
    internalRawPutchar strayTail (Server.init strayTail) 0 65 = none := by
  refine ⟨fun fuel => ?_, rfl, rfl⟩
  exact batchLoop_never_ends (by decide) (by decide) fuel

end GlobalComponents.SerialServer
