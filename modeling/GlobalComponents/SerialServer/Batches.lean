import GlobalComponents.SerialServer.Fifo
import GlobalComponents.SerialServer.Levels
import GlobalComponents.SerialServer.SharedRing

/-! A batch call does what one call for each byte of the ring would do. -/

set_option autoImplicit false

namespace GlobalComponents.SerialServer

open Library

def processedPutcharPutchar (s : Server) (n : Nat) (c : Int) : Server :=
  let s := if c = 10 then internalPutchar s n 13 else s
  internalPutchar s n c

def rawPutcharPutchar (s : Server) (n : Nat) (c : Int) : Server :=
  internalPutchar s (n + maxClients) c

/-- `internal_putchar` keeps the byte of its argument, however a `char` was widened. -/
theorem ofInt_charValue (config : Config) (c : UInt8) : UInt8.ofInt (charValue config c) = c := by
  have remainder : (charValue config c % 2 ^ 8).toNat = c.toNat := by
    have byte := c.toNat_lt
    unfold charValue
    split <;> omega
  rw [UInt8.ofInt, remainder, UInt8.ofNat_toNat]

theorem charValue_eq_newline_iff (config : Config) (c : UInt8) :
    charValue config c = 10 ↔ c = newline := by
  constructor
  · intro same
    rw [← ofInt_charValue config c, same]
    rfl
  · rintro rfl
    simp [charValue, newline]

theorem internalPutchar_charValue (config caller : Config) (s : Server) (b : Nat) (c : UInt8) :
    internalPutchar s b (charValue config c) = internalPutchar s b (charValue caller c) := by
  have stored : s.store b (charValue config c) = s.store b (charValue caller c) := by
    simp only [Server.store, ofInt_charValue]
  unfold internalPutchar
  rw [stored]

theorem processedPutcharPutchar_charValue (config caller : Config) (s : Server) (n : Nat)
    (c : UInt8) : processedPutcharPutchar s n (charValue config c) =
      processedPutcharPutchar s n (charValue caller c) := by
  simp only [processedPutcharPutchar, charValue_eq_newline_iff,
    internalPutchar_charValue config caller]

theorem unread_eq_nil {buf : ClientBuffer} (head : buf.head.toNat < ringSize)
    (same : buf.head = buf.tail) : buf.unread = [] := by
  rw [ClientBuffer.unread, ← same]
  exact (Ring.queue_eq_nil_iff head head _).mpr rfl

theorem unread_eq_cons {buf : ClientBuffer} (head : buf.head.toNat < ringSize)
    (tail : buf.tail.toNat < ringSize) (some : buf.head ≠ buf.tail) :
    buf.unread = buf.buf ⟨buf.head.toNat, head⟩ ::
      ({ buf with head := (buf.head + 1) % UInt32.ofNat ringSize } : ClientBuffer).unread := by
  have different : buf.tail.toNat ≠ buf.head.toNat := fun same =>
    some (UInt32.toNat_inj.mp same.symm)
  rw [ClientBuffer.unread, Ring.queue_pop tail head different]
  congr 1
  · exact dif_pos head
  · simp only [ClientBuffer.unread, next_toNat head]
    rfl

/-- The loop is a fold over the bytes of the ring. -/
theorem batchLoop_eq {config : Config} {put : Server → Int → Server} {fuel : Nat} {s : Server}
    {buf : ClientBuffer} (head : buf.head.toNat < ringSize) (tail : buf.tail.toNat < ringSize)
    (enough : buf.unread.length < fuel) :
    batchLoop config put fuel s buf =
      .finished (buf.unread.foldl (fun s c => put s (charValue config c)) s)
        { buf with head := buf.tail } := by
  -- the bytes that are left in the ring are the measure
  induction fuel generalizing s buf with
  | zero => exact absurd enough (Nat.not_lt_zero _)
  | succ fuel ih =>
    unfold batchLoop
    by_cases same : buf.head = buf.tail
    · obtain ⟨first, last, bytes⟩ := buf
      cases (same : first = last)
      rw [if_neg (fun differ => differ rfl), unread_eq_nil head rfl]
      rfl
    · have queued := unread_eq_cons head tail same
      rw [if_pos same, dif_pos head, queued, List.foldl_cons]
      rw [queued, List.length_cons] at enough
      exact ih (next_lt buf.head) tail (Nat.lt_of_succ_lt_succ enough)

/-- A batch call ends after as many iterations as there are bytes in the ring, has the effect of one
call for each of them in ring order, however the caller of that function widens a byte, and leaves
the ring empty, with `tail` and the data as they were. The loops inside end as well. -/
theorem batches_equal_putchars (config caller : Config) (s : Server) (n : Nat) (buf : ClientBuffer)
    (head : buf.head.toNat < ringSize) (tail : buf.tail.toNat < ringSize) :
    buf.unread.length = (buf.tail.toNat + ringSize - buf.head.toNat) % ringSize ∧
    (∀ fuel, buf.unread.length < fuel →
      processedBatchBatch config fuel s n buf =
        .finished
          (buf.unread.foldl (fun s c => processedPutcharPutchar s n (charValue caller c)) s)
          { buf with head := buf.tail } ∧
      rawBatchBatch config fuel s n buf =
        .finished (buf.unread.foldl (fun s c => rawPutcharPutchar s n (charValue caller c)) s)
          { buf with head := buf.tail }) ∧
    ∀ before, Passes before (flushLines before) := by
  refine ⟨Ring.queue_length _, fun fuel enough => ⟨?_, ?_⟩, flushLines_pass⟩
  · simp only [← processedPutcharPutchar_charValue config caller]
    exact batchLoop_eq head tail enough
  · simp only [rawPutcharPutchar, ← internalPutchar_charValue config caller]
    exact batchLoop_eq head tail enough

def wrapped : ClientBuffer := ⟨4087, 1, fun i => if i.val = 0 then 10 else 233⟩

theorem batches_equal_putchars_wrapped :
    ∃ fuel s buf, processedBatchBatch lone fuel (Server.init lone) 0 wrapped = .finished s buf ∧
      buf.head = 1 := by
  have batch := batches_equal_putchars lone lone (Server.init lone) 0 wrapped (by decide) (by decide)
  exact ⟨_, _, _, (batch.2.1 _ (Nat.lt_succ_self _)).1, rfl⟩

end GlobalComponents.SerialServer
