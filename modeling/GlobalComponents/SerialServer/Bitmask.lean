import GlobalComponents.SerialServer.Display
import GlobalComponents.SerialServer.Levels

/-! `output_buffer_bitmask` as a summary of the buffers.

All that flushes takes bits out together with the last byte of a stream. The mask goes wrong where
`internal_putchar` sets a bit: there are more streams than bits, and the bit of a stream is also set
after coalescing has emptied its buffer.
-/

set_option autoImplicit false

namespace GlobalComponents.SerialServer

open Library

/-- The mask says which streams have output, so that it is 0 exactly if none has. -/
structure Server.Truthful (s : Server) : Prop where
  bits : ∀ b < numStreams, s.bitmask.getLsbD b = true ↔ 0 < s.used b
  clear : s.bitmask = 0 ↔ ∀ b < numStreams, s.used b = 0

/-- Coalescing prints all that the stream has, the new byte included. -/
def Server.CoalescesAway (s : Server) (b : Nat) (c : Int) : Prop :=
  s.activeClient = none ∧ (s.store b c).view.coalescible = some (s.used b + 1)

/-- The stream has a bit, and its buffer is not emptied by coalescing; or neither. -/
def Server.KeepsMask (s : Server) : Event → Prop
  | .putchar b c => b < 16 ↔ ¬s.CoalescesAway b c
  | .timer | .input _ | .share _ _ => True

/-! ## Bits -/

section
variable {mask : BitVec 16} {b i : Nat}

theorem bit_getLsbD : (bit b).getLsbD i = decide (i < 16 ∧ i = b) := by
  rw [bit, BitVec.getLsbD_ofNat, Nat.testBit_two_pow]
  simp [eq_comm]

theorem clear_getLsbD :
    (mask &&& ~~~bit b).getLsbD i = true ↔ mask.getLsbD i = true ∧ i ≠ b := by
  rw [BitVec.getLsbD_and, BitVec.getLsbD_not, bit_getLsbD]
  constructor
  · intro both
    obtain ⟨some, other⟩ := Bool.and_eq_true_iff.mp both
    exact ⟨some, fun same => by simp [same] at other⟩
  · rintro ⟨some, other⟩
    simp [some, other, BitVec.lt_of_getLsbD some]

theorem set_getLsbD :
    (mask ||| bit b).getLsbD i = true ↔ mask.getLsbD i = true ∨ i = b ∧ b < 16 := by
  rw [BitVec.getLsbD_or, bit_getLsbD]
  by_cases same : i = b
  · simp [same]
  · simp [same]

end

/-! ## Flushing -/

/-- A bit says that there is output. -/
def Server.Honest (s : Server) : Prop := ∀ i, s.bitmask.getLsbD i = true → 0 < s.used i

structure Server.Clears (s s' : Server) : Prop where
  sinks : s.Sinks s'
  bits : ∀ i, s'.bitmask.getLsbD i = true ↔ s.bitmask.getLsbD i = true ∧ 0 < s'.used i
  lastOut : ∀ i, s'.lastOut = some i → s.lastOut = some i ∨ 0 < s.used i

section
variable {s s' s'' : Server}

theorem Server.Honest.clears (honest : s.Honest) : s.Clears s :=
  ⟨.refl s, fun i => (and_iff_left_of_imp (honest i)).symm, fun _ => .inl⟩

theorem Server.Clears.honest (clears : s.Clears s') : s'.Honest :=
  fun i some => ((clears.bits i).mp some).2

theorem Server.Clears.trans (first : s.Clears s') (second : s'.Clears s'') : s.Clears s'' where
  sinks := first.sinks.trans second.sinks
  bits i := by
    have earlier : 0 < s''.used i → 0 < s'.used i := (second.sinks.used i).trans_lt'
    rw [second.bits, first.bits, and_assoc, and_iff_right_of_imp earlier]
  lastOut i last := by
    rcases second.lastOut i last with earlier | some
    · exact first.lastOut i earlier
    · exact .inr (some.trans_le (first.sinks.used i))

theorem print_clears (honest : s.Honest) (tokens : List Output) : s.Clears (s.print tokens) :=
  ⟨print_sinks s tokens, honest.clears.bits, fun _ => .inl⟩

theorem setColour_clears (honest : s.Honest) {b : Nat} (some : 0 < s.used b) :
    s.Clears (s.setColour b) := by
  refine ⟨setColour_sinks s b, ?_, ?_⟩
  · unfold Server.setColour
    split <;> exact honest.clears.bits
  · unfold Server.setColour
    split
    · exact fun _ => .inl
    · rintro i ⟨rfl⟩
      exact .inr some

theorem shift_clears (honest : s.Honest) (b length : Nat) : s.Clears (s.shift b length) := by
  refine ⟨shift_sinks s b length, fun i => ?_, fun _ => .inl⟩
  unfold Server.shift
  dsimp only
  by_cases same : i = b
  · subst same
    rw [Function.update_self]
    split
    · next empty =>
      rw [clear_getLsbD, empty]
      simp
    · next some => simp [Nat.pos_of_ne_zero some]
  · rw [Function.update_of_ne same]
    split
    · rw [clear_getLsbD, and_iff_left same, and_iff_left_of_imp (honest i)]
    · exact honest.clears.bits i

theorem flushBuffer_clears (honest : s.Honest) (b : Nat) : s.Clears (flushBuffer s b) := by
  unfold flushBuffer
  split
  · exact honest.clears
  · next some =>
    have coloured := setColour_clears honest (Nat.pos_of_ne_zero some)
    have printed := coloured.trans (print_clears coloured.honest ((s.pending b).map (.byte [b])))
    dsimp only
    generalize (s.setColour b).print ((s.pending b).map (.byte [b])) = t at printed ⊢
    have emptied : t.Clears { t with
        doneOutput := true
        used := Function.update t.used b 0
        bitmask := t.bitmask &&& ~~~bit b } := by
      refine ⟨⟨fun i => ?_, id⟩, fun i => ?_, fun _ => .inl⟩
      · rcases eq_or_ne i b with rfl | other
        · simp
        · simp [other]
      · rw [clear_getLsbD]
        rcases eq_or_ne i b with rfl | other
        · simp
        · simpa [other] using printed.honest i
    exact printed.trans emptied

theorem flushBufferLine_clears (honest : s.Honest) (b : Nat) :
    s.Clears (flushBufferLine s b).1 := by
  unfold flushBufferLine
  split
  · exact honest.clears
  split
  · exact honest.clears
  · next some _ length line =>
    have coloured := setColour_clears honest (Nat.pos_of_ne_zero some)
    have printed := fun tokens => coloured.trans (print_clears coloured.honest tokens)
    exact (printed _).trans (shift_clears (printed _).honest b length)

theorem flushLines_clears (honest : s.Honest) : s.Clears (flushLines s).1 :=
  (flushLines_pass s).invariant s.Clears honest.clears fun _ b clears =>
    clears.trans (flushBufferLine_clears clears.honest b)

theorem flushBuffers_clear (honest : s.Honest) (streams : List Nat) :
    s.Clears (streams.foldl flushBuffer s) := by
  induction streams generalizing s with
  | nil => exact honest.clears
  | cons b rest ih =>
    have first := flushBuffer_clears honest b
    exact first.trans (ih first.honest)

theorem timerCallback_clears (honest : s.Honest) : s.Clears (timerCallback s) := by
  unfold timerCallback
  split
  · exact ⟨⟨fun _ => Nat.le_refl _, id⟩, honest.clears.bits, fun _ => .inl⟩
  split
  · have lines := flushLines_clears honest
    dsimp only
    split
    · exact lines
    · exact lines.trans (flushBuffers_clear lines.honest _)
  · exact honest.clears

theorem flushPrevious_clears (honest : s.Honest) : s.Clears (flushPrevious s) := by
  unfold flushPrevious
  split
  · exact flushBufferLine_clears honest _
  · exact honest.clears

theorem flushOthers_clears (honest : s.Honest) (b : Nat) : s.Clears (flushOthers s b) := by
  unfold flushOthers
  split
  · exact flushBuffers_clear honest _
  · exact honest.clears

theorem flushFull_clears (honest : s.Honest) {b : Nat} (full : 0 < s.used b) :
    s.Clears (flushFull s b) := by
  have previous := flushPrevious_clears honest
  have lines := previous.trans (flushLines_clears previous.honest)
  have others := lines.trans (flushOthers_clears lines.honest b)
  unfold flushFull
  generalize flushOthers (flushLines (flushPrevious s)).1 b = t at others ⊢
  -- the colours are set for a stream that may be empty by now
  refine ⟨others.sinks.trans (setColour_sinks t b), fun i => ?_, fun i last => ?_⟩
  · unfold Server.setColour
    split <;> exact others.bits i
  · unfold Server.setColour at last
    split at last
    · exact others.lastOut i last
    · cases last
      exact .inr full

theorem shifts_clear (honest : s.Honest) (streams : List Nat) (length : Nat) :
    s.Clears (streams.foldl (fun s i => Server.shift s i length) s) := by
  induction streams generalizing s with
  | nil => exact honest.clears
  | cons b rest ih =>
    have first := shift_clears honest b length
    exact first.trans (ih first.honest)

theorem printCommon_clears (honest : s.Honest) (used : List Nat) (first length : Nat) :
    s.Clears (s.printCommon used first length) := by
  unfold Server.printCommon
  generalize reset : (if s.lastOut = none then s else s.print [.reset]) = coloured
  have start : s.Clears coloured := by
    rw [← reset]
    split
    · exact honest.clears
    · exact print_clears honest _
  dsimp only
  generalize (Window.window coloured.outputBuffers (row first) length).map (Output.byte used) =
    tokens
  have printed : s.Clears { coloured.print tokens with lastOut := none } :=
    ⟨⟨start.sinks.used, start.sinks.hasData⟩, start.bits, nofun⟩
  have shifts := printed.trans (shifts_clear printed.honest used length)
  split
  · exact ⟨⟨shifts.sinks.used, fun _ => rfl⟩, shifts.bits, shifts.lastOut⟩
  · exact shifts

theorem coalesceIfMulti_clears (honest : s.Honest) : s.Clears (coalesceIfMulti s).1 := by
  unfold coalesceIfMulti
  split
  · cases common : s.view.coalescible with
    | none =>
      obtain ⟨_, tokens, printed, _⟩ := tryCoalesceOutput_of_none common
      rw [printed]
      exact print_clears honest tokens
    | some n =>
      obtain ⟨first, _, coalesced⟩ := tryCoalesceOutput_of_some common
      rw [coalesced]
      exact printCommon_clears honest _ _ _
  · exact honest.clears

/-! ## Storing a byte -/

theorem shifts_used {streams : List Nat} (unique : streams.Nodup) (length i : Nat) :
    (streams.foldl (fun s i => Server.shift s i length) s).used i =
      if i ∈ streams then s.used i - length else s.used i := by
  induction streams generalizing s with
  | nil => simp
  | cons b rest ih =>
    obtain ⟨fresh, unique⟩ := List.nodup_cons.mp unique
    rw [List.foldl_cons, ih unique]
    rcases eq_or_ne i b with rfl | other
    · simp [fresh, Server.shift]
    · simp [other, Server.shift]

theorem shifts_lastOut (streams : List Nat) (length : Nat) :
    (streams.foldl (fun s i => Server.shift s i length) s).lastOut = s.lastOut := by
  induction streams generalizing s with
  | nil => rfl
  | cons b rest ih => exact ih

theorem printCommon_used {streams : List Nat} (unique : streams.Nodup) (first length i : Nat) :
    (s.printCommon streams first length).used i =
        (if i ∈ streams then s.used i - length else s.used i) ∧
      (s.printCommon streams first length).lastOut = none := by
  have same : (if s.lastOut = none then s else s.print [.reset]).used = s.used := by
    split <;> rfl
  unfold Server.printCommon
  generalize (if s.lastOut = none then s else s.print [.reset]) = coloured at same ⊢
  rw [← same]
  dsimp only
  split
  · exact ⟨shifts_used unique length i, shifts_lastOut streams length⟩
  · exact ⟨shifts_used unique length i, shifts_lastOut streams length⟩

/-- The common front of the streams is taken out of each, or the buffers stay as they are. -/
inductive Merged (s : Server) (b : Nat) (after : Server) (status : Int) : Prop where
  | front (n : Nat) : s.activeClient = none → s.view.coalescible = some n → n ≤ s.used b →
      after.used b = s.used b - n → after.lastOut = none → status = 0 →
      Merged s b after status
  | apart : ¬(s.activeClient = none ∧ s.view.coalescible.isSome) → after.used = s.used →
      after.lastOut = s.lastOut → Merged s b after status

theorem coalesceIfMulti_merged {b : Nat} (stream : b < numStreams) (filled : 0 < s.used b) :
    Merged s b (coalesceIfMulti s).1 (coalesceIfMulti s).2 := by
  unfold coalesceIfMulti
  by_cases multi : s.activeClient = none
  · rw [if_pos multi]
    cases common : s.view.coalescible with
    | none =>
      obtain ⟨_, tokens, printed, _⟩ := tryCoalesceOutput_of_none common
      rw [printed]
      exact .apart (by simp [common]) rfl rfl
    | some n =>
      obtain ⟨_, _, front⟩ := coalescible_front common
      have member : b ∈ s.view.inUse := by
        refine List.mem_filter.mpr ⟨List.mem_range.mpr stream, ?_⟩
        simpa [pending_eq_nil_iff] using filled.ne'
      obtain ⟨first, _, coalesced⟩ := tryCoalesceOutput_of_some common
      rw [coalesced]
      obtain ⟨less, reset⟩ := printCommon_used (s := s) (inUse_nodup s.view) first n b
      rw [if_pos member] at less
      exact .front n multi common (by simpa using (front b member).1) less reset rfl
  · rw [if_neg multi]
    exact .apart (fun both => multi both.1) rfl rfl

structure Server.Masked (s : Server) : Prop where
  bits : ∀ b, s.bitmask.getLsbD b = true ↔ 0 < s.used b
  lastOut : ∀ b, s.lastOut = some b → b < 16

namespace Server.Masked

variable {b i : Nat} {c : Int} {status : Int}

theorem lt (masked : s.Masked) (some : 0 < s.used b) : b < 16 :=
  BitVec.lt_of_getLsbD ((masked.bits b).mpr some)

theorem truthful (masked : s.Masked) : s.Truthful where
  bits b _ := masked.bits b
  clear := by
    constructor
    · intro none b _
      have bit := masked.bits b
      rw [none] at bit
      simpa using bit
    · intro none
      refine BitVec.eq_of_getLsbD_eq fun b within => ?_
      have stream : b < numStreams := within.trans_le (by decide)
      have clear : ¬s.bitmask.getLsbD b = true := by
        rw [masked.bits, none b stream]
        exact Nat.lt_irrefl 0
      simpa using clear

theorem clears (masked : s.Masked) (clears : s.Clears s') : s'.Masked where
  bits b := by
    have earlier : 0 < s'.used b → 0 < s.used b := (clears.sinks.used b).trans_lt'
    rw [clears.bits, masked.bits, and_iff_right_of_imp earlier]
  lastOut b last := (clears.lastOut b last).elim (masked.lastOut b) masked.lt

theorem store (masked : s.Masked) (b : Nat) (c : Int) : (s.store b c).Honest := by
  intro i bit
  have some := (masked.bits i).mp bit
  rcases eq_or_ne i b with rfl | other
  · simp [Server.store]
  · simpa [Server.store, other] using some

theorem stored (masked : s.Masked) (clears : (s.store b c).Clears s') :
    (∀ i, i ≠ b → (s'.bitmask.getLsbD i = true ↔ 0 < s'.used i)) ∧
      (0 < s.used b → (s'.bitmask.getLsbD b = true ↔ 0 < s'.used b)) := by
  constructor
  · intro i other
    have less := clears.sinks.used i
    have same : (s.store b c).used i = s.used i := by simp [Server.store, other]
    have earlier : 0 < s'.used i → 0 < s.used i := (same ▸ less).trans_lt'
    rw [clears.bits]
    exact (and_congr_left' (masked.bits i)).trans (and_iff_right_of_imp earlier)
  · intro some
    have bit : (s.store b c).bitmask.getLsbD b = true := (masked.bits b).mpr some
    rw [clears.bits, and_iff_right bit]

theorem merged (masked : s.Masked) {t : Server} (merged : Merged (s.store b c) b t status) :
    (0 < t.used b ↔ ¬s.CoalescesAway b c) ∧ (∀ i, t.lastOut = some i → i < 16) ∧
      (status = -1 → t.lastOut = s.lastOut ∧ 0 < t.used b) := by
  have count : (s.store b c).used b = s.used b + 1 := by simp [Server.store]
  cases merged with
  | front n multi common within less reset zero =>
    rw [count] at within less
    refine ⟨?_, by simp [reset], by simp [zero]⟩
    have away : s.CoalescesAway b c ↔ n = s.used b + 1 := by
      unfold Server.CoalescesAway
      rw [common, Option.some.injEq]
      exact and_iff_right multi
    rw [away, less]
    omega
  | apart neither same last =>
    rw [same, count]
    refine ⟨iff_of_true (Nat.succ_pos _) ?_, ?_, fun _ => ⟨last, Nat.succ_pos _⟩⟩
    · rintro ⟨multi, common⟩
      exact neither ⟨multi, by rw [common]; rfl⟩
    · rw [last]
      exact masked.lastOut

theorem flushed (masked : s.Masked) (clears : (s.store b c).Clears s')
    (own : s'.bitmask.getLsbD b = true ↔ 0 < s'.used b) (here : b < 16) : s'.Masked where
  bits i := by
    rcases eq_or_ne i b with rfl | other
    · exact own
    · exact (masked.stored clears).1 i other
  lastOut i last := by
    rcases clears.lastOut i last with earlier | some
    · exact masked.lastOut i earlier
    rcases eq_or_ne i b with rfl | other
    · exact here
    · exact masked.lt (by simpa [Server.store, other] using some)

/-- The end of `internal_putchar`: the mask becomes right, or the bit of the stream is wrong. -/
theorem flushStored {t : Server} (masked : s.Masked) (stream : b < numStreams)
    (clears : (s.store b c).Clears t) (merged : Merged (s.store b c) b t status) :
    (s.KeepsMask (.putchar b c) → (flushStored t b (s.used b) status).Masked) ∧
      (((flushStored t b (s.used b) status).bitmask.getLsbD b = true ↔
        0 < (flushStored t b (s.used b) status).used b) → s.KeepsMask (.putchar b c)) := by
  obtain ⟨left, painted, untouched⟩ := masked.merged merged
  have less : t.used b ≤ s.used b + 1 := by simpa [Server.store] using clears.sinks.used b
  have keeps : s.KeepsMask (.putchar b c) ↔ (b < 16 ↔ 0 < t.used b) := iff_congr Iff.rfl left.symm
  rw [keeps]
  unfold SerialServer.flushStored
  dsimp only
  split
  · next full =>
    unfold outputBufferSize at full
    have some : 0 < s.used b := by omega
    have here : b < 16 := masked.lt some
    have more : 0 < t.used b := by omega
    have flushes := clears.trans (flushFull_clears clears.honest more)
    have right := masked.flushed flushes ((masked.stored flushes).2 some) here
    exact ⟨fun _ => right, fun _ => iff_of_true here more⟩
  split
  · next fast =>
    have waits : status = -1 := fast.elim And.right fun same => same.2.2
    obtain ⟨last, some⟩ := untouched waits
    -- without a bit the stream has stored its first byte and was not printed last
    have here : b < 16 := by
      rcases fast with ⟨⟨index, _⟩, _⟩ | ⟨same, _⟩
      · exact masked.lt index
      · exact masked.lastOut b (last ▸ same)
    have flushes := clears.trans (flushBuffer_clears clears.honest b)
    have right := masked.flushed flushes (by rw [flushes.bits, flushBuffer_used]; simp) here
    exact ⟨fun _ => right, fun _ => iff_of_true here some⟩
  · -- the bit is set whether or not there is output left
    have own : (t.bitmask ||| bit b).getLsbD b = true ↔ b < 16 := by
      rw [set_getLsbD]
      exact ⟨fun either => either.elim BitVec.lt_of_getLsbD And.right, fun here => .inr ⟨rfl, here⟩⟩
    refine ⟨fun here => ⟨fun i => ?_, painted⟩, fun truthful => own.symm.trans truthful⟩
    rcases eq_or_ne i b with rfl | other
    · exact own.trans here
    · rw [set_getLsbD, or_iff_left fun same => other same.1]
      exact (masked.stored clears).1 i other

theorem putchar (masked : s.Masked) (stream : b < numStreams) (c : Int) :
    (s.KeepsMask (.putchar b c) → (internalPutchar s b c).Masked) ∧
      ((internalPutchar s b c).Truthful → s.KeepsMask (.putchar b c)) := by
  have filled : 0 < (s.store b c).used b := by simp [Server.store]
  have clears := coalesceIfMulti_clears (masked.store b c)
  have merged := coalesceIfMulti_merged stream filled
  obtain ⟨kept, needed⟩ := masked.flushStored stream clears merged
  exact ⟨fun keeps => ⟨(kept keeps).bits, (kept keeps).lastOut⟩,
    fun truthful => needed (truthful.bits b stream)⟩

theorem handled (masked : s.Masked) (handled : s.display.Handled s'.display) : s'.Masked := by
  generalize same : s'.display = after at handled
  have bitmask : s'.bitmask = after.bitmask := congrArg Display.bitmask same
  have used : s'.used = after.used := congrArg Display.used same
  have lastOut : s'.lastOut = after.lastOut := congrArg Display.lastOut same
  cases handled with
  | same => exact ⟨by rw [bitmask, used]; exact masked.bits, by rw [lastOut]; exact masked.lastOut⟩
  | announced => exact ⟨by rw [bitmask, used]; exact masked.bits, by rw [lastOut]; exact nofun⟩

theorem init (config : Config) : (Server.init config).Masked :=
  ⟨fun b => by simp [Server.init], nofun⟩

end Server.Masked

theorem step_masked {config : Config} {event : Event} {result : Unit} (masked : s.Masked)
    (valid : event.valid) (step : (machine config).step s event = some (s', result)) :
    (s.KeepsMask event → s'.Masked) ∧ (s'.Truthful → s.KeepsMask event) := by
  obtain ⟨after, stepped, same⟩ := Option.map_eq_some_iff.mp step
  cases same
  cases event with
  | putchar b c =>
    obtain rfl := putchar_step stepped
    exact masked.putchar valid c
  | timer =>
    cases stepped
    have honest : s.Honest := fun i => (masked.bits i).mp
    exact ⟨fun _ => masked.clears (timerCallback_clears honest), fun _ => trivial⟩
  | input c => exact ⟨fun _ => masked.handled (handleChar_handled stepped), fun _ => trivial⟩
  | share id buf =>
    cases stepped
    exact ⟨fun _ => ⟨masked.bits, masked.lastOut⟩, fun _ => trivial⟩

end

section
variable {config : Config} {trace : List (Event × Unit)} {s : Server}

theorem masked_of_always (run : (machine config).Run (Server.init config) trace s)
    (always : (machine config).Always (Server.init config) trace Server.Truthful) : s.Masked := by
  -- each state was truthful, and a step from a masked state is truthful only if it kept the mask
  induction run with
  | start => exact .init config
  | next run valid step ih =>
    have masked := ih fun early within =>
      always early (within.trans (List.prefix_append _ _))
    have truthful := always _ (List.prefix_refl _) _ (run.next valid step)
    obtain ⟨kept, needed⟩ := step_masked masked valid step
    exact kept (needed truthful)

/-- In all states of a run the mask tells which streams have output exactly if coalescing empties
each stream without a bit, whenever it gets a byte, and never the stream with a bit that gets one. -/
theorem output_buffer_bitmask_truthful_iff
    (run : (machine config).Run (Server.init config) trace s) :
    (machine config).Always (Server.init config) trace Server.Truthful ↔
      (machine config).EveryStep (Server.init config) trace Server.KeepsMask := by
  constructor
  · rintro always early event result ⟨rest, rfl⟩ state reached
    obtain ⟨after, run, _⟩ := run.split
    obtain ⟨before, earlier, valid, step⟩ := run.snoc_inv
    cases reached.deterministic earlier
    have before : (early ++ [(event, result)]) <+: early ++ [(event, result)] ++ rest :=
      List.prefix_append _ _
    -- up to this step the run was truthful, so its mask was exact
    have masked := masked_of_always reached fun sooner within =>
      always sooner ((within.trans (List.prefix_append _ _)).trans before)
    exact (step_masked masked valid step).2 (always _ before after run)
  · intro every early within state reached
    have masked : state.Masked := by
      apply (every.early within).history reached (.init config)
      intro _ before event after result masked valid keeps step
      exact (step_masked masked valid step).1 keeps
    exact masked.truthful

end

/-- Stream 0 is buffered and flushed with its newline. -/
instance (s : Server) : (event : Event) → Decidable (s.KeepsMask event)
  | .putchar b c =>
    inferInstanceAs (Decidable (b < 16 ↔ ¬(s.activeClient = none ∧
      (s.store b c).view.coalescible = some (s.used b + 1))))
  | .timer | .input _ | .share _ _ => inferInstanceAs (Decidable True)

/-- A stream without a bit prints a letter that is coalesced away. -/
theorem output_buffer_bitmask_truthful_iff_shared : ∃ trace s,
    (machine lone).Run (Server.init lone) trace s ∧ trace.map Prod.fst = sharedLetter 16 ∧
    s.out.drop 2 = sharedOutput 16 ∧
    (machine lone).Always (Server.init lone) trace Server.Truthful := by
  obtain ⟨trace, s, run, events, printed, keeps⟩ := sharedLetter_run 16 Server.KeepsMask
    (fun s => s.out.drop 2 = sharedOutput 16) (by decide +kernel)
  exact ⟨trace, s, run, events, of_decide_eq_true printed,
    (output_buffer_bitmask_truthful_iff run).mpr keeps⟩

/-- The raw stream of client 4 has a byte that the mask does not show. -/
theorem pending_without_bit : ∃ trace s, (machine lone).Run (Server.init lone) trace s ∧
    s.used 16 = 1 ∧ s.bitmask = 0 ∧ ¬s.Truthful := by
  have first : (machine lone).Run (Server.init lone) [] _ := .start
  have run := first.on (.putchar 16 104) (by decide : 16 < numStreams) rfl
  refine ⟨_, _, run, rfl, rfl, fun truthful => ?_⟩
  have bit := (truthful.bits 16 (by decide)).mpr (by decide)
  exact absurd bit (by decide)

end GlobalComponents.SerialServer
