import GlobalComponents.Library.Run
import Mathlib.Data.UInt
import Mathlib.Tactic.Ring

/-! The cycle counts of a measurement.

A counter of `unsigned long` width wraps while the accumulators have 64 bits. `count_idle` reads it
again and again and notices a wrap when a reading is below the one before; `idle_stop` corrects its
total by what was noticed.
-/

set_option autoImplicit false

namespace GlobalComponents.BenchUtiliz

open Library

inductive ULong where
  | bits32
  | bits64
  deriving DecidableEq

/-- The number of values: the counter wraps here. -/
def ULong.period : ULong → Nat
  | .bits32 => 2 ^ 32
  | .bits64 => 2 ^ 64

def ulongMax (ulong : ULong) : UInt64 := UInt64.ofNat (ulong.period - 1)

def magicCycles : UInt64 := 150

/-- `sel4bench_get_cycle_count` after `time` cycles. -/
def getCycleCount (ulong : ULong) (time : Nat) : UInt64 := UInt64.ofNat (time % ulong.period)

structure Statics where
  flag : Bool
  ccount : UInt64
  prev : UInt64
  start : UInt64
  ts : UInt64
  overflows : UInt64
  idleCcountStart : UInt64
  idleOverflowStart : UInt64

structure Totals where
  total : UInt64
  kernel : UInt64
  idle : UInt64

/-- The returned flag tells whether a measurement has started. -/
def idleStart (s : Statics) (cycles : UInt64) : Statics × Bool :=
  if s.flag then (s, false)
  else ({ s with
    flag := true
    start := cycles
    idleCcountStart := s.ccount
    idleOverflowStart := s.overflows }, true)

/-- `kernel` is what the kernel's log says, or 0 without it. -/
def idleStop (ulong : ULong) (s : Statics) (cycles kernel : UInt64) : Statics × Totals :=
  let total := cycles - s.start
  -- a wrap is worth ULONG_MAX + 1 cycles, and the source adds one less
  let total := total + ulongMax ulong * (s.overflows - s.idleOverflowStart)
  ({ s with flag := false }, ⟨total, kernel, s.ccount - s.idleCcountStart⟩)

def countIdleEntry (s : Statics) (cycles : UInt64) : Statics :=
  { s with prev := cycles, ccount := 0, overflows := 0 }

/-- One iteration of the loop, with the gap it computes and whether it has noticed a wrap. -/
def countIdle (ulong : ULong) (s : Statics) (cycles : UInt64) : Statics × UInt64 × Bool :=
  let s := { s with ts := cycles }
  let wrapped := decide (s.ts < s.prev)
  let diff := if wrapped then ulongMax ulong - s.prev + s.ts + 1 else s.ts - s.prev
  let s := if wrapped then { s with overflows := s.overflows + 1 } else s
  -- a longer gap is time in which something else ran
  let s := if diff < magicCycles then { s with ccount := s.ccount + diff } else s
  ({ s with prev := s.ts }, diff, wrapped)

def Statics.zero : Statics := ⟨false, 0, 0, 0, 0, 0, 0, 0⟩

/-- The component with the time it is, and the time of the latest reading in `count_idle`. -/
structure Bench where
  statics : Statics
  now : Nat
  read : Nat

def Bench.init (ulong : ULong) (time : Nat) : Bench :=
  ⟨countIdleEntry .zero (getCycleCount ulong time), time, time⟩

inductive Event where
  | idleStart (time : Nat)
  | countIdle (time : Nat)
  | idleStop (time : Nat) (kernel : UInt64)

def Event.time : Event → Nat
  | .idleStart time | .countIdle time | .idleStop time _ => time

inductive Result where
  | started (fresh : Bool)
  | counted (diff : UInt64) (wrapped : Bool)
  | stopped (totals : Totals)

def Bench.step (ulong : ULong) (s : Bench) : Event → Bench × Result
  | .idleStart time =>
    let (statics, fresh) := BenchUtiliz.idleStart s.statics (getCycleCount ulong time)
    ({ s with statics, now := time }, .started fresh)
  | .countIdle time =>
    let (statics, diff, wrapped) := BenchUtiliz.countIdle ulong s.statics (getCycleCount ulong time)
    (⟨statics, time, time⟩, .counted diff wrapped)
  | .idleStop time kernel =>
    let (statics, totals) := BenchUtiliz.idleStop ulong s.statics (getCycleCount ulong time) kernel
    ({ s with statics, now := time }, .stopped totals)

/-- Time does not go backwards. -/
def bench (ulong : ULong) : Machine Bench Event Result where
  allowed s event := s.now ≤ event.time
  step s event := some (s.step ulong event)

def noticed (trace : List (Event × Result)) : Nat :=
  trace.countP fun
    | (_, .counted _ wrapped) => wrapped
    | _ => false

def wraps (ulong : ULong) (first last : Nat) : Nat := last / ulong.period - first / ulong.period

section
open scoped UInt64.CommRing

variable {ulong : ULong}

theorem ulongMax_eq : ulongMax ulong = UInt64.ofNat ulong.period - 1 := by
  cases ulong <;> rfl

structure Current (ulong : ULong) (s : Bench) : Prop where
  prev : s.statics.prev = getCycleCount ulong s.read
  read : s.read ≤ s.now

theorem idleStart_prev (s : Statics) (cycles : UInt64) : (idleStart s cycles).1.prev = s.prev := by
  unfold idleStart
  split <;> rfl

theorem countIdle_spec (ulong : ULong) (s : Statics) (cycles : UInt64) :
    (countIdle ulong s cycles).1.prev = cycles ∧
      (countIdle ulong s cycles).1.flag = s.flag ∧ (countIdle ulong s cycles).1.start = s.start ∧
      (countIdle ulong s cycles).1.idleOverflowStart = s.idleOverflowStart ∧
      (countIdle ulong s cycles).1.overflows =
        s.overflows + UInt64.ofNat (countIdle ulong s cycles).2.2.toNat := by
  unfold countIdle
  by_cases wrapped : cycles < s.prev
  · simp only [decide_eq_true wrapped, if_true]
    split <;> exact ⟨rfl, rfl, rfl, rfl, rfl⟩
  · simp only [decide_eq_false wrapped, Bool.false_eq_true, if_false]
    split <;> exact ⟨rfl, rfl, rfl, rfl, (UInt64.add_zero _).symm⟩

theorem Current.step {s : Bench} {event : Event} (current : Current ulong s)
    (later : s.now ≤ event.time) : Current ulong (s.step ulong event).1 := by
  cases event with
  | idleStart time => exact ⟨(idleStart_prev _ _).trans current.prev, current.read.trans later⟩
  | countIdle time => exact ⟨(countIdle_spec _ _ _).1, Nat.le_refl _⟩
  | idleStop time kernel => exact ⟨current.prev, current.read.trans later⟩

/-- A measurement goes on since time `first`, and `count` wraps have been noticed. -/
structure Measures (ulong : ULong) (first count : Nat) (s : Statics) : Prop where
  flag : s.flag = true
  start : s.start = getCycleCount ulong first
  overflows : s.overflows = s.idleOverflowStart + UInt64.ofNat count

def Event.isIdleStop : Event → Bool
  | .idleStop _ _ => true
  | .idleStart _ | .countIdle _ => false

theorem Measures.iterate {first count : Nat} {s : Statics} (measures : Measures ulong first count s)
    (cycles : UInt64) :
    Measures ulong first (count + (countIdle ulong s cycles).2.2.toNat) (countIdle ulong s cycles).1 := by
  obtain ⟨_, flag, start, base, overflows⟩ := countIdle_spec ulong s cycles
  refine ⟨flag.trans measures.flag, start.trans measures.start, ?_⟩
  rw [overflows, base, measures.overflows, UInt64.ofNat_add, UInt64.add_assoc]

theorem noticed_counted {event : Event} {diff : UInt64} {wrapped : Bool} :
    noticed [(event, .counted diff wrapped)] = wrapped.toNat := by
  cases wrapped <;> rfl

theorem Measures.step {first count : Nat} {s after : Bench} {event : Event} {result : Result}
    (measures : Measures ulong first count s.statics) (inside : event.isIdleStop = false)
    (step : (bench ulong).step s event = some (after, result)) :
    Measures ulong first (count + noticed [(event, result)]) after.statics := by
  have same : s.step ulong event = (after, result) := Option.some.inj step
  cases event with
  -- a measurement goes on, so starting it again changes nothing
  | idleStart time =>
    rw [Bench.step, idleStart, if_pos measures.flag] at same
    cases same
    exact measures
  | countIdle time =>
    have counts := measures.iterate (getCycleCount ulong time)
    rw [Bench.step] at same
    generalize countIdle ulong s.statics (getCycleCount ulong time) = iteration at counts same
    cases same
    rwa [noticed_counted]
  | idleStop time kernel => cases inside

theorem Measures.run {first count : Nat} {s after : Bench} {between : List (Event × Result)}
    (measures : Measures ulong first count s.statics)
    (inside : ∀ step ∈ between, step.1.isIdleStop = false)
    (run : (bench ulong).Run s between after) :
    Measures ulong first (count + noticed between) after.statics := by
  induction run with
  | start => exact measures
  | next _ _ step ih =>
    have earlier := ih fun step member => inside step (List.mem_append_left _ member)
    have last := earlier.step (inside _ (List.mem_append_right _ List.mem_cons_self)) step
    rw [noticed, List.countP_append, ← Nat.add_assoc]
    exact last

/-- The correction is one cycle short for each wrap. -/
theorem Measures.total {first count : Nat} {s : Statics} (measures : Measures ulong first count s)
    (last : Nat) (kernel : UInt64) :
    (idleStop ulong s (getCycleCount ulong last) kernel).2.total =
      getCycleCount ulong last - getCycleCount ulong first + UInt64.ofNat (count * ulong.period) -
        UInt64.ofNat count := by
  rw [idleStop]
  dsimp only
  rw [measures.start, measures.overflows, ulongMax_eq, UInt64.ofNat_mul]
  ring

end

end GlobalComponents.BenchUtiliz
