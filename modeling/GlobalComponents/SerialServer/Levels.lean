import GlobalComponents.SerialServer.History

/-! The levels of the buffers, in any state whatever: also where a line has not fitted its row.

Every way of flushing only takes bytes out, so the loop that flushes line after line ends by itself.
-/

set_option autoImplicit false

namespace GlobalComponents.SerialServer

open Library Library.Window

/-- No buffer gets fuller, and `has_data` is not forgotten. -/
structure Server.Sinks (s s' : Server) : Prop where
  used : ∀ b, s'.used b ≤ s.used b
  hasData : s.hasData = true → s'.hasData = true

theorem Server.Sinks.refl (s : Server) : s.Sinks s := ⟨fun _ => Nat.le_refl _, id⟩

theorem Server.Sinks.trans {s s' s'' : Server} (first : s.Sinks s') (second : s'.Sinks s'') :
    s.Sinks s'' :=
  ⟨fun b => (second.used b).trans (first.used b), second.hasData ∘ first.hasData⟩

theorem print_sinks (s : Server) (tokens : List Output) : s.Sinks (s.print tokens) :=
  ⟨fun _ => Nat.le_refl _, id⟩

theorem setColour_sinks (s : Server) (b : Nat) : s.Sinks (s.setColour b) := by
  unfold Server.setColour
  split
  · exact .refl s
  · exact ⟨fun _ => Nat.le_refl _, id⟩

theorem flushBuffer_sinks (s : Server) (b : Nat) : s.Sinks (flushBuffer s b) := by
  unfold flushBuffer
  split
  · exact .refl s
  · refine (setColour_sinks s b).trans ⟨fun i => ?_, id⟩
    rcases eq_or_ne i b with rfl | other
    · simp
    · simp [Server.print, other]

theorem flushBuffer_used (s : Server) (b : Nat) : (flushBuffer s b).used b = 0 := by
  unfold flushBuffer
  split
  · next empty => exact empty
  · simp

theorem shift_sinks (s : Server) (b length : Nat) : s.Sinks (s.shift b length) := by
  refine ⟨fun i => ?_, id⟩
  rcases eq_or_ne i b with rfl | other
  · simp [Server.shift]
  · simp [Server.shift, other]

theorem lineLength_bounds {s : Server} {b length : Nat} (line : s.lineLength b = some length) :
    0 < length ∧ length ≤ s.used b := by
  rw [lineLength_eq] at line
  have bounds := firstLine_bounds line
  rwa [pending_length] at bounds

theorem flushBufferLine_sinks (s : Server) (b : Nat) :
    s.Sinks (flushBufferLine s b).1 ∧
      ((flushBufferLine s b).2 = true → (flushBufferLine s b).1.used b < s.used b) := by
  unfold flushBufferLine
  split
  · exact ⟨.refl s, nofun⟩
  split
  · exact ⟨.refl s, nofun⟩
  · next length line =>
    obtain ⟨positive, within⟩ := lineLength_bounds line
    have same : (s.setColour b).used = s.used := (setColour_outputBuffers s b).2.1
    dsimp only
    refine ⟨?_, fun _ => ?_⟩
    · exact ((setColour_sinks s b).trans (print_sinks _ _)).trans (shift_sinks _ b length)
    · simp only [Server.shift, Server.print, Function.update_self, same]
      omega

theorem flushNexts_sink (s : Server) (streams : List Nat) :
    s.Sinks (streams.foldl flushNext (s, false)).1 ∧
      ((streams.foldl flushNext (s, false)).2 = true →
        ∃ i ∈ streams, (streams.foldl flushNext (s, false)).1.used i < s.used i) := by
  induction streams using List.reverseRecOn with
  | nil => exact ⟨.refl s, nofun⟩
  | append_singleton streams b ih =>
    rw [List.foldl_append]
    generalize streams.foldl flushNext (s, false) = before at ih ⊢
    obtain ⟨earlier, shorter⟩ := ih
    obtain ⟨sinks, now⟩ := flushBufferLine_sinks before.1 b
    refine ⟨earlier.trans sinks, fun busy => ?_⟩
    simp only [List.foldl_cons, List.foldl_nil, flushNext, Bool.or_eq_true] at busy
    rcases busy with before' | line
    · obtain ⟨i, member, less⟩ := shorter before'
      exact ⟨i, List.mem_append_left _ member, (sinks.used i).trans_lt less⟩
    · exact ⟨b, by simp, (now line).trans_le (earlier.used b)⟩

theorem flushPass_sinks (s : Server) : s.Sinks (flushPass s).1 ∧
    ((flushPass s).2 = true → ∃ i ∈ List.range numStreams, (flushPass s).1.used i < s.used i) := by
  unfold flushPass
  exact flushNexts_sink s _

inductive Passes : Server → Server × Bool → Prop where
  | done {s after : Server} : flushPass s = (after, false) → Passes s (after, false)
  | again {s after final : Server} {flag : Bool} : flushPass s = (after, true) →
      Passes after (final, flag) → Passes s (final, true)

theorem flushPasses_pass {fuel : Nat} {s : Server} (enough : s.buffered < fuel) :
    Passes s (flushPasses fuel s) := by
  induction fuel generalizing s with
  | zero => exact absurd enough (Nat.not_lt_zero _)
  | succ fuel ih =>
    -- a pass that prints a line takes bytes out, so the fuel lasts
    obtain ⟨sinks, shorter⟩ := flushPass_sinks s
    simp only [flushPasses]
    cases pass : flushPass s with
    | mk after flag =>
      cases flag with
      | false => exact .done pass
      | true =>
        rw [pass] at sinks shorter
        obtain ⟨i, member, less⟩ := shorter rfl
        exact .again pass (ih ((buffered_lt sinks.used member less).trans_le (Nat.le_of_lt_succ enough)))

theorem flushLines_pass (s : Server) : Passes s (flushLines s) :=
  flushPasses_pass (Nat.lt_succ_self _)

theorem Passes.invariant {s : Server} {after : Server × Bool} (passes : Passes s after)
    (Inv : Server → Prop) (initially : Inv s)
    (preserved : ∀ s b, Inv s → Inv (flushBufferLine s b).1) : Inv after.1 := by
  have pass : ∀ {s : Server}, Inv s → Inv (flushPass s).1 := by
    intro s inv
    suffices all : ∀ (streams : List Nat) (before : Server × Bool), Inv before.1 →
        Inv (streams.foldl flushNext before).1 from all _ (s, false) inv
    intro streams
    induction streams with
    | nil => exact fun _ inv => inv
    | cons b rest ih => exact fun before inv => ih _ (preserved before.1 b inv)
  induction passes with
  | done printed =>
    have after := pass initially
    rwa [printed] at after
  | again printed _ ih =>
    have after := pass initially
    rw [printed] at after
    exact ih after

theorem flushLines_sinks (s : Server) : s.Sinks (flushLines s).1 :=
  (flushLines_pass s).invariant s.Sinks (.refl s) fun middle b sinks =>
    sinks.trans (flushBufferLine_sinks middle b).1

theorem flushBuffers_sink (s : Server) (streams : List Nat) :
    s.Sinks (streams.foldl flushBuffer s) := by
  induction streams generalizing s with
  | nil => exact .refl s
  | cons b rest ih => exact (flushBuffer_sinks s b).trans (ih _)

theorem timerCallback_sinks (s : Server) : s.Sinks (timerCallback s) := by
  unfold timerCallback
  split
  · exact ⟨fun _ => Nat.le_refl _, id⟩
  split
  · dsimp only
    split
    · exact flushLines_sinks s
    · exact (flushLines_sinks s).trans (flushBuffers_sink _ _)
  · exact .refl s

theorem shifts_sink (s : Server) (streams : List Nat) (length : Nat) :
    s.Sinks (streams.foldl (fun s i => Server.shift s i length) s) := by
  induction streams generalizing s with
  | nil => exact .refl s
  | cons b rest ih => exact (shift_sinks s b length).trans (ih _)

theorem printCommon_sinks (s : Server) (used : List Nat) (first length : Nat) :
    s.Sinks (s.printCommon used first length) := by
  unfold Server.printCommon
  generalize reset : (if s.lastOut = none then s else s.print [.reset]) = coloured
  have start : s.Sinks coloured := by
    rw [← reset]
    split
    · exact .refl s
    · exact print_sinks s _
  dsimp only
  generalize fronts : (window coloured.outputBuffers (row first) length).map (Output.byte used) =
    tokens
  have shifts := shifts_sink { coloured.print tokens with lastOut := none } used length
  have printed : s.Sinks { coloured.print tokens with lastOut := none } :=
    ⟨start.used, start.hasData⟩
  split
  · exact printed.trans (shifts.trans ⟨fun _ => Nat.le_refl _, fun _ => rfl⟩)
  · exact printed.trans shifts

theorem tryCoalesceOutput_sinks (s : Server) : s.Sinks (tryCoalesceOutput s).1 := by
  unfold tryCoalesceOutput
  split
  · split
    · exact ⟨fun _ => Nat.le_refl _, id⟩
    · exact .refl s
  · split
    · split
      · exact printCommon_sinks s _ _ _
      · exact .refl s
    · exact .refl s

theorem coalesceIfMulti_sinks (s : Server) : s.Sinks (coalesceIfMulti s).1 := by
  unfold coalesceIfMulti
  split
  · exact tryCoalesceOutput_sinks s
  · exact .refl s

theorem flushPrevious_sinks (s : Server) : s.Sinks (flushPrevious s) := by
  unfold flushPrevious
  split
  · exact (flushBufferLine_sinks s _).1
  · exact .refl s

theorem flushOthers_sinks (s : Server) (b : Nat) : s.Sinks (flushOthers s b) := by
  unfold flushOthers
  split
  · exact flushBuffers_sink s _
  · exact .refl s

theorem flushFull_sinks (s : Server) (b : Nat) : s.Sinks (flushFull s b) := by
  have lines := (flushPrevious_sinks s).trans (flushLines_sinks _)
  exact (lines.trans (flushOthers_sinks _ b)).trans (setColour_sinks _ b)

theorem flushStored_sinks (s : Server) (b index : Nat) (status : Int) :
    s.Sinks (flushStored s b index status) := by
  unfold flushStored
  dsimp only
  split
  · exact flushFull_sinks s b
  split
  · exact flushBuffer_sinks s b
  · exact ⟨fun _ => Nat.le_refl _, id⟩

/-- The stored byte is all that a call of `internal_putchar` adds. -/
theorem internalPutchar_used (s : Server) (b : Nat) (c : Int) (i : Nat) :
    (internalPutchar s b c).used i ≤ (s.store b c).used i :=
  ((coalesceIfMulti_sinks _).trans (flushStored_sinks _ b _ _)).used i

theorem step_used_eq_zero {config : Config} {s s' : Server} {event : Event} {result : Unit} {b : Nat}
    (empty : s.used b = 0) (elsewhere : ∀ c, event ≠ .putchar b c)
    (step : (machine config).step s event = some (s', result)) : s'.used b = 0 := by
  obtain ⟨after, stepped, same⟩ := Option.map_eq_some_iff.mp step
  cases same
  cases event with
  | putchar b' c =>
    obtain rfl := putchar_step stepped
    have other : b ≠ b' := fun same => elsewhere c (same ▸ rfl)
    have least := internalPutchar_used s b' c b
    simpa [Server.store, other, empty] using least
  | timer =>
    cases stepped
    have least := (timerCallback_sinks s).used b
    omega
  | input c => exact (congrFun (handleChar_quiet stepped).used b).trans empty
  | share id buf =>
    cases stepped
    exact empty

end GlobalComponents.SerialServer
