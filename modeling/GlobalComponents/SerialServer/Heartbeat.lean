import GlobalComponents.SerialServer.Levels

/-! Output that stays quiet is on the terminal after three heartbeats.

The first heartbeat may only see that output was flushed since the last one, the second may print
lines, and the third prints what is left.
-/

set_option autoImplicit false

namespace GlobalComponents.SerialServer

open Library

/-- How many heartbeats it takes until all buffers are empty. -/
def Server.heartbeatsDue (s : Server) : Nat :=
  if ∀ b < numStreams, s.used b = 0 then 0
  else if s.doneOutput then 3
  else if ∀ b < numStreams, View.firstLine (s.pending b) = none then 1
  else 2

theorem heartbeatsDue_le (s : Server) : s.heartbeatsDue ≤ 3 := by
  unfold Server.heartbeatsDue
  split
  · omega
  split
  · omega
  split <;> omega

theorem heartbeatsDue_eq_zero_iff (s : Server) :
    s.heartbeatsDue = 0 ↔ ∀ b < numStreams, s.used b = 0 := by
  unfold Server.heartbeatsDue
  split
  · next empty => exact iff_of_true rfl empty
  · next some =>
    refine iff_of_false ?_ some
    split
    · omega
    split <;> omega

theorem flushBufferLine_doneOutput (s : Server) (b : Nat) :
    (flushBufferLine s b).1.doneOutput = s.doneOutput := by
  have colour : (s.setColour b).doneOutput = s.doneOutput := by
    unfold Server.setColour
    split <;> rfl
  unfold flushBufferLine
  split
  · rfl
  split
  · rfl
  · exact colour

theorem flushLines_doneOutput (s : Server) : (flushLines s).1.doneOutput = s.doneOutput :=
  (flushLines_pass s).invariant (fun after => after.doneOutput = s.doneOutput) rfl
    fun middle b same => (flushBufferLine_doneOutput middle b).trans same

theorem flushLines_of_none {s : Server}
    (none : ∀ b < numStreams, View.firstLine (s.pending b) = none) :
    flushLines s = (s, false) := by
  have idle : ∀ streams : List Nat, (∀ b ∈ streams, b < numStreams) →
      streams.foldl flushNext (s, false) = (s, false) := by
    intro streams within
    induction streams with
    | nil => rfl
    | cons b rest ih =>
      obtain ⟨stream, others⟩ := List.forall_mem_cons.mp within
      rw [List.foldl_cons, flushNext, flushBufferLine_of_none (none b stream)]
      exact ih others
  have pass : flushPass s = (s, false) := idle _ fun b => List.mem_range.mp
  simp [flushLines, flushPasses, pass]

theorem flushBuffers_used (s : Server) {streams : List Nat} {b : Nat} (member : b ∈ streams) :
    (streams.foldl flushBuffer s).used b = 0 := by
  induction streams generalizing s with
  | nil => cases member
  | cons first rest ih =>
    rw [List.foldl_cons]
    rcases List.mem_cons.mp member with rfl | later
    · have least := (flushBuffers_sink (flushBuffer s b) rest).used b
      rw [flushBuffer_used] at least
      exact Nat.le_zero.mp least
    · exact ih (flushBuffer s first) later

/-- Nothing is buffered unless `has_data` says so. -/
def Server.Noted (s : Server) : Prop := s.hasData = false → ∀ b < numStreams, s.used b = 0

/-- A heartbeat brings the server nearer to empty buffers. -/
theorem timerCallback_heartbeatsDue {s : Server} (wf : s.Wf) (noted : s.Noted) :
    (timerCallback s).heartbeatsDue ≤ s.heartbeatsDue - 1 := by
  by_cases empty : ∀ b < numStreams, s.used b = 0
  · have left : (timerCallback s).heartbeatsDue = 0 := by
      rw [heartbeatsDue_eq_zero_iff]
      intro b stream
      exact Nat.le_zero.mp (empty b stream ▸ (timerCallback_sinks s).used b)
    omega
  have data : s.hasData = true := by
    by_contra none
    exact empty (noted (by simpa using none))
  unfold timerCallback
  -- the three stages: output was just made, a line is left, only parts of lines are left
  cases output : s.doneOutput with
  | true =>
    have due : s.heartbeatsDue = 3 := by simp [Server.heartbeatsDue, empty, output]
    rw [if_pos rfl, due]
    unfold Server.heartbeatsDue
    split
    · omega
    · simp only [Bool.false_eq_true, if_false]
      split <;> omega
  | false =>
    rw [if_neg Bool.false_ne_true, if_pos data]
    have lines := (flushLines_flushed wf).2
    have quiet : (flushLines s).1.doneOutput = false := (flushLines_doneOutput s).trans output
    dsimp only
    split
    · next succeeded =>
      have line : ¬∀ b < numStreams, View.firstLine (s.pending b) = Option.none := by
        intro absent
        rw [flushLines_of_none absent] at succeeded
        cases succeeded
      have due : s.heartbeatsDue = 2 := by
        simp only [Server.heartbeatsDue, if_neg empty, output, Bool.false_eq_true, if_false,
          if_neg line]
      rw [due]
      unfold Server.heartbeatsDue
      split
      · omega
      · rw [if_neg (Bool.eq_false_iff.mp quiet)]
    · next failed =>
      have empty' : ∀ b < numStreams,
          ((List.range numStreams).foldl flushBuffer (flushLines s).1).used b = 0 :=
        fun b stream => flushBuffers_used _ (List.mem_range.mpr stream)
      rw [(heartbeatsDue_eq_zero_iff _).mpr empty']
      exact Nat.zero_le _

theorem heartbeatsDue_congr {s s' : Server} (buffers : s'.outputBuffers = s.outputBuffers)
    (used : s'.used = s.used) (output : s'.doneOutput = s.doneOutput) :
    s'.heartbeatsDue = s.heartbeatsDue := by
  have pending : s'.pending = s.pending := by
    funext b
    rw [Server.pending, buffers, used]
    rfl
  unfold Server.heartbeatsDue
  rw [pending, used, output]

/-! ## Runs -/

/-- What holds of every reachable state: rows that no stream owns stay empty. -/
structure Server.Regular (s : Server) : Prop where
  noted : s.Noted
  behind : ∀ b, numStreams ≤ b → s.used b = 0

theorem init_regular (config : Config) : (Server.init config).Regular :=
  ⟨fun _ _ _ => rfl, fun _ _ => rfl⟩

theorem Server.Regular.step {config : Config} {s s' : Server} {event : Event} {result : Unit}
    (regular : s.Regular) (valid : event.valid)
    (step : (machine config).step s event = some (s', result)) : s'.Regular := by
  refine ⟨fun none => ?_, fun b behind => ?_⟩
  · obtain ⟨after, stepped, same⟩ := Option.map_eq_some_iff.mp step
    cases same
    cases event with
    | putchar b c =>
      obtain rfl := putchar_step stepped
      cases none
    | timer =>
      cases stepped
      have sinks := timerCallback_sinks s
      have before : s.hasData = false := by
        by_contra data
        rw [sinks.hasData (by simpa using data)] at none
        cases none
      intro b stream
      exact Nat.le_zero.mp (regular.noted before b stream ▸ sinks.used b)
    | input c =>
      have display := handleChar_handled stepped
      generalize handled : s'.display = d at display
      have noted : d.hasData = false → ∀ b < numStreams, d.used b = 0 := by
        cases display with
        | same => exact regular.noted
        | announced => exact regular.noted
      subst handled
      exact noted none
    | share id buf =>
      cases stepped
      exact regular.noted none
  · refine step_used_eq_zero (regular.behind b behind) (fun c same => ?_) step
    subst same
    exact Nat.not_lt.mpr behind valid

def Event.isPutchar : Event → Bool
  | .putchar _ _ => true
  | .timer | .input _ | .share _ _ => false

def Event.isTimer : Event → Bool
  | .timer => true
  | .putchar _ _ | .input _ | .share _ _ => false

def heartbeats (trace : List (Event × Unit)) : Nat := trace.countP fun step => step.1.isTimer

/-- Without a call of `internal_putchar` bytes are only printed, and each heartbeat counts. -/
theorem quiet_step {config : Config} {s s' : Server} {event : Event} {result : Unit} (wf : s.Wf)
    (noted : s.Noted) (quiet : event.isPutchar = false)
    (step : (machine config).step s event = some (s', result)) :
    s.Drains s' ∧ s'.heartbeatsDue ≤ s.heartbeatsDue - heartbeats [(event, result)] := by
  obtain ⟨after, stepped, same⟩ := Option.map_eq_some_iff.mp step
  cases same
  cases event with
  | putchar b c => cases quiet
  | timer =>
    cases stepped
    exact ⟨timerCallback_drains wf, timerCallback_heartbeatsDue wf noted⟩
  | input c =>
    refine ⟨(handleChar_quiet stepped).drains wf, Nat.le_of_eq ?_⟩
    have display := handleChar_handled stepped
    generalize handled : s'.display = d at display
    have flags : d.outputBuffers = s.outputBuffers ∧ d.used = s.used ∧
        d.doneOutput = s.doneOutput := by
      cases display with
      | same => exact ⟨rfl, rfl, rfl⟩
      | announced => exact ⟨rfl, rfl, rfl⟩
    subst handled
    exact heartbeatsDue_congr flags.1 flags.2.1 flags.2.2
  | share id buf =>
    cases stepped
    exact ⟨⟨wf, .refl _⟩, Nat.le_of_eq (heartbeatsDue_congr rfl rfl rfl)⟩

theorem quiet_run {config : Config} {s final : Server} {trace : List (Event × Unit)} (wf : s.Wf)
    (regular : s.Regular) (run : (machine config).Run s trace final)
    (quiet : ∀ step ∈ trace, step.1.isPutchar = false) :
    s.Drains final ∧ final.Regular ∧
      final.heartbeatsDue ≤ s.heartbeatsDue - heartbeats trace := by
  -- each heartbeat of a quiet run uses up one of those that are due
  induction run with
  | start => exact ⟨wf.drains, regular, Nat.le_refl _⟩
  | @next trace before after event result _ valid step ih =>
    obtain ⟨drains, regular, due⟩ := ih fun step member =>
      quiet step (List.mem_append_left _ member)
    have last := quiet (event, result) (by simp)
    obtain ⟨next, fewer⟩ := quiet_step drains.wf regular.noted last step
    refine ⟨drains.trans next, regular.step valid step, ?_⟩
    have counts : heartbeats (trace ++ [(event, result)]) =
        heartbeats trace + heartbeats [(event, result)] := List.countP_append
    rw [counts, ← Nat.sub_sub]
    exact fewer.trans (Nat.sub_le_sub_right due _)

/-- Three heartbeats without a call of `internal_putchar` in between print what is buffered, once
and in order, and empty all buffers; and the loop over the lines ends wherever it is entered. -/
theorem quiet_output_flushed {config : Config} {earlier trace : List (Event × Unit)}
    {s final : Server} (reached : (machine config).Run (Server.init config) earlier s)
    (within : ∀ b < numStreams, s.used b ≤ outputBufferSize)
    (run : (machine config).Run s trace final)
    (quiet : ∀ step ∈ trace, step.1.isPutchar = false) (three : 3 ≤ heartbeats trace) :
    (∀ before, Passes before (flushLines before)) ∧
    ∀ b, final.pending b = [] ∧ printedFor b final.out = printedFor b s.out ++ s.pending b := by
  have regular : s.Regular := reached.invariant (init_regular config)
    fun _ _ _ _ regular valid step => regular.step valid step
  have wf : s.Wf := by
    intro b
    by_cases stream : b < numStreams
    · exact within b stream
    · rw [regular.behind b (Nat.le_of_not_lt stream)]
      exact Nat.zero_le _
  obtain ⟨drains, regular', due⟩ := quiet_run wf regular run quiet
  have none : final.heartbeatsDue = 0 := by
    have most := heartbeatsDue_le s
    omega
  refine ⟨flushLines_pass, fun b => ?_⟩
  have empty : final.pending b = [] := by
    rw [pending_eq_nil_iff]
    by_cases stream : b < numStreams
    · exact (heartbeatsDue_eq_zero_iff final).mp none b stream
    · exact regular'.behind b (Nat.le_of_not_lt stream)
  have total := drains.view.total b
  rw [View.total, View.total, view_pending, empty, List.append_nil] at total
  exact ⟨empty, total⟩

theorem quiet_output_flushed_greeting : ∃ trace, ∃ s final : Server,
    (machine lone).Run (Server.init lone) trace s ∧ s.pending 0 = [104] ∧
    printedFor 0 final.out = printedFor 0 s.out ++ [104] := by
  have first : (machine lone).Run (Server.init lone) [] _ := .start
  have reached := first.on (.putchar 0 104) (by decide : 0 < numStreams) rfl
  have silent : (machine lone).Run (internalPutchar (Server.init lone) 0 104) [] _ := .start
  have run := ((silent.on .timer trivial rfl).on .timer trivial rfl).on .timer trivial rfl
  have within : ∀ b < numStreams,
      (internalPutchar (Server.init lone) 0 104).used b ≤ outputBufferSize := by decide
  have flushed := quiet_output_flushed reached within run (by simp [Event.isPutchar]) (by decide)
  exact ⟨_, _, _, reached, rfl, (flushed.2 0).2⟩

end GlobalComponents.SerialServer
