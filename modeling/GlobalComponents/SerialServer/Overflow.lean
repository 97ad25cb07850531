import GlobalComponents.SerialServer.History

/-! When a stream's buffer overflows.

The branch for a full buffer prints all lines and then flushes the buffers of all streams but the
one that is full. So a full buffer stays full unless it contains a newline or was coalesced before.
-/

set_option autoImplicit false

namespace GlobalComponents.SerialServer

open Library Library.Window

/-- Every stream has room for one more byte. -/
def Server.HasRoom (s : Server) : Prop := ∀ b, s.used b < outputBufferSize

/-- A byte that fills its buffer meets a newline there, or is itself one, or the streams have a
common front to coalesce. -/
def Server.LeavesRoom (s : Server) : Event → Prop
  | .putchar b c => s.used b + 1 = outputBufferSize →
    (∃ x ∈ s.pending b ++ [UInt8.ofInt c], View.endOfLine x = true) ∨
      s.activeClient = none ∧ (s.view.append b (UInt8.ofInt c)).coalescible.isSome
  | .timer | .input _ | .share _ _ => True

theorem Server.HasRoom.wf {s : Server} (room : s.HasRoom) : s.Wf := fun b => (room b).le

theorem Server.HasRoom.drains {s s' : Server} (room : s.HasRoom) (drains : s.Drains s') :
    s'.HasRoom := fun b => (drains.used b).trans_lt (room b)

/-! ## A stream without a newline -/

theorem flushBufferLine_keeps {s : Server} (wf : s.Wf) {b : Nat}
    (none : View.firstLine (s.pending b) = none) (i : Nat) :
    (flushBufferLine s i).1.pending b = s.pending b := by
  have after := congrFun (congrArg View.pending (flushBufferLine_becomes wf i).2.view) b
  simp only [view_pending, View.emit, List.mem_singleton] at after
  rw [after]
  split
  · next same =>
    subst same
    rw [none, Option.getD_none, List.drop_zero]
  · rfl

theorem flushNexts_keep {s : Server} (wf : s.Wf) {b : Nat}
    (none : View.firstLine (s.pending b) = none) (streams : List Nat) :
    (streams.foldl flushNext (s, false)).1.pending b = s.pending b := by
  -- a stream without a line is passed over, whatever the other streams print
  induction streams using List.reverseRecOn with
  | nil => rfl
  | append_singleton streams i ih =>
    rw [List.foldl_append, ← ih]
    refine flushBufferLine_keeps (flushNexts_flushed wf streams).drains.wf ?_ i
    rw [ih, none]

theorem flushPasses_keep {s : Server} (wf : s.Wf) {b : Nat}
    (none : View.firstLine (s.pending b) = none) (fuel : Nat) :
    (flushPasses fuel s).1.pending b = s.pending b := by
  induction fuel generalizing s with
  | zero => rfl
  | succ fuel ih =>
    have pass := flushNexts_keep wf none (List.range numStreams)
    have wf' := (flushPass_flushed wf).drains.wf
    simp only [flushPasses]
    change (flushPass s).1.pending b = s.pending b at pass
    generalize flushPass s = after at pass wf' ⊢
    split
    · rw [ih wf' (by rw [pass, none]), pass]
    · exact pass

theorem flushLines_keeps {s : Server} (wf : s.Wf) {b : Nat}
    (none : View.firstLine (s.pending b) = none) :
    (flushLines s).1.pending b = s.pending b := flushPasses_keep wf none _

theorem flushPrevious_keeps {s : Server} (wf : s.Wf) {b : Nat}
    (none : View.firstLine (s.pending b) = none) :
    (flushPrevious s).pending b = s.pending b := by
  unfold flushPrevious
  split
  · exact flushBufferLine_keeps wf none _
  · rfl

theorem flushBuffers_keep {s : Server} (wf : s.Wf) {b : Nat} {streams : List Nat}
    (other : b ∉ streams) : (streams.foldl flushBuffer s).pending b = s.pending b := by
  induction streams generalizing s with
  | nil => rfl
  | cons i rest ih =>
    have becomes := flushBuffer_becomes wf i
    have different : b ≠ i := fun same => other (same ▸ List.mem_cons_self ..)
    have after := congrFun (congrArg View.pending becomes.view) b
    rw [List.foldl_cons, ih becomes.wf fun later => other (List.mem_cons_of_mem i later)]
    simpa [View.emit, different] using after

theorem flushOthers_keeps {s : Server} (wf : s.Wf) (b : Nat) :
    (flushOthers s b).pending b = s.pending b := by
  unfold flushOthers
  split
  · exact flushBuffers_keep wf (by simp)
  · rfl

theorem used_congr {s s' : Server} {b : Nat} (same : s'.pending b = s.pending b) :
    s'.used b = s.used b := by
  rw [← pending_length, ← pending_length, same]

/-- A full buffer gets room exactly when it contains a line. -/
theorem flushFull_used_iff {s : Server} (wf : s.Wf) {b : Nat} (stream : b < numStreams)
    (full : s.used b = outputBufferSize) :
    (flushFull s b).used b < outputBufferSize ↔ View.firstLine (s.pending b) ≠ none := by
  have line := flushPrevious_drains wf
  obtain ⟨flushed, lineless⟩ := flushLines_flushed line.wf
  have lines := line.trans flushed.drains
  have kept : View.firstLine (s.pending b) = none →
      (flushLines (flushPrevious s)).1.pending b = s.pending b := by
    intro none
    have first := flushPrevious_keeps wf none
    exact (flushLines_keeps line.wf (first ▸ none)).trans first
  replace lineless := lineless b stream
  unfold flushFull
  generalize (flushLines (flushPrevious s)).1 = after at lines lineless kept ⊢
  have others := flushOthers_keeps lines.wf b
  have used : ((flushOthers after b).setColour b).used b = after.used b := by
    rw [(setColour_outputBuffers _ b).2.1, used_congr others]
  rw [used]
  constructor
  · intro room none
    rw [used_congr (kept none), full] at room
    exact Nat.lt_irrefl _ room
  · intro some
    refine Nat.lt_of_le_of_ne (lines.wf b) fun still => some ?_
    -- As long as before, the buffer would hold the same bytes, but no line is left in it.
    have same : after.pending b = s.pending b :=
      (lines.view.pending b).eq_of_length (by simp [still, full])
    rw [← same]
    exact lineless

theorem lines_iff (bytes : List UInt8) :
    View.firstLine bytes ≠ none ↔ ∃ x ∈ bytes, View.endOfLine x = true := by
  simp [firstLine_eq_none_iff]

/-! ## One call -/

/-- Coalescing makes room, or leaves all streams as they are. -/
theorem coalesceIfMulti_cases {s : Server} (wf : s.Wf) {b : Nat} (stream : b < numStreams)
    (some : s.used b ≠ 0) :
    ((s.activeClient = none ∧ s.view.coalescible.isSome) ∧
      (coalesceIfMulti s).1.used b < s.used b) ∨
    (¬(s.activeClient = none ∧ s.view.coalescible.isSome) ∧
      ∀ i, (coalesceIfMulti s).1.pending i = s.pending i) := by
  unfold coalesceIfMulti
  by_cases multi : s.activeClient = none
  · rw [if_pos multi]
    have pending := fun i => congrFun (congrArg View.pending (tryCoalesceOutput_becomes wf).1.view) i
    unfold View.coalesce at pending
    cases common : s.view.coalescible with
    | none => exact .inr ⟨by simp, fun i => by simpa [common] using pending i⟩
    | some n =>
      obtain ⟨positive, _, front⟩ := coalescible_front common
      have member : b ∈ s.view.inUse := by
        refine List.mem_filter.mpr ⟨List.mem_range.mpr stream, ?_⟩
        simpa [pending_eq_nil_iff] using some
      have shorter := congrArg List.length (pending b)
      simp only [common, view_pending, View.emit, if_pos member, List.length_drop,
        pending_length] at shorter
      exact .inl ⟨⟨multi, rfl⟩, by omega⟩
  · rw [if_neg multi]
    exact .inr ⟨fun both => multi both.1, fun _ => rfl⟩

theorem putchar_used_iff {s : Server} (room : s.HasRoom) {b : Nat} (stream : b < numStreams)
    (c : Int) :
    (internalPutchar s b c).used b < outputBufferSize ↔ s.LeavesRoom (.putchar b c) := by
  have stored := store_becomes room.wf (room b) c
  have drains := internalPutchar_drains stored.wf
  have count : (s.store b c).used b = s.used b + 1 := by simp [Server.store]
  have bytes : (s.store b c).pending b = s.pending b ++ [UInt8.ofInt c] := by
    have pending := congrFun (congrArg View.pending stored.view) b
    simpa [View.append] using pending
  unfold Server.LeavesRoom
  by_cases fills : s.used b + 1 = outputBufferSize
  · have coalesced := coalesceIfMulti_drains stored.wf
    have finished := flushStored_drains coalesced.wf b (s.used b) (coalesceIfMulti (s.store b c)).2
    rcases coalesceIfMulti_cases stored.wf stream (by omega) with ⟨both, shorter⟩ | ⟨neither, kept⟩
    · refine iff_of_true ?_ fun _ => .inr ?_
      · exact (finished.used b).trans_lt (by omega)
      · rw [← stored.view]
        exact both
    · have full : (coalesceIfMulti (s.store b c)).1.used b = outputBufferSize := by
        rw [used_congr (kept b), count, fills]
      have branch : (internalPutchar s b c).used b =
          (flushFull (coalesceIfMulti (s.store b c)).1 b).used b := by
        simp only [internalPutchar, flushStored, if_pos full]
      rw [branch, flushFull_used_iff coalesced.wf stream full, kept b, lines_iff, bytes]
      rw [stored.view] at neither
      exact ⟨fun newline _ => .inl newline, fun leaves => (leaves fills).resolve_right neither⟩
  · refine iff_of_true ?_ fun fills' => absurd fills' fills
    have := room b
    exact (drains.used b).trans_lt (by omega)

theorem putchar_hasRoom_iff {s : Server} (room : s.HasRoom) {b : Nat} (stream : b < numStreams)
    (c : Int) : (internalPutchar s b c).HasRoom ↔ s.LeavesRoom (.putchar b c) := by
  rw [← putchar_used_iff room stream c]
  refine ⟨fun all => all b, fun own i => ?_⟩
  rcases eq_or_ne i b with rfl | other
  · exact own
  · have drains := internalPutchar_drains (store_becomes room.wf (room b) c).wf
    have before : (s.store b c).used i = s.used i := by simp [Server.store, other]
    exact (drains.used i).trans_lt (before ▸ room i)

/-! ## Runs -/

theorem step_hasRoom_iff {config : Config} {s s' : Server} {event : Event} {result : Unit}
    (room : s.HasRoom) (valid : event.valid)
    (step : (machine config).step s event = some (s', result)) :
    s'.HasRoom ↔ s.LeavesRoom event := by
  obtain ⟨after, stepped, same⟩ := Option.map_eq_some_iff.mp step
  cases same
  cases event with
  | putchar b c =>
    obtain rfl := putchar_step stepped
    exact putchar_hasRoom_iff room valid c
  | timer =>
    cases stepped
    exact iff_of_true (room.drains (timerCallback_drains room.wf)) trivial
  | input c => exact iff_of_true (room.drains ((handleChar_quiet stepped).drains room.wf)) trivial
  | share id buf =>
    cases stepped
    exact iff_of_true room trivial

/-- All along a run every stream has room, so that each byte is stored in its own stream's buffer,
exactly when no step fills a buffer that has no newline and cannot be coalesced. -/
theorem output_buffers_have_room_iff {config : Config} {trace : List (Event × Unit)} {s : Server}
    (run : (machine config).Run (Server.init config) trace s) :
    (machine config).Always (Server.init config) trace Server.HasRoom ↔
      (machine config).EveryStep (Server.init config) trace Server.LeavesRoom := by
  constructor
  · refine Machine.Always.everyStep run ?_
    intro before event after result room valid step room'
    exact (step_hasRoom_iff room valid step).mp room'
  · refine Machine.Always.of_everyStep (fun _ => Nat.zero_lt_succ 4095) ?_
    intro before event after result room valid leaves step
    exact (step_hasRoom_iff room valid step).mpr leaves

/-- Stream 0 has sent `n` times the same letter and nothing was printed. -/
structure Filled (s : Server) (n : Nat) : Prop where
  used : ∀ b, s.used b = if b = 0 then n else 0
  lastOut : s.lastOut = none
  activeClient : s.activeClient = some 0
  bytes : s.pending 0 = List.replicate n 120

theorem Filled.next {s : Server} {n : Nat} (filled : Filled s n) (room : n + 1 < outputBufferSize) :
    Filled (internalPutchar s 0 120) (n + 1) := by
  have here : s.used 0 = n := filled.used 0
  have single : coalesceIfMulti (s.store 0 120) = (s.store 0 120, -1) := by
    simp [coalesceIfMulti, Server.store, filled.activeClient]
  have count : (s.store 0 120).used 0 = n + 1 := by simp [Server.store, here]
  have letter : (s.store 0 120).outputBuffers (row 0 + s.used 0) = 120 := by
    simp only [Server.store, Function.update_self]
    rfl
  have open_ : (s.store 0 120).used 0 ≠ outputBufferSize := by omega
  have quiet : internalPutchar s 0 120 =
      { s.store 0 120 with bitmask := (s.store 0 120).bitmask ||| bit 0, hasData := true } := by
    have colour : (s.store 0 120).lastOut ≠ some 0 := by
      change s.lastOut ≠ some 0
      simp [filled.lastOut]
    have middle : ∀ c : UInt8, isNewline c 120 = false := by
      intro c
      simp [isNewline, carriageReturn, newline]
    simp only [internalPutchar, single, flushStored, if_neg open_, letter, middle, colour,
      Bool.false_eq_true, and_false, false_and, or_false, if_false]
  rw [quiet]
  refine ⟨fun b => ?_, filled.lastOut, filled.activeClient, ?_⟩
  · rcases eq_or_ne b 0 with rfl | other
    · simpa using count
    · simpa [Server.store, other] using filled.used b
  · have wf : s.Wf := by
      intro b
      rw [filled.used]
      split <;> omega
    have stored := store_becomes wf (b := 0) (by omega) 120
    have pending := congrFun (congrArg View.pending stored.view) 0
    change (s.store 0 120).pending 0 = _
    simp only [view_pending, View.append, Function.update_self, filled.bytes] at pending
    rw [pending, List.replicate_succ']
    rfl

theorem Filled.step {s : Server} {n : Nat} (filled : Filled s n) (c : Int)
    (room : n < outputBufferSize) :
    (machine lone).step s (.putchar 0 c) = some (internalPutchar s 0 c, ()) := by
  have within : row 0 + s.used 0 < numStreams * outputBufferSize := by
    have here : s.used 0 = n := filled.used 0
    unfold row numStreams maxClients outputBufferSize at *
    omega
  simp [machine, Server.step, within]

theorem filled_run {n : Nat} (room : n < outputBufferSize) : ∃ trace s,
    (machine lone).Run (Server.init lone) trace s ∧ Filled s n ∧
      (machine lone).EveryStep (Server.init lone) trace Server.LeavesRoom := by
  induction n with
  | zero => exact ⟨[], _, .start, ⟨fun b => by simp [Server.init], rfl, rfl, rfl⟩, .start⟩
  | succ n ih =>
    obtain ⟨trace, s, run, filled, leaves⟩ := ih (by omega)
    have step := filled.step 120 (Nat.lt_of_succ_lt room)
    refine ⟨_, _, run.on (.putchar 0 120) (by decide : 0 < numStreams) step, filled.next room,
      leaves.next run fun full => ?_⟩
    have here : s.used 0 = n := filled.used 0
    omega

/-- The byte that fills the buffer ends the line, and the buffer is emptied. -/
theorem output_buffers_have_room_iff_newline : ∃ trace before s,
    (machine lone).Run (Server.init lone) trace before ∧ before.used 0 + 1 = outputBufferSize ∧
    (machine lone).Run (Server.init lone) (trace ++ [(.putchar 0 10, ())]) s ∧
    (machine lone).Always (Server.init lone) (trace ++ [(.putchar 0 10, ())]) Server.HasRoom := by
  obtain ⟨trace, before, run, filled, leaves⟩ := filled_run (Nat.lt_succ_self 4095)
  have full : before.used 0 + 1 = outputBufferSize := congrArg (· + 1) (filled.used 0)
  have ended := run.on (.putchar 0 10) (by decide : 0 < numStreams) (filled.step _ (by decide))
  refine ⟨trace, before, _, run, full, ended, (output_buffers_have_room_iff ended).mpr ?_⟩
  exact leaves.next run fun _ => .inl ⟨10, List.mem_append_right _ (List.mem_singleton.mpr rfl), rfl⟩

/-- The byte 4096 of a line stays in the buffer, and the next one is stored in the buffer of stream
1. -/
theorem long_line_overflows : ∃ trace s,
    (machine lone).Run (Server.init lone) trace s ∧
    (machine lone).allowed s (.putchar 0 120) ∧ row 0 + s.used 0 = row 1 := by
  obtain ⟨trace, s, run, filled, _⟩ := filled_run (Nat.lt_succ_self 4095)
  have here : s.used 0 = 4095 := filled.used 0
  have room : s.HasRoom := by
    intro b
    rw [filled.used]
    unfold outputBufferSize
    split <;> omega
  have stream : 0 < numStreams := by decide
  have stays : ¬s.LeavesRoom (.putchar 0 120) := by
    intro leaves
    rcases leaves (by rw [here]; rfl) with ⟨x, member, ends⟩ | ⟨multi, _⟩
    · rw [filled.bytes] at member
      have letter : x = 120 := by
        rcases List.mem_append.mp member with earlier | last
        · exact List.eq_of_mem_replicate earlier
        · exact List.mem_singleton.mp last
      subst letter
      exact absurd ends (by decide)
    · simp [filled.activeClient] at multi
  have full := mt (putchar_used_iff room stream 120).mp stays
  have wf := (internalPutchar_drains (store_becomes room.wf (room 0) 120).wf).wf 0
  have step := filled.step 120 (Nat.lt_succ_self 4095)
  refine ⟨_, _, run.on (.putchar 0 120) stream step, stream, ?_⟩
  unfold row outputBufferSize at *
  omega

end GlobalComponents.SerialServer
