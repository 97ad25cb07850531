import GlobalComponents.SerialServer.Display
import GlobalComponents.SerialServer.Streams

/-! No output is lost, duplicated or reordered: what a stream was sent is what was printed for it,
followed by what is still in its buffer. -/

set_option autoImplicit false

namespace GlobalComponents.SerialServer

open Library Library.Window

def View.append (v : View) (b : Nat) (c : UInt8) : View :=
  { v with pending := Function.update v.pending b (v.pending b ++ [c]) }

theorem store_becomes {s : Server} (wf : s.Wf) {b : Nat} (room : s.used b < outputBufferSize)
    (c : Int) : (s.store b c).Becomes (s.view.append b (UInt8.ofInt c)) := by
  constructor
  · intro i
    rcases eq_or_ne i b with rfl | other
    · simpa [Server.store, Nat.succ_le_iff] using room
    · simpa [Server.store, other] using wf i
  · simp only [Server.view, View.append, View.mk.injEq]
    refine ⟨?_, rfl⟩
    funext i
    rcases eq_or_ne i b with rfl | other
    · simp only [Server.pending, Server.store, Function.update_self, window_push]
    · have mine := wf i
      simp only [Server.pending, Server.store, Function.update_of_ne other]
      apply window_update_of_outside
      unfold row outputBufferSize at *
      omega

theorem flushPrevious_drains {s : Server} (wf : s.Wf) : s.Drains (flushPrevious s) := by
  unfold flushPrevious
  split
  · exact (flushBufferLine_becomes wf _).2.drains
  · exact wf.drains

theorem flushOthers_drains {s : Server} (wf : s.Wf) (b : Nat) : s.Drains (flushOthers s b) := by
  unfold flushOthers
  split
  · exact flushBuffers_drain wf _
  · exact wf.drains

theorem flushFull_drains {s : Server} (wf : s.Wf) (b : Nat) : s.Drains (flushFull s b) := by
  have line := flushPrevious_drains wf
  have lines := (flushLines_flushed line.wf).1.drains
  have others := flushOthers_drains lines.wf b
  exact ((line.trans lines).trans others).trans (setColour_drains others.wf b)

theorem coalesceIfMulti_drains {s : Server} (wf : s.Wf) : s.Drains (coalesceIfMulti s).1 := by
  unfold coalesceIfMulti
  split
  · exact tryCoalesceOutput_drains wf
  · exact wf.drains

theorem flushStored_drains {s : Server} (wf : s.Wf) (b index : Nat) (status : Int) :
    s.Drains (flushStored s b index status) := by
  unfold flushStored
  dsimp only
  split
  · exact flushFull_drains wf b
  · split
    · exact (flushBuffer_becomes wf b).drains
    · exact ⟨wf, .refl _⟩

/-- What `internal_putchar` does with a state that has already got the byte. -/
theorem internalPutchar_drains {s : Server} {b : Nat} {c : Int} (wf : (s.store b c).Wf) :
    (s.store b c).Drains (internalPutchar s b c) := by
  have coalesced := coalesceIfMulti_drains wf
  have flushed := flushStored_drains coalesced.wf b (s.used b) (coalesceIfMulti (s.store b c)).2
  exact ⟨flushed.wf, coalesced.view.trans flushed.view⟩

theorem timerCallback_drains {s : Server} (wf : s.Wf) : s.Drains (timerCallback s) := by
  unfold timerCallback
  have lines := (flushLines_flushed wf).1.drains
  split
  · exact ⟨wf, .refl _⟩
  · split
    · dsimp only
      split
      · exact lines
      · exact lines.trans (flushBuffers_drain lines.wf _)
    · exact wf.drains

structure Server.Quiet (s s' : Server) : Prop where
  outputBuffers : s'.outputBuffers = s.outputBuffers
  used : s'.used = s.used
  printed : ∀ i, printedFor i s'.out = printedFor i s.out

theorem Server.Quiet.refl (s : Server) : s.Quiet s := ⟨rfl, rfl, fun _ => rfl⟩

theorem Server.Quiet.trans {s s' s'' : Server} (first : s.Quiet s') (second : s'.Quiet s'') :
    s.Quiet s'' :=
  ⟨second.outputBuffers.trans first.outputBuffers, second.used.trans first.used,
    fun i => (second.printed i).trans (first.printed i)⟩

theorem Server.Quiet.drains {s s' : Server} (quiet : s.Quiet s') (wf : s.Wf) : s.Drains s' := by
  have same : s'.view = s.view := by
    have pending : s'.pending = s.pending := by
      funext b
      simp only [Server.pending, quiet.outputBuffers, quiet.used]
    simp only [Server.view, pending, quiet.printed]
  refine ⟨fun i => ?_, ?_⟩
  · rw [quiet.used]
    exact wf i
  · rw [same]
    exact .refl _

theorem plain_printedFor (i : Nat) {tokens : List Output}
    (plain : tokens.all Output.plain = true) : printedFor i tokens = [] := by
  refine List.filterMap_eq_nil_iff.mpr fun token member => ?_
  have silent := List.all_eq_true.mp plain token member
  match token with
  | .text _ | .byte [] _ => simp
  | .reset | .colour _ | .byte (_ :: _) _ => simp [Output.plain] at silent

theorem handleChar_quiet {config : Config} {s s' : Server} {c : UInt8}
    (handled : handleChar config s c = some s') : s.Quiet s' := by
  have outcome := handleChar_handled handled
  generalize after : s'.display = d at outcome
  cases outcome with
  | same =>
    exact ⟨congrArg Display.outputBuffers after, congrArg Display.used after, fun i =>
      congrArg (printedFor i) (congrArg Display.out after)⟩
  | announced plain =>
    refine ⟨congrArg Display.outputBuffers after, congrArg Display.used after, fun i => ?_⟩
    have out : s'.out = s.out ++ _ := congrArg Display.out after
    rw [out, printedFor_append]
    exact (congrArg _ (plain_printedFor i plain)).trans (List.append_nil _)

/-! ## Runs -/

/-- The bytes passed to `internal_putchar` for stream `b`. -/
def sent (b : Nat) (trace : List (Event × Unit)) : List UInt8 :=
  trace.filterMap fun
    | (.putchar b' c, _) => if b' = b then some (UInt8.ofInt c) else none
    | _ => none

/-- No byte comes for a full buffer. -/
def Server.Fits (s : Server) : Event → Prop
  | .putchar b _ => s.used b ≠ outputBufferSize
  | .timer | .input _ | .share _ _ => True

theorem sent_append (b : Nat) (trace : List (Event × Unit)) (event : Event) (result : Unit) :
    sent b (trace ++ [(event, result)]) = sent b trace ++ sent b [(event, result)] :=
  List.filterMap_append ..

/-- Each stream grows by what it was sent in this step. -/
theorem step_total {config : Config} {s s' : Server} {event : Event} {result : Unit} (wf : s.Wf)
    (fits : s.Fits event) (step : (machine config).step s event = some (s', result)) :
    s'.Wf ∧ ∀ b, s'.view.total b = s.view.total b ++ sent b [(event, result)] := by
  have quiet : ∀ {after : Server}, s.Drains after →
      after.Wf ∧ ∀ b, after.view.total b = s.view.total b ++ [] := fun drains =>
    ⟨drains.wf, fun b => by rw [drains.view.total b, List.append_nil]⟩
  obtain ⟨after, stepped, same⟩ := Option.map_eq_some_iff.mp step
  cases same
  cases event with
  | putchar b c =>
    obtain rfl := putchar_step stepped
    have room : s.used b < outputBufferSize := Nat.lt_of_le_of_ne (wf b) fits
    have stored := store_becomes wf room c
    have drains := internalPutchar_drains stored.wf
    refine ⟨drains.wf, fun i => ?_⟩
    rw [drains.view.total, stored.view]
    simp only [View.total, View.append]
    rcases eq_or_ne i b with rfl | other
    · simp [sent]
    · simp [sent, other, other.symm]
  | timer =>
    cases stepped
    exact quiet (timerCallback_drains wf)
  | input c => exact quiet ((handleChar_quiet stepped).drains wf)
  | share id buf =>
    cases stepped
    exact quiet ⟨wf, .refl _⟩

/-- `s'` is `s` after one copy of a common front of all streams in use was printed and removed from
each of them, or after some debug output. -/
def Server.Coalesced (s s' : Server) : Prop :=
  (s'.pending = s.pending ∧
    ∃ tokens, s'.out = s.out ++ tokens ∧ ∀ i, printedFor i tokens = []) ∨
  ∃ front reset, front ≠ [] ∧ reset.Sublist [Output.reset] ∧
    s'.out = s.out ++ reset ++ front.map (.byte s.view.inUse) ∧
    ∀ i, s.pending i = (if i ∈ s.view.inUse then front else []) ++ s'.pending i

theorem tryCoalesceOutput_coalesced {s : Server} (wf : s.Wf) :
    s.Coalesced (tryCoalesceOutput s).1 := by
  cases common : s.view.coalescible with
  | none =>
    obtain ⟨_, tokens, printed, silent⟩ := tryCoalesceOutput_of_none common
    rw [printed]
    exact .inl ⟨rfl, tokens, rfl, silent⟩
  | some n =>
    obtain ⟨first, member, coalesced⟩ := tryCoalesceOutput_of_some common
    obtain ⟨positive, _, front⟩ := coalescible_front common
    have fronts : ∀ i ∈ s.view.inUse,
        n ≤ s.used i ∧ (s.pending i).take n = (s.pending first).take n := fun i used =>
      ⟨by simpa using (front i used).1, (front i used).2 first member⟩
    obtain ⟨becomes, reset, colour, out⟩ :=
      printCommon_becomes wf (inUse_nodup _) member fronts
    rw [coalesced]
    refine .inr ⟨_, reset, ?_, colour, out, fun i => ?_⟩
    · have within := (fronts first member).1
      rw [ne_eq, ← List.length_eq_zero_iff, List.length_take, pending_length]
      omega
    · have left := congrFun (congrArg View.pending becomes.view) i
      simp only [view_pending, View.emit] at left
      rw [left]
      split
      · next used => rw [← (fronts i used).2, List.take_append_drop]
      · rfl

/-- The invariant: each stream's bytes are exactly those it was sent. -/
def Accounted (trace : List (Event × Unit)) (s : Server) : Prop :=
  s.Wf ∧ ∀ b, s.view.total b = sent b trace

theorem init_wf (config : Config) : (Server.init config).Wf := fun _ => Nat.zero_le _

/-- What a stream was sent is what was printed for it, in order, followed by what its buffer holds;
and the call that coalesces, made once the byte is stored, prints one copy of a common front or
changes nothing. -/
theorem output_in_order {config : Config} {trace : List (Event × Unit)} {s : Server}
    (run : (machine config).Run (Server.init config) trace s)
    (fits : (machine config).EveryStep (Server.init config) trace Server.Fits) :
    (∀ b, sent b trace = printedFor b s.out ++ s.pending b) ∧
    ∀ b c, s.used b < outputBufferSize →
      (s.store b c).Coalesced (tryCoalesceOutput (s.store b c)).1 := by
  have accounted : Accounted trace s := by
    refine fits.history run ⟨init_wf config, fun b => rfl⟩ ?_
    rintro trace before event after result ⟨wf, totals⟩ _ fits step
    obtain ⟨wf', grown⟩ := step_total wf fits step
    exact ⟨wf', fun b => by rw [grown, totals, sent_append]⟩
  refine ⟨fun b => (accounted.2 b).symm, fun b c room => ?_⟩
  exact tryCoalesceOutput_coalesced (store_becomes accounted.1 room c).wf

def lone : Config where
  hasGetchar := true
  numGetcharClients := 1
  badge := fun _ => 1
  getcharBuf := fun _ => ⟨0, 0, fun _ => 0⟩
  debugBuild := false
  charIsSigned := true

instance (s : Server) : (event : Event) → Decidable (s.Fits event)
  | .putchar b _ => inferInstanceAs (Decidable (s.used b ≠ outputBufferSize))
  | .timer | .input _ | .share _ _ => inferInstanceAs (Decidable True)

instance : (event : Event) → Decidable event.valid
  | .putchar b _ => inferInstanceAs (Decidable (b < numStreams))
  | .timer | .input _ | .share _ _ => inferInstanceAs (Decidable True)

/-- In multi-client mode two streams are sent the same letter; then the first of them ends its line. -/
def sharedLetter (b : Nat) : List Event :=
  [.input escapeChar, .input 109, .putchar 0 97, .putchar b 97, .putchar 0 13, .putchar 0 10, .timer]

theorem sharedLetter_run (b : Nat) (meets : Server → Event → Prop)
    [∀ s event, Decidable (meets s event)] (outcome : Server → Bool)
    (done : ((machine lone).exec (fun s event => decide event.valid && decide (meets s event)) []
      (Server.init lone) (sharedLetter b)).any (fun result => outcome result.2) = true) :
    ∃ trace s, (machine lone).Run (Server.init lone) trace s ∧
      trace.map Prod.fst = sharedLetter b ∧ outcome s = true ∧
      (machine lone).EveryStep (Server.init lone) trace meets := by
  obtain ⟨⟨trace, s⟩, done, reached⟩ := (Option.any_eq_true _ _).mp done
  obtain ⟨run, met, events⟩ := Machine.exec_run (fun s event checked => by
    rw [Bool.and_eq_true, decide_eq_true_eq, decide_eq_true_eq] at checked
    exact checked) .start .start done
  exact ⟨trace, s, run, events, reached, met⟩

/-- What the terminal shows behind the announcement of multi-client mode. -/
def sharedOutput (b : Nat) : List Output :=
  [.byte [0, b] 97, .reset, .colour (outputColour 0), .byte [0] 13, .byte [0] 10]

theorem output_in_order_shared : ∃ trace s,
    (machine lone).Run (Server.init lone) trace s ∧ trace.map Prod.fst = sharedLetter 11 ∧
    s.out.drop 2 = sharedOutput 11 ∧
    (∀ b, sent b trace = printedFor b s.out ++ s.pending b) ∧
    ∀ b c, s.used b < outputBufferSize →
      (s.store b c).Coalesced (tryCoalesceOutput (s.store b c)).1 := by
  obtain ⟨trace, s, run, events, printed, fits⟩ :=
    sharedLetter_run 11 Server.Fits (fun s => s.out.drop 2 = sharedOutput 11) (by decide +kernel)
  exact ⟨trace, s, run, events, of_decide_eq_true printed, output_in_order run fits⟩

end GlobalComponents.SerialServer
