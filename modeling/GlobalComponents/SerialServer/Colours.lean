import GlobalComponents.SerialServer.Levels

/-! Whose output is on the terminal: the bytes of a stream are printed in the stream's own colours.

`last_out` remembers the colours that the terminal is in. What a client prints itself is not looked
into.
-/

set_option autoImplicit false

namespace GlobalComponents.SerialServer

open Library Library.Window

def Output.paint (colour : Option (List Ansi)) : Output → Option (List Ansi)
  | .reset => none
  | .colour entry => entry
  | .byte _ _ | .text _ => colour

/-- The colour sequence that the terminal was sent last, unless it was reset since. -/
def terminalColour (tokens : List Output) : Option (List Ansi) := tokens.foldl Output.paint none

/-- The colours of stream `b`, which are no other stream's. -/
def Own (b : Nat) (colour : Option (List Ansi)) : Prop :=
  ∃ entry, outputColour b = some entry ∧ colour = some entry ∧
    ∀ other < numStreams, other ≠ b → outputColour other ≠ some entry

/-- A byte of one stream belongs into the stream's colours, a byte of several streams into none. -/
def Output.Fits (colour : Option (List Ansi)) : Output → Prop
  | .byte [b] _ => Own b colour
  | .byte (_ :: _ :: _) _ => colour = none
  | .byte [] _ | .text _ | .reset | .colour _ => True

def Attributed (tokens : List Output) : Prop :=
  ∀ before token, before ++ [token] <+: tokens → token.Fits (terminalColour before)

/-- `last_out` tells the colours that the terminal is in. -/
def Server.Shows (s : Server) : Prop :=
  match s.lastOut with
  | some b => Own b (terminalColour s.out)
  | none => terminalColour s.out = none

/-! ## Tokens -/

theorem terminalColour_append (before after : List Output) :
    terminalColour (before ++ after) = after.foldl Output.paint (terminalColour before) :=
  List.foldl_append

theorem terminalColour_bytes (before : List Output) (streams : List Nat) (bytes : List UInt8) :
    terminalColour (before ++ bytes.map (.byte streams)) = terminalColour before := by
  rw [terminalColour_append]
  induction bytes with
  | nil => rfl
  | cons c rest ih => exact ih

theorem terminalColour_plain (before : List Output) {tokens : List Output}
    (plain : tokens.all Output.plain = true) :
    terminalColour (before ++ tokens) = terminalColour before := by
  rw [terminalColour_append]
  induction tokens with
  | nil => rfl
  | cons token rest ih =>
    rw [List.all_cons, Bool.and_eq_true] at plain
    rw [List.foldl_cons]
    match token with
    | .text _ | .byte [] _ => exact ih plain.2
    | .reset | .colour _ | .byte (_ :: _) _ => cases plain.1

theorem Attributed.nil : Attributed [] := by
  rintro before token ⟨rest, whole⟩
  simp at whole

theorem Attributed.concat {tokens : List Output} (attributed : Attributed tokens) {token : Output}
    (fits : token.Fits (terminalColour tokens)) : Attributed (tokens ++ [token]) := by
  intro before last within
  rcases List.prefix_concat_iff.mp within with whole | earlier
  · obtain ⟨rfl, same⟩ := List.append_inj' whole rfl
    cases same
    exact fits
  · exact attributed before last earlier

theorem Attributed.bytes {tokens : List Output} (attributed : Attributed tokens)
    {streams : List Nat} (bytes : List UInt8)
    (fits : ∀ c, (Output.byte streams c).Fits (terminalColour tokens)) :
    Attributed (tokens ++ bytes.map (.byte streams)) := by
  -- from the last byte back, since bytes do not change the colour of the terminal
  induction bytes using List.reverseRecOn with
  | nil => simpa using attributed
  | append_singleton bytes c ih =>
    rw [List.map_append, ← List.append_assoc]
    apply ih.concat
    rw [terminalColour_bytes]
    exact fits c

theorem Attributed.plain {before tokens : List Output} (attributed : Attributed before)
    (plain : tokens.all Output.plain = true) : Attributed (before ++ tokens) := by
  induction tokens using List.reverseRecOn with
  | nil => simpa using attributed
  | append_singleton tokens token ih =>
    rw [List.all_append, Bool.and_eq_true] at plain
    rw [← List.append_assoc]
    apply (ih plain.1).concat
    have last := plain.2
    match token with
    | .text _ | .byte [] _ => trivial
    | .reset | .colour _ | .byte (_ :: _) _ => cases last

/-! ## Colours -/

theorem outputColour_inj : ∀ b < numStreams, (outputColour b).isSome = true →
    ∀ other < numStreams, outputColour other = outputColour b → other = b := by
  decide +kernel

/-- The streams that the table has colours for. -/
def Coloured (b : Nat) : Prop := b ≠ 11 ∧ b ≠ 22 ∧ b ≠ 23

instance (b : Nat) : Decidable (Coloured b) := inferInstanceAs (Decidable (_ ∧ _))

theorem own_iff {b : Nat} (stream : b < numStreams) : Own b (outputColour b) ↔ Coloured b := by
  have defined : ∀ b < numStreams, (outputColour b).isSome = true ↔ Coloured b := by decide +kernel
  rw [← defined b stream]
  constructor
  · rintro ⟨entry, found, _⟩
    rw [found]
    rfl
  · intro some
    obtain ⟨entry, found⟩ := Option.isSome_iff_exists.mp some
    refine ⟨entry, found, found, fun other stream' different same => different ?_⟩
    exact outputColour_inj b stream some other stream' (same.trans found.symm)

theorem Own.coloured {b : Nat} {colour : Option (List Ansi)} (own : Own b colour)
    (stream : b < numStreams) : Coloured b := by
  obtain ⟨entry, found, _, others⟩ := own
  exact (own_iff stream).mp ⟨entry, found, found, others⟩

/-! ## When colours are needed -/

/-- Each item of the list meets the condition in the state in which its turn comes. -/
def Along {State Item : Type} (step : State → Item → State) (meets : State → Item → Prop) :
    List Item → State → Prop
  | [], _ => True
  | i :: rest, s => meets s i ∧ Along step meets rest (step s i)

instance Along.decidable {State Item : Type} {step : State → Item → State}
    {meets : State → Item → Prop} [∀ s i, Decidable (meets s i)] :
    ∀ items s, Decidable (Along step meets items s)
  | [], _ => inferInstanceAs (Decidable True)
  | i :: rest, s =>
    have : Decidable (Along step meets rest (step s i)) := Along.decidable rest (step s i)
    inferInstanceAs (Decidable (meets s i ∧ Along step meets rest (step s i)))

namespace Server

/-- `flush_buffer` prints a byte only if the stream has colours. -/
def BufferColoured (s : Server) (b : Nat) : Prop := s.used b ≠ 0 → Coloured b

def LineColoured (s : Server) (b : Nat) : Prop := (s.lineLength b).isSome = true → Coloured b

def BuffersColoured (s : Server) (streams : List Nat) : Prop :=
  Along flushBuffer BufferColoured streams s

def PassColoured (s : Server) : Prop :=
  Along (fun s i => (flushBufferLine s i).1) LineColoured (List.range numStreams) s

def PassesColoured : Nat → Server → Prop
  | 0, _ => True
  | fuel + 1, s => s.PassColoured ∧ ((flushPass s).2 = true → PassesColoured fuel (flushPass s).1)

def LinesColoured (s : Server) : Prop := PassesColoured (s.buffered + 1) s

/-- The branch for a buffer without room: its stream's colours are set back at the end. -/
def FullColoured (s : Server) (b : Nat) : Prop :=
  let lines := (flushLines (flushPrevious s)).1
  (flushPrevious s).LinesColoured ∧
    (lines.used b = outputBufferSize →
      lines.BuffersColoured ((List.range numStreams).filter (· ≠ b))) ∧
    Coloured b

def StoredColoured (s : Server) (b index : Nat) (coalesceStatus : Int) : Prop :=
  let ended := index ≥ 1 ∧
    isNewline (s.outputBuffers (row b + index - 1)) (s.outputBuffers (row b + index))
  if s.used b = outputBufferSize then s.FullColoured b
  else if (ended ∧ coalesceStatus = -1) ∨
      (s.lastOut = some b ∧ s.bitmask = 0 ∧ coalesceStatus = -1) then s.BufferColoured b
  else True

/-- Whatever is flushed in this step belongs to streams that have colours. What is coalesced needs
none. -/
def FlushesColoured (s : Server) : Event → Prop
  | .putchar b c =>
    let (after, coalesceStatus) := coalesceIfMulti (s.store b c)
    after.StoredColoured b (s.used b) coalesceStatus
  | .timer =>
    s.doneOutput = false → s.hasData = true →
      s.LinesColoured ∧ ((flushLines s).2 = false →
        (flushLines s).1.BuffersColoured (List.range numStreams))
  | .input _ | .share _ _ => True

instance (s : Server) (b : Nat) : Decidable (s.BufferColoured b) :=
  inferInstanceAs (Decidable (_ → _))

instance (s : Server) (b : Nat) : Decidable (s.LineColoured b) :=
  inferInstanceAs (Decidable (_ → _))

instance (s : Server) (streams : List Nat) : Decidable (s.BuffersColoured streams) :=
  inferInstanceAs (Decidable (Along _ _ _ _))

instance (s : Server) : Decidable s.PassColoured := inferInstanceAs (Decidable (Along _ _ _ _))

instance PassesColoured.decidable : ∀ fuel (s : Server), Decidable (s.PassesColoured fuel)
  | 0, _ => inferInstanceAs (Decidable True)
  | fuel + 1, s =>
    have := PassesColoured.decidable fuel (flushPass s).1
    inferInstanceAs (Decidable (_ ∧ (_ → _)))

instance (s : Server) : Decidable s.LinesColoured := PassesColoured.decidable _ s

instance (s : Server) (b : Nat) : Decidable (s.FullColoured b) :=
  inferInstanceAs (Decidable (_ ∧ (_ → _) ∧ _))

instance (s : Server) (b index : Nat) (status : Int) : Decidable (s.StoredColoured b index status) :=
  inferInstanceAs (Decidable (ite _ _ (ite _ _ _)))

instance (s : Server) : ∀ event, Decidable (s.FlushesColoured event)
  | .putchar b c =>
    inferInstanceAs (Decidable ((coalesceIfMulti (s.store b c)).1.StoredColoured b (s.used b)
      (coalesceIfMulti (s.store b c)).2))
  | .timer => inferInstanceAs (Decidable (_ → _ → _ ∧ (_ → _)))
  | .input _ | .share _ _ => inferInstanceAs (Decidable True)

end Server

/-! ## Steps -/

structure Server.Attributable (s : Server) : Prop where
  bytes : Attributed s.out
  shows : s.Shows

theorem Server.Attributable.frame {s s' : Server} (attributable : s.Attributable)
    (out : s'.out = s.out) (lastOut : s'.lastOut = s.lastOut) : s'.Attributable := by
  refine ⟨out ▸ attributable.bytes, ?_⟩
  have shows := attributable.shows
  unfold Server.Shows at shows ⊢
  rwa [out, lastOut]

theorem Own.of_lastOut {s : Server} {b : Nat} (shows : s.Shows) (last : s.lastOut = some b) :
    Own b (terminalColour s.out) := by
  rw [Server.Shows, last] at shows
  exact shows

theorem Server.Attributable.own {s : Server} (attributable : s.Attributable) {b : Nat}
    (last : s.lastOut = some b) : Own b (outputColour b) := by
  obtain ⟨entry, found, _, others⟩ := Own.of_lastOut attributable.shows last
  exact ⟨entry, found, found, others⟩

theorem Server.Attributable.setColour {s : Server} (attributable : s.Attributable) {b : Nat}
    (own : Own b (outputColour b)) : (s.setColour b).Attributable := by
  unfold Server.setColour
  split
  · exact attributable
  · refine ⟨?_, ?_⟩
    · have reset : Attributed (s.out ++ [.reset]) := attributable.bytes.concat trivial
      have coloured : Attributed (s.out ++ [.reset] ++ [.colour (outputColour b)]) :=
        reset.concat trivial
      rwa [List.append_assoc] at coloured
    · simp only [Server.Shows, Server.print, terminalColour_append]
      exact own

theorem setColour_lastOut (s : Server) (b : Nat) : (s.setColour b).lastOut = some b := by
  unfold Server.setColour
  split
  · next last => exact last
  · rfl

theorem setColour_grows (s : Server) (b : Nat) : s.out <+: (s.setColour b).out := by
  unfold Server.setColour
  split
  · exact List.prefix_rfl
  · exact List.prefix_append _ _

theorem Server.Attributable.printBytes {s : Server} (attributable : s.Attributable) {b : Nat}
    (last : s.lastOut = some b) (bytes : List UInt8) :
    (s.print (bytes.map (.byte [b]))).Attributable := by
  have own := Own.of_lastOut attributable.shows last
  refine ⟨attributable.bytes.bytes bytes fun _ => own, ?_⟩
  simp only [Server.Shows, Server.print, last, terminalColour_bytes]
  exact own

theorem own_of_printed {tokens : List Output} (attributed : Attributed tokens) {b : Nat} {c : UInt8}
    (printed : .byte [b] c ∈ tokens) : Own b (outputColour b) := by
  obtain ⟨before, after, rfl⟩ := List.append_of_mem printed
  obtain ⟨entry, found, _, others⟩ := attributed before (.byte [b] c) ⟨after, by simp⟩
  exact ⟨entry, found, found, others⟩

/-- From an attributable state `s'` is attributable if the condition holds, and no output that comes
after a violation of it is. -/
structure Server.Exact (s s' : Server) (condition : Prop) : Prop where
  grows : s.out <+: s'.out
  sound : s.Attributable → condition → s'.Attributable
  complete : s.Attributable → Attributed s'.out → condition

theorem Server.Exact.refl (s : Server) : s.Exact s True :=
  ⟨List.prefix_rfl, fun start _ => start, fun _ _ => trivial⟩

theorem Attributed.early {before tokens : List Output} (attributed : Attributed tokens)
    (within : before <+: tokens) : Attributed before :=
  fun first token shorter => attributed first token (shorter.trans within)

theorem Server.Exact.trans {s s' s'' : Server} {first second : Prop} (left : s.Exact s' first)
    (right : s'.Exact s'' second) : s.Exact s'' (first ∧ second) where
  grows := left.grows.trans right.grows
  sound start conditions := right.sound (left.sound start conditions.1) conditions.2
  complete start attributed := by
    have early := left.complete start (attributed.early right.grows)
    exact ⟨early, right.complete (left.sound start early) attributed⟩

theorem Server.Exact.iff {s s' : Server} {condition : Prop} (exact : s.Exact s' condition)
    (attributable : s.Attributable) : s'.Attributable ↔ condition :=
  ⟨fun after => exact.complete attributable after.bytes, exact.sound attributable⟩

theorem Server.Exact.frame {s s' s'' : Server} {condition : Prop} (exact : s.Exact s' condition)
    (out : s''.out = s'.out) (lastOut : s''.lastOut = s'.lastOut) : s.Exact s'' condition where
  grows := out ▸ exact.grows
  sound start met := (exact.sound start met).frame out lastOut
  complete start attributed := exact.complete start (out ▸ attributed)

theorem Server.Exact.along {step : Server → Nat → Server} {meets : Server → Nat → Prop}
    {streams : List Nat} (each : ∀ s : Server, ∀ b ∈ streams, s.Exact (step s b) (meets s b))
    (s : Server) : s.Exact (streams.foldl step s) (Along step meets streams s) := by
  induction streams generalizing s with
  | nil => exact .refl s
  | cons b rest ih =>
    have first := each s b (List.mem_cons_self ..)
    exact first.trans (ih (fun s i member => each s i (List.mem_cons_of_mem b member)) _)

theorem flushed_exact {s s' : Server} {b : Nat} {bytes : List UInt8} (stream : b < numStreams)
    (some : bytes ≠ [])
    (out : s'.out = ((s.setColour b).print (bytes.map (.byte [b]))).out)
    (lastOut : s'.lastOut = (s.setColour b).lastOut) : s.Exact s' (Coloured b) := by
  have last := setColour_lastOut s b
  refine ⟨?_, fun start coloured => ?_, fun _ attributed => ?_⟩
  · rw [out]
    exact (setColour_grows s b).trans (List.prefix_append _ _)
  · have own := (own_iff stream).mpr coloured
    exact ((start.setColour own).printBytes last bytes).frame out lastOut
  · obtain ⟨c, rest, rfl⟩ := List.exists_cons_of_ne_nil some
    have printed : .byte [b] c ∈ s'.out := by
      rw [out]
      exact List.mem_append_right _ (List.mem_cons_self ..)
    exact (own_iff stream).mp (own_of_printed attributed printed)

theorem flushBuffer_exact {b : Nat} (stream : b < numStreams) (s : Server) :
    s.Exact (flushBuffer s b) (s.BufferColoured b) := by
  unfold flushBuffer
  split
  · next empty =>
    exact ⟨List.prefix_rfl, fun start _ => start, fun _ _ some => absurd empty some⟩
  · next some =>
    have bytes : s.pending b ≠ [] := by
      rw [ne_eq, ← List.length_eq_zero_iff, pending_length]
      exact some
    have flushed : s.Exact _ (Coloured b) := flushed_exact stream bytes rfl rfl
    exact ⟨flushed.grows, fun start coloured => (flushed.sound start (coloured some)).frame rfl rfl,
      fun start attributed _ => flushed.complete start attributed⟩

theorem flushBufferLine_exact {b : Nat} (stream : b < numStreams) (s : Server) :
    s.Exact (flushBufferLine s b).1 (s.LineColoured b) := by
  unfold flushBufferLine
  split
  · next empty =>
    refine ⟨List.prefix_rfl, fun start _ => start, fun _ _ some => ?_⟩
    obtain ⟨length, line⟩ := Option.isSome_iff_exists.mp some
    have bounds := lineLength_bounds line
    omega
  split
  · next none =>
    refine ⟨List.prefix_rfl, fun start _ => start, fun _ _ some => ?_⟩
    rw [none] at some
    cases some
  · next length line =>
    have bounds := lineLength_bounds line
    have bytes : window s.outputBuffers (row b) length ≠ [] := by
      rw [ne_eq, ← List.length_eq_zero_iff, window_length]
      omega
    have flushed : s.Exact _ (Coloured b) := flushed_exact stream bytes rfl rfl
    exact ⟨flushed.grows,
      fun start coloured => (flushed.sound start (coloured (line ▸ rfl))).frame rfl rfl,
      fun start attributed _ => flushed.complete start attributed⟩

theorem flushPass_exact (s : Server) : s.Exact (flushPass s).1 s.PassColoured := by
  have lines : s.Exact _ s.PassColoured := .along
    (fun s _ member => flushBufferLine_exact (List.mem_range.mp member) s) s
  have states : ∀ (streams : List Nat) (before : Server × Bool),
      (streams.foldl flushNext before).1 =
        streams.foldl (fun s i => (flushBufferLine s i).1) before.1 := by
    intro streams
    induction streams with
    | nil => exact fun _ => rfl
    | cons b rest ih => exact fun before => ih _
  unfold flushPass
  rw [states]
  exact lines

theorem flushPasses_exact (fuel : Nat) (s : Server) :
    s.Exact (flushPasses fuel s).1 (s.PassesColoured fuel) := by
  induction fuel generalizing s with
  | zero => exact .refl s
  | succ fuel ih =>
    have pass := flushPass_exact s
    have rest := ih (flushPass s).1
    simp only [flushPasses, Server.PassesColoured]
    generalize flushPass s = result at pass rest ⊢
    obtain ⟨after, flushed⟩ := result
    cases flushed with
    | true =>
      have both := pass.trans rest
      exact ⟨both.grows, fun start met => both.sound start ⟨met.1, met.2 rfl⟩,
        fun start attributed => ⟨(both.complete start attributed).1,
          fun _ => (both.complete start attributed).2⟩⟩
    | false =>
      exact ⟨pass.grows, fun start met => pass.sound start met.1,
        fun start attributed => ⟨pass.complete start attributed, fun busy => by cases busy⟩⟩

theorem flushLines_exact (s : Server) : s.Exact (flushLines s).1 s.LinesColoured :=
  flushPasses_exact _ s

theorem flushBuffers_exact {streams : List Nat} (within : ∀ b ∈ streams, b < numStreams)
    (s : Server) : s.Exact (streams.foldl flushBuffer s) (s.BuffersColoured streams) :=
  .along (fun s b member => flushBuffer_exact (within b member) s) s

/-- The line that the branch for a full buffer prints first needs no new colours. -/
theorem flushPrevious_exact (s : Server) : s.Exact (flushPrevious s) True := by
  unfold flushPrevious
  split
  · next prevClient last =>
    unfold flushBufferLine
    split
    · exact .refl s
    split
    · exact .refl s
    · next length _ =>
      have same : s.setColour prevClient = s := if_pos last
      rw [same]
      refine ⟨List.prefix_append _ _, fun start _ => ?_, fun _ _ => trivial⟩
      exact (start.printBytes last _).frame rfl rfl
  · exact .refl s

theorem shifts_frame (s : Server) (streams : List Nat) (length : Nat) :
    (streams.foldl (fun s i => Server.shift s i length) s).out = s.out ∧
      (streams.foldl (fun s i => Server.shift s i length) s).lastOut = s.lastOut := by
  induction streams generalizing s with
  | nil => exact ⟨rfl, rfl⟩
  | cons b rest ih => exact ih (s.shift b length)

/-- Coalesced bytes are printed once the terminal is reset. -/
theorem printCommon_exact (s : Server) (first second : Nat) (rest : List Nat) (length : Nat) :
    s.Exact (s.printCommon (first :: second :: rest) first length) True := by
  unfold Server.printCommon
  generalize start : (if s.lastOut = none then s else s.print [.reset]) = plain
  have reset : s.out <+: plain.out ∧
      (s.Attributable → Attributed plain.out ∧ terminalColour plain.out = none) := by
    rw [← start]
    split
    · next last =>
      refine ⟨List.prefix_rfl, fun attributable => ⟨attributable.bytes, ?_⟩⟩
      have shows := attributable.shows
      rwa [Server.Shows, last] at shows
    · refine ⟨List.prefix_append _ _, fun attributable => ⟨attributable.bytes.concat trivial, ?_⟩⟩
      simp only [Server.print, terminalColour_append]
      rfl
  dsimp only
  generalize window plain.outputBuffers (row first) length = front
  let printed : Server :=
    { plain.print (front.map (.byte (first :: second :: rest))) with lastOut := none }
  have coalesced : s.Exact printed True := by
    refine ⟨reset.1.trans (List.prefix_append _ _), fun attributable _ => ?_, fun _ _ => trivial⟩
    obtain ⟨bytes, colour⟩ := reset.2 attributable
    refine ⟨bytes.bytes front fun _ => colour, ?_⟩
    simp only [printed, Server.Shows, Server.print, terminalColour_bytes]
    exact colour
  obtain ⟨out, lastOut⟩ := shifts_frame printed (first :: second :: rest) length
  have shifted := coalesced.frame out lastOut
  split
  · exact shifted.frame rfl rfl
  · exact shifted

theorem Server.Attributable.printPlain {s : Server} (attributable : s.Attributable)
    {tokens : List Output} (plain : tokens.all Output.plain = true) :
    (s.print tokens).Attributable := by
  refine ⟨attributable.bytes.plain plain, ?_⟩
  have shows := attributable.shows
  unfold Server.Shows at shows ⊢
  simp only [Server.print, terminalColour_plain _ plain]
  exact shows

theorem coalesceIfMulti_exact (s : Server) : s.Exact (coalesceIfMulti s).1 True := by
  unfold coalesceIfMulti tryCoalesceOutput
  split
  · split
    · split
      · exact ⟨List.prefix_append _ _, fun start _ => start.printPlain rfl, fun _ _ => trivial⟩
      · exact .refl s
    · split
      · split
        · exact printCommon_exact s _ _ _ _
        · exact .refl s
      · exact .refl s
  · exact .refl s

/-- The colours that are set back at the end are shown by `last_out` alone. -/
theorem setColour_iff {s : Server} (attributable : s.Attributable) {b : Nat}
    (stream : b < numStreams) : (s.setColour b).Attributable ↔ Coloured b := by
  refine ⟨fun set => (set.own (setColour_lastOut s b)).coloured stream, fun coloured => ?_⟩
  exact attributable.setColour ((own_iff stream).mpr coloured)

theorem flushOthers_exact (s : Server) (b : Nat) : s.Exact (flushOthers s b)
    (s.used b = outputBufferSize →
      s.BuffersColoured ((List.range numStreams).filter (· ≠ b))) := by
  unfold flushOthers
  split
  · next full =>
    have within : ∀ i ∈ (List.range numStreams).filter (· ≠ b), i < numStreams :=
      fun i member => List.mem_range.mp (List.mem_filter.mp member).1
    have others := flushBuffers_exact within s
    exact ⟨others.grows, fun start met => others.sound start (met full),
      fun start attributed _ => others.complete start attributed⟩
  · next room =>
    exact ⟨List.prefix_rfl, fun start _ => start, fun _ _ full => absurd full room⟩

theorem flushFull_iff {s : Server} (attributable : s.Attributable) {b : Nat}
    (stream : b < numStreams) : (flushFull s b).Attributable ↔ s.FullColoured b := by
  have flushed := ((flushPrevious_exact s).trans (flushLines_exact _)).trans
    (flushOthers_exact (flushLines (flushPrevious s)).1 b)
  unfold flushFull
  constructor
  · intro set
    have early := set.bytes.early (setColour_grows _ b)
    obtain ⟨⟨_, lines⟩, others⟩ := flushed.complete attributable early
    have middle := flushed.sound attributable ⟨⟨trivial, lines⟩, others⟩
    exact ⟨lines, others, (setColour_iff middle stream).mp set⟩
  · rintro ⟨lines, others, coloured⟩
    have middle := flushed.sound attributable ⟨⟨trivial, lines⟩, others⟩
    exact (setColour_iff middle stream).mpr coloured

theorem flushStored_iff {s : Server} (attributable : s.Attributable) {b : Nat}
    (stream : b < numStreams) (index : Nat) (status : Int) :
    (flushStored s b index status).Attributable ↔ s.StoredColoured b index status := by
  unfold flushStored Server.StoredColoured
  dsimp only
  split
  · exact flushFull_iff attributable stream
  split
  · exact (flushBuffer_exact stream s).iff attributable
  · exact iff_of_true (attributable.frame rfl rfl) trivial

theorem internalPutchar_iff {s : Server} (attributable : s.Attributable) {b : Nat}
    (stream : b < numStreams) (c : Int) :
    (internalPutchar s b c).Attributable ↔ s.FlushesColoured (.putchar b c) := by
  have stored : (s.store b c).Attributable := attributable.frame rfl rfl
  have coalesced := (coalesceIfMulti_exact (s.store b c)).sound stored trivial
  have flushed := flushStored_iff coalesced stream (s.used b) (coalesceIfMulti (s.store b c)).2
  rw [Server.FlushesColoured]
  refine Iff.trans ⟨fun put => ?_, fun met => ?_⟩ flushed
  · exact put.frame rfl rfl
  · exact met.frame rfl rfl

theorem timerCallback_iff {s : Server} (attributable : s.Attributable) :
    (timerCallback s).Attributable ↔ s.FlushesColoured .timer := by
  have lines := flushLines_exact s
  have all : ∀ b ∈ List.range numStreams, b < numStreams := fun _ member => List.mem_range.mp member
  have whole := lines.trans (flushBuffers_exact all (flushLines s).1)
  unfold timerCallback Server.FlushesColoured
  split
  · next done =>
    refine iff_of_true (attributable.frame rfl rfl) fun more => ?_
    rw [done] at more
    cases more
  next more =>
  split
  · next data =>
    dsimp only
    split
    · next succeeded =>
      rw [lines.iff attributable]
      exact ⟨fun met _ _ => ⟨met, fun failed => absurd succeeded (Bool.eq_false_iff.mp failed)⟩,
        fun met => (met (Bool.eq_false_iff.mpr more) data).1⟩
    · next failed =>
      rw [whole.iff attributable]
      exact ⟨fun met _ _ => ⟨met.1, fun _ => met.2⟩, fun met =>
        ⟨(met (Bool.eq_false_iff.mpr more) data).1,
          (met (Bool.eq_false_iff.mpr more) data).2 (Bool.eq_false_iff.mpr failed)⟩⟩
  · next quiet => exact iff_of_true attributable fun _ data => absurd data quiet

theorem Server.Attributable.handleChar {config : Config} {s s' : Server} {c : UInt8}
    (attributable : s.Attributable) (handled : handleChar config s c = some s') :
    s'.Attributable := by
  have display := handleChar_handled handled
  generalize after : s'.display = d at display
  cases display with
  | same =>
    exact attributable.frame (congrArg Display.out after) (congrArg Display.lastOut after)
  | @announced tokens plain =>
    have out : s'.out = s.out ++ .reset :: tokens := congrArg Display.out after
    have lastOut : s'.lastOut = none := congrArg Display.lastOut after
    have reset : Attributed (s.out ++ [.reset]) := attributable.bytes.concat trivial
    have whole : s.out ++ .reset :: tokens = s.out ++ [.reset] ++ tokens := by simp
    refine ⟨?_, ?_⟩
    · rw [out, whole]
      exact reset.plain plain
    · rw [Server.Shows, lastOut, out, whole]
      dsimp only
      rw [terminalColour_plain _ plain, terminalColour_append]
      rfl

/-! ## Runs -/

theorem step_attributable_iff {config : Config} {s s' : Server} {event : Event} {result : Unit}
    (attributable : s.Attributable) (valid : event.valid)
    (step : (machine config).step s event = some (s', result)) :
    s'.Attributable ↔ s.FlushesColoured event := by
  obtain ⟨after, stepped, same⟩ := Option.map_eq_some_iff.mp step
  cases same
  cases event with
  | putchar b c =>
    obtain rfl := putchar_step stepped
    exact internalPutchar_iff attributable valid c
  | timer =>
    cases stepped
    exact timerCallback_iff attributable
  | input c => exact iff_of_true (attributable.handleChar stepped) trivial
  | share id buf =>
    cases stepped
    exact iff_of_true (attributable.frame rfl rfl) trivial

/-- All streams but three have colours of their own. Every byte of one stream is printed in the
stream's colours and every coalesced byte in none, and `last_out` tells which the terminal is in, all
along a run, exactly when nothing of the three is flushed. -/
theorem output_attributable_iff {config : Config} {trace : List (Event × Unit)} {s : Server}
    (run : (machine config).Run (Server.init config) trace s) :
    (∀ b < numStreams, Own b (outputColour b) ↔ b ≠ 11 ∧ b ≠ 22 ∧ b ≠ 23) ∧
    ((machine config).Always (Server.init config) trace (fun s => Attributed s.out ∧ s.Shows) ↔
      (machine config).EveryStep (Server.init config) trace Server.FlushesColoured) := by
  refine ⟨fun b => own_iff, ?_⟩
  have parts : ∀ s : Server, Attributed s.out ∧ s.Shows ↔ s.Attributable := fun s =>
    ⟨fun both => ⟨both.1, both.2⟩, fun both => ⟨both.bytes, both.shows⟩⟩
  simp only [parts]
  constructor
  · refine Machine.Always.everyStep run ?_
    intro before event after result attributable valid step attributable'
    exact (step_attributable_iff attributable valid step).mp attributable'
  · refine Machine.Always.of_everyStep ⟨.nil, rfl⟩ ?_
    intro before event after result attributable valid met step
    exact (step_attributable_iff attributable valid step).mpr met

/-- A byte of a stream without colours is coalesced, and a line is printed in the other's colours. -/
theorem output_attributable_iff_shared : ∃ trace s,
    (machine lone).Run (Server.init lone) trace s ∧ trace.map Prod.fst = sharedLetter 11 ∧
    s.out.drop 2 = sharedOutput 11 ∧
    (machine lone).Always (Server.init lone) trace fun s => Attributed s.out ∧ s.Shows := by
  obtain ⟨trace, s, run, events, printed, coloured⟩ := sharedLetter_run 11 Server.FlushesColoured
    (fun s => s.out.drop 2 = sharedOutput 11) (by decide +kernel)
  exact ⟨trace, s, run, events, of_decide_eq_true printed,
    (output_attributable_iff run).2.mpr coloured⟩

/-- The newline of a client whose stream is 11 is printed without any colours. -/
theorem stream_without_colour : ∃ trace s,
    (machine lone).Run (Server.init lone) trace s ∧ ¬Attributed s.out := by
  have first : (machine lone).Run (Server.init lone) [] _ := .start
  have stored := first.on (.putchar 11 13) (by decide : 11 < numStreams) rfl
  have run := stored.on (.putchar 11 10) (by decide : 11 < numStreams) rfl
  refine ⟨_, _, run, fun attributed => ?_⟩
  have own : Own 11 (outputColour 11) := own_of_printed (c := 13) attributed (by decide)
  exact absurd rfl (own.coloured (by decide)).1

end GlobalComponents.SerialServer
