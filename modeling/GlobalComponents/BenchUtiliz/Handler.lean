import GlobalComponents.SerialServer.Getchar

/-! The benchmark component reads its characters from the serial server.

The handler takes one character for each notification, and its ring is as long as a whole page,
although the two indices lie in the same page. What it does with a character is left out.
-/

set_option autoImplicit false

namespace GlobalComponents.BenchUtiliz

open Library SerialServer

/-- `sizeof(serial_getchar_buf->buf)` -/
def bufSize : Nat := 0x1000

inductive Handler where
  | waiting
  | reading
  | advancing (ch : UInt8)
  | handling (ch : UInt8)
  deriving DecidableEq

/-- The next statement of `getchar_handler`. Behind the ring of the server lies other memory. -/
def getcharHandler (line : Line Handler) (behind : UInt8) : Line Handler × Outcome :=
  match line.consumer with
  | .waiting => ({ line with pending := false, consumer := .reading }, .nothing)
  | .reading =>
    let ch := if within : line.head.toNat < ringSize then
      line.client.buf.buf ⟨line.head.toNat, within⟩ else behind
    ({ line with consumer := .advancing ch }, .nothing)
  | .advancing ch =>
    ({ line.setHead ((line.head + 1) % UInt32.ofNat bufSize) with consumer := .handling ch },
      .nothing)
  | .handling ch => ({ line with consumer := .waiting }, .handled ch)

def Ready (line : Line Handler) : Prop := line.consumer = .waiting → line.pending = true

def handler : Reader Handler where
  ready := Ready
  step line behind := some (getcharHandler line behind)

instance : DecidablePred handler.ready := fun line =>
  inferInstanceAs (Decidable (line.consumer = .waiting → line.pending = true))

def machine : Machine (Line Handler) Turn Outcome := handler.machine

def accepted (trace : List (Turn × Outcome)) : List UInt8 :=
  trace.filterMap fun
    | (_, .accepted c) => some c
    | _ => none

def handled (trace : List (Turn × Outcome)) : List UInt8 :=
  trace.filterMap fun
    | (_, .handled c) => some c
    | _ => none

/-- The server has returned and every notification has been handled. -/
structure Quiet (line : Line Handler) : Prop where
  outside : line.phase = .outside
  waiting : line.consumer = .waiting
  silent : line.pending = false

/-- The handler reads only where the server's ring is. -/
def ReadsInside (line : Line Handler) (turn : Turn) : Prop :=
  ∀ behind, turn = .consumer behind → line.consumer = .reading → line.head.toNat < ringSize

/-- Each character has a notification of its own. -/
def Signals (line : Line Handler) (turn : Turn) : Prop :=
  ∀ lastReadHead, turn = .server → line.phase = .published lastReadHead →
    lastReadHead ≠ line.client.lastHead ∧ line.pending = false

section
variable {line after : Line Handler} {turn : Turn} {outcome : Outcome}

theorem accepted_append (trace : List (Turn × Outcome)) (turn : Turn) (outcome : Outcome) :
    accepted (trace ++ [(turn, outcome)]) = accepted trace ++ accepted [(turn, outcome)] :=
  List.filterMap_append ..

theorem handled_append (trace : List (Turn × Outcome)) (turn : Turn) (outcome : Outcome) :
    handled (trace ++ [(turn, outcome)]) = handled trace ++ handled [(turn, outcome)] :=
  List.filterMap_append ..

/-! ## Counting -/

/-- The accepted characters that are on their way: in the server's call, behind a notification, or
with the handler. -/
def underway (line : Line Handler) : Nat :=
  (if line.phase = .outside then 0 else 1) + (if line.pending then 1 else 0) +
    if line.consumer = .waiting then 0 else 1

/-- Every accepted character is handled, under way, or has lost its notification. -/
def Counted (trace : List (Turn × Outcome)) (line : Line Handler) (lost : Nat) : Prop :=
  (accepted trace).length = (handled trace).length + underway line + lost

theorem Quiet.underway (quiet : Quiet line) : underway line = 0 := by
  simp [BenchUtiliz.underway, quiet.outside, quiet.waiting, quiet.silent]

theorem underway_le (line : Line Handler) : underway line ≤ 3 := by
  unfold underway
  split <;> split <;> split <;> omega

theorem underway_call {c : UInt8} (turn : Turn) (outside : line.phase = .outside)
    (entered : line.call c = (after, outcome)) :
    underway line + (accepted [(turn, outcome)]).length = underway after ∧
      handled [(turn, outcome)] = [] := by
  rcases call_spec line c with full | ⟨_, room⟩
  · rw [full] at entered
    cases entered
    exact ⟨rfl, rfl⟩
  · rw [room] at entered
    cases entered
    refine ⟨?_, rfl⟩
    simp [underway, outside, accepted]
    omega

theorem underway_handler {behind : UInt8} (turn : Turn) (ready : Ready line)
    (done : getcharHandler line behind = (after, outcome)) :
    underway line = underway after + (handled [(turn, outcome)]).length ∧
      accepted [(turn, outcome)] = [] := by
  unfold getcharHandler at done
  cases consumer : line.consumer with
  | waiting =>
    have pending : line.pending = true := ready consumer
    rw [consumer] at done
    cases done
    refine ⟨?_, rfl⟩
    simp [underway, consumer, pending, handled]
  | reading | advancing =>
    rw [consumer] at done
    cases done
    refine ⟨?_, rfl⟩
    simp [underway, consumer, handled, Line.setHead]
  | handling ch =>
    rw [consumer] at done
    cases done
    refine ⟨?_, rfl⟩
    simp [underway, consumer, handled]

theorem underway_server (step : ServerStep line after) :
    (Signals line .server → underway after = underway line) ∧
      (¬Signals line .server → underway line = underway after + 1) := by
  have early : (∀ lastReadHead, line.phase ≠ .published lastReadHead) → Signals line .server :=
    fun early lastReadHead _ phase => absurd phase (early lastReadHead)
  cases step with
  | sample phase =>
    refine ⟨fun _ => ?_, absurd (early fun _ => by rw [phase]; exact nofun)⟩
    simp [underway, phase]
  | store phase done =>
    have stored := store_spec done
    refine ⟨fun _ => ?_, absurd (early fun _ => by rw [phase]; exact nofun)⟩
    simp [underway, phase, stored.pending, stored.consumer]
  | publish phase =>
    refine ⟨fun _ => ?_, absurd (early fun _ => by rw [phase]; exact nofun)⟩
    simp [underway, phase, Line.setTail]
  | @signal lastReadHead phase moved =>
    have signals : Signals line .server ↔ line.pending = false := by
      refine ⟨fun all => (all _ rfl phase).2, fun silent read _ phase' => ?_⟩
      rw [phase] at phase'
      cases phase'
      exact ⟨moved, silent⟩
    rw [signals, Bool.not_eq_false]
    refine ⟨fun silent => ?_, fun pending => ?_⟩
    · simp [underway, phase, silent]
    · simp [underway, phase, pending]
      omega
  | @silent lastReadHead phase same =>
    refine ⟨fun signals => absurd same (signals _ rfl phase).1, fun _ => ?_⟩
    simp [underway, phase]
    omega

theorem Counted.next {trace : List (Turn × Outcome)} {lost : Nat} (counted : Counted trace line lost)
    (step : handler.Step line after turn outcome) :
    (Signals line turn → Counted (trace ++ [(turn, outcome)]) after lost) ∧
    (¬Signals line turn → Counted (trace ++ [(turn, outcome)]) after (lost + 1)) := by
  unfold Counted at counted ⊢
  rw [accepted_append, handled_append, List.length_append, List.length_append]
  cases step with
  | @call c _ outside entered =>
    obtain ⟨more, same⟩ := underway_call (.call c) outside entered
    refine ⟨fun _ => ?_, fun missed => absurd (fun _ same => nomatch same) missed⟩
    rw [same, List.length_nil]
    omega
  | server step =>
    obtain ⟨kept, lost⟩ := underway_server step
    refine ⟨fun signals => ?_, fun missed => ?_⟩
    · have := kept signals
      simp [accepted, handled] at counted ⊢
      omega
    · have := lost missed
      simp [accepted, handled] at counted ⊢
      omega
  | @consumer behind _ ready done =>
    obtain ⟨less, same⟩ := underway_handler (.consumer behind) ready (Option.some.inj done)
    refine ⟨fun _ => ?_, fun missed => absurd (fun _ same => nomatch same) missed⟩
    rw [same, List.length_nil]
    omega

theorem run_counted {clientId : Nat} {trace : List (Turn × Outcome)} {final : Line Handler}
    (run : machine.Run (.init clientId .waiting) trace final) :
    ∃ lost, Counted trace final lost ∧
      (lost = 0 → machine.EveryStep (.init clientId .waiting) trace Signals) := by
  induction run with
  | start => exact ⟨0, rfl, fun _ => .start⟩
  | @next _ before _ turn _ run allowed step ih =>
    obtain ⟨lost, counted, earlier⟩ := ih
    obtain ⟨kept, more⟩ := counted.next (machine_spec allowed step)
    -- a character without a signal may be lost, and one is all that it costs
    by_cases signals : Signals before turn
    · exact ⟨lost, kept signals, fun none => (earlier none).next run signals⟩
    · exact ⟨lost + 1, more signals, fun none => absurd none (Nat.succ_ne_zero lost)⟩

/-! ## Contents -/

def held : Phase → List UInt8
  | .checked c _ | .sampled c _ _ => [c]
  | .outside | .stored _ _ | .published _ => []

def inHand : Handler → List UInt8
  | .advancing ch | .handling ch => [ch]
  | .waiting | .reading => []

def slot (line : Line Handler) : UInt32 :=
  match line.phase with
  | .stored nextTail _ => nextTail
  | .outside | .checked _ _ | .sampled _ _ _ | .published _ => line.tail

def passed (trace : List (Turn × Outcome)) (line : Line Handler) : Nat :=
  match line.consumer with
  | .handling _ => (handled trace).length + 1
  | .waiting | .reading | .advancing _ => (handled trace).length

theorem index_lt (i : Nat) : i % ringSize < ringSize := Nat.mod_lt _ (by decide)

/-- No notification is lost, and `stored` is what the server has put into the ring: the bytes from the
handler's head on are still there. -/
structure Follows (trace : List (Turn × Outcome)) (stored : List UInt8) (line : Line Handler) :
    Prop where
  counted : Counted trace line 0
  within : line.Within
  entered : accepted trace = stored ++ held line.phase
  read : handled trace ++ inHand line.consumer <+: stored
  head : line.head.toNat = passed trace line
  inside : ∀ ch, line.consumer = .advancing ch → line.head.toNat < ringSize
  free : (slot line).toNat = stored.length % ringSize
  ring : ∀ i, line.head.toNat ≤ i → ∀ here : i < stored.length,
    line.client.buf.buf ⟨i % ringSize, index_lt i⟩ = stored[i]

theorem Follows.init (clientId : Nat) : Follows [] [] (.init clientId .waiting) where
  counted := rfl
  within := Line.init_within clientId Handler.waiting
  entered := rfl
  read := List.prefix_refl _
  head := rfl
  inside := fun _ advancing => nomatch advancing
  free := rfl
  ring := fun i _ here => absurd here (Nat.not_lt_zero i)

theorem passed_append {trace : List (Turn × Outcome)} (turn : Turn) (outcome : Outcome)
    (none : handled [(turn, outcome)] = []) (line : Line Handler) :
    passed (trace ++ [(turn, outcome)]) line = passed trace line := by
  unfold passed
  rw [handled_append, none, List.append_nil]

theorem Follows.call {trace : List (Turn × Outcome)} {stored : List UInt8} {c : UInt8}
    (follows : Follows trace stored line) (outside : line.phase = .outside)
    (entered : line.call c = (after, outcome)) :
    Follows (trace ++ [(.call c, outcome)]) stored after := by
  have counted := (follows.counted.next (.call outside entered)).1 fun _ same => nomatch same
  have within := follows.within.call c
  rw [entered] at within
  have before := follows.entered
  rcases call_spec line c with full | ⟨_, room⟩
  · rw [full] at entered
    cases entered
    refine ⟨counted, within, ?_, ?_, ?_, follows.inside, follows.free, follows.ring⟩
    · rw [accepted_append, before]
      exact List.append_nil _
    · rw [handled_append]
      exact (List.append_nil _).symm ▸ follows.read
    · rw [passed_append _ _ rfl, follows.head]
  · rw [room] at entered
    cases entered
    refine ⟨counted, within, ?_, ?_, ?_, follows.inside, ?_, follows.ring⟩
    · rw [accepted_append, before, outside]
      exact congrArg (· ++ [c]) (List.append_nil stored)
    · rw [handled_append]
      exact (List.append_nil _).symm ▸ follows.read
    · rw [passed_append _ _ rfl]
      exact follows.head
    · have free := follows.free
      rw [slot, outside] at free
      exact free

/-- The unread bytes are too few to be reached by the next store. -/
theorem Follows.apart {trace : List (Turn × Outcome)} {stored : List UInt8}
    (follows : Follows trace stored line) {i : Nat} (unread : line.head.toNat ≤ i)
    (here : i < stored.length) : i % ringSize ≠ stored.length % ringSize := by
  have counted : (accepted trace).length =
      (handled trace).length + underway line + 0 := follows.counted
  have few := underway_le line
  rw [follows.entered, List.length_append] at counted
  have head := follows.head
  have least : (handled trace).length ≤ line.head.toNat := by
    rw [head, passed]
    split <;> omega
  unfold ringSize
  omega

theorem silent_append (trace : List (Turn × Outcome)) (turn : Turn) :
    accepted (trace ++ [(turn, .nothing)]) = accepted trace ∧
      handled (trace ++ [(turn, .nothing)]) = handled trace := by
  rw [accepted_append, handled_append]
  exact ⟨List.append_nil _, List.append_nil _⟩

theorem Follows.store {trace : List (Turn × Outcome)} {chars : List UInt8} {c : UInt8}
    {nextTail lastReadHead : UInt32} {stored : Line Handler} (follows : Follows trace chars line)
    (phase : line.phase = .sampled c nextTail lastReadHead) (done : Stored line stored c)
    (counted : Counted (trace ++ [(.server, .nothing)])
      { stored with phase := .stored nextTail lastReadHead } 0)
    (within : Line.Within { stored with phase := .stored nextTail lastReadHead }) :
    Follows (trace ++ [(.server, .nothing)]) (chars ++ [c])
      { stored with phase := .stored nextTail lastReadHead } := by
  obtain ⟨sent, kept⟩ := silent_append trace .server
  have tail : line.tail.toNat = chars.length % ringSize := by
    have free := follows.free
    rw [slot, phase] at free
    exact free
  have head : stored.head.toNat = line.head.toNat := congrArg UInt32.toNat done.head
  refine ⟨counted, within, ?_, ?_, ?_, ?_, ?_, ?_⟩
  · rw [sent, follows.entered, phase]
    exact (List.append_nil _).symm
  · rw [kept]
    refine List.IsPrefix.trans ?_ (List.prefix_append chars [c])
    exact done.consumer ▸ follows.read
  · rw [passed_append _ _ rfl]
    refine head.trans (follows.head.trans ?_)
    rw [passed, passed]
    dsimp only
    rw [done.consumer]
  · intro ch advancing
    refine head.trans_lt (follows.inside ch ?_)
    exact done.consumer ▸ advancing
  · have next := follows.within.next nextTail (by rw [phase]; rfl)
    rw [List.length_append, List.length_singleton]
    show nextTail.toNat = _
    rw [next, next_toNat follows.within.tail, tail, Nat.mod_add_mod]
  · intro i unread here
    have before : line.head.toNat ≤ i := head ▸ unread
    show stored.client.buf.buf ⟨i % ringSize, index_lt i⟩ = _
    rw [done.buf]
    rw [List.length_append, List.length_singleton] at here
    -- an earlier byte lies in another slot; the last one is the one stored
    rcases Nat.lt_succ_iff_lt_or_eq.mp here with earlier | rfl
    · rw [Function.update_of_ne, List.getElem_append_left earlier]
      · exact follows.ring i before earlier
      · intro same
        apply follows.apart before earlier
        rw [← tail]
        exact congrArg Fin.val same
    · have here : (⟨chars.length % ringSize, index_lt _⟩ : Fin ringSize) =
          ⟨line.tail.toNat, done.within⟩ := Fin.ext tail.symm
      rw [here, Function.update_self]
      simp

theorem Follows.server {trace : List (Turn × Outcome)} {stored : List UInt8}
    (follows : Follows trace stored line) (step : ServerStep line after)
    (signals : Signals line .server) :
    ∃ stored', Follows (trace ++ [(.server, .nothing)]) stored' after := by
  have counted := (follows.counted.next (.server step)).1 signals
  have within := follows.within.server step
  obtain ⟨sent, kept⟩ := silent_append trace .server
  have same : ∀ phase : Phase, accepted trace = stored ++ held line.phase →
      held phase = held line.phase →
      accepted (trace ++ [(.server, .nothing)]) = stored ++ held phase := by
    intro phase before unchanged
    rw [sent, before, unchanged]
  have read := follows.read
  have head := follows.head
  rw [← kept] at read
  rw [← passed_append .server .nothing rfl] at head
  have free := follows.free
  rw [slot] at free
  cases step with
  | sample phase =>
    rw [phase] at free
    refine ⟨stored, counted, within, same _ follows.entered ?_, read, head, follows.inside, free,
      follows.ring⟩
    rw [phase]
    rfl
  | store phase done => exact ⟨_, follows.store phase (store_spec done) counted within⟩
  | publish phase =>
    rw [phase] at free
    refine ⟨stored, counted, within, same _ follows.entered ?_, read, head, follows.inside, free,
      follows.ring⟩
    rw [phase]
    rfl
  | signal phase | silent phase =>
    rw [phase] at free
    refine ⟨stored, counted, within, same _ follows.entered ?_, read, head, follows.inside, free,
      follows.ring⟩
    rw [phase]
    rfl

theorem Follows.next {trace : List (Turn × Outcome)} {stored : List UInt8}
    (follows : Follows trace stored line) (reading : line.consumer = .reading)
    (inside : line.head.toNat < ringSize) :
    handled trace ++ [line.client.buf.buf ⟨line.head.toNat, inside⟩] <+: stored := by
  have head : line.head.toNat = (handled trace).length := by
    rw [follows.head, passed, reading]
  have counted : (accepted trace).length =
      (handled trace).length + underway line + 0 := follows.counted
  rw [follows.entered, List.length_append] at counted
  have more : (held line.phase).length + 1 ≤ underway line := by
    unfold underway held
    rw [reading]
    cases line.phase <;> simp
  have here : line.head.toNat < stored.length := by omega
  have byte := follows.ring _ (Nat.le_refl _) here
  have index : (⟨line.head.toNat % ringSize, index_lt _⟩ : Fin ringSize) =
      ⟨line.head.toNat, inside⟩ := Fin.ext (Nat.mod_eq_of_lt inside)
  rw [index] at byte
  have read := follows.read
  rw [reading] at read
  have front : handled trace = stored.take line.head.toNat := by
    rw [head]
    exact List.prefix_iff_eq_take.mp ((List.append_nil (handled trace)) ▸ read)
  rw [byte, front, List.take_append_getElem]
  exact List.take_prefix _ _

theorem advance_toNat {head : UInt32} (inside : head.toNat < ringSize) :
    ((head + 1) % UInt32.ofNat bufSize).toNat = head.toNat + 1 := by
  unfold ringSize at inside
  rw [UInt32.toNat_mod, UInt32.toNat_add]
  show (head.toNat + 1) % 2 ^ 32 % 4096 = head.toNat + 1
  omega

theorem Follows.consumer {trace : List (Turn × Outcome)} {stored : List UInt8} {behind : UInt8}
    (follows : Follows trace stored line) (ready : Ready line)
    (done : getcharHandler line behind = (after, outcome))
    (inside : ReadsInside line (.consumer behind)) :
    Follows (trace ++ [(.consumer behind, outcome)]) stored after := by
  have counted := (follows.counted.next (.consumer ready (congrArg some done))).1
    fun _ same => nomatch same
  obtain ⟨sent, kept⟩ := silent_append trace (.consumer behind)
  have before := follows.entered
  have within := follows.within
  have head := follows.head
  have read := follows.read
  unfold getcharHandler at done
  rw [passed] at head
  -- the statements of the handler's loop, one by one
  cases consumer : line.consumer with
  | waiting =>
    rw [consumer] at done head read
    cases done
    refine ⟨counted, ⟨within.tail, within.next⟩, sent.trans before, kept.symm ▸ read, ?_,
      nofun, follows.free, follows.ring⟩
    rw [passed, kept]
    exact head
  | reading =>
    have here := inside behind rfl consumer
    have next := follows.next consumer here
    rw [consumer] at done head
    dsimp only at done
    rw [dif_pos here] at done
    cases done
    refine ⟨counted, ⟨within.tail, within.next⟩, sent.trans before, kept.symm ▸ next, ?_,
      fun _ _ => here, follows.free, follows.ring⟩
    rw [passed, kept]
    exact head
  | advancing ch =>
    have here := follows.inside ch consumer
    have moved := advance_toNat here
    rw [consumer] at done head read
    cases done
    refine ⟨counted, ⟨within.tail, within.next⟩, sent.trans before, kept.symm ▸ read, ?_,
      nofun, follows.free, ?_⟩
    · show ((line.head + 1) % UInt32.ofNat bufSize).toNat = _
      rw [moved, head, passed, kept]
    · intro i unread
      refine follows.ring i ?_
      have unread : ((line.head + 1) % UInt32.ofNat bufSize).toNat ≤ i := unread
      omega
  | handling ch =>
    rw [consumer] at done head read
    cases done
    have last : handled (trace ++ [(.consumer behind, .handled ch)]) =
        handled trace ++ [ch] := handled_append _ _ _
    refine ⟨counted, ⟨within.tail, within.next⟩, ?_, ?_, ?_, nofun, follows.free, follows.ring⟩
    · rw [accepted_append]
      exact (List.append_nil _).trans before
    · rw [last]
      exact (List.append_nil _).symm ▸ read
    · rw [passed, last, List.length_append]
      exact head

theorem step_follows {trace : List (Turn × Outcome)} {stored : List UInt8}
    (follows : Follows trace stored line) (inside : ReadsInside line turn)
    (signals : Signals line turn) (step : handler.Step line after turn outcome) :
    ∃ stored', Follows (trace ++ [(turn, outcome)]) stored' after := by
  cases step with
  | call outside entered => exact ⟨stored, follows.call outside entered⟩
  | server step => exact follows.server step signals
  | consumer ready done =>
    exact ⟨stored, follows.consumer ready (Option.some.inj done) inside⟩

theorem Follows.agree {trace : List (Turn × Outcome)} {stored : List UInt8}
    (follows : Follows trace stored line) (quiet : Quiet line) : handled trace = accepted trace := by
  have counted := follows.counted
  rw [Counted, quiet.underway] at counted
  have read := follows.read
  have entered := follows.entered
  rw [quiet.waiting] at read
  rw [quiet.outside] at entered
  have whole : accepted trace = stored := entered.trans (List.append_nil stored)
  rw [whole] at counted ⊢
  have read : handled trace <+: stored := (List.append_nil (handled trace)) ▸ read
  exact read.eq_of_length counted.symm

/-- Once every notification is handled the handler has processed what was accepted, in order and each
once, if it reads inside of the server's ring and each character has a notification of its own; and
if it has, then each character had one. -/
theorem getchar_handler_agrees_iff {clientId : Nat} {trace : List (Turn × Outcome)}
    {final : Line Handler} (run : machine.Run (.init clientId .waiting) trace final)
    (quiet : Quiet final) :
    (machine.EveryStep (.init clientId .waiting) trace
        (fun line turn => ReadsInside line turn ∧ Signals line turn) →
      handled trace = accepted trace) ∧
    (handled trace = accepted trace →
      machine.EveryStep (.init clientId .waiting) trace Signals) := by
  constructor
  · intro met
    have follows : ∃ stored, Follows trace stored final := by
      apply met.history run ⟨[], .init clientId⟩
      rintro _ before turn after outcome ⟨stored, follows⟩ allowed ⟨inside, signals⟩ step
      exact step_follows follows inside signals (machine_spec allowed step)
    obtain ⟨stored, follows⟩ := follows
    exact follows.agree quiet
  · intro same
    obtain ⟨lost, counted, signals⟩ := run_counted run
    rw [Counted, quiet.underway, same] at counted
    exact signals (by omega)

end

def burst : List Turn :=
  [.call 97, .server, .server, .server, .server, .call 98, .server, .server, .server, .server,
   .consumer 0, .consumer 0, .consumer 0, .consumer 0]

theorem burst_run : ∃ trace final, machine.Run (.init 1 .waiting) trace final ∧
    trace.map Prod.fst = burst ∧ Quiet final ∧ handled trace ≠ accepted trace := by
  have evaluated : (machine.exec handler.enabled [] (.init 1 .waiting) burst).any
      (fun result => decide (result.2.phase = .outside ∧ result.2.consumer = .waiting ∧
        result.2.pending = false ∧ handled result.1 ≠ accepted result.1)) = true := by
    decide +kernel
  obtain ⟨⟨trace, final⟩, done, outcome⟩ := (Option.any_eq_true _ _).mp evaluated
  obtain ⟨outside, waiting, silent, different⟩ := of_decide_eq_true outcome
  have sound : ∀ line turn, handler.enabled line turn = true →
      machine.allowed line turn ∧ True :=
    fun line turn enabled => ⟨Reader.allowed_of_enabled enabled, trivial⟩
  obtain ⟨run, _, turns⟩ := Machine.exec_run sound .start .start done
  exact ⟨trace, final, run, turns, ⟨outside, waiting, silent⟩, different⟩

theorem getchar_handler_agrees_iff_burst : ∃ trace final,
    machine.Run (.init 1 .waiting) trace final ∧ trace.map Prod.fst = burst ∧
    (machine.EveryStep (.init 1 .waiting) trace
        (fun line turn => ReadsInside line turn ∧ Signals line turn) →
      handled trace = accepted trace) ∧
    (handled trace = accepted trace →
      machine.EveryStep (.init 1 .waiting) trace Signals) := by
  obtain ⟨trace, final, run, turns, quiet, _⟩ := burst_run
  exact ⟨trace, final, run, turns, getchar_handler_agrees_iff run quiet⟩

/-- One of the two characters is never handled. -/
theorem burst_unhandled : ¬∀ trace final, machine.Run (.init 1 .waiting) trace final →
    Quiet final → handled trace = accepted trace := by
  intro claim
  obtain ⟨trace, final, run, _, quiet, different⟩ := burst_run
  exact different (claim trace final run quiet)

end GlobalComponents.BenchUtiliz
