import GlobalComponents.TimeServer.Isolation

/-! What `completed` reports.

The word of a client has 32 bits, whatever `timers_per_client` is. The report is exact as long as the
timers that go off have numbers below 32, and a timer from 32 on is never reported.
-/

set_option autoImplicit false

namespace GlobalComponents.TimeServer

open Library

/-- The timer that goes off: it fires, or an accepted absolute timeout is already in the past. -/
def Event.goesOff (config : Config) : Event → Option (Int32 × Int32)
  | .call senderId (.oneshotAbsolute tid .etime) =>
    if invalidTid config tid then none else some (clientId senderId, tid)
  | .fire id =>
    let timers := config.timersPerClient.toInt.toNat
    some (Int32.ofNat (id / timers), Int32.ofNat (id % timers))
  | _ => none

def Event.collects : Event → Option Int32
  | .call senderId .completed => some (clientId senderId)
  | _ => none

/-- The timers that have gone off since their client called `completed` last. -/
def noteOwed (config : Config) (_ : Server) (event : Event) (_ : Reply)
    (owed : List (Int32 × Int32)) : List (Int32 × Int32) :=
  match event.goesOff config with
  | some timer => timer :: owed
  | none =>
    match event.collects with
    | some cid => owed.filter fun timer => timer.1 ≠ cid
    | none => owed

def reporting (config : Config) : Machine (Server × List (Int32 × Int32)) Event Reply :=
  (machine config).record (noteOwed config)

def tells (word : UInt32) (tid : Int32) : Prop := word.toNat.testBit tid.toInt.toNat = true

/-- A timer that goes off sets its bit before its client is notified, and `completed` tells exactly the
timers that are owed a report. -/
structure Reports (config : Config) (s : Server × List (Int32 × Int32)) (event : Event) : Prop where
  notified : ∀ after reply cid tid, s.1.step config event = some (after, reply) →
    event.goesOff config = some (cid, tid) →
    ∃ word, after.emitted = s.1.emitted ++ [⟨(cid + 1).toUInt32, word⟩] ∧ tells word tid
  collected : ∀ after reply cid, s.1.step config event = some (after, reply) →
    event.collects = some cid →
    ∃ word, reply = .word word ∧ ∀ tid, config.IsTimer tid → (tells word tid ↔ (cid, tid) ∈ s.2)

/-- The timer that goes off has a bit in the word. -/
def GoesOffBelow32 (config : Config) (_ : Server × List (Int32 × Int32)) (event : Event) : Prop :=
  ∀ cid tid, event.goesOff config = some (cid, tid) → tid < 32

section
variable {config : Config} {s after : Server} {cid tid : Int32}

theorem bit_toNat (valid : config.Valid) (small : tid < 32) (timer : config.IsTimer tid) :
    (bit config tid).toUInt32.toNat = 2 ^ tid.toInt.toNat := by
  have start := (Config.isTimer_iff.mp timer).1
  have end' : tid.toInt < 32 := Int32.lt_iff_toInt_lt.mp small
  have word := valid.word
  have power : 2 ^ tid.toInt.toNat < 2 ^ 32 := Nat.pow_lt_pow_right (by decide) (by omega)
  rw [bit, if_pos ⟨start, by omega⟩, UInt64.toNat_toUInt32, UInt64.toNat_ofNat',
    Nat.mod_eq_of_lt (lt_trans power (by decide)), Nat.mod_eq_of_lt power]

theorem tells_bit (valid : config.Valid) (small : tid < 32) (timer : config.IsTimer tid)
    (word : UInt32) {other : Int32} (start : 0 ≤ other.toInt) :
    tells (word ||| (bit config tid).toUInt32) other ↔ tells word other ∨ other = tid := by
  have first := (Config.isTimer_iff.mp timer).1
  have same : tid.toInt.toNat = other.toInt.toNat ↔ other = tid := by
    rw [← Int32.toInt_inj]
    omega
  rw [tells, tells, UInt32.toNat_or, Nat.testBit_or, bit_toNat valid small timer,
    Nat.testBit_two_pow, Bool.or_eq_true, decide_eq_true_eq, same]

theorem not_tells (large : ¬tid < 32) (word : UInt32) : ¬tells word tid := by
  have end' : ¬tid.toInt < 32 := fun small => large (Int32.lt_iff_toInt_lt.mpr small)
  have width : word.toNat < 2 ^ tid.toInt.toNat := by
    apply lt_of_lt_of_le word.toNat_lt
    exact Nat.pow_le_pow_right (by decide) (by omega)
  rw [tells, Nat.testBit_lt_two_pow width]
  exact Bool.false_ne_true

theorem ofNat_toNat {x : Int32} (positive : 0 ≤ x.toInt) : Int32.ofNat x.toInt.toNat = x := by
  apply Int32.toInt_inj.mp
  have small := x.toInt_lt
  rw [Int32.toInt_ofNat_of_lt (by omega), Int.toNat_of_nonneg positive]

theorem goesOff_fire (valid : config.Valid) (client : config.IsClient cid)
    (timer : config.IsTimer tid) :
    (Event.fire (getTimeToken config cid tid).toNat).goesOff config = some (cid, tid) := by
  obtain ⟨start, above⟩ := Config.isTimer_iff.mp timer
  have timers : 1 ≤ config.timersPerClient.toInt := by omega
  have token : (getTimeToken config cid tid).toNat =
      tid.toInt.toNat + cid.toInt.toNat * config.timersPerClient.toInt.toNat := by
    apply Int.ofNat_inj.mp
    rw [getTimeToken_toNat valid client timer, Int.natCast_add, Int.natCast_mul,
      Int.toNat_of_nonneg start, Int.toNat_of_nonneg client.1, Int.toNat_of_nonneg (by omega),
      Int.add_comm]
  have below : tid.toInt.toNat < config.timersPerClient.toInt.toNat := by omega
  rw [Event.goesOff, token, Nat.add_mul_div_right _ _ (by omega), Nat.div_eq_of_lt below,
    Nat.zero_add, Nat.add_mul_mod_self_right, Nat.mod_eq_of_lt below, ofNat_toNat client.1,
    ofNat_toNat start]

theorem goesOff_spec (valid : config.Valid) (tokens : TokensMatch config s) {event : Event}
    {reply : Reply} (allowed : s.permits config event)
    (done : s.step config event = some (after, reply))
    (off : event.goesOff config = some (cid, tid)) :
    config.IsClient cid ∧ config.IsTimer tid ∧ Fired config s after cid tid := by
  cases event with
  | call senderId call =>
    have client := isClient_of_permits allowed
    have step := theTimer_spec valid client done
    cases step with
    | @refused call other =>
      cases call with
      | oneshotAbsolute tid' result =>
        cases result with
        | etime =>
          rcases other tid' with absurd' | refused
          · exact absurd rfl absurd'
          · have late : invalidTid config tid' = true := by simpa [Config.IsTimer] using refused
            simp [Event.goesOff, late] at off
        | ok | error => cases off
      | oneshotRelative | periodic | stop | completed => cases off
    | @registered call _ _ other =>
      cases call with
      | oneshotAbsolute tid' result =>
        cases result with
        | etime => exact absurd rfl (other tid')
        | ok | error => cases off
      | oneshotRelative | periodic | stop | completed => cases off
    | @late tid' _ timer fired =>
      have accepted : invalidTid config tid' = false := timer
      simp only [Event.goesOff, accepted] at off
      cases off
      exact ⟨client, timer, fired⟩
    | collected => cases off
  | fire id =>
    obtain ⟨cid', tid', after', client, timer, rfl, done', fired, _⟩ :=
      fire_spec valid tokens allowed
    rw [Server.step, done'] at done
    cases done
    rw [goesOff_fire valid client timer] at off
    cases off
    exact ⟨client, timer, fired⟩

theorem collects_spec {event : Event} {reply : Reply} (allowed : s.permits config event)
    (done : s.step config event = some (after, reply)) (collects : event.collects = some cid) :
    config.IsClient cid ∧
      after.clientState = Function.update s.clientState cid.toInt.toNat 0 ∧
      reply = .word (s.clientState cid.toInt.toNat) := by
  cases event with
  | call senderId call =>
    have client := isClient_of_permits allowed
    cases call with
    | completed =>
      cases collects
      rw [Server.step, theTimer, completed_spec client] at done
      cases done
      exact ⟨client, rfl, rfl⟩
    | oneshotRelative | oneshotAbsolute | periodic | stop => cases collects
  | fire => cases collects

theorem quiet_spec (valid : config.Valid) {event : Event} {reply : Reply}
    (allowed : s.permits config event) (done : s.step config event = some (after, reply))
    (off : event.goesOff config = none) (collects : event.collects = none) :
    after.clientState = s.clientState := by
  cases event with
  | call senderId call =>
    have step := theTimer_spec valid (isClient_of_permits allowed) done
    cases step with
    | refused => rfl
    | registered => rfl
    | @late _ _ timer =>
      have accepted : invalidTid config _ = false := timer
      simp [Event.goesOff, accepted] at off
    | collected => cases collects
  | fire => cases off

/-- The words hold the bits of the timers that are owed a report. -/
def Owes (config : Config) (s : Server × List (Int32 × Int32)) : Prop :=
  ∀ cid tid, config.IsClient cid → config.IsTimer tid →
    (tells (s.1.clientState cid.toInt.toNat) tid ↔ (cid, tid) ∈ s.2)

theorem toNat_ne {c d : Int32} (client : config.IsClient c) (client' : config.IsClient d)
    (different : c ≠ d) : c.toInt.toNat ≠ d.toInt.toNat := by
  intro same
  apply different
  apply Int32.toInt_inj.mp
  have := client.1
  have := client'.1
  omega

theorem Owes.next (valid : config.Valid) {owed : List (Int32 × Int32)}
    (tokens : TokensMatch config s) (owes : Owes config (s, owed)) {event : Event} {reply : Reply}
    (allowed : s.permits config event) (done : s.step config event = some (after, reply))
    (small : GoesOffBelow32 config (s, owed) event) :
    Owes config (after, noteOwed config s event reply owed) := by
  intro c t client timer
  have before := owes c t client timer
  rw [noteOwed]
  cases off : event.goesOff config with
  | some pair =>
    obtain ⟨cid, tid⟩ := pair
    obtain ⟨client', timer', fired⟩ := goesOff_spec valid tokens allowed done off
    have start := (Config.isTimer_iff.mp timer).1
    simp only [List.mem_cons, Prod.mk.injEq]
    rw [fired.state]
    by_cases here : c = cid
    · subst here
      rw [Function.update_self, tells_bit valid (small _ _ off) timer' _ start, before]
      tauto
    · rw [Function.update_of_ne (toNat_ne client client' here), before]
      tauto
  | none =>
    cases collects : event.collects with
    | some cid =>
      obtain ⟨client', state, _⟩ := collects_spec allowed done collects
      simp only [List.mem_filter, decide_eq_true_eq]
      rw [state]
      by_cases here : c = cid
      · subst here
        rw [Function.update_self]
        simp [tells]
      · rw [Function.update_of_ne (toNat_ne client client' here), before]
        tauto
    | none =>
      dsimp only
      rw [quiet_spec valid allowed done off collects, before]

theorem Owes.reports (valid : config.Valid) {owed : List (Int32 × Int32)}
    (tokens : TokensMatch config s) (owes : Owes config (s, owed)) {event : Event}
    (allowed : s.permits config event) (small : GoesOffBelow32 config (s, owed) event) :
    Reports config (s, owed) event where
  notified after reply cid tid done off := by
    obtain ⟨_, timer, fired⟩ := goesOff_spec valid tokens allowed done off
    have start := (Config.isTimer_iff.mp timer).1
    refine ⟨_, fired.emitted, ?_⟩
    rw [fired.state, Function.update_self, tells_bit valid (small _ _ off) timer _ start]
    exact .inr rfl
  collected after reply cid done collects := by
    obtain ⟨client, _, rfl⟩ := collects_spec allowed done collects
    exact ⟨_, rfl, fun tid timer => owes cid tid client timer⟩

/-- Only a timer with a bit in the word sets one. -/
theorem Reports.below {owed : List (Int32 × Int32)} {event : Event} {reply : Reply}
    (done : s.step config event = some (after, reply)) (reports : Reports config (s, owed) event) :
    GoesOffBelow32 config (s, owed) event := by
  intro cid tid off
  obtain ⟨word, _, told⟩ := reports.notified after reply cid tid done off
  by_contra large
  exact not_tells large word told

theorem run_owes (valid : config.Valid) {trace : List (Event × Reply)}
    {final : Server × List (Int32 × Int32)}
    (run : (reporting config).Run (.init, []) trace final)
    (small : (reporting config).EveryStep (.init, []) trace (GoesOffBelow32 config)) :
    TokensMatch config final.1 ∧ Owes config final := by
  apply small.history run
  · exact ⟨nofun, fun c t _ _ => by simp [tells, Server.init]⟩
  · rintro trace ⟨s, owed⟩ event ⟨after, owed'⟩ reply ⟨tokens, owes⟩ allowed small step
    obtain ⟨done, noted⟩ := Machine.record_step step
    dsimp only at noted
    subst noted
    exact ⟨step_tokensMatch valid tokens allowed done, owes.next valid tokens allowed done small⟩

/-- What C promises of the configuration. -/
structure Config.Proper (config : Config) : Prop where
  clients : 0 ≤ config.largestBadge.toInt
  word : 32 ≤ config.wordBits

theorem postInit_valid (proper : config.Proper) (started : postInit config = some s) :
    config.Valid ∧ s = .init := by
  rw [postInit] at started
  split at started
  · next product => exact ⟨⟨proper.clients, product, proper.word⟩, (Option.some.inj started).symm⟩
  · cases started

/-- After `post_init`, whatever `timers_per_client` is, every timer that goes off is reported exactly
once, with a notification behind its bit, exactly if all timers that go off have numbers below 32. -/
theorem timeouts_reported_iff (proper : config.Proper) {start : Server}
    (started : postInit config = some start) {trace : List (Event × Reply)}
    {final : Server × List (Int32 × Int32)}
    (run : (reporting config).Run (start, []) trace final) :
    (reporting config).EveryStep (start, []) trace (Reports config) ↔
      (reporting config).EveryStep (start, []) trace (GoesOffBelow32 config) := by
  obtain ⟨valid, rfl⟩ := postInit_valid proper started
  have step : ∀ early event result, early ++ [(event, result)] <+: trace → ∀ s,
      (reporting config).Run (.init, []) early s → s.1.permits config event ∧
        TokensMatch config s.1 ∧ ∃ after, s.1.step config event = some (after, result) := by
    rintro early event result ⟨rest, rfl⟩ s reached
    obtain ⟨after, begun, _⟩ := run.split
    obtain ⟨before, earlier, allowed, step⟩ := begun.snoc_inv
    obtain rfl := reached.deterministic earlier
    exact ⟨allowed, run_tokensMatch valid (Machine.record_run reached), after.1,
      (Machine.record_step step).1⟩
  constructor
  · intro reports early event result within s reached
    obtain ⟨_, _, after, done⟩ := step early event result within s reached
    exact (reports early event result within s reached).below done
  · intro small early event result within s reached
    obtain ⟨allowed, tokens, _⟩ := step early event result within s reached
    have earlier := small.early ((List.prefix_append _ _).trans within)
    exact (run_owes valid reached earlier).2.reports valid tokens allowed
      (small early event result within s reached)

end

instance (config : Config) (s : Server × List (Int32 × Int32)) (event : Event) :
    Decidable (GoesOffBelow32 config s event) :=
  decidable_of_iff ((event.goesOff config).all fun timer => timer.2 < 32) <| by
    simp [GoesOffBelow32, Option.all_eq_true]

/-- A client uses the last timer that has a bit, and takes its word twice. -/
def reportedTimer : List Event :=
  [.call 1 (.oneshotRelative 31 false), .fire 31, .call 1 .completed, .call 1 .completed]

theorem timeouts_reported_iff_reportedTimer :
    ∃ trace final, (reporting (timersFor 1 33)).Run (.init, []) trace final ∧
      trace = reportedTimer.zip [.int 0, .none, .word 0x80000000, .word 0] ∧
      (reporting (timersFor 1 33)).EveryStep (.init, []) trace (Reports (timersFor 1 33)) := by
  have evaluated : ((reporting (timersFor 1 33)).exec
      (fun s event => decide (s.1.permits (timersFor 1 33) event) &&
        decide (GoesOffBelow32 (timersFor 1 33) s event)) [] (.init, []) reportedTimer).any
      (fun result => decide
        (result.1 = reportedTimer.zip [.int 0, .none, .word 0x80000000, .word 0])) = true := by
    decide +kernel
  obtain ⟨⟨trace, final⟩, done, outcome⟩ := (Option.any_eq_true _ _).mp evaluated
  obtain ⟨run, below, _⟩ := Machine.exec_run (fun s event checked => by
    rw [Bool.and_eq_true, decide_eq_true_eq, decide_eq_true_eq] at checked
    exact checked) .start .start done
  have proper : (timersFor 1 33).Proper := ⟨by decide, by decide⟩
  exact ⟨trace, final, run, of_decide_eq_true outcome,
    (timeouts_reported_iff proper rfl run).mpr below⟩

/-- A client with 33 timers uses the last of them. -/
def lastTimer : List Event := [.call 1 (.oneshotRelative 32 false)]

theorem lastTimer_run :
    ∃ trace final after, (reporting (timersFor 1 33)).Run (.init, []) trace final ∧
      trace.map Prod.fst = lastTimer ∧ final.1.permits (timersFor 1 33) (.fire 32) ∧
      final.1.step (timersFor 1 33) (.fire 32) = some (after, .none) := by
  have evaluated : ((reporting (timersFor 1 33)).exec
      (fun s event => decide (s.1.permits (timersFor 1 33) event)) [] (.init, [])
      lastTimer).any (fun result => decide (result.2.1.permits (timersFor 1 33) (.fire 32)) &&
        ((result.2.1.step (timersFor 1 33) (.fire 32)).any fun next => next.2 = .none)) = true := by
    decide +kernel
  obtain ⟨⟨trace, final⟩, done, outcome⟩ := (Option.any_eq_true _ _).mp evaluated
  rw [Bool.and_eq_true, decide_eq_true_eq, Option.any_eq_true] at outcome
  obtain ⟨allowed, ⟨after, reply⟩, step, none⟩ := outcome
  have sound : ∀ (s : Server × List (Int32 × Int32)) event,
      decide (s.1.permits (timersFor 1 33) event) = true →
      (reporting (timersFor 1 33)).allowed s event ∧ True :=
    fun s event permitted =>
      ⟨of_decide_eq_true (p := s.1.permits (timersFor 1 33) event) permitted, trivial⟩
  obtain ⟨run, _, events⟩ := Machine.exec_run sound .start .start done
  obtain rfl : reply = .none := of_decide_eq_true none
  exact ⟨trace, final, after, run, events, allowed, step⟩

/-- The timer with number 32 goes off and no bit is set for it. -/
theorem last_timer_unreported :
    ¬∀ trace final, (reporting (timersFor 1 33)).Run (.init, []) trace final →
      (reporting (timersFor 1 33)).EveryStep (.init, []) trace (Reports (timersFor 1 33)) := by
  intro claim
  obtain ⟨trace, final, after, run, _, allowed, step⟩ := lastTimer_run
  have fired : (reporting (timersFor 1 33)).Run (.init, []) (trace ++ [(.fire 32, Reply.none)])
      (after, noteOwed (timersFor 1 33) final.1 (.fire 32) .none final.2) :=
    run.on (.fire 32) allowed (Option.map_eq_some_iff.mpr ⟨_, step, rfl⟩)
  have reports := claim _ _ fired trace (.fire 32) Reply.none (List.prefix_refl _) final run
  exact absurd (Reports.below step reports 0 32 rfl) (by decide)

end GlobalComponents.TimeServer
