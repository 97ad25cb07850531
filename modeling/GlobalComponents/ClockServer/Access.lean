import GlobalComponents.ClockServer.Clock

/-! A clock obeys its owner only. -/

set_option autoImplicit false

namespace GlobalComponents.ClockServer

open Library

variable {nclocks : Nat} {Clk : Type}

def Call.uses : Call nclocks Clk → List (ClkId nclocks × Option Clk)
  | .clkGetFreq clkId clk => [(clkId, clk)]
  | .clkSetFreq clkId clk _ => [(clkId, clk)]
  | .clkRegisterChild parent child parentClk childClk => [(parent, parentClk), (child, childClk)]

def Call.isFreq (id : ClkId nclocks) : Call nclocks Clk → Bool
  | .clkGetFreq clkId _ => clkId = id
  | .clkSetFreq clkId _ _ => clkId = id
  | .clkRegisterChild _ _ _ _ => false

def holder (table : Table nclocks Clk) (id : ClkId nclocks) : Option UInt64 :=
  if (table id).initialised then some (table id).owner else none

def grant (entry : Event Clk × Reply nclocks Clk) (id : ClkId nclocks) : Option UInt64 :=
  if entry.1.request = .initClock id.1 ∧ entry.2.answer = .status 0 then some entry.1.client
  else none

def SameOwner (before after : ClockEntry Clk) : Prop :=
  after.initialised = before.initialised ∧ after.owner = before.owner

/-- Nothing is known of a clock but what `clk_get_clock` returned. -/
def Found (table : Table nclocks Clk) : Prop :=
  ∀ id, (table id).initialised = true → (table id).clk ≠ none

def Owns (table : Table nclocks Clk) (client : UInt64) (id : ClkId nclocks) : Prop :=
  (table id).initialised = true ∧ (table id).owner = client

theorem holder_eq_some {table : Table nclocks Clk} {id : ClkId nclocks} {owner : UInt64} :
    holder table id = some owner ↔ Owns table owner id := by
  rw [holder, Owns]
  cases (table id).initialised <;> simp

theorem owns_of_checks {table : Table nclocks Clk} {id : ClkId nclocks} {client : UInt64}
    (initialised : ¬(!checkClkInitialised table id) = true)
    (own : ¬(!checkIsOwner table id client) = true) : Owns table client id :=
  ⟨by simpa [checkClkInitialised] using initialised, by simpa [checkIsOwner] using own⟩

structure Guarded (before after : Table nclocks Clk) (event : Event Clk)
    (reply : Reply nclocks Clk) : Prop where
  used : ∀ call ∈ reply.calls, ∀ use ∈ call.uses,
    use.2 = (before use.1).clk ∧ Owns before event.client use.1
  refused : reply.refusal ≠ none → reply.calls = [] ∧ ∀ id, SameOwner (before id) (after id)
  failed : ∀ error, reply.answer = .status error → error ≠ 0 → reply.refusal ≠ none

inductive Served (before after : Table nclocks Clk) (event : Event Clk)
    (reply : Reply nclocks Clk) : Prop where
  | same : after = before → (∀ id, event.request = .initClock id.1 → reply.answer = .status 0 →
      Owns before event.client id) → Served before after event reply
  | lost (id : ClkId nclocks) : (before id).initialised = false → reply.answer ≠ .status 0 →
      after = Function.update before id { before id with clk := none } →
      Served before after event reply
  | granted (id : ClkId nclocks) (clk : Clk) : (before id).initialised = false →
      event.request = .initClock id.1 → reply.answer = .status 0 →
      after = Function.update before id ⟨true, event.client, some clk⟩ →
      Served before after event reply

theorem guarded_refuse {before after : Table nclocks Clk} {event : Event Clk} {answer : Answer}
    {refusal : Refusal} (same : ∀ id, SameOwner (before id) (after id)) :
    Guarded before after event (refuse answer refusal) where
  used _ member := absurd member List.not_mem_nil
  refused _ := ⟨rfl, same⟩
  failed _ _ _ := Option.some_ne_none _

theorem sameOwner_refl (table : Table nclocks Clk) (id : ClkId nclocks) :
    SameOwner (table id) (table id) := ⟨rfl, rfl⟩

theorem theClockInitClock_step (table : Table nclocks Clk) (event : Event Clk) (clkId : Int32)
    (request : event.request = .initClock clkId) :
    Served table (theClockInitClock table event.client clkId event.found).1 event
        (theClockInitClock table event.client clkId event.found).2 ∧
      Guarded table (theClockInitClock table event.client clkId event.found).1 event
        (theClockInitClock table event.client clkId event.found).2 := by
  rw [theClockInitClock]
  split
  · next valid =>
    dsimp only
    split
    · next taken =>
      split
      · exact ⟨.same rfl nofun, guarded_refuse (sameOwner_refl table)⟩
      · next owns =>
        constructor
        · apply Served.same rfl
          intro id same _
          obtain rfl : id = ⟨clkId, valid⟩ := Subtype.ext (by simpa [request] using same.symm)
          exact ⟨taken, by simpa [checkIsOwner] using owns⟩
        · refine ⟨nofun, fun refused => absurd rfl refused, fun error same nonzero => ?_⟩
          exact absurd (Answer.status.inj same).symm nonzero
    next free =>
    have free' : (table ⟨clkId, valid⟩).initialised = false := by
      simpa [checkClkInitialised] using free
    split
    · next missing =>
      -- the pointer is overwritten by the null that was found, and nobody gets the clock
      constructor
      · apply Served.lost ⟨clkId, valid⟩ free'
        · exact fun same => absurd (Answer.status.inj same) (by decide)
        · rw [Option.isNone_iff_eq_none.mp missing]
      · apply guarded_refuse
        intro id
        dsimp only
        by_cases here : id = ⟨clkId, valid⟩
        · subst here
          rw [Function.update_self]
          exact ⟨rfl, rfl⟩
        · rw [Function.update_of_ne here]
          exact ⟨rfl, rfl⟩
    · next found =>
      obtain ⟨clk, some⟩ : ∃ clk, event.found = .some clk :=
        Option.ne_none_iff_exists'.mp (by simpa using found)
      constructor
      · apply Served.granted ⟨clkId, valid⟩ clk free' request rfl
        rw [some]
      · refine ⟨nofun, fun refused => absurd rfl refused, fun error same nonzero => ?_⟩
        exact absurd (Answer.status.inj same).symm nonzero
  · exact ⟨.same rfl nofun, guarded_refuse (sameOwner_refl table)⟩

theorem guarded_call {table : Table nclocks Clk} {event : Event Clk} {answer : Answer}
    {call : Call nclocks Clk} (fine : ∀ error, answer = .status error → error = 0)
    (uses : ∀ use ∈ call.uses, use.2 = (table use.1).clk ∧ Owns table event.client use.1) :
    Guarded table table event ⟨answer, none, [call]⟩ where
  used := by
    intro other member
    rw [List.mem_singleton.mp member]
    exact uses
  refused refused := absurd rfl refused
  failed error same nonzero := absurd (fine error same) nonzero

/-- `the_clock_get_freq` and `the_clock_set_freq` make one call each, with the same checks. -/
def useClock (table : Table nclocks Clk) (client : UInt64) (clkId : Int32) (driver : UInt64)
    (call : ClkId nclocks → Option Clk → Call nclocks Clk) : Reply nclocks Clk :=
  if valid : checkValidClkId nclocks clkId = true then
    let id : ClkId nclocks := ⟨clkId, valid⟩
    if !checkClkInitialised table id then refuse (.freq 0) .notInitialised
    else if !checkIsOwner table id client then refuse (.freq 0) .notOwner
    else ⟨.freq driver, none, [call id (table id).clk]⟩
  else refuse (.freq 0) .invalidClock

theorem theClockGetFreq_eq (table : Table nclocks Clk) (client : UInt64) (clkId : Int32)
    (driver : UInt64) : theClockGetFreq table client clkId driver =
      useClock table client clkId driver fun id clk => .clkGetFreq id clk := rfl

theorem theClockSetFreq_eq (table : Table nclocks Clk) (client : UInt64) (clkId : Int32)
    (hz driver : UInt64) : theClockSetFreq table client clkId hz driver =
      useClock table client clkId driver fun id clk => .clkSetFreq id clk hz := rfl

theorem useClock_guarded (table : Table nclocks Clk) (event : Event Clk) (clkId : Int32)
    {call : ClkId nclocks → Option Clk → Call nclocks Clk}
    (uses : ∀ id clk, (call id clk).uses = [(id, clk)]) :
    Guarded table table event (useClock table event.client clkId event.driver call) := by
  rw [useClock]
  split
  · next valid =>
    dsimp only
    split
    · exact guarded_refuse (sameOwner_refl table)
    next initialised =>
    split
    · exact guarded_refuse (sameOwner_refl table)
    next owns =>
    apply guarded_call
    · intro error same
      cases same
    · rw [uses]
      exact List.forall_mem_singleton.mpr ⟨rfl, owns_of_checks initialised owns⟩
  · exact guarded_refuse (sameOwner_refl table)

theorem theClockRegisterChild_guarded (table : Table nclocks Clk) (event : Event Clk)
    (parent child : Int32) :
    Guarded table table event (theClockRegisterChild table event.client parent child) := by
  rw [theClockRegisterChild]
  split
  · next valid =>
    dsimp only
    split
    · exact guarded_refuse (sameOwner_refl table)
    next parentInitialised =>
    split
    · exact guarded_refuse (sameOwner_refl table)
    next parentOwns =>
    split
    · exact guarded_refuse (sameOwner_refl table)
    next childInitialised =>
    split
    · exact guarded_refuse (sameOwner_refl table)
    next childOwns =>
    apply guarded_call
    · exact fun error same => (Answer.status.inj same).symm
    · exact List.forall_mem_cons.mpr ⟨⟨rfl, owns_of_checks parentInitialised parentOwns⟩,
        List.forall_mem_singleton.mpr ⟨rfl, owns_of_checks childInitialised childOwns⟩⟩
  · exact guarded_refuse (sameOwner_refl table)

theorem serve_step (table : Table nclocks Clk) (event : Event Clk) :
    Served table (serve table event).1 event (serve table event).2 ∧
      Guarded table (serve table event).1 event (serve table event).2 := by
  rw [serve]
  split
  · next clkId request => exact theClockInitClock_step table event clkId request
  · next clkId request =>
    refine ⟨.same rfl fun _ init => by simp [request] at init, ?_⟩
    rw [theClockGetFreq_eq]
    exact useClock_guarded table event clkId fun _ _ => rfl
  · next clkId hz request =>
    refine ⟨.same rfl fun _ init => by simp [request] at init, ?_⟩
    dsimp only
    rw [theClockSetFreq_eq]
    exact useClock_guarded table event clkId fun _ _ => rfl
  · next parent child request =>
    exact ⟨.same rfl fun _ init => by simp [request] at init,
      theClockRegisterChild_guarded table event parent child⟩

section
variable {before after : Table nclocks Clk} {event : Event Clk} {reply : Reply nclocks Clk}

theorem server_step (step : (server nclocks Clk).step before event = some (after, reply)) :
    Served before after event reply ∧ Guarded before after event reply := by
  have done := serve_step before event
  rw [Option.some.inj step] at done
  exact done

theorem server_firstCome : FirstCome (server nclocks Clk) holder grant where
  granted := by
    intro before event after reply id new _ step granted
    obtain ⟨⟨request, done⟩, rfl⟩ : (event.request = .initClock id.1 ∧ _) ∧ event.client = new := by
      simpa [grant] using granted
    cases (server_step step).1 with
    | same same owns => exact holder_eq_some.mpr (same ▸ owns id request done)
    | lost _ _ wrong _ => exact absurd done wrong
    | granted other clk _ request' _ same =>
      obtain rfl : id = other := Subtype.ext (by simpa [request] using request')
      simp [holder, same]
  free := by
    intro before event after reply id new _ step granted owner held
    obtain ⟨⟨request, done⟩, rfl⟩ : (event.request = .initClock id.1 ∧ _) ∧ event.client = new := by
      simpa [grant] using granted
    obtain ⟨initialised, rfl⟩ := holder_eq_some.mp held
    cases (server_step step).1 with
    | same same owns => exact (owns id request done).2
    | lost _ _ wrong _ => exact absurd done wrong
    | granted other clk free request' _ same =>
      obtain rfl : id = other := Subtype.ext (by simpa [request] using request')
      rw [initialised] at free
      cases free
  kept := by
    intro before event after reply id _ step none
    have refused : ¬(event.request = .initClock id.1 ∧ reply.answer = .status 0) := by
      simpa [grant] using none
    cases (server_step step).1 with
    | same same _ => rw [same]
    | lost other free _ same =>
      rw [same, holder, holder]
      by_cases here : id = other
      · subst here
        rw [Function.update_self]
      · rw [Function.update_of_ne here]
    | granted other clk _ request done same =>
      have elsewhere : id ≠ other := by
        rintro rfl
        exact refused ⟨request, done⟩
      rw [same, holder, holder, Function.update_of_ne elsewhere]

theorem Served.clk (served : Served before after event reply) {id : ClkId nclocks}
    (initialised : (before id).initialised = true) : (after id).clk = (before id).clk := by
  cases served with
  | same same _ => rw [same]
  | lost other free _ same =>
    have elsewhere : id ≠ other := by
      rintro rfl
      rw [initialised] at free
      cases free
    rw [same, Function.update_of_ne elsewhere]
  | granted other clk free _ _ same =>
    have elsewhere : id ≠ other := by
      rintro rfl
      rw [initialised] at free
      cases free
    rw [same, Function.update_of_ne elsewhere]

theorem Found.served (found : Found before) (served : Served before after event reply) :
    Found after := by
  intro id initialised
  cases served with
  | same same _ => exact same ▸ found id (same ▸ initialised)
  | lost other free _ same =>
    have elsewhere : id ≠ other := by
      rintro rfl
      rw [same, Function.update_self] at initialised
      rw [free] at initialised
      cases initialised
    rw [same, Function.update_of_ne elsewhere] at initialised
    rw [same, Function.update_of_ne elsewhere]
    exact found id initialised
  | granted other clk free _ _ same =>
    by_cases here : id = other
    · subst here
      rw [same, Function.update_self]
      exact Option.some_ne_none clk
    · rw [same, Function.update_of_ne here] at initialised
      rw [same, Function.update_of_ne here]
      exact found id initialised

end

theorem found_of_run {table : Table nclocks Clk} {trace : List (Event Clk × Reply nclocks Clk)}
    (run : (server nclocks Clk).Run (clockServerInit nclocks Clk) trace table) : Found table := by
  refine run.invariant (fun _ => nofun) ?_
  exact fun before event after reply found _ step => found.served (server_step step).1

def due (id : ClkId nclocks) (clk : Option Clk) : Request → List (Call nclocks Clk)
  | .initClock _ => []
  | .getFreq clkId => if clkId = id.1 then [.clkGetFreq id clk] else []
  | .setFreq clkId hz => if clkId = id.1 then [.clkSetFreq id clk hz] else []
  | .registerChild _ _ => []

def freqCalls (id : ClkId nclocks) (trace : List (Event Clk × Reply nclocks Clk)) :
    List (Call nclocks Clk) :=
  trace.flatMap fun entry => entry.2.calls.filter (Call.isFreq id)

def requestsOf (client : UInt64) (trace : List (Event Clk × Reply nclocks Clk)) : List Request :=
  (trace.filter fun entry => entry.1.client == client).map fun entry => entry.1.request

section
variable {table : Table nclocks Clk} {id : ClkId nclocks} {owner client : UInt64}

theorem theClockInitClock_calls (clkId : Int32) (found : Option Clk) :
    (theClockInitClock table client clkId found).2.calls = [] := by
  rw [theClockInitClock]
  split
  · dsimp only
    split
    · split <;> rfl
    · split <;> rfl
  · rfl

theorem useClock_calls (owns : Owns table owner id) (clkId : Int32) (driver : UInt64)
    {call : ClkId nclocks → Option Clk → Call nclocks Clk}
    (isFreq : ∀ other clk, (call other clk).isFreq id = decide (other = id)) :
    (useClock table client clkId driver call).calls.filter (Call.isFreq id) =
      if client = owner then (if clkId = id.1 then [call id (table id).clk] else []) else [] := by
  obtain ⟨initialised, rfl⟩ := owns
  by_cases here : clkId = id.1
  · subst here
    by_cases own : client = (table id).owner
    · simp [useClock, id.2, checkClkInitialised, initialised, checkIsOwner, own, isFreq]
    · simp [useClock, id.2, checkClkInitialised, initialised, checkIsOwner, own, Ne.symm own, refuse]
  · rw [if_neg here, ite_self, List.filter_eq_nil_iff, useClock]
    split
    · next valid =>
      have other : (⟨clkId, valid⟩ : ClkId nclocks) ≠ id := fun same => here (same ▸ rfl)
      dsimp only
      split
      · simp [refuse]
      split
      · simp [refuse]
      · simp [isFreq, other]
    · simp [refuse]

theorem theClockRegisterChild_calls (parent child : Int32) :
    (theClockRegisterChild table client parent child).calls.filter (Call.isFreq id) = [] := by
  rw [List.filter_eq_nil_iff, theClockRegisterChild]
  split
  · dsimp only
    split
    · simp [refuse]
    split
    · simp [refuse]
    split
    · simp [refuse]
    split
    · simp [refuse]
    · simp [Call.isFreq]
  · simp [refuse]

theorem serve_calls (owns : Owns table owner id) (event : Event Clk) :
    (serve table event).2.calls.filter (Call.isFreq id) =
      if event.client = owner then due id (table id).clk event.request else [] := by
  rw [serve]
  split
  · next clkId request => simp [theClockInitClock_calls, request, due]
  · next clkId request =>
    rw [request, theClockGetFreq_eq]
    exact useClock_calls owns clkId event.driver fun _ _ => rfl
  · next clkId hz request =>
    rw [request, theClockSetFreq_eq]
    exact useClock_calls owns clkId event.driver fun _ _ => rfl
  · next parent child request => simp [theClockRegisterChild_calls, request, due]

end

theorem freqCalls_eq {start final : Table nclocks Clk}
    {trace : List (Event Clk × Reply nclocks Clk)} {id : ClkId nclocks} {owner : UInt64}
    (run : (server nclocks Clk).Run start trace final) (owns : Owns start owner id) :
    freqCalls id trace = (requestsOf owner trace).flatMap (due id (start id).clk) ∧
      Owns final owner id ∧ (final id).clk = (start id).clk := by
  -- the owner keeps the clock, so the entry that its calls use is that of the start
  induction run with
  | start => exact ⟨rfl, owns, rfl⟩
  | @next trace before after event reply run allowed step ih =>
    obtain ⟨calls, owns', clk⟩ := ih
    have held := server_firstCome.held allowed step (holder_eq_some.mpr owns')
    refine ⟨?_, holder_eq_some.mp held, ((server_step step).1.clk owns'.1).trans clk⟩
    have last := serve_calls owns' event
    rw [Option.some.inj step, clk] at last
    rw [freqCalls, requestsOf] at *
    rw [List.flatMap_append, calls, List.filter_append, List.map_append, List.flatMap_append]
    congr 1
    by_cases own : event.client = owner
    · simpa [own] using last
    · simpa [own] using last

/-- A clock belongs for ever to the first client that initialises it, and only obeys this client. -/
theorem clock_access {table : Table nclocks Clk} {trace : List (Event Clk × Reply nclocks Clk)}
    (run : (server nclocks Clk).Run (clockServerInit nclocks Clk) trace table) :
    (∀ id, holder table id = trace.findSome? fun entry => grant entry id) ∧
    ((server nclocks Clk).EveryStep (clockServerInit nclocks Clk) trace fun before event =>
      ∀ after reply, (server nclocks Clk).step before event = some (after, reply) →
        Guarded before after event reply ∧
          (∀ call ∈ reply.calls, ∀ use ∈ call.uses, use.2 ≠ none) ∧
          ∀ id owner, holder before id = some owner → holder after id = some owner) ∧
    ∀ early later middle, trace = early ++ later →
      (server nclocks Clk).Run (clockServerInit nclocks Clk) early middle →
      ∀ id owner, holder middle id = some owner →
        freqCalls id later = (requestsOf owner later).flatMap (due id (middle id).clk) ∧
        ∀ other final, (server nclocks Clk).Run middle other final →
          requestsOf owner other = requestsOf owner later → freqCalls id other = freqCalls id later := by
  refine ⟨fun id => server_firstCome.holder_eq run rfl, ?_, ?_⟩
  · refine run.everyStep fun early before event reached allowed after reply step => ?_
    have guarded := (server_step step).2
    refine ⟨guarded, ?_, fun id owner held => server_firstCome.held allowed step held⟩
    intro call member use uses
    obtain ⟨pointer, initialised, _⟩ := guarded.used call member use uses
    exact pointer ▸ found_of_run reached use.1 initialised
  · rintro early later middle rfl reached id owner held
    obtain ⟨middle', reached', run⟩ := run.split
    cases reached.deterministic reached'
    have calls := (freqCalls_eq run (holder_eq_some.mp held)).1
    refine ⟨calls, fun other final run' same => ?_⟩
    rw [calls, (freqCalls_eq run' (holder_eq_some.mp held)).1, same]

theorem clock_access_refused : ∃ trace table,
    (server 4 Unit).Run (clockServerInit 4 Unit) trace table ∧
      trace.map (fun entry => (entry.1.client, entry.2.answer)) =
        [(7, .status 0), (8, .status (-ebusy)), (8, .freq 0), (7, .freq 50)] ∧
      holder table ⟨3, rfl⟩ = some 7 := by
  have run : (server 4 Unit).Run (clockServerInit 4 Unit) _ _ :=
    (((Machine.Run.start.on ⟨7, .initClock 3, some (), 0⟩ trivial rfl).on
      ⟨8, .initClock 3, some (), 0⟩ trivial rfl).on
      ⟨8, .setFreq 3 1000, none, 1000⟩ trivial rfl).on
      ⟨7, .getFreq 3, none, 50⟩ trivial rfl
  refine ⟨_, _, run, rfl, ?_⟩
  rw [(clock_access run).1 ⟨3, rfl⟩]
  rfl

end GlobalComponents.ClockServer
