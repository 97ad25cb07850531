import GlobalComponents.SingleThreadedComponent.Run

/-! What the loop makes of the messages that the kernel has for it.

Signals on the bound notification are merged into one word of badges until the component receives;
calls wait in the queue of the endpoint. `watched` is the component with a record of the handlers that
it calls. The badges of the capabilities come from outside: `Badges` is what the loop relies on to
tell a word from a call.
-/

set_option autoImplicit false

namespace GlobalComponents.SingleThreadedComponent

open Library

variable {Own Cap : Type}

inductive Act where
  | irq (badge : UInt64)
  | callback (handler : Nat) (badge : UInt64)
  | handle (message : Message)
  | reply (message : Message) (info : UInt64)
  deriving DecidableEq

def Component.watched (component : Component Own Cap) : Component (Own × List Act) Cap where
  realtime := component.realtime
  endpointBase := component.endpointBase
  notificationBase := component.notificationBase
  init := ((component.init.1, []), component.init.2)
  handleMessage badge := (component.handleMessage badge).map fun handle info own =>
    let rpc := handle info own.1
    { own := (rpc.own, own.2 ++ [.handle (badge, info)])
      notified := rpc.notified
      result := rpc.result
      info := rpc.info
      replyCapInTcb := rpc.replyCapInTcb }
  handleGlobalEndpointIrq badge own :=
    let after := component.handleGlobalEndpointIrq badge own.1
    ((after.1, own.2 ++ [.irq badge]), after.2)
  regHandlers := component.regHandlers.zipIdx.map fun ((badge, callbackHandler), i) =>
    (badge, fun b own =>
      let after := callbackHandler b own.1
      ((after.1, own.2 ++ [.callback i b]), after.2))

def State.watch (s : State Own Cap) : State (Own × List Act) Cap :=
  { s with own := (s.own, []) }

def State.forget (s : State (Own × List Act) Cap) : State Own Cap :=
  { s with own := s.own.1 }

/-- The handlers that a word of badges is for, in the order of their registration. -/
def Component.serves (component : Component Own Cap) (word : UInt64) : List Act :=
  .irq word :: component.regHandlers.zipIdx.filterMap fun ((b, _), i) =>
    if word &&& b = b then some (.callback i b) else none

/-- The reply that a blocking call sends first. -/
def Receive.replies (receive : Receive Cap) (message : Message) : List Act :=
  match receive with
  | .replyRecv info | .sendRecv info => [.reply message info]
  | .recv | .signalRecv _ => []

/-- The component with what the kernel holds for it. -/
structure System (Own Cap : Type) where
  state : State Own Cap
  /-- The bound notification; `none` is idle. -/
  word : Option UInt64
  /-- The senders blocked on the endpoint. -/
  senders : List Message

inductive Happens where
  | signal (badge : UInt64)
  | call (message : Message)
  | takeWord
  | takeCall
  deriving DecidableEq

def System.step (component : Component Own Cap) (s : System Own Cap) :
    Happens → Option (System Own Cap × List Act)
  | .signal badge => some ({ s with word := some (s.word.getD 0 ||| badge) }, [])
  | .call message => some ({ s with senders := s.senders ++ [message] }, [])
  | .takeWord => s.word.map fun word =>
    ({ s with state := iterate component s.state word 0, word := none },
      (iterate component.watched s.state.watch word 0).own.2)
  | .takeCall =>
    match s.senders with
    | [] => none
    | message :: senders =>
      let state := iterate component s.state message.1 message.2
      some ({ s with state, senders },
        (iterate component.watched s.state.watch message.1 message.2).own.2 ++
          state.receive.replies message)

/-- The badges on calls are those that the loop has cases for. -/
def Component.Calls (component : Component Own Cap) (badge : UInt64) : Prop :=
  badge &&& component.endpointBase = component.endpointBase ∧ component.handleMessage badge ≠ none

/-- The words that the signals may add up to: none of them passes for a call. -/
structure Component.Badges (component : Component Own Cap) (words : UInt64 → Prop) : Prop where
  or : ∀ first second, words first → words second → words (first ||| second)
  notification : ∀ word, words word →
    word &&& component.notificationBase = component.notificationBase
  apart : ∀ word, words word → ¬component.Calls word

/-- `<interface>_handle_message` returns 1 at `reply_recv` and 0 at `begin_recv`. -/
def Component.Answers (component : Component Own Cap) : Prop :=
  ∀ badge handle, component.handleMessage badge = some handle → ∀ info own,
    (handle info own).result = 1 ∨ (handle info own).result = 0

def system (component : Component Own Cap) (words : UInt64 → Prop) :
    Machine (System Own Cap) Happens (List Act) where
  allowed _
    | .signal badge => words badge
    | .call message => component.Calls message.1
    | .takeWord | .takeCall => True
  step := System.step component

def Component.boot (component : Component Own Cap) : System Own Cap := ⟨component.start, none, []⟩

section
variable {component : Component Own Cap}

theorem forget_became (s : State (Own × List Act) Cap) (own : Own × List Act) (caps : List Cap) :
    (s.became (own, caps)).forget = s.forget.became (own.1, caps) := by
  have same : ∀ (caps : List Cap) (s : State (Own × List Act) Cap),
      (caps.foldl notify s).forget = caps.foldl notify s.forget := by
    intro caps
    induction caps with
    | nil => exact fun _ => rfl
    | cons cap caps ih => exact fun s => ih (notify s cap)
  exact same caps _

theorem became_own (s : State Own Cap) (after : Own × List Cap) :
    (s.became after).own = after.1 := by
  have same : ∀ (caps : List Cap) (s : State Own Cap), (caps.foldl notify s).own = s.own := by
    intro caps
    induction caps with
    | nil => exact fun _ => rfl
    | cons cap caps ih => exact fun s => ih (notify s cap)
  exact same after.2 _

def served (badge : UInt64) (s : State Own Cap)
    (handler : UInt64 × (UInt64 → Own → Own × List Cap)) : State Own Cap :=
  if badge &&& handler.1 = handler.1 then s.became (handler.2 handler.1 s.own) else s

theorem foldl_served (badge : UInt64) (handlers : List (UInt64 × (UInt64 → Own → Own × List Cap)))
    (n : Nat) (s : State (Own × List Act) Cap) :
    let watched := (handlers.zipIdx n).map fun ((badge, callbackHandler), i) =>
      (badge, fun b (own : Own × List Act) =>
        let after := callbackHandler b own.1
        ((after.1, own.2 ++ [Act.callback i b]), after.2))
    (watched.foldl (served badge) s).forget = handlers.foldl (served badge) s.forget ∧
      (watched.foldl (served badge) s).own.2 = s.own.2 ++
        (handlers.zipIdx n).filterMap fun ((b, _), i) =>
          if badge &&& b = b then some (.callback i b) else none := by
  dsimp only
  -- on the handlers in the order of their registration
  induction handlers generalizing n s with
  | nil => simp
  | cons handler handlers ih =>
    obtain ⟨b, callbackHandler⟩ := handler
    rw [List.zipIdx_cons, List.map_cons, List.foldl_cons, List.foldl_cons, List.filterMap_cons]
    obtain ⟨state, acts⟩ := ih (n + 1) (served badge s (b, fun b own =>
      let after := callbackHandler b own.1
      ((after.1, own.2 ++ [Act.callback n b]), after.2)))
    rw [state, acts]
    dsimp only [served]
    split
    · exact ⟨by rw [forget_became]; rfl, by rw [became_own]; simp⟩
    · exact ⟨rfl, rfl⟩

theorem handleNotifications_watched (component : Component Own Cap)
    (s : State (Own × List Act) Cap) (badge : UInt64) :
    (handleNotifications component.watched s badge).forget =
        handleNotifications component s.forget badge ∧
      (handleNotifications component.watched s badge).own.2 = s.own.2 ++
        if badge &&& component.notificationBase = component.notificationBase then
          component.serves badge
        else [] := by
  unfold handleNotifications
  change State.forget (ite (badge &&& component.notificationBase = component.notificationBase) _ _) =
    _ ∧ Prod.snd (State.own (ite (badge &&& component.notificationBase =
      component.notificationBase) _ _)) = _
  split
  · next notification =>
    obtain ⟨state, acts⟩ := foldl_served badge component.regHandlers 0
      (s.became (component.watched.handleGlobalEndpointIrq badge s.own))
    constructor
    · refine state.trans ?_
      rw [show component.watched.handleGlobalEndpointIrq badge s.own = (_, _) from rfl,
        forget_became]
      rfl
    · refine acts.trans ?_
      rw [became_own]
      exact List.append_assoc _ [Act.irq badge] _
  · exact ⟨rfl, (List.append_nil _).symm⟩

theorem forget_signalRecv (s : State (Own × List Act) Cap) :
    s.signalRecv.forget = s.forget.signalRecv ∧ s.signalRecv.own = s.own := by
  unfold State.signalRecv
  cases pending : s.signalToSend with
  | none => simp [State.forget, pending]
  | some cap => simp [State.forget, pending]

theorem forget_received (s : State (Own × List Act) Cap) :
    s.received.forget = s.forget.received ∧ s.received.own = s.own := by
  unfold State.received
  cases receive : s.receive <;> simp [State.forget, receive]

def Component.acts (component : Component Own Cap) (own : Own) (badge info : UInt64) : List Act :=
  let notifications :=
    if badge &&& component.notificationBase = component.notificationBase then
      component.serves badge
    else []
  if badge &&& component.endpointBase = component.endpointBase then
    match component.handleMessage badge with
    | none => notifications
    | some handle =>
      if (handle info own).result = 1 ∨ (handle info own).result = 0 then [.handle (badge, info)]
      else .handle (badge, info) :: notifications
  else notifications

/-- The record changes nothing that the component does. -/
theorem iterate_watched (s : State (Own × List Act) Cap) (badge info : UInt64) :
    (iterate component.watched s badge info).forget = iterate component s.forget badge info ∧
      (iterate component.watched s badge info).own.2 =
        s.own.2 ++ component.acts s.own.1 badge info := by
  obtain ⟨received, own⟩ := forget_received s
  have bottom : ∀ t : State (Own × List Act) Cap,
      (handleNotifications component.watched t badge).signalRecv.forget =
          (handleNotifications component t.forget badge).signalRecv ∧
        (handleNotifications component.watched t badge).signalRecv.own.2 = t.own.2 ++
          if badge &&& component.notificationBase = component.notificationBase then
            component.serves badge
          else [] := by
    intro t
    obtain ⟨state, acts⟩ := handleNotifications_watched component t badge
    obtain ⟨signal, same⟩ := forget_signalRecv (handleNotifications component.watched t badge)
    exact ⟨by rw [signal, state], by rw [same, acts]⟩
  unfold iterate Component.acts
  dsimp only
  rw [show component.watched.endpointBase = component.endpointBase from rfl, ← received, ← own]
  generalize s.received = t
  split
  · unfold handleRpc
    cases handler : component.handleMessage badge with
    | none =>
      have watched : component.watched.handleMessage badge = none := by
        simp [Component.watched, handler]
      simp only [watched]
      exact bottom t
    | some handle =>
      have watched : component.watched.handleMessage badge = some fun info own =>
          let rpc := handle info own.1
          ⟨(rpc.own, own.2 ++ [.handle (badge, info)]), rpc.notified, rpc.result, rpc.info,
            rpc.replyCapInTcb⟩ := by
        simp [Component.watched, handler]
      have became := forget_became t
        ((handle info t.own.1).own, t.own.2 ++ [.handle (badge, info)])
        (handle info t.own.1).notified
      have record := became_own t (((handle info t.own.1).own, t.own.2 ++ [.handle (badge, info)]),
        (handle info t.own.1).notified)
      simp only [watched]
      rw [show t.forget.own = t.own.1 from rfl]
      by_cases answered : (handle info t.own.1).result = 1
      · simp only [if_pos answered, if_pos (Or.inl answered), ← became]
        exact ⟨rfl, congrArg Prod.snd record⟩
      by_cases dealt : (handle info t.own.1).result = 0
      · simp only [if_neg answered, if_pos dealt, if_pos (Or.inr dealt), ← became]
        exact ⟨rfl, congrArg Prod.snd record⟩
      · have neither := not_or.mpr ⟨answered, dealt⟩
        obtain ⟨state, acts⟩ := bottom (t.became
          (((handle info t.own.1).own, t.own.2 ++ [.handle (badge, info)]),
            (handle info t.own.1).notified))
        simp only [if_neg answered, if_neg dealt, if_neg neither, ← became]
        refine ⟨state, acts.trans ?_⟩
        rw [record]
        exact List.append_assoc _ [Act.handle (badge, info)] _
  · exact bottom t

theorem acts_word {words : UInt64 → Prop} (badges : component.Badges words) {word : UInt64}
    (valid : words word) (own : Own) (info : UInt64) :
    component.acts own word info = component.serves word := by
  unfold Component.acts
  rw [if_pos (badges.notification word valid)]
  split
  · next rpc =>
    cases handler : component.handleMessage word with
    | none => rfl
    | some handle => exact absurd ⟨rpc, by simp [handler]⟩ (badges.apart word valid)
  · rfl

/-- A call is handled once. It has its answer if the handler has one, and no other. -/
theorem acts_call (answers : component.Answers) {message : Message}
    (calls : component.Calls message.1) (s : State Own Cap) :
    ∃ handle, component.handleMessage message.1 = some handle ∧
      component.acts s.own message.1 message.2 = [.handle message] ∧
      (iterate component s message.1 message.2).receive.replies message =
        if (handle message.2 s.own).result = 1 then
          [.reply message (handle message.2 s.own).info]
        else [] := by
  obtain ⟨handle, handler⟩ := Option.ne_none_iff_exists'.mp calls.2
  have own : s.received.own = s.own := by
    unfold State.received
    cases s.receive <;> rfl
  refine ⟨handle, handler, ?_, ?_⟩
  · unfold Component.acts
    rw [if_pos calls.1, handler]
    exact if_pos (answers _ handle handler _ _)
  · unfold iterate
    dsimp only
    rw [if_pos calls.1]
    unfold handleRpc
    simp only [handler, own]
    rcases answers _ handle handler message.2 s.own with answered | dealt
    · simp only [if_pos answered]
      unfold Component.reply
      split <;> rfl
    · have silent : (handle message.2 s.own).result ≠ 1 := by
        rw [dealt]
        decide
      simp only [if_neg silent, if_pos dealt]
      rfl

end

/-- The signals since the last word was received. -/
def waiting (trace : List (Happens × List Act)) : List UInt64 :=
  trace.foldl (fun badges (event, _) =>
    match event with
    | .signal badge => badges ++ [badge]
    | .takeWord => []
    | .call _ | .takeCall => badges) []

def union (badges : List UInt64) : UInt64 := badges.foldl (· ||| ·) 0

def called (trace : List (Happens × List Act)) : List Message :=
  trace.filterMap fun (event, _) =>
    match event with
    | .call message => some message
    | .signal _ | .takeWord | .takeCall => none

def handled (trace : List (Happens × List Act)) : List Message :=
  trace.flatMap fun (_, acts) => acts.filterMap fun act =>
    match act with
    | .handle message => some message
    | .irq _ | .callback .. | .reply .. => none

/-- Why the component did what it did after the trace. -/
inductive Explained (component : Component Own Cap) (trace : List (Happens × List Act)) :
    Happens → List Act → Prop where
  | signal {badge : UInt64} : Explained component trace (.signal badge) []
  | call {message : Message} : Explained component trace (.call message) []
  | word : waiting trace ≠ [] →
      Explained component trace .takeWord (component.serves (union (waiting trace)))
  | answered {message : Message} {own : Own} {handle : UInt64 → Own → Rpc Own Cap} :
      handled trace ++ [message] <+: called trace →
      component.handleMessage message.1 = some handle → (handle message.2 own).result = 1 →
      Explained component trace .takeCall
        [.handle message, .reply message (handle message.2 own).info]
  | dealt {message : Message} {own : Own} {handle : UInt64 → Own → Rpc Own Cap} :
      handled trace ++ [message] <+: called trace →
      component.handleMessage message.1 = some handle → (handle message.2 own).result = 0 →
      Explained component trace .takeCall [.handle message]

/-- What the kernel holds after the trace. -/
structure Held (component : Component Own Cap) (words : UInt64 → Prop)
    (trace : List (Happens × List Act)) (s : System Own Cap) : Prop where
  word : s.word = if waiting trace = [] then none else some (union (waiting trace))
  valid : ∀ badge ∈ waiting trace, words badge
  senders : handled trace ++ s.senders = called trace
  calls : ∀ message ∈ s.senders, component.Calls message.1

section
variable {component : Component Own Cap} {words : UInt64 → Prop}
  {trace : List (Happens × List Act)} {s after : System Own Cap}

theorem waiting_concat (trace : List (Happens × List Act)) (event : Happens) (acts : List Act) :
    waiting (trace ++ [(event, acts)]) =
      match event with
      | .signal badge => waiting trace ++ [badge]
      | .takeWord => []
      | .call _ | .takeCall => waiting trace := by
  simp [waiting]

theorem union_concat (badges : List UInt64) (badge : UInt64) :
    union (badges ++ [badge]) = union badges ||| badge := by
  simp [union]

theorem words_union (badges : component.Badges words) {list : List UInt64} (some : list ≠ [])
    (valid : ∀ badge ∈ list, words badge) : words (union list) := by
  induction list using List.reverseRecOn with
  | nil => exact absurd rfl some
  | append_singleton list badge ih =>
    rw [union_concat]
    have last := valid badge (by simp)
    by_cases first : list = []
    · subst first
      simpa [union] using last
    · exact badges.or _ _ (ih first fun b member => valid b (by simp [member])) last

theorem covers_or {word b : UInt64} (badge : UInt64) (covers : word &&& b = b) :
    (word ||| badge) &&& b = b ∧ (badge ||| word) &&& b = b := by
  have both : (word ||| badge) &&& b = b := by
    apply UInt64.toBitVec_inj.mp
    ext i small
    have bit := congrArg (fun x : UInt64 => x.toBitVec[i]) covers
    simp only [UInt64.toBitVec_and, UInt64.toBitVec_or, BitVec.getElem_and, BitVec.getElem_or,
      Bool.and_eq_right_iff_imp] at bit ⊢
    exact fun set => by simp [bit set]
  exact ⟨both, by rwa [UInt64.or_comm]⟩

theorem covers_union {list : List UInt64} {badge b : UInt64} (member : badge ∈ list)
    (covers : badge &&& b = b) : union list &&& b = b := by
  induction list using List.reverseRecOn with
  | nil => cases member
  | append_singleton list last ih =>
    rw [union_concat]
    rcases List.mem_append.mp member with early | here
    · exact (covers_or last (ih early)).1
    · rw [List.mem_singleton.mp here] at covers
      exact (covers_or _ covers).2

theorem handled_concat (trace : List (Happens × List Act)) (event : Happens) (acts : List Act) :
    handled (trace ++ [(event, acts)]) = handled trace ++ handled [(event, acts)] := by
  simp [handled]

theorem handled_serves (word : UInt64) (event : Happens) :
    handled [(event, component.serves word)] = [] := by
  simp only [handled, Component.serves, List.flatMap_cons, List.flatMap_nil, List.append_nil,
    List.filterMap_cons, List.filterMap_eq_nil_iff, List.mem_filterMap]
  rintro act ⟨⟨⟨b, callbackHandler⟩, i⟩, _, taken⟩
  dsimp only at taken
  split at taken
  · obtain rfl := Option.some.inj taken
    rfl
  · cases taken

theorem called_concat (trace : List (Happens × List Act)) (event : Happens) (acts : List Act) :
    called (trace ++ [(event, acts)]) = called trace ++ called [(event, acts)] := by
  simp [called]

theorem Held.signal (held : Held component words trace s) {badge : UInt64}
    (valid : words badge) : Held component words (trace ++ [(.signal badge, [])])
      { s with word := some (s.word.getD 0 ||| badge) } := by
  refine ⟨?_, ?_, ?_, held.calls⟩
  · rw [waiting_concat]
    have word := held.word
    by_cases none : waiting trace = []
    · rw [if_pos none] at word
      simp [word, none, union]
    · rw [if_neg none] at word
      simp [word, union_concat]
  · rw [waiting_concat]
    intro b member
    rcases List.mem_append.mp member with early | here
    · exact held.valid b early
    · exact List.mem_singleton.mp here ▸ valid
  · rw [handled_concat, called_concat]
    simpa [handled, called] using held.senders

theorem Held.call (held : Held component words trace s) {message : Message}
    (valid : component.Calls message.1) : Held component words (trace ++ [(.call message, [])])
      { s with senders := s.senders ++ [message] } := by
  refine ⟨?_, ?_, ?_, fun m member => ?_⟩
  · rw [waiting_concat]
    exact held.word
  · rw [waiting_concat]
    exact held.valid
  · rw [handled_concat, called_concat, ← held.senders]
    simp [handled, called]
  · rcases List.mem_append.mp member with early | here
    · exact held.calls m early
    · exact List.mem_singleton.mp here ▸ valid

theorem Held.takeWord (badges : component.Badges words) (held : Held component words trace s)
    {acts : List Act}
    (step : s.step component .takeWord = some (after, acts)) :
    Explained component trace .takeWord acts ∧
      Held component words (trace ++ [(.takeWord, acts)]) after := by
  obtain ⟨word, pending, taken⟩ := Option.map_eq_some_iff.mp step
  cases taken
  have some : waiting trace ≠ [] := by
    intro none
    have word := held.word
    rw [if_pos none, pending] at word
    cases word
  have union' := held.word
  rw [if_neg some, pending] at union'
  obtain rfl := Option.some.inj union'
  -- no union of signals passes for a call, so the word goes to the handlers of its bits
  have acts : (iterate component.watched s.state.watch (union (waiting trace)) 0).own.2 =
      component.serves (union (waiting trace)) := by
    rw [(iterate_watched s.state.watch _ 0).2]
    exact acts_word badges (words_union badges some held.valid) _ 0
  rw [acts]
  refine ⟨.word some, ⟨?_, ?_, ?_, held.calls⟩⟩
  · rw [waiting_concat]
    rfl
  · rw [waiting_concat]
    exact fun b member => absurd member List.not_mem_nil
  · rw [handled_concat, called_concat, handled_serves]
    simpa [called] using held.senders

theorem Held.takeCall (answers : component.Answers) (held : Held component words trace s)
    {acts : List Act} (step : s.step component .takeCall = some (after, acts)) :
    Explained component trace .takeCall acts ∧
      Held component words (trace ++ [(.takeCall, acts)]) after := by
  cases queue : s.senders with
  | nil =>
    rw [System.step, queue] at step
    cases step
  | cons message senders =>
    rw [System.step, queue] at step
    cases step
    have calls := held.calls
    have whole := held.senders
    rw [queue] at calls whole
    obtain ⟨handle, handler, acts, replies⟩ := acts_call answers (calls message (by simp)) s.state
    have next : handled trace ++ [message] <+: called trace :=
      ⟨senders, by rw [← whole]; simp⟩
    have record : (iterate component.watched s.state.watch message.1 message.2).own.2 =
        [.handle message] := by
      rw [(iterate_watched s.state.watch _ _).2]
      exact acts
    rw [record, replies]
    refine ⟨?_, ⟨?_, ?_, ?_, fun m member => calls m (by simp [member])⟩⟩
    · rcases answers _ handle handler message.2 s.state.own with answered | dealt
      · rw [if_pos answered]
        exact .answered next handler answered
      · have silent : (handle message.2 s.state.own).result ≠ 1 := by
          rw [dealt]
          decide
        rw [if_neg silent]
        exact .dealt next handler dealt
    · rw [waiting_concat]
      exact held.word
    · rw [waiting_concat]
      exact held.valid
    · rw [handled_concat, called_concat, ← whole]
      split <;> simp [handled, called]

theorem Held.step (badges : component.Badges words) (answers : component.Answers)
    (held : Held component words trace s) {event : Happens} {acts : List Act}
    (allowed : (system component words).allowed s event)
    (step : (system component words).step s event = some (after, acts)) :
    Explained component trace event acts ∧
      Held component words (trace ++ [(event, acts)]) after := by
  cases event with
  | signal badge =>
    cases step
    exact ⟨.signal, held.signal allowed⟩
  | call message =>
    cases step
    exact ⟨.call, held.call allowed⟩
  | takeWord => exact held.takeWord badges step
  | takeCall => exact held.takeCall answers step

theorem run_held (badges : component.Badges words) (answers : component.Answers)
    (run : (system component words).Run component.boot trace s) :
    Held component words trace s ∧
      ∀ early event acts, early ++ [(event, acts)] <+: trace →
        Explained component early event acts := by
  induction run with
  | start =>
    refine ⟨⟨rfl, by simp [waiting], rfl, by simp [Component.boot]⟩, ?_⟩
    rintro early event acts ⟨rest, none⟩
    simp at none
  | @next trace before after event acts run allowed step ih =>
    obtain ⟨held, explained⟩ := ih
    obtain ⟨last, held⟩ := held.step badges answers allowed step
    refine ⟨held, fun early event' acts' within => ?_⟩
    rcases List.prefix_concat_iff.mp within with whole | earlier
    · obtain ⟨rfl, same⟩ := List.append_inj' whole rfl
      cases same
      exact last
    · exact explained early event' acts' earlier

theorem mem_serves {i : Nat} {b word : UInt64} {callback : UInt64 → Own → Own × List Cap}
    (registered : component.regHandlers[i]? = some (b, callback)) (covers : word &&& b = b) :
    .callback i b ∈ component.serves word := by
  refine List.mem_cons_of_mem _ (List.mem_filterMap.mpr ⟨((b, callback), i), ?_, if_pos covers⟩)
  exact List.mk_mem_zipIdx_iff_getElem?.mpr registered

/-- A signal waits until the next word is received, and that word reaches its handlers. -/
theorem signal_reaches {early late : List (Happens × List Act)} {badge : UInt64} {acts : List Act}
    (explained : ∀ first event did, first ++ [(event, did)] <+: early ++ (.signal badge, acts) ::
      late → Explained component first event did) {i : Nat} {b : UInt64}
    {callback : UInt64 → Own → Own × List Cap}
    (registered : component.regHandlers[i]? = some (b, callback)) (covers : badge &&& b = b) :
    badge ∈ waiting (early ++ (.signal badge, acts) :: late) ∨
      ∃ did, (.takeWord, did) ∈ late ∧ .callback i b ∈ did := by
  -- on the events since the signal: the word waits until one of them takes it
  induction late using List.reverseRecOn with
  | nil =>
    left
    rw [waiting_concat]
    simp
  | append_singleton late last ih =>
    obtain ⟨event, did⟩ := last
    have longer : early ++ (.signal badge, acts) :: (late ++ [(event, did)]) =
        (early ++ (.signal badge, acts) :: late) ++ [(event, did)] := by simp
    rw [longer] at explained ⊢
    have latest := explained _ event did (List.prefix_refl _)
    rcases ih fun first event did within =>
      explained first event did (within.trans (List.prefix_append _ _)) with waits | ⟨did', earlier⟩
    · rw [waiting_concat]
      cases latest with
      | signal => exact .inl (List.mem_append_left _ waits)
      | call => exact .inl waits
      | word =>
        have reaches := mem_serves registered (covers_union waits covers)
        exact .inr ⟨_, by simp, reaches⟩
      | answered => exact .inl waits
      | dealt => exact .inl waits
    · exact .inr ⟨did', by simp [earlier.1], earlier.2⟩

/-- In every interleaving of signals, calls and receives the component does exactly what the words and
calls ask for: a word is the union of the signals since the last one and reaches the handlers whose
bits it has, in order, and each call is handled once, in turn, with at most one reply. No signal is
lost: it is in the word that waits, or a later word has reached each of its handlers. -/
theorem messages_dispatched (badges : component.Badges words) (answers : component.Answers)
    (run : (system component words).Run component.boot trace s) :
    (∀ early event acts, early ++ [(event, acts)] <+: trace →
        Explained component early event acts) ∧
      (∀ early late badge acts, trace = early ++ (.signal badge, acts) :: late →
        ∀ i b callback, component.regHandlers[i]? = some (b, callback) → badge &&& b = b →
          (∃ word, s.word = some word ∧ word &&& b = b) ∨
            ∃ did, (.takeWord, did) ∈ late ∧ .callback i b ∈ did) ∧
      handled trace ++ s.senders = called trace := by
  obtain ⟨held, explained⟩ := run_held badges answers run
  refine ⟨explained, ?_, held.senders⟩
  rintro early late badge acts rfl i b callback registered covers
  rcases signal_reaches explained registered covers with waits | reached
  · have some : waiting (early ++ (.signal badge, acts) :: late) ≠ [] := List.ne_nil_of_mem waits
    have word := held.word
    rw [if_neg some] at word
    exact .inl ⟨_, word, covers_union waits covers⟩
  · exact .inr reached

end

/-- A server of one interface with badge 6 that answers each call, and two notifications. -/
def server : Component Nat Nat where
  realtime := true
  endpointBase := 4
  notificationBase := 1
  init := (0, [])
  handleMessage badge := if badge = 6 then some fun info own => ⟨own + 1, [], 1, info, true⟩ else none
  handleGlobalEndpointIrq _ own := (own, [])
  regHandlers := [(3, fun _ own => (own, [])), (9, fun _ own => (own, [5]))]

theorem messages_dispatched_server : ∃ words trace s,
    (system server words).Run server.boot trace s ∧
      (.takeWord, [.irq 11, .callback 0 3, .callback 1 9]) ∈ trace ∧
      (.takeCall, [.handle (6, 2), .reply (6, 2) 2]) ∈ trace ∧
      handled trace ++ s.senders = called trace := by
  let words (word : UInt64) : Prop := word = 3 ∨ word = 9 ∨ word = 11
  have badges : server.Badges words := by
    refine ⟨?_, ?_, ?_⟩
    · rintro first second (rfl | rfl | rfl) (rfl | rfl | rfl) <;>
        simp only [words] <;> decide
    · rintro word (rfl | rfl | rfl) <;> decide
    · rintro word (rfl | rfl | rfl) calls <;> exact calls.2 (by decide)
  have answers : server.Answers := by
    intro badge handle handler info own
    obtain ⟨_, here⟩ := Option.ite_none_right_eq_some.mp handler
    cases here
    exact .inl rfl
  have run : (system server words).Run server.boot [] _ := .start
  have run := run.on (.signal 3) (.inl rfl) rfl
  have run := run.on (.call (6, 2)) ⟨by decide, by decide⟩ rfl
  have run := run.on (.signal 9) (.inr (.inl rfl)) rfl
  have run := run.on .takeWord trivial rfl
  have run := run.on .takeCall trivial rfl
  exact ⟨words, _, _, run, by decide, by decide, (messages_dispatched badges answers run).2.2⟩

end GlobalComponents.SingleThreadedComponent
