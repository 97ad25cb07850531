import GlobalComponents.PicoServer.Custody

/-! Every descriptor that the server takes is given back once.

What a socket holds back is in its pending lists, which are well formed whatever the clients and the
stack do. Closing a socket, or making it synchronous, gives everything back.
-/

set_option autoImplicit false

namespace GlobalComponents.PicoServer

open Library

/-! ## No list is found inconsistent -/

section
variable {config : Config} {s : Server} {dir : Dir} {record socket : Ptr} {c fuel : Nat}
  {α β : Type}

/-- No pending list is found inconsistent on the way. -/
def Coherent (computation : Except Fault α) : Prop := Ends (· ≠ inconsistent) (fun _ => True) computation

theorem Coherent.bind {first : Except Fault α} {rest : α → Except Fault β} (coherent : Coherent first)
    (then' : ∀ value, first = .ok value → Coherent (rest value)) : Coherent (first >>= rest) :=
  (coherent.returns (fun _ => id) fun _ done => done).bind then'

theorem Coherent.ok (value : α) : Coherent (.ok value : Except Fault α) := trivial

theorem Coherent.error {fault : Fault} (other : fault ≠ inconsistent) :
    Coherent (.error fault : Except Fault α) := other

theorem deref_coherent : Coherent (s.deref record) := deref_ends.mono fun _ _ => trivial

theorem faultIf_coherent {cond : Prop} [Decidable cond] {fault : Fault} (other : fault ≠ inconsistent) :
    Coherent (faultIf cond fault) := by
  rw [faultIf]
  split
  · exact other
  · trivial

theorem findFreeId_coherent (client : Client) : Coherent (findFreeId client) := by
  have loop : ∀ fuel curr,
      Coherent (findFreeIdLoop client.socketTable client.bumpIndex fuel curr) := by
    intro fuel
    induction fuel with
    -- running out of fuel is a fault of its own, not an inconsistent queue
    | zero => exact fun _ => nofun
    | succ fuel ih =>
      intro curr
      rw [findFreeIdLoop]
      dsimp only
      split
      · exact .ok _
      · split
        · split
          · exact .ok _
          · exact ih _
        · split
          · exact .ok _
          · exact ih _
  exact (loop _ _).bind fun _ _ => .ok _

theorem invalidateOld_coherent {address : Ptr} : Coherent (invalidateOld s c record address) :=
  deref_coherent.bind fun _ _ => (faultIf_coherent (by decide)).bind fun _ _ =>
    (faultIf_coherent (by decide)).bind fun _ _ => (faultIf_coherent (by decide)).bind fun _ _ => .ok _

theorem putSocketAddr_coherent {iter : Nat} {id : UInt32} {memory : Bool} :
    Coherent (putSocketAddr s c record iter id memory) := by
  refine deref_coherent.bind fun new _ => ?_
  dsimp only
  split
  · exact .ok _
  · split
    · exact invalidateOld_coherent.bind fun _ _ => .ok _
    · exact .ok _

theorem clientPutSocket_coherent {memory : Bool × Bool} :
    Coherent (clientPutSocket config s c record memory) := by
  refine (faultIf_coherent (by decide)).bind fun _ _ => ?_
  refine (findFreeId_coherent _).bind fun ⟨id, client⟩ _ => ?_
  dsimp only
  split
  · exact .ok _
  · split
    · exact .ok _
    · exact (faultIf_coherent (by decide)).bind fun _ _ => putSocketAddr_coherent

theorem putNewSocket_coherent {protocol : Protocol} {memory : Bool × Bool} :
    Coherent (putNewSocket config s c record socket protocol memory) := by
  refine clientPutSocket_coherent.bind fun ⟨put, ret⟩ _ => ?_
  dsimp only
  split
  · exact .ok _
  · exact deref_coherent.bind fun _ _ => .ok _

theorem clientCheck_coherent : Coherent (clientCheck config s) := by
  rw [clientCheck]
  split
  · exact .error (by decide)
  · split
    · exact .error (by decide)
    · exact .ok _

theorem clientDeleteSocket_coherent {fd : Int32} : Coherent (clientDeleteSocket s c fd) := by
  rw [clientDeleteSocket]
  dsimp only
  split
  · exact .ok _
  · exact deref_coherent.bind fun _ _ => (faultIf_coherent (by decide)).bind fun _ _ => .ok _

theorem clientGetEvent_coherent : Coherent (clientGetEvent s c) := by
  rw [clientGetEvent]
  dsimp only
  split
  · exact .ok _
  · split
    · exact .ok _
    · split
      · exact .error (by decide)
      · exact deref_coherent.bind fun _ _ => .ok _

theorem clientPutEvent_coherent {fd : Int32} {ev : UInt16} {memory : Bool} :
    Coherent (clientPutEvent s c fd ev memory) := by
  rw [clientPutEvent]
  split
  · exact .ok _
  · exact deref_coherent.bind fun _ _ => .ok _

theorem reportEvent_coherent {clientSocket : Socket} {ev : UInt16} {memory : Bool} :
    Coherent (reportEvent s clientSocket ev memory) := by
  rw [reportEvent]
  split
  · exact .ok _
  · exact clientPutEvent_coherent.bind fun _ _ =>
      (faultIf_coherent (by decide)).bind fun _ _ => .ok _

theorem cleanupLoop_coherent (sound : s.Sound config) :
    Ends (· ≠ inconsistent) (fun after => after.Sound config)
      (cleanupLoop config dir record fuel s) := by
  -- each pass starts from a sound state again, since a dropped message keeps it sound
  induction fuel generalizing s with
  | zero => exact nofun
  | succ fuel ih =>
    refine (socketHead_ends sound).bind fun found head => ?_
    cases found with
    | none => exact sound
    | some found =>
      obtain ⟨socket, async, msg⟩ := found
      exact ih (sound.step (.drop (head socket async msg rfl)))

theorem cleanupAsyncSocket_coherent (sound : s.Sound config) :
    Coherent (cleanupAsyncSocket config s record) := by
  refine deref_coherent.bind fun socket _ => ?_
  split
  · exact .ok _
  · refine (cleanupLoop_coherent sound).bind fun _ sound => ?_
    refine (cleanupLoop_coherent sound).bind fun _ _ => ?_
    exact deref_coherent.bind fun _ _ => .ok _

theorem control_coherent {client : Nat} {call : Control} (sound : s.Sound config) :
    Coherent (controlHandleMessage config s client call) := by
  have called : Aside s { s with controlBadge := enumerateBadge config.controlBadges client } :=
    .of_same (funext fun dir => by cases dir with | tx | rx => rfl) rfl rfl rfl
  have sound := sound.elim fun waiting owned => (⟨waiting, owned.aside called⟩ : Server.Sound _ _)
  unfold controlHandleMessage
  dsimp only
  generalize { s with controlBadge := enumerateBadge config.controlBadges client } = t at sound ⊢
  cases call with
  | «open» isUdp record socket memory =>
    refine clientCheck_coherent.bind fun _ _ => ?_
    cases record with
    | none => exact .ok _
    | some record =>
      dsimp only
      split
      · exact .ok _
      · exact putNewSocket_coherent.bind fun _ _ => .ok _
  | accept fd socket peer port record memory =>
    refine clientCheck_coherent.bind fun _ _ => ?_
    split
    · exact .ok _
    · refine deref_coherent.bind fun _ _ => ?_
      split
      · exact .ok _
      · cases record with
        | none => exact .ok _
        | some record =>
          refine putNewSocket_coherent.bind fun ⟨_, ret⟩ _ => ?_
          dsimp only
          split
          · exact .ok _
          · exact .ok _
  | close fd =>
    refine clientCheck_coherent.bind fun _ _ => ?_
    split
    · exact .ok _
    · refine (cleanupAsyncSocket_coherent sound).bind fun _ _ => ?_
      exact clientDeleteSocket_coherent.bind fun _ _ => .ok _
  | setAsync fd enabled memory =>
    refine clientCheck_coherent.bind fun _ _ => ?_
    split
    · exact .ok _
    · refine deref_coherent.bind fun _ _ => ?_
      split
      · split
        · exact .ok _
        · exact .ok _
      · split
        · exact (cleanupAsyncSocket_coherent sound).bind fun _ _ => .ok _
        · exact .ok _
  | eventPoll =>
    exact clientCheck_coherent.bind fun _ _ => clientGetEvent_coherent.bind fun _ _ => .ok _
  | stack fd ret =>
    refine clientCheck_coherent.bind fun _ _ => ?_
    split
    · exact .ok _
    · exact deref_coherent.bind fun _ _ => .ok _
  | getIpv4 device => exact .ok _

theorem communicate_coherent {badges : List UInt64} {bufSize : UInt64 → UInt64} {call : StackCall}
    {issuer : Nat} {fd len bufferOffset ret : Int32} :
    Coherent (communicate config badges bufSize call s issuer fd len bufferOffset ret) := by
  refine clientCheck_coherent.bind fun _ _ => ?_
  dsimp only
  split
  · exact .ok _
  · exact deref_coherent.bind fun _ _ => .ok _

theorem socketCb_coherent {ev : UInt16} {answers : List Answer} {memory : Bool}
    (sound : s.Sound config) : Coherent (socketCb config s ev socket answers memory) := by
  rw [socketCb]
  split
  · split
    · exact .ok _
    · intro same
      cases same
  · refine deref_coherent.bind fun clientSocket _ => ?_
    split
    · exact (serveAsync_ends sound).bind fun _ _ => reportEvent_coherent
    · exact reportEvent_coherent

/-- Whatever happens, no assertion about a pending list fires. -/
theorem Server.Sound.coherent (sound : s.Sound config) (event : Event) :
    s.step config event ≠ .error inconsistent := by
  have coherent : Coherent (s.step config event) := by
    cases event with
    | control => exact control_coherent sound
    | communicate client call =>
      cases call with
      | write | send | sendto | read | recv | recvfrom => exact communicate_coherent
    | callback => exact (socketCb_coherent sound).bind fun _ _ => .ok _
    | putEvent => exact clientPutEvent_coherent.bind fun _ _ => .ok _
    | irq =>
      refine (queueHandle_ends sound).bind fun _ sound => ?_
      exact (queueHandle_ends sound).bind fun _ _ => Coherent.ok _
    | notify | submit | collect => exact .ok _
  intro fault
  rw [fault] at coherent
  exact coherent rfl

end

/-! ## Every descriptor is in one place -/

/-- The pending lists lead through these messages. -/
structure Server.Lists (s : Server) (waiting : Dir → Ptr → List Ptr) : Prop where
  linked : ∀ dir record async, s.transport record = some async →
    Linked (fun msg => (s.msgs msg).next) (async.pending dir).queue (async.pending dir).queueEnd
      (waiting dir record)
  none : ∀ dir record, s.transport record = none → waiting dir record = []
  nodup : ∀ dir record, (waiting dir record).Nodup
  ends : ∀ dir record async, s.transport record = some async →
    ((async.pending dir).queue = Option.none ↔ (async.pending dir).queueEnd = Option.none)

/-- A descriptor has been given back as often as it has been taken, or once less. In the second case
one message of one pending list has it. -/
inductive GivenBack (s : Server) (waiting : Dir → Ptr → List Ptr) (dir : Dir) (handle : UInt32) :
    Prop where
  | done : took s.journal dir handle = completed s.journal dir handle →
      (∀ record msg, msg ∈ waiting dir record → (s.msgs msg).cookieSave ≠ handle) →
      GivenBack s waiting dir handle
  | waits (record msg : Ptr) :
      took s.journal dir handle = completed s.journal dir handle + 1 →
      msg ∈ waiting dir record → (s.msgs msg).cookieSave = handle →
      (∀ d r m, m ∈ waiting d r → d = dir → (s.msgs m).cookieSave = handle →
        r = record ∧ m = msg) →
      GivenBack s waiting dir handle

section
variable {config : Config} {s after : Server} {dir d : Dir} {record msg m : Ptr}
  {handle : UInt32} {waiting : Dir → Ptr → List Ptr}

theorem Owned.lists (owned : Owned config.ringSize s.view waiting) : s.Lists waiting where
  linked := owned.linked
  none := owned.idle
  nodup := owned.waiting_nodup
  ends dir record async held := by
    have linked := owned.linked dir record async held
    rw [linked.first_eq_none, linked.last_eq_none]

theorem Owned.lent_msg (owned : Owned config.ringSize s.view waiting)
    (here : (handle, msg) ∈ (s.queue dir).lent) (there : (handle, m) ∈ (s.queue dir).lent) :
    m = msg := by
  have both := List.inj_on_of_nodup_map (owned.handles dir) there here rfl
  exact congrArg Prod.snd both

theorem mem_keys {entries : List (UInt32 × Ptr)} :
    handle ∈ entries.map Prod.fst ↔ ∃ msg, (handle, msg) ∈ entries := by
  simp

theorem Owned.lent_count (owned : Owned config.ringSize s.view waiting)
    (lent : (handle, msg) ∈ (s.queue dir).lent) :
    ((s.queue dir).lent.map Prod.fst).count handle = 1 :=
  List.count_eq_one_of_mem (owned.handles dir) (mem_keys.mpr ⟨msg, lent⟩)

theorem Owned.available_count (owned : Owned config.ringSize s.view waiting)
    (available : (handle, msg) ∈ (s.queue dir).available) :
    ((s.queue dir).available.map Prod.fst).count handle = 1 := by
  refine List.count_eq_one_of_mem ?_ (mem_keys.mpr ⟨msg, available⟩)
  have nodup : (s.queue dir).available.Nodup := owned.available dir
  refine List.Nodup.map_on (fun entry member other member' same => ?_) nodup
  have lent : entry ∈ (s.queue dir).lent := owned.available_lent member
  have lent' : other ∈ (s.queue dir).lent := owned.available_lent member'
  exact List.inj_on_of_nodup_map (owned.handles dir) lent lent' same

theorem Owned.givenBack (owned : Owned config.ringSize s.view waiting) (dir : Dir)
    (handle : UInt32) : GivenBack s waiting dir handle := by
  have balance : took s.journal dir handle + ((s.queue dir).available.map Prod.fst).count handle =
      completed s.journal dir handle + ((s.queue dir).lent.map Prod.fst).count handle :=
    owned.balance dir handle
  -- the balance leaves three places for a descriptor: the ring, a socket, or its client
  by_cases lent : handle ∈ (s.queue dir).lent.map Prod.fst
  · obtain ⟨msg, entry⟩ := mem_keys.mp lent
    rw [owned.lent_count entry] at balance
    rcases (owned.lent dir handle msg).mp entry with available | ⟨record, waits, cookie⟩
    · refine .done ?_ fun r msg' member same => ?_
      · have once := owned.available_count available
        omega
      · have again := owned.waiting_lent member
        rw [show (s.view.msgs msg').cookieSave = handle from same] at again
        obtain rfl := owned.lent_msg entry again
        exact owned.available_waits available member
    · refine .waits record msg ?_ waits cookie ?_
      · have gone : handle ∉ (s.queue dir).available.map Prod.fst := by
          intro available
          obtain ⟨m, available⟩ := mem_keys.mp available
          obtain rfl := owned.lent_msg entry (owned.available_lent available)
          exact owned.available_waits available waits
        rw [List.count_eq_zero_of_not_mem gone] at balance
        exact balance
      · rintro d r m member rfl same
        have again := owned.waiting_lent member
        rw [show (s.view.msgs m).cookieSave = handle from same] at again
        obtain rfl := owned.lent_msg entry again
        exact ⟨(owned.waits_once waits member).2, rfl⟩
  · refine .done ?_ fun r m member same => ?_
    · have gone : handle ∉ (s.queue dir).available.map Prod.fst := by
        intro available
        obtain ⟨msg, available⟩ := mem_keys.mp available
        exact lent (mem_keys.mpr ⟨msg, owned.available_lent available⟩)
      rw [List.count_eq_zero_of_not_mem gone, List.count_eq_zero_of_not_mem lent] at balance
      exact balance
    · rw [← same] at lent
      exact lent (mem_keys.mpr ⟨m, owned.waiting_lent member⟩)

end

/-! ## Sockets that give everything back -/

def Server.disabled (config : Config) (s : Server) (client : Nat) (call : Control) : Option Ptr :=
  let s := { s with controlBadge := enumerateBadge config.controlBadges client }
  match call, clientCheck config s with
  | .close fd, .ok clientId | .setAsync fd false _, .ok clientId =>
    serverControlCommon s clientId fd
  | _, _ => none

def GivenUp (s : Server) (dir : Dir) (record msg : Ptr) (journal : List Action) : Prop :=
  ∃ content : Msg, content.doneLen = -1 ∧
    Action.completed dir (some record) (s.msgs msg).cookieSave 0 content ∈ journal

section
variable {config : Config} {s after start : Server} {dir : Dir} {record msg : Ptr}
  {socket : Socket} {async : Async} {waiting : Dir → Ptr → List Ptr} {client : Nat}
  {call : Control} {reply : Reply} {trace : List (Turn × Reply)}

theorem Drops.givenUp (drops : Drops config record s after)
    (owned : Owned config.ringSize s.view waiting) :
    ∃ waiting' more, Owned config.ringSize after.view waiting' ∧
      after.journal = s.journal ++ more ∧
      ∀ d m, m ∈ waiting d record → m ∈ waiting' d record ∨ GivenUp s d record m more := by
  -- on the messages that go back, each of which waited until then
  induction drops generalizing waiting with
  | refl s => exact ⟨waiting, [], owned, (List.append_nil _).symm, fun _ _ waits => .inl waits⟩
  | @next s after dir msg socket async head _ ih =>
    obtain ⟨middle, works⟩ := owned.drops_first head
    obtain ⟨first, _, journal⟩ := works.journal
    rw [if_neg Bool.false_ne_true, List.append_assoc] at journal
    obtain ⟨waiting', rest, owned', journal', others⟩ := ih works.owned
    rw [journal, List.append_assoc] at journal'
    refine ⟨waiting', _, owned', journal', fun d m waits => ?_⟩
    -- the first message is given up in this pass, the others are what later passes find
    by_cases here : m = msg
    · subst here
      have front := owned.head head
      obtain ⟨_, front⟩ := front
      have own : m ∈ waiting dir record := front ▸ List.mem_cons_self
      obtain ⟨rfl, _⟩ := owned.waits_once waits own
      refine .inr ⟨_, works.doneLen, ?_⟩
      exact List.mem_append_left _ (List.mem_append_right _ (List.mem_singleton_self _))
    · obtain ⟨_, _, same, _⟩ := unlinked_eq (works.touches.content m here)
      refine (others d m ((works.others d record m here).mpr waits)).imp_right ?_
      rintro ⟨content, failed, member⟩
      rw [same] at member
      exact ⟨content, failed, List.mem_append_right _ member⟩

theorem CleanedUp.givenUp (cleaned : CleanedUp config record s after)
    (owned : Owned config.ringSize s.view waiting) :
    ∃ more, after.journal = s.journal ++ more ∧
      ∀ d m, m ∈ waiting d record → GivenUp s d record m more := by
  obtain ⟨called, middle, first, drops, rests, last⟩ := cleaned.drops
  obtain ⟨early, journal, _⟩ := first.journal
  obtain ⟨late, journal'', _⟩ := last.journal
  obtain ⟨waiting', more, owned', journal', given⟩ := drops.givenUp (owned.aside first)
  refine ⟨early ++ more ++ late, ?_, fun d m waits => ?_⟩
  · rw [journal'', journal', journal, List.append_assoc, List.append_assoc, List.append_assoc]
  · have given := (given d m waits).resolve_left (by rw [owned'.resting rests d]; nofun)
    obtain ⟨content, failed, member⟩ := given
    rw [first.msgs] at member
    exact ⟨content, failed, List.mem_append_left _ (List.mem_append_right _ member)⟩

theorem disabled_cleanedUp (owned : Owned config.ringSize s.view waiting)
    (found : s.disabled config client call = some record)
    (done : s.step config (.control client call) = .ok (after, reply)) :
    CleanedUp config record s after := by
  have called : Aside s { s with controlBadge := enumerateBadge config.controlBadges client } :=
    .of_same (funext fun dir => by cases dir with | tx | rx => rfl) rfl rfl rfl
  replace owned := owned.aside called
  change controlHandleMessage config s client call = .ok (after, reply) at done
  unfold controlHandleMessage at done
  unfold Server.disabled at found
  dsimp only at done found
  refine .before called ?_
  generalize { s with controlBadge := enumerateBadge config.controlBadges client } = t
    at owned found done
  split at found
  · next fd clientId checked => exact picoControlClose_cleanedUp owned checked found done
  · next fd memory clientId checked =>
    exact picoControlSetAsync_cleanedUp owned checked found done
  · cases found

/-- In every state of every run, whatever the order of the turns: the pending lists are well formed,
each descriptor that has been taken waits in one place or has been given back, no list is found
inconsistent, and a socket that is closed or made synchronous gives all its messages back. -/
theorem messages_given_back_once (idle : start.Idle config)
    (run : (turns config).Run start trace s) :
    ∃ waiting, s.Lists waiting ∧ (∀ dir handle, GivenBack s waiting dir handle) ∧
      (∀ event, s.step config event ≠ .error inconsistent) ∧
      ∀ client call record after reply, s.disabled config client call = some record →
        s.step config (.control client call) = .ok (after, reply) →
        after.service record = none ∧ ∃ more, after.journal = s.journal ++ more ∧
          ∀ dir msg, msg ∈ waiting dir record → GivenUp s dir record msg more := by
  have sound := run_sound idle run
  obtain ⟨waiting, owned⟩ := sound
  refine ⟨waiting, owned.lists, owned.givenBack, Server.Sound.coherent ⟨waiting, owned⟩, ?_⟩
  intro client call record after reply found done
  have cleaned := disabled_cleanedUp owned found done
  exact ⟨cleaned.gone, cleaned.givenUp owned⟩

end

def sendTwo : List Turn :=
  [.other (.control 0 (.setAsync 1 true true)),
    .other (.submit .tx 7 0x3000 { blankMsg with socketFd := 1, totalLen := 10 }),
    .other (.submit .tx 8 0x3100 { blankMsg with socketFd := 1, totalLen := 10 }),
    .handle .tx [⟨4, [], 0, 0⟩], .handle .tx [], .serve .tx 0x1000 ⟨6, [], 0, 0⟩]

theorem messages_given_back_once_two : ∃ trace s,
    (turns twoClients).Run (.init fun _ => blankMsg) trace s ∧
      (completed s.journal .tx 7 = 1 ∧ took s.journal .tx 8 = 1 ∧ completed s.journal .tx 8 = 0) ∧
      ∃ waiting, s.Lists waiting ∧ ∀ dir handle, GivenBack s waiting dir handle := by
  have evaluated : (((turns twoClients).step (.init fun _ => blankMsg) openUdp).bind fun opened =>
      (turns twoClients).exec (fun s turn => turn.checked twoClients s && true)
        [(openUdp, opened.2)] opened.1 sendTwo).any (fun result =>
          decide (completed result.2.journal .tx 7 = 1 ∧ took result.2.journal .tx 8 = 1 ∧
            completed result.2.journal .tx 8 = 0)) = true := by
    decide +kernel
  obtain ⟨⟨trace, s⟩, done, counts⟩ := (Option.any_eq_true _ _).mp evaluated
  obtain ⟨run, _⟩ := opened_run (fun _ _ => True) (fun _ _ _ => trivial) trivial done
  obtain ⟨waiting, lists, given, _⟩ := messages_given_back_once (init_idle _) run
  exact ⟨trace, s, run, of_decide_eq_true counts, waiting, lists, given⟩

end GlobalComponents.PicoServer
