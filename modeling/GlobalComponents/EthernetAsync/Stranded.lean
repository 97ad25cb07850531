import GlobalComponents.EthernetAsync.Transmit

/-! Frames that wait in the transmit ring, and who is going to look at the ring next.

The server stops at a frame that the driver refuses and sets `blocked_tx`. A completion that comes
while it is set also sets the server's action flag, which makes `notify_client` try again.
-/

set_option autoImplicit false

namespace GlobalComponents.EthernetAsync

open Library

/-- What the server sees and does at its borders. A call of `raw_tx` counts when it returns. -/
inductive Moment where
  | completion
  | rawTx (frame : Frame) (outcome : Outcome)
  | notification
  deriving DecidableEq

def Callback.moments : Callback → List Moment
  | .txComplete _ => [.completion]
  | .allocate | .receive _ _ | .rxComplete _ => []

def completions (calls : List Callback) : List Moment := calls.flatMap Callback.moments

def attempts : List RawTx → List (Frame × Outcome) → List Moment
  | rawTx :: rawTxs, (frame, outcome) :: offers =>
    completions rawTx.calls ++ .rawTx frame outcome :: attempts rawTxs offers
  | _, _ => []

def Link.handled (l : Link) (driving : Driving) (offers : List (Frame × Outcome)) : List Moment :=
  (if l.server.noRxBufs then completions driving.rawPoll else []) ++
    attempts driving.rawTxs offers

def Link.moments (l : Link) : Event → Result → List Moment
  | .serverInit calls, _ | .interrupt calls, _ => completions calls
  | .virtQueueHandleIrq driving, result => l.handled driving result.offers
  | .notifyClient driving, result =>
    if l.server.action then
      (if l.server.blockedTx then l.handled driving result.offers else []) ++ [.notification]
    else []
  | .clientInit, _ | .send _ _, _ | .poll _ _, _ | .notifyServer, _ | .irqFromEthernet, _ => []

def remember (l : Link) (event : Event) (result : Result) (past : List Moment) : List Moment :=
  past ++ l.moments event result

def Moment.returns : Moment → Bool
  | .rawTx _ _ => true
  | .completion | .notification => false

/-- The last call of `raw_tx` has blocked the queue, and a completion since then is remembered. -/
def Link.Refused (l : Link) (past : List Moment) : Prop :=
  ∃ early frame outcome late, past = early ++ .rawTx frame outcome :: late ∧
    outcome ≠ .enqueued ∧ late.any Moment.returns = false ∧
    (.completion ∈ late → l.server.action = true)

/-- Somebody is going to look at a ring that is not empty. -/
structure Link.Attended (l : Link) (past : List Moment) : Prop where
  seen : l.txQueue.avail ≠ [] →
    l.server.blockedTx = true ∨ l.client.action = true ∨ l.toServer = true
  waits : l.server.blockedTx = true → l.txQueue.avail ≠ []
  refused : l.server.blockedTx = true → l.Refused past

/-- The frame at the head is offered again, and only then is the client notified. -/
def Link.RetriesFirst (l : Link) (made : List Moment) : Prop :=
  ∃ calls frame outcome rest, l.queued.head? = some frame ∧
    made = completions calls ++ .rawTx frame outcome :: rest ++ [.notification] ∧
    .notification ∉ rest

variable {size : Nat} {l l' : Link} {past made : List Moment}

theorem completions_append (calls calls' : List Callback) :
    completions (calls ++ calls') = completions calls ++ completions calls' := List.flatMap_append

theorem completions_quiet (calls : List Callback) :
    (completions calls).any Moment.returns = false ∧ .notification ∉ completions calls := by
  induction calls with
  | nil => exact ⟨rfl, nofun⟩
  | cons call calls ih =>
    have whole : completions (call :: calls) = call.moments ++ completions calls :=
      List.flatMap_cons
    rw [whole, List.any_append, List.mem_append, ih.1]
    cases call with
    | txComplete cookie => exact ⟨rfl, fun found => found.elim nofun ih.2⟩
    | allocate | receive | rxComplete => exact ⟨rfl, fun found => found.elim nofun ih.2⟩

theorem attempts_quiet (rawTxs : List RawTx) (offers : List (Frame × Outcome)) :
    .notification ∉ attempts rawTxs offers := by
  induction rawTxs generalizing offers with
  | nil => exact nofun
  | cons rawTx rawTxs ih =>
    cases offers with
    | nil => exact nofun
    | cons offer offers =>
      intro found
      rcases List.mem_append.mp found with early | later
      · exact (completions_quiet rawTx.calls).2 early
      · rcases List.mem_cons.mp later with same | later
        · cases same
        · exact ih offers later

theorem attempts_nil (rawTxs : List RawTx) : attempts rawTxs [] = [] := by
  cases rawTxs with
  | nil | cons => rfl

theorem attempts_one (rawTx : RawTx) (rawTxs : List RawTx) (frame : Frame) (outcome : Outcome) :
    attempts (rawTx :: rawTxs) [(frame, outcome)] =
      completions rawTx.calls ++ [.rawTx frame outcome] := by
  rw [attempts, attempts_nil]

/-! ## The driver -/

structure Link.Reported (l : Link) (calls : List Callback) (l' : Link) : Prop where
  same : l.SameQueue l'
  toServer : l'.toServer = l.toServer
  blockedTx : l'.server.blockedTx = l.server.blockedTx
  action : l.server.action = true → l'.server.action = true
  completed : l.server.blockedTx = true → .completion ∈ completions calls →
    l'.server.action = true

theorem Link.Reported.none (l : Link) : l.Reported [] l := ⟨.refl l, rfl, rfl, id, nofun⟩

theorem Link.Reported.append {l'' : Link} {calls calls' : List Callback}
    (first : l.Reported calls l') (second : l'.Reported calls' l'') :
    l.Reported (calls ++ calls') l'' where
  same := first.same.trans second.same
  toServer := second.toServer.trans first.toServer
  blockedTx := second.blockedTx.trans first.blockedTx
  action set := second.action (first.action set)
  completed blocked found := by
    rw [completions_append] at found
    rcases List.mem_append.mp found with early | late
    · exact second.action (first.completed blocked early)
    · exact second.completed (first.blockedTx.trans blocked) late

theorem ethTxComplete_reported {cookie : Buf} (done : ethTxComplete l cookie = .ok l') :
    l.Reported [.txComplete cookie] l' := by
  obtain ⟨used, _, done⟩ := bind_ok.mp done
  cases done
  refine ⟨⟨rfl, rfl, rfl, rfl⟩, rfl, rfl, fun set => ?_, fun blocked _ => if_pos blocked⟩
  show (if l.server.blockedTx then true else l.server.action) = true
  rw [set, ite_self]

theorem Link.Reported.silent {call : Callback} (same : l.SameQueue l')
    (toServer : l'.toServer = l.toServer) (blockedTx : l'.server.blockedTx = l.server.blockedTx)
    (action : l.server.action = true → l'.server.action = true)
    (quiet : completions [call] = []) : l.Reported [call] l' where
  same := same
  toServer := toServer
  blockedTx := blockedTx
  action := action
  completed _ member := by
    rw [quiet] at member
    cases member

theorem callback_reported {call : Callback} {refused : Bool}
    (done : callback size l call = .ok (l', refused)) : l.Reported [call] l' := by
  cases call with
  | allocate =>
    rw [callback] at done
    unfold ethAllocateRxBuf at done
    by_cases large : size > bufSize
    · rw [if_pos large] at done
      cases done
      exact .silent (.refl _) rfl rfl id rfl
    · rw [if_neg large] at done
      cases avail : l.rxQueue.avail with
      | nil | cons =>
        rw [avail] at done
        cases done
        exact .silent ⟨rfl, rfl, rfl, rfl⟩ rfl rfl id rfl
  | receive buf written =>
    rw [callback] at done
    split at done
    · cases done
      exact .silent ⟨rfl, rfl, rfl, rfl⟩ rfl rfl id rfl
    · cases done
  | rxComplete bufs =>
    rw [callback] at done
    split at done
    · obtain ⟨after, completed, done⟩ := bind_ok.mp done
      obtain ⟨used, _, completed⟩ := bind_ok.mp completed
      cases completed
      cases done
      exact .silent ⟨rfl, rfl, rfl, rfl⟩ rfl rfl (fun _ => rfl) rfl
    · cases done
  | txComplete cookie =>
    rw [callback] at done
    split at done
    · obtain ⟨after, completed, done⟩ := bind_ok.mp done
      have reported := ethTxComplete_reported completed
      cases done
      exact ⟨⟨reported.same.client, reported.same.avail, reported.same.txMem,
        reported.same.ready⟩, reported.toServer, reported.blockedTx, reported.action,
        reported.completed⟩
    · cases done

theorem drive_reported {polled : Bool} {calls : List Callback}
    (done : drive size polled l calls = .ok l') : l.Reported calls l' := by
  have called : ∀ (calls : List Callback) (l : Link) (refused refused' : Bool),
      calls.foldlM (callbackNext size) (l, refused) = .ok (l', refused') →
        l.Reported calls l' := by
    intro calls
    induction calls with
    | nil =>
      intro l refused refused' done
      cases done
      exact .none _
    | cons call rest ih =>
      intro l refused refused' done
      rw [List.foldlM_cons] at done
      obtain ⟨⟨middle, denied⟩, one, done⟩ := bind_ok.mp done
      obtain ⟨_, one, _⟩ := callbackNext_ok one
      exact (callback_reported one).append (ih middle denied refused' done)
  obtain ⟨⟨after, refused⟩, made, done⟩ := bind_ok.mp done
  dsimp only at done
  split at done
  · cases done
  · cases done
    exact called calls l false refused made

/-! ## The handlers -/

def Link.Settled (l : Link) (made : List Moment) : Prop :=
  l.server.blockedTx = false ∧ l.txQueue.avail = [] ∨
    l.server.blockedTx = true ∧ l.txQueue.avail ≠ [] ∧
      ∃ early frame outcome, made = early ++ [.rawTx frame outcome] ∧ outcome ≠ .enqueued

theorem Link.Settled.before (settled : l.Settled made) (earlier : List Moment) :
    l.Settled (earlier ++ made) := by
  rcases settled with empty | ⟨blocked, left, early, frame, outcome, rfl, refused⟩
  · exact .inl empty
  · exact .inr ⟨blocked, left, earlier ++ early, frame, outcome,
      (List.append_assoc _ _ _).symm, refused⟩

theorem transmit_settles {rawTxs : List RawTx} {offers : List (Frame × Outcome)}
    (waits : l.server.blockedTx = true → l.txQueue.avail ≠ [])
    (done : transmit size rawTxs l = .ok (l', offers)) :
    l'.Settled (attempts rawTxs offers) ∧ l'.client = l.client ∧ l'.toServer = l.toServer := by
  -- on the calls of `raw_tx`: the loop goes on only behind one that was accepted
  induction rawTxs generalizing l offers with
  | nil =>
    rw [transmit] at done
    split at done
    · next empty =>
      cases done
      exact ⟨.inl ⟨Bool.eq_false_iff.mpr fun blocked => waits blocked empty, empty⟩, rfl, rfl⟩
    · cases done
  | cons rawTx rawTxs ih =>
    rw [transmit] at done
    cases avail : l.txQueue.avail with
    | nil =>
      rw [avail] at done
      cases done
      exact ⟨.inl ⟨Bool.eq_false_iff.mpr fun blocked => waits blocked avail, avail⟩, rfl, rfl⟩
    | cons entry rest =>
      rw [avail] at done
      obtain ⟨after, drove, done⟩ := bind_ok.mp done
      have reported := drive_reported drove
      split at done
      · next refused =>
        cases done
        have left : after.txQueue.avail ≠ [] := by
          rw [reported.same.avail, avail]
          exact List.cons_ne_nil _ _
        exact ⟨.inr ⟨rfl, left, completions rawTx.calls, _, _,
          attempts_one rawTx rawTxs _ _, refused⟩,
          reported.same.client, reported.toServer⟩
      · obtain ⟨⟨last, more⟩, others, done⟩ := bind_ok.mp done
        cases done
        obtain ⟨settled, client, toServer⟩ := ih (l := { after.setTxAvail after.txQueue.avail.tail
          with
          server := { after.server with blockedTx := false }
          device := { after.device with
            tx := after.device.tx ++ [(entry.buf, contents (l.txMem entry.buf) entry.len)] } })
          (fun blocked => Bool.noConfusion blocked) others
        have later := settled.before (completions rawTx.calls ++
          [.rawTx (contents (l.txMem entry.buf) entry.len) rawTx.outcome])
        rw [List.append_assoc] at later
        exact ⟨later, client.trans reported.same.client, toServer.trans reported.toServer⟩

theorem transmit_offers {rawTxs : List RawTx} {offers : List (Frame × Outcome)}
    (waits : l.txQueue.avail ≠ []) (done : transmit size rawTxs l = .ok (l', offers)) :
    ∃ calls frame outcome rest, l.queued.head? = some frame ∧
      attempts rawTxs offers = completions calls ++ .rawTx frame outcome :: rest := by
  obtain ⟨entry, rest, avail⟩ := List.exists_cons_of_ne_nil waits
  have head : l.queued.head? = some (contents (l.txMem entry.buf) entry.len) := by
    rw [Link.queued, avail, List.map_cons, List.head?_cons]
  cases rawTxs with
  | nil =>
    rw [transmit, if_neg waits] at done
    cases done
  | cons rawTx rawTxs =>
    rw [transmit, avail] at done
    obtain ⟨after, drove, done⟩ := bind_ok.mp done
    split at done
    · cases done
      exact ⟨rawTx.calls, _, _, [], head, attempts_one rawTx rawTxs _ _⟩
    · obtain ⟨⟨last, more⟩, others, done⟩ := bind_ok.mp done
      cases done
      exact ⟨rawTx.calls, _, _, attempts rawTxs more, head, rfl⟩

theorem virtQueueHandleIrq_settles {driving : Driving} {offers : List (Frame × Outcome)}
    (waits : l.server.blockedTx = true → l.txQueue.avail ≠ [])
    (done : virtQueueHandleIrq size l driving = .ok (l', offers)) :
    l'.Settled (l.handled driving offers) ∧ l'.client = l.client ∧ l'.toServer = l.toServer := by
  unfold virtQueueHandleIrq at done
  split at done
  · obtain ⟨after, polled, sent⟩ := bind_ok.mp done
    have reported := drive_reported polled
    have waits' : after.server.blockedTx = true → after.txQueue.avail ≠ [] := by
      rw [reported.blockedTx, reported.same.avail]
      exact waits
    obtain ⟨settled, client, toServer⟩ := transmit_settles waits' sent
    exact ⟨settled.before _, client.trans reported.same.client,
      toServer.trans reported.toServer⟩
  · obtain ⟨settled, same⟩ := transmit_settles waits done
    exact ⟨settled.before _, same⟩

theorem virtQueueHandleIrq_offers {driving : Driving} {offers : List (Frame × Outcome)}
    (waits : l.txQueue.avail ≠ []) (done : virtQueueHandleIrq size l driving = .ok (l', offers)) :
    ∃ calls frame outcome rest, l.queued.head? = some frame ∧
      l.handled driving offers = completions calls ++ .rawTx frame outcome :: rest := by
  unfold virtQueueHandleIrq at done
  unfold Link.handled
  split at done
  · next lacking =>
    obtain ⟨after, polled, sent⟩ := bind_ok.mp done
    have reported := drive_reported polled
    have waits' : after.txQueue.avail ≠ [] := by rwa [reported.same.avail]
    obtain ⟨calls, frame, outcome, rest, head, made⟩ := transmit_offers waits' sent
    refine ⟨driving.rawPoll ++ calls, frame, outcome, rest, ?_, ?_⟩
    · rwa [← reported.same.queued]
    · rw [if_pos lacking, made, completions_append, List.append_assoc]
  · next able =>
    rw [if_neg able]
    exact transmit_offers waits done

/-- A blocked queue is tried again from inside the notifier. -/
theorem notifyClient_retries {driving : Driving} {offers : List (Frame × Outcome)}
    (set : l.server.action = true) (blocked : l.server.blockedTx = true)
    (waits : l.txQueue.avail ≠ []) (done : notifyClient size l driving = .ok (l', offers)) :
    l.RetriesFirst (l.moments (.notifyClient driving) (.offered offers)) := by
  unfold notifyClient at done
  dsimp only at done
  rw [if_pos set, if_pos blocked] at done
  obtain ⟨⟨after, offers⟩, handled, done⟩ := bind_ok.mp done
  cases done
  obtain ⟨calls, frame, outcome, rest, head, made⟩ := virtQueueHandleIrq_offers waits handled
  have quiet : .notification ∉ l.handled driving offers := by
    intro found
    rcases List.mem_append.mp found with poll | sent
    · split at poll
      · exact (completions_quiet _).2 poll
      · cases poll
    · exact attempts_quiet _ _ sent
  rw [made] at quiet
  refine ⟨calls, frame, outcome, rest, head, ?_, fun found => quiet ?_⟩
  · rw [Link.moments, if_pos set, if_pos blocked]
    exact congrArg (· ++ _) made
  · exact List.mem_append_right _ (List.mem_cons_of_mem _ found)

/-! ## Runs -/

theorem Link.Reported.attended {calls : List Callback} (reported : l.Reported calls l')
    (attended : l.Attended past) : l'.Attended (past ++ completions calls) where
  seen left := by
    rw [reported.blockedTx, reported.same.client, reported.toServer]
    rw [reported.same.avail] at left
    exact attended.seen left
  waits blocked := by
    rw [reported.same.avail]
    exact attended.waits (reported.blockedTx.symm.trans blocked)
  refused blocked := by
    have before : l.server.blockedTx = true := reported.blockedTx.symm.trans blocked
    obtain ⟨early, frame, outcome, late, rfl, refused, quiet, noticed⟩ := attended.refused before
    refine ⟨early, frame, outcome, late ++ completions calls, List.append_assoc _ _ _, refused,
      ?_, fun found => ?_⟩
    · rw [List.any_append, quiet, (completions_quiet calls).1, Bool.or_false]
    · rcases List.mem_append.mp found with old | new
      · exact reported.action (noticed old)
      · exact reported.completed before new

theorem Link.Settled.attended (settled : l.Settled made) (rest : List Moment)
    (quiet : rest.any Moment.returns = false ∧ .completion ∉ rest) :
    l.Attended (past ++ (made ++ rest)) := by
  rcases settled with ⟨free, empty⟩ | ⟨blocked, left, early, frame, outcome, rfl, refused⟩
  · refine ⟨fun left => absurd empty left, fun blocked => ?_, fun blocked => ?_⟩
    all_goals
      rw [free] at blocked
      cases blocked
  · refine ⟨fun _ => .inl blocked, fun _ => left, fun _ => ?_⟩
    refine ⟨past ++ early, frame, outcome, rest, by simp, refused, quiet.1, ?_⟩
    exact fun found => absurd found quiet.2

theorem Link.Attended.of_same (attended : l.Attended past)
    (avail : l'.txQueue.avail = l.txQueue.avail) (server : l'.server = l.server)
    (client : l.client.action = true ∨ l.toServer = true →
      l'.client.action = true ∨ l'.toServer = true) : l'.Attended (past ++ []) where
  seen left := by
    rw [avail] at left
    rw [server]
    exact (attended.seen left).imp_right client
  waits blocked := by
    rw [avail]
    exact attended.waits (server ▸ blocked)
  refused blocked := by
    rw [List.append_nil]
    unfold Link.Refused
    rw [server]
    exact attended.refused (server ▸ blocked)

theorem picoEthSend_attended {input : Memory} {len : Nat} {frame : Option Frame}
    (attended : l.Attended past) (done : picoEthSend l input len = .ok (l', frame)) :
    l'.Attended (past ++ []) := by
  unfold picoEthSend at done
  dsimp only at done
  split at done
  · cases done
    exact attended.of_same rfl rfl id
  · next buf free draw =>
    obtain ⟨avail, queued, done⟩ := bind_ok.mp done
    cases done
    have server : free.server = l.server := by
      split at draw
      · cases draw
        rfl
      · split at draw
        · cases draw
          rfl
        · cases draw
    have queued : avail = free.txQueue.avail ++ [⟨buf, len⟩] := by
      unfold enqueue at queued
      split at queued
      · cases queued
        rfl
      · cases queued
    refine ⟨fun _ => .inr (.inl rfl), fun _ => ?_, fun blocked => ?_⟩
    · show avail ≠ []
      rw [queued]
      exact List.append_ne_nil_of_right_ne_nil _ (List.cons_ne_nil _ _)
    · rw [List.append_nil]
      have old := attended.refused (server ▸ blocked)
      unfold Link.Refused at old ⊢
      rw [← server] at old
      exact old

theorem pollLoop_same {recv : Nat → Int} {left score : Nat} {frames : List Frame}
    (done : pollLoop recv left l = .ok (l', score, frames)) :
    l'.txQueue = l.txQueue ∧ l'.server = l.server ∧ l'.client = l.client ∧
      l'.toServer = l.toServer := by
  induction left generalizing l score frames with
  | zero =>
    cases done
    exact ⟨rfl, rfl, rfl, rfl⟩
  | succ left ih =>
    rw [pollLoop] at done
    split at done
    · cases done
      exact ⟨rfl, rfl, rfl, rfl⟩
    · next entry rest used =>
      dsimp only at done
      split at done
      · cases done
        exact ⟨rfl, rfl, rfl, rfl⟩
      · obtain ⟨avail, _, done⟩ := bind_ok.mp done
        obtain ⟨⟨after, score, more⟩, polled, done⟩ := bind_ok.mp done
        cases done
        exact ih (l := { l with rxQueue := ⟨avail, rest⟩ }) polled

theorem picoEthPoll_same {loopScore score : Int} {recv : Nat → Int} {frames : List Frame}
    (done : picoEthPoll l loopScore recv = .ok (l', score, frames)) :
    l'.txQueue = l.txQueue ∧ l'.server = l.server ∧ l'.client = l.client ∧
      l'.toServer = l.toServer := by
  unfold picoEthPoll at done
  split at done
  · obtain ⟨⟨after, left, more⟩, polled, done⟩ := bind_ok.mp done
    cases done
    exact pollLoop_same polled
  · cases done
    exact ⟨rfl, rfl, rfl, rfl⟩

theorem notifyClient_attended {driving : Driving} {offers : List (Frame × Outcome)}
    (attended : l.Attended past) (done : notifyClient size l driving = .ok (l', offers)) :
    l'.Attended (past ++ l.moments (.notifyClient driving) (.offered offers)) := by
  unfold notifyClient at done
  dsimp only at done
  rw [Link.moments]
  split at done
  · next set =>
    rw [if_pos set]
    split at done
    · next blocked =>
      obtain ⟨⟨after, offers⟩, handled, done⟩ := bind_ok.mp done
      obtain ⟨settled, _⟩ := virtQueueHandleIrq_settles attended.waits handled
      cases done
      rw [if_pos blocked]
      have settled : ({ after with
          server := { after.server with action := false }, toClient := true } : Link).Settled
          (l.handled driving offers) := settled
      exact settled.attended [.notification] ⟨rfl, nofun⟩
    · next free =>
      cases done
      rw [if_neg free]
      exact ⟨attended.seen, attended.waits, fun blocked => absurd blocked free⟩
  · next unset =>
    cases done
    rw [if_neg unset]
    exact attended.of_same rfl rfl id

theorem run_attended {event : Event} {result : Result} (attended : l.Attended past)
    (done : l.run size event = .ok (l', result)) :
    l'.Attended (past ++ l.moments event result) := by
  cases event with
  | clientInit =>
    obtain ⟨after, started, done⟩ := bind_ok.mp done
    obtain ⟨avail, _, started⟩ := bind_ok.mp started
    cases started
    cases done
    exact attended.of_same rfl rfl fun _ => .inr rfl
  | serverInit calls =>
    obtain ⟨after, drove, done⟩ := bind_ok.mp done
    have later := (drive_reported drove).attended attended
    cases done
    exact ⟨later.seen, later.waits, later.refused⟩
  | send input len =>
    obtain ⟨⟨after, frame⟩, sent, done⟩ := bind_ok.mp done
    cases done
    exact picoEthSend_attended attended sent
  | poll loopScore recv =>
    obtain ⟨⟨after, score, frames⟩, polled, done⟩ := bind_ok.mp done
    cases done
    obtain ⟨tx, server, client, toServer⟩ := picoEthPoll_same polled
    apply attended.of_same (congrArg Virtqueue.avail tx) server
    rw [client, toServer]
    exact id
  | notifyServer =>
    cases done
    unfold notifyServer
    split
    · exact attended.of_same rfl rfl fun _ => .inr rfl
    · exact attended.of_same rfl rfl id
  | irqFromEthernet =>
    cases done
    exact attended.of_same rfl rfl id
  | virtQueueHandleIrq driving =>
    obtain ⟨⟨after, offers⟩, handled, done⟩ := bind_ok.mp done
    cases done
    obtain ⟨settled, _⟩ :=
      virtQueueHandleIrq_settles (l := { l with toServer := false }) attended.waits handled
    have later : l'.Attended (past ++ (_ ++ [])) := settled.attended [] ⟨rfl, nofun⟩
    rwa [List.append_nil] at later
  | notifyClient driving =>
    obtain ⟨⟨after, offers⟩, notified, done⟩ := bind_ok.mp done
    cases done
    exact notifyClient_attended attended notified
  | interrupt calls =>
    obtain ⟨after, drove, done⟩ := bind_ok.mp done
    cases done
    exact (drive_reported drove).attended attended

theorem Link.Attended.init : Link.init.Attended [] where
  seen left := absurd rfl left
  waits := nofun
  refused := nofun

theorem run_attended_all {trace : List (Event × Result)} {final : Link × List Moment}
    (run : ((machine size).record remember).Run (.init, []) trace final) :
    final.1.Attended final.2 := by
  have preserved : ∀ before event after result, before.1.Attended before.2 →
      ((machine size).record remember).allowed before event →
      ((machine size).record remember).step before event = some (after, result) →
      after.1.Attended after.2 := by
    intro before event after result attended _ step
    obtain ⟨step, past⟩ := Machine.record_step step
    rw [past]
    exact run_attended attended (run_of_step step)
  exact run.invariant .init preserved

/-- A frame that waits is known to one of the parties. The queue is blocked by a call of `raw_tx`
that was refused, and after a completion since then the notifier offers the head again before it
tells the client. -/
theorem no_frame_stranded {trace : List (Event × Result)} {final : Link} {past : List Moment}
    (run : ((machine size).record remember).Run (.init, []) trace (final, past)) :
    (final.txQueue.avail ≠ [] →
      final.server.blockedTx = true ∨ final.client.action = true ∨ final.toServer = true) ∧
    (final.server.blockedTx = true → final.txQueue.avail ≠ []) ∧
    (final.server.blockedTx = true → ∃ early frame outcome late,
      past = early ++ .rawTx frame outcome :: late ∧ outcome ≠ .enqueued ∧
        (∀ frame outcome, .rawTx frame outcome ∉ late) ∧
        (.completion ∈ late → final.server.action = true ∧ ∀ driving after result,
          (machine size).step final (.notifyClient driving) = some (after, result) →
          final.RetriesFirst (final.moments (.notifyClient driving) result))) := by
  have attended : final.Attended past := run_attended_all run
  refine ⟨attended.seen, attended.waits, fun blocked => ?_⟩
  obtain ⟨early, frame, outcome, late, whole, refused, quiet, noticed⟩ := attended.refused blocked
  refine ⟨early, frame, outcome, late, whole, refused, ?_, fun found => ⟨noticed found, ?_⟩⟩
  · intro frame outcome found
    have returned := List.any_eq_false.mp quiet _ found
    exact returned rfl
  · intro driving after result step
    obtain ⟨⟨last, offers⟩, notified, done⟩ := bind_ok.mp (run_of_step step)
    cases done
    exact notifyClient_retries (noticed found) blocked (attended.waits blocked) notified

/-- The second of two frames is refused, and then the first one is completed. -/
theorem no_frame_stranded_refused : ∃ trace final past,
    ((machine bufSize).record remember).Run (.init, []) trace (final, past) ∧
      past = [.rawTx [7] .enqueued, .rawTx [8] .failed, .completion] ∧
      (final.txQueue.avail ≠ [] →
        final.server.blockedTx = true ∨ final.client.action = true ∨ final.toServer = true) ∧
      (final.server.blockedTx = true → final.txQueue.avail ≠ []) ∧
      (final.server.blockedTx = true → ∃ early frame outcome late,
        past = early ++ .rawTx frame outcome :: late ∧ outcome ≠ .enqueued ∧
          (∀ frame outcome, .rawTx frame outcome ∉ late) ∧
          (.completion ∈ late → final.server.action = true ∧ ∀ driving after result,
            (machine bufSize).step final (.notifyClient driving) = some (after, result) →
            final.RetriesFirst (final.moments (.notifyClient driving) result))) := by
  have begun : ((machine bufSize).record remember).Run (.init, []) [] _ := .start
  have ready := begun.onRecord .clientInit rfl (step_of_run (run_clientInit rfl))
  have first := ready.onRecord (.send (fun _ => 7) 1) ⟨rfl, by decide⟩ rfl
  have second := first.onRecord (.send (fun _ => 8) 1) ⟨rfl, by decide⟩ rfl
  have served := second.onRecord (.serverInit [.allocate]) rfl rfl
  have refused := served.onRecord
    (.virtQueueHandleIrq ⟨[], [⟨[], .enqueued⟩, ⟨[], .failed⟩]⟩) ⟨rfl, rfl⟩ rfl
  have completed := refused.onRecord (.interrupt [.txComplete 253]) rfl rfl
  exact ⟨_, _, _, completed, rfl, no_frame_stranded completed⟩

end GlobalComponents.EthernetAsync
