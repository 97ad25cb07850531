import GlobalComponents.EthernetAsync.Link
import GlobalComponents.Library.Except

/-! Refilled receive buffers and the notification of the server.

`pico_eth_poll` gives buffers back without setting the client's flag. A server that has run out of
buffers, and whose device holds none any more, learns of them only if something else is sent.
-/

set_option autoImplicit false

namespace GlobalComponents.EthernetAsync

open Library

/-- The server cannot learn of a refilled buffer unless `reason`. -/
def Link.Unseen (l : Link) (reason : Prop) : Prop :=
  l.device.rx = [] → l.server.noRxBufs = true → l.rxQueue.avail ≠ [] → reason

/-- The server is going to see the buffers that the client has refilled. -/
def Link.Seen (l : Link) : Prop := l.Unseen (l.client.action = true ∨ l.toServer = true)

def Link.recycles (l : Link) (loopScore : Int) (recv : Nat → Int) : Prop :=
  loopScore > 0 ∧ ∃ entry rest, l.rxQueue.used = entry :: rest ∧
    ¬(entry.len > 0 ∧ recv (loopScore.toNat - 1) ≤ 0)

/-- The client does not give a buffer back when nothing will make the server look for it. -/
def Link.Refills (l : Link) (event : Event) : Prop :=
  ∀ loopScore recv, event = .poll loopScore recv → l.recycles loopScore recv →
    ¬(l.device.rx = [] ∧ l.server.noRxBufs = true ∧ l.client.action = false ∧ l.toServer = false)

/-- A driver that asks for larger buffers than there are is always refused, and the server does not
take that for a lack of buffers. -/
def Link.Sized (size : Nat) (l : Link) : Prop := size > bufSize → l.server.noRxBufs = false

structure Link.SameRx (l l' : Link) : Prop where
  rx : l'.device.rx = l.device.rx
  noRxBufs : l'.server.noRxBufs = l.server.noRxBufs
  avail : l'.rxQueue.avail = l.rxQueue.avail

variable {size : Nat} {l l' : Link} {reason : Prop}

theorem Link.SameRx.unseen (same : l.SameRx l') (unseen : l.Unseen reason) : l'.Unseen reason := by
  unfold Link.Unseen at unseen ⊢
  rwa [same.rx, same.noRxBufs, same.avail]

theorem Link.SameRx.sized (same : l.SameRx l') (sized : l.Sized size) : l'.Sized size :=
  fun large => same.noRxBufs.trans (sized large)

structure Link.SameClient (l l' : Link) : Prop where
  client : l'.client = l.client
  toServer : l'.toServer = l.toServer

theorem Link.SameClient.refl (l : Link) : l.SameClient l := ⟨rfl, rfl⟩

theorem Link.SameClient.trans {l'' : Link} (first : l.SameClient l') (second : l'.SameClient l'') :
    l.SameClient l'' :=
  ⟨second.client.trans first.client, second.toServer.trans first.toServer⟩

/-! ## The driver -/

theorem ethTxComplete_same {cookie : Buf} (done : ethTxComplete l cookie = .ok l') :
    l.SameRx l' ∧ l.SameClient l' ∧ l'.device = l.device := by
  obtain ⟨used, _, done⟩ := bind_ok.mp done
  cases done
  exact ⟨⟨rfl, rfl, rfl⟩, ⟨rfl, rfl⟩, rfl⟩

theorem ethRxComplete_same {bufs : List (Buf × Nat)} (done : ethRxComplete l bufs = .ok l') :
    l.SameRx l' ∧ l.SameClient l' ∧ l'.device = l.device := by
  obtain ⟨used, _, done⟩ := bind_ok.mp done
  cases done
  exact ⟨⟨rfl, rfl, rfl⟩, ⟨rfl, rfl⟩, rfl⟩

/-- A driver that asks for a buffer now asks in vain, or the server does not wait for buffers. -/
def Link.Denied (l : Link) : Prop := l.rxQueue.avail = [] ∨ l.server.noRxBufs = false

theorem Link.SameRx.denied (same : l.SameRx l') (denied : l.Denied) : l'.Denied := by
  unfold Link.Denied at denied ⊢
  rwa [same.avail, same.noRxBufs]

/-- The driver asks for a buffer: the device has one then, or none is left, or it asks in vain. -/
theorem ethAllocateRxBuf_spec (sized : l.Sized size) :
    ∃ l' cookie, ethAllocateRxBuf l size = (l', cookie) ∧ l'.Sized size ∧ l.SameClient l' ∧
      l'.device = l.device ∧
      (cookie = none ∨ l.Denied → l'.Denied) := by
  unfold ethAllocateRxBuf
  by_cases large : size > bufSize
  · rw [if_pos large]
    exact ⟨_, _, rfl, sized, .refl l, rfl, fun _ => .inr (sized large)⟩
  · rw [if_neg large]
    cases avail : l.rxQueue.avail with
    | nil =>
      exact ⟨_, _, rfl, fun large' => absurd large' large, ⟨rfl, rfl⟩, rfl, fun _ => .inl avail⟩
    | cons entry rest =>
      exact ⟨_, _, rfl, fun large' => absurd large' large, ⟨rfl, rfl⟩, rfl, fun _ => .inr rfl⟩

/-- What a callback leaves: an answered driver has a buffer, and one that has been refused a buffer
once knows that none is left. -/
structure Driven (size : Nat) (l : Link) (call : Callback) (l' : Link) (refused : Bool) : Prop where
  sized : l'.Sized size
  same : l.SameClient l'
  denied : refused = true ∨ l.Denied → l'.Denied
  unseen : call.completesRx = false → ∀ reason, l.Unseen reason → l'.Unseen reason

theorem callback_driven {call : Callback} {refused : Bool} (sized : l.Sized size)
    (done : callback size l call = .ok (l', refused)) : Driven size l call l' refused := by
  cases call with
  | allocate =>
    obtain ⟨after, cookie, allocated, sized, same, device, empty⟩ := ethAllocateRxBuf_spec sized
    rw [callback, allocated] at done
    cases cookie with
    | some buf =>
      cases done
      refine ⟨sized, ⟨same.client, same.toServer⟩, fun denied => ?_, fun _ _ _ held => nomatch held⟩
      exact empty (.inr (denied.resolve_left (by decide)))
    | none =>
      cases done
      refine ⟨sized, same, fun _ => empty (.inl rfl), fun _ reason _ _ none left => ?_⟩
      -- a refusal means an empty ring, or that the server knows that it lacks buffers
      rcases empty (.inl rfl) with nothing | some
      · exact absurd nothing left
      · rw [none] at some
        cases some
  | receive buf written =>
    rw [callback] at done
    split at done
    · cases done
      exact ⟨sized, ⟨rfl, rfl⟩, fun denied => denied.resolve_left (by decide),
        fun _ _ unseen => unseen⟩
    · cases done
  | rxComplete bufs =>
    rw [callback] at done
    split at done
    · obtain ⟨after, completed, done⟩ := bind_ok.mp done
      obtain ⟨rx, client, _⟩ := ethRxComplete_same completed
      cases done
      exact ⟨rx.sized sized, ⟨client.client, client.toServer⟩,
        fun denied => rx.denied (denied.resolve_left (by decide)), nofun⟩
    · cases done
  | txComplete cookie =>
    rw [callback] at done
    split at done
    · obtain ⟨after, completed, done⟩ := bind_ok.mp done
      obtain ⟨rx, client, device⟩ := ethTxComplete_same completed
      cases done
      refine ⟨rx.sized sized, ⟨client.client, client.toServer⟩,
        fun denied => rx.denied (denied.resolve_left (by decide)), fun _ _ unseen => ?_⟩
      have same := rx.unseen unseen
      exact same
    · cases done

theorem callbacks_driven {calls : List Callback} (refused : Bool) {refused' : Bool} (sized : l.Sized size)
    (before : refused = true → l.Denied)
    (done : calls.foldlM (callbackNext size) (l, refused) = .ok (l', refused')) :
    l'.Sized size ∧ l.SameClient l' ∧ (refused' = true → l'.Denied) ∧
      (calls.any Callback.completesRx = false → ∀ reason, l.Unseen reason → l'.Unseen reason) := by
  induction calls generalizing l refused with
  | nil =>
    cases done
    exact ⟨sized, .refl _, before, fun _ _ unseen => unseen⟩
  | cons call rest ih =>
    rw [List.foldlM_cons] at done
    obtain ⟨⟨middle, flag⟩, one, done⟩ := bind_ok.mp done
    obtain ⟨now, one, sticky⟩ := callbackNext_ok one
    have first := callback_driven sized one
    have denied : flag = true → middle.Denied := by
      rw [sticky, Bool.or_eq_true]
      exact fun either => first.denied (either.symm.imp_right before)
    obtain ⟨sized, same, empty, unseen⟩ := ih flag first.sized denied done
    refine ⟨sized, first.same.trans same, empty, fun quiet reason before => ?_⟩
    rw [List.any_cons, Bool.or_eq_false_iff] at quiet
    exact unseen quiet.2 reason (first.unseen quiet.1 reason before)

/-- A driver that returns has not left the server without a view of the refilled buffers. -/
structure Drove (size : Nat) (l l' : Link) (polled : Bool) : Prop where
  sized : l'.Sized size
  same : l.SameClient l'
  unseen : ∀ reason, l.Unseen reason ∨ polled = true → l'.Unseen reason

theorem drive_drove {polled : Bool} {calls : List Callback} (sized : l.Sized size)
    (done : drive size polled l calls = .ok l') : Drove size l l' polled := by
  obtain ⟨⟨after, refused⟩, called, done⟩ := bind_ok.mp done
  obtain ⟨sized, same, empty, unseen⟩ := callbacks_driven false sized nofun called
  dsimp only at done
  split at done
  · cases done
  · next refilled =>
    cases done
    refine ⟨sized, same, fun reason before none unable left => ?_⟩
    by_cases asked : (polled = true ∨ calls.any Callback.completesRx = true)
    · have denied : refused = true := by
        by_contra answered
        exact refilled ⟨asked, none, answered⟩
      rcases empty denied with nothing | some
      · exact absurd nothing left
      · rw [unable] at some
        cases some
    · rw [not_or, Bool.not_eq_true, Bool.not_eq_true] at asked
      rcases before with before | poll
      · exact unseen asked.2 reason before none unable left
      · rw [asked.1] at poll
        cases poll

/-! ## The handlers -/

theorem transmit_drove {rawTxs : List RawTx} {offers : List (Frame × Outcome)}
    (sized : l.Sized size) (done : transmit size rawTxs l = .ok (l', offers)) :
    Drove size l l' false := by
  -- on the calls of `raw_tx`, in each of which the driver may ask for buffers
  induction rawTxs generalizing l offers with
  | nil =>
    rw [transmit] at done
    split at done
    · cases done
      exact ⟨sized, .refl _, fun _ before => before.elim id nofun⟩
    · cases done
  | cons rawTx rawTxs ih =>
    rw [transmit] at done
    cases avail : l.txQueue.avail with
    | nil =>
      rw [avail] at done
      cases done
      exact ⟨sized, .refl _, fun _ before => before.elim id nofun⟩
    | cons entry rest =>
      rw [avail] at done
      obtain ⟨after, drove, done⟩ := bind_ok.mp done
      have drove := drive_drove sized drove
      split at done
      · cases done
        exact ⟨drove.sized, ⟨drove.same.client, drove.same.toServer⟩, fun reason before =>
          drove.unseen reason before⟩
      · obtain ⟨⟨last, more⟩, others, done⟩ := bind_ok.mp done
        cases done
        have rest := ih (l := { after.setTxAvail after.txQueue.avail.tail with
          server := { after.server with blockedTx := false }
          device := { after.device with
            tx := after.device.tx ++ [(entry.buf, contents (l.txMem entry.buf) entry.len)] } })
          drove.sized others
        refine ⟨rest.sized, drove.same.trans ⟨rest.same.client, rest.same.toServer⟩, ?_⟩
        exact fun reason before => rest.unseen reason (.inl (drove.unseen reason before))

theorem virtQueueHandleIrq_drove {driving : Driving} {offers : List (Frame × Outcome)}
    (sized : l.Sized size) (done : virtQueueHandleIrq size l driving = .ok (l', offers)) :
    Drove size l l' true := by
  unfold virtQueueHandleIrq at done
  split at done
  · obtain ⟨after, polled, sent⟩ := bind_ok.mp done
    have first := drive_drove sized polled
    have second := transmit_drove first.sized sent
    exact ⟨second.sized, first.same.trans second.same, fun reason before =>
      second.unseen reason (.inl (first.unseen reason before))⟩
  · next able =>
    have sent := transmit_drove sized done
    refine ⟨sent.sized, sent.same, fun reason _ => sent.unseen reason (.inl ?_)⟩
    exact fun _ unable => absurd unable able

theorem notifyClient_drove {driving : Driving} {offers : List (Frame × Outcome)}
    (sized : l.Sized size) (done : notifyClient size l driving = .ok (l', offers)) :
    Drove size l l' false := by
  unfold notifyClient at done
  dsimp only at done
  split at done
  · split at done
    · obtain ⟨⟨after, _⟩, handled, done⟩ := bind_ok.mp done
      have handled := virtQueueHandleIrq_drove sized handled
      cases done
      exact ⟨handled.sized, ⟨handled.same.client, handled.same.toServer⟩, fun reason _ =>
        handled.unseen reason (.inr rfl)⟩
    · cases done
      exact ⟨sized, ⟨rfl, rfl⟩, fun _ before => before.elim id nofun⟩
  · cases done
    exact ⟨sized, .refl _, fun _ before => before.elim id nofun⟩

/-! ## The client -/

structure Recycled (l l' : Link) (any : Prop) : Prop where
  client : l'.client = l.client
  server : l'.server = l.server
  device : l'.device = l.device
  toServer : l'.toServer = l.toServer
  avail : ∃ more, l'.rxQueue.avail = l.rxQueue.avail ++ more ∧ (more ≠ [] ↔ any)

theorem pollLoop_recycled {recv : Nat → Int} {left score : Nat} {frames : List Frame}
    (done : pollLoop recv left l = .ok (l', score, frames)) :
    Recycled l l' (∃ fewer entry rest, left = fewer + 1 ∧ l.rxQueue.used = entry :: rest ∧
      ¬(entry.len > 0 ∧ recv fewer ≤ 0)) := by
  -- on the score: each pass takes one entry from the used ring
  induction left generalizing l score frames with
  | zero =>
    cases done
    exact ⟨rfl, rfl, rfl, rfl, [], (List.append_nil _).symm, by simp⟩
  | succ left ih =>
    rw [pollLoop] at done
    cases used : l.rxQueue.used with
    | nil =>
      rw [used] at done
      cases done
      exact ⟨rfl, rfl, rfl, rfl, [], (List.append_nil _).symm, by simp⟩
    | cons entry rest =>
      rw [used] at done
      dsimp only at done
      -- a frame that the stack refuses stays in the used ring and ends the poll
      by_cases refused : entry.len > 0 ∧ recv left ≤ 0
      · rw [if_pos refused] at done
        cases done
        refine ⟨rfl, rfl, rfl, rfl, [], (List.append_nil _).symm, ?_⟩
        refine iff_of_false (fun more => more rfl) ?_
        rintro ⟨fewer, entry', rest', same, same', taken⟩
        cases same
        cases same'
        exact taken refused
      · rw [if_neg refused] at done
        obtain ⟨avail, queued, done⟩ := bind_ok.mp done
        obtain ⟨⟨after, score', more⟩, looped, done⟩ := bind_ok.mp done
        cases done
        have later := ih looped
        unfold enqueue at queued
        split at queued
        · cases queued
          obtain ⟨more, appended, _⟩ := later.avail
          refine ⟨later.client, later.server, later.device, later.toServer,
            ⟨entry.buf, bufSize⟩ :: more, ?_, ?_⟩
          · rw [appended, List.append_assoc]
            rfl
          · exact iff_of_true (List.cons_ne_nil _ _) ⟨left, entry, rest, rfl, rfl, refused⟩
        · cases queued

theorem picoEthPoll_recycled {loopScore score : Int} {recv : Nat → Int} {frames : List Frame}
    (done : picoEthPoll l loopScore recv = .ok (l', score, frames)) :
    Recycled l l' (l.recycles loopScore recv) := by
  unfold picoEthPoll at done
  split at done
  · next positive =>
    obtain ⟨⟨after, left, taken⟩, looped, done⟩ := bind_ok.mp done
    cases done
    have loop := pollLoop_recycled looped
    obtain ⟨more, appended, any⟩ := loop.avail
    refine ⟨loop.client, loop.server, loop.device, loop.toServer, more, appended, any.trans ?_⟩
    unfold Link.recycles
    constructor
    · rintro ⟨fewer, entry, rest, count, used, taken⟩
      refine ⟨positive, entry, rest, used, ?_⟩
      rwa [count, Nat.add_sub_cancel]
    · rintro ⟨_, entry, rest, used, taken⟩
      exact ⟨_, entry, rest, by omega, used, taken⟩
  · next spent =>
    cases done
    exact ⟨rfl, rfl, rfl, rfl, [], (List.append_nil _).symm, by simp [Link.recycles, spent]⟩

theorem picoEthSend_same {input : Memory} {len : Nat} {frame : Option Frame}
    (done : picoEthSend l input len = .ok (l', frame)) :
    l.SameRx l' ∧ l'.toServer = l.toServer ∧
      (l.client.action = true → l'.client.action = true) := by
  unfold picoEthSend at done
  dsimp only at done
  split at done
  · cases done
    exact ⟨⟨rfl, rfl, rfl⟩, rfl, id⟩
  · next buf after free =>
    obtain ⟨avail, _, done⟩ := bind_ok.mp done
    cases done
    have same : l.SameRx after ∧ after.toServer = l.toServer := by
      split at free
      · cases free
        exact ⟨⟨rfl, rfl, rfl⟩, rfl⟩
      · split at free
        · cases free
          exact ⟨⟨rfl, rfl, rfl⟩, rfl⟩
        · cases free
    exact ⟨⟨same.1.rx, same.1.noRxBufs, same.1.avail⟩, same.2, fun _ => rfl⟩

/-! ## Runs -/

theorem Drove.seen {polled : Bool} (drove : Drove size l l' polled)
    (before : l.Unseen (l.client.action = true ∨ l.toServer = true) ∨ polled = true) : l'.Seen := by
  unfold Link.Seen
  rw [drove.same.client, drove.same.toServer]
  exact drove.unseen _ before

/-- The buffers that a poll gives back are seen if the others are, or it gives none back, or the
server is going to look for some other reason. -/
theorem Recycled.seen_iff {loopScore : Int} {recv : Nat → Int}
    (recycled : Recycled l l' (l.recycles loopScore recv)) (seen : l.Seen) :
    l'.Seen ↔ l.Refills (.poll loopScore recv) := by
  obtain ⟨more, avail, any⟩ := recycled.avail
  unfold Link.Seen Link.Unseen at seen ⊢
  rw [recycled.client, recycled.server, recycled.device, recycled.toServer, avail]
  constructor
  · rintro seen' _ _ same recycles ⟨none, unable, quiet, silent⟩
    cases same
    have left : l.rxQueue.avail ++ more ≠ [] := List.append_ne_nil_of_right_ne_nil _ (any.mpr recycles)
    rcases seen' none unable left with action | pending
    · rw [quiet] at action
      cases action
    · rw [silent] at pending
      cases pending
  · intro refills none unable left
    by_cases given : more = []
    · rw [given, List.append_nil] at left
      exact seen none unable left
    · by_contra unheard
      rw [not_or, Bool.not_eq_true, Bool.not_eq_true] at unheard
      exact refills _ _ rfl (any.mp given) ⟨none, unable, unheard⟩

/-- Only a poll can leave buffers unseen, and it does exactly if it misses the condition. -/
theorem step_seen_iff {event : Event} {result : Result} (sized : l.Sized size)
    (step : (machine size).step l event = some (l', result)) :
    l'.Sized size ∧ (l.Seen → (l'.Seen ↔ l.Refills event)) := by
  -- only a poll can miss the condition
  have refills : (∀ loopScore recv, event ≠ .poll loopScore recv) → l.Refills event :=
    fun other loopScore recv same => absurd same (other loopScore recv)
  have done := run_of_step step
  cases event with
  | clientInit =>
    obtain ⟨after, ready, done⟩ := bind_ok.mp done
    obtain ⟨avail, _, ready⟩ := bind_ok.mp ready
    cases ready
    cases done
    exact ⟨sized, fun _ => iff_of_true (fun _ _ _ => .inr rfl) (refills nofun)⟩
  | serverInit rawPoll =>
    obtain ⟨after, polled, done⟩ := bind_ok.mp done
    have drove := drive_drove sized polled
    cases done
    exact ⟨drove.sized, fun _ => iff_of_true (drove.seen (.inr rfl)) (refills nofun)⟩
  | send input len =>
    obtain ⟨⟨after, frame⟩, sent, done⟩ := bind_ok.mp done
    obtain ⟨same, toServer, action⟩ := picoEthSend_same sent
    cases done
    refine ⟨same.sized sized, fun seen => iff_of_true ?_ (refills nofun)⟩
    intro none unable left
    rw [toServer]
    exact (same.unseen seen none unable left).imp_left action
  | poll loopScore recv =>
    obtain ⟨⟨after, score, frames⟩, polled, done⟩ := bind_ok.mp done
    cases done
    have recycled := picoEthPoll_recycled polled
    have noRxBufs : l'.server.noRxBufs = l.server.noRxBufs := by rw [recycled.server]
    exact ⟨fun large => noRxBufs.trans (sized large), recycled.seen_iff⟩
  | notifyServer =>
    cases done
    refine ⟨?_, fun seen => iff_of_true ?_ (refills nofun)⟩
    · unfold notifyServer
      split <;> exact sized
    · unfold notifyServer
      split
      · exact fun _ _ _ => .inr rfl
      · exact seen
  | irqFromEthernet =>
    cases done
    exact ⟨sized, fun seen => iff_of_true seen (refills nofun)⟩
  | virtQueueHandleIrq driving =>
    obtain ⟨⟨after, offers⟩, handled, done⟩ := bind_ok.mp done
    have drove := virtQueueHandleIrq_drove (l := { l with toServer := false }) sized handled
    cases done
    exact ⟨drove.sized, fun _ => iff_of_true (drove.seen (.inr rfl)) (refills nofun)⟩
  | notifyClient driving =>
    obtain ⟨⟨after, offers⟩, notified, done⟩ := bind_ok.mp done
    have drove := notifyClient_drove sized notified
    cases done
    exact ⟨drove.sized, fun seen => iff_of_true (drove.seen (.inl seen)) (refills nofun)⟩
  | interrupt calls =>
    obtain ⟨after, drove, done⟩ := bind_ok.mp done
    have drove := drive_drove sized drove
    cases done
    exact ⟨drove.sized, fun seen => iff_of_true (drove.seen (.inl seen)) (refills nofun)⟩

/-- No refilled receive buffer is left unseen exactly if the client gives none back when the device
holds none, the server lacks some, and neither the flag nor a notification will make it look. -/
theorem refilled_buffers_seen_iff {trace : List (Event × Result)} {final : Link}
    (run : (machine size).Run .init trace final) :
    (machine size).Always .init trace Link.Seen ↔
      (machine size).EveryStep .init trace Link.Refills := by
  have sized : ∀ early l, (machine size).Run .init early l → l.Sized size := by
    intro early l run
    apply run.invariant
    · exact fun _ => rfl
    · exact fun _ _ _ _ sized _ step => (step_seen_iff sized step).1
  constructor
  · rintro always early event result ⟨rest, rfl⟩ l reached
    obtain ⟨after, begun, _⟩ := run.split
    obtain ⟨before, earlier, _, step⟩ := begun.snoc_inv
    cases reached.deterministic earlier
    have before := always early ⟨[(event, result)] ++ rest, by simp⟩ l reached
    have later := always _ (List.prefix_append _ _) after begun
    exact ((step_seen_iff (sized early l reached) step).2 before).mp later
  · intro refills early within l reached
    have both : l.Sized size ∧ l.Seen := by
      apply (refills.early within).history reached
      · exact ⟨fun _ => rfl, fun _ unable => nomatch unable⟩
      · rintro _ before event after result ⟨sized, seen⟩ _ met step
        obtain ⟨sized', iff⟩ := step_seen_iff sized step
        exact ⟨sized', (iff seen).mpr met⟩
    exact both.2

/-! ## A run that leaves a buffer unseen -/

theorem allocate_all {entries : List Entry} (avail : l.rxQueue.avail = entries) (refused : Bool) :
    ∃ l', (List.replicate (entries.length + 1) Callback.allocate).foldlM
        (callbackNext bufSize) (l, refused) = .ok (l', true) ∧
      l.SameClient l' ∧ l'.server.noRxBufs = true ∧ l'.rxQueue = ⟨[], l.rxQueue.used⟩ ∧
      l'.txQueue = l.txQueue ∧ l'.serverReady = l.serverReady ∧ l'.clientReady = l.clientReady ∧
      l'.device.rx = (entries.map Entry.buf).reverse ++ l.device.rx := by
  -- as many requests as entries, and one more that is refused
  induction entries generalizing l refused with
  | nil =>
    have none : callbackNext bufSize (l, refused) .allocate =
        .ok ({ l with server := { l.server with noRxBufs := true } }, true) := by
      simp [callbackNext, callback, ethAllocateRxBuf, avail, bind, Except.bind, pure, Except.pure]
    rw [List.length_nil, List.replicate_one, List.foldlM_cons, none]
    exact ⟨_, rfl, ⟨rfl, rfl⟩, rfl, congrArg (Virtqueue.mk · _) avail, rfl, rfl, rfl, rfl⟩
  | cons entry rest ih =>
    have one : callbackNext bufSize (l, refused) .allocate = .ok ({ l.setRxAvail rest with
        server := { l.server with noRxBufs := false }
        device := { l.device with rx := entry.buf :: l.device.rx } }, refused) := by
      simp [callbackNext, callback, ethAllocateRxBuf, avail, Link.setRxAvail, bind, Except.bind,
        pure, Except.pure]
    rw [List.length_cons, List.replicate_succ, List.foldlM_cons, one]
    obtain ⟨l', done, same, noRxBufs, queue, txQueue, server, client, rx⟩ := ih
      (l := { l.setRxAvail rest with
        server := { l.server with noRxBufs := false }
        device := { l.device with rx := entry.buf :: l.device.rx } }) rfl refused
    refine ⟨l', done, ⟨same.client, same.toServer⟩, noRxBufs, queue, txQueue, server, client, ?_⟩
    rw [rx]
    simp

theorem complete_all {bufs : List Buf} (held : l.device.rx = bufs)
    (room : l.rxQueue.used.length + bufs.length < queueLen) (refused : Bool) :
    ∃ l' refused', (bufs.map fun buf => Callback.rxComplete [(buf, 64)]).foldlM
        (callbackNext bufSize) (l, refused) = .ok (l', refused') ∧
      l.SameClient l' ∧ l'.device.rx = [] ∧ l'.clientReady = l.clientReady ∧
      l'.rxQueue = ⟨l.rxQueue.avail, l.rxQueue.used ++ bufs.map (Entry.mk · 64)⟩ := by
  -- on the buffers, which are filled and completed one by one
  induction bufs generalizing l refused with
  | nil => exact ⟨l, refused, rfl, .refl l, held, rfl, by simp⟩
  | cons buf rest ih =>
    rw [List.length_cons] at room
    have queued : enqueue l.rxQueue.used ⟨buf, 64⟩ = .ok (l.rxQueue.used ++ [⟨buf, 64⟩]) :=
      if_pos (by omega)
    have one : callback bufSize l (.rxComplete [(buf, 64)]) =
        .ok ({ l.setRxUsed (l.rxQueue.used ++ [⟨buf, 64⟩]) with
          server := { l.server with action := true }
          device := { l.device with rx := rest } }, false) := by
      have left : l.device.rx.diff [buf] = rest := by rw [held]; simp
      have within : [buf] ⊆ l.device.rx := by rw [held]; simp
      simp only [callback, ethRxComplete, List.map_cons, List.map_nil, List.nodup_singleton,
        within, and_self, if_true, List.foldlM_cons, List.foldlM_nil, queued]
      have same : (l.setRxUsed (l.rxQueue.used ++ [⟨buf, 64⟩])).device.rx.diff [buf] = rest := left
      rw [← same]
      rfl
    obtain ⟨l', refused', done, same, empty, client, queue⟩ := ih
      (l := { l.setRxUsed (l.rxQueue.used ++ [⟨buf, 64⟩]) with
        server := { l.server with action := true }
        device := { l.device with rx := rest } }) rfl (by simp [Link.setRxUsed]; omega) refused
    refine ⟨l', refused', ?_, ⟨same.client, same.toServer⟩, empty, client, ?_⟩
    · rw [List.map_cons, List.foldlM_cons, callbackNext, one]
      simp only [bind, Except.bind, pure, Except.pure, Bool.or_false]
      exact done
    · rw [queue]
      simp [Link.setRxUsed]

theorem run_allocate_all {entries : List Entry} (avail : l.rxQueue.avail = entries)
    (lacks : l.server.noRxBufs = true) (quiet : l.txQueue.avail = []) :
    ∃ l', l.run bufSize
        (.virtQueueHandleIrq ⟨List.replicate (entries.length + 1) .allocate, []⟩) =
          .ok (l', .offered []) ∧
      l'.client = l.client ∧ l'.toServer = false ∧ l'.serverReady = l.serverReady ∧
      l'.clientReady = l.clientReady ∧ l'.rxQueue = ⟨[], l.rxQueue.used⟩ ∧
      l'.device.rx = (entries.map Entry.buf).reverse ++ l.device.rx := by
  obtain ⟨l', done, same, noRxBufs, queue, txQueue, server, client, rx⟩ :=
    allocate_all (l := { l with toServer := false }) avail false
  refine ⟨l', ?_, same.client, same.toServer, server, client, queue, rx⟩
  have drove : drive bufSize true { l with toServer := false }
      (List.replicate (entries.length + 1) .allocate) = .ok l' := by
    unfold drive callbacks
    rw [done]
    simp [bind, Except.bind, pure, Except.pure]
  have sent : transmit bufSize [] l' = .ok (l', []) := by
    rw [transmit, txQueue]
    exact if_pos quiet
  simp only [Link.run, virtQueueHandleIrq, lacks, if_true, drove]
  simp [bind, Except.bind, sent, pure, Except.pure]

theorem run_complete_all {bufs : List Buf} (held : l.device.rx = bufs)
    (none : l.rxQueue = ⟨[], []⟩) (room : bufs.length < queueLen) :
    ∃ l', l.run bufSize
        (.interrupt (bufs.map (fun buf => .rxComplete [(buf, 64)]) ++ [.allocate])) =
          .ok (l', .done) ∧
      l'.client = l.client ∧ l'.toServer = l.toServer ∧ l'.clientReady = l.clientReady ∧
      l'.server.noRxBufs = true ∧ l'.device.rx = [] ∧
      l'.rxQueue = ⟨[], bufs.map (Entry.mk · 64)⟩ := by
  obtain ⟨middle, refused, done, same, empty, client, queue⟩ :=
    complete_all held (by rw [none]; simpa using room) false
  rw [none, List.nil_append] at queue
  have last : callbackNext bufSize (middle, refused) .allocate =
      .ok ({ middle with server := { middle.server with noRxBufs := true } }, true) := by
    simp [callbackNext, callback, ethAllocateRxBuf, queue, bind, Except.bind, pure, Except.pure]
  refine ⟨{ middle with server := { middle.server with noRxBufs := true } }, ?_, same.client,
    same.toServer, client, rfl, empty, queue⟩
  simp only [Link.run, drive, callbacks, List.foldlM_append, done]
  simp [bind, Except.bind, List.foldlM_cons, last, pure, Except.pure]

theorem picoEthPoll_one {entry : Entry} {rest : List Entry}
    (some : l.rxQueue = ⟨[], entry :: rest⟩) :
    ∃ l' score frames, picoEthPoll l 1 (fun _ => 1) = .ok (l', score, frames) := by
  have taken : ¬(entry.len > 0 ∧ (1 : Int) ≤ 0) := by simp
  simp [picoEthPoll, pollLoop, some, enqueue, queueLen, bind, Except.bind, pure, Except.pure]

def exhausted : List Event :=
  [.serverInit [.allocate], .clientInit,
   .virtQueueHandleIrq ⟨List.replicate (numRxBufs + 1) .allocate, []⟩,
   .interrupt ((List.range numRxBufs).reverse.map (fun buf => .rxComplete [(buf, 64)]) ++
     [.allocate]),
   .poll 1 fun _ => 1]

def lacking : Link := { Link.init with server := ⟨false, false, true⟩, serverReady := true }

theorem exhausted_run : ∃ trace final, (machine bufSize).Run .init trace final ∧
    trace.map Prod.fst = exhausted ∧ ¬final.Seen := by
  have first : (machine bufSize).Run .init [] _ := .start
  have refused : (machine bufSize).Run .init _ lacking :=
    first.on (.serverInit [.allocate]) rfl rfl
  have ready := refused.on .clientInit rfl (step_of_run (run_clientInit rfl))
  have avail : lacking.withClient.rxQueue.avail =
      (List.range numRxBufs).map (Entry.mk · bufSize) := rfl
  obtain ⟨given, gave, client, toServer, server, ready', queue, rx⟩ :=
    run_allocate_all avail rfl rfl
  rw [List.length_map, List.length_range] at gave
  have holds : given.device.rx = (List.range numRxBufs).reverse := by
    rw [rx, List.map_map]
    simp [lacking, Link.withClient, Link.init, Link.setRxAvail, Function.comp_def]
  have sent := ready.on (.virtQueueHandleIrq ⟨List.replicate (numRxBufs + 1) .allocate, []⟩)
    ⟨rfl, rfl⟩ (step_of_run gave)
  obtain ⟨full, filled, client', toServer', ready'', lacks, empty, used⟩ :=
    run_complete_all holds queue (by simp [numRxBufs, queueLen])
  have interrupted := sent.on (.interrupt ((List.range numRxBufs).reverse.map
    (fun buf => .rxComplete [(buf, 64)]) ++ [.allocate])) server (step_of_run filled)
  have first : (List.range numRxBufs).reverse = 253 :: (List.range 253).reverse := by
    rw [numRxBufs, List.range_succ, List.reverse_append]
    rfl
  rw [first, List.map_cons] at used
  obtain ⟨final, score, frames, polled⟩ := picoEthPoll_one used
  have ran : full.run bufSize (.poll 1 fun _ => 1) = .ok (final, .polled score frames) := by
    rw [Link.run, polled]
    rfl
  have run := interrupted.on (.poll 1 fun _ => 1) (ready''.trans ready') (step_of_run ran)
  refine ⟨_, final, run, rfl, fun seen => ?_⟩
  have recycled := picoEthPoll_recycled polled
  obtain ⟨more, given, any⟩ := recycled.avail
  have recycles : full.recycles 1 fun _ => 1 :=
    ⟨by decide, _, _, congrArg Virtqueue.used used, by decide⟩
  have left : final.rxQueue.avail ≠ [] := by
    rw [given]
    exact List.append_ne_nil_of_right_ne_nil _ (any.mpr recycles)
  rcases seen (recycled.device ▸ empty) (recycled.server ▸ lacks) left with action | pending
  · rw [recycled.client, client', client] at action
    cases action
  · rw [recycled.toServer, toServer', toServer] at pending
    cases pending

theorem refilled_buffers_seen_iff_exhausted : ∃ trace final,
    (machine bufSize).Run .init trace final ∧ trace.map Prod.fst = exhausted ∧
    ¬final.Seen ∧ ¬(machine bufSize).EveryStep .init trace Link.Refills := by
  obtain ⟨trace, final, run, events, unseen⟩ := exhausted_run
  refine ⟨trace, final, run, events, unseen, fun refills => ?_⟩
  exact unseen ((refilled_buffers_seen_iff run).mpr refills trace (List.prefix_refl _) final run)

/-- The refilled buffer waits for a server that nothing is going to wake. -/
theorem refilled_buffer_unseen : ¬∀ trace final, (machine bufSize).Run .init trace final →
    (machine bufSize).Always .init trace Link.Seen := by
  intro claim
  obtain ⟨trace, final, run, _, unseen⟩ := exhausted_run
  exact unseen (claim trace final run trace (List.prefix_refl _) final run)

end GlobalComponents.EthernetAsync
