import GlobalComponents.EthernetAsync.Link
import GlobalComponents.Library.Except
import GlobalComponents.Library.Offers
import Mathlib.Data.List.Perm.Subperm
import Mathlib.Data.List.Count

/-! Transmission over the link: every accepted frame is taken once and in order, and every transmit
buffer is in one place.
-/

set_option autoImplicit false

namespace GlobalComponents.EthernetAsync

open Library

def Outcome.takes (outcome : Outcome) : Bool := outcome = .enqueued

def Link.queued (l : Link) : List Frame :=
  l.txQueue.avail.map fun entry => contents (l.txMem entry.buf) entry.len

def Link.txBuffers (l : Link) : List Buf :=
  (List.range l.client.numTx).map l.client.pendingTx ++ l.txQueue.avail.map Entry.buf ++
    l.device.tx.map Prod.fst ++ l.txQueue.used.map Entry.buf

def Link.allocated (l : Link) (count : Nat) : List Buf :=
  if l.clientReady then List.range count else []

/-- A buffer in the device still has the frame that the device has taken from it. -/
def Link.InFlight (l : Link) : Prop :=
  ∀ sent ∈ l.device.tx, contents (l.txMem sent.1) sent.2.length = sent.2

structure Link.Sound (l : Link) : Prop where
  buffers : l.txBuffers.Perm (l.allocated numTxBufs)
  inFlight : l.InFlight
  rxBuffers : l.rxQueue.avail.length + l.device.rx.length + l.rxQueue.used.length =
    (l.allocated numRxBufs).length

def acceptedBy : Event → Result → List Frame
  | .send input len, .sent (some _) => [contents input len]
  | _, _ => []

def Result.offers : Result → List (Frame × Outcome)
  | .offered offers => offers
  | .done | .polled _ _ | .sent _ => []

def accepted (trace : List (Event × Result)) : List Frame :=
  trace.flatMap fun step => acceptedBy step.1 step.2

def offered (trace : List (Event × Result)) : List (Frame × Outcome) :=
  trace.flatMap fun step => step.2.offers

variable {size : Nat} {l l' : Link}

theorem contents_length (mem : Memory) (len : Nat) : (contents mem len).length = len :=
  Window.window_length mem 0 len

theorem contents_memcpy (dst src : Memory) (n : Nat) :
    contents (memcpy dst src n) n = contents src n := by
  apply Window.window_congr
  intro i inside
  rw [Nat.zero_add]
  exact if_pos inside

theorem Link.allocated_length_le (l : Link) (count : Nat) : (l.allocated count).length ≤ count := by
  unfold Link.allocated
  split
  · exact (List.length_range).le
  · exact Nat.zero_le _

theorem Link.Sound.txLength (sound : l.Sound) :
    l.client.numTx + l.txQueue.avail.length + l.device.tx.length + l.txQueue.used.length ≤
      numTxBufs := by
  have length := sound.buffers.length_eq
  simp only [Link.txBuffers, List.length_append, List.length_map, List.length_range] at length
  exact length.trans_le (l.allocated_length_le numTxBufs)

theorem Link.Sound.rxLength (sound : l.Sound) :
    l.rxQueue.avail.length + l.device.rx.length + l.rxQueue.used.length ≤ numRxBufs :=
  sound.rxBuffers.trans_le (l.allocated_length_le numRxBufs)

theorem Link.Sound.nodup (sound : l.Sound) : l.txBuffers.Nodup := by
  apply sound.buffers.nodup_iff.mpr
  unfold Link.allocated
  split
  · exact List.nodup_range
  · exact List.nodup_nil

structure Link.SameQueue (l l' : Link) : Prop where
  client : l'.client = l.client
  avail : l'.txQueue.avail = l.txQueue.avail
  txMem : l'.txMem = l.txMem
  ready : l'.clientReady = l.clientReady

theorem Link.SameQueue.refl (l : Link) : l.SameQueue l := ⟨rfl, rfl, rfl, rfl⟩

theorem Link.SameQueue.trans {l'' : Link} (first : l.SameQueue l') (second : l'.SameQueue l'') :
    l.SameQueue l'' where
  client := second.client.trans first.client
  avail := second.avail.trans first.avail
  txMem := second.txMem.trans first.txMem
  ready := second.ready.trans first.ready

theorem Link.SameQueue.queued (same : l.SameQueue l') : l'.queued = l.queued := by
  unfold Link.queued
  rw [same.avail, same.txMem]

theorem Link.SameQueue.allocated (same : l.SameQueue l') (count : Nat) :
    l'.allocated count = l.allocated count := by
  unfold Link.allocated
  rw [same.ready]

theorem Link.Sound.of_sameTx (sound : l.Sound) (same : l.SameQueue l')
    (tx : l'.device.tx = l.device.tx) (used : l'.txQueue.used = l.txQueue.used)
    (rx : l'.rxQueue.avail.length + l'.device.rx.length + l'.rxQueue.used.length =
      l.rxQueue.avail.length + l.device.rx.length + l.rxQueue.used.length) : l'.Sound where
  buffers := by
    unfold Link.txBuffers
    rw [same.client, same.avail, tx, used, same.allocated]
    exact sound.buffers
  inFlight := by
    unfold Link.InFlight
    rw [tx, same.txMem]
    exact sound.inFlight
  rxBuffers := by
    rw [rx, same.allocated]
    exact sound.rxBuffers

def Link.Kept (l l' : Link) : Prop := l'.Sound ∧ l.SameQueue l'

theorem Link.Sound.kept (sound : l.Sound) (same : l.SameQueue l')
    (tx : l'.device.tx = l.device.tx) (used : l'.txQueue.used = l.txQueue.used)
    (rx : l'.rxQueue.avail.length + l'.device.rx.length + l'.rxQueue.used.length =
      l.rxQueue.avail.length + l.device.rx.length + l.rxQueue.used.length) : l.Kept l' :=
  ⟨sound.of_sameTx same tx used rx, same⟩

/-! ## The driver -/

theorem enqueue_room {ring : List Entry} {entry : Entry} (room : ring.length + 1 < queueLen) :
    enqueue ring entry = .ok (ring ++ [entry]) := if_pos room

theorem allocate_ends (sound : l.Sound) :
    Ends (· ≠ Stop.fault) (fun s => l.Kept s.1) (callback size l .allocate) := by
  rw [callback]
  unfold ethAllocateRxBuf
  by_cases large : size > bufSize
  · rw [if_pos large]
    exact ⟨sound, .refl l⟩
  · rw [if_neg large]
    cases avail : l.rxQueue.avail with
    | nil => exact sound.kept ⟨rfl, rfl, rfl, rfl⟩ rfl rfl rfl
    | cons entry rest =>
      exact sound.kept ⟨rfl, rfl, rfl, rfl⟩ rfl rfl (by
        simp only [Link.setRxAvail, avail, List.length_cons]
        omega)

theorem txComplete_ends {cookie : Buf} (sound : l.Sound) :
    Ends (· ≠ Stop.fault) (fun s => l.Kept s.1) (callback size l (.txComplete cookie)) := by
  rw [callback]
  split
  · next held =>
    have room := sound.txLength
    have queued : enqueue l.txQueue.used ⟨cookie, bufSize⟩ =
        .ok (l.txQueue.used ++ [⟨cookie, bufSize⟩]) := by
      apply enqueue_room
      unfold numTxBufs at room
      unfold queueLen
      omega
    have moved : (l.device.tx.map Prod.fst).Perm
        (cookie :: (l.device.tx.eraseP (·.1 == cookie)).map Prod.fst) := by
      have erased := List.perm_cons_erase held
      rwa [List.erase_eq_eraseP', List.eraseP_map] at erased
    unfold ethTxComplete
    rw [queued]
    refine ⟨⟨?_, ?_, sound.rxBuffers⟩, ⟨rfl, rfl, rfl, rfl⟩⟩
    · refine .trans ?_ sound.buffers
      apply List.perm_iff_count.mpr
      intro buf
      have count := moved.count_eq buf
      simp only [Link.txBuffers, Link.setTxUsed, List.map_append, List.map_cons, List.map_nil,
        List.count_append, List.count_cons, List.count_nil] at count ⊢
      omega
    · intro sent member
      exact sound.inFlight sent (List.mem_of_mem_eraseP member)
  · exact nofun

theorem ethRxComplete_ok {bufs : List (Buf × Nat)}
    (room : l.rxQueue.used.length + bufs.length < queueLen) :
    ∃ entries : List Entry, entries.length = bufs.length ∧ ethRxComplete l bufs = .ok
      { l.setRxUsed (l.rxQueue.used ++ entries) with server := { l.server with action := true } } := by
  have queued : ∀ entries : List Entry, entries.length = bufs.length →
      entries.foldlM enqueue l.rxQueue.used = .ok (l.rxQueue.used ++ entries) :=
    fun entries same => enqueue_all (by rwa [same])
  unfold ethRxComplete
  split
  · next cookie len =>
    have one := queued [⟨cookie, len⟩] rfl
    exact ⟨[⟨cookie, len⟩], rfl, congrArg (· >>= _) one⟩
  · have all := queued (bufs.map fun buf => ⟨buf.1, 0⟩) (List.length_map _)
    exact ⟨_, List.length_map _, congrArg (· >>= _) all⟩

theorem rxComplete_ends {bufs : List (Buf × Nat)} (sound : l.Sound) :
    Ends (· ≠ Stop.fault) (fun s => l.Kept s.1) (callback size l (.rxComplete bufs)) := by
  rw [callback]
  split
  · next held =>
    have room := sound.rxLength
    have moved : (bufs.map Prod.fst ++ l.device.rx.diff (bufs.map Prod.fst)).Perm l.device.rx :=
      List.subperm_append_diff_self_of_count_le fun buf _ => (held.1.subperm held.2).count_le buf
    have length := moved.length_eq
    rw [List.length_append, List.length_map] at length
    have free : l.rxQueue.used.length + bufs.length < queueLen := by
      unfold numRxBufs at room
      unfold queueLen
      omega
    obtain ⟨entries, count, done⟩ := ethRxComplete_ok free
    rw [done]
    exact sound.kept ⟨rfl, rfl, rfl, rfl⟩ rfl rfl (by
      simp only [Link.setRxUsed, List.length_append, count]
      omega)
  · exact nofun

theorem callback_ends (sound : l.Sound) (call : Callback) :
    Ends (· ≠ Stop.fault) (fun s => l.Kept s.1) (callback size l call) := by
  cases call with
  | allocate => exact allocate_ends sound
  | receive buf written =>
    rw [callback]
    split
    · exact sound.kept ⟨rfl, rfl, rfl, rfl⟩ rfl rfl rfl
    · exact nofun
  | rxComplete bufs => exact rxComplete_ends sound
  | txComplete cookie => exact txComplete_ends sound

theorem drive_ends (sound : l.Sound) (polled : Bool) (calls : List Callback) :
    Ends (· ≠ Stop.fault) (l.Kept) (drive size polled l calls) := by
  have called : Ends (· ≠ Stop.fault) (fun s => l.Kept s.1) (callbacks size l calls) := by
    apply Ends.foldlM
    · exact ⟨sound, .refl l⟩
    · rintro ⟨middle, refused⟩ ⟨sound, same⟩ call _
      exact (callback_ends sound call).bind fun _ kept => ⟨kept.1, same.trans kept.2⟩
  apply called.bind
  rintro ⟨after, refused⟩ kept
  dsimp only
  split
  · exact nofun
  · exact kept

/-! ## The handlers -/

def Link.Served (l : Link) (offers : List (Frame × Outcome)) (l' : Link) : Prop :=
  l'.Sound ∧ Offers.serve Outcome.takes l.queued offers = some l'.queued

theorem Link.Sound.take (sound : l.Sound) {entry : Entry} {rest : List Entry}
    (avail : l.txQueue.avail = entry :: rest) :
    { l.setTxAvail rest with
      server := { l.server with blockedTx := false }
      device := { l.device with
        tx := l.device.tx ++ [(entry.buf, contents (l.txMem entry.buf) entry.len)] } }.Sound where
  buffers := by
    refine .trans ?_ sound.buffers
    apply List.perm_iff_count.mpr
    intro buf
    simp only [Link.txBuffers, Link.setTxAvail, avail, List.map_append, List.map_cons,
      List.map_nil, List.count_append, List.count_cons, List.count_nil]
    omega
  inFlight := by
    intro sent member
    rcases List.mem_append.mp member with before | new
    · exact sound.inFlight sent before
    · cases List.mem_singleton.mp new
      exact congrArg _ (contents_length _ _)
  rxBuffers := sound.rxBuffers

theorem transmit_ends (sound : l.Sound) (rawTxs : List RawTx) :
    Ends (· ≠ Stop.fault) (fun s => l.Served s.2 s.1) (transmit size rawTxs l) := by
  -- on the calls of `raw_tx`: each one starts from a link that is sound
  induction rawTxs generalizing l with
  | nil =>
    rw [transmit]
    split
    · exact ⟨sound, Offers.serve_nil _⟩
    · exact nofun
  | cons rawTx rawTxs ih =>
    rw [transmit]
    cases avail : l.txQueue.avail with
    | nil => exact ⟨sound, Offers.serve_nil _⟩
    | cons entry rest =>
      apply (drive_ends sound false rawTx.calls).bind
      rintro after ⟨sound, same⟩
      have left : after.txQueue.avail = entry :: rest := same.avail.trans avail
      have queued : l.queued = contents (l.txMem entry.buf) entry.len ::
          rest.map fun entry => contents (l.txMem entry.buf) entry.len := by
        rw [Link.queued, avail, List.map_cons]
      split
      · next refused =>
        have stays : ¬rawTx.outcome.takes = true := fun taken => refused (of_decide_eq_true taken)
        refine ⟨⟨sound.buffers, sound.inFlight, sound.rxBuffers⟩, ?_⟩
        rw [queued, Offers.serve_refuse stays, ← queued, ← same.queued]
        rfl
      · next taken =>
        have takes : rawTx.outcome.takes = true := decide_eq_true (not_not.mp taken)
        have next := sound.take left
        rw [same.txMem] at next
        dsimp only
        rw [left, List.tail_cons]
        apply (ih next).bind
        rintro ⟨last, more⟩ ⟨sound', served⟩
        refine ⟨sound', ?_⟩
        rw [queued, Offers.serve_take takes]
        refine .trans ?_ served
        simp only [Link.queued, Link.setTxAvail, same.txMem]

theorem virtQueueHandleIrq_ends (sound : l.Sound) (driving : Driving) :
    Ends (· ≠ Stop.fault) (fun s => l.Served s.2 s.1) (virtQueueHandleIrq size l driving) := by
  unfold virtQueueHandleIrq
  split
  · apply (drive_ends sound true driving.rawPoll).bind
    rintro after ⟨sound, same⟩
    apply (transmit_ends sound driving.rawTxs).mono
    rintro ⟨last, offers⟩ ⟨sound', served⟩
    refine ⟨sound', ?_⟩
    rwa [← same.queued]
  · exact transmit_ends sound driving.rawTxs

theorem notifyClient_ends (sound : l.Sound) (driving : Driving) :
    Ends (· ≠ Stop.fault) (fun s => l.Served s.2 s.1) (notifyClient size l driving) := by
  unfold notifyClient
  dsimp only
  split
  · split
    · apply (virtQueueHandleIrq_ends sound driving).bind
      rintro ⟨after, offers⟩ ⟨sound', served⟩
      exact ⟨⟨sound'.buffers, sound'.inFlight, sound'.rxBuffers⟩, served⟩
    · exact ⟨⟨sound.buffers, sound.inFlight, sound.rxBuffers⟩, Offers.serve_nil _⟩
  · exact ⟨sound, Offers.serve_nil _⟩

/-! ## The client -/

structure Link.Drawn (l free : Link) (buf : Buf) : Prop where
  avail : free.txQueue.avail = l.txQueue.avail
  txMem : free.txMem = l.txMem
  device : free.device = l.device
  rxQueue : free.rxQueue = l.rxQueue
  ready : free.clientReady = l.clientReady
  buffers : l.txBuffers.Perm (buf :: free.txBuffers)

/-- A drawn buffer is neither queued nor in flight, so that filling it overwrites no frame. -/
theorem Link.Drawn.fresh {free : Link} {buf : Buf} (drawn : l.Drawn free buf) (sound : l.Sound) :
    (∀ entry ∈ free.txQueue.avail, entry.buf ≠ buf) ∧ ∀ sent ∈ l.device.tx, sent.1 ≠ buf := by
  have absent : buf ∉ free.txBuffers :=
    (List.nodup_cons.mp (drawn.buffers.nodup_iff.mp sound.nodup)).1
  simp only [Link.txBuffers, List.mem_append, not_or, List.mem_map, drawn.device] at absent
  exact ⟨fun entry member same => absent.1.1.2 ⟨entry, member, same⟩,
    fun sent member same => absent.1.2 ⟨sent, member, same⟩⟩

def Link.fill (free : Link) (buf : Buf) (copied : Memory) (len : Nat) : Link :=
  { free.setTxAvail (free.txQueue.avail ++ [⟨buf, len⟩]) with
    txMem := Function.update free.txMem buf copied
    client := { free.client with action := true } }

theorem Link.fill_txMem (free : Link) (buf : Buf) (copied : Memory) (len : Nat) :
    (free.fill buf copied len).txMem = Function.update free.txMem buf copied := rfl

theorem Link.fill_avail (free : Link) (buf : Buf) (copied : Memory) (len : Nat) :
    (free.fill buf copied len).txQueue.avail = free.txQueue.avail ++ [⟨buf, len⟩] := rfl

theorem Link.Drawn.fill_queued {free : Link} {buf : Buf} (drawn : l.Drawn free buf)
    (sound : l.Sound) (copied : Memory) (len : Nat) :
    (free.fill buf copied len).queued = l.queued ++ [contents copied len] := by
  have others : ∀ entry ∈ free.txQueue.avail,
      contents (Function.update free.txMem buf copied entry.buf) entry.len =
        contents (free.txMem entry.buf) entry.len := by
    intro entry member
    rw [Function.update_of_ne ((drawn.fresh sound).1 entry member)]
  unfold Link.queued
  rw [Link.fill_txMem, Link.fill_avail, List.map_append, List.map_congr_left others, drawn.avail,
    drawn.txMem, List.map_singleton, Function.update_self]

theorem Link.Drawn.fill_sound {free : Link} {buf : Buf} (drawn : l.Drawn free buf)
    (sound : l.Sound) (copied : Memory) (len : Nat) : (free.fill buf copied len).Sound where
  buffers := by
    have allocated : (free.fill buf copied len).allocated numTxBufs = l.allocated numTxBufs := by
      unfold Link.allocated
      exact congrArg (fun ready : Bool => if ready then _ else _) drawn.ready
    rw [allocated]
    refine .trans (.trans ?_ drawn.buffers.symm) sound.buffers
    apply List.perm_iff_count.mpr
    intro other
    simp only [Link.txBuffers, Link.fill, Link.setTxAvail, List.map_append, List.map_cons,
      List.map_nil, List.count_append, List.count_cons, List.count_nil]
    omega
  inFlight := by
    intro sent member
    have member : sent ∈ l.device.tx := drawn.device ▸ member
    have other : (free.fill buf copied len).txMem sent.1 = l.txMem sent.1 := by
      rw [Link.fill_txMem, Function.update_of_ne ((drawn.fresh sound).2 sent member), drawn.txMem]
    rw [other]
    exact sound.inFlight sent member
  rxBuffers := by
    have rx := sound.rxBuffers
    rw [← drawn.rxQueue, ← drawn.device] at rx
    refine rx.trans ?_
    unfold Link.allocated
    exact congrArg (fun ready : Bool => (if ready then _ else _ : List Buf).length) drawn.ready.symm

theorem picoEthSend_ends (sound : l.Sound) (input : Memory) (len : Nat) :
    Ends (· ≠ Stop.fault)
      (fun s => s.1.Sound ∧ s.1.queued = l.queued ++ acceptedBy (.send input len) (.sent s.2))
      (picoEthSend l input len) := by
  unfold picoEthSend
  dsimp only
  split
  · exact ⟨sound, (List.append_nil _).symm⟩
  · next buf free draw =>
    have drawn : l.Drawn free buf := by
      -- the buffer comes from the used ring, or from the stack of fresh ones
      split at draw
      · next entry rest used =>
        cases draw
        refine ⟨rfl, rfl, rfl, rfl, rfl, ?_⟩
        apply List.perm_iff_count.mpr
        intro other
        simp only [Link.txBuffers, Link.setTxUsed, used, List.map_cons, List.count_append,
          List.count_cons]
        omega
      · split at draw
        · next used some =>
          cases draw
          refine ⟨rfl, rfl, rfl, rfl, rfl, ?_⟩
          obtain ⟨fewer, count⟩ := Nat.exists_eq_succ_of_ne_zero some
          apply List.perm_iff_count.mpr
          intro other
          simp only [Link.txBuffers, count, Nat.succ_sub_one, List.range_succ, List.map_append,
            List.map_cons, List.map_nil, List.count_append, List.count_cons, List.count_nil]
          omega
        · cases draw
    have room := sound.txLength
    have queued : enqueue free.txQueue.avail ⟨buf, len⟩ =
        .ok (free.txQueue.avail ++ [⟨buf, len⟩]) := by
      apply enqueue_room
      rw [drawn.avail]
      unfold numTxBufs at room
      unfold queueLen
      omega
    rw [queued]
    refine ⟨drawn.fill_sound sound _ len, (drawn.fill_queued sound _ len).trans ?_⟩
    rw [contents_memcpy]
    rfl

theorem pollLoop_ends (sound : l.Sound) (recv : Nat → Int) (left : Nat) :
    Ends (· ≠ Stop.fault) (fun s => l.Kept s.1) (pollLoop recv left l) := by
  induction left generalizing l with
  | zero => exact ⟨sound, .refl l⟩
  | succ left ih =>
    rw [pollLoop]
    cases used : l.rxQueue.used with
    | nil => exact ⟨sound, .refl l⟩
    | cons entry rest =>
      dsimp only
      split
      · exact ⟨sound, .refl l⟩
      · have room := sound.rxLength
        rw [used, List.length_cons] at room
        have queued : enqueue l.rxQueue.avail ⟨entry.buf, bufSize⟩ =
            .ok (l.rxQueue.avail ++ [⟨entry.buf, bufSize⟩]) := by
          apply enqueue_room
          unfold numRxBufs at room
          unfold queueLen
          omega
        rw [queued]
        have kept : l.Kept { l with
            rxQueue := ⟨l.rxQueue.avail ++ [⟨entry.buf, bufSize⟩], rest⟩ } :=
          sound.kept ⟨rfl, rfl, rfl, rfl⟩ rfl rfl (by
            simp only [used, List.length_append, List.length_cons, List.length_nil]
            omega)
        apply (ih kept.1).bind
        rintro ⟨after, score, more⟩ later
        exact ⟨later.1, kept.2.trans later.2⟩

theorem picoEthPoll_ends (sound : l.Sound) (loopScore : Int) (recv : Nat → Int) :
    Ends (· ≠ Stop.fault) (fun s => l.Kept s.1) (picoEthPoll l loopScore recv) := by
  unfold picoEthPoll
  split
  · apply (pollLoop_ends sound recv loopScore.toNat).bind
    exact fun _ kept => kept
  · exact ⟨sound, .refl l⟩

theorem Link.Sound.empty (sound : l.Sound) (before : l.clientReady = false) :
    l.txQueue = ⟨[], []⟩ ∧ l.device.tx = [] ∧ l.rxQueue = ⟨[], []⟩ ∧ l.device.rx = [] := by
  have tx := sound.buffers
  have rx := sound.rxBuffers
  simp only [Link.allocated, before, Bool.false_eq_true, if_false, List.perm_nil, Link.txBuffers,
    List.append_eq_nil_iff, List.map_eq_nil_iff, List.length_nil] at tx rx
  have avail := List.eq_nil_of_length_eq_zero (show l.rxQueue.avail.length = 0 by omega)
  have used := List.eq_nil_of_length_eq_zero (show l.rxQueue.used.length = 0 by omega)
  have held := List.eq_nil_of_length_eq_zero (show l.device.rx.length = 0 by omega)
  exact ⟨congr (congrArg Virtqueue.mk tx.1.1.2) tx.2, tx.1.2,
    congr (congrArg Virtqueue.mk avail) used, held⟩

theorem clientInit_ends (sound : l.Sound) (before : l.clientReady = false) :
    Ends (· ≠ Stop.fault) (fun l' => l'.Sound ∧ l'.queued = l.queued) (clientInit l) := by
  obtain ⟨tx, sent, rx, held⟩ := sound.empty before
  rw [clientInit_eq (congrArg Virtqueue.avail rx)]
  refine ⟨⟨?_, ?_, ?_⟩, rfl⟩
  · simp [Link.txBuffers, Link.withClient, Link.setRxAvail, Link.allocated, tx, sent]
  · intro pair member
    exact sound.inFlight pair member
  · simp [Link.withClient, Link.setRxAvail, Link.allocated, rx, held]

/-! ## Runs -/

theorem run_ends {event : Event} (sound : l.Sound) (enabled : l.enabled event) :
    Ends (· ≠ Stop.fault) (fun s => s.1.Sound ∧
      Offers.serve Outcome.takes (l.queued ++ acceptedBy event s.2) s.2.offers = some s.1.queued)
      (l.run size event) := by
  -- the steps without an offer leave the queue as it is
  have idle : ∀ l' : Link, l'.Sound ∧ l'.queued = l.queued →
      l'.Sound ∧ Offers.serve Outcome.takes (l.queued ++ []) [] = some l'.queued := by
    rintro l' ⟨sound, same⟩
    rw [List.append_nil, Offers.serve_nil, same]
    exact ⟨sound, rfl⟩
  cases event with
  | clientInit =>
    apply (clientInit_ends sound enabled).bind
    exact fun l' ready => idle l' ready
  | serverInit rawPoll =>
    apply (drive_ends sound true rawPoll).bind
    rintro l' ⟨sound', same⟩
    exact idle _ ⟨⟨sound'.buffers, sound'.inFlight, sound'.rxBuffers⟩, same.queued⟩
  | send input len =>
    apply (picoEthSend_ends sound input len).bind
    rintro ⟨l', frame⟩ ⟨sound', queued⟩
    refine ⟨sound', ?_⟩
    rw [queued]
    exact Offers.serve_nil _
  | poll loopScore recv =>
    apply (picoEthPoll_ends sound loopScore recv).bind
    exact fun s ⟨sound', same⟩ => idle s.1 ⟨sound', same.queued⟩
  | notifyServer =>
    apply idle
    unfold notifyServer
    split
    · exact ⟨⟨sound.buffers, sound.inFlight, sound.rxBuffers⟩, rfl⟩
    · exact ⟨sound, rfl⟩
  | irqFromEthernet =>
    exact idle _ ⟨⟨sound.buffers, sound.inFlight, sound.rxBuffers⟩, rfl⟩
  | virtQueueHandleIrq driving =>
    have sound : { l with toServer := false }.Sound :=
      ⟨sound.buffers, sound.inFlight, sound.rxBuffers⟩
    apply (virtQueueHandleIrq_ends sound driving).bind
    rintro ⟨l', offers⟩ ⟨sound', served⟩
    refine ⟨sound', ?_⟩
    exact (congrArg (Offers.serve Outcome.takes · offers) (List.append_nil _)).trans served
  | notifyClient driving =>
    apply (notifyClient_ends sound driving).bind
    rintro ⟨l', offers⟩ ⟨sound', served⟩
    refine ⟨sound', ?_⟩
    exact (congrArg (Offers.serve Outcome.takes · offers) (List.append_nil _)).trans served
  | interrupt calls =>
    apply (drive_ends sound false calls).bind
    exact fun l' ⟨sound', same⟩ => idle l' ⟨sound', same.queued⟩

theorem Link.Sound.init : Link.init.Sound where
  buffers := List.Perm.refl _
  inFlight := nofun
  rxBuffers := rfl

theorem run_sound {trace : List (Event × Result)} {final : Link}
    (run : (machine size).Run .init trace final) :
    final.Sound ∧
      Offers.serve Outcome.takes (accepted trace) (offered trace) = some final.queued := by
  -- on the run, with the soundness of the link as the invariant behind the frames
  induction run with
  | start => exact ⟨.init, rfl⟩
  | @next trace before after event result run enabled step ih =>
    obtain ⟨sound, served⟩ := ih
    obtain ⟨sound', later⟩ := (run_ends sound enabled).of_ok (run_of_step step)
    refine ⟨sound', ?_⟩
    unfold accepted offered at served ⊢
    rw [List.flatMap_append, List.flatMap_append, List.flatMap_singleton, List.flatMap_singleton,
      Offers.serve_append served, later]

/-- Every accepted frame is taken by the device once and in order, or waits unchanged in the ring,
whose head alone is offered. Every buffer is in one place, and is not written while its frame is in
flight. No handler finds a ring full. -/
theorem transmit_exactly_once {trace : List (Event × Result)} {final : Link}
    (run : (machine size).Run .init trace final) :
    Offers.serve Outcome.takes (accepted trace) (offered trace) = some final.queued ∧
      Offers.taken Outcome.takes (offered trace) ++ final.queued = accepted trace ∧
      final.txBuffers.Perm (final.allocated numTxBufs) ∧ final.InFlight ∧
      ∀ event, final.enabled event → final.run size event ≠ .error .fault := by
  obtain ⟨sound, served⟩ := run_sound run
  refine ⟨served, Offers.taken_append served, sound.buffers, sound.inFlight, ?_⟩
  intro event enabled fault
  have ends : Ends (· ≠ Stop.fault) _ (final.run size event) := run_ends sound enabled
  rw [fault] at ends
  exact ends rfl

/-- A frame of two bytes is refused once and then taken and completed. -/
theorem transmit_exactly_once_retried : ∃ trace final,
    (machine bufSize).Run .init trace final ∧ accepted trace = [[7, 8]] ∧
      Offers.serve Outcome.takes (accepted trace) (offered trace) = some final.queued ∧
      Offers.taken Outcome.takes (offered trace) ++ final.queued = accepted trace ∧
      final.txBuffers.Perm (final.allocated numTxBufs) ∧ final.InFlight ∧
      ∀ event, final.enabled event → final.run bufSize event ≠ .error .fault := by
  have begun : (machine bufSize).Run .init [] _ := .start
  have ready := begun.on .clientInit rfl (step_of_run (run_clientInit rfl))
  have sent := ready.on (.send (fun i => if i = 0 then 7 else 8) 2) ⟨rfl, by decide⟩ rfl
  have served := sent.on (.serverInit [.allocate]) rfl rfl
  have refused := served.on (.virtQueueHandleIrq ⟨[], [⟨[], .complete⟩]⟩) ⟨rfl, rfl⟩ rfl
  have notified := refused.on .notifyServer rfl rfl
  have taken := notified.on (.virtQueueHandleIrq ⟨[], [⟨[], .enqueued⟩]⟩) ⟨rfl, rfl⟩ rfl
  have completed := taken.on (.interrupt [.txComplete 253]) rfl rfl
  exact ⟨_, _, completed, rfl, transmit_exactly_once completed⟩

end GlobalComponents.EthernetAsync
