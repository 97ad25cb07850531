import GlobalComponents.EthernetAsync.Transmit
import Mathlib.Data.List.Perm.Lattice

/-! Reception over the link: every frame that the driver completes is given to the stack once and in
order, from a buffer that nobody writes meanwhile, and the client is told of it.
-/

set_option autoImplicit false

namespace GlobalComponents.EthernetAsync

open Library

def Link.rxBuffers (l : Link) : List Buf :=
  l.rxQueue.avail.map Entry.buf ++ l.device.rx ++ l.rxQueue.used.map Entry.buf

def framesIn (mem : Buf → Memory) (entries : List Entry) : List Frame :=
  (entries.filter (0 < ·.len)).map fun entry => contents (mem entry.buf) entry.len

def Link.ready (l : Link) : List Frame := framesIn l.rxMem l.rxQueue.used

def stored (mem : Buf → Memory) : List Callback → Buf → Memory
  | [] => mem
  | .receive buf written :: calls => stored (Function.update mem buf written) calls
  | .allocate :: calls | .rxComplete _ :: calls | .txComplete _ :: calls => stored mem calls

/-- The frames that the driver completes, as they are in their buffers then. A frame in several
buffers is dropped. -/
def arrivals (mem : Buf → Memory) : List Callback → List Frame
  | [] => []
  | .receive buf written :: calls => arrivals (Function.update mem buf written) calls
  | .rxComplete [(buf, len)] :: calls => framesIn mem [⟨buf, len⟩] ++ arrivals mem calls
  | .allocate :: calls | .rxComplete _ :: calls | .txComplete _ :: calls => arrivals mem calls

def receptions (mem : Buf → Memory) (recv : Nat → Int) : Nat → List Entry → List (Frame × Int)
  | 0, _ | _ + 1, [] => []
  | left + 1, entry :: rest =>
    if entry.len > 0 then
      (contents (mem entry.buf) entry.len, recv left) ::
        if recv left ≤ 0 then [] else receptions mem recv left rest
    else receptions mem recv left rest

def keeps (err : Int) : Bool := err > 0

def Link.handling (l : Link) (driving : Driving) (offers : List (Frame × Outcome)) :
    List Callback :=
  (if l.server.noRxBufs then driving.rawPoll else []) ++
    (driving.rawTxs.take offers.length).flatMap RawTx.calls

def Link.driverCalls (l : Link) : Event → Result → List Callback
  | .serverInit calls, _ | .interrupt calls, _ => calls
  | .virtQueueHandleIrq driving, result => l.handling driving result.offers
  | .notifyClient driving, result =>
    if l.server.action ∧ l.server.blockedTx then l.handling driving result.offers else []
  | .clientInit, _ | .send _ _, _ | .poll _ _, _ | .notifyServer, _ | .irqFromEthernet, _ => []

def Link.handed (l : Link) : Event → List (Frame × Int)
  | .poll loopScore recv => receptions l.rxMem recv loopScore.toNat l.rxQueue.used
  | _ => []

/-- The poll has neither run out of its score nor met a frame that the stack refuses. -/
def Link.drains (l : Link) (event : Event) : Result → Bool
  | .polled score _ => score > 0 && (l.handed event).all (keeps ·.2)
  | .done | .sent _ | .offered _ => false

/-- What has come in, what the stack was given, and whether the client has been notified since its
last poll that emptied the ring. -/
structure Reception where
  arrived : List Frame
  handed : List (Frame × Int)
  told : Bool

def Link.tells (l : Link) (told : Bool) : Event → Result → Bool
  | .irqFromEthernet, _ => true
  | event, result => if l.drains event result then false else told

def receive (l : Link) (event : Event) (result : Result) (past : Reception) : Reception where
  arrived := past.arrived ++ arrivals l.rxMem (l.driverCalls event result)
  handed := past.handed ++ l.handed event
  told := l.tells past.told event result

def Result.frames : Result → List Frame
  | .polled _ frames => frames
  | .done | .sent _ | .offered _ => []

variable {size : Nat} {l l' : Link}

theorem framesIn_append (mem : Buf → Memory) (entries more : List Entry) :
    framesIn mem (entries ++ more) = framesIn mem entries ++ framesIn mem more := by
  unfold framesIn
  rw [List.filter_append, List.map_append]

theorem framesIn_cons (mem : Buf → Memory) (entry : Entry) (rest : List Entry) :
    framesIn mem (entry :: rest) =
      (if entry.len > 0 then [contents (mem entry.buf) entry.len] else []) ++
        framesIn mem rest := by
  unfold framesIn
  by_cases some : entry.len > 0
  · rw [List.filter_cons_of_pos (by simpa using some), if_pos some]
    rfl
  · rw [List.filter_cons_of_neg (by simpa using some), if_neg some]
    rfl

theorem framesIn_empty (mem : Buf → Memory) {entries : List Entry}
    (empty : ∀ entry ∈ entries, entry.len = 0) : framesIn mem entries = [] := by
  unfold framesIn
  rw [List.map_eq_nil_iff, List.filter_eq_nil_iff]
  intro entry member
  rw [empty entry member]
  exact of_decide_eq_false rfl

theorem framesIn_update (mem : Buf → Memory) {buf : Buf} (written : Memory) {entries : List Entry}
    (apart : ∀ entry ∈ entries, entry.buf ≠ buf) :
    framesIn (Function.update mem buf written) entries = framesIn mem entries := by
  apply List.map_congr_left
  intro entry member
  rw [Function.update_of_ne (apart entry (List.mem_of_mem_filter member))]

theorem enqueue_eq {ring ring' : List Entry} {entry : Entry}
    (done : enqueue ring entry = .ok ring') : ring' = ring ++ [entry] := by
  unfold enqueue at done
  split at done
  · cases done
    rfl
  · cases done

theorem enqueues_eq {entries ring ring' : List Entry}
    (done : entries.foldlM enqueue ring = .ok ring') : ring' = ring ++ entries := by
  induction entries generalizing ring with
  | nil =>
    cases done
    exact (List.append_nil _).symm
  | cons entry rest ih =>
    rw [List.foldlM_cons] at done
    obtain ⟨more, one, done⟩ := bind_ok.mp done
    rw [ih done, enqueue_eq one, List.append_assoc]
    rfl

/-! ## The driver -/

structure Link.Fed (l : Link) (calls : List Callback) (l' : Link) : Prop where
  buffers : l'.rxBuffers.Perm l.rxBuffers
  rxMem : l'.rxMem = stored l.rxMem calls
  ready : l'.ready = l.ready ++ arrivals l.rxMem calls
  action : l.server.action = true → l'.server.action = true
  noticed : l'.rxQueue.used = l.rxQueue.used ∨ l'.server.action = true
  clientReady : l'.clientReady = l.clientReady
  toClient : l'.toClient = l.toClient

theorem stored_append (mem : Buf → Memory) (calls calls' : List Callback) :
    stored mem (calls ++ calls') = stored (stored mem calls) calls' := by
  induction calls generalizing mem with
  | nil => rfl
  | cons call calls ih =>
    cases call with
    | receive buf written => exact ih _
    | allocate | rxComplete | txComplete => exact ih mem

theorem arrivals_append (mem : Buf → Memory) (calls calls' : List Callback) :
    arrivals mem (calls ++ calls') = arrivals mem calls ++ arrivals (stored mem calls) calls' := by
  induction calls generalizing mem with
  | nil => rfl
  | cons call calls ih =>
    cases call with
    | receive buf written => exact ih _
    | allocate | txComplete => exact ih mem
    | rxComplete bufs =>
      rcases bufs with _ | ⟨⟨buf, len⟩, _ | ⟨second, rest⟩⟩
      · exact ih mem
      · have whole := congrArg (framesIn mem [⟨buf, len⟩] ++ ·) (ih mem)
        exact whole.trans (List.append_assoc _ _ _).symm
      · exact ih mem

theorem Link.Fed.none (l : Link) : l.Fed [] l :=
  ⟨.refl _, rfl, (List.append_nil _).symm, id, .inl rfl, rfl, rfl⟩

theorem Link.Fed.append {l'' : Link} {calls calls' : List Callback} (first : l.Fed calls l')
    (second : l'.Fed calls' l'') : l.Fed (calls ++ calls') l'' where
  buffers := second.buffers.trans first.buffers
  rxMem := by rw [second.rxMem, first.rxMem, stored_append]
  ready := by
    rw [second.ready, first.ready, first.rxMem, arrivals_append, List.append_assoc]
  action set := second.action (first.action set)
  noticed := by
    rcases second.noticed with same | set
    · exact first.noticed.imp same.trans second.action
    · exact .inr set
  clientReady := second.clientReady.trans first.clientReady
  toClient := second.toClient.trans first.toClient

theorem Link.Fed.quiet {call : Callback} (buffers : l'.rxBuffers.Perm l.rxBuffers)
    (rxMem : l'.rxMem = l.rxMem) (used : l'.rxQueue.used = l.rxQueue.used)
    (action : l.server.action = true → l'.server.action = true)
    (clientReady : l'.clientReady = l.clientReady) (toClient : l'.toClient = l.toClient)
    (none : ∀ mem, stored mem [call] = mem ∧ arrivals mem [call] = []) : l.Fed [call] l' where
  buffers := buffers
  rxMem := rxMem.trans (none _).1.symm
  ready := by
    unfold Link.ready
    rw [(none l.rxMem).2, rxMem, used, List.append_nil]
  action := action
  noticed := .inl used
  clientReady := clientReady
  toClient := toClient

theorem allocate_fed {refused : Bool} (done : callback size l .allocate = .ok (l', refused)) :
    l.Fed [.allocate] l' := by
  rw [callback] at done
  unfold ethAllocateRxBuf at done
  by_cases large : size > bufSize
  · rw [if_pos large] at done
    cases done
    exact .quiet (.refl _) rfl rfl id rfl rfl fun _ => ⟨rfl, rfl⟩
  · rw [if_neg large] at done
    cases avail : l.rxQueue.avail with
    | nil =>
      rw [avail] at done
      cases done
      exact .quiet (.refl _) rfl rfl id rfl rfl fun _ => ⟨rfl, rfl⟩
    | cons entry rest =>
      rw [avail] at done
      cases done
      refine .quiet ?_ rfl rfl id rfl rfl fun _ => ⟨rfl, rfl⟩
      apply List.perm_iff_count.mpr
      intro buf
      simp only [Link.rxBuffers, Link.setRxAvail, avail, List.map_cons, List.count_append,
        List.count_cons]
      omega

/-- A buffer that the device holds is not in the used ring, so that it overwrites no frame. -/
theorem receive_fed {buf : Buf} {written : Memory} {refused : Bool} (apart : l.rxBuffers.Nodup)
    (done : callback size l (.receive buf written) = .ok (l', refused)) :
    l.Fed [.receive buf written] l' := by
  rw [callback] at done
  split at done
  · next held =>
    cases done
    refine ⟨.refl _, rfl, ?_, id, .inl rfl, rfl, rfl⟩
    have others : ∀ entry ∈ l.rxQueue.used, entry.buf ≠ buf := by
      intro entry member same
      have disjoint := List.disjoint_of_nodup_append apart
      exact disjoint (List.mem_append_right _ held) (List.mem_map.mpr ⟨entry, member, same⟩)
    have same : framesIn (Function.update l.rxMem buf written) l.rxQueue.used = l.ready :=
      framesIn_update l.rxMem written others
    exact same.trans (List.append_nil _).symm
  · cases done

theorem ethRxComplete_eq {bufs : List (Buf × Nat)} (done : ethRxComplete l bufs = .ok l') :
    ∃ entries : List Entry, entries.map Entry.buf = bufs.map Prod.fst ∧
      framesIn l.rxMem entries = arrivals l.rxMem [.rxComplete bufs] ∧ l' =
        { l.setRxUsed (l.rxQueue.used ++ entries) with
          server := { l.server with action := true } } := by
  unfold ethRxComplete at done
  obtain ⟨used, queued, done⟩ := bind_ok.mp done
  have used := enqueues_eq queued
  subst used
  cases done
  refine ⟨_, ?_, ?_, rfl⟩
  · rcases bufs with _ | ⟨⟨buf, len⟩, _ | ⟨second, rest⟩⟩
    · rfl
    · rfl
    · exact List.map_map
  · rcases bufs with _ | ⟨⟨buf, len⟩, _ | ⟨second, rest⟩⟩
    · rfl
    · exact (List.append_nil _).symm
    · apply framesIn_empty
      intro entry member
      obtain ⟨buf, _, rfl⟩ := List.mem_map.mp member
      rfl

theorem rxComplete_fed {bufs : List (Buf × Nat)} {refused : Bool}
    (done : callback size l (.rxComplete bufs) = .ok (l', refused)) :
    l.Fed [.rxComplete bufs] l' := by
  rw [callback] at done
  split at done
  · next held =>
    obtain ⟨after, completed, done⟩ := bind_ok.mp done
    obtain ⟨entries, same, frames, rfl⟩ := ethRxComplete_eq completed
    cases done
    have moved : (bufs.map Prod.fst ++ l.device.rx.diff (bufs.map Prod.fst)).Perm l.device.rx :=
      List.subperm_append_diff_self_of_count_le fun buf _ => (held.1.subperm held.2).count_le buf
    refine ⟨?_, rfl, ?_, fun _ => rfl, .inr rfl, rfl, rfl⟩
    · apply List.perm_iff_count.mpr
      intro buf
      have count := moved.count_eq buf
      simp only [Link.rxBuffers, Link.setRxUsed, List.map_append, same, List.count_append]
        at count ⊢
      omega
    · rw [← frames]
      exact framesIn_append l.rxMem l.rxQueue.used entries
  · cases done

theorem callback_fed {call : Callback} {refused : Bool} (apart : l.rxBuffers.Nodup)
    (done : callback size l call = .ok (l', refused)) : l.Fed [call] l' := by
  cases call with
  | allocate => exact allocate_fed done
  | receive buf written => exact receive_fed apart done
  | rxComplete bufs => exact rxComplete_fed done
  | txComplete cookie =>
    rw [callback] at done
    split at done
    · obtain ⟨after, completed, done⟩ := bind_ok.mp done
      obtain ⟨used, _, completed⟩ := bind_ok.mp completed
      cases completed
      cases done
      refine .quiet (.refl _) rfl rfl (fun set => ?_) rfl rfl fun _ => ⟨rfl, rfl⟩
      show (if l.server.blockedTx then true else l.server.action) = true
      rw [set, ite_self]
    · cases done

theorem callbacks_fed {calls : List Callback} {refused refused' : Bool} (apart : l.rxBuffers.Nodup)
    (done : calls.foldlM (callbackNext size) (l, refused) = .ok (l', refused')) : l.Fed calls l' := by
  induction calls generalizing l refused with
  | nil =>
    cases done
    exact .none _
  | cons call rest ih =>
    rw [List.foldlM_cons] at done
    obtain ⟨⟨middle, denied⟩, one, done⟩ := bind_ok.mp done
    obtain ⟨_, one, _⟩ := callbackNext_ok one
    have first := callback_fed apart one
    exact first.append (ih (first.buffers.nodup_iff.mpr apart) done)

theorem drive_fed {polled : Bool} {calls : List Callback} (apart : l.rxBuffers.Nodup)
    (done : drive size polled l calls = .ok l') : l.Fed calls l' := by
  obtain ⟨⟨after, refused⟩, made, done⟩ := bind_ok.mp done
  dsimp only at done
  split at done
  · cases done
  · cases done
    exact callbacks_fed apart made

/-! ## The handlers -/

theorem transmit_fed {rawTxs : List RawTx} {offers : List (Frame × Outcome)}
    (apart : l.rxBuffers.Nodup) (done : transmit size rawTxs l = .ok (l', offers)) :
    l.Fed ((rawTxs.take offers.length).flatMap RawTx.calls) l' := by
  -- on the calls of `raw_tx`, of which a refused one is the last
  induction rawTxs generalizing l offers with
  | nil =>
    rw [transmit] at done
    split at done
    · cases done
      exact .none _
    · cases done
  | cons rawTx rawTxs ih =>
    rw [transmit] at done
    cases avail : l.txQueue.avail with
    | nil =>
      rw [avail] at done
      cases done
      exact .none _
    | cons entry rest =>
      rw [avail] at done
      obtain ⟨after, drove, done⟩ := bind_ok.mp done
      have first := drive_fed apart drove
      split at done
      · cases done
        have whole : ((rawTx :: rawTxs).take 1).flatMap RawTx.calls = rawTx.calls :=
          List.flatMap_singleton _ _
        rw [List.length_singleton, whole]
        exact ⟨first.buffers, first.rxMem, first.ready, first.action, first.noticed,
          first.clientReady, first.toClient⟩
      · obtain ⟨⟨last, more⟩, others, done⟩ := bind_ok.mp done
        cases done
        have others := ih (l := { after.setTxAvail after.txQueue.avail.tail with
          server := { after.server with blockedTx := false }
          device := { after.device with
            tx := after.device.tx ++ [(entry.buf, contents (l.txMem entry.buf) entry.len)] } })
          (first.buffers.nodup_iff.mpr apart) others
        have later : after.Fed _ _ := ⟨others.buffers, others.rxMem, others.ready, others.action,
          others.noticed, others.clientReady, others.toClient⟩
        exact first.append later

theorem virtQueueHandleIrq_fed {driving : Driving} {offers : List (Frame × Outcome)}
    (apart : l.rxBuffers.Nodup) (done : virtQueueHandleIrq size l driving = .ok (l', offers)) :
    l.Fed (l.handling driving offers) l' := by
  unfold virtQueueHandleIrq at done
  unfold Link.handling
  split at done
  · next lacking =>
    obtain ⟨after, polled, sent⟩ := bind_ok.mp done
    have first := drive_fed apart polled
    rw [if_pos lacking]
    exact first.append (transmit_fed (first.buffers.nodup_iff.mpr apart) sent)
  · next able =>
    rw [if_neg able]
    exact transmit_fed apart done

/-! ## The client -/

structure Link.SameReceive (l l' : Link) : Prop where
  rxQueue : l'.rxQueue = l.rxQueue
  rxMem : l'.rxMem = l.rxMem
  device : l'.device = l.device
  server : l'.server = l.server
  clientReady : l'.clientReady = l.clientReady
  toClient : l'.toClient = l.toClient

theorem picoEthSend_sameReceive {input : Memory} {len : Nat} {frame : Option Frame}
    (done : picoEthSend l input len = .ok (l', frame)) : l.SameReceive l' := by
  unfold picoEthSend at done
  dsimp only at done
  split at done
  · cases done
    exact ⟨rfl, rfl, rfl, rfl, rfl, rfl⟩
  · next buf free draw =>
    obtain ⟨avail, _, done⟩ := bind_ok.mp done
    cases done
    split at draw
    · cases draw
      exact ⟨rfl, rfl, rfl, rfl, rfl, rfl⟩
    · split at draw
      · cases draw
        exact ⟨rfl, rfl, rfl, rfl, rfl, rfl⟩
      · cases draw

structure Link.Polled (l : Link) (handed : List (Frame × Int)) (l' : Link) (score : Int) :
    Prop where
  buffers : l'.rxBuffers.Perm l.rxBuffers
  served : Offers.serve keeps l.ready handed = some l'.ready
  suffix : l'.rxQueue.used <:+ l.rxQueue.used
  server : l'.server = l.server
  clientReady : l'.clientReady = l.clientReady
  toClient : l'.toClient = l.toClient
  emptied : score > 0 → handed.all (keeps ·.2) = true → l'.rxQueue.used = []

theorem pollLoop_polled {recv : Nat → Int} {left score : Nat} {frames : List Frame}
    (done : pollLoop recv left l = .ok (l', score, frames)) :
    l.Polled (receptions l.rxMem recv left l.rxQueue.used) l' score ∧
      frames = (receptions l.rxMem recv left l.rxQueue.used).map Prod.fst := by
  -- on the score: each round starts from the rings that the round before has left
  induction left generalizing l score frames with
  | zero =>
    cases done
    exact ⟨⟨.refl _, Offers.serve_nil _, List.suffix_refl _, rfl, rfl, rfl,
      fun some => absurd some (Int.lt_irrefl 0)⟩, rfl⟩
  | succ left ih =>
    rw [pollLoop] at done
    cases used : l.rxQueue.used with
    | nil =>
      rw [used] at done
      cases done
      exact ⟨⟨.refl _, Offers.serve_nil _, List.suffix_refl _, rfl, rfl, rfl, fun _ _ => used⟩, rfl⟩
    | cons entry rest =>
      rw [used] at done
      dsimp only at done
      have waits : l.ready = framesIn l.rxMem (entry :: rest) := by rw [Link.ready, used]
      -- a frame that the stack refuses stays in the used ring and ends the poll
      by_cases refused : entry.len > 0 ∧ recv left ≤ 0
      · rw [if_pos refused, if_pos refused.1] at done
        cases done
        have stays : ¬keeps (recv left) = true := fun kept => by
          have kept := of_decide_eq_true kept
          omega
        rw [receptions, if_pos refused.1, if_pos refused.2]
        refine ⟨⟨.refl _, ?_, List.suffix_refl _, rfl, rfl, rfl, fun _ all => ?_⟩, rfl⟩
        · rw [waits, framesIn_cons, if_pos refused.1]
          exact Offers.serve_refuse stays
        · exact absurd (List.all_eq_true.mp all _ List.mem_cons_self) stays
      · rw [if_neg refused] at done
        obtain ⟨avail, queued, done⟩ := bind_ok.mp done
        have given := enqueue_eq queued
        subst given
        obtain ⟨⟨after, score', more⟩, looped, done⟩ := bind_ok.mp done
        cases done
        obtain ⟨polled, reported⟩ := ih (l := { l with rxQueue := ⟨_, rest⟩ }) looped
        have buffers : after.rxBuffers.Perm l.rxBuffers := by
          refine polled.buffers.trans ?_
          apply List.perm_iff_count.mpr
          intro buf
          simp only [Link.rxBuffers, used, List.map_append, List.map_cons, List.map_nil,
            List.count_append, List.count_cons, List.count_nil]
          omega
        have served : Offers.serve keeps (framesIn l.rxMem rest) _ = _ := polled.served
        have suffix : after.rxQueue.used <:+ l.rxQueue.used := by
          rw [used]
          exact polled.suffix.trans (List.suffix_cons entry rest)
        rw [receptions, reported]
        by_cases some : entry.len > 0
        · have taken : ¬recv left ≤ 0 := fun refuses => refused ⟨some, refuses⟩
          have kept : keeps (recv left) = true := decide_eq_true (by omega)
          rw [if_pos some, if_pos some, if_neg taken]
          refine ⟨⟨buffers, ?_, suffix, polled.server, polled.clientReady, polled.toClient, ?_⟩,
            rfl⟩
          · rw [waits, framesIn_cons, if_pos some, List.singleton_append, Offers.serve_take kept]
            exact served
          · intro positive all
            rw [List.all_cons, kept, Bool.true_and] at all
            exact polled.emptied positive all
        · rw [if_neg some, if_neg some]
          refine ⟨⟨buffers, ?_, suffix, polled.server, polled.clientReady, polled.toClient,
            polled.emptied⟩, rfl⟩
          rw [waits, framesIn_cons, if_neg some, List.nil_append]
          exact served

theorem picoEthPoll_polled {loopScore score : Int} {recv : Nat → Int} {frames : List Frame}
    (done : picoEthPoll l loopScore recv = .ok (l', score, frames)) :
    l.Polled (l.handed (.poll loopScore recv)) l' score ∧
      frames = (l.handed (.poll loopScore recv)).map Prod.fst := by
  unfold picoEthPoll at done
  split at done
  · obtain ⟨⟨after, left, taken⟩, looped, done⟩ := bind_ok.mp done
    cases done
    exact pollLoop_polled looped
  · next spent =>
    cases done
    have none : l.handed (.poll loopScore recv) = [] := by
      rw [Link.handed, Int.toNat_of_nonpos (by omega), receptions]
    rw [none]
    exact ⟨⟨.refl _, Offers.serve_nil _, List.suffix_refl _, rfl, rfl, rfl,
      fun some => absurd some spent⟩, rfl⟩

/-! ## Runs -/

structure Link.Receives (l : Link) (past : Reception) : Prop where
  buffers : l.rxBuffers.Perm (l.allocated numRxBufs)
  served : Offers.serve keeps past.arrived past.handed = some l.ready
  announced : l.rxQueue.used ≠ [] →
    l.server.action = true ∨ l.toClient = true ∨ past.told = true

variable {past : Reception}

theorem Link.Receives.apart (receives : l.Receives past) : l.rxBuffers.Nodup := by
  apply receives.buffers.nodup_iff.mpr
  unfold Link.allocated
  split
  · exact List.nodup_range
  · exact List.nodup_nil

theorem allocated_same (clientReady : l'.clientReady = l.clientReady) (count : Nat) :
    l'.allocated count = l.allocated count := by
  unfold Link.allocated
  rw [clientReady]

theorem Link.Fed.receives {calls : List Callback} {told : Bool} (fed : l.Fed calls l')
    (receives : l.Receives past) (still : told = past.told) :
    l'.Receives ⟨past.arrived ++ arrivals l.rxMem calls, past.handed ++ [], told⟩ where
  buffers := by
    rw [allocated_same fed.clientReady]
    exact fed.buffers.trans receives.buffers
  served := by
    refine (Offers.serve_append receives.served _ _).trans ?_
    rw [Offers.serve_nil, fed.ready]
  announced some := by
    rcases fed.noticed with same | set
    · rw [same] at some
      rw [fed.toClient, still]
      exact (receives.announced some).imp_left fed.action
    · exact .inl set

theorem Link.Receives.of_same {told : Bool} (receives : l.Receives past)
    (rxQueue : l'.rxQueue = l.rxQueue) (rxMem : l'.rxMem = l.rxMem)
    (device : l'.device = l.device) (clientReady : l'.clientReady = l.clientReady)
    (announced : l.server.action = true ∨ l.toClient = true ∨ past.told = true →
      l'.server.action = true ∨ l'.toClient = true ∨ told = true) :
    l'.Receives ⟨past.arrived ++ [], past.handed ++ [], told⟩ where
  buffers := by
    unfold Link.rxBuffers
    rw [allocated_same clientReady, rxQueue, device]
    exact receives.buffers
  served := by
    refine (Offers.serve_append receives.served _ _).trans ?_
    rw [Offers.serve_nil, List.append_nil]
    unfold Link.ready
    rw [rxQueue, rxMem]
  announced some := by
    rw [rxQueue] at some
    exact announced (receives.announced some)

theorem clientInit_receives (receives : l.Receives past) (before : l.clientReady = false)
    (done : clientInit l = .ok l') :
    l'.Receives ⟨past.arrived ++ [], past.handed ++ [], past.told⟩ := by
  have none := receives.buffers
  simp only [Link.allocated, before, Bool.false_eq_true, if_false, List.perm_nil, Link.rxBuffers,
    List.append_eq_nil_iff, List.map_eq_nil_iff] at none
  obtain ⟨⟨avail, held⟩, used⟩ := none
  rw [clientInit_eq avail] at done
  cases done
  refine ⟨?_, ?_, receives.announced⟩
  · simp [Link.rxBuffers, Link.withClient, Link.setRxAvail, Link.allocated, held, used,
      Function.comp_def]
  · refine (Offers.serve_append receives.served _ _).trans ?_
    rw [Offers.serve_nil, List.append_nil]
    rfl

theorem poll_receives {loopScore score : Int} {recv : Nat → Int} {frames : List Frame}
    (receives : l.Receives past) (polled : l.Polled (l.handed (.poll loopScore recv)) l' score) :
    l'.Receives (receive l (.poll loopScore recv) (.polled score frames) past) where
  buffers := by
    rw [allocated_same polled.clientReady]
    exact polled.buffers.trans receives.buffers
  served := by
    refine (Offers.serve_append receives.served _ _).trans ?_
    exact (congrArg (Offers.serve keeps · _) (List.append_nil _)).trans polled.served
  announced some := by
    have drained : l.drains (.poll loopScore recv) (.polled score frames) ≠ true := by
      intro drains
      obtain ⟨positive, kept⟩ := Bool.and_eq_true_iff.mp drains
      exact some (polled.emptied (of_decide_eq_true positive) kept)
    have told : (receive l (.poll loopScore recv) (.polled score frames) past).told = past.told :=
      if_neg drained
    rw [polled.server, polled.toClient, told]
    apply receives.announced
    intro none
    have suffix := polled.suffix
    rw [none] at suffix
    exact some (List.suffix_nil.mp suffix)

theorem notifyClient_receives {driving : Driving} {offers : List (Frame × Outcome)}
    (receives : l.Receives past) (done : notifyClient size l driving = .ok (l', offers)) :
    l'.Receives (receive l (.notifyClient driving) (.offered offers) past) := by
  unfold receive
  rw [Link.driverCalls]
  unfold notifyClient at done
  dsimp only at done
  split at done
  · next set =>
    split at done
    · next blocked =>
      obtain ⟨⟨after, offers⟩, handled, done⟩ := bind_ok.mp done
      cases done
      have later := (virtQueueHandleIrq_fed receives.apart handled).receives receives rfl
      rw [if_pos ⟨set, blocked⟩]
      exact ⟨later.buffers, later.served, fun _ => .inr (.inl rfl)⟩
    · next free =>
      cases done
      rw [if_neg fun both => free both.2]
      exact receives.of_same rfl rfl rfl rfl fun _ => .inr (.inl rfl)
  · next unset =>
    cases done
    rw [if_neg fun both => unset both.1]
    exact receives.of_same rfl rfl rfl rfl id

theorem run_receives {event : Event} {result : Result} (receives : l.Receives past)
    (enabled : l.enabled event) (done : l.run size event = .ok (l', result)) :
    l'.Receives (receive l event result past) ∧
      result.frames = (l.handed event).map Prod.fst := by
  cases event with
  | clientInit =>
    obtain ⟨after, started, done⟩ := bind_ok.mp done
    cases done
    exact ⟨clientInit_receives receives enabled started, rfl⟩
  | serverInit calls =>
    obtain ⟨after, drove, done⟩ := bind_ok.mp done
    cases done
    have later := (drive_fed receives.apart drove).receives receives rfl
    exact ⟨⟨later.buffers, later.served, later.announced⟩, rfl⟩
  | send input len =>
    obtain ⟨⟨after, frame⟩, sent, done⟩ := bind_ok.mp done
    cases done
    have same := picoEthSend_sameReceive sent
    refine ⟨receives.of_same same.rxQueue same.rxMem same.device same.clientReady ?_, rfl⟩
    rw [same.server, same.toClient]
    exact id
  | poll loopScore recv =>
    obtain ⟨⟨after, score, frames⟩, polled, done⟩ := bind_ok.mp done
    cases done
    obtain ⟨polled, reported⟩ := picoEthPoll_polled polled
    exact ⟨poll_receives receives polled, reported⟩
  | notifyServer =>
    cases done
    refine ⟨?_, rfl⟩
    unfold notifyServer
    split
    · exact receives.of_same rfl rfl rfl rfl id
    · exact receives.of_same rfl rfl rfl rfl id
  | irqFromEthernet =>
    cases done
    exact ⟨receives.of_same rfl rfl rfl rfl fun _ => .inr (.inr rfl), rfl⟩
  | virtQueueHandleIrq driving =>
    obtain ⟨⟨after, offers⟩, handled, done⟩ := bind_ok.mp done
    cases done
    have receives : { l with toServer := false }.Receives past :=
      ⟨receives.buffers, receives.served, receives.announced⟩
    exact ⟨(virtQueueHandleIrq_fed receives.apart handled).receives receives rfl, rfl⟩
  | notifyClient driving =>
    obtain ⟨⟨after, offers⟩, notified, done⟩ := bind_ok.mp done
    cases done
    exact ⟨notifyClient_receives receives notified, rfl⟩
  | interrupt calls =>
    obtain ⟨after, drove, done⟩ := bind_ok.mp done
    cases done
    exact ⟨(drive_fed receives.apart drove).receives receives rfl, rfl⟩

theorem Link.Receives.init : Link.init.Receives ⟨[], [], false⟩ where
  buffers := .refl _
  served := rfl
  announced some := absurd rfl some

/-- The stack is offered every frame that has come in, in order and as it came in, until it keeps
it; the others wait in the ring. Every buffer is in one place. The client has yet to be notified of
the frames that wait, or its polls since then have run out of score or been refused. -/
theorem receive_exactly_once {trace : List (Event × Result)} {final : Link} {past : Reception}
    (run : ((machine size).record receive).Run (.init, ⟨[], [], false⟩) trace (final, past)) :
    (trace.flatMap fun step => step.2.frames) = past.handed.map Prod.fst ∧
      Offers.serve keeps past.arrived past.handed = some final.ready ∧
      Offers.taken keeps past.handed ++ final.ready = past.arrived ∧
      final.rxBuffers.Perm (final.allocated numRxBufs) ∧
      (final.rxQueue.used ≠ [] →
        final.server.action = true ∨ final.toClient = true ∨ past.told = true) := by
  have held : final.Receives past ∧
      (trace.flatMap fun step => step.2.frames) = past.handed.map Prod.fst := by
    generalize whole : (final, past) = state at run
    -- on the run, with the ledger of what has come in until then
    induction run generalizing final past with
    | start =>
      cases whole
      exact ⟨.init, rfl⟩
    | @next trace before after event result run enabled step ih =>
      obtain ⟨step, recorded⟩ := Machine.record_step step
      subst whole
      obtain ⟨receives, reported⟩ := @ih before.1 before.2 rfl
      obtain ⟨later, frames⟩ := run_receives receives enabled (run_of_step step)
      have recorded : past = receive before.1 event result before.2 := recorded
      rw [← recorded] at later
      refine ⟨later, ?_⟩
      rw [recorded, List.flatMap_append, List.flatMap_singleton, reported, frames]
      exact List.map_append.symm
  exact ⟨held.2, held.1.served, Offers.taken_append held.1.served, held.1.buffers,
    held.1.announced⟩

set_option maxRecDepth 4000 in
theorem receive_exactly_once_retried : ∃ trace final past,
    ((machine bufSize).record receive).Run (.init, ⟨[], [], false⟩) trace (final, past) ∧
      past = ⟨[[7, 8]], [([7, 8], -1), ([7, 8], 1)], false⟩ ∧
      (trace.flatMap fun step => step.2.frames) = past.handed.map Prod.fst ∧
      Offers.serve keeps past.arrived past.handed = some final.ready ∧
      Offers.taken keeps past.handed ++ final.ready = past.arrived ∧
      final.rxBuffers.Perm (final.allocated numRxBufs) ∧
      (final.rxQueue.used ≠ [] →
        final.server.action = true ∨ final.toClient = true ∨ past.told = true) := by
  have begun : ((machine bufSize).record receive).Run (.init, ⟨[], [], false⟩) [] _ := .start
  have ready := begun.onRecord .clientInit rfl (step_of_run (run_clientInit rfl))
  have served := ready.onRecord (.serverInit [.allocate, .allocate]) rfl rfl
  have came := served.onRecord (.interrupt [.receive 1 fun i => if i = 0 then 7 else 8,
    .rxComplete [(1, 2)], .rxComplete [(0, 0)], .allocate]) rfl rfl
  have notified := came.onRecord (.notifyClient ⟨[], []⟩) rfl rfl
  have woken := notified.onRecord .irqFromEthernet ⟨rfl, rfl⟩ rfl
  have refused := woken.onRecord (.poll 16 fun _ => -1) rfl rfl
  have kept := refused.onRecord (.poll 16 fun _ => 1) rfl rfl
  exact ⟨_, _, _, kept, rfl, receive_exactly_once kept⟩

end GlobalComponents.EthernetAsync
