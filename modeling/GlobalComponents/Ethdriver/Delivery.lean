import GlobalComponents.Ethdriver.Conservation

/-! Each client obtains the frames accepted for it, in their order and each once.

What is accepted is stated apart from the driver's loop: it depends on the destination, on the
room in the client's ring and on how many clients before it have taken a free buffer.
-/

set_option autoImplicit false

namespace GlobalComponents.Ethdriver

open Library

namespace RxView

def frames (v : RxView) (i : Nat) : List (List UInt8) :=
  (v.queues i).map fun frame => bytes (v.contents frame.buf) frame.len

def hasRoom (v : RxView) (i : Nat) : Prop := (v.queues i).length < clientRxBufs - 1

instance (v : RxView) (i : Nat) : Decidable (v.hasRoom i) := inferInstanceAs (Decidable (_ < _))

/-- How many of the clients `1..m` have room, and so take a free buffer. -/
def takers (v : RxView) (m : Nat) : Nat := (List.range' 1 m).countP fun i => v.hasRoom i

/-- Client `i` gets its copy of a shared frame: it has room, the frame fits and the clients before
it leave a free buffer. -/
def Copies (v : RxView) (len i : Nat) : Prop :=
  v.hasRoom i ∧ len ≤ bufSize ∧ v.takers (i - 1) < v.pool.length

instance (v : RxView) (len i : Nat) : Decidable (v.Copies len i) :=
  inferInstanceAs (Decidable (_ ∧ _ ∧ _))

end RxView

def Driver.Addressed (d : Driver) (buf : Memory) (len i : Nat) : Prop :=
  6 ≤ len ∧ i < d.numClients ∧ (∀ k : Fin 6, (d.clients i).mac k = buf k) ∧
    ∀ j < i, ¬∀ k : Fin 6, (d.clients j).mac k = buf k

def Driver.Shared (d : Driver) (buf : Memory) (len : Nat) : Prop :=
  (∀ i < d.numClients, ¬d.Addressed buf len i) ∧ (isBroadcast buf len ∨ isMulticast buf len)

instance (d : Driver) (buf : Memory) (len i : Nat) : Decidable (d.Addressed buf len i) :=
  inferInstanceAs (Decidable (_ ∧ _ ∧ _ ∧ _))

instance (d : Driver) (buf : Memory) (len : Nat) : Decidable (d.Shared buf len) :=
  inferInstanceAs (Decidable (_ ∧ _))

/-- The completed buffers are one frame, and it is accepted for client `i`. -/
def Driver.Accepts (d : Driver) (bufs : List (Nat × Nat)) (i : Nat) : Prop :=
  match bufs with
  | [(buf, len)] =>
    i < d.numClients ∧ d.view.hasRoom i ∧
      (d.Addressed (d.rxBufs buf).buf len i ∨
        d.Shared (d.rxBufs buf).buf len ∧ (0 < i → d.view.Copies len i))
  | _ => False

instance (d : Driver) (bufs : List (Nat × Nat)) (i : Nat) : Decidable (d.Accepts bufs i) := by
  unfold Driver.Accepts
  split <;> infer_instance

/-- The frames accepted for each client and those it obtained, the oldest first. -/
structure Deliveries where
  accepted : Nat → List (List UInt8)
  obtained : Nat → List (List UInt8)

def Deliveries.none : Deliveries := ⟨fun _ => [], fun _ => []⟩

def Driver.frameBytes (d : Driver) (bufs : List (Nat × Nat)) : List (List UInt8) :=
  bufs.map fun (buf, len) => bytes (d.rxBufs buf).buf len

def Deliveries.note (ledger : Deliveries) (s : System) (event : Event) (result : Result) :
    Deliveries :=
  match event, result with
  | .rxComplete bufs, _ =>
    { ledger with
      accepted := fun i =>
        ledger.accepted i ++ if s.driver.Accepts bufs i then s.driver.frameBytes bufs else [] }
  | .rx id, .rx _ frame =>
    { ledger with
      obtained := fun i =>
        ledger.obtained i ++ if (s.driver.clients i).clientId = id then frame.toList else [] }
  | _, _ => ledger

def recording (config : Config) : Machine (System × Deliveries) Event Result :=
  (machine config).record fun s event result ledger => ledger.note s event result

def answer : List (List UInt8) → Result
  | [] => .rx (-1) none
  | [frame] => .rx 0 (some frame)
  | frame :: _ :: _ => .rx 1 (some frame)

theorem note_answer (s : System) (id : Nat) (queue : List (List UInt8)) (ledger : Deliveries) :
    ledger.note s (.rx id) (answer queue) =
      { ledger with
        obtained := fun i => ledger.obtained i ++
          if (s.driver.clients i).clientId = id then queue.head?.toList else [] } := by
  match queue with
  | [] | [_] | _ :: _ :: _ => rfl

/-! ## Where a frame goes -/

theorem full_iff {d : Driver} (wf : d.Wf) (i : Nat) : d.view.full i ↔ ¬d.view.hasRoom i := by
  have bound : Ring.occupancy clientRxBufs (d.clients i).pendingRxHead
      (d.clients i).pendingRxTail < clientRxBufs := Ring.occupancy_lt (wf.head i)
  simp only [RxView.full, RxView.hasRoom, Driver.view, Client.pending, Ring.queue_length]
  omega

theorem detectClient_eq_some_iff {d : Driver} {buf : Memory} {len i : Nat} :
    detectClient d buf len = some i ↔ d.Addressed buf len i := by
  unfold detectClient Driver.Addressed
  by_cases short : len < 6
  · simp [if_pos short, Nat.not_le.mpr short]
  · rw [if_neg short, List.find?_range_eq_some]
    simp [Nat.not_lt.mp short, and_comm, and_assoc]

theorem detectClient_eq_none_iff {d : Driver} {buf : Memory} {len : Nat} :
    detectClient d buf len = none ↔ ∀ i < d.numClients, ¬d.Addressed buf len i := by
  rw [Option.eq_none_iff_forall_ne_some]
  constructor
  · exact fun undetected i _ addressed => undetected i (detectClient_eq_some_iff.mpr addressed)
  · intro nobody i detected
    have addressed := detectClient_eq_some_iff.mp detected
    exact nobody i addressed.2.1 addressed

theorem Driver.Addressed.unique {d : Driver} {buf : Memory} {len i j : Nat}
    (first : d.Addressed buf len i) (second : d.Addressed buf len j) : i = j :=
  Option.some.inj ((detectClient_eq_some_iff.mpr first).symm.trans
    (detectClient_eq_some_iff.mpr second))

inductive Driver.Routed (d : Driver) (buf : Memory) (len : Nat) : Route → Prop where
  | unicast {i : Nat} : d.Addressed buf len i → Routed d buf len (.unicast i)
  | everyone : d.Shared buf len → Routed d buf len .everyone
  | nobody : (∀ i < d.numClients, ¬d.Addressed buf len i) → ¬d.Shared buf len →
    Routed d buf len .nobody

theorem route_routed (d : Driver) (buf : Memory) (len : Nat) :
    d.Routed buf len (d.route buf len) := by
  unfold Driver.route
  cases detected : detectClient d buf len with
  | some i => exact .unicast (detectClient_eq_some_iff.mp detected)
  | none =>
    have nobody := detectClient_eq_none_iff.mp detected
    by_cases shared : (isBroadcast buf len || isMulticast buf len) = true
    · simp only [shared, if_true]
      exact .everyone ⟨nobody, by simpa using shared⟩
    · simp only [shared]
      exact .nobody nobody fun both => shared (by simpa using both.2)

/-! ## What a completion queues -/

namespace RxView

variable {v w : RxView} {numClients : Nat}

theorem queued_mem_places {i : Nat} (client : i < numClients) {frame : RxFrame}
    (queued : frame ∈ v.queues i) : frame.buf ∈ v.places numClients := by
  refine Multiset.mem_add.mpr (.inr (Multiset.mem_sum.mpr ⟨i, Finset.mem_range.mpr client, ?_⟩))
  exact Multiset.mem_coe.mpr (List.mem_map_of_mem queued)

theorem frames_congr {i : Nat} (queue : w.queues i = v.queues i)
    (contents : ∀ frame ∈ v.queues i, w.contents frame.buf = v.contents frame.buf) :
    w.frames i = v.frames i := by
  unfold frames
  rw [queue]
  exact List.map_congr_left fun frame member => by rw [contents frame member]

@[simp] theorem frames_put (buf : Nat) : (v.put buf).frames = v.frames := rfl

theorem frames_give (i j buf len : Nat) :
    (v.give i ⟨buf, len, 0⟩).frames j =
      v.frames j ++ if j = i then [bytes (v.contents buf) len] else [] := by
  rcases eq_or_ne j i with rfl | other
  · simp [frames, give]
  · simp [frames, give, other]

theorem frames_offer (i j buf len : Nat) :
    (v.offer i buf len).frames j =
      v.frames j ++ if j = i ∧ ¬v.full i then [bytes (v.contents buf) len] else [] := by
  unfold offer
  by_cases full : v.full i
  · simp [full]
  · simp [full, frames_give]

theorem frames_putBack (cookies : List Nat) : (cookies.foldl put v).frames = v.frames := by
  induction cookies generalizing v with
  | nil => rfl
  | cons buf rest ih => rw [List.foldl_cons, ih, frames_put]

theorem duplicate_skips {buf len i : Nat} (skips : ¬(¬v.full i ∧ len ≤ bufSize ∧ v.pool ≠ [])) :
    v.duplicate buf len i = v := by
  unfold duplicate
  by_cases closed : v.full i ∨ len > bufSize
  · exact if_pos closed
  · rw [if_neg closed]
    have empty : v.pool = [] := by
      by_contra free
      exact skips ⟨fun full => closed (.inl full), Nat.le_of_not_lt fun large => closed (.inr large),
        free⟩
    rw [empty]

structure Duplicated (v w : RxView) (numClients buf len m : Nat) : Prop where
  pool : len ≤ bufSize → w.pool.length = v.pool.length - v.takers m
  source : w.contents buf = v.contents buf
  later : ∀ i, m < i ∨ i = 0 → w.queues i = v.queues i
  frames : ∀ i < numClients, w.frames i =
    v.frames i ++ if 0 < i ∧ i ≤ m ∧ v.Copies len i then [bytes (v.contents buf) len] else []

theorem takers_succ (m : Nat) :
    v.takers (m + 1) = v.takers m + if v.hasRoom (m + 1) then 1 else 0 := by
  simp [takers, List.range'_1_concat, List.countP_append, Nat.add_comm 1 m]

theorem duplicate_copies {buf len i : Nat} (apart : (buf ::ₘ v.places numClients).Nodup)
    (room : ¬v.full i) (fits : len ≤ bufSize) (free : v.pool ≠ []) :
    (v.duplicate buf len i).pool.length = v.pool.length - 1 ∧
    (v.duplicate buf len i).contents buf = v.contents buf ∧
    (∀ j, j ≠ i → (v.duplicate buf len i).queues j = v.queues j) ∧
    ∀ j < numClients, (v.duplicate buf len i).frames j =
      v.frames j ++ if j = i then [bytes (v.contents buf) len] else [] := by
  obtain ⟨top, rest, pool⟩ := List.exists_cons_of_ne_nil free
  have open_ : ¬(v.full i ∨ len > bufSize) := by simp [room, fits]
  have taken : v.duplicate buf len i =
      (({ v with pool := rest } : RxView).copy top buf len).give i ⟨top, len, 0⟩ := by
    unfold duplicate
    rw [if_neg open_, pool]
  obtain ⟨outside, unique⟩ := Multiset.nodup_cons.mp apart
  have member : top ∈ v.pool := by simp [pool]
  have different : buf ≠ top := by
    rintro rfl
    exact outside (Multiset.mem_add.mpr (.inl (Multiset.mem_coe.mpr member)))
  -- The copied-to buffer comes from the pool, so no client has it queued.
  have unqueued : ∀ j < numClients, ∀ frame ∈ v.queues j, frame.buf ≠ top := by
    rintro j client frame queued rfl
    have split := (Multiset.nodup_add.mp unique).2.2
    refine Multiset.disjoint_left.mp split (Multiset.mem_coe.mpr member) ?_
    exact Multiset.mem_sum.mpr ⟨j, Finset.mem_range.mpr client,
      Multiset.mem_coe.mpr (List.mem_map_of_mem queued)⟩
  rw [taken]
  refine ⟨by simp [give, copy, pool], by simp [give, copy, different], fun j other => ?_, ?_⟩
  · simp [give, copy, other]
  · intro j client
    have copied : (({ v with pool := rest } : RxView).copy top buf len).frames j = v.frames j :=
      frames_congr rfl fun frame queued =>
        Function.update_of_ne (unqueued j client frame queued) _ _
    rw [frames_give, copied]
    simp [copy, bytes_memcpy]

theorem Duplicated.next {buf len m : Nat} (loop : Duplicated v w numClients buf len m)
    (rooms : ∀ i, v.full i ↔ ¬v.hasRoom i) (apart : (buf ::ₘ w.places numClients).Nodup) :
    Duplicated v (w.duplicate buf len (m + 1)) numClients buf len (m + 1) := by
  have queue := loop.later (m + 1) (.inl (Nat.lt_succ_self m))
  have room : ¬w.full (m + 1) ↔ v.hasRoom (m + 1) := by
    rw [full, queue]
    exact not_iff_comm.mp (rooms (m + 1)).symm
  have earlier : ∀ i, (0 < i ∧ i ≤ m + 1 ∧ v.Copies len i) ↔
      (0 < i ∧ i ≤ m ∧ v.Copies len i) ∨ i = m + 1 ∧ v.Copies len (m + 1) := by
    intro i
    rcases eq_or_ne i (m + 1) with rfl | other
    · simp
    · simp only [other, false_and, or_false]
      exact and_congr_right fun _ => and_congr_left fun _ => by omega
  by_cases copies : ¬w.full (m + 1) ∧ len ≤ bufSize ∧ w.pool ≠ []
  · obtain ⟨open_, fits, free⟩ := copies
    obtain ⟨pool, source, others, frames⟩ := duplicate_copies apart open_ fits free
    have level := loop.pool fits
    have positive := List.length_pos_iff.mpr free
    have accepted : v.Copies len (m + 1) := by
      refine ⟨room.mp open_, fits, ?_⟩
      rw [Nat.add_sub_cancel]
      omega
    refine ⟨fun _ => ?_, source.trans loop.source, fun i after => ?_, fun i client => ?_⟩
    · rw [pool, level, takers_succ, if_pos (room.mp open_), Nat.sub_sub]
    · rw [others i (by omega), loop.later i (by omega)]
    · rw [frames i client, loop.frames i client, loop.source]
      rcases eq_or_ne i (m + 1) with rfl | other
      · simp [accepted]
      · simp [earlier, other]
  · have rejected : ¬v.Copies len (m + 1) := by
      rintro ⟨open_, fits, free⟩
      rw [Nat.add_sub_cancel] at free
      have level := loop.pool fits
      refine copies ⟨room.mpr open_, fits, List.length_pos_iff.mp ?_⟩
      omega
    rw [duplicate_skips copies]
    refine ⟨fun fits => ?_, loop.source, fun i after => loop.later i (by omega), fun i client => ?_⟩
    · have level := loop.pool fits
      rw [takers_succ]
      by_cases open_ : v.hasRoom (m + 1)
      · have empty : w.pool = [] := by
          by_contra free
          exact copies ⟨room.mpr open_, fits, free⟩
        rw [empty] at level ⊢
        simp only [List.length_nil, if_pos open_] at level ⊢
        omega
      · simpa [open_] using level
    · rw [loop.frames i client]
      simp [earlier, rejected]

theorem duplicates_duplicated (rooms : ∀ i, v.full i ↔ ¬v.hasRoom i) {buf m : Nat} (len : Nat)
    (clients : m < numClients) (apart : (buf ::ₘ v.places numClients).Nodup) :
    Duplicated v ((List.range' 1 m).foldl (duplicate buf len) v) numClients buf len m := by
  -- on the clients that were looked at, in the order of the loop
  induction m with
  | zero =>
    refine ⟨fun _ => by simp [takers], rfl, fun _ _ => rfl, fun i _ => ?_⟩
    have never : ¬(0 < i ∧ i ≤ 0 ∧ v.Copies len i) := fun inside => by omega
    simp only [List.range'_zero, List.foldl_nil, if_neg never, List.append_nil]
  | succ m ih =>
    have loop := ih (by omega)
    rw [List.range'_1_concat, List.foldl_append, Nat.add_comm 1 m]
    refine loop.next rooms ?_
    rw [places_duplicates]
    · exact apart
    · intro i member
      have := (List.mem_range'_1.mp member).2
      omega

end RxView

/-- A completion queues the frame for the clients it is accepted for and for no other. -/
theorem frames_completed {d : Driver} (wf : d.Wf) (present : 0 < d.numClients)
    {bufs : List (Nat × Nat)}
    (apart : ∀ buf len, bufs = [(buf, len)] → (buf ::ₘ d.view.places d.numClients).Nodup)
    {i : Nat} (client : i < d.numClients) :
    (d.completed bufs).frames i =
      d.view.frames i ++ if d.Accepts bufs i then d.frameBytes bufs else [] := by
  match bufs with
  | [] => simp [Driver.completed, Driver.Accepts]
  | _ :: _ :: _ => simp [Driver.completed, Driver.Accepts, RxView.frames_putBack]
  | [(buf, len)] =>
    have source : d.view.contents buf = (d.rxBufs buf).buf := rfl
    simp only [Driver.completed, Driver.Accepts, Driver.frameBytes, List.map_cons, List.map_nil]
    have routed := route_routed d (d.rxBufs buf).buf len
    generalize d.route (d.rxBufs buf).buf len = route at routed ⊢
    cases routed with
    | @unicast first addressed =>
      have unshared : ¬d.Shared (d.rxBufs buf).buf len := fun shared =>
        shared.1 first addressed.2.1 addressed
      have only : d.Addressed (d.rxBufs buf).buf len i ↔ i = first :=
        ⟨fun also => also.unique addressed, fun same => same ▸ addressed⟩
      rw [RxView.complete, RxView.frames_offer, source]
      congr 2
      rw [full_iff wf, not_not]
      simp only [client, only, unshared, false_and, or_false, true_and, eq_iff_iff]
      rw [and_comm]
      exact and_congr_left fun same => by rw [same]
    | everyone shared =>
      have unaddressed := shared.1 i client
      have loop := RxView.duplicates_duplicated (full_iff wf) (m := d.numClients - 1) len (by omega)
        (apart buf len rfl)
      rw [RxView.complete, RxView.frames_offer, loop.frames i client, loop.source, source,
        List.append_assoc]
      congr 1
      rcases Nat.eq_zero_or_pos i with rfl | other
      · have room : ¬((List.range' 1 (d.numClients - 1)).foldl (RxView.duplicate buf len)
            d.view).full 0 ↔ d.view.hasRoom 0 := by
          rw [RxView.full, loop.later 0 (.inr rfl)]
          exact not_iff_comm.mp (full_iff wf 0).symm
        simp [unaddressed, shared, room, client]
      · have within : i ≤ d.numClients - 1 := by omega
        simp [unaddressed, shared, client, other, other.ne', within, RxView.Copies]
    | nobody unaddressed unshared =>
      simp [RxView.complete, unaddressed i client, unshared]

/-! ## Runs -/

structure Delivered (config : Config) (s : System × Deliveries) : Prop where
  conserved : s.1.Conserved config
  frames : ∀ i < s.1.driver.numClients,
    s.2.accepted i = s.2.obtained i ++ s.1.driver.view.frames i

theorem System.Conserved.apart {config : Config} {s : System} (conserved : s.Conserved config)
    {buf : Nat} (held : buf ∈ s.device) :
    (buf ::ₘ s.driver.view.places s.driver.numClients).Nodup := by
  have unique : (s.driver.view.places s.driver.numClients + s.device).Nodup := by
    rw [conserved.places]
    exact Multiset.nodup_range _
  obtain ⟨places, _, disjoint⟩ := Multiset.nodup_add.mp unique
  refine Multiset.nodup_cons.mpr ⟨fun elsewhere => ?_, places⟩
  exact Multiset.disjoint_left.mp disjoint elsewhere (Multiset.mem_coe.mpr held)

theorem System.Conserved.caller {config : Config} {s : System} (conserved : s.Conserved config)
    {id i j : Nat} (found : ethGetClient s.driver id = some j) (client : i < s.driver.numClients) :
    (s.driver.clients i).clientId = id ↔ i = j := by
  obtain ⟨served, own⟩ := ethGetClient_lt found
  constructor
  · intro same
    rw [conserved.numClients] at client served
    have badges := (conserved.ids i).symm.trans (same.trans (own.symm.trans (conserved.ids j)))
    simp only [List.getD_eq_getElem?_getD, List.getElem?_eq_getElem client,
      List.getElem?_eq_getElem served, Option.getD_some] at badges
    exact (config.distinct.getElem_inj_iff).mp badges
  · rintro rfl
    exact own

theorem rx_answer {config : Config} {s : System} (conserved : s.Conserved config)
    (ready : s.driver.doneInit = true) {id i : Nat} (caller : ethGetClient s.driver id = some i) :
    ∃ s', s.step config (.rx id) = some (s', answer (s.driver.view.frames i)) ∧
      s'.driver.view.frames = Function.update s.driver.view.frames i
        (s.driver.view.frames i).tail := by
  have served := (ethGetClient_lt caller).1
  rcases clientRx_cases conserved.wf ready caller (conserved.room_of_queued served) with
    ⟨empty, d', call, becomes⟩ | ⟨frame, rest, d', queue, call, becomes, contents⟩
  · have none : s.driver.view.frames i = [] := by simp [RxView.frames, empty]
    refine ⟨{ s with driver := d' }, ?_, ?_⟩
    · simp [System.step, call, caller, none, answer]
    · rw [becomes.view, none, List.tail_nil, ← none, Function.update_eq_self]
  · have frames : s.driver.view.frames i =
        bytes (s.driver.view.contents frame.buf) frame.len ::
          rest.map fun frame => bytes (s.driver.view.contents frame.buf) frame.len := by
      simp [RxView.frames, queue]
    refine ⟨{ s with driver := d' }, ?_, ?_⟩
    · rw [frames]
      cases rest with
      | nil => simp [System.step, call, caller, contents, answer]
      | cons => simp [System.step, call, caller, contents, answer]
    · rw [becomes.view, frames]
      funext j
      rcases eq_or_ne j i with rfl | other
      · simp [RxView.frames, RxView.put]
      · simp [RxView.frames, RxView.put, other]

theorem Driver.Untouched.frames {d d' : Driver} (untouched : d.Untouched d') :
    d'.view.frames = d.view.frames := by rw [untouched.view]

namespace Delivered

variable {config : Config} {s s' : System × Deliveries} {event : Event} {result : Result}

theorem of_same (delivered : Delivered config s) (conserved : s'.1.Conserved config)
    (ledger : s'.2 = s.2)
    (frames : ∀ i < s.1.driver.numClients, s'.1.driver.view.frames i = s.1.driver.view.frames i) :
    Delivered config s' := by
  refine ⟨conserved, fun i client => ?_⟩
  rw [conserved.numClients, ← delivered.conserved.numClients] at client
  rw [ledger, frames i client, delivered.frames i client]

theorem step (delivered : Delivered config s) (allowed : s.1.allowed event)
    (step : (recording config).step s event = some (s', result)) :
    Delivered config s' := by
  obtain ⟨system, ledger⟩ := s
  obtain ⟨system', ledger'⟩ := s'
  obtain ⟨stepped, noted⟩ := Machine.record_step step
  have after := delivered.conserved.step allowed stepped
  have conserved := delivered.conserved
  cases event with
  | initDone =>
    obtain ⟨driver, done, same⟩ := Option.bind_eq_some_iff.mp stepped
    cases same
    obtain ⟨_, _, view, _, _⟩ := serverInitMacs_cases conserved.wf done
    exact delivered.of_same after noted fun i _ => by rw [view]
  | allocate size =>
    rcases ethAllocateRxBuf_cases conserved.wf size with
      ⟨_, allocated⟩ | ⟨top, rest, d', phys, _, _, address, allocated, popped⟩
    · simp only [machine, System.step, allocated] at stepped
      cases stepped
      exact delivered.of_same after noted fun _ _ => rfl
    · simp only [machine, System.step, allocated] at stepped
      cases stepped
      exact delivered.of_same after noted fun i _ => by rw [popped.view]; rfl
  | receive buf contents =>
    cases stepped
    -- The device holds the buffer, so no queued frame is in it.
    obtain ⟨outside, _⟩ := Multiset.nodup_cons.mp (conserved.apart allowed)
    refine delivered.of_same after noted fun i client => RxView.frames_congr rfl fun frame queued => ?_
    have different : frame.buf ≠ buf := by
      rintro rfl
      exact outside (RxView.queued_mem_places client queued)
    simp [Driver.view, Function.update_of_ne different]
  | rxComplete bufs =>
    obtain ⟨d', completed, becomes⟩ := conserved.rxComplete_becomes allowed
    simp only [machine, System.step, completed] at stepped
    cases stepped
    refine ⟨after, fun i client => ?_⟩
    have client' : i < system.driver.numClients := becomes.setup.numClients ▸ client
    have apart : ∀ buf len, bufs = [(buf, len)] →
        (buf ::ₘ system.driver.view.places system.driver.numClients).Nodup := by
      rintro buf len rfl
      exact conserved.apart (allowed.2 (by simp))
    rw [noted, becomes.view, frames_completed conserved.wf conserved.present apart client']
    simp only [Deliveries.note]
    rw [delivered.frames i client', List.append_assoc]
  | txComplete frame =>
    obtain ⟨driver, completed, same⟩ := Option.bind_eq_some_iff.mp stepped
    cases same
    exact delivered.of_same after noted fun i _ =>
      congrFun (ethTxComplete_untouched conserved.wf completed).frames i
  | poke client contents =>
    cases stepped
    exact delivered.of_same after noted fun i _ => congrFun (conserved.wf.setClient client
      { system.driver.clients client with dataport := contents } rfl rfl rfl rfl rfl).frames i
  | rx id =>
    obtain ⟨j, client, same⟩ := allowed
    obtain ⟨j, caller⟩ := Option.isSome_iff_exists.mp (ethGetClient_isSome client same)
    cases ready : system.driver.doneInit with
    | false =>
      simp [machine, System.step, clientRx, ready, caller] at stepped
      obtain ⟨rfl, rfl⟩ := stepped
      refine delivered.of_same after (noted.trans ?_) fun _ _ => rfl
      simp [Deliveries.note]
    | true =>
      obtain ⟨after', answered, frames⟩ := rx_answer conserved ready caller
      obtain ⟨rfl, rfl⟩ : system' = after' ∧ result = _ := by
        simpa using stepped.symm.trans answered
      refine ⟨after, fun i client => ?_⟩
      have client' : i < system.driver.numClients := by
        rwa [conserved.numClients, ← after.numClients]
      have before := delivered.frames i client'
      cases noted.trans (note_answer system id _ ledger)
      simp only [frames, conserved.caller caller client']
      rcases eq_or_ne i j with rfl | other
      · rw [if_pos rfl, Function.update_self, before, List.append_assoc]
        congr 1
        cases system.driver.view.frames i <;> rfl
      · rw [if_neg other, Function.update_of_ne other, before, List.append_nil]
  | tx id len completed outcome =>
    obtain ⟨⟨driver, ret, handed⟩, sent, same⟩ := Option.bind_eq_some_iff.mp stepped
    cases same
    exact delivered.of_same after noted fun i _ =>
      congrFun (clientTx_untouched conserved.wf sent).frames i

end Delivered

/-- Each client has obtained a prefix of what was accepted for it and its ring holds the rest,
oldest first. A call by an initialised client hands over the head of that rest and tells whether
more remains. -/
theorem rx_delivers_in_order {config : Config} {trace : List (Event × Result)} {s : System}
    {ledger : Deliveries}
    (run : (recording config).Run (System.init config, .none) trace (s, ledger))
    (i : Nat) (client : i < s.driver.numClients) :
    ledger.obtained i <+: ledger.accepted i ∧
    s.driver.view.frames i = (ledger.accepted i).drop (ledger.obtained i).length ∧
    (s.driver.doneInit = true →
      ∃ s', s.step config (.rx (s.driver.clients i).clientId) =
        some (s', answer (s.driver.view.frames i))) := by
  have delivered : Delivered config (s, ledger) := by
    refine run.invariant ⟨.init config, fun i _ => ?_⟩ fun _ _ _ _ => Delivered.step
    have empty : (System.init config).driver.view.queues i = [] :=
      (pending_eq_nil_iff (System.Conserved.init config).wf i).mpr rfl
    simp [Deliveries.none, RxView.frames, empty]
  have queue := delivered.frames i client
  dsimp only at queue
  refine ⟨⟨_, queue.symm⟩, by rw [queue, List.drop_left], fun ready => ?_⟩
  obtain ⟨j, caller⟩ := Option.isSome_iff_exists.mp (ethGetClient_isSome client rfl)
  cases (delivered.conserved.caller caller client).mp rfl
  obtain ⟨s', answered, _⟩ := rx_answer delivered.conserved ready caller
  exact ⟨s', answered⟩

theorem rx_delivers_in_order_broadcast : ∃ trace s ledger,
    (recording twoClients).Run (System.init twoClients, .none) trace (s, ledger) ∧
    ledger.obtained 1 <+: ledger.accepted 1 ∧ (ledger.obtained 1).length = 1 := by
  have first : (recording twoClients).Run (System.init twoClients, .none) [] _ := .start
  have ready := first.on .initDone rfl rfl
  have given := ready.on (.allocate 2048) trivial rfl
  have written := given.on (.receive 255 fun _ => 0xff) (List.mem_singleton_self 255) rfl
  have queued := written.on (.rxComplete [(255, 64)])
    ⟨List.nodup_singleton 255, List.Subset.refl [255]⟩ rfl
  have taken := queued.on (.rx 2) ⟨1, by decide, rfl⟩ rfl
  exact ⟨_, _, _, taken, (rx_delivers_in_order taken 1 (by decide)).1, rfl⟩

end GlobalComponents.Ethdriver
