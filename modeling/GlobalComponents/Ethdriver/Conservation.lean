import GlobalComponents.Ethdriver.Receive
import Mathlib.Data.Multiset.Range

/-! Every receive buffer is at one place: free in the pool, held by the device, or queued for one
client. -/

set_option autoImplicit false

namespace GlobalComponents.Ethdriver

open Library Finset

namespace RxView

variable {v : RxView} {numClients : Nat}

def places (v : RxView) (numClients : Nat) : Multiset Nat :=
  v.pool + ∑ i ∈ range numClients, ((v.queues i).map (·.buf) : Multiset Nat)

theorem sum_queues_update (queues : Nat → List RxFrame) {i : Nat} (client : i < numClients)
    (queue : List RxFrame) :
    ∑ j ∈ range numClients, ((Function.update queues i queue j).map (·.buf) : Multiset Nat) +
        ((queues i).map (·.buf) : Multiset Nat) =
      ∑ j ∈ range numClients, ((queues j).map (·.buf) : Multiset Nat) +
        (queue.map (·.buf) : Multiset Nat) := by
  have member : i ∈ range numClients := mem_range.mpr client
  rw [← add_sum_erase _ _ member, ← add_sum_erase _ _ member]
  have others : ∀ j ∈ (range numClients).erase i,
      ((Function.update queues i queue j).map (·.buf) : Multiset Nat) =
        ((queues j).map (·.buf) : Multiset Nat) := by
    intro j other
    rw [Function.update_of_ne (ne_of_mem_erase other)]
  rw [sum_congr rfl others, Function.update_self]
  ac_rfl

@[simp] theorem places_put (buf : Nat) :
    (v.put buf).places numClients = buf ::ₘ v.places numClients := by
  simp only [places, put, ← Multiset.cons_coe, Multiset.cons_add]

theorem places_give {i : Nat} (client : i < numClients) (frame : RxFrame) :
    (v.give i frame).places numClients = frame.buf ::ₘ v.places numClients := by
  have moved := sum_queues_update v.queues client (v.queues i ++ [frame])
  have longer : ((v.queues i ++ [frame]).map (·.buf) : Multiset Nat) =
      frame.buf ::ₘ ((v.queues i).map (·.buf) : Multiset Nat) := by
    simp
  rw [longer, Multiset.add_cons, ← Multiset.cons_add] at moved
  simp only [places, give, add_right_cancel moved, Multiset.add_cons]

theorem places_offer {i : Nat} (client : i < numClients) (buf len : Nat) :
    (v.offer i buf len).places numClients = buf ::ₘ v.places numClients := by
  unfold offer
  split
  · exact places_put buf
  · exact places_give client _

theorem places_duplicate {i : Nat} (client : i < numClients) (buf len : Nat) :
    (v.duplicate buf len i).places numClients = v.places numClients := by
  unfold duplicate
  split
  · rfl
  · split
    · rfl
    · next top rest pool =>
      rw [places_give client]
      simp only [places, copy, pool, ← Multiset.cons_coe, Multiset.cons_add]

theorem places_duplicates (v : RxView) (buf len : Nat) {others : List Nat}
    (clients : ∀ i ∈ others, i < numClients) :
    (others.foldl (duplicate buf len) v).places numClients = v.places numClients := by
  -- each duplicate moves one buffer from the pool to a ring
  induction others generalizing v with
  | nil => rfl
  | cons i rest ih =>
    have client := clients i (List.mem_cons_self ..)
    have tail : ∀ j ∈ rest, j < numClients := fun j member =>
      clients j (List.mem_cons_of_mem i member)
    exact (ih (v.duplicate buf len i) tail).trans (places_duplicate client buf len)

theorem others_are_clients {i : Nat} (member : i ∈ List.range' 1 (numClients - 1)) :
    0 < i ∧ i < numClients := by
  obtain ⟨lower, upper⟩ := List.mem_range'_1.mp member
  omega

theorem places_complete (present : 0 < numClients) (buf len : Nat) {route : Route}
    (unicast : ∀ i, route = .unicast i → i < numClients) :
    (v.complete numClients buf len route).places numClients = buf ::ₘ v.places numClients := by
  cases route with
  | unicast i => exact places_offer (unicast i rfl) buf len
  | everyone =>
    simp only [complete]
    rw [places_offer present,
      places_duplicates v buf len fun i member => (others_are_clients member).2]
  | nobody => exact places_put buf

theorem places_putBack (cookies : List Nat) :
    (cookies.foldl put v).places numClients = (cookies : Multiset Nat) + v.places numClients := by
  induction cookies generalizing v with
  | nil => simp
  | cons buf rest ih =>
    rw [List.foldl_cons, ih, places_put, Multiset.add_cons, ← Multiset.cons_coe, Multiset.cons_add]

theorem places_deliver {i : Nat} (client : i < numClients) {frame : RxFrame}
    {rest : List RxFrame} (queue : v.queues i = frame :: rest) :
    (({ v with queues := Function.update v.queues i rest } : RxView).put frame.buf).places
      numClients = v.places numClients := by
  have moved := sum_queues_update v.queues client rest
  rw [queue, List.map_cons, ← Multiset.cons_coe, Multiset.add_cons, ← Multiset.cons_add] at moved
  rw [places_put]
  simp only [places, ← Multiset.add_cons, add_right_cancel moved]

theorem pool_le_places (v : RxView) (numClients : Nat) :
    (v.pool : Multiset Nat) ≤ v.places numClients :=
  Multiset.le_add_right _ _

end RxView

theorem route_unicast_lt {d : Driver} {buf : Memory} {len i : Nat}
    (route : d.route buf len = .unicast i) : i < d.numClients := by
  unfold Driver.route at route
  cases detected : detectClient d buf len with
  | none =>
    simp only [detected] at route
    split at route <;> cases route
  | some client =>
    simp only [detected, Route.unicast.injEq] at route
    subst client
    unfold detectClient at detected
    split at detected
    · cases detected
    · exact List.mem_range.mp (List.mem_of_find?_eq_some detected)

theorem places_completed {d : Driver} (present : 0 < d.numClients) (bufs : List (Nat × Nat)) :
    (d.completed bufs).places d.numClients =
      (bufs.map Prod.fst : Multiset Nat) + d.view.places d.numClients := by
  match bufs with
  | [] => exact RxView.places_putBack _
  | [(buf, len)] => exact RxView.places_complete present buf len fun i => route_unicast_lt
  | _ :: _ :: _ => exact RxView.places_putBack _

theorem ethGetClient_lt {d : Driver} {id i : Nat} (found : ethGetClient d id = some i) :
    i < d.numClients ∧ (d.clients i).clientId = id := by
  unfold ethGetClient at found
  generalize d.numClients = n at found ⊢
  induction n with
  | zero => simp at found
  | succ n ih =>
    rw [List.range_succ, List.foldl_append] at found
    simp only [List.foldl_cons, List.foldl_nil] at found
    split at found
    · next same =>
      cases found
      exact ⟨Nat.lt_succ_self _, same⟩
    · obtain ⟨bound, same⟩ := ih found
      exact ⟨Nat.lt_succ_of_lt bound, same⟩

theorem ethGetClient_isSome {d : Driver} {id i : Nat} (client : i < d.numClients)
    (same : (d.clients i).clientId = id) : (ethGetClient d id).isSome := by
  unfold ethGetClient
  generalize d.numClients = n at client ⊢
  induction n with
  | zero => omega
  | succ n ih =>
    rw [List.range_succ, List.foldl_append]
    simp only [List.foldl_cons, List.foldl_nil]
    split
    · rfl
    · rcases Nat.lt_succ_iff_lt_or_eq.mp client with earlier | rfl
      · exact ih earlier
      · contradiction

/-! ## Operations outside the receive side -/

structure Driver.Untouched (d d' : Driver) : Prop where
  wf : d'.Wf
  setup : d.SameSetup d'
  view : d'.view = d.view

theorem Driver.Untouched.trans {d d' d'' : Driver} (first : d.Untouched d')
    (second : d'.Untouched d'') : d.Untouched d'' :=
  ⟨second.wf, first.setup.trans second.setup, second.view.trans first.view⟩

theorem Driver.Wf.setClient {d : Driver} (wf : d.Wf) (i : Nat) (client : Client)
    (mac : client.mac = (d.clients i).mac) (clientId : client.clientId = (d.clients i).clientId)
    (head : client.pendingRxHead = (d.clients i).pendingRxHead)
    (tail : client.pendingRxTail = (d.clients i).pendingRxTail)
    (ring : client.pendingRx = (d.clients i).pendingRx) : d.Untouched (d.setClient i client) := by
  have same : ∀ {α : Type} (field : Client → α), field client = field (d.clients i) →
      ∀ j, field ((d.setClient i client).clients j) = field (d.clients j) := by
    intro α field own j
    rcases eq_or_ne j i with rfl | other
    · simpa [setClient_clients] using own
    · simp [setClient_clients, Function.update_of_ne other]
  have heads := same (·.pendingRxHead) head
  have tails := same (·.pendingRxTail) tail
  have rings := same (·.pendingRx) ring
  refine ⟨⟨fun j => heads j ▸ wf.head j, fun j => tails j ▸ wf.tail j, wf.pinned⟩,
    ⟨rfl, same (·.mac) mac, same (·.clientId) clientId, rfl⟩, ?_⟩
  simp only [Driver.view, Client.pending, heads, tails, rings]
  rfl

theorem ethTxComplete_untouched {d d' : Driver} (wf : d.Wf) {cookie : TxPtr}
    (completed : ethTxComplete d cookie = some d') : d.Untouched d' := by
  simp only [ethTxComplete] at completed
  split at completed
  · cases completed
    exact wf.setClient _ _ rfl rfl rfl rfl rfl
  · cases completed

theorem ethTxCompletes_untouched {d d' : Driver} (wf : d.Wf) {cookies : List TxPtr}
    (completed : cookies.foldlM ethTxComplete d = some d') : d.Untouched d' := by
  induction cookies generalizing d with
  | nil =>
    cases completed
    exact ⟨wf, .refl _, rfl⟩
  | cons cookie rest ih =>
    rw [List.foldlM_cons] at completed
    obtain ⟨middle, one, others⟩ := Option.bind_eq_some_iff.mp completed
    have first := ethTxComplete_untouched wf one
    exact first.trans (ih first.wf others)

theorem fillTx_untouched {d : Driver} (wf : d.Wf) (txBuf : TxPtr) (client : Client) (len : Nat) :
    d.Untouched (d.fillTx txBuf client len).1 := wf.setClient _ _ rfl rfl rfl rfl rfl

theorem clientTx_untouched {d d' : Driver} (wf : d.Wf) {id : Nat} {len : Int}
    {completed : List TxPtr} {outcome : RawTx} {ret : TxReturn} {handed : Option Handed}
    (sent : clientTx d id len completed outcome = some (d', ret, handed)) : d.Untouched d' := by
  rcases clientTx_cases sent with
    ⟨_, rfl, _⟩ | ⟨i, size, filled, frame, called, _, _, fill, calls, _, rfl⟩
  · exact ⟨wf, .refl _, rfl⟩
  · have popped := wf.setClient i { d.clients i with numTx := (d.clients i).numTx - 1 }
      rfl rfl rfl rfl rfl
    have filling := fillTx_untouched popped.wf
      ((d.clients i).pendingTx ((d.clients i).numTx - 1)) (d.clients i) size
    rw [fill] at filling
    have completing := ethTxCompletes_untouched filling.wf calls
    have all := (popped.trans filling).trans completing
    split
    · exact all.trans (all.wf.setClient i
        { called.clients i with numTx := (called.clients i).numTx + 1 } rfl rfl rfl rfl rfl)
    · exact all

theorem serverInitMacs_cases {config : Config} {d d' : Driver} (wf : d.Wf)
    (done : serverInitMacs config d = some d') :
    d'.Wf ∧ d'.numClients = d.numClients ∧ d'.view = d.view ∧
      (∀ i, (d'.clients i).clientId = (d.clients i).clientId) ∧
      ∀ i, (d.clients i).SameTx (d'.clients i) := by
  simp only [serverInitMacs] at done
  split at done
  · cases done
  · cases done
    exact ⟨⟨wf.head, wf.tail, wf.pinned⟩, rfl, rfl, fun _ => rfl, fun _ => ⟨rfl, rfl, rfl⟩⟩

/-! ## The system -/

def System.queued (s : System) : List Nat :=
  (List.range s.driver.numClients).flatMap fun i => (s.driver.clients i).pending.map (·.buf)

structure System.Conserved (config : Config) (s : System) : Prop where
  wf : s.driver.Wf
  numClients : s.driver.numClients = config.badges.length
  ids : ∀ i, (s.driver.clients i).clientId = config.badges.getD i 0
  places : s.driver.view.places s.driver.numClients + s.device = Multiset.range rxBufCount

structure System.KeepsTx (s s' : System) : Prop where
  numClients : s'.driver.numClients = s.driver.numClients
  inFlight : s'.inFlight = s.inFlight
  tx : ∀ i, (s.driver.clients i).SameTx (s'.driver.clients i)

namespace System.Conserved

variable {config : Config} {s : System}

theorem init (config : Config) : (System.init config).Conserved config := by
  have wf : (System.init config).driver.Wf := by
    constructor <;> simp [System.init, serverInit, clientRxBufs, config.pinned]
  refine ⟨wf, rfl, fun _ => rfl, ?_⟩
  have unqueued : ∀ i, (System.init config).driver.view.queues i = [] := fun i =>
    (pending_eq_nil_iff wf i).mpr rfl
  have full : (System.init config).driver.view.pool = (List.range rxBufCount).reverse := by
    simp [System.init, serverInit, Driver.view, Driver.pool]
  simp only [RxView.places, unqueued, full, List.map_nil, Multiset.coe_nil, sum_const_zero]
  simp [System.init, Multiset.range]

theorem present (conserved : s.Conserved config) : 0 < s.driver.numClients := by
  rw [conserved.numClients]
  exact List.length_pos_iff.mpr config.connected

theorem perm (conserved : s.Conserved config) :
    (s.driver.pool ++ s.device ++ s.queued).Perm (List.range rxBufCount) := by
  rw [← Multiset.coe_eq_coe, ← Multiset.range, ← conserved.places]
  have queued : (s.queued : Multiset Nat) = ∑ i ∈ range s.driver.numClients,
      ((s.driver.view.queues i).map (·.buf) : Multiset Nat) := by
    unfold System.queued
    generalize s.driver.numClients = n
    induction n with
    | zero => rfl
    | succ n ih =>
      rw [List.range_succ, List.flatMap_append, ← Multiset.coe_add, ih, sum_range_succ]
      simp [Driver.view]
  rw [← Multiset.coe_add, ← Multiset.coe_add, queued, RxView.places]
  exact add_right_comm _ _ _

theorem room (conserved : s.Conserved config) {elsewhere : List Nat}
    (held : (elsewhere : Multiset Nat) ≤ s.device) :
    s.driver.pool.length + elsewhere.length ≤ rxBufCount := by
  have within := add_le_add (s.driver.view.pool_le_places s.driver.numClients) held
  rw [conserved.places] at within
  simpa [Driver.view] using Multiset.card_le_card within

theorem room_of_queued (conserved : s.Conserved config) {i : Nat} (client : i < s.driver.numClients)
    (some : s.driver.view.queues i ≠ []) : s.driver.pool.length < rxBufCount := by
  obtain ⟨frame, member⟩ := List.exists_mem_of_ne_nil _ some
  have queued : frame.buf ∈ s.queued :=
    List.mem_flatMap.mpr ⟨i, List.mem_range.mpr client, List.mem_map_of_mem member⟩
  have total := conserved.perm.length_eq
  simp only [List.length_append, List.length_range] at total
  have := List.length_pos_of_mem queued
  omega

theorem move (conserved : s.Conserved config) {d' : Driver} {view : RxView} {device : List Nat}
    (becomes : s.driver.Becomes d' view)
    (places : view.places s.driver.numClients + device =
      s.driver.view.places s.driver.numClients + s.device) :
    System.Conserved config ⟨d', device, s.inFlight⟩ ∧ s.KeepsTx ⟨d', device, s.inFlight⟩ := by
  refine ⟨⟨becomes.wf, becomes.setup.numClients.trans conserved.numClients,
    fun i => (becomes.setup.clientId i).trans (conserved.ids i), ?_⟩,
    becomes.setup.numClients, rfl, becomes.tx⟩
  simp only [becomes.view, becomes.setup.numClients, places, conserved.places]

theorem allocate (conserved : s.Conserved config) (size : Nat) :
    ∃ s' cookie, s.step config (.allocate size) = some (s', .allocated cookie) ∧
      s'.Conserved config ∧ s.KeepsTx s' := by
  rcases ethAllocateRxBuf_cases conserved.wf size with
    ⟨_, allocated⟩ | ⟨top, rest, d', phys, _, pool, address, allocated, popped⟩
  · exact ⟨s, none, by simp [System.step, allocated], conserved, rfl, rfl, fun _ => .refl _⟩
  · refine ⟨_, some top, by simp only [System.step, allocated, if_pos address]; rfl, ?_⟩
    refine conserved.move popped ?_
    have same : s.driver.view.pool = top :: rest := pool
    simp only [RxView.places, same, Option.toList_some, List.cons_append, List.nil_append,
      ← Multiset.cons_coe, Multiset.add_cons, Multiset.cons_add]

theorem rxComplete_becomes (conserved : s.Conserved config) {bufs : List (Nat × Nat)}
    (allowed : s.allowed (.rxComplete bufs)) :
    ∃ d', ethRxComplete s.driver bufs = some d' ∧
      s.driver.Becomes d' (s.driver.completed bufs) := by
  have held : (bufs.map Prod.fst : Multiset Nat) ≤ s.device := allowed.1.subperm allowed.2
  exact ethRxComplete_becomes conserved.wf bufs (by simpa using conserved.room held)

/-- The completed buffers leave the device; the driver puts each of them somewhere. -/
theorem rxComplete (conserved : s.Conserved config) {bufs : List (Nat × Nat)}
    (allowed : s.allowed (.rxComplete bufs)) :
    ∃ s', s.step config (.rxComplete bufs) = some (s', .done) ∧ s'.Conserved config ∧
      s.KeepsTx s' := by
  have held : (bufs.map Prod.fst : Multiset Nat) ≤ s.device := allowed.1.subperm allowed.2
  have taken : (s.device.diff (bufs.map Prod.fst) : Multiset Nat) + (bufs.map Prod.fst : List Nat) =
      s.device := by
    rw [← Multiset.coe_sub]
    exact tsub_add_cancel_of_le held
  obtain ⟨d', completed, becomes⟩ := conserved.rxComplete_becomes allowed
  refine ⟨_, by simp only [System.step, completed]; rfl, conserved.move becomes ?_⟩
  rw [places_completed conserved.present, add_comm (bufs.map Prod.fst : Multiset Nat), add_assoc,
    add_comm (bufs.map Prod.fst : Multiset Nat), taken]

theorem rx (conserved : s.Conserved config) {id : Nat} (allowed : s.allowed (.rx id)) :
    ∃ s' ret frame, s.step config (.rx id) = some (s', .rx ret frame) ∧
      s'.Conserved config ∧ s.KeepsTx s' := by
  obtain ⟨j, client, same⟩ := allowed
  obtain ⟨i, caller⟩ := Option.isSome_iff_exists.mp (ethGetClient_isSome client same)
  have served := (ethGetClient_lt caller).1
  cases ready : s.driver.doneInit with
  | false =>
    refine ⟨s, -1, none, ?_, conserved, rfl, rfl, fun _ => .refl _⟩
    simp [System.step, clientRx, ready, caller]
  | true =>
    rcases clientRx_cases conserved.wf ready caller (conserved.room_of_queued served) with
      ⟨_, d', call, becomes⟩ | ⟨frame, rest, d', queue, call, becomes, _⟩
    · exact ⟨_, _, _, by simp only [System.step, call, caller]; rfl, conserved.move becomes rfl⟩
    · refine ⟨_, _, _, by simp only [System.step, call, caller]; rfl, conserved.move becomes ?_⟩
      rw [RxView.places_deliver served queue]

theorem untouched (conserved : s.Conserved config) {d' : Driver}
    (untouched : s.driver.Untouched d') (inFlight : List TxPtr) :
    System.Conserved config ⟨d', s.device, inFlight⟩ := by
  refine ⟨untouched.wf, untouched.setup.numClients.trans conserved.numClients,
    fun i => (untouched.setup.clientId i).trans (conserved.ids i), ?_⟩
  simp only [untouched.view, untouched.setup.numClients, conserved.places]

theorem step (conserved : s.Conserved config) {event : Event} {s' : System} {result : Result}
    (allowed : s.allowed event) (step : s.step config event = some (s', result)) :
    s'.Conserved config := by
  cases event with
  | initDone =>
    obtain ⟨driver, done, same⟩ := Option.bind_eq_some_iff.mp step
    cases same
    obtain ⟨wf, numClients, view, ids, _⟩ := serverInitMacs_cases conserved.wf done
    refine ⟨wf, numClients.trans conserved.numClients, fun i => (ids i).trans (conserved.ids i), ?_⟩
    simp only [view, numClients, conserved.places]
  | allocate size =>
    obtain ⟨_, _, allocated, after, _⟩ := conserved.allocate size
    cases allocated.symm.trans step
    exact after
  | receive buf contents =>
    cases step
    refine ⟨⟨conserved.wf.head, conserved.wf.tail, fun other => ?_⟩, conserved.numClients,
      conserved.ids, conserved.places⟩
    rcases eq_or_ne other buf with rfl | different
    · simpa using conserved.wf.pinned other
    · simpa [Function.update_of_ne different] using conserved.wf.pinned other
  | rxComplete bufs =>
    obtain ⟨_, completed, after, _⟩ := conserved.rxComplete allowed
    cases completed.symm.trans step
    exact after
  | txComplete frame =>
    obtain ⟨driver, completed, same⟩ := Option.bind_eq_some_iff.mp step
    cases same
    exact conserved.untouched (ethTxComplete_untouched conserved.wf completed) _
  | poke client contents =>
    cases step
    exact conserved.untouched (conserved.wf.setClient client
      { s.driver.clients client with dataport := contents } rfl rfl rfl rfl rfl) _
  | rx id =>
    obtain ⟨_, _, _, called, after, _⟩ := conserved.rx allowed
    cases called.symm.trans step
    exact after
  | tx id len completed outcome =>
    obtain ⟨⟨driver, ret, handed⟩, sent, same⟩ := Option.bind_eq_some_iff.mp step
    cases same
    exact conserved.untouched (clientTx_untouched conserved.wf sent) _

end System.Conserved

def Event.receives : Event → Prop
  | .allocate _ | .receive _ _ | .rxComplete _ | .poke _ _ | .rx _ => True
  | .initDone | .txComplete _ | .tx _ _ _ _ => False

theorem System.Conserved.keepsTx {config : Config} {s s' : System} {event : Event}
    {result : Result} (conserved : s.Conserved config) (receives : event.receives)
    (allowed : s.allowed event) (step : s.step config event = some (s', result)) :
    s.KeepsTx s' := by
  cases event with
  | allocate size =>
    obtain ⟨_, _, allocated, _, keeps⟩ := conserved.allocate size
    cases allocated.symm.trans step
    exact keeps
  | receive buf contents =>
    cases step
    exact ⟨rfl, rfl, fun _ => .refl _⟩
  | rxComplete bufs =>
    obtain ⟨_, completed, _, keeps⟩ := conserved.rxComplete allowed
    cases completed.symm.trans step
    exact keeps
  | poke client contents =>
    cases step
    refine ⟨rfl, rfl, fun i => ?_⟩
    rcases eq_or_ne i client with rfl | other
    · simpa [setClient_clients] using ⟨rfl, rfl, rfl⟩
    · simpa [setClient_clients, Function.update_of_ne other] using Client.SameTx.refl _
  | rx id =>
    obtain ⟨_, _, _, called, _, keeps⟩ := conserved.rx allowed
    cases called.symm.trans step
    exact keeps
  | initDone | txComplete | tx => exact receives.elim

theorem System.Conserved.sameSetup {config : Config} {s s' : System} {event : Event}
    {result : Result} (conserved : s.Conserved config) (later : event ≠ .initDone)
    (allowed : s.allowed event) (step : s.step config event = some (s', result)) :
    s.driver.SameSetup s'.driver := by
  cases event with
  | initDone => exact absurd rfl later
  | allocate size =>
    rcases ethAllocateRxBuf_cases conserved.wf size with
      ⟨_, allocated⟩ | ⟨_, _, _, _, _, _, _, allocated, popped⟩
    · simp only [System.step, allocated] at step
      cases step
      exact .refl _
    · simp only [System.step, allocated] at step
      cases step
      exact popped.setup
  | receive buf contents =>
    cases step
    exact ⟨rfl, fun _ => rfl, fun _ => rfl, rfl⟩
  | rxComplete bufs =>
    obtain ⟨d', completed, becomes⟩ := conserved.rxComplete_becomes allowed
    simp only [System.step, completed] at step
    cases step
    exact becomes.setup
  | txComplete frame =>
    obtain ⟨driver, completed, same⟩ := Option.bind_eq_some_iff.mp step
    cases same
    exact (ethTxComplete_untouched conserved.wf completed).setup
  | poke client contents =>
    cases step
    exact (conserved.wf.setClient client { s.driver.clients client with dataport := contents }
      rfl rfl rfl rfl rfl).setup
  | rx id =>
    obtain ⟨j, client, same⟩ := allowed
    obtain ⟨i, caller⟩ := Option.isSome_iff_exists.mp (ethGetClient_isSome client same)
    cases ready : s.driver.doneInit with
    | false =>
      simp only [System.step, clientRx, ready, caller] at step
      cases step
      exact .refl _
    | true =>
      -- the call finds a frame or none; either way the addresses stay
      rcases clientRx_cases conserved.wf ready caller
          (conserved.room_of_queued (ethGetClient_lt caller).1) with
        ⟨_, d', call, becomes⟩ | ⟨_, _, d', _, call, becomes, _⟩
      · simp only [System.step, call, caller] at step
        cases step
        exact becomes.setup
      · simp only [System.step, call, caller] at step
        cases step
        exact becomes.setup
  | tx id len completed outcome =>
    obtain ⟨⟨driver, ret, handed⟩, sent, same⟩ := Option.bind_eq_some_iff.mp step
    cases same
    exact (clientTx_untouched conserved.wf sent).setup

def Config.macOf (config : Config) (i : Nat) : Mac :=
  (config.clientMac (config.badges.getD i 0)).getD config.hwMac

def Driver.Addresses (config : Config) (d : Driver) : Prop :=
  d.doneInit = true → ∀ i, (d.clients i).mac = config.macOf i

theorem Driver.Addresses.sameSetup {config : Config} {d d' : Driver}
    (addresses : d.Addresses config) (setup : d.SameSetup d') : d'.Addresses config :=
  fun ready i => (setup.mac i).trans (addresses (setup.doneInit ▸ ready) i)

theorem initDone_addresses {config : Config} {s s' : System} {result : Result}
    (conserved : s.Conserved config) (step : s.step config .initDone = some (s', result)) :
    s'.driver.Addresses config := by
  obtain ⟨driver, done, same⟩ := Option.bind_eq_some_iff.mp step
  cases same
  unfold serverInitMacs at done
  dsimp only at done
  split at done
  · cases done
  · cases done
    intro _ i
    simp only [Config.macOf, conserved.ids i]

theorem System.Conserved.addresses {config : Config} {s s' : System} {event : Event}
    {result : Result} (conserved : s.Conserved config) (addresses : s.driver.Addresses config)
    (allowed : s.allowed event) (step : s.step config event = some (s', result)) :
    s'.driver.Addresses config := by
  by_cases initialises : event = .initDone
  · subst initialises
    exact initDone_addresses conserved step
  · exact addresses.sameSetup (conserved.sameSetup initialises allowed step)

theorem init_addresses (config : Config) : (System.init config).driver.Addresses config := nofun

theorem run_conserved {config : Config} {trace : List (Event × Result)} {s : System}
    (run : (machine config).Run (System.init config) trace s) : s.Conserved config :=
  run.invariant (.init config) fun _ _ _ _ conserved allowed step => conserved.step allowed step

/-- Each receive buffer is at exactly one place, every index is in range, and no receive event
faults, so no store leaves its array. -/
theorem rx_buffers_conserved {config : Config} {trace : List (Event × Result)} {s : System}
    (run : (machine config).Run (System.init config) trace s) :
    (s.driver.pool ++ s.device ++ s.queued).Perm (List.range rxBufCount) ∧
    s.driver.numRxBufs ≤ rxBufCount ∧
    (∀ i, (s.driver.clients i).pendingRxHead < clientRxBufs ∧
      (s.driver.clients i).pendingRxTail < clientRxBufs) ∧
    ∀ event, event.receives → s.allowed event → (s.step config event).isSome := by
  have conserved := run_conserved run
  refine ⟨conserved.perm, ?_, fun i => ⟨conserved.wf.head i, conserved.wf.tail i⟩, ?_⟩
  · have total := conserved.perm.length_eq
    simp only [List.length_append, List.length_range, pool_length] at total
    omega
  · intro event receives allowed
    cases event with
    | allocate size =>
      obtain ⟨_, _, allocated, _⟩ := conserved.allocate size
      exact Option.isSome_of_eq_some allocated
    | receive | poke => rfl
    | rxComplete bufs =>
      obtain ⟨_, completed, _⟩ := conserved.rxComplete allowed
      exact Option.isSome_of_eq_some completed
    | rx id =>
      obtain ⟨_, _, _, called, _⟩ := conserved.rx allowed
      exact Option.isSome_of_eq_some called
    | initDone | txComplete | tx => exact receives.elim

def twoClients : Config where
  badges := [1, 2]
  distinct := by decide
  connected := List.cons_ne_nil 1 [2]
  rxPhys := (· + 1)
  pinned := fun _ => Nat.succ_ne_zero _
  txPhys := fun frame => frame.slot + 1
  clientMac := fun id => if id = 2 then some fun _ => 4 else none
  hwMac := fun _ => 2

theorem rx_buffers_conserved_broadcast : ∃ trace s,
    (machine twoClients).Run (System.init twoClients) trace s ∧
    (s.driver.pool ++ s.device ++ s.queued).Perm (List.range rxBufCount) := by
  have first : (machine twoClients).Run (System.init twoClients) [] _ := .start
  have ready := first.on .initDone rfl rfl
  have given := ready.on (.allocate 2048) trivial rfl
  have written := given.on (.receive 255 fun _ => 0xff) (List.mem_singleton_self 255) rfl
  have queued := written.on (.rxComplete [(255, 64)])
    ⟨List.nodup_singleton 255, List.Subset.refl [255]⟩ rfl
  have taken := queued.on (.rx 2) ⟨1, by decide, rfl⟩ rfl
  exact ⟨_, _, taken, (rx_buffers_conserved taken).1⟩

end GlobalComponents.Ethdriver
