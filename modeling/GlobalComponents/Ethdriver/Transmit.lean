import GlobalComponents.Ethdriver.Conservation

/-! Transmit frames: a client's frames are free in its pool or in flight in the device.

`client_tx` takes the topmost free frame by lowering `num_tx`. When the device does not take the
frame, the slot is supposed to hold it still, which the completions made by `raw_tx` can undo.
-/

set_option autoImplicit false

namespace GlobalComponents.Ethdriver

open Library

def Client.free (client : Client) : List TxPtr := (List.range client.numTx).map client.pendingTx

def ofClient (c : Nat) (frames : List TxPtr) : List TxPtr := frames.filter (·.client = c)

def framesOf (c : Nat) : List TxPtr := (List.range clientTxBufs).map (⟨c, ·⟩)

/-- Each frame of client `c` is free once or in flight once. -/
structure System.TxPartition (s : System) (c : Nat) : Prop where
  count : (s.driver.clients c).numTx ≤ clientTxBufs
  frames : ((s.driver.clients c).free ++ ofClient c s.inFlight).Perm (framesOf c)

def System.TxConserved (s : System) : Prop := ∀ c < s.driver.numClients, s.TxPartition c

structure Driver.TxWf (d : Driver) : Prop where
  owner : ∀ c slot, ((d.clients c).txMem slot).client = c
  slots : ∀ c slot, ((d.clients c).pendingTx slot).client = c

theorem free_length (client : Client) : client.free.length = client.numTx := by
  simp [Client.free]

theorem framesOf_nodup (c : Nat) : (framesOf c).Nodup :=
  List.nodup_range.map fun _ _ same => (TxPtr.mk.inj same).2

namespace System.TxPartition

variable {s : System} {c : Nat}

theorem free_nodup (partition : s.TxPartition c) :
    ((s.driver.clients c).free ++ ofClient c s.inFlight).Nodup :=
  partition.frames.nodup_iff.mpr (framesOf_nodup c)

theorem slots_injective (partition : s.TxPartition c) {j k : Nat}
    (first : j < (s.driver.clients c).numTx) (second : k < (s.driver.clients c).numTx)
    (same : (s.driver.clients c).pendingTx j = (s.driver.clients c).pendingTx k) : j = k :=
  List.inj_on_of_nodup_map (List.Nodup.of_append_left partition.free_nodup)
    (List.mem_range.mpr first) (List.mem_range.mpr second) same

theorem total (partition : s.TxPartition c) :
    (s.driver.clients c).numTx + (ofClient c s.inFlight).length = clientTxBufs := by
  simpa [free_length, framesOf] using partition.frames.length_eq

theorem next_not_in_flight (partition : s.TxPartition c) (free : (s.driver.clients c).numTx ≠ 0) :
    (s.driver.clients c).pendingTx ((s.driver.clients c).numTx - 1) ∉ ofClient c s.inFlight := by
  have member : (s.driver.clients c).pendingTx ((s.driver.clients c).numTx - 1) ∈
      (s.driver.clients c).free :=
    List.mem_map_of_mem (List.mem_range.mpr (by omega))
  exact (List.nodup_append.mp partition.free_nodup).2.2 _ member _ |> fun apart inFlight =>
    apart inFlight rfl

end System.TxPartition

/-! ## Completions -/

theorem ethTxComplete_eq {d : Driver} (wf : d.TxWf) (cookie : TxPtr) :
    ethTxComplete d cookie =
      if (d.clients cookie.client).numTx < clientTxBufs then
        some (d.setClient cookie.client { d.clients cookie.client with
          pendingTx := Function.update (d.clients cookie.client).pendingTx
            (d.clients cookie.client).numTx cookie
          numTx := (d.clients cookie.client).numTx + 1 })
      else none := by
  simp only [ethTxComplete, wf.owner]

structure Driver.Returned (d d' : Driver) (done : List TxPtr) : Prop where
  wf : d'.TxWf
  numClients : d'.numClients = d.numClients
  free : ∀ c, (d'.clients c).free = (d.clients c).free ++ ofClient c done
  stale : ∀ c slot, (d'.clients c).numTx ≤ slot →
    (d'.clients c).pendingTx slot = (d.clients c).pendingTx slot

theorem Driver.Returned.numTx {d d' : Driver} {done : List TxPtr} (returned : d.Returned d' done)
    (c : Nat) : (d'.clients c).numTx = (d.clients c).numTx + (ofClient c done).length := by
  simpa [free_length] using congrArg List.length (returned.free c)

theorem ethTxComplete_returned {d d' : Driver} (wf : d.TxWf) {cookie : TxPtr}
    (completed : ethTxComplete d cookie = some d') : d.Returned d' [cookie] := by
  rw [ethTxComplete_eq wf] at completed
  split at completed
  · cases completed
    refine ⟨⟨fun c slot => ?_, fun c slot => ?_⟩, rfl, fun c => ?_, fun c slot above => ?_⟩
    · rcases eq_or_ne c cookie.client with rfl | other
      · simpa [setClient_clients] using wf.owner cookie.client slot
      · simpa [setClient_clients, Function.update_of_ne other] using wf.owner c slot
    · rcases eq_or_ne c cookie.client with rfl | other
      · rcases eq_or_ne slot (d.clients cookie.client).numTx with rfl | below
        · simp [setClient_clients]
        · simpa [setClient_clients, Function.update_of_ne below] using wf.slots cookie.client slot
      · simpa [setClient_clients, Function.update_of_ne other] using wf.slots c slot
    · rcases eq_or_ne c cookie.client with rfl | other
      · have below : ∀ k ∈ List.range (d.clients cookie.client).numTx,
            Function.update (d.clients cookie.client).pendingTx (d.clients cookie.client).numTx
              cookie k = (d.clients cookie.client).pendingTx k := fun k member =>
          Function.update_of_ne (Nat.ne_of_lt (List.mem_range.mp member)) _ _
        simp [setClient_clients, Client.free, ofClient, List.range_succ,
          List.map_congr_left below]
      · simp [setClient_clients, Function.update_of_ne other, ofClient, other.symm]
    · rcases eq_or_ne c cookie.client with rfl | other
      · simp only [setClient_clients, Function.update_self] at above ⊢
        exact Function.update_of_ne (by omega) _ _
      · simp [setClient_clients, Function.update_of_ne other]
  · cases completed

theorem ethTxCompletes_returned {d d' : Driver} (wf : d.TxWf) {cookies : List TxPtr}
    (completed : cookies.foldlM ethTxComplete d = some d') : d.Returned d' cookies := by
  induction cookies generalizing d with
  | nil =>
    cases completed
    exact ⟨wf, rfl, fun c => by simp [ofClient], fun _ _ _ => rfl⟩
  | cons cookie rest ih =>
    rw [List.foldlM_cons] at completed
    obtain ⟨middle, one, others⟩ := Option.bind_eq_some_iff.mp completed
    have first := ethTxComplete_returned wf one
    have second := ih first.wf others
    refine ⟨second.wf, second.numClients.trans first.numClients, fun c => ?_,
      fun c slot above => ?_⟩
    · rw [second.free, first.free, List.append_assoc, ofClient, ofClient, ← List.filter_append]
      rfl
    · have earlier := second.numTx c
      rw [second.stale c slot above, first.stale c slot (by omega)]

/-- Completions fault only when a client's pool is full. -/
theorem ethTxCompletes_isSome {d : Driver} (wf : d.TxWf) {cookies : List TxPtr}
    (room : ∀ c, (d.clients c).numTx + (ofClient c cookies).length ≤ clientTxBufs ∨
      ofClient c cookies = []) : (cookies.foldlM ethTxComplete d).isSome := by
  -- on the completions: each returns a frame that was in flight, so its pool has room
  induction cookies generalizing d with
  | nil => rfl
  | cons cookie rest ih =>
    have own : ofClient cookie.client (cookie :: rest) = cookie :: ofClient cookie.client rest := by
      simp [ofClient]
    have space : (d.clients cookie.client).numTx < clientTxBufs := by
      have := room cookie.client
      simp only [own, List.length_cons, reduceCtorEq, or_false] at this
      omega
    have one := ethTxComplete_eq wf cookie
    rw [if_pos space] at one
    have first := ethTxComplete_returned wf one
    rw [List.foldlM_cons, one, Option.bind_eq_bind, Option.bind_some]
    refine ih first.wf fun c => ?_
    have counted := first.numTx c
    rcases eq_or_ne c cookie.client with rfl | other
    · have := room cookie.client
      simp only [own, List.length_cons, reduceCtorEq, or_false] at this
      left
      simp [ofClient] at counted this ⊢
      omega
    · have same : ofClient c (cookie :: rest) = ofClient c rest := by
        simp [ofClient, other.symm]
      have zero : (ofClient c [cookie]).length = 0 := by simp [ofClient, other.symm]
      have := room c
      rw [same] at this
      rwa [counted, zero, Nat.add_zero]

/-! ## Sending -/

def Driver.top (d : Driver) (i : Nat) : TxPtr := (d.clients i).pendingTx ((d.clients i).numTx - 1)

structure Driver.Taken (d d' : Driver) (i : Nat) : Prop where
  wf : d'.TxWf
  numClients : d'.numClients = d.numClients
  free : (d.clients i).free = (d'.clients i).free ++ [d.top i]
  others : ∀ c, c ≠ i → (d'.clients c).free = (d.clients c).free
  slots : ∀ c, (d'.clients c).pendingTx = (d.clients c).pendingTx

theorem fillTx_taken {d filled : Driver} (wf : d.TxWf) {i : Nat} (size : Nat) {frame : Handed}
    (some : (d.clients i).numTx ≠ 0)
    (fill : (d.setClient i { d.clients i with numTx := (d.clients i).numTx - 1 }).fillTx
      ((d.clients i).pendingTx ((d.clients i).numTx - 1)) (d.clients i) size = (filled, frame)) :
    frame.frame = d.top i ∧ d.Taken filled i := by
  have own : (d.top i).client = i := wf.slots i _
  obtain ⟨n, count⟩ := Nat.exists_eq_succ_of_ne_zero some
  cases fill
  refine ⟨rfl, ⟨fun c slot => ?_, fun c slot => ?_⟩, rfl, ?_, fun c other => ?_, fun c => ?_⟩
  all_goals simp only [← Driver.top.eq_1, own, setClient_clients]
  · rcases eq_or_ne c i with rfl | other
    · rcases eq_or_ne slot (d.top c).slot with rfl | different
      · simpa using wf.owner c _
      · simpa [Function.update_of_ne different] using wf.owner c slot
    · simpa [Function.update_of_ne other] using wf.owner c slot
  · rcases eq_or_ne c i with rfl | other
    · simpa using wf.slots c slot
    · simpa [Function.update_of_ne other] using wf.slots c slot
  · simp [Client.free, Driver.top, count, List.range_succ]
  · simp [Function.update_of_ne other]
  · rcases eq_or_ne c i with rfl | other
    · simp
    · simp [Function.update_of_ne other]

/-- What a failed call adds back: the slot behind the frames that came back meanwhile. -/
def Driver.slotAfter (d : Driver) (i : Nat) (completed : List TxPtr) : TxPtr :=
  (d.clients i).pendingTx ((d.clients i).numTx - 1 + (ofClient i completed).length)

structure Driver.Called (d d' : Driver) (i : Nat) (completed : List TxPtr) (outcome : RawTx) :
    Prop where
  wf : d'.TxWf
  numClients : d'.numClients = d.numClients
  caller : ∃ rest, (d.clients i).free = rest ++ [d.top i] ∧
    (d'.clients i).free = rest ++ ofClient i completed ++
      if outcome ≠ .enqueued then [d.slotAfter i completed] else []
  others : ∀ c, c ≠ i → (d'.clients c).free = (d.clients c).free ++ ofClient c completed

theorem clientTx_called {d d' : Driver} (wf : d.TxWf) {id : Nat} {len : Int}
    {completed : List TxPtr} {outcome : RawTx} {ret : TxReturn} {handed : Option Handed}
    (sent : clientTx d id len completed outcome = some (d', ret, handed)) :
    ((∀ i, ethGetClient d id = some i → ¬d.sends i len) ∧ d' = d ∧ handed = none) ∨
    ∃ i frame, ethGetClient d id = some i ∧ d.sends i len ∧ handed = some frame ∧
      frame.frame = d.top i ∧ d.Called d' i completed outcome := by
  rcases clientTx_cases sent with
    same | ⟨i, size, filled, frame, called, caller, sends, fill, calls, rfl, rfl⟩
  · exact .inl same
  obtain ⟨top, taken⟩ := fillTx_taken wf _ sends.2.2 fill
  have returned := ethTxCompletes_returned taken.wf calls
  refine .inr ⟨i, frame, caller, sends, rfl, top, ?_⟩
  have count : (called.clients i).numTx =
      (d.clients i).numTx - 1 + (ofClient i completed).length := by
    have := congrArg List.length taken.free
    simp only [free_length, List.length_append, List.length_singleton] at this
    rw [returned.numTx]
    omega
  have last : (called.clients i).pendingTx (called.clients i).numTx = d.slotAfter i completed := by
    rw [returned.stale i _ (Nat.le_refl _), taken.slots, count, Driver.slotAfter]
  by_cases failed : outcome ≠ .enqueued
  · rw [if_pos failed]
    refine ⟨⟨fun c slot => ?_, fun c slot => ?_⟩, returned.numClients.trans taken.numClients,
      ⟨_, taken.free, ?_⟩, fun c other => ?_⟩
    · rcases eq_or_ne c i with rfl | other
      · simpa [setClient_clients] using returned.wf.owner c slot
      · simpa [setClient_clients, Function.update_of_ne other] using returned.wf.owner c slot
    · rcases eq_or_ne c i with rfl | other
      · simpa [setClient_clients] using returned.wf.slots c slot
      · simpa [setClient_clients, Function.update_of_ne other] using returned.wf.slots c slot
    · rw [← returned.free i, ← last, if_pos failed]
      simp [setClient_clients, Client.free, List.range_succ]
    · simp only [setClient_clients, Function.update_of_ne other]
      rw [returned.free c, taken.others c other]
  · rw [if_neg failed]
    refine ⟨returned.wf, returned.numClients.trans taken.numClients, ⟨_, taken.free, ?_⟩,
      fun c other => ?_⟩
    · rw [returned.free i, if_neg failed, List.append_nil]
    · rw [returned.free c, taken.others c other]

/-! ## The system -/

theorem ofClient_diff {completed inFlight : List TxPtr} (held : completed.Subperm inFlight)
    (c : Nat) :
    (ofClient c completed ++ ofClient c (inFlight.diff completed)).Perm (ofClient c inFlight) := by
  rw [ofClient, ofClient, ← List.filter_append]
  exact (List.subperm_append_diff_self_of_count_le
    (List.subperm_ext_iff.mp held)).filter _

/-- The call by client `i` finds its slot as it left it, whatever `raw_tx` completed meanwhile. -/
def System.slotKept (s : System) : Event → Prop
  | .tx id len completed outcome => ∀ i, ethGetClient s.driver id = some i →
      s.driver.sends i len → outcome ≠ .enqueued → s.driver.slotAfter i completed = s.driver.top i
  | _ => True

structure System.TxWf (s : System) : Prop where
  driver : s.driver.TxWf
  inFlight : ∀ frame ∈ s.inFlight, frame.client < s.driver.numClients

theorem partition_of_perm {s : System} {c : Nat}
    (frames : ((s.driver.clients c).free ++ ofClient c s.inFlight).Perm (framesOf c)) :
    s.TxPartition c := by
  refine ⟨?_, frames⟩
  have total := frames.length_eq
  simp only [framesOf, List.length_append, free_length, List.length_map, List.length_range] at total
  omega

theorem called_conserves {s : System} {d' : Driver} {i : Nat} {completed : List TxPtr}
    {outcome : RawTx} (conserved : s.TxConserved) (client : i < s.driver.numClients)
    (wf : s.driver.TxWf) (held : completed.Subperm s.inFlight)
    (called : s.driver.Called d' i completed outcome) :
    System.TxConserved ⟨d', s.device,
        (if outcome = .enqueued then [s.driver.top i] else []) ++ s.inFlight.diff completed⟩ ↔
      (outcome ≠ .enqueued → s.driver.slotAfter i completed = s.driver.top i) := by
  have own : (s.driver.top i).client = i := wf.slots i _
  obtain ⟨rest, before, after⟩ := called.caller
  -- The other clients keep their frames in any case.
  have others : ∀ c < s.driver.numClients, c ≠ i →
      System.TxPartition ⟨d', s.device,
        (if outcome = .enqueued then [s.driver.top i] else []) ++ s.inFlight.diff completed⟩ c := by
    intro c bound other
    apply partition_of_perm
    have apart : ofClient c ((if outcome = .enqueued then [s.driver.top i] else []) ++
        s.inFlight.diff completed) = ofClient c (s.inFlight.diff completed) := by
      split <;> simp [ofClient, own, other.symm]
    rw [apart, called.others c other, List.append_assoc]
    exact ((ofClient_diff held c).append_left _).trans (conserved c bound).frames
  have caller : (s.driver.top i :: (rest ++ ofClient i completed ++
      ofClient i (s.inFlight.diff completed))).Perm (framesOf i) := by
    have whole := (conserved i client).frames
    rw [before] at whole
    refine List.Perm.trans ?_ whole
    rw [List.append_assoc, ← List.cons_append]
    exact ((List.perm_append_singleton _ _).symm.append (ofClient_diff held i))
  by_cases enqueued : outcome = .enqueued
  · simp only [enqueued, ne_eq, not_true_eq_false, false_implies, iff_true, if_true]
    simp only [enqueued, if_true] at others
    intro c bound
    rw [called.numClients] at bound
    rcases eq_or_ne c i with rfl | other
    · apply partition_of_perm
      simp only [enqueued, ne_eq, not_true_eq_false, if_false, List.append_nil] at after
      rw [after]
      have taken : ofClient c ([s.driver.top c] ++ s.inFlight.diff completed) =
          s.driver.top c :: ofClient c (s.inFlight.diff completed) := by simp [ofClient, own]
      rw [taken]
      exact List.perm_middle.trans caller
    · exact others c bound other
  · simp only [enqueued, ne_eq, not_false_eq_true, forall_const, if_false, List.nil_append]
    simp only [enqueued, if_false, List.nil_append] at others
    rw [if_pos enqueued] at after
    -- What the caller's pool now shows, with the slot that came back in front.
    have shown : ((d'.clients i).free ++ ofClient i (s.inFlight.diff completed)).Perm
        (s.driver.slotAfter i completed :: (rest ++ ofClient i completed ++
          ofClient i (s.inFlight.diff completed))) := by
      rw [after, ← List.cons_append]
      exact (List.perm_append_singleton _ _).append_right _
    constructor
    · intro conserved'
      have whole := shown.symm.trans (conserved' i (called.numClients ▸ client)).frames
      have same := Multiset.coe_eq_coe.mpr (whole.trans caller.symm)
      rwa [← Multiset.cons_coe, ← Multiset.cons_coe, Multiset.cons_inj_left] at same
    · intro same c bound
      rw [called.numClients] at bound
      rcases eq_or_ne c i with rfl | other
      · apply partition_of_perm
        rw [same] at shown
        exact shown.trans caller
      · exact others c bound other

theorem tx_step {config : Config} {s s' : System} {id : Nat} {len : Int}
    {completed : List TxPtr} {outcome : RawTx} {result : Result} (wf : s.driver.TxWf)
    (step : s.step config (.tx id len completed outcome) = some (s', result)) :
    ((∀ i, ethGetClient s.driver id = some i → ¬s.driver.sends i len) ∧ s' = s) ∨
    ∃ i d', ethGetClient s.driver id = some i ∧ s.driver.sends i len ∧
      s.driver.Called d' i completed outcome ∧
      s' = ⟨d', s.device,
        (if outcome = .enqueued then [s.driver.top i] else []) ++ s.inFlight.diff completed⟩ := by
  obtain ⟨⟨d', ret, handed⟩, sent, same⟩ := Option.bind_eq_some_iff.mp step
  cases same
  rcases clientTx_called wf sent with
    ⟨idle, rfl, rfl⟩ | ⟨i, frame, caller, sends, rfl, top, called⟩
  · exact .inl ⟨idle, rfl⟩
  · refine .inr ⟨i, d', caller, sends, called, ?_⟩
    simp only [Option.isSome_some, if_true, Option.toList_some, List.map_cons, List.map_nil, top]

theorem Driver.TxWf.of_same {d d' : Driver} (wf : d.TxWf)
    (same : ∀ i, (d.clients i).SameTx (d'.clients i)) : d'.TxWf :=
  ⟨fun c slot => (same c).txMem ▸ wf.owner c slot, fun c slot => (same c).pendingTx ▸ wf.slots c slot⟩

theorem System.KeepsTx.wf {s s' : System} (keeps : s.KeepsTx s') (wf : s.TxWf) : s'.TxWf :=
  ⟨wf.driver.of_same keeps.tx, by rw [keeps.inFlight, keeps.numClients]; exact wf.inFlight⟩

theorem System.KeepsTx.conserved {s s' : System} (keeps : s.KeepsTx s')
    (conserved : s.TxConserved) : s'.TxConserved := by
  intro c bound
  rw [keeps.numClients] at bound
  apply partition_of_perm
  rw [keeps.inFlight, Client.free, (keeps.tx c).numTx, (keeps.tx c).pendingTx]
  exact (conserved c bound).frames

theorem initDone_keepsTx {config : Config} {s s' : System} {result : Result}
    (conserved : s.Conserved config) (step : s.step config .initDone = some (s', result)) :
    s.KeepsTx s' := by
  obtain ⟨driver, done, same⟩ := Option.bind_eq_some_iff.mp step
  cases same
  obtain ⟨_, numClients, _, _, tx⟩ := serverInitMacs_cases conserved.wf done
  exact ⟨numClients, rfl, tx⟩

theorem txComplete_step {config : Config} {s s' : System} {frame : TxPtr} {result : Result}
    (wf : s.driver.TxWf) (step : s.step config (.txComplete frame) = some (s', result)) :
    ∃ d', s.driver.Returned d' [frame] ∧ s' = ⟨d', s.device, s.inFlight.erase frame⟩ := by
  obtain ⟨d', completed, same⟩ := Option.bind_eq_some_iff.mp step
  cases same
  exact ⟨d', ethTxComplete_returned wf completed, rfl⟩

theorem returned_conserves {s : System} {d' : Driver} {done : List TxPtr}
    (conserved : s.TxConserved) (held : done.Subperm s.inFlight)
    (returned : s.driver.Returned d' done) :
    System.TxConserved ⟨d', s.device, s.inFlight.diff done⟩ := by
  intro c bound
  rw [returned.numClients] at bound
  apply partition_of_perm
  rw [returned.free, List.append_assoc]
  exact ((ofClient_diff held c).append_left _).trans (conserved c bound).frames

/-- One step keeps the frames of all clients together exactly when it keeps the slot. -/
theorem step_conserves_iff {config : Config} {s s' : System} {event : Event} {result : Result}
    (rx : s.Conserved config) (wf : s.TxWf) (conserved : s.TxConserved)
    (allowed : s.allowed event) (step : s.step config event = some (s', result)) :
    s'.TxConserved ↔ s.slotKept event := by
  cases event with
  | initDone =>
    exact iff_of_true ((initDone_keepsTx rx step).conserved conserved) trivial
  | allocate | receive | rxComplete | poke | rx =>
    exact iff_of_true ((rx.keepsTx (by trivial) allowed step).conserved conserved) trivial
  | txComplete frame =>
    obtain ⟨d', returned, rfl⟩ := txComplete_step wf.driver step
    have held : [frame].Subperm s.inFlight := List.singleton_subperm_iff.mpr allowed
    have after := returned_conserves conserved held returned
    rw [List.diff_cons, List.diff_nil] at after
    exact iff_of_true after trivial
  | tx id len completed outcome =>
    rcases tx_step wf.driver step with ⟨idle, rfl⟩ | ⟨i, d', caller, sends, called, rfl⟩
    · exact iff_of_true conserved fun i found sends => absurd sends (idle i found)
    · rw [called_conserves conserved (ethGetClient_lt caller).1 wf.driver allowed.2 called]
      constructor
      · intro kept j found _ failed
        cases caller.symm.trans found
        exact kept failed
      · exact fun kept failed => kept i caller sends failed

theorem System.TxWf.step {config : Config} {s s' : System} {event : Event} {result : Result}
    (wf : s.TxWf) (rx : s.Conserved config) (allowed : s.allowed event)
    (step : s.step config event = some (s', result)) : s'.TxWf := by
  cases event with
  | initDone => exact (initDone_keepsTx rx step).wf wf
  | allocate | receive | rxComplete | poke | rx =>
    exact (rx.keepsTx (by trivial) allowed step).wf wf
  | txComplete frame =>
    obtain ⟨d', returned, rfl⟩ := txComplete_step wf.driver step
    refine ⟨returned.wf, fun other member => ?_⟩
    rw [returned.numClients]
    exact wf.inFlight other (List.mem_of_mem_erase member)
  | tx id len completed outcome =>
    rcases tx_step wf.driver step with ⟨_, rfl⟩ | ⟨i, d', caller, _, called, rfl⟩
    · exact wf
    · refine ⟨called.wf, fun frame member => ?_⟩
      rw [called.numClients]
      rcases List.mem_append.mp member with top | left
      · have same : frame = s.driver.top i := by
          split at top
          · exact List.mem_singleton.mp top
          · cases top
        have own : (s.driver.top i).client = i := wf.driver.slots i _
        rw [same, own]
        exact (ethGetClient_lt caller).1
      · exact wf.inFlight frame (List.diff_subset _ _ left)

theorem System.TxWf.init (config : Config) : (System.init config).TxWf :=
  ⟨⟨fun _ _ => rfl, fun _ _ => rfl⟩, fun _ member => by cases member⟩

theorem System.TxConserved.init (config : Config) : (System.init config).TxConserved := by
  intro c _
  apply partition_of_perm
  simp [System.init, serverInit, Client.free, ofClient, framesOf]

theorem run_txWf {config : Config} {trace : List (Event × Result)} {s : System}
    (run : (machine config).Run (System.init config) trace s) : s.Conserved config ∧ s.TxWf :=
  run.invariant ⟨.init config, .init config⟩ fun _ _ _ _ (both : _ ∧ System.TxWf _) allowed step =>
    ⟨both.1.step allowed step, both.2.step both.1 allowed step⟩

theorem clientTx_isSome {d : Driver} {id i : Nat} {len : Int} {completed : List TxPtr}
    {outcome : RawTx} (caller : ethGetClient d id = some i)
    (calls : ∀ filled, d.sends i len → d.Taken filled i →
      (completed.foldlM ethTxComplete filled).isSome) (wf : d.TxWf) :
    (clientTx d id len completed outcome).isSome := by
  unfold clientTx
  by_cases early : (!d.doneInit) = true
  · rw [if_pos early]
    rfl
  rw [if_neg early]
  by_cases short : min len bufSize < 12
  · rw [if_pos short]
    rfl
  rw [if_neg short, caller]
  dsimp only [Option.bind_eq_bind, Option.bind_some]
  by_cases none : (d.clients i).numTx = 0
  · rw [if_pos none]
    rfl
  · rw [if_neg none]
    have ready : d.doneInit = true := by simpa using early
    have taken := (fillTx_taken wf (min len bufSize).toNat none Prod.mk.eta.symm).2
    obtain ⟨called, returned⟩ := Option.isSome_iff_exists.mp
      (calls _ ⟨ready, Int.not_lt.mp short, none⟩ taken)
    rw [returned]
    rfl

theorem ofClient_length_le {completed inFlight : List TxPtr} (held : completed.Subperm inFlight)
    (c : Nat) : (ofClient c completed).length ≤ (ofClient c inFlight).length := by
  have := (ofClient_diff held c).length_eq
  simp only [List.length_append] at this
  omega

theorem transmit_isSome {config : Config} {s : System} {event : Event} (wf : s.TxWf)
    (conserved : s.TxConserved) (transmits : ¬event.receives) (later : event ≠ .initDone)
    (allowed : s.allowed event) : (s.step config event).isSome := by
  -- What is in flight fits behind the free frames of its client.
  have room : ∀ done : List TxPtr, done.Subperm s.inFlight → ∀ c,
      (s.driver.clients c).numTx + (ofClient c done).length ≤ clientTxBufs ∨
        ofClient c done = [] := by
    intro done held c
    by_cases bound : c < s.driver.numClients
    · have total := (conserved c bound).total
      have := ofClient_length_le held c
      omega
    · right
      refine List.filter_eq_nil_iff.mpr fun frame member own => bound ?_
      have := wf.inFlight frame (held.subset member)
      simpa using (of_decide_eq_true own) ▸ this
  cases event with
  | initDone => exact absurd rfl later
  | allocate | receive | rxComplete | poke | rx => exact absurd (by trivial) transmits
  | txComplete frame =>
    have held : [frame].Subperm s.inFlight := List.singleton_subperm_iff.mpr allowed
    have completed := ethTxCompletes_isSome wf.driver (room [frame] held)
    obtain ⟨d', one⟩ := Option.isSome_iff_exists.mp completed
    have single : ethTxComplete s.driver frame = some d' := by simpa using one
    simp [System.step, single]
  | tx id len completed outcome =>
    obtain ⟨⟨j, client, same⟩, held⟩ := allowed
    obtain ⟨i, caller⟩ := Option.isSome_iff_exists.mp (ethGetClient_isSome client same)
    have served : (clientTx s.driver id len completed outcome).isSome := by
      refine clientTx_isSome caller (fun filled sends taken => ?_) wf.driver
      refine ethTxCompletes_isSome taken.wf fun c => ?_
      have fits := room completed held c
      have fewer : (filled.clients c).numTx ≤ (s.driver.clients c).numTx := by
        rcases eq_or_ne c i with rfl | other
        · have := congrArg List.length taken.free
          simp only [free_length, List.length_append, List.length_singleton] at this
          omega
        · have := congrArg List.length (taken.others c other)
          simp only [free_length] at this
          omega
      rcases fits with fits | none
      · exact .inl (by omega)
      · exact .inr none
    obtain ⟨⟨d', ret, handed⟩, sent⟩ := Option.isSome_iff_exists.mp served
    simp [System.step, sent]

/-- The frames of every client stay together in every state of a run exactly when every
`client_tx` that the device refuses finds its slot as it left it. Then no event faults. -/
theorem tx_frames_conserved_iff {config : Config} {trace : List (Event × Result)} {s : System}
    (run : (machine config).Run (System.init config) trace s) :
    ((machine config).Always (System.init config) trace System.TxConserved ↔
      (machine config).EveryStep (System.init config) trace System.slotKept) ∧
    ((machine config).EveryStep (System.init config) trace System.slotKept →
      ∀ event, ¬event.receives → event ≠ .initDone → s.allowed event →
        (s.step config event).isSome) := by
  let Together := fun s : System => (s.Conserved config ∧ s.TxWf) ∧ s.TxConserved
  have together : ∀ {trace : List (Event × Result)},
      (machine config).EveryStep (System.init config) trace System.slotKept →
        (machine config).Always (System.init config) trace Together := by
    intro trace kept
    refine Machine.Always.of_everyStep ⟨⟨.init config, .init config⟩, .init config⟩ ?_ kept
    rintro before event after result ⟨⟨rx, wf⟩, conserved⟩ allowed slot step
    exact ⟨⟨rx.step allowed step, wf.step rx allowed step⟩,
      (step_conserves_iff rx wf conserved allowed step).mpr slot⟩
  refine ⟨⟨fun always => ?_, fun kept early within state reached =>
    (together kept early within state reached).2⟩, fun kept event transmits later allowed => ?_⟩
  · have both : (machine config).Always (System.init config) trace Together :=
      fun early within state reached =>
        ⟨run_txWf reached, always early within state reached⟩
    refine both.everyStep run ?_
    rintro before event after result ⟨⟨rx, wf⟩, conserved⟩ allowed step ⟨_, conserved'⟩
    exact (step_conserves_iff rx wf conserved allowed step).mp conserved'
  · have final := together kept trace (List.prefix_refl _) s run
    exact transmit_isSome final.1.2 final.2 transmits later allowed

def loneClient : Config where
  badges := [1]
  distinct := List.nodup_singleton 1
  connected := List.cons_ne_nil 1 []
  rxPhys := (· + 1)
  pinned := fun _ => Nat.succ_ne_zero _
  txPhys := fun frame => frame.slot + 1
  clientMac := fun _ => none
  hwMac := fun _ => 2

/-- A frame is sent and the next one refused while the device holds the first: both are conserved. -/
theorem tx_frames_conserved_iff_sent : ∃ trace s,
    (machine loneClient).Run (System.init loneClient) trace s ∧
    trace.map Prod.fst = [.initDone, .tx 1 64 [] .enqueued, .tx 1 64 [] .failed] ∧
    s.inFlight = [⟨0, 127⟩] ∧
    (machine loneClient).Always (System.init loneClient) trace System.TxConserved := by
  have first : (machine loneClient).Run (System.init loneClient) [] _ := .start
  have ready := first.on .initDone rfl rfl
  have sent := ready.on (.tx 1 64 [] .enqueued) ⟨⟨0, by decide, rfl⟩, List.nil_subperm⟩ rfl
  have run := sent.on (.tx 1 64 [] .failed) ⟨⟨0, by decide, rfl⟩, List.nil_subperm⟩ rfl
  refine ⟨_, _, run, rfl, rfl, (tx_frames_conserved_iff run).1.mpr ?_⟩
  refine ((Machine.EveryStep.start.next first trivial).next ready ?_).next sent ?_
  · exact fun _ _ _ refused => absurd rfl refused
  · intro i caller _ _
    obtain rfl : 0 = i := Option.some.inj caller
    rfl

/-- The device completes the first frame while it refuses the second: the first is then free
twice and the second is lost. -/
theorem refused_frame_lost : ∃ trace s,
    (machine loneClient).Run (System.init loneClient) trace s ∧ ¬s.TxConserved := by
  have first : (machine loneClient).Run (System.init loneClient) [] _ := .start
  have ready := first.on .initDone rfl rfl
  have sent := ready.on (.tx 1 64 [] .enqueued) ⟨⟨0, by decide, rfl⟩, List.nil_subperm⟩ rfl
  have run := sent.on (.tx 1 64 [⟨0, 127⟩] .failed)
    ⟨⟨0, by decide, rfl⟩, List.Subperm.refl _⟩ rfl
  refine ⟨_, _, run, fun conserved => ?_⟩
  have same := (conserved 0 (by decide)).slots_injective (j := 126) (k := 127)
    (by decide) (by decide) rfl
  cases same

end GlobalComponents.Ethdriver
