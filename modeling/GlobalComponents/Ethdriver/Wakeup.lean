import GlobalComponents.Ethdriver.Delivery

/-! Notifications to the clients.

A client is notified of the first frame after its last call that left its ring empty. So a client
that goes to sleep after such a call is woken, and is woken once.
-/

set_option autoImplicit false

namespace GlobalComponents.Ethdriver

open Library

def Driver.emits (d : Driver) (i : Nat) : Nat := d.emitted.count (d.clients i).clientId

/-- The number of notifications each client had at its last call that returned 0 or -1. Calls are
not served before the initialisation is done. -/
def noteRearmed (s : System) (event : Event) (result : Result) (marks : Nat → Nat) : Nat → Nat :=
  match event, result with
  | .rx id, .rx ret _ => fun i =>
    if s.driver.doneInit ∧ (s.driver.clients i).clientId = id ∧ (ret = 0 ∨ ret = -1) then
      s.driver.emits i else marks i
  | _, _ => marks

def marking (config : Config) : Machine (System × (Nat → Nat)) Event Result :=
  (machine config).record noteRearmed

/-- `pico_eth_poll` by the client with the badge `id`, from its start to its last call or, when
`loop_score` is used up, to its return. Other steps may come before each of its calls. -/
inductive PicoEthPoll (config : Config) (id : Nat) : Int → System → Int → System → Prop where
  | spent {loopScore : Int} {s : System} : ¬loopScore > 0 →
      PicoEthPoll config id loopScore s loopScore s
  | empty {loopScore : Int} {s before after : System} {trace : List (Event × Result)}
      {frame : Option (List UInt8)} : loopScore > 0 → (machine config).Run s trace before →
      before.step config (.rx id) = some (after, .rx (-1) frame) →
      PicoEthPoll config id loopScore s loopScore after
  | last {loopScore : Int} {s before after : System} {trace : List (Event × Result)}
      {frame : Option (List UInt8)} : loopScore > 0 → (machine config).Run s trace before →
      before.step config (.rx id) = some (after, .rx 0 frame) →
      PicoEthPoll config id loopScore s (loopScore - 1) after
  | more {loopScore ret left : Int} {s before after final : System}
      {trace : List (Event × Result)} {frame : Option (List UInt8)} : loopScore > 0 →
      (machine config).Run s trace before →
      before.step config (.rx id) = some (after, .rx ret frame) → ret ≠ -1 → ret ≠ 0 →
      PicoEthPoll config id (loopScore - 1) after left final →
      PicoEthPoll config id loopScore s left final

/-- The client waits for a notification with an empty ring, or has had one since it last did. -/
def Driver.Armed (d : Driver) (marks : Nat → Nat) (i : Nat) : Prop :=
  if (d.clients i).shouldNotify then
    (d.clients i).pendingRxHead = (d.clients i).pendingRxTail ∧ d.emits i = marks i
  else d.emits i = marks i + 1

structure Driver.SameWake (d d' : Driver) (i : Nat) : Prop where
  shouldNotify : (d'.clients i).shouldNotify = (d.clients i).shouldNotify
  head : (d'.clients i).pendingRxHead = (d.clients i).pendingRxHead
  tail : (d'.clients i).pendingRxTail = (d.clients i).pendingRxTail
  emits : d'.emits i = d.emits i

theorem Driver.Armed.same {d d' : Driver} {marks : Nat → Nat} {i : Nat} (armed : d.Armed marks i)
    (same : d.SameWake d' i) : d'.Armed marks i := by
  unfold Driver.Armed at armed ⊢
  rwa [same.shouldNotify, same.head, same.tail, same.emits]

def Driver.Distinct (d : Driver) : Prop :=
  ∀ i < d.numClients, ∀ j < d.numClients,
    (d.clients i).clientId = (d.clients j).clientId → i = j

structure Driver.Rings (d d' : Driver) : Prop where
  numClients : d'.numClients = d.numClients
  clientId : ∀ i, (d'.clients i).clientId = (d.clients i).clientId
  doneInit : d.doneInit = true → d'.doneInit = true
  armed : d.Distinct → ∀ marks, ∀ i < d.numClients, d.Armed marks i → d'.Armed marks i

namespace Driver.Rings

variable {d d' d'' : Driver}

theorem distinct (rings : d.Rings d') (distinct : d.Distinct) : d'.Distinct := by
  intro i client j client' same
  rw [rings.numClients] at client client'
  rw [rings.clientId, rings.clientId] at same
  exact distinct i client j client' same

theorem trans (first : d.Rings d') (second : d'.Rings d'') : d.Rings d'' where
  numClients := second.numClients.trans first.numClients
  clientId i := (second.clientId i).trans (first.clientId i)
  doneInit ready := second.doneInit (first.doneInit ready)
  armed unique marks i client armed :=
    second.armed (first.distinct unique) marks i (first.numClients.symm ▸ client)
      (first.armed unique marks i client armed)

theorem of_same (numClients : d'.numClients = d.numClients)
    (clientId : ∀ i, (d'.clients i).clientId = (d.clients i).clientId)
    (doneInit : d.doneInit = true → d'.doneInit = true) (same : ∀ i, d.SameWake d' i) :
    d.Rings d' :=
  ⟨numClients, clientId, doneInit, fun _ _ i _ armed => armed.same (same i)⟩

theorem refl (d : Driver) : d.Rings d :=
  .of_same rfl (fun _ => rfl) id fun _ => ⟨rfl, rfl, rfl, rfl⟩

theorem setClient (d : Driver) (i : Nat) (client : Client)
    (clientId : client.clientId = (d.clients i).clientId)
    (shouldNotify : client.shouldNotify = (d.clients i).shouldNotify)
    (head : client.pendingRxHead = (d.clients i).pendingRxHead)
    (tail : client.pendingRxTail = (d.clients i).pendingRxTail) : d.Rings (d.setClient i client) := by
  have same : ∀ {α : Type} (field : Client → α), field client = field (d.clients i) →
      ∀ j, field ((d.setClient i client).clients j) = field (d.clients j) := by
    intro α field own j
    rcases eq_or_ne j i with rfl | other
    · simpa [setClient_clients] using own
    · simp [setClient_clients, Function.update_of_ne other]
  refine .of_same rfl (same (·.clientId) clientId) id fun j => ?_
  refine ⟨same (·.shouldNotify) shouldNotify j, same (·.pendingRxHead) head j,
    same (·.pendingRxTail) tail j, ?_⟩
  unfold Driver.emits
  rw [same (·.clientId) clientId j]
  rfl

end Driver.Rings

theorem putRxBuf_rings {d d' : Driver} {buf : Nat} (put : putRxBuf d buf = some d') :
    d.Rings d' := by
  unfold putRxBuf at put
  split at put
  · cases put
    exact .of_same rfl (fun _ => rfl) id fun _ => ⟨rfl, rfl, rfl, rfl⟩
  · cases put

theorem putBack_rings {d d' : Driver} {cookies : List Nat} (put : putBack d cookies = some d') :
    d.Rings d' := by
  induction cookies generalizing d with
  | nil =>
    cases put
    exact .refl _
  | cons buf rest ih =>
    rw [putBack, List.foldlM_cons] at put
    obtain ⟨middle, one, others⟩ := Option.bind_eq_some_iff.mp put
    exact (putRxBuf_rings one).trans (ih others)

theorem ethAllocateRxBuf_rings (d : Driver) (size : Nat) :
    d.Rings (ethAllocateRxBuf d size).1 := by
  unfold ethAllocateRxBuf
  split
  · exact .refl d
  split
  · exact .refl d
  · exact .of_same rfl (fun _ => rfl) id fun _ => ⟨rfl, rfl, rfl, rfl⟩

theorem copyRxBuf_rings (d : Driver) (newBuf buf len : Nat) :
    d.Rings (d.copyRxBuf newBuf buf len) :=
  .of_same rfl (fun _ => rfl) id fun _ => ⟨rfl, rfl, rfl, rfl⟩

theorem Driver.Rings.of_client {d : Driver} {i : Nat} (client : i < d.numClients) (after : Client)
    (emitted : List Nat) (clientId : after.clientId = (d.clients i).clientId)
    (notified : emitted = d.emitted ∨ emitted = (d.clients i).clientId :: d.emitted)
    (armed : ∀ marks, d.Armed marks i →
      Driver.Armed { d.setClient i after with emitted } marks i) :
    d.Rings { d.setClient i after with emitted } := by
  have ids : ∀ j, ((d.setClient i after).clients j).clientId = (d.clients j).clientId := by
    intro j
    rcases eq_or_ne j i with rfl | other
    · simpa [setClient_clients] using clientId
    · simp [setClient_clients, Function.update_of_ne other]
  refine ⟨rfl, ids, id, fun unique marks j client' before => ?_⟩
  rcases eq_or_ne j i with rfl | other
  · exact armed marks before
  · have apart : (d.clients i).clientId ≠ (d.clients j).clientId := fun same =>
      other (unique i client j client' same).symm
    have same : (d.setClient i after).clients j = d.clients j := by
      rw [setClient_clients, Function.update_of_ne other]
    refine before.same ⟨?_, ?_, ?_, ?_⟩
    · exact congrArg Client.shouldNotify same
    · exact congrArg Client.pendingRxHead same
    · exact congrArg Client.pendingRxTail same
    · show emitted.count ((d.setClient i after).clients j).clientId = _
      rw [same]
      rcases notified with rfl | rfl
      · rfl
      · exact List.count_cons_of_ne apart

theorem giveClientBuf_rings {d d' : Driver} {i buf len : Nat} (client : i < d.numClients)
    (given : giveClientBuf d i buf len = some d') : d.Rings d' := by
  unfold giveClientBuf at given
  dsimp only at given
  split at given
  · split at given
    · next flag =>
      cases given
      refine .of_client client _ ((d.clients i).clientId :: d.emitted) rfl (.inr rfl)
        fun marks armed => ?_
      unfold Driver.Armed at armed ⊢
      rw [if_pos flag] at armed
      simp only [setClient_clients, Function.update_self, Driver.emits] at armed ⊢
      simp [armed.2]
    · next flag =>
      cases given
      refine .of_client client _ d.emitted rfl (.inl rfl) fun marks armed => ?_
      unfold Driver.Armed at armed ⊢
      rw [if_neg flag] at armed
      simp only [setClient_clients, Function.update_self, Driver.emits] at armed ⊢
      rw [if_neg flag]
      exact armed
  · cases given

theorem offerBuf_rings {d d' : Driver} {i buf len : Nat} (client : i < d.numClients)
    (offered : offerBuf d i buf len = some d') : d.Rings d' := by
  unfold offerBuf at offered
  split at offered
  · exact putBack_rings offered
  · exact giveClientBuf_rings client offered

theorem duplicateFor_rings {d d' : Driver} {buf len i : Nat} (client : i < d.numClients)
    (duplicated : duplicateFor buf len d i = some d') : d.Rings d' := by
  have popped := ethAllocateRxBuf_rings d len
  unfold duplicateFor at duplicated
  split at duplicated
  · cases duplicated
    exact .refl _
  · split at duplicated
    · next middle _ newBuf allocated =>
      rw [allocated] at popped
      split at duplicated
      · have before := popped.trans (copyRxBuf_rings middle newBuf buf len)
        exact before.trans (giveClientBuf_rings (before.numClients ▸ client) duplicated)
      · cases duplicated
        exact popped
    · next allocated =>
      rw [allocated] at popped
      cases duplicated
      exact popped

theorem duplicates_rings {d d' : Driver} {buf len : Nat} {others : List Nat}
    (clients : ∀ i ∈ others, i < d.numClients)
    (duplicated : others.foldlM (duplicateFor buf len) d = some d') : d.Rings d' := by
  induction others generalizing d with
  | nil =>
    cases duplicated
    exact .refl _
  | cons i rest ih =>
    rw [List.foldlM_cons] at duplicated
    obtain ⟨middle, one, others⟩ := Option.bind_eq_some_iff.mp duplicated
    have first := duplicateFor_rings (clients i List.mem_cons_self) one
    refine first.trans (ih (fun j member => ?_) others)
    exact first.numClients ▸ clients j (List.mem_cons_of_mem i member)

theorem ethRxComplete_rings {d d' : Driver} {bufs : List (Nat × Nat)} (present : 0 < d.numClients)
    (completed : ethRxComplete d bufs = some d') : d.Rings d' := by
  unfold ethRxComplete at completed
  split at completed
  · split at completed
    · next detected =>
      exact offerBuf_rings (detectClient_eq_some_iff.mp detected).2.1 completed
    · split at completed
      · obtain ⟨middle, duplicated, offered⟩ := Option.bind_eq_some_iff.mp completed
        have first := duplicates_rings (fun i member => (RxView.others_are_clients member).2) duplicated
        exact first.trans (offerBuf_rings (first.numClients.symm ▸ present) offered)
      · exact putBack_rings completed
  · exact putBack_rings completed

theorem ethTxComplete_rings {d d' : Driver} {cookie : TxPtr}
    (completed : ethTxComplete d cookie = some d') : d.Rings d' := by
  simp only [ethTxComplete] at completed
  split at completed
  · cases completed
    exact .setClient d _ _ rfl rfl rfl rfl
  · cases completed

theorem ethTxCompletes_rings {d d' : Driver} {cookies : List TxPtr}
    (completed : cookies.foldlM ethTxComplete d = some d') : d.Rings d' := by
  induction cookies generalizing d with
  | nil =>
    cases completed
    exact .refl _
  | cons cookie rest ih =>
    rw [List.foldlM_cons] at completed
    obtain ⟨middle, one, others⟩ := Option.bind_eq_some_iff.mp completed
    exact (ethTxComplete_rings one).trans (ih others)

theorem fillTx_rings (d : Driver) (txBuf : TxPtr) (client : Client) (len : Nat) :
    d.Rings (d.fillTx txBuf client len).1 := .setClient d _ _ rfl rfl rfl rfl

theorem clientTx_rings {d d' : Driver} {id : Nat} {len : Int} {completed : List TxPtr}
    {outcome : RawTx} {ret : TxReturn} {handed : Option Handed}
    (sent : clientTx d id len completed outcome = some (d', ret, handed)) : d.Rings d' := by
  rcases clientTx_cases sent with
    ⟨_, rfl, _⟩ | ⟨i, size, filled, frame, called, _, _, fill, calls, _, rfl⟩
  · exact .refl _
  · have popped := Driver.Rings.setClient d i { d.clients i with
      numTx := (d.clients i).numTx - 1 } rfl rfl rfl rfl
    have filling := fillTx_rings (d.setClient i { d.clients i with
      numTx := (d.clients i).numTx - 1 }) ((d.clients i).pendingTx ((d.clients i).numTx - 1))
        (d.clients i) size
    rw [fill] at filling
    have all := (popped.trans filling).trans (ethTxCompletes_rings calls)
    split
    · exact all.trans (.setClient called i _ rfl rfl rfl rfl)
    · exact all

theorem serverInitMacs_rings {config : Config} {d d' : Driver}
    (done : serverInitMacs config d = some d') : d.Rings d' := by
  simp only [serverInitMacs] at done
  split at done
  · cases done
  · cases done
    exact .of_same rfl (fun _ => rfl) (fun _ => rfl) fun _ => ⟨rfl, rfl, rfl, rfl⟩

/-- What a served call does to the notifications: it arms its client, or there is a frame left. -/
structure Driver.Served (d d' : Driver) (i : Nat) (ret : Int) : Prop where
  numClients : d'.numClients = d.numClients
  clientId : ∀ j, (d'.clients j).clientId = (d.clients j).clientId
  doneInit : d'.doneInit = d.doneInit
  emitted : d'.emitted = d.emitted
  others : ∀ j, j ≠ i → d'.clients j = d.clients j
  own : (ret = 0 ∨ ret = -1) ∧ (d'.clients i).shouldNotify = true ∧
      (d'.clients i).pendingRxHead = (d'.clients i).pendingRxTail ∨
    ret = 1 ∧ (d.clients i).pendingRxHead ≠ (d.clients i).pendingRxTail ∧
      (d'.clients i).shouldNotify = (d.clients i).shouldNotify

theorem Driver.Served.of_client (d : Driver) (i : Nat) (client : Client)
    (clientId : client.clientId = (d.clients i).clientId) {ret : Int}
    (own : (ret = 0 ∨ ret = -1) ∧ client.shouldNotify = true ∧
        client.pendingRxHead = client.pendingRxTail ∨
      ret = 1 ∧ (d.clients i).pendingRxHead ≠ (d.clients i).pendingRxTail ∧
        client.shouldNotify = (d.clients i).shouldNotify) :
    d.Served (d.setClient i client) i ret := by
  refine ⟨rfl, fun j => ?_, rfl, rfl, fun j other => ?_, ?_⟩
  · rcases eq_or_ne j i with rfl | other
    · simpa [setClient_clients] using clientId
    · simp [setClient_clients, Function.update_of_ne other]
  · rw [setClient_clients, Function.update_of_ne other]
  · simpa [setClient_clients] using own

theorem Driver.Served.put {d d' d'' : Driver} {i buf : Nat} {ret : Int} (served : d.Served d' i ret)
    (put : putRxBuf d' buf = some d'') : d.Served d'' i ret := by
  unfold putRxBuf at put
  split at put
  · cases put
    exact ⟨served.numClients, served.clientId, served.doneInit, served.emitted, served.others,
      served.own⟩
  · cases put

theorem clientRx_served {d d' : Driver} {id i : Nat} {ret : Int} {len : Option Nat}
    (ready : d.doneInit = true) (caller : ethGetClient d id = some i)
    (call : clientRx d id = some (d', ret, len)) : d.Served d' i ret := by
  unfold clientRx at call
  simp only [ready, caller, Bool.not_true, Bool.false_eq_true, if_false, Option.bind_eq_bind,
    Option.bind_some, Option.pure_def] at call
  by_cases empty : (d.clients i).pendingRxHead = (d.clients i).pendingRxTail
  · rw [if_pos empty] at call
    cases call
    exact .of_client d i { d.clients i with shouldNotify := true } rfl
      (.inl ⟨.inr rfl, rfl, empty⟩)
  · rw [if_neg empty] at call
    obtain ⟨back, put, same⟩ := Option.bind_eq_some_iff.mp call
    cases same
    by_cases last : ((d.clients i).pendingRxTail + 1) % clientRxBufs = (d.clients i).pendingRxHead
    · rw [if_pos last] at put ⊢
      refine .put ?_ put
      apply Driver.Served.of_client
      · rfl
      · exact .inl ⟨.inl rfl, rfl, last.symm⟩
    · rw [if_neg last] at put ⊢
      refine .put ?_ put
      apply Driver.Served.of_client
      · rfl
      · exact .inr ⟨rfl, empty, rfl⟩

/-! ## Runs -/

structure Woken (s : System × (Nat → Nat)) : Prop where
  distinct : s.1.driver.Distinct
  armed : ∀ i < s.1.driver.numClients, s.1.driver.Armed s.2 i

theorem step_rings {config : Config} {s s' : System} {event : Event} {result : Result}
    (present : 0 < s.driver.numClients) (other : ∀ id, event ≠ .rx id)
    (step : s.step config event = some (s', result)) : s.driver.Rings s'.driver := by
  cases event with
  | initDone =>
    obtain ⟨driver, done, same⟩ := Option.bind_eq_some_iff.mp step
    cases same
    exact serverInitMacs_rings done
  | allocate size =>
    cases step
    exact ethAllocateRxBuf_rings s.driver size
  | receive buf contents =>
    cases step
    exact .of_same rfl (fun _ => rfl) id fun _ => ⟨rfl, rfl, rfl, rfl⟩
  | rxComplete bufs =>
    obtain ⟨driver, completed, same⟩ := Option.bind_eq_some_iff.mp step
    cases same
    exact ethRxComplete_rings present completed
  | txComplete frame =>
    obtain ⟨driver, completed, same⟩ := Option.bind_eq_some_iff.mp step
    cases same
    exact ethTxComplete_rings completed
  | poke client contents =>
    cases step
    exact .setClient s.driver client _ rfl rfl rfl rfl
  | rx id => exact absurd rfl (other id)
  | tx id len completed outcome =>
    obtain ⟨⟨driver, ret, handed⟩, sent, same⟩ := Option.bind_eq_some_iff.mp step
    cases same
    exact clientTx_rings sent

theorem step_rx {config : Config} {s s' : System} {id : Nat} {result : Result}
    (step : s.step config (.rx id) = some (s', result)) :
    ∃ i ret frame, ethGetClient s.driver id = some i ∧ result = .rx ret frame ∧
      (s.driver.doneInit = false ∧ s' = s ∨
        s.driver.doneInit = true ∧ s.driver.Served s'.driver i ret) := by
  obtain ⟨⟨driver, ret, len⟩, call, step⟩ := Option.bind_eq_some_iff.mp step
  obtain ⟨i, caller, same⟩ := Option.bind_eq_some_iff.mp step
  cases same
  refine ⟨i, ret, _, caller, rfl, ?_⟩
  cases ready : s.driver.doneInit with
  | false =>
    rw [clientRx, ready] at call
    cases call
    exact .inl ⟨rfl, rfl⟩
  | true => exact .inr ⟨rfl, clientRx_served ready caller call⟩

theorem step_doneInit {config : Config} {s s' : System} {event : Event} {result : Result}
    (present : 0 < s.driver.numClients) (step : s.step config event = some (s', result))
    (ready : s.driver.doneInit = true) : s'.driver.doneInit = true := by
  by_cases call : ∃ id, event = .rx id
  · obtain ⟨id, rfl⟩ := call
    obtain ⟨_, _, _, _, _, ⟨_, rfl⟩ | ⟨_, served⟩⟩ := step_rx step
    · exact ready
    · exact served.doneInit.trans ready
  · exact (step_rings present (fun id same => call ⟨id, same⟩) step).doneInit ready

theorem Driver.Served.armed {d d' : Driver} {i j : Nat} {ret : Int} {marks marks' : Nat → Nat}
    (served : d.Served d' i ret) (armed : d.Armed marks j)
    (noted : marks' j = if j = i ∧ (ret = 0 ∨ ret = -1) then d.emits j else marks j) :
    d'.Armed marks' j := by
  have emits : d'.emits j = d.emits j := by
    unfold Driver.emits
    rw [served.emitted, served.clientId]
  unfold Driver.Armed at armed ⊢
  rw [emits, noted]
  rcases eq_or_ne j i with rfl | other
  · rcases served.own with ⟨rearmed, flag, empty⟩ | ⟨rfl, some, flag⟩
    · rw [if_pos flag, if_pos ⟨rfl, rearmed⟩]
      exact ⟨empty, rfl⟩
    · have asleep : ¬(d.clients j).shouldNotify = true := by
        intro flag
        rw [if_pos flag] at armed
        exact some armed.1
      have more : ¬(j = j ∧ ((1 : Int) = 0 ∨ (1 : Int) = -1)) := by simp
      rw [if_neg asleep] at armed
      rw [flag, if_neg asleep, if_neg more]
      exact armed
  · have elsewhere : ¬(j = i ∧ (ret = 0 ∨ ret = -1)) := fun both => other both.1
    rw [served.others j other, if_neg elsewhere]
    exact armed

theorem Woken.served {s s' : System} {marks marks' : Nat → Nat} {i : Nat} {ret : Int}
    (woken : Woken (s, marks)) (served : s.driver.Served s'.driver i ret)
    (noted : ∀ j < s.driver.numClients,
      marks' j = if j = i ∧ (ret = 0 ∨ ret = -1) then s.driver.emits j else marks j) :
    Woken (s', marks') := by
  refine ⟨fun j client k client' same => ?_, fun j client => ?_⟩
  · rw [served.numClients] at client client'
    rw [served.clientId, served.clientId] at same
    exact woken.distinct j client k client' same
  · have client : j < s.driver.numClients := served.numClients ▸ client
    exact served.armed (woken.armed j client) (noted j client)

theorem Woken.rings {s s' : System} {marks : Nat → Nat} (woken : Woken (s, marks))
    (rings : s.driver.Rings s'.driver) : Woken (s', marks) := by
  refine ⟨rings.distinct woken.distinct, fun i client => ?_⟩
  have client : i < s.driver.numClients := rings.numClients ▸ client
  exact rings.armed woken.distinct marks i client (woken.armed i client)

theorem Woken.step {config : Config} {s s' : System × (Nat → Nat)} {event : Event}
    {result : Result} (woken : Woken s) (conserved : s.1.Conserved config)
    (step : (marking config).step s event = some (s', result)) : Woken s' := by
  obtain ⟨system, marks⟩ := s
  obtain ⟨system', marks'⟩ := s'
  obtain ⟨stepped, noted⟩ := Machine.record_step step
  replace stepped : system.step config event = some (system', result) := stepped
  dsimp only at noted conserved
  subst noted
  by_cases call : ∃ id, event = .rx id
  · obtain ⟨id, rfl⟩ := call
    obtain ⟨i, ret, frame, caller, rfl, ⟨early, rfl⟩ | ⟨ready, served⟩⟩ := step_rx stepped
    · have same : noteRearmed system' (.rx id) (.rx ret frame) marks = marks := by
        simp [noteRearmed, early]
      rw [same]
      exact woken
    · apply woken.served served
      intro j client
      have own := conserved.caller caller client
      simp [noteRearmed, ready, own]
  · have same : noteRearmed system event result marks = marks := by
      unfold noteRearmed
      split
      · exact absurd ⟨_, rfl⟩ call
      · rfl
    rw [same]
    exact woken.rings (step_rings conserved.present (fun id same => call ⟨id, same⟩) stepped)

theorem Woken.init (config : Config) : Woken (System.init config, fun _ => 0) := by
  refine ⟨fun i client j client' same => ?_, fun i _ => ?_⟩
  · have client : i < config.badges.length := client
    have client' : j < config.badges.length := client'
    have same : config.badges.getD i 0 = config.badges.getD j 0 := same
    simp only [List.getD_eq_getElem?_getD, List.getElem?_eq_getElem client,
      List.getElem?_eq_getElem client', Option.getD_some] at same
    exact config.distinct.getElem_inj_iff.mp same
  · exact ⟨rfl, rfl⟩

theorem run_woken {config : Config} {trace : List (Event × Result)} {s : System × (Nat → Nat)}
    (run : (marking config).Run (System.init config, fun _ => 0) trace s) :
    s.1.Conserved config ∧ Woken s := by
  apply run.invariant ⟨.init config, .init config⟩
  rintro before event after result ⟨conserved, woken⟩ allowed step
  exact ⟨conserved.step allowed (Machine.record_step step).1, woken.step conserved step⟩

structure Serves (config : Config) (s : System) (id i : Nat) : Prop where
  conserved : s.Conserved config
  ready : s.driver.doneInit = true
  client : i < s.driver.numClients
  own : (s.driver.clients i).clientId = id

theorem Serves.step {config : Config} {s s' : System} {id i : Nat} {event : Event}
    {result : Result} (serves : Serves config s id i) (allowed : s.allowed event)
    (step : s.step config event = some (s', result)) : Serves config s' id i := by
  have conserved := serves.conserved.step allowed step
  refine ⟨conserved, step_doneInit serves.conserved.present step serves.ready, ?_, ?_⟩
  · rw [conserved.numClients, ← serves.conserved.numClients]
    exact serves.client
  · rw [conserved.ids, ← serves.conserved.ids, serves.own]

theorem Serves.run {config : Config} {s s' : System} {id i : Nat}
    {trace : List (Event × Result)} (serves : Serves config s id i)
    (run : (machine config).Run s trace s') : Serves config s' id i := by
  apply run.invariant serves
  intro before event after result serves allowed step
  exact serves.step allowed step

theorem Serves.rearms {config : Config} {s s' : System} {id i : Nat} {ret : Int}
    {frame : Option (List UInt8)} (serves : Serves config s id i)
    (call : s.step config (.rx id) = some (s', .rx ret frame)) (last : ret = 0 ∨ ret = -1) :
    (s'.driver.clients i).shouldNotify = true ∧
      (s'.driver.clients i).pendingRxHead = (s'.driver.clients i).pendingRxTail := by
  obtain ⟨j, _, _, caller, same, ⟨early, _⟩ | ⟨_, served⟩⟩ := step_rx call
  · rw [serves.ready] at early
    cases early
  · cases same
    obtain rfl := (serves.conserved.caller caller serves.client).mp serves.own
    rcases served.own with ⟨_, armed⟩ | ⟨rfl, _⟩
    · exact armed
    · rcases last with zero | minus
      · exact absurd zero (by decide)
      · exact absurd minus (by decide)

/-- A poll that returns before its score is used up has left its client waiting with an empty
ring. -/
theorem PicoEthPoll.rearms {config : Config} {id i : Nat} {loopScore left : Int}
    {s final : System} (poll : PicoEthPoll config id loopScore s left final)
    (serves : Serves config s id i) (early : left > 0) :
    (final.driver.clients i).shouldNotify = true ∧
      (final.driver.clients i).pendingRxHead = (final.driver.clients i).pendingRxTail := by
  -- on the calls of the poll; only the last one of them matters
  induction poll with
  | spent used => exact absurd early used
  | empty _ run call => exact (serves.run run).rearms call (.inr rfl)
  | last _ run call => exact (serves.run run).rearms call (.inl rfl)
  | more _ run call _ _ _ ih =>
    have before := serves.run run
    obtain ⟨j, _, _, caller, _⟩ := step_rx call
    have allowed : System.allowed _ (.rx id) := ⟨j, ethGetClient_lt caller⟩
    exact ih (before.step allowed call) early

/-- Once the initialisation is done: a client that waits to be notified has an empty ring; a client
with frames in its ring has been notified exactly once since its last call that returned 0 or -1; and
`pico_eth_poll` returns with a positive score only when its last call has left the client waiting
with an empty ring. -/
theorem no_lost_wakeup {config : Config} {trace : List (Event × Result)} {s : System}
    {marks : Nat → Nat}
    (run : (marking config).Run (System.init config, fun _ => 0) trace (s, marks))
    (ready : s.driver.doneInit = true) (i : Nat) (client : i < s.driver.numClients) :
    ((s.driver.clients i).shouldNotify = true →
      (s.driver.clients i).pendingRxHead = (s.driver.clients i).pendingRxTail) ∧
    ((s.driver.clients i).pendingRxHead ≠ (s.driver.clients i).pendingRxTail →
      s.driver.emits i = marks i + 1) ∧
    ∀ loopScore left final,
      PicoEthPoll config (s.driver.clients i).clientId loopScore s left final → left > 0 →
      (final.driver.clients i).shouldNotify = true ∧
        (final.driver.clients i).pendingRxHead = (final.driver.clients i).pendingRxTail := by
  obtain ⟨conserved, woken⟩ := run_woken run
  have armed : s.driver.Armed marks i := woken.armed i client
  unfold Driver.Armed at armed
  refine ⟨fun flag => ?_, fun some => ?_, fun loopScore left final poll early => ?_⟩
  · rw [if_pos flag] at armed
    exact armed.1
  · have asleep : ¬(s.driver.clients i).shouldNotify = true := by
      intro flag
      rw [if_pos flag] at armed
      exact some armed.1
    rw [if_neg asleep] at armed
    exact armed
  · exact poll.rearms ⟨conserved, ready, client, rfl⟩ early

theorem no_lost_wakeup_broadcast : ∃ trace s marks final,
    (marking twoClients).Run (System.init twoClients, fun _ => 0) trace (s, marks) ∧
    s.driver.emits 1 = marks 1 + 1 ∧ PicoEthPoll twoClients 2 3 s (3 - 1) final ∧
    (final.driver.clients 1).shouldNotify = true := by
  have first : (marking twoClients).Run (System.init twoClients, fun _ => 0) [] _ := .start
  have ready := first.on .initDone rfl rfl
  have given := ready.on (.allocate 2048) trivial rfl
  have written := given.on (.receive 255 fun _ => 0xff) (List.mem_singleton_self 255) rfl
  have queued := written.on (.rxComplete [(255, 64)])
    ⟨List.nodup_singleton 255, List.Subset.refl [255]⟩ rfl
  have wakes := no_lost_wakeup queued rfl 1 (by decide)
  refine ⟨_, _, _, _, queued, wakes.2.1 (by decide), .last (by decide) .start rfl, ?_⟩
  exact (wakes.2.2 3 (3 - 1) _ (.last (by decide) .start rfl) (by decide)).1

end GlobalComponents.Ethdriver
