import GlobalComponents.Ethdriver.Transmit

/-! What a client sends is what the device is given, under the client's own address.

The device reads a transmit buffer while the frame is in flight. Here `raw_tx` may complete any frames
before it returns, even the one it is just taking, but none when it refuses the frame.
-/

set_option autoImplicit false

namespace GlobalComponents.Ethdriver

open Library

instance (d : Driver) (i : Nat) (len : Int) : Decidable (d.sends i len) :=
  inferInstanceAs (Decidable (_ ∧ _ ∧ _))

def Driver.handing (d : Driver) (id : Nat) (len : Int) : List TxPtr :=
  match ethGetClient d id with
  | some i => if d.sends i len then [d.top i] else []
  | none => []

def System.allowedSending (s : System) : Event → Prop
  | .tx id len completed outcome =>
    (∃ i < s.driver.numClients, (s.driver.clients i).clientId = id) ∧
      (outcome ≠ .enqueued → completed = []) ∧
      completed.Subperm (s.driver.handing id len ++ s.inFlight)
  | event => s.allowed event

def System.stepSending (config : Config) (s : System) : Event → Option (System × Result)
  | .tx id len completed outcome => do
    let (driver, ret, handed) ← clientTx s.driver id len completed outcome
    let accepted := if outcome = .enqueued then handed.toList.map (·.frame) else []
    -- Without a frame to send the driver is not called and completes nothing here.
    let inFlight := if handed.isSome then (accepted ++ s.inFlight).diff completed else s.inFlight
    return ({ s with driver, inFlight }, .tx ret handed)
  | event => s.step config event

def sending (config : Config) : Machine System Event Result where
  allowed := System.allowedSending
  step := System.stepSending config

def Driver.memory (d : Driver) (frame : TxPtr) : EthBuf :=
  ((d.clients frame.client).txMem frame.slot).buf

/-! ## The calls -/

theorem setClient_memory {d : Driver} {i : Nat} {client : Client}
    (same : client.txMem = (d.clients i).txMem) : (d.setClient i client).memory = d.memory := by
  funext frame
  rw [Driver.memory, Driver.memory, setClient_clients]
  by_cases here : frame.client = i
  · rw [here, Function.update_self, same]
  · rw [Function.update_of_ne here]

theorem ethTxComplete_memory {d d' : Driver} {cookie : TxPtr}
    (completed : ethTxComplete d cookie = some d') : d'.memory = d.memory := by
  simp only [ethTxComplete] at completed
  split at completed
  · cases completed
    exact setClient_memory rfl
  · cases completed

theorem ethTxCompletes_memory {d d' : Driver} {cookies : List TxPtr}
    (completed : cookies.foldlM ethTxComplete d = some d') : d'.memory = d.memory := by
  induction cookies generalizing d with
  | nil =>
    cases completed
    rfl
  | cons cookie rest ih =>
    rw [List.foldlM_cons] at completed
    obtain ⟨middle, one, others⟩ := Option.bind_eq_some_iff.mp completed
    exact (ih others).trans (ethTxComplete_memory one)

theorem fillTx_memory (d : Driver) (txBuf : TxPtr) (client : Client) (len : Nat) :
    (d.fillTx txBuf client len).1.memory = Function.update d.memory txBuf
      { d.memory txBuf with
        buf := stampSource (memcpy (d.memory txBuf).buf client.dataport len) client.mac } := by
  funext frame
  simp only [Driver.memory, Driver.fillTx, setClient_clients]
  by_cases here : frame = txBuf
  · subst here
    simp
  · rw [Function.update_of_ne here]
    by_cases client : frame.client = txBuf.client
    · have slot : frame.slot ≠ txBuf.slot := by
        intro slot
        cases frame
        cases txBuf
        exact here (by simp_all)
      simp [Driver.memory, client, slot]
    · simp [Driver.memory, client]

theorem bytes_stampSource (mem packet : Memory) (mac : Mac) (n : Nat) :
    bytes (stampSource (memcpy mem packet n) mac) n = bytes (stampSource packet mac) n := by
  apply List.map_congr_left
  intro k member
  simp only [stampSource, memcpy, if_pos (List.mem_range.mp member)]

structure Driver.Sent (d d' : Driver) (i : Nat) (len : Int) (handed : Handed) : Prop where
  short : 12 ≤ (min len bufSize).toNat
  long : (min len bufSize).toNat ≤ bufSize
  frame : handed.frame = d.top i
  phys : handed.phys = (d.memory (d.top i)).phys
  contents : handed.contents = bytes
    (stampSource (d.clients i).dataport (d.clients i).mac) (min len bufSize).toNat
  stored : bytes (d'.memory (d.top i)).buf (min len bufSize).toNat = handed.contents
  same : (d'.memory (d.top i)).phys = (d.memory (d.top i)).phys
  others : ∀ frame, frame ≠ d.top i → d'.memory frame = d.memory frame

theorem clientTx_sent {d d' : Driver} {id : Nat} {len : Int} {completed : List TxPtr}
    {outcome : RawTx} {ret : TxReturn} {handed : Handed}
    (sent : clientTx d id len completed outcome = some (d', ret, some handed)) :
    ∃ i, ethGetClient d id = some i ∧ d.Sent d' i len handed := by
  unfold clientTx at sent
  by_cases early : (!d.doneInit) = true
  · rw [if_pos early] at sent
    cases sent
  rw [if_neg early] at sent
  by_cases short : min len bufSize < 12
  · rw [if_pos short] at sent
    cases sent
  rw [if_neg short] at sent
  obtain ⟨i, caller, sent⟩ := Option.bind_eq_some_iff.mp sent
  by_cases none : (d.clients i).numTx = 0
  · rw [if_pos none] at sent
    cases sent
  rw [if_neg none] at sent
  obtain ⟨called, calls, sent⟩ := Option.bind_eq_some_iff.mp sent
  have popped : (d.setClient i { d.clients i with numTx := (d.clients i).numTx - 1 }).memory =
      d.memory := setClient_memory rfl
  have filled := fillTx_memory (d.setClient i { d.clients i with numTx := (d.clients i).numTx - 1 })
    (d.top i) (d.clients i) (min len bufSize).toNat
  have after : d'.memory = called.memory := by
    cases sent
    split
    · exact setClient_memory rfl
    · rfl
  have whole := (after.trans (ethTxCompletes_memory calls)).trans filled
  have answer : handed = (((d.setClient i { d.clients i with
      numTx := (d.clients i).numTx - 1 }).fillTx (d.top i) (d.clients i)
        (min len bufSize).toNat)).2 := by
    cases sent
    rfl
  rw [popped] at whole
  have contents : handed.contents = bytes
      (stampSource (d.clients i).dataport (d.clients i).mac) (min len bufSize).toNat := by
    rw [answer]
    exact bytes_stampSource _ _ _ _
  refine ⟨i, caller, ?_, ?_, ?_, ?_, contents, ?_, ?_, ?_⟩
  · omega
  · omega
  · rw [answer]
    rfl
  · rw [answer]
    exact congrArg EthBuf.phys (congrFun popped (d.top i))
  · rw [whole, Function.update_self, contents]
    exact bytes_stampSource _ _ _ _
  · rw [whole, Function.update_self]
  · intro frame other
    rw [whole, Function.update_of_ne other]

/-! ## The system -/

def Event.sends : Event → Bool
  | .tx _ _ _ _ => true
  | .initDone | .allocate _ | .receive _ _ | .rxComplete _ | .txComplete _ | .poke _ _ | .rx _ => false

theorem allowed_of_sending {s : System} {event : Event} (other : event.sends = false)
    (allowed : s.allowedSending event) : s.allowed event := by
  cases event with
  | tx => cases other
  | initDone | allocate | receive | rxComplete | txComplete | poke | rx => exact allowed

theorem stepSending_eq {config : Config} {s : System} {event : Event} (other : event.sends = false) :
    s.stepSending config event = s.step config event := by
  cases event with
  | tx => cases other
  | initDone | allocate | receive | rxComplete | txComplete | poke | rx => rfl

theorem System.KeepsTx.memory {s s' : System} (keeps : s.KeepsTx s') :
    s'.driver.memory = s.driver.memory := by
  funext frame
  rw [Driver.memory, Driver.memory, (keeps.tx frame.client).txMem]

theorem step_memory {config : Config} {s s' : System} {event : Event} {result : Result}
    (rx : s.Conserved config) (other : event.sends = false) (allowed : s.allowed event)
    (step : s.step config event = some (s', result)) : s'.driver.memory = s.driver.memory := by
  cases event with
  | initDone => exact (initDone_keepsTx rx step).memory
  | allocate | receive | rxComplete | poke | rx =>
    exact (rx.keepsTx (by trivial) allowed step).memory
  | txComplete frame =>
    obtain ⟨driver, completed, same⟩ := Option.bind_eq_some_iff.mp step
    cases same
    exact ethTxComplete_memory completed
  | tx => cases other

theorem step_ne_tx {config : Config} {s s' : System} {event : Event} {ret : TxReturn}
    {handed : Option Handed} (other : event.sends = false) :
    s.step config event ≠ some (s', .tx ret handed) := by
  intro step
  cases event with
  | initDone =>
    obtain ⟨_, _, same⟩ := Option.bind_eq_some_iff.mp step
    cases same
  | allocate size =>
    rw [System.step] at step
    split at step
    cases step
  | receive | poke => cases step
  | rxComplete bufs =>
    obtain ⟨_, _, same⟩ := Option.bind_eq_some_iff.mp step
    cases same
  | txComplete frame =>
    obtain ⟨_, _, same⟩ := Option.bind_eq_some_iff.mp step
    cases same
  | rx id =>
    obtain ⟨_, _, found⟩ := Option.bind_eq_some_iff.mp step
    obtain ⟨_, _, same⟩ := Option.bind_eq_some_iff.mp found
    cases same
  | tx => cases other

/-- Every frame is free or in flight, in its own buffer. -/
structure System.Intact (config : Config) (s : System) : Prop where
  conserved : s.Conserved config
  wf : s.TxWf
  frames : s.TxConserved
  addresses : s.driver.Addresses config
  phys : ∀ frame, (s.driver.memory frame).phys = config.txPhys frame

theorem init_intact (config : Config) : (System.init config).Intact config :=
  ⟨.init config, .init config, .init config, init_addresses config, fun _ => rfl⟩

theorem System.Intact.other {config : Config} {s s' : System} {event : Event} {result : Result}
    (intact : s.Intact config) (other : event.sends = false) (allowed : s.allowed event)
    (step : s.step config event = some (s', result)) : s'.Intact config := by
  have kept : s.slotKept event := by
    cases event with
    | tx => cases other
    | initDone | allocate | receive | rxComplete | txComplete | poke | rx => trivial
  refine ⟨intact.conserved.step allowed step, intact.wf.step intact.conserved allowed step, ?_,
    intact.conserved.addresses intact.addresses allowed step, fun frame => ?_⟩
  · exact (step_conserves_iff intact.conserved intact.wf intact.frames allowed step).mpr kept
  · rw [step_memory intact.conserved other allowed step]
    exact intact.phys frame

section
variable {config : Config} {s s' : System} {id : Nat} {len : Int} {completed : List TxPtr}
  {outcome : RawTx} {result : Result}

theorem stepSending_tx (conserved : s.Conserved config) (wf : s.driver.TxWf)
    (step : s.stepSending config (.tx id len completed outcome) = some (s', result)) :
    (s' = s ∧ ∃ ret, result = .tx ret none) ∨
    ∃ i d' ret handed, ethGetClient s.driver id = some i ∧ s.driver.sends i len ∧
      s.driver.Called d' i completed outcome ∧ s.driver.Sent d' i len handed ∧
      s.driver.Untouched d' ∧ result = .tx ret (some handed) ∧
      s' = ⟨d', s.device,
        ((if outcome = .enqueued then [s.driver.top i] else []) ++ s.inFlight).diff completed⟩ := by
  obtain ⟨⟨d', ret, handed⟩, sent, same⟩ := Option.bind_eq_some_iff.mp step
  cases same
  cases handed with
  | none =>
    rcases clientTx_called wf sent with ⟨_, rfl, _⟩ | ⟨_, _, _, _, absent, _⟩
    · exact .inl ⟨rfl, ret, rfl⟩
    · cases absent
  | some handed =>
    obtain ⟨j, found, contents⟩ := clientTx_sent sent
    rcases clientTx_called wf sent with ⟨_, _, absent⟩ | ⟨i, frame, caller, sends, here, top, called⟩
    · cases absent
    · cases here
      cases caller.symm.trans found
      refine .inr ⟨j, d', ret, handed, caller, sends, called, contents,
        clientTx_untouched conserved.wf sent, rfl, ?_⟩
      simp only [Option.isSome_some, if_true, Option.toList_some, List.map_cons, List.map_nil, top]

theorem enqueued_conserves {d' : Driver} {i : Nat} (conserved : s.TxConserved)
    (wf : s.driver.TxWf) (called : s.driver.Called d' i completed .enqueued)
    (held : completed.Subperm (s.driver.top i :: s.inFlight)) :
    System.TxConserved ⟨d', s.device, (s.driver.top i :: s.inFlight).diff completed⟩ := by
  have own : (s.driver.top i).client = i := wf.slots i _
  obtain ⟨rest, before, after⟩ := called.caller
  intro c bound
  rw [called.numClients] at bound
  have whole := (conserved c bound).frames
  apply partition_of_perm
  have back := ofClient_diff held c
  by_cases here : c = i
  · subst here
    have taken : ofClient c (s.driver.top c :: s.inFlight) =
        s.driver.top c :: ofClient c s.inFlight := by simp [ofClient, own]
    rw [before] at whole
    rw [taken] at back
    simp only [ne_eq, not_true_eq_false, if_false, List.append_nil] at after
    rw [after, List.append_assoc]
    refine (back.append_left rest).trans ?_
    rw [List.append_assoc] at whole
    exact whole
  · have taken : ofClient c (s.driver.top i :: s.inFlight) = ofClient c s.inFlight := by
      simp [ofClient, own, Ne.symm here]
    rw [taken] at back
    rw [called.others c here, List.append_assoc]
    exact (back.append_left _).trans whole

theorem refused_conserves {d' : Driver} {i : Nat} (conserved : s.TxConserved)
    (client : i < s.driver.numClients) (wf : s.driver.TxWf) (refused : outcome ≠ .enqueued)
    (called : s.driver.Called d' i [] outcome) :
    System.TxConserved ⟨d', s.device, s.inFlight⟩ := by
  have whole := called_conserves conserved client wf List.nil_subperm called
  rw [if_neg refused, List.nil_append, List.diff_nil] at whole
  exact whole.mpr fun _ => rfl

theorem System.Intact.sends (intact : s.Intact config)
    (allowed : s.allowedSending (.tx id len completed outcome))
    (step : s.stepSending config (.tx id len completed outcome) = some (s', result)) :
    s'.Intact config := by
  rcases stepSending_tx intact.conserved intact.wf.driver step with
    ⟨rfl, _⟩ | ⟨i, d', ret, handed, caller, sends, called, sent, untouched, rfl, rfl⟩
  · exact intact
  obtain ⟨_, quiet, held⟩ := allowed
  have handing : s.driver.handing id len = [s.driver.top i] := by
    simp only [Driver.handing, caller, if_pos sends]
  rw [handing] at held
  have own : (s.driver.top i).client = i := intact.wf.driver.slots i _
  have client := (ethGetClient_lt caller).1
  refine ⟨intact.conserved.untouched untouched _, ⟨called.wf, fun frame member => ?_⟩, ?_,
    intact.addresses.sameSetup untouched.setup, fun frame => ?_⟩
  · rw [called.numClients]
    rcases List.mem_append.mp (List.diff_subset _ _ member) with top | left
    · split at top
      · rw [List.mem_singleton.mp top, own]
        exact client
      · cases top
    · exact intact.wf.inFlight frame left
  · by_cases enqueued : outcome = .enqueued
    · subst enqueued
      exact enqueued_conserves intact.frames intact.wf.driver called held
    · obtain rfl := quiet enqueued
      rw [if_neg enqueued, List.nil_append, List.diff_nil]
      exact refused_conserves intact.frames client intact.wf.driver enqueued called
  · by_cases top : frame = s.driver.top i
    · rw [top]
      exact sent.same.trans (intact.phys _)
    · rw [sent.others frame top]
      exact intact.phys frame

end

theorem run_intact {config : Config} {trace : List (Event × Result)} {s : System}
    (run : (sending config).Run (System.init config) trace s) : s.Intact config := by
  apply run.invariant (init_intact config)
  intro before event after result intact allowed step
  cases other : event.sends with
  | false =>
    exact intact.other other (allowed_of_sending other allowed)
      ((stepSending_eq other).symm.trans step)
  | true =>
    cases event with
    | tx => exact intact.sends allowed step
    | initDone | allocate | receive | rxComplete | txComplete | poke | rx => cases other

/-- The frame lies in one of the client's own buffers and holds the first `n` bytes of its dataport,
with its own address as the source. -/
structure Faithful (config : Config) (before after : System) (i n : Nat) (handed : Handed) :
    Prop where
  short : 12 ≤ n
  long : n ≤ bufSize
  frame : handed.frame ∈ framesOf i
  phys : handed.phys = config.txPhys handed.frame
  contents : handed.contents =
    bytes (stampSource (before.driver.clients i).dataport (config.macOf i)) n
  stored : bytes (after.driver.memory handed.frame).buf n = handed.contents

/-- What one step does with transmit buffers: those in flight are left alone, and what is handed over
is the caller's. -/
structure TransmitsWell (config : Config) (before : System) (event : Event) (after : System)
    (result : Result) : Prop where
  inFlight : ∀ frame ∈ before.inFlight, after.driver.memory frame = before.driver.memory frame
  handed : ∀ ret handed, result = .tx ret (some handed) →
    ∃ id len completed outcome i, event = .tx id len completed outcome ∧
      ethGetClient before.driver id = some i ∧
      Faithful config before after i (min len bufSize).toNat handed ∧
      (outcome = .enqueued → handed.frame ∉ completed → handed.frame ∈ after.inFlight)

theorem System.Intact.transmitsWell {config : Config} {s s' : System} {event : Event}
    {result : Result} (intact : s.Intact config) (allowed : s.allowedSending event)
    (step : s.stepSending config event = some (s', result)) :
    TransmitsWell config s event s' result := by
  cases other : event.sends with
  | false =>
    have allowed' := allowed_of_sending other allowed
    have step' := (stepSending_eq other).symm.trans step
    refine ⟨fun frame _ => by rw [step_memory intact.conserved other allowed' step'], ?_⟩
    rintro ret handed rfl
    exact absurd step' (step_ne_tx other)
  | true =>
    cases event with
    | tx id len completed outcome =>
      rcases stepSending_tx intact.conserved intact.wf.driver step with
        ⟨rfl, ret, rfl⟩ | ⟨i, d', ret, handed, caller, sends, called, sent, _, rfl, rfl⟩
      · exact ⟨fun _ _ => rfl, fun _ _ same => by cases same⟩
      have own : (s.driver.top i).client = i := intact.wf.driver.slots i _
      have client := (ethGetClient_lt caller).1
      have free : s.driver.top i ∈ (s.driver.clients i).free := by
        obtain ⟨rest, before, _⟩ := called.caller
        rw [before]
        exact List.mem_append_right _ (List.mem_singleton_self _)
      have apart := (intact.frames i client).next_not_in_flight sends.2.2
      refine ⟨fun frame member => ?_, fun ret' handed' same => ?_⟩
      · apply sent.others
        rintro rfl
        exact apart (List.mem_filter.mpr ⟨member, decide_eq_true own⟩)
      · cases same
        refine ⟨id, len, completed, outcome, i, rfl, caller,
          ⟨sent.short, sent.long, ?_, ?_, ?_, ?_⟩, fun enqueued absent => ?_⟩
        · rw [sent.frame]
          exact (intact.frames i client).frames.subset (List.mem_append_left _ free)
        · rw [sent.phys, sent.frame]
          exact intact.phys _
        · rw [sent.contents, intact.addresses sends.1]
        · rw [sent.frame]
          exact sent.stored
        · rw [if_pos enqueued, sent.frame]
          rw [sent.frame] at absent
          exact List.mem_diff_of_mem (List.mem_cons_self ..) absent
    | initDone | allocate | receive | rxComplete | txComplete | poke | rx => cases other

/-- In every run the device is given what the clients send under their own addresses, and no buffer
is written while its frame is in flight. -/
theorem tx_integrity {config : Config} {trace : List (Event × Result)} {s : System}
    (run : (sending config).Run (System.init config) trace s) :
    (sending config).EveryStep (System.init config) trace fun before event => ∀ after result,
      (sending config).step before event = some (after, result) →
        TransmitsWell config before event after result := by
  refine run.everyStep fun early before event reached allowed after result step => ?_
  exact (run_intact reached).transmitsWell allowed step

/-- The device completes the frame before it has returned from taking it. -/
theorem tx_integrity_eager : ∃ trace s,
    (sending loneClient).Run (System.init loneClient) trace s ∧ s.inFlight = [] ∧
    (sending loneClient).EveryStep (System.init loneClient) trace fun before event =>
      ∀ after result, (sending loneClient).step before event = some (after, result) →
        TransmitsWell loneClient before event after result := by
  have first : (sending loneClient).Run (System.init loneClient) [] _ := .start
  have ready := first.on .initDone rfl rfl
  have written := ready.on (.poke 0 fun i => UInt8.ofNat i) Nat.zero_lt_one rfl
  have sent := written.on (.tx 1 64 [⟨0, 127⟩] .enqueued)
    ⟨⟨0, by decide, rfl⟩, nofun, List.Subperm.refl _⟩ rfl
  exact ⟨_, _, sent, rfl, tx_integrity sent⟩

end GlobalComponents.Ethdriver
