import GlobalComponents.TimeServer.Server

/-! The timers of a client are its own.

A token packs a client and a timer into one number. With fewer than `2 ^ 31` timers in all nothing wraps
around, so division and remainder give both back, and the time manager only ever calls back for such
tokens.
-/

set_option autoImplicit false

namespace GlobalComponents.TimeServer

open Library

/-- The number of all timers is an `int`, and an `unsigned long` has 32 bits or more. -/
structure Config.Valid (config : Config) : Prop where
  clients : 0 ≤ config.largestBadge.toInt
  product : config.largestBadge.toInt * config.timersPerClient.toInt < 2 ^ 31
  word : 32 ≤ config.wordBits

/-- The client ids that the badges stand for. -/
def Config.IsClient (config : Config) (cid : Int32) : Prop :=
  0 ≤ cid.toInt ∧ cid.toInt < config.largestBadge.toInt

/-- The timer ids that the entry points accept. -/
def Config.IsTimer (config : Config) (tid : Int32) : Prop := invalidTid config tid = false

theorem Config.isTimer_iff {config : Config} {tid : Int32} :
    config.IsTimer tid ↔ 0 ≤ tid.toInt ∧ tid.toInt < config.timersPerClient.toInt := by
  rw [IsTimer, invalidTid, Bool.or_eq_false_iff, decide_eq_false_iff_not, decide_eq_false_iff_not,
    Int32.le_iff_toInt_le, Int32.lt_iff_toInt_lt, Int32.toInt_zero]
  omega

theorem toNat_toUInt32 {x : Int32} (positive : 0 ≤ x.toInt) : x.toUInt32.toNat = x.toInt.toNat :=
  Int32.toNat_toUInt32_of_le (Int32.le_iff_toInt_le.mpr positive)

theorem toInt_of_toNat {x : UInt32} (small : x.toNat < 2 ^ 31) : x.toInt32.toInt = x.toNat :=
  BitVec.toInt_eq_toNat_of_lt (x := x.toBitVec) (by
    change 2 * x.toNat < 2 ^ 32
    omega)

section
variable {config : Config} {cid tid : Int32}

theorem token_lt (client : config.IsClient cid) (timer : config.IsTimer tid) :
    cid.toInt * config.timersPerClient.toInt + tid.toInt <
      config.largestBadge.toInt * config.timersPerClient.toInt := by
  obtain ⟨start, above⟩ := Config.isTimer_iff.mp timer
  have next : cid.toInt + 1 ≤ config.largestBadge.toInt := client.2
  have row := Int.mul_le_mul_of_nonneg_right next (by omega : 0 ≤ config.timersPerClient.toInt)
  rw [Int.add_mul, Int.one_mul] at row
  omega

theorem getTimeToken_toNat (valid : config.Valid) (client : config.IsClient cid)
    (timer : config.IsTimer tid) :
    ((getTimeToken config cid tid).toNat : Int) =
      cid.toInt * config.timersPerClient.toInt + tid.toInt := by
  obtain ⟨start, above⟩ := Config.isTimer_iff.mp timer
  have bound := (token_lt client timer).trans valid.product
  have timers : 0 ≤ config.timersPerClient.toInt := by omega
  have product : 0 ≤ cid.toInt * config.timersPerClient.toInt := Int.mul_nonneg client.1 timers
  have left : ((cid.toInt.toNat * config.timersPerClient.toInt.toNat : Nat) : Int) =
      cid.toInt * config.timersPerClient.toInt := by
    rw [Int.natCast_mul, Int.toNat_of_nonneg client.1, Int.toNat_of_nonneg timers]
  have right : ((tid.toInt.toNat : Nat) : Int) = tid.toInt := Int.toNat_of_nonneg start
  rw [getTimeToken, UInt32.toNat_add, UInt32.toNat_mul, toNat_toUInt32 client.1,
    toNat_toUInt32 timers, toNat_toUInt32 start, Nat.mod_add_mod, Nat.mod_eq_of_lt (by omega)]
  omega

/-- `post_init` has allocated the id. -/
theorem getTimeToken_lt (valid : config.Valid) (client : config.IsClient cid)
    (timer : config.IsTimer tid) :
    ((getTimeToken config cid tid).toNat : Int) < (numTimers config).toInt := by
  obtain ⟨start, above⟩ := Config.isTimer_iff.mp timer
  have positive := Int.mul_nonneg valid.clients (by omega : 0 ≤ config.timersPerClient.toInt)
  have product := valid.product
  rw [numTimers, Int32.toInt_mul, Int.mul_comm, Int.bmod_eq_of_le (by omega) (by omega),
    getTimeToken_toNat valid client timer]
  exact token_lt client timer

/-- What the callback makes of the token. -/
theorem token_decode (valid : config.Valid) (client : config.IsClient cid)
    (timer : config.IsTimer tid) :
    tokenInt (getTimeToken config cid tid).toUInt64 / config.timersPerClient = cid ∧
      tokenInt (getTimeToken config cid tid).toUInt64 % config.timersPerClient = tid := by
  obtain ⟨start, above⟩ := Config.isTimer_iff.mp timer
  have token := getTimeToken_toNat valid client timer
  have bound := (token_lt client timer).trans valid.product
  have timers : 1 ≤ config.timersPerClient.toInt := by omega
  have whole : (tokenInt (getTimeToken config cid tid).toUInt64).toInt =
      cid.toInt * config.timersPerClient.toInt + tid.toInt := by
    rw [tokenInt, UInt32.toUInt32_toUInt64, toInt_of_toNat (by omega), token]
  have positive : 0 ≤ cid.toInt * config.timersPerClient.toInt + tid.toInt := by omega
  constructor
  · apply Int32.toInt_inj.mp
    rw [Int32.toInt_div, whole, Int.tdiv_eq_ediv_of_nonneg positive, Int.add_comm,
      Int.add_mul_ediv_right _ _ (by omega), Int.ediv_eq_zero_of_lt start above, Int.zero_add]
    exact Int.bmod_eq_of_le (by have := cid.le_toInt; omega) (by have := cid.toInt_lt; omega)
  · apply Int32.toInt_inj.mp
    rw [Int32.toInt_mod, whole, Int.tmod_eq_emod_of_nonneg positive, Int.add_comm,
      Int.add_mul_emod_self_right, Int.emod_eq_of_lt start above]

theorem getTimeToken_inj (valid : config.Valid) {cid' tid' : Int32}
    (client : config.IsClient cid) (timer : config.IsTimer tid)
    (client' : config.IsClient cid') (timer' : config.IsTimer tid')
    (same : getTimeToken config cid tid = getTimeToken config cid' tid') :
    cid = cid' ∧ tid = tid' := by
  obtain ⟨here, own⟩ := token_decode valid client timer
  obtain ⟨there, other⟩ := token_decode valid client' timer'
  rw [same] at here own
  exact ⟨here.symm.trans there, own.symm.trans other⟩

end

/-- The word of a client takes the bit of the timer, and then the client is notified. -/
structure Fired (config : Config) (s after : Server) (cid tid : Int32) : Prop where
  state : after.clientState = Function.update s.clientState cid.toInt.toNat
    (s.clientState cid.toInt.toNat ||| (bit config tid).toUInt32)
  emitted : after.emitted =
    s.emitted ++ [⟨(cid + 1).toUInt32, after.clientState cid.toInt.toNat⟩]

theorem badge_inj {cid other : Int32} (same : (cid + 1).toUInt32 = (other + 1).toUInt32) :
    cid = other := by
  have whole := congrArg UInt32.toInt32 same
  rw [Int32.toInt32_toUInt32, Int32.toInt32_toUInt32] at whole
  exact (Int32.add_left_inj 1).mp whole

structure View where
  completed : UInt32
  timers : Int32 → Option Registration
  notifications : List Emission

def Server.view (config : Config) (s : Server) (cid : Int32) : View where
  completed := s.clientState cid.toInt.toNat
  timers tid := if invalidTid config tid then none
    else s.registered (getTimeToken config cid tid).toNat
  notifications := s.emitted.filter fun emission => emission.badge = (cid + 1).toUInt32

/-- A call is on behalf of its sender, a firing on behalf of the client of the timer. -/
def Event.onBehalfOf (config : Config) (cid : Int32) : Event → Prop
  | .call senderId _ => clientId senderId = cid
  | .fire id => ∃ tid, config.IsTimer tid ∧ id = (getTimeToken config cid tid).toNat

/-- The time manager has callbacks for timers of clients, each with the token of its id. -/
def TokensMatch (config : Config) (s : Server) : Prop :=
  ∀ id registration, s.registered id = some registration → ∃ cid tid, config.IsClient cid ∧
    config.IsTimer tid ∧ id = (getTimeToken config cid tid).toNat ∧
      registration.token = (getTimeToken config cid tid).toUInt64

section
variable {config : Config} {s after : Server} {cid tid : Int32}

theorem signalClient_spec (valid : config.Valid) (client : config.IsClient cid)
    (timer : config.IsTimer tid) :
    ∃ after, signalClient config s (getTimeToken config cid tid).toUInt64 = some after ∧
      Fired config s after cid tid ∧ after.registered = s.registered := by
  obtain ⟨here, own⟩ := token_decode valid client timer
  have within : ¬(cid < 0 ∨ config.largestBadge ≤ cid) := by
    rw [Int32.lt_iff_toInt_lt, Int32.le_iff_toInt_le, Int32.toInt_zero]
    have := client.1
    have := client.2
    omega
  rw [signalClient, here, own]
  simp only [if_neg within]
  exact ⟨_, rfl, ⟨rfl, by simp⟩, rfl⟩

theorem Fired.view (fired : Fired config s after cid tid)
    (client : config.IsClient cid) {other : Int32} (client' : config.IsClient other)
    (different : other ≠ cid) (registered : after.registered = s.registered) :
    after.view config other = s.view config other := by
  have apart : other.toInt.toNat ≠ cid.toInt.toNat := by
    intro same
    apply different
    apply Int32.toInt_inj.mp
    have := client.1
    have := client'.1
    omega
  have badge : (cid + 1).toUInt32 ≠ (other + 1).toUInt32 := fun same =>
    different (badge_inj same).symm
  rw [Server.view, Server.view, fired.state, Function.update_of_ne apart, registered, fired.emitted,
    List.filter_append, List.filter_cons_of_neg (by simpa using badge), List.filter_nil,
    List.append_nil]

theorem view_register (valid : config.Valid) (client : config.IsClient cid)
    (timer : config.IsTimer tid) {other : Int32} (client' : config.IsClient other)
    (different : other ≠ cid) (registration : Option Registration) :
    Server.view config
      { s with
        registered :=
          Function.update s.registered (getTimeToken config cid tid).toNat registration } other =
        s.view config other := by
  have timers : ∀ tid', (if invalidTid config tid' then none else
      Function.update s.registered (getTimeToken config cid tid).toNat registration
        (getTimeToken config other tid').toNat) =
      if invalidTid config tid' then none
      else s.registered (getTimeToken config other tid').toNat := by
    intro tid'
    by_cases accepted : invalidTid config tid' = true
    · rw [if_pos accepted, if_pos accepted]
    · rw [if_neg accepted, if_neg accepted, Function.update_of_ne]
      intro same
      have timer' : config.IsTimer tid' := by simpa [Config.IsTimer] using accepted
      exact different (getTimeToken_inj valid client' timer' client timer
        (UInt32.toNat_inj.mp same)).1
  rw [Server.view, Server.view]
  simp only [timers]

/-- What a step on behalf of one client does. -/
structure Isolated (config : Config) (s : Server) (event : Event) (cid : Int32) : Prop where
  others : ∀ after reply, s.step config event = some (after, reply) → ∀ other,
    config.IsClient other → other ≠ cid → after.view config other = s.view config other
  fires : ∀ tid, config.IsTimer tid → event = .fire (getTimeToken config cid tid).toNat →
    ∃ after, s.step config event = some (after, .none) ∧ Fired config s after cid tid
  clears : ∀ senderId, event = .call senderId .completed → s.step config event =
    some (⟨Function.update s.clientState cid.toInt.toNat 0, s.registered, s.emitted⟩,
      .word (s.clientState cid.toInt.toNat))

theorem TokensMatch.update (tokens : TokensMatch config s) {id : Nat}
    {registration : Option Registration}
    (updated : after.registered = Function.update s.registered id registration)
    (own : ∀ found, registration = some found → ∃ cid tid, config.IsClient cid ∧
      config.IsTimer tid ∧ id = (getTimeToken config cid tid).toNat ∧
        found.token = (getTimeToken config cid tid).toUInt64) : TokensMatch config after := by
  intro other found held
  rw [updated] at held
  by_cases here : other = id
  · subst here
    rw [Function.update_self] at held
    exact own found held
  · rw [Function.update_of_ne here] at held
    exact tokens other found held

theorem clientId_toInt {senderId : UInt64}
    (allowed : 1 ≤ senderId ∧ senderId.toNat ≤ config.largestBadge.toInt) :
    (clientId senderId).toInt = senderId.toNat - 1 := by
  have small := config.largestBadge.toInt_lt
  have first : 1 ≤ senderId.toNat := UInt64.le_iff_toNat_le.mp allowed.1
  have value : (senderId - 1).toNat = senderId.toNat - 1 := UInt64.toNat_sub_of_le _ _ allowed.1
  have word : (senderId - 1).toUInt32.toNat = senderId.toNat - 1 := by
    rw [UInt64.toNat_toUInt32, value, Nat.mod_eq_of_lt (by omega)]
  rw [clientId, toInt_of_toNat (by omega), word]
  omega

theorem isClient_of_permits {senderId : UInt64} {call : Call}
    (allowed : s.permits config (.call senderId call)) : config.IsClient (clientId senderId) := by
  have value := clientId_toInt allowed
  have first : 1 ≤ senderId.toNat := UInt64.le_iff_toNat_le.mp allowed.1
  have last := allowed.2
  exact ⟨by omega, by omega⟩

theorem completed_spec (client : config.IsClient cid) : completed config s cid =
    some (⟨Function.update s.clientState cid.toInt.toNat 0, s.registered, s.emitted⟩,
      s.clientState cid.toInt.toNat) := by
  have within : ¬(cid < 0 ∨ config.largestBadge ≤ cid) := by
    rw [Int32.lt_iff_toInt_lt, Int32.le_iff_toInt_le, Int32.toInt_zero]
    have := client.1
    have := client.2
    omega
  rw [completed, if_neg within]

theorem completed_view (client : config.IsClient cid) {other : Int32}
    (client' : config.IsClient other) (different : other ≠ cid) :
    Server.view config ⟨Function.update s.clientState cid.toInt.toNat 0, s.registered, s.emitted⟩
      other = s.view config other := by
  have apart : other.toInt.toNat ≠ cid.toInt.toNat := by
    intro same
    apply different
    apply Int32.toInt_inj.mp
    have := client.1
    have := client'.1
    omega
  simp only [Server.view, Function.update_of_ne apart]

/-- What a call of a client does: nothing, or it changes a registration of its own, or its timer is
late, or it takes its word. -/
inductive CallStep (config : Config) (s : Server) (cid : Int32) :
    Call → Server → Reply → Prop where
  | refused {call : Call} : (∀ tid, call ≠ .oneshotAbsolute tid .etime ∨ ¬config.IsTimer tid) →
      call ≠ .completed → CallStep config s cid call s (.int (-1))
  | registered {call : Call} {tid : Int32} (registration : Option Registration) :
      (∀ tid, call ≠ .oneshotAbsolute tid .etime) → call ≠ .completed → config.IsTimer tid →
      (∀ found, registration = some found →
        found.token = (getTimeToken config cid tid).toUInt64) →
      CallStep config s cid call
        ⟨s.clientState,
          Function.update s.registered (getTimeToken config cid tid).toNat registration, s.emitted⟩
        (.int 0)
  | late {tid : Int32} {after : Server} : config.IsTimer tid → Fired config s after cid tid →
      after.registered = s.registered →
      CallStep config s cid (.oneshotAbsolute tid .etime) after (.int 0)
  | collected : CallStep config s cid .completed
      ⟨Function.update s.clientState cid.toInt.toNat 0, s.registered, s.emitted⟩
      (.word (s.clientState cid.toInt.toNat))

theorem theTimer_spec {senderId : UInt64} {call : Call} {reply : Reply} (valid : config.Valid)
    (client : config.IsClient (clientId senderId))
    (done : theTimer config s senderId call = some (after, reply)) :
    CallStep config s (clientId senderId) call after reply := by
  cases call with
  | oneshotRelative tid error =>
    obtain ⟨⟨_, _⟩, called, same⟩ := Option.map_eq_some_iff.mp done
    cases same
    rw [oneshotRelative] at called
    split at called
    · cases called
      exact .refused (fun _ => .inl (by simp)) (by simp)
    · next accepted =>
      dsimp only at called
      split at called
      · cases called
      · cases called
        exact .registered (some _) (by simp) (by simp) (by simpa [Config.IsTimer] using accepted)
          fun found same => by cases same; rfl
  | oneshotAbsolute tid result =>
    obtain ⟨⟨_, _⟩, called, same⟩ := Option.map_eq_some_iff.mp done
    cases same
    rw [oneshotAbsolute] at called
    split at called
    · next refused =>
      cases called
      refine .refused (fun tid' => ?_) (by simp)
      by_cases here : tid' = tid
      · right
        simp [Config.IsTimer, here, refused]
      · exact .inl fun same => here (by cases same; rfl)
    · next accepted =>
      have timer : config.IsTimer tid := by simpa [Config.IsTimer] using accepted
      cases result with
      | ok =>
        cases called
        exact .registered (some _) (by simp) (by simp) timer fun found same => by cases same; rfl
      | etime =>
        -- the timeout has passed already: the callback is made up at once
        obtain ⟨fired, signal, spec, kept⟩ := signalClient_spec (s := s) valid client timer
        dsimp only at called
        rw [signal] at called
        cases called
        exact .late timer spec kept
      | error => cases called
  | periodic tid error =>
    obtain ⟨⟨_, _⟩, called, same⟩ := Option.map_eq_some_iff.mp done
    cases same
    rw [periodic] at called
    split at called
    · cases called
      exact .refused (fun _ => .inl (by simp)) (by simp)
    · next accepted =>
      dsimp only at called
      split at called
      · cases called
      · cases called
        exact .registered (some _) (by simp) (by simp) (by simpa [Config.IsTimer] using accepted)
          fun found same => by cases same; rfl
  | stop tid error =>
    obtain ⟨⟨_, _⟩, called, same⟩ := Option.map_eq_some_iff.mp done
    cases same
    rw [stop] at called
    split at called
    · cases called
      exact .refused (fun _ => .inl (by simp)) (by simp)
    · next accepted =>
      split at called
      · cases called
      · cases called
        exact .registered none (by simp) (by simp) (by simpa [Config.IsTimer] using accepted)
          fun found same => by cases same
  | completed =>
    obtain ⟨⟨_, _⟩, called, same⟩ := Option.map_eq_some_iff.mp done
    rw [completed_spec client] at called
    cases called
    cases same
    exact .collected

theorem CallStep.others {call : Call} {reply : Reply} (valid : config.Valid)
    (client : config.IsClient cid) (step : CallStep config s cid call after reply)
    {other : Int32} (client' : config.IsClient other) (different : other ≠ cid) :
    after.view config other = s.view config other := by
  cases step with
  | refused => rfl
  | registered registration _ _ timer =>
    exact view_register valid client timer client' different registration
  | late _ fired kept => exact fired.view client client' different kept
  | collected => exact completed_view client client' different

theorem CallStep.tokensMatch {call : Call} {reply : Reply} (client : config.IsClient cid)
    (step : CallStep config s cid call after reply) (tokens : TokensMatch config s) :
    TokensMatch config after := by
  cases step with
  | refused => exact tokens
  | @registered _ tid registration _ _ timer token =>
    exact tokens.update rfl fun found same => ⟨cid, tid, client, timer, rfl, token found same⟩
  | late _ _ kept =>
    rw [TokensMatch, kept]
    exact tokens
  | collected => exact tokens

theorem fire_spec (valid : config.Valid) (tokens : TokensMatch config s) {id : Nat}
    (allowed : s.permits config (.fire id)) :
    ∃ cid tid after, config.IsClient cid ∧ config.IsTimer tid ∧
      id = (getTimeToken config cid tid).toNat ∧ fire config s id = some after ∧
      Fired config s after cid tid ∧ TokensMatch config after ∧
      (after.registered = s.registered ∨
        after.registered = Function.update s.registered id none) := by
  obtain ⟨registration, held⟩ := Option.ne_none_iff_exists'.mp allowed
  obtain ⟨cid, tid, client, timer, here, token⟩ := tokens id registration held
  have gone : TokensMatch config (s.deregister id) := tokens.update rfl nofun
  rw [fire, held]
  simp only [token]
  cases registration.periodic with
  | true =>
    obtain ⟨after, signal, fired, kept⟩ := signalClient_spec (s := s) valid client timer
    refine ⟨cid, tid, after, client, timer, here, signal, fired, ?_, .inl kept⟩
    rw [TokensMatch, kept]
    exact tokens
  | false =>
    obtain ⟨after, signal, fired, kept⟩ :=
      signalClient_spec (s := s.deregister id) valid client timer
    refine ⟨cid, tid, after, client, timer, here, signal, ⟨fired.state, fired.emitted⟩, ?_,
      .inr kept⟩
    rw [TokensMatch, kept]
    exact gone

theorem Fired.others (valid : config.Valid) (fired : Fired config s after cid tid)
    (client : config.IsClient cid) (timer : config.IsTimer tid) {other : Int32}
    (client' : config.IsClient other) (different : other ≠ cid)
    (registered : after.registered = s.registered ∨ after.registered =
      Function.update s.registered (getTimeToken config cid tid).toNat none) :
    after.view config other = s.view config other := by
  rcases registered with kept | gone
  · exact fired.view client client' different kept
  · have quiet : Fired config
        ⟨s.clientState, Function.update s.registered (getTimeToken config cid tid).toNat none,
          s.emitted⟩ after cid tid := ⟨fired.state, fired.emitted⟩
    rw [quiet.view client client' different gone]
    exact view_register valid client timer client' different none

theorem step_isolated (valid : config.Valid) (tokens : TokensMatch config s) {event : Event}
    (allowed : s.permits config event) :
    ∃ cid, config.IsClient cid ∧ event.onBehalfOf config cid ∧ Isolated config s event cid := by
  cases event with
  | call senderId call =>
    have client := isClient_of_permits allowed
    refine ⟨clientId senderId, client, rfl, ?_, nofun, ?_⟩
    · intro after reply done other client' different
      exact (theTimer_spec valid client done).others valid client client' different
    · intro sender same
      cases same
      rw [Server.step, theTimer, completed_spec client]
      rfl
  | fire id =>
    obtain ⟨cid, tid, after, client, timer, rfl, done, fired, _, registered⟩ :=
      fire_spec valid tokens allowed
    have step : s.step config (.fire (getTimeToken config cid tid).toNat) =
        some (after, .none) := by
      rw [Server.step, done]
      rfl
    refine ⟨cid, client, ⟨tid, timer, rfl⟩, ?_, ?_, nofun⟩
    · intro after' reply done' other client' different
      cases step.symm.trans done'
      exact fired.others valid client timer client' different registered
    · intro tid' timer' same
      have token : getTimeToken config cid tid = getTimeToken config cid tid' :=
        UInt32.toNat_inj.mp (Event.fire.inj same)
      obtain ⟨_, rfl⟩ := getTimeToken_inj valid client timer client timer' token
      exact ⟨after, step, fired⟩

theorem step_tokensMatch (valid : config.Valid) (tokens : TokensMatch config s) {event : Event}
    {reply : Reply} (allowed : s.permits config event)
    (done : s.step config event = some (after, reply)) : TokensMatch config after := by
  cases event with
  | call senderId call =>
    have client := isClient_of_permits allowed
    exact (theTimer_spec valid client done).tokensMatch client tokens
  | fire id =>
    obtain ⟨_, _, after', _, _, _, done', _, match', _⟩ := fire_spec valid tokens allowed
    rw [Server.step, done'] at done
    cases done
    exact match'

theorem run_tokensMatch (valid : config.Valid) {trace : List (Event × Reply)} {final : Server}
    (run : (machine config).Run .init trace final) : TokensMatch config final := by
  apply run.invariant
  · exact nofun
  · intro before event after reply tokens allowed step
    exact step_tokensMatch valid tokens allowed step

/-- Clients and timers have ids of their own within what `post_init` allocates, and whatever happens on
behalf of one client changes no other client's word, registrations and notifications. -/
theorem timers_isolated (valid : config.Valid) {trace : List (Event × Reply)} {final : Server}
    (run : (machine config).Run .init trace final) :
    (∀ c d t u, config.IsClient c → config.IsClient d → config.IsTimer t → config.IsTimer u →
        getTimeToken config c t = getTimeToken config d u → c = d ∧ t = u) ∧
      (∀ c t, config.IsClient c → config.IsTimer t →
        ((getTimeToken config c t).toNat : Int) < (numTimers config).toInt) ∧
      (machine config).EveryStep .init trace fun s event => ∃ c, config.IsClient c ∧
        event.onBehalfOf config c ∧ Isolated config s event c := by
  refine ⟨fun c d t u client client' timer timer' =>
    getTimeToken_inj valid client timer client' timer',
    fun c t client timer => getTimeToken_lt valid client timer, ?_⟩
  rintro early event result ⟨rest, rfl⟩ s reached
  obtain ⟨_, begun, _⟩ := run.split
  obtain ⟨before, earlier, allowed, _⟩ := begun.snoc_inv
  obtain rfl := reached.deterministic earlier
  exact step_isolated valid (run_tokensMatch valid reached) allowed

end

/-- Clients with this many timers each, on a machine with 64 bits that takes shifts modulo 64. -/
def timersFor (clients timersPerClient : Int32) : Config where
  timersPerClient := timersPerClient
  largestBadge := clients
  wordBits := 64
  overshift tid := UInt64.ofNat (2 ^ (tid.toInt % 64).toNat)

def bothClients : List Event :=
  [.call 1 (.periodic 1 false), .call 2 (.oneshotAbsolute 1 .etime), .fire 1, .call 1 .completed]

theorem timersFor_valid : (timersFor 2 2).Valid := ⟨by decide, by decide, by decide⟩

theorem permitted_run {config : Config} {events : List Event} {trace : List (Event × Reply)}
    {final : Server}
    (done : (machine config).exec (fun s event => s.permits config event) [] .init events =
      some (trace, final)) :
    (machine config).Run .init trace final ∧ trace.map Prod.fst = events := by
  have sound : ∀ (s : Server) event, decide (s.permits config event) = true →
      (machine config).allowed s event ∧ True :=
    fun s event permitted => ⟨of_decide_eq_true (p := s.permits config event) permitted, trivial⟩
  obtain ⟨run, _, same⟩ := Machine.exec_run sound .start .start done
  exact ⟨run, same⟩

theorem timers_isolated_bothClients :
    ∃ trace final, (machine (timersFor 2 2)).Run .init trace final ∧
      trace.map Prod.fst = bothClients ∧
      (machine (timersFor 2 2)).EveryStep .init trace fun s event =>
        ∃ c, (timersFor 2 2).IsClient c ∧ event.onBehalfOf (timersFor 2 2) c ∧
          Isolated (timersFor 2 2) s event c := by
  have evaluated : ((machine (timersFor 2 2)).exec
      (fun s event => s.permits (timersFor 2 2) event) [] .init bothClients).isSome = true := by
    decide +kernel
  obtain ⟨⟨trace, final⟩, done⟩ := Option.isSome_iff_exists.mp evaluated
  obtain ⟨run, events⟩ := permitted_run done
  exact ⟨trace, final, run, events, (timers_isolated timersFor_valid run).2.2⟩

end GlobalComponents.TimeServer
