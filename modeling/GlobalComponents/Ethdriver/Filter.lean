import GlobalComponents.Ethdriver.Delivery

/-! Which frames a client may see.

A frame without an addressee among the clients goes to all of them if it is a broadcast or an IP
multicast. For the latter the driver reads the byte where an IPv4 header has its destination, and never
asks whether there is an IPv4 header.
-/

set_option autoImplicit false

namespace GlobalComponents.Ethdriver

open Library

def SentTo (mac : Mac) (frame : List UInt8) : Prop := ∀ k : Fin 6, frame[k.val]? = some (mac k)

def broadcastMac : Mac := fun _ => 0xff

def IsIpv4 (frame : List UInt8) : Prop := frame[12]? = some 0x08 ∧ frame[13]? = some 0x00

/-- The destination in the IPv4 header is in `224.0.0.0/4`. -/
def Ipv4Multicast (frame : List UInt8) : Prop :=
  34 ≤ frame.length ∧ IsIpv4 frame ∧ ∃ b, frame[30]? = some b ∧ 224 ≤ b.toNat ∧ b.toNat < 240

def Config.MayObtain (config : Config) (i : Nat) (frame : List UInt8) : Prop :=
  SentTo (config.macOf i) frame ∨ SentTo broadcastMac frame ∨ Ipv4Multicast frame

/-- A frame that only passes for a multicast and is queued for some client is an IPv4 frame. Before
`server_init` has set the addresses it may also carry the address that the client is going to have,
and so has a frame that carries the address in the table, unless it is an IPv4 multicast. -/
def System.Filters (config : Config) (s : System) : Event → Prop
  | .rxComplete [(buf, len)] =>
    let mem := (s.driver.rxBufs buf).buf
    isBroadcast mem len = false → ∀ i, s.driver.Accepts [(buf, len)] i →
      (s.driver.Shared mem len →
        IsIpv4 (bytes mem len) ∨
          s.driver.doneInit = false ∧ SentTo (config.macOf i) (bytes mem len)) ∧
      (s.driver.Addressed mem len i → s.driver.doneInit = false →
        (s.driver.clients i).mac = config.macOf i ∨
          IsIpv4 (bytes mem len) ∧ isMulticast mem len = true)
  | _ => True

theorem bytes_getElem? (mem : Memory) (n k : Nat) :
    (bytes mem n)[k]? = if k < n then some (mem k) else none := by
  by_cases within : k < n
  · simp [bytes, within]
  · simp [bytes, within]

theorem sentTo_bytes {mac : Mac} {mem : Memory} {len : Nat} :
    SentTo mac (bytes mem len) ↔ 6 ≤ len ∧ ∀ k : Fin 6, mac k = mem k := by
  simp only [SentTo, bytes_getElem?]
  constructor
  · intro sent
    have long : 6 ≤ len := by
      have last := sent 5
      split at last
      · next within =>
        change 5 < len at within
        omega
      · cases last
    refine ⟨long, fun k => ?_⟩
    have here := sent k
    rw [if_pos (by omega)] at here
    exact (Option.some.inj here).symm
  · rintro ⟨long, same⟩ k
    rw [if_pos (by omega), same k]

theorem isBroadcast_iff {mem : Memory} {len : Nat} :
    isBroadcast mem len = true ↔ SentTo broadcastMac (bytes mem len) := by
  rw [sentTo_bytes, isBroadcast]
  by_cases short : len < 6
  · simp [short, Nat.not_le.mpr short]
  · simp [short, Nat.le_of_not_lt short, broadcastMac, eq_comm]

/-- The mask leaves the upper half of the first byte. -/
theorem isMulticast_iff {mem : Memory} {len : Nat} :
    isMulticast mem len = true ↔ 34 ≤ len ∧ 224 ≤ (mem 30).toNat ∧ (mem 30).toNat < 240 := by
  have masked : ∀ b < 256, (b &&& 0xf0 = 0xe0 ↔ 224 ≤ b ∧ b < 240) := by
    decide +kernel
  have low : ∀ b rest : Nat, b < 256 → (b + 2 ^ 8 * rest) &&& 0xf0 = b &&& 0xf0 := by
    intro b rest small
    have cut : (b + 2 ^ 8 * rest) &&& (2 ^ 8 - 1) = b := by
      rw [Nat.and_two_pow_sub_one_eq_mod]
      omega
    calc (b + 2 ^ 8 * rest) &&& 0xf0
        = ((b + 2 ^ 8 * rest) &&& (2 ^ 8 - 1)) &&& 0xf0 := by rw [Nat.and_assoc]; rfl
      _ = b &&& 0xf0 := by rw [cut]
  rw [isMulticast]
  dsimp only
  by_cases short : len < 14 + 16 + 4
  · rw [if_pos short]
    simp only [Bool.false_eq_true, false_iff]
    omega
  · rw [if_neg short, beq_iff_eq]
    have byte := (mem 30).toNat_lt
    have address : ∀ b c d : Nat, (mem 30).toNat + 2 ^ 8 * b + 2 ^ 16 * c + 2 ^ 24 * d =
        (mem 30).toNat + 2 ^ 8 * (b + 2 ^ 8 * c + 2 ^ 16 * d) := by
      intro b c d
      omega
    rw [address, low _ _ byte, masked _ byte]
    exact ⟨fun range => ⟨by omega, range⟩, fun both => both.2⟩

theorem Driver.Accepts.addressed {d : Driver} {buf len i : Nat} (accepts : d.Accepts [(buf, len)] i) :
    d.Addressed (d.rxBufs buf).buf len i ∨ d.Shared (d.rxBufs buf).buf len :=
  accepts.2.2.imp_right And.left

theorem Driver.Addressed.sentTo {config : Config} {d : Driver} {mem : Memory} {len i : Nat}
    (addressed : d.Addressed mem len i) (mac : (d.clients i).mac = config.macOf i) :
    SentTo (config.macOf i) (bytes mem len) := by
  rw [sentTo_bytes, ← mac]
  exact ⟨addressed.1, addressed.2.2.1⟩

theorem Driver.Shared.not_sentTo {config : Config} {d : Driver} {mem : Memory} {len i : Nat}
    (shared : d.Shared mem len) (client : i < d.numClients)
    (mac : (d.clients i).mac = config.macOf i) : ¬SentTo (config.macOf i) (bytes mem len) := by
  rw [sentTo_bytes, ← mac]
  rintro ⟨long, same⟩
  have undetected := detectClient_eq_none_iff.mpr shared.1
  rw [detectClient, if_neg (by omega), List.find?_eq_none] at undetected
  exact undetected i (List.mem_range.mpr client) (by simpa using same)

theorem ipv4Multicast_bytes {mem : Memory} {len : Nat} :
    Ipv4Multicast (bytes mem len) ↔ IsIpv4 (bytes mem len) ∧ isMulticast mem len = true := by
  rw [isMulticast_iff, Ipv4Multicast, bytes_getElem?]
  constructor
  · rintro ⟨long, ipv4, b, found, range⟩
    have long : 34 ≤ len := by simpa [bytes] using long
    rw [if_pos (by omega)] at found
    obtain rfl := Option.some.inj found
    exact ⟨ipv4, long, range⟩
  · rintro ⟨ipv4, long, range⟩
    exact ⟨by simpa [bytes] using long, ipv4, _, if_pos (by omega), range⟩

/-- The clients may see what is queued for them exactly when the frame passes the condition. -/
theorem filters_iff {config : Config} {s : System} (addresses : s.driver.Addresses config)
    {bufs : List (Nat × Nat)} :
    (∀ i, s.driver.Accepts bufs i → ∀ frame ∈ s.driver.frameBytes bufs, config.MayObtain i frame) ↔
      s.Filters config (.rxComplete bufs) := by
  match bufs with
  | [] => simp [System.Filters, Driver.frameBytes]
  | _ :: _ :: _ => simp [System.Filters, Driver.Accepts]
  | [(buf, len)] =>
    simp only [Driver.frameBytes, List.map_cons, List.map_nil, List.forall_mem_singleton,
      System.Filters]
    constructor
    · intro all directed i accepts
      have seen : SentTo (config.macOf i) (bytes (s.driver.rxBufs buf).buf len) ∨
          Ipv4Multicast (bytes (s.driver.rxBufs buf).buf len) := by
        refine (all i accepts).imp_right fun other => other.resolve_left fun broadcast => ?_
        rw [isBroadcast_iff.mpr broadcast] at directed
        cases directed
      refine ⟨fun shared => ?_, fun addressed _ => ?_⟩
      · rcases seen with own | multicast
        · refine .inr ⟨?_, own⟩
          cases ready : s.driver.doneInit with
          | false => rfl
          | true => exact absurd own (shared.not_sentTo accepts.1 (addresses ready i))
        · exact .inl multicast.2.1
      · rcases seen with own | multicast
        · refine .inl (funext fun k => ?_)
          exact (addressed.2.2.1 k).trans ((sentTo_bytes.mp own).2 k).symm
        · exact .inr (ipv4Multicast_bytes.mp multicast)
    · intro filters i accepts
      cases broadcast : isBroadcast (s.driver.rxBufs buf).buf len with
      | true => exact .inr (.inl (isBroadcast_iff.mp broadcast))
      | false =>
        obtain ⟨toAll, toOne⟩ := filters broadcast i accepts
        rcases accepts.addressed with addressed | shared
        · cases ready : s.driver.doneInit with
          | true => exact .inl (addressed.sentTo (addresses ready i))
          | false =>
            rcases toOne addressed ready with same | multicast
            · exact .inl (addressed.sentTo same)
            · exact .inr (.inr (ipv4Multicast_bytes.mpr multicast))
        · rcases toAll shared with ipv4 | ⟨_, own⟩
          · have multicast := shared.2.resolve_left (by simp [broadcast])
            exact .inr (.inr (ipv4Multicast_bytes.mpr ⟨ipv4, multicast⟩))
          · exact .inl own

/-- Obtained, or queued and so obtained by the next calls. -/
def Isolated (config : Config) (s : System × Deliveries) : Prop :=
  ∀ i < s.1.driver.numClients, ∀ frame ∈ s.2.obtained i ++ s.1.driver.view.frames i,
    config.MayObtain i frame

theorem isolated_step_iff {config : Config} {s s' : System × Deliveries} {event : Event}
    {result : Result} (delivered : Delivered config s) (addresses : s.1.driver.Addresses config)
    (allowed : s.1.allowed event) (step : (recording config).step s event = some (s', result)) :
    Isolated config s' ↔ Isolated config s ∧ s.1.Filters config event := by
  have delivered' := delivered.step allowed step
  obtain ⟨_, noted⟩ := Machine.record_step step
  have clients : s'.1.driver.numClients = s.1.driver.numClients :=
    delivered'.conserved.numClients.trans delivered.conserved.numClients.symm
  have before : Isolated config s ↔
      ∀ i < s.1.driver.numClients, ∀ frame ∈ s.2.accepted i, config.MayObtain i frame :=
    forall₂_congr fun i client => by rw [delivered.frames i client]
  have after : Isolated config s' ↔
      ∀ i < s.1.driver.numClients, ∀ frame ∈ s'.2.accepted i, config.MayObtain i frame := by
    rw [← clients]
    exact forall₂_congr fun i client => by rw [delivered'.frames i client]
  rw [before, after]
  by_cases completes : ∃ bufs, event = .rxComplete bufs
  · obtain ⟨bufs, rfl⟩ := completes
    rw [← filters_iff addresses, noted]
    simp only [Deliveries.note, List.mem_append]
    constructor
    · intro all
      refine ⟨fun i client frame member => all i client frame (.inl member),
        fun i accepts frame member => ?_⟩
      have client : i < s.1.driver.numClients := by
        cases bufs with
        | nil => cases accepts
        | cons buf rest =>
          cases rest with
          | nil => exact accepts.1
          | cons => cases accepts
      exact all i client frame (.inr (by rwa [if_pos accepts]))
    · rintro ⟨all, new⟩ i client frame (member | member)
      · exact all i client frame member
      · split at member
        · next accepts => exact new i accepts frame member
        · cases member
  · have same : s'.2.accepted = s.2.accepted := by
      rw [noted]
      cases event with
      | rxComplete bufs => exact absurd ⟨bufs, rfl⟩ completes
      | rx id => cases result <;> rfl
      | initDone | allocate | receive | txComplete | poke | tx => rfl
    have passes : s.1.Filters config event := by
      cases event with
      | rxComplete bufs => exact absurd ⟨bufs, rfl⟩ completes
      | initDone | allocate | receive | txComplete | poke | rx | tx => trivial
    rw [same]
    exact ⟨fun all => ⟨all, passes⟩, And.left⟩

theorem run_delivered {config : Config} {trace : List (Event × Result)} {s : System × Deliveries}
    (run : (recording config).Run (System.init config, .none) trace s) :
    Delivered config s ∧ s.1.driver.Addresses config := by
  apply run.invariant
  · refine ⟨⟨.init config, fun i _ => ?_⟩, init_addresses config⟩
    have empty : (System.init config).driver.view.queues i = [] :=
      (pending_eq_nil_iff (System.Conserved.init config).wf i).mpr rfl
    simp [Deliveries.none, RxView.frames, empty]
  · rintro before event after result ⟨delivered, addresses⟩ allowed step
    exact ⟨delivered.step allowed step, delivered.conserved.addresses addresses allowed
      (Machine.record_step step).1⟩

theorem init_isolated (config : Config) : Isolated config (System.init config, .none) := by
  intro i client frame member
  have empty : (System.init config).driver.view.queues i = [] :=
    (pending_eq_nil_iff (System.Conserved.init config).wf i).mpr rfl
  simp [Deliveries.none, RxView.frames, empty] at member

/-- Clients only see frames that they may see exactly when every completion passes the filter's
condition. -/
theorem rx_isolated_iff {config : Config} {trace : List (Event × Result)} {s : System × Deliveries}
    (run : (recording config).Run (System.init config, .none) trace s) :
    ((recording config).Always (System.init config, .none) trace (Isolated config) ↔
      (recording config).EveryStep (System.init config, .none) trace
        fun s => s.1.Filters config) ∧
    ((recording config).EveryStep (System.init config, .none) trace
        (fun s => s.1.Filters config) →
      ∀ i < s.1.driver.numClients, ∀ frame ∈ s.2.obtained i, config.MayObtain i frame) := by
  let Known := fun s : System × Deliveries =>
    (Delivered config s ∧ s.1.driver.Addresses config) ∧ Isolated config s
  have enough : ∀ {trace : List (Event × Result)},
      (recording config).EveryStep (System.init config, .none) trace
        (fun s => s.1.Filters config) →
      (recording config).Always (System.init config, .none) trace (Isolated config) := by
    intro trace filters early within state reached
    have known : Known state := by
      apply (filters.early within).history reached
      · exact ⟨run_delivered .start, init_isolated config⟩
      · rintro _ before event after result ⟨⟨delivered, addresses⟩, isolated⟩ allowed passes step
        refine ⟨⟨delivered.step allowed step, delivered.conserved.addresses addresses allowed
          (Machine.record_step step).1⟩, ?_⟩
        exact (isolated_step_iff delivered addresses allowed step).mpr ⟨isolated, passes⟩
    exact known.2
  refine ⟨⟨fun always => ?_, enough⟩, fun filters i client frame member => ?_⟩
  · have both : (recording config).Always (System.init config, .none) trace Known :=
      fun early within state reached => ⟨run_delivered reached, always early within state reached⟩
    refine both.everyStep run ?_
    rintro before event after result ⟨⟨delivered, addresses⟩, _⟩ allowed step ⟨_, isolated⟩
    exact ((isolated_step_iff delivered addresses allowed step).mp isolated).2
  · exact enough filters trace (List.prefix_refl _) s run i client frame
      (List.mem_append_left _ member)

/-- An ARP frame between other hosts; the byte at offset 30 is part of a hardware address. -/
def arpFrame : Memory := fun i =>
  if i < 12 then 6 else if i = 12 then 0x08 else if i = 13 then 0x06 else if i = 30 then 0xe0 else 0

theorem arpFrame_run : ∃ trace s, (recording twoClients).Run (System.init twoClients, .none) trace s ∧
    s.2.obtained 1 = [bytes arpFrame 64] ∧ 1 < s.1.driver.numClients := by
  have first : (recording twoClients).Run (System.init twoClients, .none) [] _ := .start
  have ready := first.on .initDone rfl rfl
  have given := ready.on (.allocate 2048) trivial rfl
  have written := given.on (.receive 255 arpFrame) (List.mem_singleton_self 255) rfl
  have queued := written.on (.rxComplete [(255, 64)])
    ⟨List.nodup_singleton 255, List.Subset.refl [255]⟩ rfl
  have taken := queued.on (.rx 2) ⟨1, by decide, rfl⟩ rfl
  exact ⟨_, _, taken, rfl, by decide⟩

theorem arpFrame_forbidden : ¬twoClients.MayObtain 1 (bytes arpFrame 64) := by
  rintro (own | broadcast | multicast)
  · exact absurd ((sentTo_bytes.mp own).2 0) (by decide)
  · exact absurd ((sentTo_bytes.mp broadcast).2 0) (by decide)
  · exact absurd multicast.2.1.2 (by decide)

theorem arp_frame_delivered : ∃ trace s,
    (recording twoClients).Run (System.init twoClients, .none) trace s ∧
      ∃ frame ∈ s.2.obtained 1, ¬twoClients.MayObtain 1 frame := by
  obtain ⟨trace, s, run, obtained, _⟩ := arpFrame_run
  exact ⟨trace, s, run, bytes arpFrame 64, by simp [obtained], arpFrame_forbidden⟩

theorem rx_isolated_iff_arp : ∃ trace s,
    (recording twoClients).Run (System.init twoClients, .none) trace s ∧
    s.2.obtained 1 = [bytes arpFrame 64] ∧ ¬Isolated twoClients s ∧
    ¬(recording twoClients).EveryStep (System.init twoClients, .none) trace
      fun s => s.1.Filters twoClients := by
  obtain ⟨trace, s, run, obtained, client⟩ := arpFrame_run
  have seen : ¬Isolated twoClients s := fun isolated =>
    arpFrame_forbidden (isolated 1 client _ (by simp [obtained]))
  refine ⟨trace, s, run, obtained, seen, fun filters => seen ?_⟩
  exact (rx_isolated_iff run).1.mpr filters trace (List.prefix_refl _) s run

end GlobalComponents.Ethdriver
