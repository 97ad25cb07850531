import GlobalComponents.SerialServer.SharedRing

/-! `internal_raw_putchar` statement by statement, against a consumer in another component.

Memory is sequentially consistent: between two statements of the server the consumer may take any
number of its own steps. A notification that is raised while one is pending coalesces with it.
-/

set_option autoImplicit false

namespace GlobalComponents.SerialServer

open Library

/-- Where the server is, with the locals it still needs. -/
inductive Phase where
  | outside
  | checked (c : UInt8) (nextTail : UInt32)
  | sampled (c : UInt8) (nextTail lastReadHead : UInt32)
  | stored (nextTail lastReadHead : UInt32)
  | published (lastReadHead : UInt32)
  deriving DecidableEq

/-- One client of the server, the component that reads its ring, and the notification between them. -/
structure Line (Consumer : Type) where
  client : GetcharClient
  phase : Phase
  /-- A `getchar_emit` that the consumer has not waited for yet. -/
  pending : Bool
  consumer : Consumer

/-- Who takes the next step. The consumer is given the byte that it finds if it reads behind the
ring. -/
inductive Turn where
  | call (c : UInt8)
  | server
  | consumer (behind : UInt8)
  deriving DecidableEq

inductive Outcome where
  | accepted (c : UInt8)
  | handled (c : UInt8)
  | nothing
  deriving DecidableEq

namespace Line

variable {Consumer : Type}

def head (line : Line Consumer) : UInt32 := line.client.buf.head
def tail (line : Line Consumer) : UInt32 := line.client.buf.tail

def setHead (line : Line Consumer) (head : UInt32) : Line Consumer :=
  { line with client := { line.client with buf := { line.client.buf with head } } }

def setTail (line : Line Consumer) (tail : UInt32) : Line Consumer :=
  { line with client := { line.client with buf := { line.client.buf with tail } } }

/-- `client->buf->buf[client->buf->tail] = (uint8_t)c`, a fault behind the ring. -/
def store (line : Line Consumer) (c : UInt8) : Option (Line Consumer) :=
  if within : line.tail.toNat < ringSize then
    let buf := Function.update line.client.buf.buf ⟨line.tail.toNat, within⟩ c
    some { line with client := { line.client with buf := { line.client.buf with buf } } }
  else none

/-- The entry of `internal_raw_putchar`, up to the check for a full ring. -/
def call (line : Line Consumer) (c : UInt8) : Line Consumer × Outcome :=
  let nextTail := (line.tail + 1) % UInt32.ofNat ringSize
  if nextTail = line.head then (line, .nothing)
  else ({ line with phase := .checked c nextTail }, .accepted c)

/-- The next statement of `internal_raw_putchar`. The last one compares, and may signal. -/
def server (line : Line Consumer) : Option (Line Consumer) :=
  match line.phase with
  | .outside => some line
  | .checked c nextTail => some { line with phase := .sampled c nextTail line.head }
  | .sampled c nextTail lastReadHead =>
    (line.store c).map ({ · with phase := .stored nextTail lastReadHead })
  | .stored nextTail lastReadHead =>
    some { line.setTail nextTail with phase := .published lastReadHead }
  | .published lastReadHead =>
    if lastReadHead ≠ line.client.lastHead then
      some { line with
        phase := .outside
        pending := true
        client := { line.client with lastHead := lastReadHead } }
    else some { line with phase := .outside }

def putchar (line : Line Consumer) (c : UInt8) : Option (Line Consumer) :=
  (line.call c).1.server >>= server >>= server >>= server

/-- As `pre_init` leaves the client, over zeroed memory. -/
def init (clientId : Nat) (consumer : Consumer) : Line Consumer where
  client := ⟨clientId, ⟨0, 0, fun _ => 0⟩, 0xFFFFFFFF⟩
  phase := .outside
  pending := false
  consumer := consumer

@[simp] theorem setHead_tail (line : Line Consumer) (head : UInt32) :
    (line.setHead head).tail = line.tail := rfl

@[simp] theorem setHead_head (line : Line Consumer) (head : UInt32) :
    (line.setHead head).head = head := rfl

@[simp] theorem setTail_head (line : Line Consumer) (tail : UInt32) :
    (line.setTail tail).head = line.head := rfl

@[simp] theorem setTail_tail (line : Line Consumer) (tail : UInt32) :
    (line.setTail tail).tail = tail := rfl

end Line

structure Reader (Consumer : Type) where
  ready : Line Consumer → Prop
  step : Line Consumer → UInt8 → Option (Line Consumer × Outcome)

def Reader.machine {Consumer : Type} (reader : Reader Consumer) :
    Machine (Line Consumer) Turn Outcome where
  allowed line
    | .call _ => line.phase = .outside
    | .server => line.phase ≠ .outside
    | .consumer _ => reader.ready line
  step line
    | .call c => some (line.call c)
    | .server => line.server.map (·, .nothing)
    | .consumer behind => reader.step line behind

def Reader.enabled {Consumer : Type} (reader : Reader Consumer) [DecidablePred reader.ready]
    (line : Line Consumer) : Turn → Bool
  | .call _ => line.phase = .outside
  | .server => line.phase ≠ .outside
  | .consumer _ => reader.ready line

section
variable {Consumer : Type}

/-- The steps are those of `internal_raw_putchar`: run without interruption they do what it does. -/
theorem internalRawPutchar_eq_putchar {config : Config} (s : Server) {id : Nat}
    (client : id < config.numGetcharClients) (consumer : Consumer) (c : UInt8) :
    internalRawPutchar config s id c =
      ((Line.mk (s.getcharClients id) .outside false consumer).putchar c).map fun line =>
        { s with
          getcharClients := Function.update s.getcharClients id line.client
          emitted := if line.pending then (s.getcharClients id).clientId :: s.emitted
            else s.emitted } := by
  unfold internalRawPutchar
  rw [if_pos client]
  simp only [Line.putchar, Line.call, Line.head, Line.tail]
  by_cases full : ((s.getcharClients id).buf.tail + 1) % UInt32.ofNat ringSize =
      (s.getcharClients id).buf.head
  · simp [full, Line.server]
  · simp only [full, if_false]
    by_cases within : (s.getcharClients id).buf.tail.toNat < ringSize
    · by_cases moved : (s.getcharClients id).buf.head ≠ (s.getcharClients id).lastHead
      · simp [Line.server, Line.store, Line.setTail, Line.head, Line.tail, within, moved]
      · simp [Line.server, Line.store, Line.setTail, Line.head, Line.tail, within, moved]
    · simp [Line.server, Line.store, Line.tail, within]

def Phase.upcoming : Phase → Option UInt32
  | .checked _ nextTail | .sampled _ nextTail _ | .stored nextTail _ => some nextTail
  | .outside | .published _ => none

inductive ServerStep (line : Line Consumer) : Line Consumer → Prop where
  | sample {c : UInt8} {nextTail : UInt32} : line.phase = .checked c nextTail →
      ServerStep line { line with phase := .sampled c nextTail line.head }
  | store {c : UInt8} {nextTail lastReadHead : UInt32} {stored : Line Consumer} :
      line.phase = .sampled c nextTail lastReadHead → line.store c = some stored →
      ServerStep line { stored with phase := .stored nextTail lastReadHead }
  | publish {nextTail lastReadHead : UInt32} : line.phase = .stored nextTail lastReadHead →
      ServerStep line { line.setTail nextTail with phase := .published lastReadHead }
  | signal {lastReadHead : UInt32} : line.phase = .published lastReadHead →
      lastReadHead ≠ line.client.lastHead →
      ServerStep line { line with
        phase := .outside
        pending := true
        client := { line.client with lastHead := lastReadHead } }
  | silent {lastReadHead : UInt32} : line.phase = .published lastReadHead →
      lastReadHead = line.client.lastHead → ServerStep line { line with phase := .outside }

theorem server_spec {line after : Line Consumer} (inside : line.phase ≠ .outside)
    (step : line.server = some after) : ServerStep line after := by
  unfold Line.server at step
  cases phase : line.phase with
  | outside => exact absurd phase inside
  | checked c nextTail =>
    rw [phase] at step
    cases step
    exact .sample phase
  | sampled c nextTail lastReadHead =>
    rw [phase] at step
    obtain ⟨stored, done, rfl⟩ := Option.map_eq_some_iff.mp step
    exact .store phase done
  | stored nextTail lastReadHead =>
    rw [phase] at step
    cases step
    exact .publish phase
  | published lastReadHead =>
    rw [phase] at step
    dsimp only at step
    by_cases moved : lastReadHead ≠ line.client.lastHead
    · rw [if_pos moved] at step
      cases step
      exact .signal phase moved
    · rw [if_neg moved] at step
      cases step
      exact .silent phase (not_not.mp moved)

structure Stored (line stored : Line Consumer) (c : UInt8) : Prop where
  within : line.tail.toNat < ringSize
  buf : stored.client.buf.buf = Function.update line.client.buf.buf ⟨line.tail.toNat, within⟩ c
  head : stored.head = line.head
  tail : stored.tail = line.tail
  lastHead : stored.client.lastHead = line.client.lastHead
  pending : stored.pending = line.pending
  consumer : stored.consumer = line.consumer

theorem store_spec {line stored : Line Consumer} {c : UInt8} (done : line.store c = some stored) :
    Stored line stored c := by
  unfold Line.store at done
  split at done
  · next within =>
    cases done
    exact ⟨within, rfl, rfl, rfl, rfl, rfl, rfl⟩
  · cases done

theorem call_spec (line : Line Consumer) (c : UInt8) :
    line.call c = (line, .nothing) ∨
      ((line.tail + 1) % UInt32.ofNat ringSize ≠ line.head ∧
        line.call c = ({ line with
          phase := .checked c ((line.tail + 1) % UInt32.ofNat ringSize) }, .accepted c)) := by
  unfold Line.call
  by_cases full : (line.tail + 1) % UInt32.ofNat ringSize = line.head
  · exact .inl (if_pos full)
  · exact .inr ⟨full, if_neg full⟩

theorem next_lt (index : UInt32) : ((index + 1) % UInt32.ofNat ringSize).toNat < ringSize := by
  rw [succ_mod_ringSize]
  exact Nat.mod_lt _ (by decide)

theorem next_toNat {index : UInt32} (within : index.toNat < ringSize) :
    ((index + 1) % UInt32.ofNat ringSize).toNat = (index.toNat + 1) % ringSize := by
  rw [succ_mod_ringSize, Nat.mod_eq_of_lt (a := index.toNat + 1)]
  unfold ringSize at within
  omega

theorem next_ne {index : UInt32} (within : index.toNat < ringSize) :
    (index + 1) % UInt32.ofNat ringSize ≠ index := by
  intro same
  have equal := congrArg UInt32.toNat same
  rw [next_toNat within] at equal
  unfold ringSize at equal within
  omega

inductive Reader.Step (reader : Reader Consumer) (line after : Line Consumer) :
    Turn → Outcome → Prop where
  | call {c : UInt8} {outcome : Outcome} : line.phase = .outside → line.call c = (after, outcome) →
      Step reader line after (.call c) outcome
  | server : ServerStep line after → Step reader line after .server .nothing
  | consumer {behind : UInt8} {outcome : Outcome} : reader.ready line →
      reader.step line behind = some (after, outcome) →
      Step reader line after (.consumer behind) outcome

theorem machine_spec {reader : Reader Consumer} {line after : Line Consumer} {turn : Turn}
    {outcome : Outcome} (allowed : reader.machine.allowed line turn)
    (step : reader.machine.step line turn = some (after, outcome)) :
    reader.Step line after turn outcome := by
  cases turn with
  | call c => exact .call allowed (Option.some.inj step)
  | server =>
    obtain ⟨after, done, same⟩ := Option.map_eq_some_iff.mp step
    cases same
    exact .server (server_spec allowed done)
  | consumer behind => exact .consumer allowed step

theorem Reader.allowed_of_enabled {reader : Reader Consumer} [DecidablePred reader.ready]
    {line : Line Consumer} {turn : Turn} (enabled : reader.enabled line turn = true) :
    reader.machine.allowed line turn := by
  cases turn with
  | call c => exact of_decide_eq_true (p := line.phase = .outside) enabled
  | server => exact of_decide_eq_true (p := line.phase ≠ .outside) enabled
  | consumer behind => exact of_decide_eq_true (p := reader.ready line) enabled

structure Line.Within (line : Line Consumer) : Prop where
  tail : line.tail.toNat < ringSize
  next : ∀ nextTail, line.phase.upcoming = some nextTail →
    nextTail = (line.tail + 1) % UInt32.ofNat ringSize

theorem Line.init_within (clientId : Nat) (consumer : Consumer) :
    (Line.init clientId consumer).Within :=
  ⟨(by decide : 0 < ringSize), fun _ upcoming => nomatch upcoming⟩

theorem Line.Within.call {line : Line Consumer} (within : line.Within) (c : UInt8) :
    (line.call c).1.Within := by
  rcases call_spec line c with full | ⟨_, entered⟩
  · rw [full]
    exact within
  · rw [entered]
    exact ⟨within.tail, fun nextTail upcoming => (Option.some.inj upcoming).symm⟩

theorem Line.Within.server {line after : Line Consumer} (within : line.Within)
    (step : ServerStep line after) : after.Within := by
  cases step with
  | sample phase =>
    refine ⟨within.tail, fun nextTail upcoming => within.next nextTail ?_⟩
    rw [phase]
    exact upcoming
  | store phase done =>
    have stored := store_spec done
    refine ⟨?_, fun nextTail upcoming => ?_⟩
    · exact stored.tail ▸ within.tail
    · have same := within.next nextTail (by rw [phase]; exact upcoming)
      rw [same]
      exact congrArg (fun tail => (tail + 1) % UInt32.ofNat ringSize) stored.tail.symm
  | @publish nextTail lastReadHead phase =>
    refine ⟨?_, fun _ upcoming => nomatch upcoming⟩
    have same := within.next nextTail (by rw [phase]; rfl)
    rw [same]
    exact next_lt line.tail
  | signal | silent => exact ⟨within.tail, fun _ upcoming => nomatch upcoming⟩

end

end GlobalComponents.SerialServer
