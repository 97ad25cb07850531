import GlobalComponents.SerialServer.Fifo

/-! Which clients a typed byte goes to.

A user who wants a client to see an escape character at the start of a line types it twice. Apart from
that everything that is typed arrives, and what belongs to a command arrives nowhere.
-/

set_option autoImplicit false

namespace GlobalComponents.SerialServer

open Library

/-! ## Output leaves the input alone -/

structure Input where
  activeClient : Option Nat
  activeMulticlients : BitVec 32
  statemachine : Nat
  getcharClients : Nat → GetcharClient
  emitted : List Nat

def Server.input (s : Server) : Input :=
  ⟨s.activeClient, s.activeMulticlients, s.statemachine, s.getcharClients, s.emitted⟩

@[simp] theorem print_input (s : Server) (tokens : List Output) :
    (s.print tokens).input = s.input := rfl

@[simp] theorem shift_input (s : Server) (b length : Nat) : (s.shift b length).input = s.input := rfl

@[simp] theorem store_input (s : Server) (b : Nat) (c : Int) : (s.store b c).input = s.input := rfl

@[simp] theorem setColour_input (s : Server) (b : Nat) : (s.setColour b).input = s.input := by
  unfold Server.setColour
  split <;> rfl

@[simp] theorem flushBuffer_input (s : Server) (b : Nat) : (flushBuffer s b).input = s.input := by
  unfold flushBuffer
  split
  · rfl
  · exact setColour_input s b

@[simp] theorem flushBufferLine_input (s : Server) (b : Nat) :
    (flushBufferLine s b).1.input = s.input := by
  unfold flushBufferLine
  split
  · rfl
  split
  · rfl
  · exact setColour_input s b

theorem foldl_input {α : Type} {f : Server → α → Server} (same : ∀ s x, (f s x).input = s.input)
    (list : List α) (s : Server) : (list.foldl f s).input = s.input := by
  induction list generalizing s with
  | nil => rfl
  | cons x rest ih => exact (ih (f s x)).trans (same s x)

@[simp] theorem printCommon_input (s : Server) (used : List Nat) (first length : Nat) :
    (s.printCommon used first length).input = s.input := by
  have shifts := foldl_input (fun s i => shift_input s i length) used
  unfold Server.printCommon
  dsimp only
  split
  · split
    · exact shifts _
    · exact shifts _
  · split
    · exact shifts _
    · exact shifts _

@[simp] theorem tryCoalesceOutput_input (s : Server) : (tryCoalesceOutput s).1.input = s.input := by
  unfold tryCoalesceOutput
  split
  · split <;> rfl
  · split
    · split
      · exact printCommon_input _ _ _ _
      · rfl
    · rfl

theorem flushNexts_input (list : List Nat) (before : Server × Bool) :
    (list.foldl flushNext before).1.input = before.1.input := by
  induction list generalizing before with
  | nil => rfl
  | cons i rest ih => exact (ih (flushNext before i)).trans (flushBufferLine_input before.1 i)

theorem flushPasses_input (fuel : Nat) (s : Server) : (flushPasses fuel s).1.input = s.input := by
  induction fuel generalizing s with
  | zero => rfl
  | succ fuel ih =>
    have pass := flushNexts_input (List.range numStreams) (s, false)
    rw [flushPasses, flushPass]
    cases whole : (List.range numStreams).foldl flushNext (s, false) with
    | mk flushed any =>
      rw [whole] at pass
      dsimp only
      split
      · exact (ih flushed).trans pass
      · exact pass

@[simp] theorem flushFull_input (s : Server) (b : Nat) : (flushFull s b).input = s.input := by
  have previous : (flushPrevious s).input = s.input := by
    unfold flushPrevious
    split
    · exact flushBufferLine_input _ _
    · rfl
  have others : ∀ s : Server, (flushOthers s b).input = s.input := by
    intro s
    unfold flushOthers
    split
    · exact foldl_input flushBuffer_input _ _
    · rfl
  unfold flushFull
  rw [setColour_input, others]
  exact (flushPasses_input _ _).trans previous

theorem internalPutchar_input (s : Server) (b : Nat) (c : Int) :
    (internalPutchar s b c).input = s.input := by
  have coalesced : (coalesceIfMulti (s.store b c)).1.input = s.input := by
    unfold coalesceIfMulti
    split
    · exact tryCoalesceOutput_input _
    · rfl
  have stored : ∀ (after : Server) (index : Nat) (status : Int),
      (flushStored after b index status).input = after.input := by
    intro after index status
    unfold flushStored
    dsimp only
    split
    · exact flushFull_input after b
    split
    · exact flushBuffer_input after b
    · rfl
  exact (stored _ _ _).trans coalesced

theorem timerCallback_input (s : Server) : (timerCallback s).input = s.input := by
  have lines : (flushLines s).1.input = s.input := flushPasses_input _ _
  unfold timerCallback
  split
  · rfl
  split
  · dsimp only
    split
    · exact lines
    · exact (foldl_input flushBuffer_input _ _).trans lines
  · rfl

/-! ## One byte for the selected clients -/

/-- The rings that `give_client_char` writes: the active client's or, without one, those whose bits
are set among the first `MAX_CLIENTS * 2`. -/
def Server.targets (s : Server) : List Nat :=
  match s.activeClient with
  | some client => [client]
  | none => (List.range numStreams).filter fun i => s.activeMulticlients.getLsbD i

theorem targets_nodup (s : Server) : s.targets.Nodup := by
  unfold Server.targets
  split
  · exact List.nodup_singleton _
  · exact List.nodup_range.filter _

theorem giveClientChar_eq (config : Config) (s : Server) (c : UInt8) :
    giveClientChar config s c = s.targets.foldlM (fun s i => internalRawPutchar config s i c) s := by
  cases active : s.activeClient with
  | some client => simp [giveClientChar, Server.targets, active]
  | none => simp [giveClientChar, Server.targets, active]

structure ClientBuffer.Room (buffer : ClientBuffer) (n : Nat) : Prop where
  head : buffer.head.toNat < ringSize
  tail : buffer.tail.toNat < ringSize
  fits : buffer.unread.length + n < ringSize

/-- The bytes go to the rings of these clients, and nowhere else. -/
structure Routed (s after : Server) (ids : List Nat) (bytes : List UInt8) : Prop where
  unread : ∀ id ∈ ids, (after.getcharClients id).buf.unread =
    (s.getcharClients id).buf.unread ++ bytes
  indices : ∀ id ∈ ids, (after.getcharClients id).buf.head = (s.getcharClients id).buf.head ∧
    (after.getcharClients id).buf.tail.toNat < ringSize
  others : ∀ id, id ∉ ids → after.getcharClients id = s.getcharClients id
  activeClient : after.activeClient = s.activeClient
  activeMulticlients : after.activeMulticlients = s.activeMulticlients

theorem Routed.room {s after : Server} {ids : List Nat} {bytes : List UInt8} {n : Nat}
    (routed : Routed s after ids bytes) {id : Nat} (member : id ∈ ids)
    (room : (s.getcharClients id).buf.Room (bytes.length + n)) :
    (after.getcharClients id).buf.Room n := by
  obtain ⟨head, tail⟩ := routed.indices id member
  refine ⟨head ▸ room.head, tail, ?_⟩
  rw [routed.unread id member, List.length_append]
  have fits := room.fits
  omega

theorem Routed.targets {s after : Server} {ids : List Nat} {bytes : List UInt8}
    (routed : Routed s after ids bytes) : after.targets = s.targets := by
  unfold Server.targets
  rw [routed.activeClient, routed.activeMulticlients]

theorem Routed.trans {s middle after : Server} {ids : List Nat} {first rest : List UInt8}
    (before : Routed s middle ids first) (next : Routed middle after ids rest) :
    Routed s after ids (first ++ rest) where
  unread id member := by
    rw [next.unread id member, before.unread id member, List.append_assoc]
  indices id member := by
    obtain ⟨head, tail⟩ := next.indices id member
    exact ⟨head.trans (before.indices id member).1, tail⟩
  others id absent := (next.others id absent).trans (before.others id absent)
  activeClient := next.activeClient.trans before.activeClient
  activeMulticlients := next.activeMulticlients.trans before.activeMulticlients

theorem Routed.cons {s middle after : Server} {id : Nat} {ids : List Nat} {bytes : List UInt8}
    (one : Routed s middle [id] bytes) (rest : Routed middle after ids bytes)
    (fresh : id ∉ ids) : Routed s after (id :: ids) bytes where
  unread other member := by
    by_cases here : other = id
    · subst here
      rw [rest.others other fresh]
      exact one.unread other (List.mem_singleton_self other)
    · rw [rest.unread other ((List.mem_cons.mp member).resolve_left here),
        one.others other (by simpa using here)]
  indices other member := by
    by_cases here : other = id
    · subst here
      rw [rest.others other fresh]
      exact one.indices other (List.mem_singleton_self other)
    · have before := rest.indices other ((List.mem_cons.mp member).resolve_left here)
      rwa [one.others other (by simpa using here)] at before
  others other absent := by
    obtain ⟨here, elsewhere⟩ := not_or.mp (List.mem_cons.not.mp absent)
    exact (rest.others other elsewhere).trans (one.others other (by simpa using here))
  activeClient := rest.activeClient.trans one.activeClient
  activeMulticlients := rest.activeMulticlients.trans one.activeMulticlients

section
variable {config : Config}

theorem internalRawPutchar_routed {s : Server} {id : Nat} (client : id < config.numGetcharClients)
    (room : (s.getcharClients id).buf.Room 1) (c : UInt8) :
    ∃ after, internalRawPutchar config s id c = some after ∧ Routed s after [id] [c] ∧
      after.statemachine = s.statemachine := by
  have next := next_toNat room.tail
  have notFull : ((s.getcharClients id).buf.tail.toNat + 1) % ringSize ≠
      (s.getcharClients id).buf.head.toNat := by
    intro full
    have fits := room.fits
    rw [ClientBuffer.unread, Ring.queue_length, (Ring.full_iff room.tail room.head).mp full] at fits
    unfold ringSize at fits
    omega
  have free : ((s.getcharClients id).buf.tail + 1) % UInt32.ofNat ringSize ≠
      (s.getcharClients id).buf.head := by
    intro full
    exact notFull (next.symm.trans (congrArg UInt32.toNat full))
  have pushed : ∀ after : Server, ∀ lastHead, after.getcharClients =
      Function.update s.getcharClients id ⟨(s.getcharClients id).clientId,
        { (s.getcharClients id).buf with
          buf := Function.update (s.getcharClients id).buf.buf
            ⟨(s.getcharClients id).buf.tail.toNat, room.tail⟩ c
          tail := ((s.getcharClients id).buf.tail + 1) % UInt32.ofNat ringSize }, lastHead⟩ →
      after.activeClient = s.activeClient → after.activeMulticlients = s.activeMulticlients →
      Routed s after [id] [c] := by
    intro after lastHead clients active multi
    refine ⟨?_, ?_, fun other absent => ?_, active, multi⟩
    · simp only [List.forall_mem_singleton, clients, Function.update_self]
      rw [ClientBuffer.unread]
      dsimp only
      rw [ClientBuffer.slots_update room.tail rfl, next]
      exact Ring.queue_push room.tail room.head notFull _ c
    · simp only [List.forall_mem_singleton, clients, Function.update_self]
      exact ⟨trivial, next_lt _⟩
    · rw [clients, Function.update_of_ne (by simpa using absent)]
  unfold internalRawPutchar
  rw [if_pos client]
  dsimp only
  rw [if_neg free, dif_pos room.tail]
  -- the notification does not matter to the ring
  split
  · exact ⟨_, rfl, pushed _ _ rfl rfl rfl, rfl⟩
  · exact ⟨_, rfl, pushed _ _ rfl rfl rfl, rfl⟩

theorem internalRawPutchars_routed {s : Server} {ids : List Nat} (unique : ids.Nodup)
    (clients : ∀ id ∈ ids, id < config.numGetcharClients)
    (room : ∀ id ∈ ids, (s.getcharClients id).buf.Room 1) (c : UInt8) :
    ∃ after, ids.foldlM (fun s id => internalRawPutchar config s id c) s = some after ∧
      Routed s after ids [c] ∧ after.statemachine = s.statemachine := by
  induction ids generalizing s with
  | nil => exact ⟨s, rfl, ⟨nofun, nofun, fun _ _ => rfl, rfl, rfl⟩, rfl⟩
  | cons id ids ih =>
    obtain ⟨fresh, unique⟩ := List.nodup_cons.mp unique
    obtain ⟨client, clients⟩ := List.forall_mem_cons.mp clients
    obtain ⟨here, rooms⟩ := List.forall_mem_cons.mp room
    obtain ⟨middle, one, routed, phase⟩ := internalRawPutchar_routed client here c
    -- the selected clients are distinct, so this one does not use up the room of another
    have others : ∀ other ∈ ids, (middle.getcharClients other).buf.Room 1 := by
      intro other member
      have elsewhere : other ≠ id := fun same => fresh (same ▸ member)
      rw [routed.others other (by simpa using elsewhere)]
      exact rooms other member
    obtain ⟨after, rest, routed', phase'⟩ := ih unique clients others
    refine ⟨after, ?_, routed.cons routed' fresh, phase'.trans phase⟩
    rw [List.foldlM_cons, one]
    exact rest

theorem giveClientChar_routed {s : Server} (clients : ∀ id ∈ s.targets, id < config.numGetcharClients)
    (room : ∀ id ∈ s.targets, (s.getcharClients id).buf.Room 1) (c : UInt8) :
    ∃ after, giveClientChar config s c = some after ∧ Routed s after s.targets [c] ∧
      after.statemachine = s.statemachine := by
  rw [giveClientChar_eq]
  exact internalRawPutchars_routed (targets_nodup s) clients room c

/-! ## Lines -/

/-- `w` as it has to be typed: an escape character at the start of a line twice. -/
def encode : Bool → List UInt8 → List UInt8
  | _, [] => []
  | start, c :: rest =>
    if start && c == escapeChar then c :: c :: encode (endsLine c) rest
    else c :: encode (endsLine c) rest

def phaseOf (start : Bool) : Nat := if start then 1 else 0

def feed (config : Config) (s : Server) (bytes : List UInt8) : Option Server :=
  bytes.foldlM (handleChar config) s

theorem handleChar_plain {s : Server} {start : Bool} {c : UInt8} (linked : config.hasGetchar = true)
    (phase : s.statemachine = phaseOf start) (plain : (start && c == escapeChar) = false) :
    handleChar config s c =
      giveClientChar config { s with statemachine := phaseOf (endsLine c) } c := by
  cases start with
  | false =>
    rw [phaseOf] at phase
    cases ends : endsLine c with
    | true => simp [handleChar, linked, phase, ends, phaseOf]
    | false =>
      have same : { s with statemachine := phaseOf false } = s := by
        cases s
        cases phase
        rfl
      rw [same]
      simp [handleChar, linked, phase, ends]
  | true =>
    rw [phaseOf] at phase
    have plain : ¬c = escapeChar := by simpa using plain
    cases ends : endsLine c with
    | true =>
      have same : { s with statemachine := phaseOf true } = s := by
        cases s
        cases phase
        rfl
      rw [same]
      simp [handleChar, linked, phase, ends]
    | false => simp [handleChar, linked, phase, ends, plain, phaseOf]

theorem handleChar_escape {s : Server} (linked : config.hasGetchar = true)
    (phase : s.statemachine = 1) :
    handleChar config s escapeChar = some { s with statemachine := 2 } := by
  simp [handleChar, linked, phase, escapeChar, endsLine, carriageReturn, newline, ctrlC, ctrlZ]

theorem handleChar_escaped {s : Server} (linked : config.hasGetchar = true)
    (phase : s.statemachine = 1) :
    (handleChar config s escapeChar).bind (handleChar config · escapeChar) =
      giveClientChar config { s with statemachine := phaseOf (endsLine escapeChar) } escapeChar := by
  rw [handleChar_escape linked phase]
  simp [handleChar, linked, handleCommand, phaseOf, endsLine, escapeChar, carriageReturn, newline,
    ctrlC, ctrlZ]

/-- Each byte of the line goes to the selected clients, with its escape in front of it. -/
theorem feed_encode {s : Server} {start : Bool} (linked : config.hasGetchar = true)
    (phase : s.statemachine = phaseOf start)
    (clients : ∀ id ∈ s.targets, id < config.numGetcharClients) (w : List UInt8)
    (room : ∀ id ∈ s.targets, (s.getcharClients id).buf.Room w.length) :
    ∃ after, feed config s (encode start w) = some after ∧ Routed s after s.targets w := by
  -- on the bytes of the line; each leaves the state machine where its encoding expects it
  induction w generalizing s start with
  | nil =>
    refine ⟨s, rfl, ⟨fun _ _ => (List.append_nil _).symm, fun id member => ?_, fun _ _ => rfl, rfl,
      rfl⟩⟩
    exact ⟨rfl, (room id member).tail⟩
  | cons c rest ih =>
    have one : ∀ id ∈ s.targets, (s.getcharClients id).buf.Room 1 := by
      intro id member
      obtain ⟨head, tail, fits⟩ := room id member
      refine ⟨head, tail, ?_⟩
      rw [List.length_cons] at fits
      omega
    obtain ⟨middle, given, routed, phase'⟩ :=
      giveClientChar_routed (s := { s with statemachine := phaseOf (endsLine c) }) clients one c
    have rooms : ∀ id ∈ middle.targets, (middle.getcharClients id).buf.Room rest.length := by
      intro id member
      rw [routed.targets] at member
      apply routed.room member
      have all := room id member
      rwa [List.length_cons, Nat.add_comm] at all
    obtain ⟨after, fed, routed'⟩ := ih phase' (routed.targets ▸ clients) rooms
    rw [routed.targets] at routed'
    refine ⟨after, ?_, Routed.trans (s := s) ⟨routed.unread, routed.indices, routed.others,
      routed.activeClient, routed.activeMulticlients⟩ routed'⟩
    rw [feed, encode]
    cases escape : start && c == escapeChar with
    | true =>
      obtain ⟨rfl, same⟩ := (Bool.and_eq_true _ _).mp escape
      obtain rfl := eq_of_beq same
      have both := handleChar_escaped linked phase
      rw [given] at both
      obtain ⟨second, first, escaped⟩ := Option.bind_eq_some_iff.mp both
      simp only [if_true, List.foldlM_cons, first, Option.bind_eq_bind, Option.bind_some, escaped]
      exact fed
    | false =>
      simp only [Bool.false_eq_true, if_false, List.foldlM_cons,
        handleChar_plain linked phase escape, given, Option.bind_eq_bind, Option.bind_some]
      exact fed

/-! ## Commands -/

structure Server.Selecting (config : Config) (s : Server) : Prop where
  active : ∀ client, s.activeClient = some client → client < config.numGetcharClients
  multi : ∀ i, s.activeMulticlients.getLsbD i = true → i < config.numGetcharClients

theorem Server.Selecting.targets {s : Server} (selecting : s.Selecting config) :
    ∀ id ∈ s.targets, id < config.numGetcharClients := by
  intro id member
  unfold Server.targets at member
  split at member
  · next client active => exact List.mem_singleton.mp member ▸ selecting.active client active
  · exact selecting.multi id (List.mem_filter.mp member).2

theorem Server.Selecting.congr {s after : Server} (selecting : s.Selecting config)
    (same : after.input = s.input) : after.Selecting config := by
  have active : after.activeClient = s.activeClient := congrArg Input.activeClient same
  have multi : after.activeMulticlients = s.activeMulticlients :=
    congrArg Input.activeMulticlients same
  exact ⟨fun client some => selecting.active client (active ▸ some),
    fun i set => selecting.multi i (multi ▸ set)⟩

theorem internalRawPutchar_selection {s after : Server} {id : Nat} {c : UInt8}
    (put : internalRawPutchar config s id c = some after) :
    after.activeClient = s.activeClient ∧ after.activeMulticlients = s.activeMulticlients := by
  unfold internalRawPutchar at put
  split at put
  · dsimp only at put
    split at put
    · cases put
      exact ⟨rfl, rfl⟩
    split at put
    · split at put
      · cases put
        exact ⟨rfl, rfl⟩
      · cases put
        exact ⟨rfl, rfl⟩
    · cases put
  · cases put

theorem giveClientChar_selection {s after : Server} {c : UInt8}
    (given : giveClientChar config s c = some after) :
    after.activeClient = s.activeClient ∧ after.activeMulticlients = s.activeMulticlients := by
  rw [giveClientChar_eq] at given
  generalize s.targets = ids at given
  induction ids generalizing s with
  | nil =>
    cases given
    exact ⟨rfl, rfl⟩
  | cons id rest ih =>
    rw [List.foldlM_cons] at given
    obtain ⟨middle, one, others⟩ := Option.bind_eq_some_iff.mp given
    obtain ⟨active, multi⟩ := ih others
    obtain ⟨active', multi'⟩ := internalRawPutchar_selection one
    exact ⟨active.trans active', multi.trans multi'⟩

theorem giveClientChar_selecting {s after : Server} {c : UInt8} (selecting : s.Selecting config)
    (given : giveClientChar config s c = some after) : after.Selecting config := by
  obtain ⟨active, multi⟩ := giveClientChar_selection given
  exact ⟨fun client some => selecting.active client (active ▸ some),
    fun i set => selecting.multi i (multi ▸ set)⟩

theorem selectedClient_lt {c : UInt8} {client : Nat} (selected : selectedClient config c = some client) :
    client < config.numGetcharClients := by
  unfold selectedClient at selected
  split at selected
  · next range =>
    cases selected
    omega
  · cases selected

theorem handleCommand_selecting {s after : Server} {c : UInt8} (selecting : s.Selecting config)
    (handled : handleCommand config s c = some after) : after.Selecting config := by
  unfold handleCommand at handled
  split at handled
  · exact giveClientChar_selecting (s := { s with statemachine := 0 })
      ⟨selecting.active, selecting.multi⟩ handled
  split at handled
  · cases handled
    exact ⟨nofun, fun i set => by simp at set⟩
  split at handled
  · cases handled
    exact ⟨selecting.active, selecting.multi⟩
  split at handled
  · cases handled
    exact ⟨selecting.active, selecting.multi⟩
  split at handled
  · cases handled
    exact ⟨selecting.active, selecting.multi⟩
  dsimp only at handled
  split at handled
  · next client selected =>
    cases handled
    refine ⟨fun other same => ?_, selecting.multi⟩
    exact Option.some.inj same ▸ selectedClient_lt selected
  · cases handled
    exact ⟨selecting.active, selecting.multi⟩

theorem handleChar_selecting {s after : Server} {c : UInt8} (selecting : s.Selecting config)
    (handled : handleChar config s c = some after) : after.Selecting config := by
  unfold handleChar at handled
  split at handled
  · cases handled
    exact selecting
  split at handled
  · refine giveClientChar_selecting ?_ handled
    split
    · exact ⟨selecting.active, selecting.multi⟩
    · exact selecting
  · split at handled
    · exact giveClientChar_selecting selecting handled
    split at handled
    · cases handled
      exact ⟨selecting.active, selecting.multi⟩
    · exact giveClientChar_selecting (s := { s with statemachine := 0 })
        ⟨selecting.active, selecting.multi⟩ handled
  · exact handleCommand_selecting selecting handled
  · split at handled
    · next client selected =>
      cases handled
      refine ⟨selecting.active, fun i set => ?_⟩
      rw [BitVec.getLsbD_or, Bool.or_eq_true] at set
      rcases set with before | new
      · exact selecting.multi i before
      · rw [BitVec.getLsbD_ofNat, Bool.and_eq_true, Nat.testBit_two_pow] at new
        exact of_decide_eq_true new.2 ▸ selectedClient_lt selected
    · split at handled
      · cases handled
        exact ⟨selecting.active, selecting.multi⟩
      · cases handled
        exact selecting
  · cases handled
    exact selecting

/-- The byte belongs to a command. The second of two escape characters does not. -/
def Server.InCommand (s : Server) (c : UInt8) : Prop :=
  s.statemachine = 1 ∧ c = escapeChar ∨ s.statemachine = 2 ∧ c ≠ escapeChar ∨ s.statemachine = 3

/-- No ring is written, and nobody is signalled. -/
theorem handleChar_command {s after : Server} {c : UInt8} (command : s.InCommand c)
    (handled : handleChar config s c = some after) :
    after.getcharClients = s.getcharClients ∧ after.emitted = s.emitted := by
  cases linked : config.hasGetchar with
  | false =>
    simp only [handleChar, linked] at handled
    cases handled
    exact ⟨rfl, rfl⟩
  | true =>
    rcases command with ⟨phase, rfl⟩ | ⟨phase, other⟩ | phase
    · cases (handleChar_escape linked phase).symm.trans handled
      exact ⟨rfl, rfl⟩
    · have second : handleChar config s c = handleCommand config s c := by
        simp [handleChar, linked, phase]
      rw [second, handleCommand, if_neg other] at handled
      split at handled
      · cases handled
        exact ⟨rfl, rfl⟩
      split at handled
      · cases handled
        exact ⟨rfl, rfl⟩
      split at handled
      · cases handled
        exact ⟨rfl, rfl⟩
      split at handled
      · cases handled
        exact ⟨rfl, rfl⟩
      dsimp only at handled
      split at handled
      · cases handled
        exact ⟨rfl, rfl⟩
      · cases handled
        exact ⟨rfl, rfl⟩
    · simp only [handleChar, linked, phase, Bool.not_true, Bool.false_eq_true, if_false] at handled
      split at handled
      · cases handled
        exact ⟨rfl, rfl⟩
      · split at handled
        · cases handled
          exact ⟨rfl, rfl⟩
        · cases handled
          exact ⟨rfl, rfl⟩

theorem step_selecting {s after : Server} {event : Event} (selecting : s.Selecting config)
    (step : s.step config event = some after) : after.Selecting config := by
  cases event with
  | putchar b c =>
    obtain rfl := putchar_step step
    exact selecting.congr (internalPutchar_input s b c)
  | timer =>
    cases step
    exact selecting.congr (timerCallback_input s)
  | input c => exact handleChar_selecting selecting step
  | share id buf =>
    cases step
    exact ⟨selecting.active, selecting.multi⟩

theorem selecting_of_run {trace : List (Event × Unit)} {s : Server}
    (some : 0 < config.numGetcharClients) (run : (machine config).Run (.init config) trace s) :
    s.Selecting config := by
  refine run.invariant ⟨fun client same => ?_, fun i set => by simp [Server.init] at set⟩ ?_
  · exact Option.some.inj same ▸ some
  · intro before event after result selecting _ step
    obtain ⟨state, stepped, same⟩ := Option.map_eq_some_iff.mp step
    cases same
    exact step_selecting selecting stepped

/-- Typed lines arrive at the selected clients as they are meant, rings are only used within
`num_getchar_clients`, and the bytes of a command reach nobody. -/
theorem typed_input_routed {trace : List (Event × Unit)} {s : Server}
    (clients : config.hasGetchar = true → 0 < config.numGetcharClients)
    (run : (machine config).Run (.init config) trace s) :
    (config.hasGetchar = true → s.statemachine = 1 → ∀ w,
      (∀ id ∈ s.targets, (s.getcharClients id).buf.Room w.length) →
        ∃ after, feed config s (encode true w) = some after ∧ Routed s after s.targets w) ∧
    (config.hasGetchar = true → ∀ id ∈ s.targets, id < config.numGetcharClients) ∧
    ∀ c after, s.InCommand c → handleChar config s c = some after →
      after.getcharClients = s.getcharClients ∧ after.emitted = s.emitted := by
  refine ⟨fun linked phase w room => ?_, fun linked => ?_, fun _ _ => handleChar_command⟩
  · exact feed_encode linked phase (selecting_of_run (clients linked) run).targets w room
  · exact (selecting_of_run (clients linked) run).targets

end

def crowd (numGetcharClients : Nat) : Config where
  hasGetchar := true
  numGetcharClients := numGetcharClients
  badge := fun i => i + 1
  getcharBuf := fun _ => ⟨0, 0, fun _ => 0⟩
  debugBuild := false
  charIsSigned := true

theorem typed_input_routed_crowd : ∃ after,
    feed (crowd 2) (.init (crowd 2)) (encode true [64, 65]) = some after ∧
      (after.getcharClients 0).buf.unread = [64, 65] := by
  have typed : (machine (crowd 2)).Run (.init (crowd 2)) [] (.init (crowd 2)) := .start
  obtain ⟨after, fed, routed⟩ := (typed_input_routed (fun _ => Nat.zero_lt_two) typed).1 rfl rfl
    [64, 65] (by
      intro id member
      obtain rfl := List.mem_singleton.mp member
      exact ⟨by decide, by decide, by decide⟩)
  exact ⟨after, fed, routed.unread 0 (List.mem_singleton_self 0)⟩

theorem run_input {config : Config} {start s after : Server} {trace : List (Event × Unit)}
    (run : (machine config).Run start trace s) (c : UInt8)
    (handled : handleChar config s c = some after) :
    (machine config).Run start (trace ++ [(.input c, ())]) after :=
  run.next trivial (by simp [machine, Server.step, handled])

/-- With 25 clients the last one can be chosen for multi-client input, and gets nothing. -/
theorem late_client_unserved : ∃ trace s after,
    (machine (crowd 25)).Run (.init (crowd 25)) trace s ∧ s.statemachine = 1 ∧
      s.activeClient = none ∧ s.activeMulticlients.getLsbD 24 = true ∧
      (s.getcharClients 24).buf.Room 1 ∧
      feed (crowd 25) s (encode true [97]) = some after ∧
      (after.getcharClients 24).buf.unread ≠ (s.getcharClients 24).buf.unread ++ [97] := by
  have begun : (machine (crowd 25)).Run (.init (crowd 25)) [] (.init (crowd 25)) := .start
  have escape := run_input begun 64 rfl
  have multi := run_input escape 109 rfl
  have chosen := run_input multi 72 rfl
  have ended := run_input chosen 13 rfl
  exact ⟨_, _, _, ended, rfl, rfl, by decide, ⟨by decide, by decide, by decide⟩, rfl, by decide⟩

end GlobalComponents.SerialServer
