import GlobalComponents.Library.Chain
import GlobalComponents.PicoServer.Frame

/-! Who owns the messages of the virtqueues.

Between two steps every message that a client has lent is in an available ring or in the pending list of
one socket. `Owned` says so; `waiting` are the messages of each pending list in their order.
-/

set_option autoImplicit false

namespace GlobalComponents.PicoServer

open Library

def Server.transport (s : Server) (record : Ptr) : Option Async :=
  (s.records record).bind Socket.asyncTransport

structure View where
  queue : Dir → Virtqueue
  msgs : Ptr → Msg
  transport : Ptr → Option Async
  journal : List Action

def Server.view (s : Server) : View := ⟨s.queue, s.msgs, s.transport, s.journal⟩

namespace View

def setQueue (v : View) (dir : Dir) (queue : Virtqueue) : View :=
  { v with queue := Function.update v.queue dir queue }

def setMsg (v : View) (msg : Ptr) (content : Msg) : View :=
  { v with msgs := Function.update v.msgs msg content }

def setTransport (v : View) (record : Ptr) (async : Option Async) : View :=
  { v with transport := Function.update v.transport record async }

def note (v : View) (action : Action) : View := { v with journal := v.journal ++ [action] }

end View

section
variable {s : Server} {dir : Dir} {record msg : Ptr}

theorem view_setQueue (queue : Virtqueue) :
    (s.setQueue dir queue).view = s.view.setQueue dir queue := by
  have queues : (s.setQueue dir queue).queue = Function.update s.queue dir queue := by
    funext other
    by_cases here : other = dir
    · subst here
      rw [Server.queue_setQueue, Function.update_self]
    · rw [Server.queue_setQueue_of_ne s here, Function.update_of_ne here]
  cases dir with
  | tx | rx => rw [Server.view, queues]; rfl

theorem view_setMsg (content : Msg) : (s.setMsg msg content).view = s.view.setMsg msg content := by
  have queues : (s.setMsg msg content).queue = s.queue := funext (s.queue_setMsg msg content)
  rw [Server.view, queues]
  rfl

theorem view_setRecord (socket : Socket) :
    (s.setRecord record socket).view = s.view.setTransport record socket.asyncTransport := by
  have queues : (s.setRecord record socket).queue = s.queue :=
    funext (s.queue_setRecord record socket)
  have transports : (s.setRecord record socket).transport =
      Function.update s.transport record socket.asyncTransport := by
    funext other
    by_cases here : other = record
    · subst here
      simp [Server.transport, Server.setRecord]
    · simp [Server.transport, Server.setRecord, Function.update_of_ne here]
  rw [Server.view, queues, transports]
  rfl

theorem view_note (action : Action) : (s.note action).view = s.view.note action := by
  have queues : (s.note action).queue = s.queue := funext (s.queue_note action)
  rw [Server.view, queues]
  rfl

end

section
variable {K V : Type} [DecidableEq K]

theorem keys_eraseP (entries : List (K × V)) (key : K) :
    (entries.eraseP fun entry => entry.1 = key).map Prod.fst =
      (entries.map Prod.fst).erase key := by
  rw [List.erase_eq_eraseP, List.eraseP_map]
  congr 2
  funext entry
  exact decide_eq_decide.mpr eq_comm

theorem mem_eraseP_iff {entries : List (K × V)} (distinct : (entries.map Prod.fst).Nodup) {key : K}
    {entry : K × V} :
    entry ∈ entries.eraseP (fun entry => entry.1 = key) ↔ entry ∈ entries ∧ entry.1 ≠ key := by
  constructor
  · intro member
    refine ⟨List.mem_of_mem_eraseP member, ?_⟩
    rintro rfl
    have again := List.mem_map_of_mem (f := Prod.fst) member
    rw [keys_eraseP] at again
    exact distinct.not_mem_erase again
  · rintro ⟨member, other⟩
    exact (List.mem_eraseP_of_neg (by simpa using other)).mpr member

end

def Virtqueue.give (queue : Virtqueue) (handle : UInt32) (len : UInt64) : Virtqueue where
  available := queue.available
  used := queue.used ++ [(handle, len)]
  lent := queue.lent.eraseP fun entry => entry.1 = handle

def View.complete (v : View) (dir : Dir) (receiver : Option Ptr) (msg : Ptr) (cookie : UInt32)
    (len : UInt64) : View :=
  (v.setQueue dir ((v.queue dir).give cookie len)).note
    (.completed dir receiver cookie len (v.msgs msg))

theorem view_complete {config : Config} {s : Server} {dir : Dir} {receiver : Option Ptr} {msg : Ptr}
    {cookie : UInt32} {len : UInt64} (room : (s.view.queue dir).used.length < config.ringSize) :
    (complete config dir s receiver msg cookie len).view =
      s.view.complete dir receiver msg cookie len := by
  have flagged : ({ s with emitClientAsync := true } : Server).queue = s.queue := by
    funext other
    cases other with
    | tx | rx => rfl
  have given : (s.queue dir).addUsed config.ringSize cookie len =
      some ((s.queue dir).give cookie len) := if_pos room
  have same : ({ s with emitClientAsync := true } : Server).view = s.view := by
    rw [Server.view, flagged]
    rfl
  rw [complete]
  dsimp only
  rw [flagged, given]
  dsimp only
  rw [view_note, view_setQueue, same]
  rfl

@[simp] theorem Async.pending_setPending (async : Async) (dir : Dir) (pending : Pending) :
    (async.setPending dir pending).pending dir = pending := by
  cases dir with
  | tx | rx => rfl

theorem Async.pending_setPending_of_ne (async : Async) {dir other : Dir} (different : other ≠ dir)
    {pending : Pending} : (async.setPending dir pending).pending other = async.pending other := by
  cases dir with
  | tx =>
    cases other with
    | tx => exact absurd rfl different
    | rx => rfl
  | rx =>
    cases other with
    | tx => rfl
    | rx => exact absurd rfl different

def place (waiting : Dir → Ptr → List Ptr) (dir : Dir) (record : Ptr) (nodes : List Ptr) :
    Dir → Ptr → List Ptr :=
  Function.update waiting dir (Function.update (waiting dir) record nodes)

theorem place_apply (waiting : Dir → Ptr → List Ptr) (dir d : Dir) (record r : Ptr)
    (nodes : List Ptr) : place waiting dir record nodes d r =
      if d = dir ∧ r = record then nodes else waiting d r := by
  unfold place
  by_cases same : d = dir
  · subst same
    by_cases here : r = record
    · simp [here]
    · simp [here]
  · simp [same]

theorem mem_place_append {waiting : Dir → Ptr → List Ptr} {dir d : Dir} {record r msg m : Ptr} :
    m ∈ place waiting dir record (waiting dir record ++ [msg]) d r ↔
      m ∈ waiting d r ∨ d = dir ∧ r = record ∧ m = msg := by
  rw [place_apply]
  split
  · next here =>
    obtain ⟨rfl, rfl⟩ := here
    simp
  · next elsewhere =>
    refine (or_iff_left ?_).symm
    exact fun mine => elsewhere ⟨mine.1, mine.2.1⟩

/-- How often a descriptor has been dequeued, and how often it has been added to the used ring. -/
def took (journal : List Action) (dir : Dir) (handle : UInt32) : Nat :=
  journal.countP fun action => match action with
    | .took d _ h _ _ => d = dir ∧ h = handle
    | _ => false

def completed (journal : List Action) (dir : Dir) (handle : UInt32) : Nat :=
  journal.countP fun action => match action with
    | .completed d _ h _ _ => d = dir ∧ h = handle
    | _ => false

structure Owned (ringSize : Nat) (v : View) (waiting : Dir → Ptr → List Ptr) : Prop where
  linked : ∀ dir record async, v.transport record = some async →
    Linked (fun msg => (v.msgs msg).next) (async.pending dir).queue (async.pending dir).queueEnd
      (waiting dir record)
  idle : ∀ dir record, v.transport record = none → waiting dir record = []
  lent : ∀ dir handle msg, (handle, msg) ∈ (v.queue dir).lent ↔
    (handle, msg) ∈ (v.queue dir).available ∨
      ∃ record, msg ∈ waiting dir record ∧ (v.msgs msg).cookieSave = handle
  single : ∀ dir record other msg, msg ∈ waiting dir record → msg ∈ waiting dir other →
    record = other
  taken : ∀ dir handle msg record, (handle, msg) ∈ (v.queue dir).available →
    msg ∉ waiting dir record
  handles : ∀ dir, ((v.queue dir).lent.map Prod.fst).Nodup
  msgs : (((v.queue .tx).lent ++ (v.queue .rx).lent).map Prod.snd).Nodup
  available : ∀ dir, (v.queue dir).available.Nodup
  room : ∀ dir, (v.queue dir).used.length + (v.queue dir).lent.length ≤ ringSize
  balance : ∀ dir handle,
    took v.journal dir handle + ((v.queue dir).available.map Prod.fst).count handle =
      completed v.journal dir handle + ((v.queue dir).lent.map Prod.fst).count handle

structure Completes (dir : Dir) (handle : UInt32) (v v' : View) : Prop where
  used : ∃ len, (v'.queue dir).used = (v.queue dir).used ++ [(handle, len)]
  lent : (v'.queue dir).lent = (v.queue dir).lent.eraseP fun entry => entry.1 = handle
  others : ∀ other, other ≠ dir → v'.queue other = v.queue other
  completed : ∀ d h, completed v'.journal d h =
    completed v.journal d h + if d = dir ∧ h = handle then 1 else 0

structure Dequeues (dir : Dir) (handle : UInt32) (msg : Ptr) (v v' : View) : Prop where
  available : (v.queue dir).available = (handle, msg) :: (v'.queue dir).available
  took : ∀ d h, took v'.journal d h = took v.journal d h + if d = dir ∧ h = handle then 1 else 0

section
variable {v v' : View} {dir d : Dir} {handle h : UInt32} {msg m : Ptr}

theorem Dequeues.front (dequeues : Dequeues dir handle msg v v') :
    (handle, msg) ∈ (v.queue dir).available := by
  rw [dequeues.available]
  exact List.mem_cons_self

variable (dequeues : Dequeues dir handle msg v v')
  (others : ∀ other, other ≠ dir → (v'.queue other).available = (v.queue other).available)
include dequeues others

theorem Dequeues.inside : (v'.queue d).available ⊆ (v.queue d).available := by
  by_cases here : d = dir
  · subst here
    rw [dequeues.available]
    exact List.subset_cons_self _ _
  · rw [others d here]
    exact List.Subset.refl _

theorem Dequeues.nodup (distinct : (v.queue d).available.Nodup) :
    (v'.queue d).available.Nodup := by
  by_cases here : d = dir
  · subst here
    rw [dequeues.available] at distinct
    exact distinct.of_cons
  · rw [others d here]
    exact distinct

theorem dequeued_flows : took v'.journal d h + ((v'.queue d).available.map Prod.fst).count h =
    took v.journal d h + ((v.queue d).available.map Prod.fst).count h := by
  rw [dequeues.took]
  by_cases here : d = dir
  · subst here
    rw [dequeues.available, List.map_cons, List.count_cons]
    simp only [true_and, beq_iff_eq, eq_comm (a := handle)]
    omega
  · rw [others d here]
    simp [here]

end

def SameLinks (v v' : View) (except : Ptr → Prop) : Prop :=
  ∀ msg, ¬except msg → (v'.msgs msg).next = (v.msgs msg).next ∧
    (v'.msgs msg).cookieSave = (v.msgs msg).cookieSave

namespace Owned

variable {ringSize : Nat} {v v' : View} {waiting : Dir → Ptr → List Ptr} {dir d : Dir}
  {record r msg m : Ptr} {handle : UInt32} {async : Async}

/-- A message that waits is lent under the descriptor that the server has saved in it. -/
theorem waiting_lent (owned : Owned ringSize v waiting) (waits : msg ∈ waiting dir record) :
    ((v.msgs msg).cookieSave, msg) ∈ (v.queue dir).lent :=
  (owned.lent dir _ msg).mpr (.inr ⟨record, waits, rfl⟩)

theorem available_lent (owned : Owned ringSize v waiting)
    (available : (handle, msg) ∈ (v.queue dir).available) : (handle, msg) ∈ (v.queue dir).lent :=
  (owned.lent dir handle msg).mpr (.inl available)

theorem lent_once (owned : Owned ringSize v waiting) {other : UInt32}
    (here : (handle, msg) ∈ (v.queue dir).lent) (there : (other, msg) ∈ (v.queue d).lent) :
    d = dir ∧ other = handle := by
  have distinct := owned.msgs
  rw [List.map_append, List.nodup_append] at distinct
  obtain ⟨tx, rx, apart⟩ := distinct
  have inside : ∀ dir handle, (handle, msg) ∈ (v.queue dir).lent →
      msg ∈ (v.queue dir).lent.map Prod.snd := by
    intro dir handle member
    exact List.mem_map_of_mem (f := Prod.snd) member
  have same : d = dir := by
    cases d with
    | tx =>
      cases dir with
      | tx => rfl
      | rx => exact absurd rfl (apart msg (inside .tx _ there) msg (inside .rx _ here))
    | rx =>
      cases dir with
      | tx => exact absurd rfl (apart msg (inside .tx _ here) msg (inside .rx _ there))
      | rx => rfl
  subst same
  have nodup : ((v.queue d).lent.map Prod.snd).Nodup := by
    cases d with
    | tx => exact tx
    | rx => exact rx
  have both := List.inj_on_of_nodup_map nodup there here rfl
  exact ⟨rfl, congrArg Prod.fst both⟩

/-- A message in an available ring waits nowhere. -/
theorem available_waits (owned : Owned ringSize v waiting)
    (available : (handle, msg) ∈ (v.queue dir).available) : msg ∉ waiting d r := by
  intro waits
  obtain ⟨rfl, _⟩ :=
    owned.lent_once (owned.available_lent available) (owned.waiting_lent waits)
  exact owned.taken d handle msg r available waits

theorem waits_once (owned : Owned ringSize v waiting) (here : msg ∈ waiting dir record)
    (there : msg ∈ waiting d r) : d = dir ∧ r = record := by
  obtain ⟨rfl, _⟩ := owned.lent_once (owned.waiting_lent here) (owned.waiting_lent there)
  exact ⟨rfl, (owned.single d record r msg here there).symm⟩

theorem handle_once (owned : Owned ringSize v waiting) (here : (handle, msg) ∈ (v.queue dir).lent)
    (there : (handle, m) ∈ (v.queue dir).lent) : m = msg :=
  congrArg Prod.snd (List.inj_on_of_nodup_map (owned.handles dir) there here rfl)

/-- The messages that wait are those that waited, the first one of a list apart. -/
theorem mem_place_tail {rest : List Ptr} (owned : Owned ringSize v waiting)
    (front : waiting dir record = msg :: rest) (nodup : (msg :: rest).Nodup) :
    m ∈ place waiting dir record rest d r ↔ m ∈ waiting d r ∧ m ≠ msg := by
  have waits : msg ∈ waiting dir record := by
    rw [front]
    exact List.mem_cons_self
  rw [List.nodup_cons] at nodup
  rw [place_apply]
  split
  · next here =>
    obtain ⟨rfl, rfl⟩ := here
    rw [front]
    constructor
    · intro later
      refine ⟨List.mem_cons_of_mem _ later, ?_⟩
      rintro rfl
      exact nodup.1 later
    · rintro ⟨member, other⟩
      exact (List.mem_cons.mp member).resolve_left other
  · next elsewhere =>
    refine ⟨fun member => ⟨member, ?_⟩, And.left⟩
    rintro rfl
    exact elsewhere (owned.waits_once waits member)

section
variable {pending : Pending} {nodes : List Ptr}
  (transport : v'.transport =
    Function.update v.transport record (some (async.setPending dir pending)))
include transport

/-- Every pending list is linked if the changed one is and the others still are. -/
theorem linked_place {async' : Async} (held : v.transport record = some async)
    (linked : Linked (fun m => (v'.msgs m).next) pending.queue pending.queueEnd nodes)
    (others : ∀ d r async', v.transport r = some async' → ¬(d = dir ∧ r = record) →
      Linked (fun m => (v'.msgs m).next) (async'.pending d).queue (async'.pending d).queueEnd
        (waiting d r))
    (held' : v'.transport r = some async') :
    Linked (fun m => (v'.msgs m).next) (async'.pending d).queue (async'.pending d).queueEnd
      (place waiting dir record nodes d r) := by
  rw [transport] at held'
  rw [place_apply]
  by_cases mine : d = dir ∧ r = record
  · obtain ⟨rfl, rfl⟩ := mine
    rw [Function.update_self] at held'
    obtain rfl := Option.some.inj held'
    rw [if_pos ⟨rfl, rfl⟩, Async.pending_setPending]
    exact linked
  · rw [if_neg mine]
    by_cases here : r = record
    · subst here
      have elsewhere : d ≠ dir := fun same => mine ⟨same, rfl⟩
      rw [Function.update_self] at held'
      obtain rfl := Option.some.inj held'
      rw [Async.pending_setPending_of_ne _ elsewhere]
      exact others d r async held mine
    · rw [Function.update_of_ne here] at held'
      exact others d r async' held' mine

theorem idle_place (owned : Owned ringSize v waiting) (none : v'.transport r = none) :
    place waiting dir record nodes d r = [] := by
  rw [transport] at none
  have elsewhere : r ≠ record := by
    rintro rfl
    rw [Function.update_self] at none
    cases none
  rw [Function.update_of_ne elsewhere] at none
  rw [place_apply, if_neg fun both => elsewhere both.2]
  exact owned.idle d r none

end

theorem completes_rings (owned : Owned ringSize v waiting) (completes : Completes dir handle v v')
    (lent : (handle, msg) ∈ (v.queue dir).lent)
    (flows : ∀ d h, took v'.journal d h + ((v'.queue d).available.map Prod.fst).count h =
      took v.journal d h + ((v.queue d).available.map Prod.fst).count h) :
    (∀ d, ((v'.queue d).lent.map Prod.fst).Nodup) ∧
      (((v'.queue .tx).lent ++ (v'.queue .rx).lent).map Prod.snd).Nodup ∧
      (∀ d, (v'.queue d).used.length + (v'.queue d).lent.length ≤ ringSize) ∧
      ∀ d h, took v'.journal d h + ((v'.queue d).available.map Prod.fst).count h =
        completed v'.journal d h + ((v'.queue d).lent.map Prod.fst).count h := by
  have shorter : ∀ d, (v'.queue d).lent.Sublist (v.queue d).lent := by
    intro d
    by_cases here : d = dir
    · subst here
      rw [completes.lent]
      exact List.eraseP_sublist
    · rw [completes.others d here]
  have key : handle ∈ (v.queue dir).lent.map Prod.fst := List.mem_map_of_mem (f := Prod.fst) lent
  refine ⟨fun d => (owned.handles d).sublist ((shorter d).map _), ?_, fun d => ?_, fun d h => ?_⟩
  · exact owned.msgs.sublist (((shorter .tx).append (shorter .rx)).map _)
  · by_cases here : d = dir
    · subst here
      obtain ⟨len, used⟩ := completes.used
      have gone := List.length_erase_of_mem key
      rw [← keys_eraseP, ← completes.lent, List.length_map, List.length_map] at gone
      have some : 0 < (v.queue d).lent.length := List.length_pos_of_mem lent
      have before := owned.room d
      rw [used, List.length_append, List.length_singleton]
      omega
    · rw [completes.others d here]
      exact owned.room d
  · rw [flows, owned.balance, completes.completed]
    by_cases here : d = dir
    · subst here
      rw [completes.lent, keys_eraseP, List.count_erase]
      by_cases mine : h = handle
      · subst mine
        have once := List.count_pos_iff.mpr key
        simp only [and_self, if_true, beq_self_eq_true]
        omega
      · have other : (handle == h) = false := beq_false_of_ne (Ne.symm mine)
        simp [mine, other]
    · rw [completes.others d here]
      simp [here]

/-- The first available message is completed at once. -/
theorem serve (owned : Owned ringSize v waiting) (dequeues : Dequeues dir handle msg v v')
    (completes : Completes dir handle v v') (transport : v'.transport = v.transport)
    (links : SameLinks v v' (· = msg)) : Owned ringSize v' waiting := by
  have lent := owned.available_lent dequeues.front
  have nodup := owned.available dir
  rw [dequeues.available, List.nodup_cons] at nodup
  have others : ∀ other, other ≠ dir → (v'.queue other).available = (v.queue other).available :=
    fun other different => by rw [completes.others other different]
  obtain ⟨handles, msgs, room, balance⟩ :=
    owned.completes_rings completes lent fun _ _ => dequeued_flows dequeues others
  have other : ∀ d r m, m ∈ waiting d r → m ≠ msg := by
    rintro d r m waits rfl
    exact owned.available_waits dequeues.front waits
  refine ⟨fun d r async held => ?_, fun d r none => owned.idle d r (transport ▸ none),
    fun d h m => ?_, owned.single,
    fun d h m r member => owned.taken d h m r (dequeues.inside others member), handles, msgs,
    fun d => dequeues.nodup others (owned.available d), room, balance⟩
  · apply (owned.linked d r async (transport ▸ held)).frame
    exact fun m waits => (links m (other d r m waits)).1
  · by_cases here : d = dir
    · subst here
      -- the descriptor has left both rings
      rw [completes.lent, mem_eraseP_iff (owned.handles d), owned.lent, dequeues.available]
      constructor
      · rintro ⟨member, different⟩
        rcases member with member | ⟨r, waits, cookie⟩
        · rcases List.mem_cons.mp member with same | later
          · exact absurd (congrArg Prod.fst same) different
          · exact .inl later
        · exact .inr ⟨r, waits, (links m (other d r m waits)).2.trans cookie⟩
      · rintro (later | ⟨r, waits, cookie⟩)
        · refine ⟨.inl (List.mem_cons_of_mem _ later), ?_⟩
          rintro rfl
          have again := owned.available_lent (dequeues.inside others later)
          obtain rfl := owned.handle_once lent again
          exact nodup.1 later
        · have cookie := (links m (other d r m waits)).2.symm.trans cookie
          refine ⟨.inr ⟨r, waits, cookie⟩, ?_⟩
          rintro rfl
          exact other d r m waits (owned.handle_once lent (cookie ▸ owned.waiting_lent waits))
    · rw [completes.others d here, owned.lent]
      refine or_congr_right (exists_congr fun r => and_congr_right fun waits => ?_)
      rw [(links m (other d r m waits)).2]

theorem lent_leave {left : Dir → Ptr → List Ptr} (owned : Owned ringSize v waiting)
    (waits : msg ∈ waiting dir record) (completes : Completes dir (v.msgs msg).cookieSave v v')
    (links : SameLinks v v' (· = msg))
    (now : ∀ d r m, m ∈ left d r ↔ m ∈ waiting d r ∧ m ≠ msg) :
    (handle, m) ∈ (v'.queue d).lent ↔ (handle, m) ∈ (v.queue d).available ∨
      ∃ r, m ∈ left d r ∧ (v'.msgs m).cookieSave = handle := by
  have lent := owned.waiting_lent waits
  by_cases here : d = dir
  · subst here
    rw [completes.lent, mem_eraseP_iff (owned.handles d), owned.lent]
    constructor
    · rintro ⟨member, different⟩
      rcases member with member | ⟨r, waits', cookie⟩
      · exact .inl member
      · have other : m ≠ msg := by
          rintro rfl
          exact different cookie.symm
        exact .inr ⟨r, (now d r m).mpr ⟨waits', other⟩, (links m other).2.trans cookie⟩
    · rintro (member | ⟨r, member, cookie⟩)
      · refine ⟨.inl member, ?_⟩
        rintro rfl
        obtain rfl := owned.handle_once lent (owned.available_lent member)
        exact owned.available_waits member waits
      · obtain ⟨waits', other⟩ := (now d r m).mp member
        have cookie := (links m other).2.symm.trans cookie
        refine ⟨.inr ⟨r, waits', cookie⟩, ?_⟩
        rintro rfl
        exact other (owned.handle_once lent (cookie ▸ owned.waiting_lent waits'))
  · rw [completes.others d here, owned.lent]
    have other : ∀ r, m ∈ waiting d r → m ≠ msg := by
      rintro r waits' rfl
      exact here (owned.waits_once waits waits').1
    refine or_congr_right (exists_congr fun r => ?_)
    rw [now]
    constructor
    · rintro ⟨waits', cookie⟩
      exact ⟨⟨waits', other r waits'⟩, (links m (other r waits')).2.trans cookie⟩
    · rintro ⟨⟨waits', other⟩, cookie⟩
      exact ⟨waits', (links m other).2.symm.trans cookie⟩

/-- The first message of a pending list is completed. -/
theorem leave {rest : List Ptr} (owned : Owned ringSize v waiting)
    (front : waiting dir record = msg :: rest) (held : v.transport record = some async)
    (completes : Completes dir (v.msgs msg).cookieSave v v')
    (available : (v'.queue dir).available = (v.queue dir).available)
    (same : ∀ d h, took v'.journal d h = took v.journal d h)
    (transport : v'.transport = Function.update v.transport record
      (some (async.setPending dir ((async.pending dir).pop msg (v.msgs msg).next))))
    (links : SameLinks v v' (· = msg)) : Owned ringSize v' (place waiting dir record rest) := by
  have waits : msg ∈ waiting dir record := by
    rw [front]
    exact List.mem_cons_self
  have linked := owned.linked dir record async held
  rw [front] at linked
  have now : ∀ d r m, m ∈ place waiting dir record rest d r ↔ m ∈ waiting d r ∧ m ≠ msg :=
    fun _ _ _ => owned.mem_place_tail front linked.1.nodup
  have availables : ∀ d, (v'.queue d).available = (v.queue d).available := by
    intro d
    by_cases here : d = dir
    · rw [here, available]
    · rw [completes.others d here]
  have flows : ∀ d h, took v'.journal d h + ((v'.queue d).available.map Prod.fst).count h =
      took v.journal d h + ((v.queue d).available.map Prod.fst).count h := by
    intro d h
    rw [same, availables]
  obtain ⟨handles, msgs, room, balance⟩ :=
    owned.completes_rings completes (owned.waiting_lent waits) flows
  refine ⟨fun d r async' held' => ?_, fun d r none => idle_place transport owned none,
    fun d h m => ?_, ?_, ?_, handles, msgs, fun d => availables d ▸ owned.available d, room,
    balance⟩
  · refine linked_place transport held ?_ (fun d r async' held' elsewhere => ?_) held'
    · refine linked.pop.frame fun m member => (links m ?_).1
      rintro rfl
      exact (List.nodup_cons.mp linked.1.nodup).1 member
    · refine (owned.linked d r async' held').frame fun m waits' => (links m ?_).1
      rintro rfl
      exact elsewhere (owned.waits_once waits waits')
  · rw [availables]
    exact owned.lent_leave waits completes links now
  · intro d r r' m here there
    exact owned.single d r r' m ((now d r m).mp here).1 ((now d r' m).mp there).1
  · intro d h m r member waits'
    exact owned.taken d h m r (availables d ▸ member) ((now d r m).mp waits').1

theorem lent_wait {joined : Dir → Ptr → List Ptr} (owned : Owned ringSize v waiting)
    (dequeues : Dequeues dir handle msg v v')
    (others : ∀ other, other ≠ dir → (v'.queue other).available = (v.queue other).available)
    (later : ∀ d h m, (h, m) ∈ (v'.queue d).available → m ≠ msg)
    (now : ∀ d r m, m ∈ joined d r ↔ m ∈ waiting d r ∨ d = dir ∧ r = record ∧ m = msg)
    (cookie : (v'.msgs msg).cookieSave = handle)
    (cookies : ∀ m, m ≠ msg → (v'.msgs m).cookieSave = (v.msgs m).cookieSave) {h : UInt32} :
    (h, m) ∈ (v.queue d).lent ↔ (h, m) ∈ (v'.queue d).available ∨
      ∃ r, m ∈ joined d r ∧ (v'.msgs m).cookieSave = h := by
  by_cases mine : m = msg
  · subst mine
    constructor
    · intro member
      obtain ⟨rfl, rfl⟩ := owned.lent_once (owned.available_lent dequeues.front) member
      exact .inr ⟨record, (now d record m).mpr (.inr ⟨rfl, rfl, rfl⟩), cookie⟩
    · rintro (member | ⟨r, waits, same⟩)
      · exact absurd rfl (later d h m member)
      · rcases (now d r m).mp waits with waits | ⟨rfl, rfl, _⟩
        · exact absurd waits (owned.available_waits dequeues.front)
        · rw [cookie] at same
          exact same ▸ owned.available_lent dequeues.front
  · rw [owned.lent]
    refine or_congr ?_ (exists_congr fun r => ?_)
    · by_cases here : d = dir
      · subst here
        rw [dequeues.available, List.mem_cons]
        exact or_iff_right fun same => mine (congrArg Prod.snd same)
      · rw [others d here]
    · rw [now, cookies m mine]
      exact and_congr_left' (or_iff_left fun same => mine same.2.2).symm

/-- The first available message goes to the end of a pending list. -/
theorem wait {pending : Pending} (owned : Owned ringSize v waiting)
    (dequeues : Dequeues dir handle msg v v') (held : v.transport record = some async)
    (others : ∀ other, other ≠ dir → v'.queue other = v.queue other)
    (used : (v'.queue dir).used = (v.queue dir).used)
    (lent : (v'.queue dir).lent = (v.queue dir).lent)
    (same : ∀ d h, completed v'.journal d h = completed v.journal d h)
    (transport : v'.transport =
      Function.update v.transport record (some (async.setPending dir pending)))
    (linked : Linked (fun m => (v'.msgs m).next) pending.queue pending.queueEnd
      (waiting dir record ++ [msg]))
    (cookie : (v'.msgs msg).cookieSave = handle)
    (cookies : ∀ m, m ≠ msg → (v'.msgs m).cookieSave = (v.msgs m).cookieSave)
    (links : ∀ m, m ≠ msg → m ∉ waiting dir record → (v'.msgs m).next = (v.msgs m).next) :
    Owned ringSize v' (place waiting dir record (waiting dir record ++ [msg])) := by
  have nodup := owned.available dir
  rw [dequeues.available, List.nodup_cons] at nodup
  have other : ∀ d r m, m ∈ waiting d r → m ≠ msg := by
    rintro d r m waits rfl
    exact owned.available_waits dequeues.front waits
  have rings : ∀ d, (v'.queue d).used = (v.queue d).used ∧
      (v'.queue d).lent = (v.queue d).lent := by
    intro d
    by_cases here : d = dir
    · rw [here]
      exact ⟨used, lent⟩
    · rw [others d here]
      exact ⟨rfl, rfl⟩
  have others' : ∀ other, other ≠ dir → (v'.queue other).available = (v.queue other).available :=
    fun other different => by rw [others other different]
  -- the descriptor of a message that is still available is another one
  have later : ∀ d h m, (h, m) ∈ (v'.queue d).available → m ≠ msg := by
    rintro d h m member rfl
    obtain ⟨rfl, rfl⟩ := owned.lent_once (owned.available_lent (dequeues.inside others' member))
      (owned.available_lent dequeues.front)
    exact nodup.1 member
  refine ⟨fun d r async' held' => ?_, fun d r none => idle_place transport owned none,
    fun d h m => ?_, ?_, ?_, fun d => (rings d).2 ▸ owned.handles d, ?_,
    fun d => dequeues.nodup others' (owned.available d), fun d => ?_, fun d h => ?_⟩
  · refine linked_place transport held linked (fun d r async' held' elsewhere => ?_) held'
    refine (owned.linked d r async' held').frame fun m waits => links m (other d r m waits) ?_
    exact fun waits' => elsewhere (owned.waits_once waits' waits)
  · rw [(rings d).2]
    exact owned.lent_wait dequeues others' later (fun _ _ _ => mem_place_append) cookie cookies
  · intro d r r' m here there
    rcases mem_place_append.mp here with early | ⟨_, rfl, new⟩
    · rcases mem_place_append.mp there with early' | ⟨_, _, new⟩
      · exact owned.single d r r' m early early'
      · exact absurd new (other d r m early)
    · rcases mem_place_append.mp there with early' | ⟨_, rfl, _⟩
      · exact absurd new (other d r' m early')
      · rfl
  · intro d h m r member waits
    rcases mem_place_append.mp waits with waits | ⟨rfl, rfl, rfl⟩
    · exact owned.taken d h m r (dequeues.inside others' member) waits
    · exact later d h m member rfl
  · rw [(rings .tx).2, (rings .rx).2]
    exact owned.msgs
  · rw [(rings d).1, (rings d).2]
    exact owned.room d
  · rw [same, (rings d).2, ← owned.balance, dequeued_flows dequeues others']

/-- Nothing of what matters has changed. -/
theorem same (owned : Owned ringSize v waiting) (queue : v'.queue = v.queue)
    (transport : v'.transport = v.transport)
    (links : SameLinks v v' fun msg => ∀ d r, msg ∉ waiting d r)
    (took' : ∀ d h, took v'.journal d h = took v.journal d h)
    (completed' : ∀ d h, completed v'.journal d h = completed v.journal d h) :
    Owned ringSize v' waiting := by
  have links' : ∀ d r m, m ∈ waiting d r → (v'.msgs m).next = (v.msgs m).next ∧
      (v'.msgs m).cookieSave = (v.msgs m).cookieSave := by
    intro d r m waits
    exact links m fun nowhere => nowhere d r waits
  refine ⟨fun d r async held => ?_, transport ▸ owned.idle, fun d h m => ?_, owned.single,
    queue ▸ owned.taken, queue ▸ owned.handles, queue ▸ owned.msgs, queue ▸ owned.available,
    queue ▸ owned.room, fun d h => ?_⟩
  · apply (owned.linked d r async (transport ▸ held)).frame
    exact fun m waits => (links' d r m waits).1
  · rw [queue, owned.lent]
    refine or_congr_right (exists_congr fun r => and_congr_right fun waits => ?_)
    rw [(links' d r m waits).2]
  · rw [took', completed', queue, owned.balance]

/-- A client makes a message available that it has not lent. -/
theorem submit {content : Msg} (owned : Owned ringSize v waiting)
    (msgFree : msg ∉ ((v.queue .tx).lent ++ (v.queue .rx).lent).map Prod.snd)
    (handleFree : handle ∉ (v.queue dir).lent.map Prod.fst)
    (room : (v.queue dir).used.length + (v.queue dir).lent.length < ringSize) :
    Owned ringSize { v with
      msgs := Function.update v.msgs msg content
      queue := Function.update v.queue dir { v.queue dir with
        available := (v.queue dir).available ++ [(handle, msg)]
        lent := (v.queue dir).lent ++ [(handle, msg)] } } waiting := by
  have unlent : ∀ d h, (h, msg) ∉ (v.queue d).lent := by
    intro d h member
    apply msgFree
    apply List.mem_map_of_mem (f := Prod.snd) (a := (h, msg))
    cases d with
    | tx => exact List.mem_append_left _ member
    | rx => exact List.mem_append_right _ member
  have other : ∀ d r m, m ∈ waiting d r → m ≠ msg := by
    rintro d r m waits rfl
    exact unlent d _ (owned.waiting_lent waits)
  have links : ∀ d r m, m ∈ waiting d r → Function.update v.msgs msg content m = v.msgs m :=
    fun d r m waits => Function.update_of_ne (other d r m waits) _ _
  have sends : ((v.queue .tx).lent ++ (v.queue .rx).lent).map Prod.snd ++ [msg] |>.Nodup := by
    apply List.Nodup.append owned.msgs (List.nodup_singleton msg)
    exact List.disjoint_singleton.mpr msgFree
  have waits : ∀ d h m, (∃ r, m ∈ waiting d r ∧
      (Function.update v.msgs msg content m).cookieSave = h) ↔
        ∃ r, m ∈ waiting d r ∧ (v.msgs m).cookieSave = h := by
    intro d h m
    refine exists_congr fun r => and_congr_right fun waits => ?_
    rw [links d r m waits]
  -- only the rings of `dir` change, and no message that waits
  refine ⟨fun d r async held => ?_, owned.idle, ?_, owned.single, ?_, ?_, ?_, ?_, ?_, ?_⟩
  · apply (owned.linked d r async held).frame
    exact fun m waits => congrArg Msg.next (links d r m waits)
  · refine (Function.forall_update_iff v.queue fun d queue => ∀ h m, (h, m) ∈ queue.lent ↔
      (h, m) ∈ queue.available ∨ ∃ r, m ∈ waiting d r ∧
        (Function.update v.msgs msg content m).cookieSave = h).mpr
      ⟨fun h m => ?_, fun d _ h m => ?_⟩
    · rw [waits, List.mem_append, List.mem_append, owned.lent]
      exact or_right_comm
    · rw [waits, owned.lent]
  · refine (Function.forall_update_iff v.queue fun d queue => ∀ h m r,
      (h, m) ∈ queue.available → m ∉ waiting d r).mpr ⟨?_, fun d _ => owned.taken d⟩
    intro h m r member waits
    rcases List.mem_append.mp member with old | new
    · exact owned.taken dir h m r old waits
    · exact other dir r m waits (congrArg Prod.snd (List.mem_singleton.mp new))
  · refine (Function.forall_update_iff v.queue fun _ queue =>
      (queue.lent.map Prod.fst).Nodup).mpr ⟨?_, fun d _ => owned.handles d⟩
    rw [List.map_append]
    apply List.Nodup.append (owned.handles dir) (List.nodup_singleton handle)
    exact List.disjoint_singleton.mpr handleFree
  · cases dir with
    | tx =>
      refine (List.Perm.nodup_iff ?_).mpr sends
      simpa using List.perm_middle.trans (List.perm_append_singleton msg _).symm
    | rx =>
      dsimp only
      rw [Function.update_self, Function.update_of_ne (by decide), ← List.append_assoc,
        List.map_append]
      exact sends
  · refine (Function.forall_update_iff v.queue fun _ queue => queue.available.Nodup).mpr
      ⟨?_, fun d _ => owned.available d⟩
    apply List.Nodup.append (owned.available dir) (List.nodup_singleton _)
    apply List.disjoint_singleton.mpr
    exact fun member => unlent dir handle (owned.available_lent member)
  · refine (Function.forall_update_iff v.queue fun _ queue =>
      queue.used.length + queue.lent.length ≤ ringSize).mpr ⟨?_, fun d _ => owned.room d⟩
    dsimp only
    rw [List.length_append, List.length_singleton]
    omega
  · refine (Function.forall_update_iff v.queue fun d queue => ∀ h,
      took v.journal d h + (queue.available.map Prod.fst).count h =
        completed v.journal d h + (queue.lent.map Prod.fst).count h).mpr
      ⟨fun h => ?_, fun d _ => owned.balance d⟩
    have before := owned.balance dir h
    rw [List.map_append, List.map_append, List.count_append, List.count_append]
    omega

/-- The client takes an entry of a used ring. -/
theorem collect (owned : Owned ringSize v waiting) :
    Owned ringSize { v with
      queue := Function.update v.queue dir { v.queue dir with
        used := (v.queue dir).used.tail } } waiting := by
  have same : ∀ d, (Function.update v.queue dir { v.queue dir with
      used := (v.queue dir).used.tail } d).available = (v.queue d).available ∧
      (Function.update v.queue dir { v.queue dir with
        used := (v.queue dir).used.tail } d).lent = (v.queue d).lent := by
    intro d
    by_cases here : d = dir
    · subst here
      rw [Function.update_self]
      exact ⟨rfl, rfl⟩
    · rw [Function.update_of_ne here]
      exact ⟨rfl, rfl⟩
  refine ⟨owned.linked, owned.idle, fun d h m => ?_, owned.single, fun d h m r => ?_, fun d => ?_,
    ?_, fun d => ?_, fun d => ?_, fun d h => ?_⟩
  · dsimp only
    rw [(same d).1, (same d).2]
    exact owned.lent d h m
  · dsimp only
    rw [(same d).1]
    exact owned.taken d h m r
  · dsimp only
    rw [(same d).2]
    exact owned.handles d
  · dsimp only
    rw [(same .tx).2, (same .rx).2]
    exact owned.msgs
  · dsimp only
    rw [(same d).1]
    exact owned.available d
  · have before := owned.room d
    dsimp only
    rw [(same d).2]
    by_cases here : d = dir
    · subst here
      rw [Function.update_self, List.length_tail]
      omega
    · rw [Function.update_of_ne here]
      exact before
  · dsimp only
    rw [(same d).1, (same d).2]
    exact owned.balance d h

end Owned

end GlobalComponents.PicoServer
