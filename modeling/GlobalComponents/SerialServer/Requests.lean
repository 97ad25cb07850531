import GlobalComponents.SerialServer.Virtqueue
import Mathlib.Data.List.Nodup

/-! What becomes of the requests in a virtqueue.

A completion acts on the token of its direction, which belongs to the last request that was given a
buffer. The requests are served as they should be exactly when they do not overlap, and when the
copying routines finish the handles that the server does not.
-/

set_option autoImplicit false

namespace GlobalComponents.SerialServer.Virtqueue

open Library

/-! ## The requests -/

/-- What has become of the requests of one direction, and the last buffer that one was given. -/
structure Jobs where
  unallocated : List Handle
  refused : List Job
  pending : List Job
  completed : List Job
  latest : Option Buf

abbrev Ledger := Op → Jobs

def Ledger.init : Ledger := fun _ => ⟨[], [], [], [], none⟩

def Jobs.over (j : Jobs) : List Job := j.refused ++ j.completed

def Jobs.all (j : Jobs) : List Job := j.over ++ j.pending

def Jobs.complete (j : Jobs) (job : Job) : Jobs :=
  { j with pending := j.pending.erase job, completed := j.completed ++ [job] }

def Jobs.note (j : Jobs) : Event → Result → Jobs
  | _, .unallocated handle => { j with unallocated := j.unallocated ++ [handle] }
  | _, .refused job => { j with refused := j.refused ++ [job], latest := some job.buf }
  | _, .accepted job => { j with pending := j.pending ++ [job], latest := some job.buf }
  | .complete _ buf, .done =>
    match j.pending.find? (·.buf == buf) with
    | some job => j.complete job
    | none => j
  | .enqueue _ _, .done | .wait _ _, .done => j

def Event.op : Event → Op
  | .enqueue op _ | .wait op _ | .complete op _ => op

def note (_ : System) (event : Event) (result : Result) (l : Ledger) : Ledger :=
  Function.update l event.op ((l event.op).note event result)

def recording (copying : Copying) : Machine (System × Ledger) Event Result :=
  (machine copying).record note

/-- In one direction, the handle of every request is finished once when the request is over, and not
more than once before that. Every completion has notified the client. -/
structure Finished (c : Channel) (j : Jobs) : Prop where
  used : ∃ early, early.Sublist j.pending ∧
    c.used.Perm (j.unallocated ++ (j.over ++ early).map Job.handle)
  notified : c.notified = j.completed.length

/-- Exactly the buffers of the requests that are over are free, each once. -/
structure Served (s : System × Ledger) : Prop where
  finished : ∀ op, Finished (s.1.channel op) (s.2 op)
  freed : s.1.freed.Perm (((s.2 .read).over ++ (s.2 .write).over).map Job.buf)

/-- A completion is for the request of its direction that was the last to be given a buffer, and of
a kind whose handle its copying routine finishes. A write request whose handle is already finished
is not refused. -/
def Orderly (copying : Copying) (s : System × Ledger) : Event → Prop
  | .complete .read buf => (s.2 .read).latest = some buf ∧ copying.scatter = true
  | .complete .write buf => (s.2 .write).latest = some buf ∧ copying.gather = true
  | .wait .write answer => (s.1.channel .write).avail ≠ [] → answer.allocated = true →
    answer.accepted = false → copying.gather = false
  | .wait .read _ | .enqueue _ _ => True

variable {copying : Copying} {s s' : System} {l l' : Ledger} {op : Op} {answer : Answer}
  {request : Request} {rest : List Request} {buf : Buf} {event : Event} {result : Result}
  {c : Channel} {j j' : Jobs}

/-! ## What holds in any order -/

/-- A token holds no buffer but the last one. The lengths are bounds that no later step repairs. -/
structure Fits (copying : Copying) (op : Op) (c : Channel) (j : Jobs) : Prop where
  accepted : c.accepted.Perm (j.pending.map Job.buf)
  token : ∀ buf, c.token.serialBuf = some buf → j.latest = some buf ∧ c.token.vq = some op
  late : copying.atSubmission op = false → copying.atCompletion op = false →
    c.used.length = j.unallocated.length + j.refused.length
  early : copying.atSubmission op = true →
    j.unallocated.length + j.over.length + j.pending.length ≤ c.used.length

structure Sound (copying : Copying) (s : System × Ledger) : Prop where
  fits : ∀ op, Fits copying op (s.1.channel op) (s.2 op)
  bufs : (((s.2 .read).all ++ (s.2 .write).all).map Job.buf).Perm (List.range s.1.allocated)

theorem each_update {Holds : Op → Channel → Jobs → Prop} (op : Op) (here : Holds op c j)
    (others : ∀ other, Holds other (s.channel other) (l other)) (other : Op) :
    Holds other (Function.update s.channel op c other) (Function.update l op j other) := by
  by_cases same : other = op
  · subst same
    rw [Function.update_self, Function.update_self]
    exact here
  · rw [Function.update_of_ne same, Function.update_of_ne same]
    exact others other

theorem both_perm (part : Jobs → List Job) {new : List Buf}
    (here : ((part j').map Job.buf).Perm ((part (l op)).map Job.buf ++ new)) :
    ((part (Function.update l op j' .read) ++ part (Function.update l op j' .write)).map Job.buf).Perm
      ((part (l .read) ++ part (l .write)).map Job.buf ++ new) := by
  apply List.perm_iff_count.mpr
  intro buf
  have count := here.count_eq buf
  cases op with
  | read =>
    have other : Op.write ≠ .read := nofun
    rw [Function.update_self, Function.update_of_ne other]
    simp only [List.map_append, List.count_append] at count ⊢
    omega
  | write =>
    have other : Op.read ≠ .write := nofun
    rw [Function.update_self, Function.update_of_ne other]
    simp only [List.map_append, List.count_append] at count ⊢
    omega

theorem both_same (here : (j'.all.map Job.buf).Perm ((l op).all.map Job.buf)) :
    (((Function.update l op j' .read).all ++ (Function.update l op j' .write).all).map Job.buf).Perm
      (((l .read).all ++ (l .write).all).map Job.buf) := by
  have same := both_perm Jobs.all (here.trans (.of_eq (List.append_nil _).symm))
  rwa [List.append_nil] at same

theorem Sound.distinct (sound : Sound copying (s, l)) (op : Op) :
    ((l op).pending.map Job.buf).Nodup := by
  have all := sound.bufs.nodup_iff.mpr List.nodup_range
  simp only [Jobs.all, List.map_append] at all
  cases op with
  | read => exact (List.nodup_append.mp (List.nodup_append.mp all).1).2.1
  | write => exact (List.nodup_append.mp (List.nodup_append.mp all).2.1).2.1

theorem Sound.fresh (sound : Sound copying (s, l)) {job : Job} (member : job ∈ (l op).pending) :
    job.buf ≠ s.allocated := by
  have all : job.buf ∈ List.range s.allocated := by
    apply sound.bufs.subset
    apply List.mem_map_of_mem
    cases op with
    | read => exact List.mem_append_left _ (List.mem_append_right _ member)
    | write => exact List.mem_append_right _ (List.mem_append_right _ member)
  exact (List.mem_range.mp all).ne

theorem Fits.find (fits : Fits copying op c j) (member : buf ∈ c.accepted) :
    ∃ job, j.note (.complete op buf) .done = j.complete job ∧ job.buf = buf ∧ job ∈ j.pending := by
  obtain ⟨job, pending, same⟩ := List.mem_map.mp (fits.accepted.subset member)
  cases found : j.pending.find? (·.buf == buf) with
  | none =>
    have other := List.find?_eq_none.mp found job pending
    exact absurd (beq_iff_eq.mpr same) other
  | some job =>
    have hit := List.find?_some found
    refine ⟨job, ?_, eq_of_beq hit, List.mem_of_find?_eq_some found⟩
    simp only [Jobs.note, found]

theorem Fits.unallocated (fits : Fits copying op c j) (rest : List Request) (handle : Handle) :
    Fits copying op { c with avail := rest, inProgress := true, used := c.used ++ [handle] }
      { j with unallocated := j.unallocated ++ [handle] } where
  accepted := fits.accepted
  token := fits.token
  late submission completion := by
    have before := fits.late submission completion
    simp only [List.length_append, List.length_singleton]
    omega
  early submission := by
    have before := fits.early submission
    simp only [List.length_append, List.length_singleton, Jobs.over] at before ⊢
    omega

theorem Fits.refused (fits : Fits copying op c j) (request : Request) (rest : List Request)
    (buf : Buf) : Fits copying op
      { c.given copying op request rest buf with
        used := (c.given copying op request rest buf).used ++ [request.handle] }
      (j.note event (.refused ⟨request.handle, buf⟩)) where
  accepted := fits.accepted
  token _ holds := ⟨holds, rfl⟩
  late submission completion := by
    have before := fits.late submission completion
    simp only [Jobs.note, Channel.given, submission, finishedIf, List.length_append,
      List.length_singleton, Bool.false_eq_true, if_false, List.length_nil]
    omega
  early submission := by
    have before := fits.early submission
    simp only [Jobs.note, Channel.given, List.length_append, List.length_singleton,
      Jobs.over] at before ⊢
    omega

theorem Fits.taken (fits : Fits copying op c j) (request : Request) (rest : List Request)
    (buf : Buf) : Fits copying op
      { c.given copying op request rest buf with accepted := c.accepted ++ [buf] }
      (j.note event (.accepted ⟨request.handle, buf⟩)) where
  accepted := by
    rw [Jobs.note, List.map_append]
    exact fits.accepted.append_right _
  token _ holds := ⟨holds, rfl⟩
  late submission completion := by
    have before := fits.late submission completion
    simp only [Jobs.note, Channel.given, submission, finishedIf, Bool.false_eq_true, if_false,
      List.append_nil]
    exact before
  early submission := by
    have before := fits.early submission
    simp only [Jobs.note, Channel.given, submission, finishedIf, List.length_append,
      List.length_singleton, Jobs.over, if_true] at before ⊢
    omega

theorem Fits.completed (fits : Fits copying op c j) {job : Job} (pending : job ∈ j.pending)
    {c' : Channel} (accepted : c'.accepted = c.accepted.erase job.buf)
    (token : c'.token.serialBuf = none)
    (used : c'.used = c.used ∨ c'.used = c.used ++ finishedIf (copying.atCompletion op) c.token.handle) :
    Fits copying op c' (j.complete job) where
  accepted := by
    rw [accepted]
    have first := (List.perm_cons_erase pending).map Job.buf
    have both := (fits.accepted.trans first).erase job.buf
    rwa [List.map_cons, List.erase_cons_head] at both
  token _ holds := by
    rw [token] at holds
    cases holds
  late submission completion := by
    have before := fits.late submission completion
    rw [completion] at used
    have same : c'.used = c.used := used.elim id fun later => later.trans (List.append_nil _)
    rw [same]
    exact before
  early submission := by
    have before := fits.early submission
    have longer : c.used.length ≤ c'.used.length := by
      rcases used with same | later
      · rw [same]
      · rw [later, List.length_append]
        exact Nat.le_add_right _ _
    have shorter := List.length_erase_of_mem pending
    have some := List.length_pos_of_mem pending
    simp only [Jobs.complete, Jobs.over, List.length_append, List.length_singleton] at before ⊢
    omega

inductive Stepped (copying : Copying) (s : System) (l : Ledger) : Event → System → Ledger → Prop where
  | quiet {event : Event} (op : Op) (avail : List Request) (orderly : Orderly copying (s, l) event) :
    Stepped copying s l event (s.modify op fun c => { c with avail }) l
  | unallocated {op : Op} {answer : Answer} (request : Request) (rest : List Request)
      (given : answer.allocated = false) :
    Stepped copying s l (.wait op answer)
      (s.modify op fun c =>
        { c with avail := rest, inProgress := true, used := c.used ++ [request.handle] })
      (Function.update l op
        { l op with unallocated := (l op).unallocated ++ [request.handle] })
  | refused {op : Op} {answer : Answer} (request : Request) (rest : List Request)
      (avail : (s.channel op).avail = request :: rest) (given : answer.allocated = true)
      (refused : answer.accepted = false) :
    Stepped copying s l (.wait op answer)
      { s.modify op (fun c =>
          { c.given copying op request rest s.allocated with
            used := (c.given copying op request rest s.allocated).used ++ [request.handle] }) with
        allocated := s.allocated + 1
        freed := s.freed ++ [s.allocated] }
      (Function.update l op
        ((l op).note (.wait op answer) (.refused ⟨request.handle, s.allocated⟩)))
  | accepted {op : Op} {answer : Answer} (request : Request) (rest : List Request)
      (accepted : answer.accepted = true) :
    Stepped copying s l (.wait op answer)
      { s.modify op (fun c =>
          { c.given copying op request rest s.allocated with
            accepted := c.accepted ++ [s.allocated] }) with
        allocated := s.allocated + 1 }
      (Function.update l op
        ((l op).note (.wait op answer) (.accepted ⟨request.handle, s.allocated⟩)))
  | ignored {op : Op} (job : Job) (pending : job ∈ (l op).pending)
      (empty : (s.channel op).token.serialBuf = none) :
    Stepped copying s l (.complete op job.buf)
      (s.modify op fun c => { c with accepted := c.accepted.erase job.buf })
      (Function.update l op ((l op).complete job))
  | released {op : Op} (job : Job) {held : Buf} (pending : job ∈ (l op).pending)
      (holds : (s.channel op).token.serialBuf = some held) :
    Stepped copying s l (.complete op job.buf)
      { s.modify op (·.released copying op job.buf) with freed := s.freed ++ [held] }
      (Function.update l op ((l op).complete job))

theorem step_stepped {before after : System × Ledger} (sound : Sound copying before)
    (allowed : (recording copying).allowed before event)
    (step : (recording copying).step before event = some (after, result)) :
    Stepped copying before.1 before.2 event after.1 after.2 := by
  obtain ⟨s, l⟩ := before
  obtain ⟨s', l'⟩ := after
  obtain ⟨ran, noted⟩ := Machine.record_step step
  dsimp only at ran noted
  subst noted
  have ran : s.run copying event = some (s', result) := ran
  cases event with
  | enqueue vq request =>
    cases ran
    rw [note, Jobs.note, Event.op, Function.update_eq_self]
    exact .quiet vq _ trivial
  | wait op answer =>
    cases avail : (s.channel op).avail with
    | nil =>
      rw [run_idle avail] at ran
      cases ran
      have same : s.modify op (fun c => { c with avail := (s.channel op).avail }) = s :=
        congrArg (System.mk · s.allocated s.freed) (Function.update_eq_self _ _)
      have quiet : Stepped copying s l (.wait op answer)
          (s.modify op fun c => { c with avail := (s.channel op).avail }) l := by
        apply Stepped.quiet
        cases op with
        | read => trivial
        | write => exact fun left => absurd avail left
      rw [same] at quiet
      rw [note, Jobs.note, Event.op, Function.update_eq_self]
      exact quiet
    | cons request rest =>
      cases given : answer.allocated with
      | false =>
        rw [run_unallocated avail given] at ran
        cases ran
        exact .unallocated request rest given
      | true =>
        cases accepted : answer.accepted with
        | false =>
          rw [run_refused avail given accepted] at ran
          cases ran
          exact .refused request rest avail given accepted
        | true =>
          rw [run_accepted avail given accepted] at ran
          cases ran
          exact .accepted request rest accepted
  | complete op buf =>
    have fits := sound.fits op
    -- what the device has done is the request it was given with this buffer
    have taken : result = .done → ∃ job, note s (.complete op buf) result l =
        Function.update l op ((l op).complete job) ∧ job.buf = buf ∧ job ∈ (l op).pending := by
      rintro rfl
      obtain ⟨job, noted, same, pending⟩ := fits.find allowed
      exact ⟨job, congrArg (Function.update l op) noted, same, pending⟩
    cases holds : (s.channel op).token.serialBuf with
    | none =>
      rw [run_complete_none holds] at ran
      cases ran
      obtain ⟨job, noted, rfl, pending⟩ := taken rfl
      rw [noted]
      exact .ignored job pending holds
    | some held =>
      rw [run_complete_some holds (fits.token held holds).2] at ran
      cases ran
      obtain ⟨job, noted, rfl, pending⟩ := taken rfl
      rw [noted]
      exact .released job pending holds

theorem Jobs.complete_all {job : Job} (pending : job ∈ j.pending) :
    ((j.complete job).all.map Job.buf).Perm (j.all.map Job.buf) := by
  apply List.Perm.map
  have moved := List.perm_cons_erase pending
  apply List.perm_iff_count.mpr
  intro other
  have count := moved.count_eq other
  simp only [Jobs.all, Jobs.over, Jobs.complete, List.count_append, List.count_cons,
    List.count_nil] at count ⊢
  omega

theorem Sound.fits_update (sound : Sound copying (s, l)) (op : Op) (here : Fits copying op c j)
    (other : Op) :
    Fits copying other (Function.update s.channel op c other) (Function.update l op j other) :=
  each_update op here sound.fits other

theorem Sound.step (sound : Sound copying (s, l)) (stepped : Stepped copying s l event s' l') :
    Sound copying (s', l') := by
  cases stepped with
  | quiet op avail =>
    have here : Fits copying op { s.channel op with avail } (l op) :=
      ⟨(sound.fits op).accepted, (sound.fits op).token, (sound.fits op).late, (sound.fits op).early⟩
    refine ⟨fun other => ?_, sound.bufs⟩
    have fits := sound.fits_update op here other
    rwa [Function.update_eq_self] at fits
  | @unallocated op answer request rest =>
    refine ⟨sound.fits_update op ((sound.fits op).unallocated rest request.handle), ?_⟩
    have same : ((Jobs.all { l op with
        unallocated := (l op).unallocated ++ [request.handle] }).map Job.buf).Perm
          ((l op).all.map Job.buf) := .refl _
    exact (both_same same).trans sound.bufs
  | @refused op answer request rest =>
    refine ⟨sound.fits_update op ((sound.fits op).refused request rest s.allocated), ?_⟩
    dsimp only
    rw [List.range_succ]
    refine .trans (both_perm Jobs.all ?_) (sound.bufs.append_right _)
    apply List.perm_iff_count.mpr
    intro buf
    simp only [Jobs.all, Jobs.over, Jobs.note, List.map_append, List.map_singleton,
      List.count_append]
    omega
  | @accepted op answer request rest =>
    refine ⟨sound.fits_update op ((sound.fits op).taken request rest s.allocated), ?_⟩
    dsimp only
    rw [List.range_succ]
    refine .trans (both_perm Jobs.all ?_) (sound.bufs.append_right _)
    simp only [Jobs.all, Jobs.over, Jobs.note, List.map_append, List.map_singleton,
      List.append_assoc]
    exact .refl _
  | @ignored op job pending empty =>
    refine ⟨sound.fits_update op ((sound.fits op).completed pending rfl empty (.inl rfl)), ?_⟩
    exact (both_same (Jobs.complete_all pending)).trans sound.bufs
  | @released op job held pending holds =>
    refine ⟨sound.fits_update op ((sound.fits op).completed pending rfl rfl (.inr rfl)), ?_⟩
    exact (both_same (Jobs.complete_all pending)).trans sound.bufs

/-! ## Orderly runs -/

theorem orderly_complete_iff : Orderly copying (s, l) (.complete op buf) ↔ (l op).latest = some buf ∧
    (copying.atSubmission op = true ∨ copying.atCompletion op = true) := by
  cases op with
  | read | write => simp [Orderly, Copying.atSubmission, Copying.atCompletion]

theorem orderly_refused_iff (avail : (s.channel op).avail = request :: rest)
    (given : answer.allocated = true) (refused : answer.accepted = false) :
    Orderly copying (s, l) (.wait op answer) ↔ copying.atSubmission op = false := by
  cases op with
  | read => exact ⟨fun _ => rfl, fun _ => trivial⟩
  | write =>
    have left : (s.channel .write).avail ≠ [] := by
      rw [avail]
      exact List.cons_ne_nil _ _
    exact ⟨fun orderly => orderly left given refused, fun late _ _ _ => late⟩

theorem Copying.once (early : copying.atSubmission op = true) : copying.atCompletion op = false := by
  cases op with
  | read => cases early
  | write => rfl

structure Kept (copying : Copying) (op : Op) (c : Channel) (j : Jobs) : Prop where
  used : c.used.Perm (j.unallocated ++
    (j.over ++ if copying.atSubmission op then j.pending else []).map Job.handle)
  notified : c.notified = j.completed.length
  owned : ∀ job ∈ j.pending, j.latest = some job.buf →
    c.token.serialBuf = some job.buf ∧ c.token.handle = job.handle

theorem Kept.finished (kept : Kept copying op c j) : Finished c j := by
  refine ⟨⟨_, ?_, kept.used⟩, kept.notified⟩
  split
  · exact .refl _
  · exact List.nil_sublist _

theorem Kept.unallocated (kept : Kept copying op c j) (rest : List Request) (handle : Handle) :
    Kept copying op { c with avail := rest, inProgress := true, used := c.used ++ [handle] }
      { j with unallocated := j.unallocated ++ [handle] } where
  used := by
    apply List.perm_iff_count.mpr
    intro other
    have count := kept.used.count_eq other
    simp only [Jobs.over, List.count_append] at count ⊢
    omega
  notified := kept.notified
  owned := kept.owned

theorem Kept.refused (kept : Kept copying op c j) (request : Request) (rest : List Request)
    (late : copying.atSubmission op = false) (fresh : ∀ job ∈ j.pending, job.buf ≠ buf) :
    Kept copying op
      { c.given copying op request rest buf with
        used := (c.given copying op request rest buf).used ++ [request.handle] }
      (j.note event (.refused ⟨request.handle, buf⟩)) where
  used := by
    apply List.perm_iff_count.mpr
    intro other
    have count := kept.used.count_eq other
    simp only [Jobs.note, Jobs.over, Channel.given, late, finishedIf, Bool.false_eq_true, if_false,
      List.map_append, List.map_singleton, List.count_append, List.count_nil] at count ⊢
    omega
  notified := kept.notified
  owned job pending latest := absurd (Option.some.inj latest).symm (fresh job pending)

theorem Kept.taken (kept : Kept copying op c j) (request : Request) (rest : List Request)
    (fresh : ∀ job ∈ j.pending, job.buf ≠ buf) :
    Kept copying op { c.given copying op request rest buf with accepted := c.accepted ++ [buf] }
      (j.note event (.accepted ⟨request.handle, buf⟩)) where
  used := by
    apply List.perm_iff_count.mpr
    intro other
    have count := kept.used.count_eq other
    cases early : copying.atSubmission op with
    | false =>
      simp only [Jobs.note, Jobs.over, Channel.given, early, finishedIf, Bool.false_eq_true,
        if_false, List.append_nil] at count ⊢
      exact count
    | true =>
      simp only [Jobs.note, Jobs.over, Channel.given, early, finishedIf, if_true, List.map_append,
        List.map_singleton, List.count_append] at count ⊢
      omega
  notified := kept.notified
  owned job member latest := by
    rcases List.mem_append.mp member with pending | new
    · exact absurd (Option.some.inj latest).symm (fresh job pending)
    · cases List.mem_singleton.mp new
      exact ⟨rfl, rfl⟩

/-- The completion finds its own request in the token. -/
theorem Kept.released (kept : Kept copying op c j) {job : Job} (pending : job ∈ j.pending)
    (latest : j.latest = some job.buf) (distinct : (j.pending.map Job.buf).Nodup)
    (finishes : copying.atSubmission op = true ∨ copying.atCompletion op = true) :
    Kept copying op (c.released copying op job.buf) (j.complete job) where
  used := by
    apply List.perm_iff_count.mpr
    intro other
    have count := kept.used.count_eq other
    have moved := ((List.perm_cons_erase pending).map Job.handle).count_eq other
    have handle := (kept.owned job pending latest).2
    rcases finishes with early | late
    · have done : copying.atCompletion op = false := Copying.once early
      simp only [Jobs.complete, Jobs.over, Channel.released, early, done, finishedIf,
        Bool.false_eq_true, if_false, if_true, List.append_nil, List.map_append, List.map_cons,
        List.map_nil, List.count_append, List.count_cons, List.count_nil] at count moved ⊢
      omega
    · have waits : copying.atSubmission op = false := by
        cases early : copying.atSubmission op with
        | false => rfl
        | true => exact Bool.noConfusion (late.symm.trans (Copying.once early))
      simp only [Jobs.complete, Jobs.over, Channel.released, waits, late, handle, finishedIf,
        Bool.false_eq_true, if_false, if_true, List.append_nil, List.map_append, List.map_cons,
        List.map_nil, List.count_append, List.count_cons, List.count_nil] at count ⊢
      omega
  notified := by
    simp only [Jobs.complete, Channel.released, List.length_append, List.length_singleton,
      kept.notified]
  owned other member same := by
    have last : other.buf = job.buf := Option.some.inj (same.symm.trans latest)
    have inside : other ∈ j.pending := List.mem_of_mem_erase member
    rw [List.inj_on_of_nodup_map distinct inside pending last] at member
    exact absurd member (distinct.of_map _).not_mem_erase

def overBufs (l : Ledger) : List Buf := ((l .read).over ++ (l .write).over).map Job.buf

structure Keeps (copying : Copying) (s : System × Ledger) : Prop where
  sound : Sound copying s
  kept : ∀ op, Kept copying op (s.1.channel op) (s.2 op)
  freed : s.1.freed.Perm (overBufs s.2)

theorem Keeps.served {s : System × Ledger} (keeps : Keeps copying s) : Served s :=
  ⟨fun op => (keeps.kept op).finished, keeps.freed⟩

theorem over_update {new : List Buf}
    (here : (j'.over.map Job.buf).Perm ((l op).over.map Job.buf ++ new)) :
    (overBufs (Function.update l op j')).Perm (overBufs l ++ new) := both_perm Jobs.over here

theorem over_update_same (same : j'.over = (l op).over) :
    (overBufs (Function.update l op j')).Perm (overBufs l) := by
  have here : (j'.over.map Job.buf).Perm ((l op).over.map Job.buf ++ []) := by
    rw [same, List.append_nil]
  have kept := over_update here
  rwa [List.append_nil] at kept

theorem over_complete (job : Job) :
    (overBufs (Function.update l op ((l op).complete job))).Perm (overBufs l ++ [job.buf]) := by
  apply over_update
  rw [Jobs.complete, Jobs.over, Jobs.over, ← List.append_assoc, List.map_append]
  exact .refl _

theorem over_refused (job : Job) :
    (overBufs (Function.update l op ((l op).note event (.refused job)))).Perm
      (overBufs l ++ [job.buf]) := by
  apply over_update
  apply List.perm_iff_count.mpr
  intro buf
  simp only [Jobs.note, Jobs.over, List.map_append, List.map_singleton, List.count_append]
  omega

theorem Keeps.init : Keeps copying (System.init, Ledger.init) where
  sound := ⟨fun _ => ⟨.refl _, nofun, fun _ _ => rfl, fun _ => Nat.le_refl _⟩, .refl _⟩
  kept op := ⟨by simp [System.init, Ledger.init, Jobs.over], rfl, nofun⟩
  freed := .refl _

theorem Keeps.step (keeps : Keeps copying (s, l)) (stepped : Stepped copying s l event s' l')
    (orderly : Orderly copying (s, l) event) : Keeps copying (s', l') := by
  suffices holds : (∀ op, Kept copying op (s'.channel op) (l' op)) ∧ s'.freed.Perm (overBufs l') from
    ⟨keeps.sound.step stepped, holds.1, holds.2⟩
  cases stepped with
  | quiet op avail =>
    have here : Kept copying op { s.channel op with avail } (l op) :=
      ⟨(keeps.kept op).used, (keeps.kept op).notified, (keeps.kept op).owned⟩
    refine ⟨fun other => ?_, keeps.freed⟩
    have kept := each_update op here keeps.kept other
    rwa [Function.update_eq_self] at kept
  | @unallocated op answer request rest =>
    exact ⟨each_update op ((keeps.kept op).unallocated rest request.handle) keeps.kept,
      keeps.freed.trans (over_update_same (by rfl)).symm⟩
  | @refused op answer request rest avail given refused =>
    have late := (orderly_refused_iff avail given refused).mp orderly
    exact ⟨each_update op ((keeps.kept op).refused request rest late fun _ => keeps.sound.fresh)
      keeps.kept, (keeps.freed.append_right _).trans (over_refused
        ⟨request.handle, s.allocated⟩).symm⟩
  | @accepted op answer request rest =>
    exact ⟨each_update op ((keeps.kept op).taken request rest fun _ => keeps.sound.fresh)
      keeps.kept, keeps.freed.trans (over_update_same (by rfl)).symm⟩
  | @ignored op job pending empty =>
    obtain ⟨latest, _⟩ := orderly_complete_iff.mp orderly
    have own := ((keeps.kept op).owned job pending latest).1
    rw [empty] at own
    cases own
  | @released op job held pending holds =>
    obtain ⟨latest, finishes⟩ := orderly_complete_iff.mp orderly
    have own := ((keeps.kept op).owned job pending latest).1
    cases Option.some.inj (holds.symm.trans own)
    exact ⟨each_update op ((keeps.kept op).released pending latest (keeps.sound.distinct op) finishes)
      keeps.kept, (keeps.freed.append_right _).trans (over_complete job).symm⟩

/-- A step that is not orderly does a damage that shows at once. -/
theorem Sound.orderly (sound : Sound copying (s, l)) (served : Served (s, l))
    (stepped : Stepped copying s l event s' l') (served' : Served (s', l')) :
    Orderly copying (s, l) event := by
  have sound' := sound.step stepped
  cases stepped with
  | quiet op avail orderly => exact orderly
  | @unallocated op answer request rest given =>
    cases op with
    | read => trivial
    | write =>
      intro _ allocated
      rw [given] at allocated
      cases allocated
  | @refused op answer request rest avail given refused =>
    apply (orderly_refused_iff avail given refused).mpr
    cases early : copying.atSubmission op with
    | false => rfl
    | true =>
      -- the handle is in the used ring since the submission, and the refusal adds it again
      have before := (sound.fits op).early early
      obtain ⟨some, fewer, used⟩ := (served'.finished op).used
      have length := used.length_eq
      have short := fewer.length_le
      simp only [System.modify, Function.update_self, Channel.given, early, finishedIf, Jobs.note,
        Jobs.over, List.length_append, List.length_map, List.length_singleton, if_true]
        at before length short
      omega
  | @accepted op answer request rest accepted =>
    cases op with
    | read => trivial
    | write =>
      intro _ _ refused
      rw [accepted] at refused
      cases refused
  | @ignored op job pending empty =>
    -- nothing is freed, so one buffer more is over than is free
    have length := (served'.freed.trans (over_complete job)).length_eq
    have before := served.freed.length_eq
    simp only [overBufs, System.modify, List.length_append, List.length_singleton]
      at before length
    omega
  | @released op job held pending holds =>
    -- the buffer that is freed has to be the request's
    have freed := served'.freed.trans ((over_complete job).trans (served.freed.symm.append_right _))
    have same := List.singleton_perm_singleton.mp ((List.perm_append_left_iff _).mp freed)
    subst same
    refine orderly_complete_iff.mpr ⟨((sound.fits op).token job.buf holds).1, ?_⟩
    cases early : copying.atSubmission op with
    | true => exact .inl rfl
    | false =>
      cases late : copying.atCompletion op with
      | true => exact .inr rfl
      | false =>
        have exact := (sound'.fits op).late early late
        obtain ⟨some, fewer, used⟩ := (served'.finished op).used
        have length := used.length_eq
        simp only [Function.update_self, Jobs.complete, Jobs.over, List.length_append,
          List.length_map, List.length_singleton] at exact length
        omega

theorem Sound.init : Sound copying (System.init, Ledger.init) := Keeps.init.sound

theorem run_sound {trace : List (Event × Result)} {final : System × Ledger}
    (run : (recording copying).Run (System.init, Ledger.init) trace final) :
    Sound copying final := by
  apply run.invariant .init
  exact fun before event after result sound allowed step =>
    sound.step (step_stepped sound allowed step)

/-- In every state of a run each request is served as it should be, exactly when every step is
orderly. -/
theorem requests_served_iff {trace : List (Event × Result)} {final : System × Ledger}
    (run : (recording copying).Run (System.init, Ledger.init) trace final) :
    (recording copying).Always (System.init, Ledger.init) trace Served ↔
      (recording copying).EveryStep (System.init, Ledger.init) trace (Orderly copying) := by
  constructor
  · intro always
    have both : (recording copying).Always (System.init, Ledger.init) trace
        fun s => Sound copying s ∧ Served s :=
      fun early within state reached => ⟨run_sound reached, always early within state reached⟩
    refine both.everyStep run ?_
    rintro before event after result ⟨sound, served⟩ allowed step ⟨_, served'⟩
    exact sound.orderly served (step_stepped sound allowed step) served'
  · intro orderly early within state reached
    have keeps : Keeps copying state := by
      apply (orderly.early within).history reached
      · exact Keeps.init
      · exact fun _ before event after result keeps allowed met step =>
          keeps.step (step_stepped keeps.sound allowed step) met
    exact keeps.served

/-- A write request is served when nothing overlaps, if it is finished with its submission. -/
theorem requests_served_iff_alone : ∃ trace final,
    (recording ⟨true, true⟩).Run (System.init, Ledger.init) trace final ∧ final.1.freed = [0] ∧
      ((recording ⟨true, true⟩).Always (System.init, Ledger.init) trace Served ↔
        (recording ⟨true, true⟩).EveryStep (System.init, Ledger.init) trace
          (Orderly ⟨true, true⟩)) := by
  have first : (recording ⟨true, true⟩).Run (System.init, Ledger.init) [] _ := .start
  have queued := first.onRecord (.enqueue .write ⟨3, 8⟩) trivial rfl
  have given := queued.onRecord (.wait .write ⟨true, true⟩) trivial rfl
  have completed := given.onRecord (.complete .write 0) (List.mem_singleton_self 0) rfl
  exact ⟨_, _, completed, rfl, requests_served_iff completed⟩

/-- Two read requests are with the device when the first one completes. The buffer of the second is
freed, whatever the copying routines do. -/
theorem overlapping_requests_mixed : ¬∃ copying, ∀ trace final,
    (recording copying).Run (System.init, Ledger.init) trace final →
      (recording copying).Always (System.init, Ledger.init) trace Served := by
  rintro ⟨⟨gather, scatter⟩, served⟩
  have first : (recording ⟨gather, scatter⟩).Run (System.init, Ledger.init) [] _ := .start
  have queued := first.onRecord (.enqueue .read ⟨3, 8⟩) trivial rfl
  have queued := queued.onRecord (.enqueue .read ⟨4, 8⟩) trivial rfl
  have given := queued.onRecord (.wait .read ⟨true, true⟩) trivial rfl
  have given := given.onRecord (.wait .read ⟨true, true⟩) trivial rfl
  have completed := given.onRecord (.complete .read 0) (List.mem_cons_self) rfl
  have freed := (served _ _ completed _ (List.prefix_refl _) _ completed).freed
  cases scatter with
  | false | true => exact absurd (List.singleton_perm_singleton.mp freed) nofun

end GlobalComponents.SerialServer.Virtqueue
