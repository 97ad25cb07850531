import GlobalComponents.PicoServer.Custody

/-! The lengths with which received messages are completed.

The journal says what the stack has stored in a message since it was dequeued. A waiting message of a
receive virtqueue holds as many bytes as its `done_len` says.
-/

set_option autoImplicit false

namespace GlobalComponents.PicoServer

open Library

def partsLen (parts : List (UInt64 × List UInt8)) : Nat :=
  (parts.map fun part => part.2.length).sum

@[simp] theorem partsLen_nil : partsLen [] = 0 := rfl

@[simp] theorem partsLen_concat (parts : List (UInt64 × List UInt8)) (offset : UInt64)
    (bytes : List UInt8) : partsLen (parts ++ [(offset, bytes)]) = partsLen parts + bytes.length := by
  simp [partsLen]

/-- How many bytes the stack has stored in the message under a descriptor. -/
def stored (handle : UInt32) (journal : List Action) : Nat :=
  match holder .rx handle journal with
  | some msg => partsLen (parts .rx msg journal)
  | none => 0

/-- The used ring tells the client what has happened to its message. -/
structure TrueLength (early : List Action) (handle : UInt32) (len : UInt64) (content : Msg) : Prop where
  success : content.doneLen ≠ -1 → len.toNat = stored handle early ∧ len = content.doneLen
  error : len = 0 ↔ content.doneLen = -1

/-- Every message goes to the used ring of the receive virtqueue with its true length. -/
def TrueLengths (journal : List Action) : Prop :=
  ∀ early record handle len content,
    early ++ [.completed .rx record handle len content] <+: journal →
    TrueLength early handle len content

section
variable {journal more : List Action} {record : Option Ptr} {handle : UInt32} {len : UInt64}
  {content : Msg} {action : Action}

theorem trueLengths_nil : TrueLengths [] := by
  rintro early record handle len content ⟨rest, empty⟩
  simp at empty

theorem trueLengths_concat : TrueLengths (journal ++ [action]) ↔ TrueLengths journal ∧
    ∀ record handle len content, action = .completed .rx record handle len content →
      TrueLength journal handle len content := by
  constructor
  · intro all
    refine ⟨fun early record handle len content within => ?_, ?_⟩
    · exact all early record handle len content (within.trans (List.prefix_append _ _))
    · rintro record handle len content rfl
      exact all journal record handle len content (List.prefix_refl _)
  · rintro ⟨all, last⟩ early record handle len content within
    rcases List.prefix_concat_iff.mp within with whole | earlier
    · obtain ⟨rfl, same⟩ := List.append_inj' whole rfl
      exact last record handle len content (List.singleton_inj.mp same).symm
    · exact all early record handle len content earlier

theorem trueLengths_quiet (quiet : ∀ action ∈ more, action.isCompletion = false) :
    TrueLengths (journal ++ more) ↔ TrueLengths journal := by
  induction more using List.reverseRecOn with
  | nil => rw [List.append_nil]
  | append_singleton more action ih =>
    have earlier := ih fun action member => quiet action (List.mem_append_left _ member)
    have last := quiet action (List.mem_append_right _ (List.mem_singleton_self action))
    rw [← List.append_assoc, trueLengths_concat, earlier, and_iff_left]
    rintro record handle len content rfl
    cases last

theorem trueLengths_completed :
    TrueLengths (journal ++ [.completed .rx record handle len content]) ↔
      TrueLengths journal ∧ TrueLength journal handle len content := by
  rw [trueLengths_concat]
  refine and_congr_right fun _ => ⟨fun all => all _ _ _ _ rfl, fun one _ _ _ _ same => ?_⟩
  cases same
  exact one

theorem trueLengths_sent :
    TrueLengths (journal ++ [.completed .tx record handle len content]) ↔ TrueLengths journal := by
  rw [trueLengths_concat, and_iff_left]
  exact fun _ _ _ _ same => by cases same

theorem TrueLength.failed (failed : content.doneLen = -1) : TrueLength journal handle 0 content where
  success answered := absurd failed answered
  error := iff_of_true rfl failed

end

/-! ## One more answer -/

theorem sizeT_eq_zero {x : Int32} : sizeT x = 0 ↔ x = 0 := by
  constructor
  · intro zero
    apply Int32.toInt_inj.mp
    rw [← Int32.toInt_toInt64]
    have bits : x.toInt64 = 0 := congrArg Int64.ofUInt64 zero
    rw [bits]
    rfl
  · rintro rfl
    rfl

section
variable {course : Course} {protocol : Protocol} {content : Msg} {answer : Answer}

structure Course.Fills (course : Course) (protocol : Protocol) (totalLen : UInt64) : Prop where
  short : totalLen ≤ 1400
  room : course.doneLen < totalLen
  filled : partsLen course.parts = course.doneLen.toNat
  udp : protocol = .udp → course.doneLen = 0

theorem Answer.received {requested : UInt64} (fits : answer.fits .rx requested = true)
    (answered : answer.ret ≠ -1) :
    sizeT answer.ret ≤ requested ∧ answer.bytes.length = (sizeT answer.ret).toNat := by
  have fits := of_decide_eq_true fits
  obtain ⟨_, small, stored⟩ := fits.resolve_left answered
  exact ⟨small, stored rfl⟩

theorem Course.Fills.add (fills : course.Fills protocol content.totalLen) {len : UInt64}
    (small : len ≤ content.totalLen - course.doneLen) :
    (course.doneLen + len).toNat = course.doneLen.toNat + len.toNat ∧
      course.doneLen.toNat + len.toNat ≤ content.totalLen.toNat ∧
      (len < content.totalLen - course.doneLen ↔
        course.doneLen.toNat + len.toNat < content.totalLen.toNat) := by
  have short := UInt64.le_iff_toNat_le.mp fills.short
  have room := UInt64.lt_iff_toNat_lt.mp fills.room
  have rest : (content.totalLen - course.doneLen).toNat =
      content.totalLen.toNat - course.doneLen.toNat :=
    UInt64.toNat_sub_of_le _ _ (UInt64.le_of_lt fills.room)
  have small := UInt64.le_iff_toNat_le.mp small
  rw [rest] at small
  change content.totalLen.toNat ≤ 1400 at short
  refine ⟨?_, by omega, ?_⟩
  · rw [UInt64.toNat_add, Nat.mod_eq_of_lt (by omega)]
  · rw [UInt64.lt_iff_toNat_lt, rest]
    omega

/-- The message waits on, or it is completed with what has been stored. -/
theorem Course.Fills.serve (fills : course.Fills protocol content.totalLen)
    (fits : answer.fits .rx (content.totalLen - course.doneLen) = true)
    (answered : answer.ret ≠ -1) (after : Course)
    (served : course.serve .rx protocol content answer = after) :
    partsLen after.parts = after.doneLen.toNat ∧
      (after.pending = true → after.Fills protocol content.totalLen ∧
        (protocol = .udp → answer.ret = 0)) ∧
      (after.pending = false → after.doneLen ≠ 0 ∧ after.doneLen ≠ -1 ∧
        after.doneLen = course.doneLen + sizeT answer.ret ∧
        (protocol = .tcp → after.doneLen = content.totalLen) ∧
        (protocol = .udp → answer.ret ≠ 0)) := by
  obtain ⟨small, bytes⟩ := answer.received fits answered
  obtain ⟨sum, within, short⟩ := fills.add small
  have bound : content.totalLen.toNat ≤ 1400 := UInt64.le_iff_toNat_le.mp fills.short
  have filled : partsLen (course.parts ++ [(course.doneLen, answer.bytes)]) =
      (course.doneLen + sizeT answer.ret).toNat := by
    rw [partsLen_concat, fills.filled, bytes, sum]
  -- whether the message waits on
  by_cases more : waits .rx protocol answer.ret (content.totalLen - course.doneLen)
  · rw [Course.serve_short course content answered more] at served
    subst served
    have nothing : protocol = .udp → answer.ret = 0 := by
      intro udp
      rcases more with ⟨tcp, _⟩ | ⟨_, nothing⟩
      · rw [udp] at tcp
        cases tcp
      · exact nothing
    refine ⟨filled, fun _ => ⟨⟨fills.short, ?_, filled, fun udp => ?_⟩, nothing⟩, nofun⟩
    · rw [UInt64.lt_iff_toNat_lt]
      dsimp only
      rw [sum]
      rcases more with ⟨_, less⟩ | ⟨_, nothing⟩
      · exact short.mp less
      · rw [nothing]
        exact UInt64.lt_iff_toNat_lt.mp fills.room
    · dsimp only
      rw [nothing udp, fills.udp udp]
      rfl
  · rw [Course.serve_full course content answered more] at served
    subst served
    have real : ∀ doneLen : UInt64, 0 < doneLen.toNat → doneLen.toNat ≤ 1400 →
        doneLen ≠ 0 ∧ doneLen ≠ -1 := by
      intro doneLen some small
      refine ⟨?_, ?_⟩ <;> rintro rfl
      · exact absurd some (by decide)
      · exact absurd small (by decide)
    refine ⟨filled, nofun, fun _ => ?_⟩
    change course.doneLen + sizeT answer.ret ≠ 0 ∧ course.doneLen + sizeT answer.ret ≠ -1 ∧
      course.doneLen + sizeT answer.ret = course.doneLen + sizeT answer.ret ∧
      (protocol = .tcp → course.doneLen + sizeT answer.ret = content.totalLen) ∧
      (protocol = .udp → answer.ret ≠ 0)
    cases protocol with
    | tcp =>
      have less : ¬sizeT answer.ret < content.totalLen - course.doneLen :=
        fun less => more (.inl ⟨rfl, less⟩)
      rw [short] at less
      have whole : course.doneLen + sizeT answer.ret = content.totalLen :=
        UInt64.toNat_inj.mp (by omega)
      have room := UInt64.lt_iff_toNat_lt.mp fills.room
      obtain ⟨some, answered⟩ := real content.totalLen (by omega) bound
      rw [whole]
      exact ⟨some, answered, rfl, fun _ => rfl, nofun⟩
    | udp =>
      have some : answer.ret ≠ 0 := fun zero => more (.inr ⟨rfl, zero⟩)
      have fresh : course.doneLen + sizeT answer.ret = sizeT answer.ret := by
        rw [fills.udp rfl, UInt64.zero_add]
      have positive : (sizeT answer.ret).toNat ≠ 0 := fun zero =>
        some (sizeT_eq_zero.mp (UInt64.toNat_inj.mp zero))
      obtain ⟨positive, answered⟩ := real (sizeT answer.ret) (by omega) (by omega)
      rw [fresh]
      exact ⟨positive, answered, rfl, nofun, fun _ => some⟩

end

/-! ## The messages that wait -/

structure Server.Fills (s : Server) (record msg : Ptr) : Prop where
  course : ∀ protocol, (s.records record).map Socket.protocol = some protocol →
    (s.course .rx msg).Fills protocol (s.msgs msg).totalLen
  holder : holder .rx (s.msgs msg).cookieSave s.journal = some msg

structure Filling (config : Config) (s : Server) (waiting : Dir → Ptr → List Ptr) : Prop where
  owned : Owned config.ringSize s.view waiting
  waits : ∀ record msg, msg ∈ waiting .rx record → s.Fills record msg
  fresh : ∀ handle msg, (handle, msg) ∈ (s.queue .rx).available → (s.msgs msg).doneLen = 0

section
variable {config : Config} {s after : Server} {dir : Dir} {record msg m : Ptr}
  {handle : UInt32} {receiver : Option Ptr} {course : Course} {len : UInt64}
  {waiting waiting' : Dir → Ptr → List Ptr}

theorem Server.Fills.touched (fills : s.Fills record m) (touches : Touches dir handle msg s after)
    (other : m ≠ msg) (apart : ¬(Dir.rx = dir ∧ (s.msgs m).cookieSave = handle)) :
    after.Fills record m := by
  obtain ⟨totalLen, doneLen, cookie, _⟩ := unlinked_eq (touches.content m other)
  have course : after.course .rx m = s.course .rx m := by
    rw [Server.course, touches.parts .rx m other, doneLen, Server.course]
  refine ⟨fun protocol held => ?_, ?_⟩
  · rw [course, totalLen]
    exact fills.course protocol ((touches.protocol record).symm.trans held)
  · rw [cookie, touches.holder _ _ apart]
    exact fills.holder

theorem Owned.apart (owned : Owned config.ringSize s.view waiting)
    (waits : m ∈ waiting .rx record) (lent : (handle, msg) ∈ (s.queue dir).lent) (other : m ≠ msg) :
    ¬(Dir.rx = dir ∧ (s.msgs m).cookieSave = handle) := by
  rintro ⟨rfl, same⟩
  have here : ((s.msgs m).cookieSave, m) ∈ (s.view.queue .rx).lent := owned.waiting_lent waits
  have both := List.inj_on_of_nodup_map (owned.handles .rx) here lent same
  exact other (congrArg Prod.snd both)

theorem Works.filling (filling : Filling config s waiting)
    (works : Works config dir receiver handle msg course len s after waiting waiting')
    (lent : (handle, msg) ∈ (s.queue dir).lent)
    (own : course.pending = true → dir = .rx → ∀ r, some r = receiver → after.Fills r msg) :
    Filling config after waiting' where
  owned := works.owned
  waits r m member := by
    by_cases here : m = msg
    · subst here
      obtain ⟨pending, rx, received⟩ := (works.own .rx r).mp member
      exact own pending rx.symm r received
    · have waits := (works.others .rx r m here).mp member
      exact (filling.waits r m waits).touched works.touches here
        (filling.owned.apart waits lent here)
  fresh h m member := by
    obtain ⟨available, other⟩ := works.available .rx h m member
    rw [(unlinked_eq (works.touches.content m other)).2.1]
    exact filling.fresh h m available

theorem service_protocol {protocol : Protocol} {async : Async}
    (held : s.service record = some (protocol, async)) :
    (s.records record).map Socket.protocol = some protocol := by
  obtain ⟨socket, live, served⟩ := Option.bind_eq_some_iff.mp held
  obtain ⟨_, _, same⟩ := Option.map_eq_some_iff.mp served
  rw [live, Option.map_some, (Prod.mk.inj same).1]

theorem Owned.served (owned : Owned config.ringSize s.view waiting) (waits : msg ∈ waiting dir record)
    (aside : Aside s after) : ∃ protocol async, s.service record = some (protocol, async) ∧
      after.service record = some (protocol, async) := by
  have busy : ¬s.Rests record := by
    intro rests
    rw [owned.resting rests dir] at waits
    cases waits
  have same := (aside.service record).resolve_right fun rests => busy rests.1
  cases held : s.service record with
  | none => exact absurd (Server.rests_of_none held) busy
  | some service => exact ⟨service.1, service.2, rfl, same.trans held⟩

theorem Filling.aside (filling : Filling config s waiting) (aside : Aside s after) :
    Filling config after waiting where
  owned := filling.owned.aside aside
  waits r m member := by
    obtain ⟨more, journal, quiet⟩ := aside.journal
    obtain ⟨protocol, async, before, now⟩ := filling.owned.served member aside
    have fills := filling.waits r m member
    have course : after.course .rx m = s.course .rx m := by
      rw [Server.course, journal, parts_aside quiet, aside.msgs, Server.course]
    refine ⟨fun protocol' held => ?_, ?_⟩
    · rw [course, aside.msgs]
      apply fills.course
      rw [service_protocol before, ← held, service_protocol now]
    · rw [aside.msgs, journal, holder_aside quiet]
      exact fills.holder
  fresh h m member := by
    rw [aside.queue] at member
    rw [aside.msgs]
    exact filling.fresh h m member

theorem Works.waits_lengths
    (works : Works config dir receiver handle msg course len s after waiting waiting')
    (pending : course.pending = true) : TrueLengths after.journal ↔ TrueLengths s.journal := by
  obtain ⟨more, quiet, journal⟩ := works.journal
  rw [journal, if_pos pending, List.append_nil, trueLengths_quiet quiet]

theorem Works.sends_lengths
    (works : Works config .tx receiver handle msg course len s after waiting waiting') :
    TrueLengths after.journal ↔ TrueLengths s.journal := by
  cases here : course.pending with
  | true => exact works.waits_lengths here
  | false =>
    obtain ⟨more, quiet, journal⟩ := works.journal
    rw [journal, here, if_neg Bool.false_ne_true, trueLengths_sent, trueLengths_quiet quiet]

theorem Works.completes_lengths
    (works : Works config .rx receiver handle msg course len s after waiting waiting')
    (known : PicoServer.holder .rx handle s.journal = some msg ∨
      (handle, msg) ∈ (s.queue .rx).available)
    (ended : course.pending = false) : TrueLengths after.journal ↔ TrueLengths s.journal ∧
      (course.doneLen ≠ -1 → len.toNat = partsLen course.parts ∧ len = course.doneLen) ∧
      (len = 0 ↔ course.doneLen = -1) := by
  obtain ⟨more, quiet, journal⟩ := works.journal
  have holds := works.holder known
  have moved := works.parts
  rw [ended, if_neg Bool.false_ne_true] at journal
  rw [journal, holder_completed] at holds
  rw [journal, parts_completed] at moved
  have filled : stored handle (s.journal ++ more) = partsLen course.parts := by
    rw [stored, holds]
    dsimp only
    rw [moved]
  rw [journal, trueLengths_completed, trueLengths_quiet quiet]
  refine and_congr_right fun _ => ⟨fun told => ?_, fun told => ⟨?_, ?_⟩⟩
  · rw [← works.doneLen, ← filled]
    exact ⟨told.success, told.error⟩
  · rw [works.doneLen, filled]
    exact told.1
  · rw [works.doneLen]
    exact told.2

theorem Works.failed_lengths {moved : List (UInt64 × List UInt8)}
    (works : Works config dir receiver handle msg ⟨moved, -1, false⟩ 0 s after waiting waiting')
    (known : dir = .rx → PicoServer.holder .rx handle s.journal = some msg ∨
      (handle, msg) ∈ (s.queue .rx).available) :
    TrueLengths after.journal ↔ TrueLengths s.journal := by
  cases dir with
  | tx => exact works.sends_lengths
  | rx =>
    rw [works.completes_lengths (known rfl) rfl, and_iff_left]
    exact ⟨fun answered => absurd rfl answered, iff_of_true rfl rfl⟩

theorem Filling.dropped {socket : Socket} {async : Async} (filling : Filling config s waiting)
    (head : Head s dir record socket async msg) :
    ∃ waiting', Filling config (popComplete config dir s record socket async msg (-1) 0) waiting' ∧
      (TrueLengths (popComplete config dir s record socket async msg (-1) 0).journal ↔
        TrueLengths s.journal) := by
  obtain ⟨rest, front⟩ := filling.owned.head head
  have waits : msg ∈ waiting dir record := front ▸ List.mem_cons_self
  obtain ⟨waiting', works⟩ := filling.owned.drops_first head
  refine ⟨waiting', works.filling filling (filling.owned.waiting_lent waits) nofun, ?_⟩
  refine works.failed_lengths fun rx => .inl ?_
  subst rx
  exact (filling.waits record msg waits).holder

theorem Filling.drops (filling : Filling config s waiting) (drops : Drops config record s after) :
    ∃ waiting', Filling config after waiting' ∧
      (TrueLengths after.journal ↔ TrueLengths s.journal) := by
  induction drops generalizing waiting with
  | refl => exact ⟨waiting, filling, Iff.rfl⟩
  | next head _ ih =>
    obtain ⟨middle, filling, first⟩ := filling.dropped head
    obtain ⟨waiting', filling, second⟩ := ih filling
    exact ⟨waiting', filling, second.trans first⟩

theorem aside_lengths (aside : Aside s after) :
    TrueLengths after.journal ↔ TrueLengths s.journal := by
  obtain ⟨more, journal, quiet⟩ := aside.journal
  rw [journal]
  refine trueLengths_quiet fun action member => ?_
  have := quiet action member
  cases action with
  | completed => cases this
  | _ => rfl

theorem Filling.cleaned (filling : Filling config s waiting)
    (cleaned : CleanedUp config record s after) : ∃ waiting', Filling config after waiting' ∧
      (TrueLengths after.journal ↔ TrueLengths s.journal) := by
  obtain ⟨called, middle, first, drops, _, last⟩ := cleaned.drops
  obtain ⟨waiting', filling, same⟩ := (filling.aside first).drops drops
  exact ⟨waiting', filling.aside last,
    ((aside_lengths last).trans same).trans (aside_lengths first)⟩

end

/-! ## Runs -/

/-- A client submits its message with `done_len` 0. -/
def Turn.Fresh : Turn → Prop
  | .other (.submit .rx _ _ content) => content.doneLen = 0
  | _ => True

/-- A datagram that `rx_socket` receives fills what is left of its message. -/
def Turn.FillsUp (s : Server) : Turn → Prop
  | .serve .rx record answer => ∀ socket async msg, Head s .rx record socket async msg →
    socket.protocol = .udp → answer.ret ≠ -1 → answer.ret ≠ 0 →
      sizeT answer.ret = (s.msgs msg).totalLen - (s.msgs msg).doneLen
  | _ => True

section
variable {config : Config} {s after start : Server} {dir : Dir} {record msg : Ptr}
  {handle : UInt32} {receiver : Option Ptr} {course : Course} {len : UInt64} {answer : Answer}
  {answers : List Answer} {waiting waiting' : Dir → Ptr → List Ptr} {turn : Turn} {reply : Reply}
  {trace : List (Turn × Reply)}

theorem Works.fills
    (works : Works config .rx receiver handle msg course len s after waiting waiting')
    (known : PicoServer.holder .rx handle s.journal = some msg ∨
      (handle, msg) ∈ (s.queue .rx).available)
    (pending : course.pending = true) (protocol : Protocol)
    (held : (s.records record).map Socket.protocol = some protocol)
    (fills : course.Fills protocol (s.msgs msg).totalLen) : after.Fills record msg where
  course protocol' held' := by
    have same : after.course .rx msg = course := by
      rw [Server.course, works.parts, works.doneLen, ← pending]
    rw [same, works.totalLen]
    rw [works.touches.protocol, held] at held'
    exact Option.some.inj held' ▸ fills
  holder := by rw [works.cookie pending, works.holder known]

theorem Works.received {before : Course} {protocol : Protocol}
    (works : Works config .rx (some record) handle msg
      (before.serve .rx protocol (s.msgs msg) answer) len s after waiting waiting')
    (filling : Filling config s waiting) (lent : (handle, msg) ∈ (s.queue .rx).lent)
    (known : PicoServer.holder .rx handle s.journal = some msg ∨
      (handle, msg) ∈ (s.queue .rx).available)
    (held : (s.records record).map Socket.protocol = some protocol)
    (fills : before.Fills protocol (s.msgs msg).totalLen)
    (fits : answer.fits .rx ((s.msgs msg).totalLen - before.doneLen) = true)
    (error : answer.ret = -1 → len = 0) :
    Filling config after waiting' ∧ (TrueLengths after.journal ↔ TrueLengths s.journal ∧
      (answer.ret ≠ -1 → (before.serve .rx protocol (s.msgs msg) answer).pending = false →
        len = (before.serve .rx protocol (s.msgs msg) answer).doneLen)) := by
  by_cases failed : answer.ret = -1
  · rw [Course.serve_failed _ _ failed, error failed] at works
    refine ⟨works.filling filling lent nofun, ?_⟩
    rw [works.failed_lengths fun _ => known, and_iff_left]
    exact fun answered => absurd failed answered
  · obtain ⟨filled, more, ended⟩ := fills.serve fits failed _ rfl
    generalize before.serve .rx protocol (s.msgs msg) answer = course at works filled more ended ⊢
    refine ⟨works.filling filling lent fun pending _ r same => ?_, ?_⟩
    · obtain rfl := Option.some.inj same
      exact works.fills known pending protocol held (more pending).1
    · cases pending : course.pending with
      | true =>
        rw [works.waits_lengths pending, and_iff_left]
        exact fun _ => nofun
      | false =>
        obtain ⟨some, answered, _⟩ := ended pending
        rw [works.completes_lengths known pending]
        refine and_congr_right fun _ => ⟨fun told _ _ => (told.1 answered).2, fun same => ?_⟩
        have same := same failed rfl
        refine ⟨fun _ => ⟨by rw [same, filled], same⟩, ?_⟩
        rw [same]
        exact iff_of_false some answered

theorem Filling.handled (filling : Filling config s waiting)
    (done : handleTurn config s dir answers = .ok after) :
    ∃ waiting', Filling config after waiting' ∧
      (TrueLengths after.journal ↔ TrueLengths s.journal) := by
  rcases handleTurn_works filling.owned done with
    ⟨rfl, _⟩ | ⟨handle, msg, receiver, course, len, waiting', front, length, handling, works⟩
  · exact ⟨waiting, filling, Iff.rfl⟩
  have available := List.mem_of_head? front
  have lent := filling.owned.available_lent available
  refine ⟨waiting', ?_⟩
  cases dir with
  | tx => exact ⟨works.filling filling lent fun _ => nofun, works.sends_lengths⟩
  | rx =>
    obtain ⟨short, some⟩ := not_or.mp length
    have short : (s.msgs msg).totalLen ≤ 1400 := UInt64.not_lt.mp short
    have room : 0 < (s.msgs msg).totalLen := by
      rw [UInt64.lt_iff_toNat_lt]
      exact Nat.pos_of_ne_zero fun zero => some (UInt64.toNat_inj.mp zero)
    have fills : ∀ protocol, (⟨[], 0, true⟩ : Course).Fills protocol (s.msgs msg).totalLen :=
      fun protocol => ⟨short, room, rfl, fun _ => rfl⟩
    cases handling with
    | refuse => exact ⟨works.filling filling lent nofun, works.failed_lengths fun _ => .inr available⟩
    | append destined =>
      have fresh := filling.fresh handle msg available
      refine ⟨works.filling filling lent fun _ _ r same => ?_, works.waits_lengths rfl⟩
      obtain rfl := Option.some.inj same
      rw [fresh] at works
      exact works.fills (.inr available) rfl _ (congrArg (Option.map _) destined.held) (fills _)
    | @serve record socket async answer left destined _ _ fits =>
      have held := congrArg (Option.map Socket.protocol) destined.held
      have fits : answer.fits .rx ((s.msgs msg).totalLen - 0) = true := by
        rw [UInt64.sub_zero]
        exact fits
      obtain ⟨filling, lengths⟩ := works.received filling lent (.inr available) held (fills _) fits
        fun failed => if_pos failed
      refine ⟨filling, lengths.trans (and_iff_left fun answered ended => ?_)⟩
      obtain ⟨_, _, ends⟩ := (fills socket.protocol).serve fits answered _ rfl
      obtain ⟨_, _, doneLen, _⟩ := ends ended
      rw [if_neg answered, doneLen, UInt64.zero_add]
      rfl

theorem Course.Fills.whole {content : Msg} {protocol : Protocol}
    (fills : course.Fills protocol content.totalLen)
    (fits : answer.fits .rx (content.totalLen - course.doneLen) = true) :
    (answer.ret ≠ -1 → (course.serve .rx protocol content answer).pending = false →
      content.totalLen = (course.serve .rx protocol content answer).doneLen) ↔
      (protocol = .udp → answer.ret ≠ -1 → answer.ret ≠ 0 →
        sizeT answer.ret = content.totalLen - course.doneLen) := by
  by_cases failed : answer.ret = -1
  · exact iff_of_true (fun answered => absurd failed answered)
      fun _ answered => absurd failed answered
  obtain ⟨_, more, ended⟩ := fills.serve fits failed _ rfl
  cases pending : (course.serve .rx protocol content answer).pending with
  | true => exact iff_of_true (fun _ => nofun) fun udp _ some => absurd ((more pending).2 udp) some
  | false =>
    obtain ⟨_, _, doneLen, tcp, some⟩ := ended pending
    cases protocol with
    | tcp => exact iff_of_true (fun _ _ => (tcp rfl).symm) nofun
    | udp =>
      rw [doneLen, fills.udp rfl, UInt64.zero_add, UInt64.sub_zero]
      exact ⟨fun same _ answered _ => (same answered rfl).symm,
        fun same answered _ => (same rfl answered (some rfl)).symm⟩

theorem Filling.served (filling : Filling config s waiting)
    (done : serveTurn config s dir record answer = .ok after) :
    ∃ waiting', Filling config after waiting' ∧ (TrueLengths after.journal ↔
      TrueLengths s.journal ∧ (Turn.serve dir record answer).FillsUp s) := by
  rcases serveTurn_works filling.owned done with
    ⟨rfl, nobody⟩ | ⟨socket, async, msg, waiting', head, fits, works⟩
  · refine ⟨waiting, filling, (and_iff_left ?_).symm⟩
    cases dir with
    | tx => trivial
    | rx => exact fun socket async msg head => absurd head (nobody socket async msg)
  obtain ⟨rest, front⟩ := filling.owned.head head
  have waits : msg ∈ waiting dir record := front ▸ List.mem_cons_self
  have lent := filling.owned.waiting_lent waits
  refine ⟨waiting', ?_⟩
  cases dir with
  | tx =>
    refine ⟨works.filling filling lent fun _ => nofun, works.sends_lengths.trans ?_⟩
    exact (and_iff_left trivial).symm
  | rx =>
    have held := congrArg (Option.map Socket.protocol) head.held
    obtain ⟨course, holds⟩ := filling.waits record msg waits
    have fills := course socket.protocol held
    obtain ⟨filling, lengths⟩ := works.received filling lent (.inl holds) held fills fits
      fun failed => if_pos failed
    refine ⟨filling, lengths.trans (and_congr_right fun _ => ?_)⟩
    have whole := fills.whole fits
    have only : (Turn.serve .rx record answer).FillsUp s ↔ (socket.protocol = .udp →
        answer.ret ≠ -1 → answer.ret ≠ 0 →
          sizeT answer.ret = (s.msgs msg).totalLen - (s.msgs msg).doneLen) := by
      refine ⟨fun all => all socket async msg head, fun one socket' async' msg' head' => ?_⟩
      obtain rfl := Option.some.inj (head.held.symm.trans head'.held)
      obtain rfl := Option.some.inj (head.transport.symm.trans head'.transport)
      obtain rfl := Option.some.inj (head.first.symm.trans head'.first)
      exact one
    refine Iff.trans ?_ (whole.trans only.symm)
    refine forall_congr' fun answered => ?_
    rw [if_neg answered]

theorem Server.Fills.same (fills : s.Fills record msg) (msgs : after.msgs msg = s.msgs msg)
    (records : after.records = s.records) (journal : after.journal = s.journal) :
    after.Fills record msg where
  course protocol held := by
    have same : after.course .rx msg = s.course .rx msg := by
      rw [Server.course, msgs, journal, Server.course]
    rw [same, msgs]
    rw [records] at held
    exact fills.course protocol held
  holder := by rw [msgs, journal, fills.holder]

theorem Filling.submitted {content : Msg} (filling : Filling config s waiting)
    (admits : s.Admits config (.submit dir handle msg content))
    (fresh : dir = .rx → content.doneLen = 0) :
    Filling config ((s.setMsg msg content).setQueue dir { s.queue dir with
      available := (s.queue dir).available ++ [(handle, msg)]
      lent := (s.queue dir).lent ++ [(handle, msg)] }) waiting where
  owned := by
    rw [view_submit]
    exact filling.owned.submit admits.1 admits.2.1 admits.2.2
  waits r m member := by
    have other : m ≠ msg := by
      rintro rfl
      exact admits.1 (List.mem_map_of_mem (f := Prod.snd)
        (List.mem_append_right _ (filling.owned.waiting_lent member)))
    apply (filling.waits r m member).same
    · rw [Server.msgs_setQueue]
      exact Function.update_of_ne other _ _
    · rw [Server.records_setQueue]
      rfl
    · rw [Server.journal_setQueue]
      rfl
  fresh h m member := by
    have old : ∀ h, (h, m) ∈ (s.queue .rx).available →
        Function.update s.msgs msg content m = s.msgs m := by
      intro h available
      apply Function.update_of_ne
      rintro rfl
      exact admits.1 (List.mem_map_of_mem (f := Prod.snd)
        (List.mem_append_right _ (filling.owned.available_lent available)))
    rw [Server.msgs_setQueue]
    change (Function.update s.msgs msg content m).doneLen = 0
    cases dir with
    | tx =>
      have available : (h, m) ∈ (s.queue .rx).available := member
      rw [old h available]
      exact filling.fresh h m available
    | rx =>
      rw [Server.queue_setQueue] at member
      rcases List.mem_append.mp member with available | new
      · rw [old h available]
        exact filling.fresh h m available
      · obtain ⟨_, rfl⟩ := Prod.mk.inj (List.mem_singleton.mp new)
        rw [Function.update_self]
        exact fresh rfl

theorem Filling.collected (filling : Filling config s waiting) :
    Filling config (s.setQueue dir { s.queue dir with used := (s.queue dir).used.tail })
      waiting where
  owned := by
    rw [view_setQueue]
    exact filling.owned.collect
  waits r m member := by
    apply (filling.waits r m member).same
    · rw [Server.msgs_setQueue]
    · rw [Server.records_setQueue]
    · rw [Server.journal_setQueue]
  fresh h m member := by
    rw [Server.msgs_setQueue]
    apply filling.fresh h m
    cases dir with
    | tx | rx => exact member

theorem turn_filling (filling : Filling config s waiting)
    (allowed : (turns config).allowed s turn) (fresh : turn.Fresh)
    (done : s.turn config turn = .ok (after, reply)) :
    ∃ waiting', Filling config after waiting' ∧
      (TrueLengths after.journal ↔ TrueLengths s.journal ∧ turn.FillsUp s) := by
  cases turn with
  | handle dir answers =>
    obtain ⟨handled, handling, done⟩ := bind_ok.mp done
    obtain ⟨rfl, _⟩ := pair_ok.mp done
    obtain ⟨waiting', filling, same⟩ := filling.handled handling
    exact ⟨waiting', filling, same.trans (and_iff_left trivial).symm⟩
  | serve dir record answer =>
    obtain ⟨served, serving, done⟩ := bind_ok.mp done
    obtain ⟨rfl, _⟩ := pair_ok.mp done
    exact filling.served serving
  | report socket ev memory =>
    obtain ⟨reported, reporting, done⟩ := bind_ok.mp done
    obtain ⟨rfl, _⟩ := pair_ok.mp done
    have aside := reportEvent_aside reporting
    exact ⟨waiting, filling.aside aside, (aside_lengths aside).trans (and_iff_left trivial).symm⟩
  | other event =>
    obtain ⟨permits, admits, loops⟩ := allowed event rfl
    have alone : ∀ {a b : Prop}, (a ↔ b) → (a ↔ b ∧ True) := fun same =>
      same.trans (and_iff_left trivial).symm
    cases step_effect filling.owned permits admits loops done with
    | aside aside => exact ⟨waiting, filling.aside aside, alone (aside_lengths aside)⟩
    | cleaned cleaned =>
      obtain ⟨waiting', filling, same⟩ := filling.cleaned cleaned
      exact ⟨waiting', filling, alone same⟩
    | @submit dir handle msg content =>
      refine ⟨waiting, filling.submitted admits fun rx => ?_, alone ?_⟩
      · subst rx
        exact fresh
      · rw [Server.journal_setQueue]
        rfl
    | collect =>
      refine ⟨waiting, filling.collected, alone ?_⟩
      rw [Server.journal_setQueue]

/-- The journal of a run tells the true lengths exactly if every datagram that `rx_socket` has received
fills its message. -/
theorem rx_lengths_iff (idle : start.Idle config) (run : (turns config).Run start trace s)
    (fresh : (turns config).EveryStep start trace fun _ turn => turn.Fresh) :
    TrueLengths s.journal ↔
      (turns config).EveryStep start trace fun s turn => turn.FillsUp s := by
  -- the messages that wait are filled as far as they say, whether or not the lengths have been true
  have both : (∃ waiting, Filling config s waiting) ∧ (TrueLengths s.journal ↔
      (turns config).EveryStep start trace fun s turn => turn.FillsUp s) := by
    induction run with
    | start =>
      refine ⟨⟨_, idle.owned, nofun, fun h m member => ?_⟩, ?_⟩
      · rw [idle.available] at member
        cases member
      · rw [idle.journal]
        exact iff_of_true trueLengths_nil Machine.EveryStep.start
    | @next trace before after turn reply run allowed step ih =>
      obtain ⟨⟨waiting, filling⟩, same⟩ := ih (fresh.early (List.prefix_append _ _))
      have last := fresh trace turn reply (List.prefix_refl _) before run
      obtain ⟨waiting', filling, lengths⟩ :=
        turn_filling filling allowed last (turns_step.mp step)
      refine ⟨⟨waiting', filling⟩, ?_⟩
      rw [lengths, same, Machine.everyStep_concat run]
  exact both.2

end

/-! ## A datagram that is shorter than the message -/

instance (turn : Turn) : Decidable turn.Fresh :=
  match turn with
  | .other (.submit .rx _ _ content) => inferInstanceAs (Decidable (content.doneLen = 0))
  | .other (.submit .tx ..) | .other (.control ..) | .other (.communicate ..)
  | .other (.callback ..) | .other (.putEvent ..) | .other (.irq _) | .other .notify
  | .other (.collect _) | .handle .. | .serve .. | .report .. => inferInstanceAs (Decidable True)

def submitTen : List Turn :=
  [.other (.control 0 (.setAsync 1 true true)),
    .other (.submit .rx 7 0x3000 { blankMsg with socketFd := 1, totalLen := 10 })]

def fourBytes : Answer := ⟨4, [1, 2, 3, 4], 0, 0⟩

def Action.tells (right : Bool) : Action → Bool
  | .completed .rx _ _ len content => content.doneLen ≠ -1 ∧ (len = content.doneLen) = right
  | _ => false

theorem not_trueLengths {journal : List Action} (wrong : journal.any (Action.tells false) = true) :
    ¬TrueLengths journal := by
  intro all
  obtain ⟨action, member, tells⟩ := List.any_eq_true.mp wrong
  obtain ⟨early, rest, rfl⟩ := List.append_of_mem member
  cases action with
  | completed dir record handle len content =>
    cases dir with
    | tx => cases tells
    | rx =>
      obtain ⟨answered, different⟩ := of_decide_eq_true tells
      have told := all early record handle len content ⟨rest, by simp⟩
      rw [(told.success answered).2] at different
      simp at different
  | identity | window | born | took | moved | emitControl | notifyTx => cases tells

/-- The datagram arrives when its message is made available. -/
theorem rx_lengths_direct : ∃ trace s, (turns twoClients).Run (.init fun _ => blankMsg) trace s ∧
    s.journal.any (Action.tells true) = true ∧ TrueLengths s.journal := by
  have evaluated : (((turns twoClients).step (.init fun _ => blankMsg) openUdp).bind fun opened =>
      (turns twoClients).exec (fun s turn => turn.checked twoClients s &&
          (turn.Fresh && !turn matches .serve ..)) [(openUdp, opened.2)] opened.1
        (submitTen ++ [.handle .rx [fourBytes]])).any (fun result =>
          result.2.journal.any (Action.tells true)) = true := by
    decide +kernel
  obtain ⟨⟨trace, s⟩, done, told⟩ := (Option.any_eq_true _ _).mp evaluated
  have sound : ∀ (s : Server) (turn : Turn), (turn.Fresh && !turn matches .serve ..) = true →
      turn.Fresh ∧ turn.FillsUp s := by
    intro s turn checks
    obtain ⟨fresh, other⟩ := Bool.and_eq_true_iff.mp checks
    refine ⟨of_decide_eq_true fresh, ?_⟩
    cases turn with
    | serve => cases other
    | handle | report | other => trivial
  obtain ⟨run, every⟩ := opened_run _ sound ⟨trivial, trivial⟩ done
  refine ⟨trace, s, run, told, (rx_lengths_iff (init_idle _) run ?_).mpr ?_⟩
  · exact fun early turn reply within state reached => (every early turn reply within state reached).1
  · exact fun early turn reply within state reached => (every early turn reply within state reached).2

/-- It arrives when the message waits already: the client is told that it is full. -/
theorem rx_length_too_long :
    ¬∀ trace s, (turns twoClients).Run (.init fun _ => blankMsg) trace s →
      (turns twoClients).EveryStep (.init fun _ => blankMsg) trace (fun _ turn => turn.Fresh) →
      TrueLengths s.journal := by
  intro claim
  have evaluated : (((turns twoClients).step (.init fun _ => blankMsg) openUdp).bind fun opened =>
      (turns twoClients).exec (fun s turn => turn.checked twoClients s && decide turn.Fresh)
        [(openUdp, opened.2)] opened.1
        (submitTen ++ [.handle .rx [⟨0, [], 0, 0⟩], .serve .rx 0x1000 fourBytes])).any
      (fun result => result.2.journal.any (Action.tells false)) = true := by
    decide +kernel
  obtain ⟨⟨trace, s⟩, done, wrong⟩ := (Option.any_eq_true _ _).mp evaluated
  obtain ⟨run, every⟩ := opened_run (fun _ turn => turn.Fresh)
    (fun _ _ checks => of_decide_eq_true checks) trivial done
  exact not_trueLengths wrong (claim trace s run every)

end GlobalComponents.PicoServer
