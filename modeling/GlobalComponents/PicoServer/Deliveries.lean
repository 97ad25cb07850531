import GlobalComponents.Library.Serving
import GlobalComponents.PicoServer.Paths

/-! The messages of a socket as deliveries.

The journal says which messages an asynchronous socket has been given, in which order, and what has
become of each. A message that starts with `done_len` 0 holds what has been moved so far from offset 0
on, without a gap.
-/

set_option autoImplicit false

namespace GlobalComponents.PicoServer

open Library

structure Submission where
  handle : UInt32
  msg : Ptr
  content : Msg

/-- The parts are what the stack has taken from the message or stored in it, each with its offset; the
result are the length and the contents with which it has been completed. -/
abbrev Delivery := Item Submission (UInt64 × List UInt8) (UInt64 × Msg)

def Delivery.bytes (delivery : Delivery) : List UInt8 := delivery.got Prod.snd

def Action.deliver (dir : Dir) (record : Ptr) (deliveries : List Delivery) : Action → List Delivery
  | .took d receiver handle msg content =>
    if d = dir ∧ receiver = some record then deliveries ++ [.arrived ⟨handle, msg, content⟩]
    else deliveries
  | .moved d r msg offset bytes =>
    if d = dir ∧ r = record then
      deliveries.map (.onOpen (fun key => key.msg = msg) (.extend [(offset, bytes)]))
    else deliveries
  | .completed d receiver handle len content =>
    if d = dir ∧ receiver = some record then
      deliveries.map (.onOpen (fun key => key.handle = handle) (.close (len, content)))
    else deliveries
  | _ => deliveries

/-- The messages that a socket has been given, in the order in which they were dequeued. -/
def deliveries (dir : Dir) (record : Ptr) (journal : List Action) : List Delivery :=
  journal.foldl (Action.deliver dir record) []

def Action.streamed (dir : Dir) (record : Ptr) : Action → List UInt8
  | .moved d r _ _ bytes => if d = dir ∧ r = record then bytes else []
  | _ => []

/-- The bytes that the stack has accepted from a socket, or received for it, in their order. -/
def stream (dir : Dir) (record : Ptr) (journal : List Action) : List UInt8 :=
  journal.flatMap (Action.streamed dir record)

def Action.concerns (dir : Dir) (record : Ptr) : Action → Bool
  | .took d receiver _ _ _ => d = dir ∧ receiver = some record
  | .moved d r _ _ _ => d = dir ∧ r = record
  | .completed d receiver _ _ _ => d = dir ∧ receiver = some record
  | _ => false

def dequeued (dir : Dir) (journal : List Action) : List Submission :=
  journal.filterMap fun action => match action with
    | .took d _ handle msg content => if d = dir then some ⟨handle, msg, content⟩ else none
    | _ => none

section
variable {dir : Dir} {record : Ptr} {journal more : List Action} {action : Action}

@[simp] theorem deliveries_nil : deliveries dir record [] = [] := rfl

@[simp] theorem deliveries_concat : deliveries dir record (journal ++ [action]) =
    action.deliver dir record (deliveries dir record journal) := by
  rw [deliveries, List.foldl_append]
  rfl

@[simp] theorem stream_nil : stream dir record [] = [] := rfl

@[simp] theorem stream_append :
    stream dir record (journal ++ more) = stream dir record journal ++ stream dir record more :=
  List.flatMap_append

@[simp] theorem stream_singleton : stream dir record [action] = action.streamed dir record := by
  simp [stream]

@[simp] theorem dequeued_append :
    dequeued dir (journal ++ more) = dequeued dir journal ++ dequeued dir more :=
  List.filterMap_append

theorem deliveries_quiet (quiet : ∀ action ∈ more, action.concerns dir record = false) :
    deliveries dir record (journal ++ more) = deliveries dir record journal := by
  induction more using List.reverseRecOn with
  | nil => rw [List.append_nil]
  | append_singleton more action ih =>
    have earlier := ih fun action member => quiet action (List.mem_append_left _ member)
    have last := quiet action (List.mem_append_right _ (List.mem_singleton_self action))
    rw [← List.append_assoc, deliveries_concat, earlier]
    cases action with
    | took | moved | completed => exact if_neg (of_decide_eq_false last)
    | _ => rfl

theorem stream_quiet (quiet : ∀ action ∈ more, action.concerns dir record = false) :
    stream dir record (journal ++ more) = stream dir record journal := by
  have nothing : stream dir record more = [] := by
    refine List.flatMap_eq_nil_iff.mpr fun action member => ?_
    have elsewhere := quiet action member
    cases action with
    | moved => exact if_neg (of_decide_eq_false elsewhere)
    | _ => rfl
  rw [stream_append, nothing, List.append_nil]

/-- A socket is given messages in the order in which they are dequeued. -/
theorem deliveries_sublist (dir : Dir) (record : Ptr) (journal : List Action) :
    ((deliveries dir record journal).map Item.key).Sublist (dequeued dir journal) := by
  -- on the journal from its end: one more action changes one delivery at most
  induction journal using List.reverseRecOn with
  | nil => exact List.Sublist.refl []
  | append_singleton journal action ih =>
    rw [deliveries_concat, dequeued_append]
    cases action with
    | took d receiver handle msg content =>
      rw [Action.deliver]
      split
      · next here =>
        have taken : dequeued dir [.took d receiver handle msg content] =
            [⟨handle, msg, content⟩] := by
          simp [dequeued, here.1]
        rw [List.map_append, taken]
        exact ih.append (List.Sublist.refl _)
      · exact ih.trans (List.sublist_append_left _ _)
    | moved | completed =>
      rw [Action.deliver]
      refine List.Sublist.trans ?_ (List.sublist_append_left _ _)
      split
      · rw [Item.map_key_onOpen]
        · exact ih
        · exact fun _ => rfl
      · exact ih
    | _ => exact ih.trans (List.sublist_append_left _ _)

end

/-! ## Parts of a message -/

/-- The first part starts at this offset, and each other one where the one before has ended. -/
def Adjoin : Nat → List (UInt64 × List UInt8) → Prop
  | _, [] => True
  | start, (offset, bytes) :: rest => offset.toNat = start ∧ Adjoin (start + bytes.length) rest

theorem adjoin_concat {start : Nat} {parts : List (UInt64 × List UInt8)} {offset : UInt64}
    {bytes : List UInt8} (adjoin : Adjoin start parts)
    (next : offset.toNat = start + (parts.flatMap Prod.snd).length) :
    Adjoin start (parts ++ [(offset, bytes)]) := by
  induction parts generalizing start with
  | nil => exact ⟨next, trivial⟩
  | cons part parts ih =>
    refine ⟨adjoin.1, ih adjoin.2 ?_⟩
    rw [next, List.flatMap_cons, List.length_append, Nat.add_assoc]

def Msg.payload (content : Msg) : List UInt8 := content.slice 0 content.totalLen.toNat

def Msg.answered (content : Msg) (dir : Dir) (protocol : Protocol) (offset : UInt64)
    (answer : Answer) : Msg :=
  if answer.ret = -1 then content else content.transferred dir protocol offset answer

def Msg.moves (content : Msg) (dir : Dir) (offset : UInt64) (answer : Answer) :
    List (UInt64 × List UInt8) :=
  if answer.ret = -1 then [] else [(offset, content.bytes dir offset answer)]

section
variable {content other : Msg} {dir : Dir} {protocol : Protocol} {offset : UInt64} {answer : Answer}
  {bytes : List UInt8}

@[simp] theorem slice_length (len : Nat) : (content.slice offset len).length = len := by
  simp [Msg.slice]

theorem slice_congr (same : content.buf = other.buf) (len : Nat) :
    content.slice offset len = other.slice offset len := by
  rw [Msg.slice, same, Msg.slice]

theorem slice_append (content : Msg) (offset : UInt64) (len : Nat) :
    content.slice 0 (offset.toNat + len) =
      content.slice 0 offset.toNat ++ content.slice offset len := by
  simp [Msg.slice, List.range_add, Function.comp_def]

theorem slice_take {some whole : Nat} (inside : some ≤ whole) :
    content.slice 0 some <+: content.slice 0 whole := by
  obtain ⟨more, rfl⟩ := Nat.exists_eq_add_of_le inside
  rw [Msg.slice, Msg.slice, List.range_add, List.map_append]
  exact List.prefix_append _ _

/-- What is stored does not reach in front of its offset. -/
theorem store_slice_before :
    (content.store offset bytes).slice 0 offset.toNat = content.slice 0 offset.toNat := by
  refine List.map_congr_left fun i member => ?_
  have early : ¬offset.toNat ≤ 0 + i := by
    have := List.mem_range.mp member
    omega
  exact if_neg early

theorem store_slice : (content.store offset bytes).slice offset bytes.length = bytes := by
  refine List.ext_getElem (slice_length _) fun i inside within => ?_
  simp [Msg.slice, Msg.store, within]

/-- A transfer continues what lies in front of its offset. -/
theorem transferred_slice :
    (content.transferred dir protocol offset answer).slice 0
        (offset.toNat + (content.bytes dir offset answer).length) =
      content.slice 0 offset.toNat ++ content.bytes dir offset answer := by
  cases dir with
  | tx =>
    rw [Msg.bytes, slice_length]
    exact slice_append content offset _
  | rx =>
    have buf : (content.transferred .rx protocol offset answer).buf =
        (content.store offset answer.bytes).buf := by
      cases protocol with
      | tcp | udp => rfl
    rw [slice_congr buf, slice_append, store_slice_before]
    exact congrArg _ store_slice

theorem bytes_length {requested : UInt64} (fits : answer.fits dir requested = true)
    (answered : answer.ret ≠ -1) :
    (content.bytes dir offset answer).length = (sizeT answer.ret).toNat := by
  cases dir with
  | tx => exact slice_length _
  | rx => exact (answer.received fits answered).2

end

/-! ## One delivery -/

/-- The parts follow each other from the start of the message on, and the message holds them. -/
structure Delivery.Unbroken (delivery : Delivery) (content : Msg) : Prop where
  adjoin : Adjoin 0 delivery.parts
  inside : delivery.bytes.length ≤ content.totalLen.toNat
  held : delivery.bytes = content.slice 0 delivery.bytes.length

structure Delivery.Agrees (dir : Dir) (delivery : Delivery) (content : Msg) : Prop where
  totalLen : content.totalLen = delivery.key.content.totalLen
  some : content.totalLen ≠ 0
  sends : dir = .tx → content.buf = delivery.key.content.buf
  unbroken : delivery.key.content.doneLen = 0 → delivery.Unbroken content

structure Delivery.Waits (dir : Dir) (s : Server) (delivery : Delivery) : Prop where
  agrees : delivery.Agrees dir (s.msgs delivery.key.msg)
  cookie : (s.msgs delivery.key.msg).cookieSave = delivery.key.handle
  doneLen : delivery.key.content.doneLen = 0 →
    (s.msgs delivery.key.msg).doneLen.toNat = delivery.bytes.length

structure Delivery.Settled (dir : Dir) (delivery : Delivery) : Prop where
  agrees : ∀ len content, delivery.result = some (len, content) → delivery.Agrees dir content
  full : ∀ len content, delivery.result = some (len, content) → dir = .tx →
    delivery.key.content.doneLen = 0 → len = content.totalLen →
    delivery.bytes.length = content.totalLen.toNat

section
variable {delivery : Delivery} {content after : Msg} {dir : Dir} {protocol : Protocol}
  {course : Course} {answer : Answer}

theorem extend_bytes (more : List (UInt64 × List UInt8)) :
    Delivery.bytes (delivery.extend more) = delivery.bytes ++ more.flatMap Prod.snd :=
  Item.got_extend Prod.snd

theorem Delivery.Unbroken.congr (unbroken : delivery.Unbroken content)
    (totalLen : after.totalLen = content.totalLen) (buf : after.buf = content.buf) :
    delivery.Unbroken after where
  adjoin := unbroken.adjoin
  inside := by rw [totalLen]; exact unbroken.inside
  held := by rw [slice_congr buf]; exact unbroken.held

theorem Delivery.Agrees.congr (agrees : delivery.Agrees dir content)
    (totalLen : after.totalLen = content.totalLen) (buf : after.buf = content.buf) :
    delivery.Agrees dir after where
  totalLen := totalLen.trans agrees.totalLen
  some := totalLen ▸ agrees.some
  sends send := buf.trans (agrees.sends send)
  unbroken fresh := (agrees.unbroken fresh).congr totalLen buf

theorem Delivery.Unbroken.serve (unbroken : delivery.Unbroken content)
    (reached : course.doneLen.toNat = delivery.bytes.length)
    (fits : answer.fits dir (content.totalLen - course.doneLen) = true)
    (totalLen : after.totalLen = content.totalLen)
    (buf : after.buf = (content.answered dir protocol course.doneLen answer).buf) :
    Delivery.Unbroken (delivery.extend (content.moves dir course.doneLen answer)) after := by
  by_cases failed : answer.ret = -1
  · rw [Msg.answered, if_pos failed] at buf
    rw [Msg.moves, if_pos failed, Item.extend, List.append_nil]
    exact unbroken.congr totalLen buf
  · rw [Msg.answered, if_neg failed] at buf
    rw [Msg.moves, if_neg failed]
    have within : course.doneLen ≤ content.totalLen := by
      rw [UInt64.le_iff_toNat_le, reached]
      exact unbroken.inside
    have small := (of_decide_eq_true fits).resolve_left failed
    have room := UInt64.le_iff_toNat_le.mp small.2.1
    rw [UInt64.toNat_sub_of_le _ _ within] at room
    have bound := UInt64.le_iff_toNat_le.mp within
    have length : (content.bytes dir course.doneLen answer).length = (sizeT answer.ret).toNat :=
      bytes_length fits failed
    refine ⟨adjoin_concat unbroken.adjoin ?_, ?_, ?_⟩
    · rw [reached, Nat.zero_add]
      rfl
    · rw [extend_bytes, List.length_append, List.flatMap_singleton, totalLen, ← reached, length]
      omega
    · rw [extend_bytes, List.length_append, List.flatMap_singleton, slice_congr buf, ← reached,
        transferred_slice, reached, ← unbroken.held]

theorem Delivery.Agrees.serve (agrees : delivery.Agrees dir content)
    (reached : delivery.key.content.doneLen = 0 → course.doneLen.toNat = delivery.bytes.length)
    (fits : answer.fits dir (content.totalLen - course.doneLen) = true)
    (totalLen : after.totalLen = content.totalLen)
    (buf : after.buf = (content.answered dir protocol course.doneLen answer).buf) :
    Delivery.Agrees dir (delivery.extend (content.moves dir course.doneLen answer)) after where
  totalLen := totalLen.trans agrees.totalLen
  some := totalLen ▸ agrees.some
  sends send := by
    subst send
    refine buf.trans (Eq.trans ?_ (agrees.sends rfl))
    rw [Msg.answered]
    split
    · rfl
    · rfl
  unbroken fresh := (agrees.unbroken fresh).serve (reached fresh) fits totalLen buf

theorem Delivery.Unbroken.waits (unbroken : delivery.Unbroken content)
    (reached : course.doneLen.toNat = delivery.bytes.length)
    (fits : answer.fits dir (content.totalLen - course.doneLen) = true)
    (pending : (course.serve dir protocol content answer).pending = true) :
    (course.serve dir protocol content answer).doneLen.toNat =
      (Delivery.bytes (delivery.extend (content.moves dir course.doneLen answer))).length := by
  have answered : answer.ret ≠ -1 := by
    intro failed
    rw [Course.serve_failed _ _ failed] at pending
    cases pending
  obtain ⟨sum, _⟩ := serve_reached (reached ▸ unbroken.inside) fits pending
  rw [sum, reached, extend_bytes, List.length_append, Msg.moves, if_neg answered,
    List.flatMap_singleton, bytes_length fits answered]

theorem Delivery.Unbroken.full (unbroken : delivery.Unbroken content)
    (reached : course.doneLen.toNat = delivery.bytes.length)
    (fits : answer.fits .tx (content.totalLen - course.doneLen) = true)
    (answered : answer.ret ≠ -1)
    (ended : (course.serve .tx protocol content answer).pending = false) :
    (Delivery.bytes (delivery.extend (content.moves .tx course.doneLen answer))).length =
      content.totalLen.toNat := by
  have full : ¬sizeT answer.ret < content.totalLen - course.doneLen := by
    intro short
    have waits : PicoServer.waits .tx protocol answer.ret (content.totalLen - course.doneLen) := short
    rw [Course.serve_short _ _ answered waits] at ended
    cases ended
  have small := ((of_decide_eq_true fits).resolve_left answered).2.1
  have whole : sizeT answer.ret = content.totalLen - course.doneLen :=
    UInt64.le_antisymm small (UInt64.not_lt.mp full)
  have within : course.doneLen ≤ content.totalLen := by
    rw [UInt64.le_iff_toNat_le, reached]
    exact unbroken.inside
  have bound := UInt64.le_iff_toNat_le.mp within
  rw [extend_bytes, List.length_append, Msg.moves, if_neg answered, List.flatMap_singleton,
    bytes_length fits answered, whole, UInt64.toNat_sub_of_le _ _ within, ← reached]
  omega

end

end GlobalComponents.PicoServer
