import GlobalComponents.SerialServer.Server
import Mathlib.Algebra.Order.BigOperators.Group.List
import Mathlib.Algebra.Order.Ring.Nat
import Mathlib.Data.List.Infix

/-! What the output side is for: each stream's bytes are first pending and then printed.

`Server.view` reads this off the buffers and the terminal. Every way of flushing prints bytes from
the front of some streams and leaves the rest pending.
-/

set_option autoImplicit false

namespace GlobalComponents.SerialServer

open Library Library.Window

structure View where
  pending : Nat → List UInt8
  printed : Nat → List UInt8

namespace View

def emit (v : View) (streams : List Nat) (n : Nat) : View where
  pending := fun i => if i ∈ streams then (v.pending i).drop n else v.pending i
  printed := fun i => if i ∈ streams then v.printed i ++ (v.pending i).take n else v.printed i

def total (v : View) (i : Nat) : List UInt8 := v.printed i ++ v.pending i

structure Drains (v w : View) : Prop where
  total : ∀ i, w.total i = v.total i
  pending : ∀ i, w.pending i <:+ v.pending i

theorem Drains.refl (v : View) : v.Drains v := ⟨fun _ => rfl, fun _ => List.suffix_refl _⟩

theorem Drains.trans {v w x : View} (first : v.Drains w) (second : w.Drains x) : v.Drains x :=
  ⟨fun i => (second.total i).trans (first.total i),
    fun i => (second.pending i).trans (first.pending i)⟩

theorem emit_drains (v : View) (streams : List Nat) (n : Nat) : v.Drains (v.emit streams n) := by
  constructor <;> intro i
  · by_cases member : i ∈ streams
    · simp [total, emit, member]
    · simp [total, emit, member]
  · by_cases member : i ∈ streams
    · simpa [emit, member] using List.drop_suffix n _
    · simp [emit, member]

theorem emit_zero (v : View) (streams : List Nat) : v.emit streams 0 = v := by
  simp [emit]

def endOfLine (c : UInt8) : Bool := c == carriageReturn || c == newline

/-- The length of the first line, its newline characters included. -/
def firstLine (bytes : List UInt8) : Option Nat :=
  ((bytes.findIdx? (· == carriageReturn)).or (bytes.findIdx? (· == newline))).map fun nl =>
    if bytes[nl + 1]?.any endOfLine then nl + 2 else nl + 1

/-- The bytes that `first` has in common with the given streams, looked at in this order: at most
`length`, and no stream may differ within the shortest stream so far. -/
def common (v : View) (first : List UInt8) : Nat → List Nat → Option Nat
  | length, [] => some length
  | length, i :: rest =>
    let length := min length (v.pending i).length
    if first.take length = (v.pending i).take length then v.common first length rest else none

def inUse (v : View) : List Nat := (List.range numStreams).filter fun i => v.pending i ≠ []

/-- At least two streams are in use and they have a common front: its length. -/
def coalescible (v : View) : Option Nat :=
  match v.inUse with
  | first :: second :: rest =>
    v.common (v.pending first) (v.pending first).length (second :: rest)
  | _ => none

end View

/-- The bytes among these that are printed for stream `i`. -/
def printedFor (i : Nat) (tokens : List Output) : List UInt8 :=
  tokens.filterMap fun
    | .byte streams c => if i ∈ streams then some c else none
    | _ => none

def Server.view (s : Server) : View := ⟨s.pending, fun i => printedFor i s.out⟩

/-- No buffer reaches into the next row. -/
def Server.Wf (s : Server) : Prop := ∀ b, s.used b ≤ outputBufferSize

structure Server.Becomes (s' : Server) (view : View) : Prop where
  wf : s'.Wf
  view : s'.view = view

structure Server.Drains (s s' : Server) : Prop where
  wf : s'.Wf
  view : s.view.Drains s'.view

theorem Server.Drains.trans {s s' s'' : Server} (first : s.Drains s') (second : s'.Drains s'') :
    s.Drains s'' := ⟨second.wf, first.view.trans second.view⟩

theorem Server.Wf.drains {s : Server} (wf : s.Wf) : s.Drains s := ⟨wf, .refl _⟩

@[simp] theorem pending_length (s : Server) (b : Nat) : (s.pending b).length = s.used b :=
  window_length _ _ _

theorem pending_eq_nil_iff (s : Server) (b : Nat) : s.pending b = [] ↔ s.used b = 0 := by
  rw [← List.length_eq_zero_iff, pending_length]

@[simp] theorem view_pending (s : Server) : s.view.pending = s.pending := rfl

theorem Server.Drains.used {s s' : Server} (drains : s.Drains s') (b : Nat) :
    s'.used b ≤ s.used b := by
  simpa [Server.view] using (drains.view.pending b).length_le

@[simp] theorem printedFor_append (i : Nat) (before after : List Output) :
    printedFor i (before ++ after) = printedFor i before ++ printedFor i after :=
  List.filterMap_append ..

theorem printedFor_bytes (i : Nat) (streams : List Nat) (bytes : List UInt8) :
    printedFor i (bytes.map (.byte streams)) = if i ∈ streams then bytes else [] := by
  by_cases member : i ∈ streams
  · simp [printedFor, List.filterMap_map, member]
  · simp [printedFor, List.filterMap_map, member]

theorem view_print {s : Server} {tokens : List Output} (silent : ∀ i, printedFor i tokens = []) :
    (s.print tokens).view = s.view := by
  simp only [Server.view, Server.print, printedFor_append, silent, List.append_nil]
  rfl

theorem setColour_view (s : Server) (b : Nat) : (s.setColour b).view = s.view := by
  unfold Server.setColour
  split
  · rfl
  · change (s.print [.reset, .colour (outputColour b)]).view = s.view
    exact view_print fun _ => rfl

theorem setColour_becomes {s : Server} (wf : s.Wf) (b : Nat) : (s.setColour b).Becomes s.view := by
  refine ⟨?_, setColour_view s b⟩
  unfold Server.setColour
  split
  · exact wf
  · exact wf

theorem setColour_outputBuffers (s : Server) (b : Nat) :
    (s.setColour b).outputBuffers = s.outputBuffers ∧ (s.setColour b).used = s.used ∧
      (s.setColour b).pending = s.pending := by
  unfold Server.setColour
  split <;> exact ⟨rfl, rfl, rfl⟩

/-! ## Flushing one stream -/

theorem flushBuffer_becomes {s : Server} (wf : s.Wf) (b : Nat) :
    (flushBuffer s b).Becomes (s.view.emit [b] (s.used b)) := by
  unfold flushBuffer
  by_cases empty : s.used b = 0
  · rw [if_pos empty, empty, View.emit_zero]
    exact ⟨wf, rfl⟩
  rw [if_neg empty]
  obtain ⟨buffers, used, pending⟩ := setColour_outputBuffers s b
  have printed := congrArg View.printed (setColour_view s b)
  constructor
  · intro i
    rcases eq_or_ne i b with rfl | other
    · simp
    · simpa [Server.print, other, used] using wf i
  · simp only [Server.view, View.emit, View.mk.injEq] at printed ⊢
    constructor <;> funext i
    · rcases eq_or_ne i b with rfl | other
      · simp [Server.pending, Server.print]
      · simp [Server.pending, Server.print, other, buffers, used]
    · have before := congrFun printed i
      simp only [Server.print, printedFor_append, printedFor_bytes, List.mem_singleton, before]
      split
      · next same => rw [same, List.take_of_length_le (pending_length s b).le]
      · exact List.append_nil _

theorem shift_pending {s : Server} (wf : s.Wf) {b length : Nat} (within : length ≤ s.used b)
    (i : Nat) : (s.shift b length).pending i =
      if i = b then (s.pending b).drop length else s.pending i := by
  rcases eq_or_ne i b with rfl | other
  · have split : length + (s.used i - length) = s.used i := Nat.add_sub_cancel' within
    simp only [Server.pending, Server.shift, Function.update_self, if_true, window_moveDown, split]
  · have mine := wf i
    have theirs := wf b
    simp only [Server.pending, Server.shift, Function.update_of_ne other, if_neg other]
    apply window_moveDown_of_outside
    unfold row outputBufferSize at *
    omega

theorem Server.Wf.shift {s : Server} (wf : s.Wf) (b length : Nat) : (s.shift b length).Wf := by
  intro i
  rcases eq_or_ne i b with rfl | other
  · simpa [Server.shift] using (Nat.sub_le ..).trans (wf i)
  · simpa [Server.shift, other] using wf i

theorem lineLength_eq (s : Server) (b : Nat) : s.lineLength b = View.firstLine (s.pending b) := by
  unfold Server.lineLength View.firstLine
  apply congrFun
  apply congrArg
  funext nl
  apply if_congr _ rfl rfl
  rw [Server.pending, window_getElem?]
  by_cases inside : nl + 1 < s.used b
  · simp [inside, View.endOfLine, or_comm]
  · simp [inside]

theorem firstLine_bounds {bytes : List UInt8} {n : Nat} (line : View.firstLine bytes = some n) :
    0 < n ∧ n ≤ bytes.length := by
  obtain ⟨nl, found, rfl⟩ := Option.map_eq_some_iff.mp line
  have inside : nl < bytes.length := by
    rcases Option.or_eq_some_iff.mp found with first | ⟨_, first⟩
    · exact (List.findIdx?_eq_some_iff_getElem.mp first).1
    · exact (List.findIdx?_eq_some_iff_getElem.mp first).1
  split
  · next more =>
    obtain ⟨c, next, _⟩ := (Option.any_eq_true _ _).mp more
    exact ⟨by omega, (List.getElem?_eq_some_iff.mp next).1⟩
  · omega

theorem firstLine_eq_none_iff (bytes : List UInt8) :
    View.firstLine bytes = none ↔ ∀ c ∈ bytes, View.endOfLine c = false := by
  simp only [View.firstLine, Option.map_eq_none_iff, Option.or_eq_none_iff,
    List.findIdx?_eq_none_iff, View.endOfLine, Bool.or_eq_false_iff]
  exact forall₂_and.symm

/-- A flushed line is the front of its stream; without one nothing happens. -/
theorem flushBufferLine_becomes {s : Server} (wf : s.Wf) (b : Nat) :
    (flushBufferLine s b).2 = (View.firstLine (s.pending b)).isSome ∧
    (flushBufferLine s b).1.Becomes (s.view.emit [b] ((View.firstLine (s.pending b)).getD 0)) := by
  unfold flushBufferLine
  rw [lineLength_eq]
  cases line : View.firstLine (s.pending b) with
  | none =>
    rw [ite_self, Option.getD_none, View.emit_zero]
    exact ⟨rfl, wf, rfl⟩
  | some length =>
    obtain ⟨positive, within⟩ := firstLine_bounds line
    rw [pending_length] at within
    rw [if_neg (by omega)]
    obtain ⟨_, used, pending⟩ := setColour_outputBuffers s b
    have front : window s.outputBuffers (row b) length = (s.pending b).take length :=
      (window_take _ _ within).symm
    have printed := congrArg View.printed (setColour_view s b)
    have wf' : ((s.setColour b).print (((s.pending b).take length).map (.byte [b]))).Wf := by
      intro i
      simpa [Server.print, used] using wf i
    dsimp only
    rw [front]
    refine ⟨rfl, wf'.shift b length, ?_⟩
    simp only [Server.view, View.emit, Option.getD_some, View.mk.injEq] at printed ⊢
    constructor <;> funext i
    · have before : ((s.setColour b).print (((s.pending b).take length).map (.byte [b]))).pending =
          s.pending := pending
      rw [shift_pending wf' (by simpa [Server.print, used] using within), before]
      simp only [List.mem_singleton]
      split
      · next same => rw [same]
      · rfl
    · have before := congrFun printed i
      simp only [Server.shift, Server.print, printedFor_append, printedFor_bytes,
        List.mem_singleton, before]
      split
      · next same => rw [same]
      · exact List.append_nil _

/-! ## Coalescing -/

theorem coalesceScan_common {s : Server} {streams : List Nat} {first length : Nat}
    {used : List Nat} (positive : 0 < length) (within : length ≤ s.used first) :
    (coalesceScan s streams length (first :: used)).toOption =
      (s.view.common (s.pending first) length (streams.filter fun i => s.pending i ≠ [])).map
        fun n => (n, first :: used ++ streams.filter fun i => s.pending i ≠ []) := by
  -- on the streams still to come, with the front of the first one as what the others must share
  induction streams generalizing length used with
  | nil => simp [coalesceScan, View.common, Except.toOption]
  | cons i rest ih =>
    unfold coalesceScan
    by_cases some : s.used i > 0
    · have member : s.pending i ≠ [] := by
        rw [ne_eq, pending_eq_nil_iff]
        omega
      have shorter : (if length = 0 ∨ length > s.used i then s.used i else length) =
          min length (s.used i) := by
        split <;> omega
      have least : min length (s.used i) ≤ s.used first := (Nat.min_le_left ..).trans within
      rw [if_pos some, List.filter_cons_of_pos (by simpa using member)]
      simp only [shorter, View.common, view_pending, pending_length]
      have fronts : window s.outputBuffers (row first) (min length (s.used i)) =
          (s.pending first).take (min length (s.used i)) ∧
          window s.outputBuffers (row i) (min length (s.used i)) =
            (s.pending i).take (min length (s.used i)) :=
        ⟨(window_take _ _ least).symm, (window_take _ _ (Nat.min_le_right ..)).symm⟩
      rw [fronts.1, fronts.2]
      by_cases same : (s.pending first).take (min length (s.used i)) =
          (s.pending i).take (min length (s.used i))
      · rw [if_pos same, if_pos same, List.cons_append, ih (by omega) least]
        simp
      · rw [if_neg same, if_neg same]
        rfl
    · have absent : s.pending i = [] := by
        rw [pending_eq_nil_iff]
        omega
      rw [if_neg some, List.filter_cons_of_neg (by simpa using absent), ih positive within]

theorem coalesceScan_eq (s : Server) (streams : List Nat) :
    (coalesceScan s streams 0 []).toOption =
      match streams.filter fun i => s.pending i ≠ [] with
      | [] => some (0, [])
      | first :: rest =>
        (s.view.common (s.pending first) (s.used first) rest).map fun n => (n, first :: rest) := by
  induction streams with
  | nil => rfl
  | cons i rest ih =>
    unfold coalesceScan
    by_cases some : s.used i > 0
    · have member : s.pending i ≠ [] := by
        rw [ne_eq, pending_eq_nil_iff]
        omega
      rw [if_pos some, List.filter_cons_of_pos (by simpa using member), if_pos (.inl rfl)]
      exact coalesceScan_common some (Nat.le_refl _)
    · have absent : s.pending i = [] := by
        rw [pending_eq_nil_iff]
        omega
      rw [if_neg some, List.filter_cons_of_neg (by simpa using absent)]
      exact ih

/-- The common front is not empty and every stream that was looked at begins with it. -/
theorem common_front {v : View} {first : List UInt8} {length n : Nat} {streams : List Nat}
    (common : v.common first length streams = some n) (positive : 0 < length)
    (some : ∀ i ∈ streams, v.pending i ≠ []) :
    0 < n ∧ n ≤ length ∧
      ∀ i ∈ streams, n ≤ (v.pending i).length ∧ (v.pending i).take n = first.take n := by
  -- on the streams that are still to be looked at
  induction streams generalizing length with
  | nil =>
    cases common
    exact ⟨positive, Nat.le_refl _, fun i member => absurd member List.not_mem_nil⟩
  | cons i rest ih =>
    simp only [View.common] at common
    split at common
    · next same =>
      have size := List.length_pos_iff.mpr (some i (List.mem_cons_self ..))
      obtain ⟨lower, upper, others⟩ := ih common (by omega) fun j member =>
        some j (List.mem_cons_of_mem i member)
      have shorter := upper.trans (Nat.min_le_left ..)
      have within := upper.trans (Nat.min_le_right ..)
      refine ⟨lower, shorter, fun j member => ?_⟩
      rcases List.mem_cons.mp member with rfl | later
      · refine ⟨within, ?_⟩
        have fronts := congrArg (List.take n) same
        simpa only [List.take_take, Nat.min_eq_left upper] using fronts.symm
      · exact others j later
    · cases common

/-- One copy of the common front of all streams in use is printed, or nothing. -/
def View.coalesce (v : View) : View :=
  match v.coalescible with
  | some n => v.emit v.inUse n
  | none => v

theorem inUse_nodup (v : View) : v.inUse.Nodup := List.nodup_range.filter _

theorem coalescible_front {v : View} {n : Nat} (common : v.coalescible = some n) :
    0 < n ∧ 2 ≤ v.inUse.length ∧ ∀ i ∈ v.inUse, n ≤ (v.pending i).length ∧
      ∀ j ∈ v.inUse, (v.pending i).take n = (v.pending j).take n := by
  have used : ∀ i ∈ v.inUse, v.pending i ≠ [] := fun i member => by
    simpa using (List.mem_filter.mp member).2
  unfold View.coalescible at common
  generalize v.inUse = streams at used common ⊢
  match streams with
  | [] | [_] => cases common
  | first :: second :: rest =>
    have size := List.length_pos_iff.mpr (used first (List.mem_cons_self ..))
    obtain ⟨positive, within, others⟩ := common_front common size fun i member =>
      used i (List.mem_cons_of_mem first member)
    have front : ∀ i ∈ first :: second :: rest, n ≤ (v.pending i).length ∧
        (v.pending i).take n = (v.pending first).take n := by
      intro i member
      rcases List.mem_cons.mp member with rfl | later
      · exact ⟨within, rfl⟩
      · exact others i later
    refine ⟨positive, by simp, fun i member => ⟨(front i member).1, fun j member' => ?_⟩⟩
    rw [(front i member).2, (front j member').2]

theorem shifts_pending {s : Server} (wf : s.Wf) {streams : List Nat} (unique : streams.Nodup)
    {n : Nat} (within : ∀ i ∈ streams, n ≤ s.used i) :
    (streams.foldl (fun s i => Server.shift s i n) s).Wf ∧
    (streams.foldl (fun s i => Server.shift s i n) s).out = s.out ∧
    ∀ i, (streams.foldl (fun s i => Server.shift s i n) s).pending i =
      if i ∈ streams then (s.pending i).drop n else s.pending i := by
  induction streams generalizing s with
  | nil => exact ⟨wf, rfl, fun i => by simp⟩
  | cons b rest ih =>
    obtain ⟨fresh, unique⟩ := List.nodup_cons.mp unique
    have mine := within b (List.mem_cons_self ..)
    have others : ∀ i ∈ rest, n ≤ (s.shift b n).used i := by
      intro i member
      have different : i ≠ b := fun same => fresh (same ▸ member)
      simpa [Server.shift, different] using within i (List.mem_cons_of_mem b member)
    obtain ⟨wf', out, pending⟩ := ih (wf.shift b n) unique others
    refine ⟨wf', out, fun i => ?_⟩
    rw [List.foldl_cons, pending, shift_pending wf mine]
    rcases eq_or_ne i b with rfl | other
    · simp [fresh]
    · simp [other]

theorem coalesceScan_inUse (s : Server) :
    (coalesceScan s (List.range numStreams) 0 []).toOption =
      match s.view.inUse with
      | [] => some (0, [])
      | first :: rest =>
        (s.view.common (s.pending first) (s.used first) rest).map fun n => (n, first :: rest) :=
  coalesceScan_eq s _

/-- Nothing but debug output, and a status other than 0. -/
theorem tryCoalesceOutput_of_none {s : Server} (apart : s.view.coalescible = none) :
    (tryCoalesceOutput s).2 ≠ 0 ∧
    ∃ tokens, (tryCoalesceOutput s).1 = s.print tokens ∧ ∀ i, printedFor i tokens = [] := by
  have scan := coalesceScan_inUse s
  have same : s = s.print [] := by simp [Server.print]
  unfold tryCoalesceOutput
  cases found : coalesceScan s (List.range numStreams) 0 [] with
  | error differ =>
    dsimp only
    split
    · exact ⟨by simp, _, rfl, fun _ => rfl⟩
    · exact ⟨by simp, [], same, fun _ => rfl⟩
  | ok both =>
    rw [found] at scan
    unfold View.coalescible at apart
    generalize s.view.inUse = streams at scan apart
    match streams with
    | [] =>
      cases scan
      exact ⟨by simp, [], same, fun _ => rfl⟩
    | [first] =>
      cases scan
      exact ⟨by simp, [], same, fun _ => rfl⟩
    | first :: second :: rest =>
      simp only [view_pending, pending_length] at apart
      simp [apart, Except.toOption] at scan

theorem tryCoalesceOutput_of_some {s : Server} {n : Nat} (common : s.view.coalescible = some n) :
    ∃ first ∈ s.view.inUse,
      tryCoalesceOutput s = (s.printCommon s.view.inUse first n, 0) := by
  obtain ⟨positive, _⟩ := coalescible_front common
  have scan := coalesceScan_inUse s
  unfold View.coalescible at common
  generalize s.view.inUse = streams at scan common ⊢
  match streams with
  | [] | [_] => cases common
  | first :: second :: rest =>
    simp only [view_pending, pending_length] at common
    dsimp only at scan
    rw [common] at scan
    refine ⟨first, List.mem_cons_self .., ?_⟩
    cases found : coalesceScan s (List.range numStreams) 0 [] with
    | error differ =>
      rw [found] at scan
      cases scan
    | ok both =>
      rw [found] at scan
      cases scan
      simp only [tryCoalesceOutput, found, if_pos positive]

theorem printCommon_becomes {s : Server} (wf : s.Wf) {streams : List Nat} (unique : streams.Nodup)
    {first n : Nat} (member : first ∈ streams)
    (front : ∀ i ∈ streams, n ≤ s.used i ∧ (s.pending i).take n = (s.pending first).take n) :
    (s.printCommon streams first n).Becomes (s.view.emit streams n) ∧
    ∃ reset, reset.Sublist [Output.reset] ∧ (s.printCommon streams first n).out =
      s.out ++ reset ++ ((s.pending first).take n).map (.byte streams) := by
  obtain ⟨tokens, silent, reset⟩ : ∃ tokens, tokens.Sublist [Output.reset] ∧
      (if s.lastOut = none then s else s.print [.reset]) = s.print tokens := by
    split
    · exact ⟨[], List.nil_sublist _, by simp [Server.print]⟩
    · exact ⟨[.reset], List.Sublist.refl _, rfl⟩
  have text : window s.outputBuffers (row first) n = (s.pending first).take n :=
    (window_take _ _ (front first member).1).symm
  let printed : Server :=
    { (s.print tokens).print (((s.pending first).take n).map (.byte streams)) with lastOut := none }
  have wf' : printed.Wf := wf
  obtain ⟨wf', out, pending⟩ := shifts_pending wf' unique fun i used => (front i used).1
  have becomes : (streams.foldl (fun s i => Server.shift s i n) printed).Becomes
      (s.view.emit streams n) := by
    refine ⟨wf', ?_⟩
    simp only [Server.view, View.emit, View.mk.injEq]
    constructor <;> funext i
    · exact pending i
    · have none : printedFor i tokens = [] := by
        rcases List.sublist_singleton.mp silent with rfl | rfl <;> rfl
      rw [out]
      simp only [printed, Server.print, printedFor_append, none, printedFor_bytes,
        List.append_nil]
      split
      · next used => rw [(front i used).2]
      · exact List.append_nil _
  unfold Server.printCommon
  rw [reset]
  simp only [show (s.print tokens).outputBuffers = s.outputBuffers from rfl, text]
  split
  · exact ⟨⟨becomes.wf, becomes.view⟩, tokens, silent, out⟩
  · exact ⟨becomes, tokens, silent, out⟩

/-- The common front of all streams in use is printed, if they have one. -/
theorem tryCoalesceOutput_becomes {s : Server} (wf : s.Wf) :
    (tryCoalesceOutput s).1.Becomes s.view.coalesce ∧
    ((tryCoalesceOutput s).2 = 0 ↔ s.view.coalescible.isSome) := by
  unfold View.coalesce
  cases common : s.view.coalescible with
  | none =>
    obtain ⟨status, tokens, printed, silent⟩ := tryCoalesceOutput_of_none common
    refine ⟨?_, by simpa using status⟩
    rw [printed]
    exact ⟨wf, view_print silent⟩
  | some n =>
    obtain ⟨first, member, coalesced⟩ := tryCoalesceOutput_of_some common
    obtain ⟨_, _, front⟩ := coalescible_front common
    rw [coalesced]
    refine ⟨(printCommon_becomes wf (inUse_nodup _) member fun i used => ?_).1, by simp⟩
    exact ⟨by simpa using (front i used).1, (front i used).2 first member⟩

/-! ## Flushing all streams -/

theorem Server.Becomes.drains {s s' : Server} {streams : List Nat} {n : Nat}
    (becomes : s'.Becomes (s.view.emit streams n)) : s.Drains s' := by
  refine ⟨becomes.wf, ?_⟩
  rw [becomes.view]
  exact s.view.emit_drains streams n

theorem setColour_drains {s : Server} (wf : s.Wf) (b : Nat) : s.Drains (s.setColour b) := by
  refine ⟨(setColour_becomes wf b).wf, ?_⟩
  rw [setColour_view]
  exact .refl _

theorem tryCoalesceOutput_drains {s : Server} (wf : s.Wf) : s.Drains (tryCoalesceOutput s).1 := by
  obtain ⟨becomes, _⟩ := tryCoalesceOutput_becomes wf
  refine ⟨becomes.wf, ?_⟩
  rw [becomes.view]
  unfold View.coalesce
  split
  · exact s.view.emit_drains _ _
  · exact .refl _

theorem flushBuffers_drain {s : Server} (wf : s.Wf) (streams : List Nat) :
    s.Drains (streams.foldl flushBuffer s) := by
  induction streams generalizing s with
  | nil => exact wf.drains
  | cons b rest ih =>
    have first := (flushBuffer_becomes wf b).drains
    exact first.trans (ih first.wf)

theorem flushBufferLine_of_none {s : Server} {b : Nat}
    (none : View.firstLine (s.pending b) = none) : flushBufferLine s b = (s, false) := by
  unfold flushBufferLine
  rw [lineLength_eq, none, ite_self]

theorem flushBufferLine_used {s : Server} (wf : s.Wf) {b : Nat}
    (line : View.firstLine (s.pending b) ≠ none) : (flushBufferLine s b).1.used b < s.used b := by
  obtain ⟨n, line⟩ := Option.ne_none_iff_exists'.mp line
  obtain ⟨_, becomes⟩ := flushBufferLine_becomes wf b
  obtain ⟨positive, within⟩ := firstLine_bounds line
  have left : (flushBufferLine s b).1.pending b = (s.pending b).drop n := by
    have pending := congrFun (congrArg View.pending becomes.view) b
    simpa [line, View.emit] using pending
  have size := congrArg List.length left
  rw [pending_length, List.length_drop] at size
  rw [pending_length] at within size
  omega

structure Server.Flushed (s : Server) (streams : List Nat) (after : Server × Bool) : Prop where
  drains : s.Drains after.1
  idle : after.2 = false → after.1 = s ∧ ∀ i ∈ streams, View.firstLine (s.pending i) = none
  busy : after.2 = true → ∃ i ∈ streams, after.1.used i < s.used i

theorem flushNexts_flushed {s : Server} (wf : s.Wf) (streams : List Nat) :
    s.Flushed streams (streams.foldl flushNext (s, false)) := by
  induction streams using List.reverseRecOn with
  | nil => exact ⟨wf.drains, fun _ => ⟨rfl, fun i member => absurd member List.not_mem_nil⟩, nofun⟩
  | append_singleton streams b ih =>
    rw [List.foldl_append]
    generalize streams.foldl flushNext (s, false) = before at ih ⊢
    obtain ⟨line, becomes⟩ := flushBufferLine_becomes ih.drains.wf b
    have next := becomes.drains
    refine ⟨ih.drains.trans next, fun idle => ?_, fun busy => ?_⟩
    · simp only [List.foldl_cons, List.foldl_nil, flushNext, Bool.or_eq_false_iff] at idle
      obtain ⟨same, earlier⟩ := ih.idle idle.1
      have none : View.firstLine (before.1.pending b) = none := by
        rw [← Option.not_isSome_iff_eq_none, ← line, idle.2]
        exact Bool.false_ne_true
      refine ⟨?_, fun i member => ?_⟩
      · exact (congrArg Prod.fst (flushBufferLine_of_none none)).trans same
      · rcases List.mem_append.mp member with early | last
        · exact earlier i early
        · rw [List.mem_singleton.mp last, ← same, none]
    · simp only [List.foldl_cons, List.foldl_nil, flushNext, Bool.or_eq_true] at busy
      rcases busy with earlier | now
      · obtain ⟨i, member, shorter⟩ := ih.busy earlier
        exact ⟨i, List.mem_append_left _ member, (next.used i).trans_lt shorter⟩
      · have some : View.firstLine (before.1.pending b) ≠ none := by
          rw [← Option.isSome_iff_ne_none, ← line, now]
        exact ⟨b, by simp, (flushBufferLine_used ih.drains.wf some).trans_le (ih.drains.used b)⟩

theorem buffered_lt {s s' : Server} (used : ∀ i, s'.used i ≤ s.used i) {i : Nat}
    (member : i ∈ List.range numStreams) (shorter : s'.used i < s.used i) :
    s'.buffered < s.buffered :=
  List.sum_lt_sum _ _ (fun j _ => used j) ⟨i, member, shorter⟩

theorem flushPass_flushed {s : Server} (wf : s.Wf) :
    s.Flushed (List.range numStreams) (flushPass s) := flushNexts_flushed wf _

/-- With enough fuel the passes end by themselves: no line is left. -/
theorem flushPasses_flushed {fuel : Nat} {s : Server} (wf : s.Wf) (enough : s.buffered < fuel) :
    s.Flushed (List.range numStreams) (flushPasses fuel s) ∧
    ∀ i < numStreams, View.firstLine ((flushPasses fuel s).1.pending i) = none := by
  -- on the fuel: a pass that is followed by another has printed a line
  induction fuel generalizing s with
  | zero => exact absurd enough (Nat.not_lt_zero _)
  | succ fuel ih =>
    have pass := flushPass_flushed wf
    simp only [flushPasses]
    generalize flushPass s = after at pass ⊢
    obtain ⟨after, flag⟩ := after
    cases flag with
    | false =>
      obtain ⟨same, none⟩ := pass.idle rfl
      refine ⟨pass, fun i client => ?_⟩
      rw [same]
      exact none i (List.mem_range.mpr client)
    | true =>
      obtain ⟨i, member, shorter⟩ := pass.busy rfl
      -- the bytes that are buffered decrease with each pass that prints
      have fewer := buffered_lt pass.drains.used member shorter
      obtain ⟨rest, none⟩ := ih pass.drains.wf (fewer.trans_le (Nat.le_of_lt_succ enough))
      dsimp only
      exact ⟨⟨pass.drains.trans rest.drains, fun idle => Bool.noConfusion idle,
        fun _ => ⟨i, member, (rest.drains.used i).trans_lt shorter⟩⟩, none⟩

theorem flushLines_flushed {s : Server} (wf : s.Wf) :
    s.Flushed (List.range numStreams) (flushLines s) ∧
    ∀ i < numStreams, View.firstLine ((flushLines s).1.pending i) = none :=
  flushPasses_flushed wf (Nat.lt_succ_self _)

end GlobalComponents.SerialServer
