import Mathlib.Data.List.Basic

/-! Items that are served part by part, one after the other.

An item is open until it is closed with a result. Whoever serves only the first open item serves the
items in the order of their arrival, and what is served all in all is what each of them gets, item by
item.
-/

set_option autoImplicit false

namespace GlobalComponents.Library

structure Item (Key Part Result : Type) where
  key : Key
  parts : List Part
  /-- `none` while it is open. -/
  result : Option Result

variable {Key Part Result Content : Type}

namespace Item

def arrived (key : Key) : Item Key Part Result := ⟨key, [], none⟩

def extend (more : List Part) (item : Item Key Part Result) : Item Key Part Result :=
  { item with parts := item.parts ++ more }

def close (result : Result) (item : Item Key Part Result) : Item Key Part Result :=
  { item with result := some result }

def onOpen (chosen : Key → Bool) (change : Item Key Part Result → Item Key Part Result)
    (item : Item Key Part Result) : Item Key Part Result :=
  if item.result.isNone && chosen item.key then change item else item

variable {item : Item Key Part Result} {items : List (Item Key Part Result)} {chosen : Key → Bool}
  {change : Item Key Part Result → Item Key Part Result} {more : List Part}

theorem onOpen_of_closed (closed : item.result ≠ none) : onOpen chosen change item = item := by
  cases here : item.result with
  | none => exact absurd here closed
  | some => simp [onOpen, here]

theorem onOpen_of_not (other : chosen item.key = false) : onOpen chosen change item = item := by
  simp [onOpen, other]

theorem onOpen_of_open (opened : item.result = none) (here : chosen item.key = true) :
    onOpen chosen change item = change item := by
  simp [onOpen, opened, here]

theorem map_key_onOpen (same : ∀ item, (change item).key = item.key) :
    (items.map (onOpen chosen change)).map Item.key = items.map Item.key := by
  rw [List.map_map]
  refine List.map_congr_left fun item _ => ?_
  change (onOpen chosen change item).key = item.key
  rw [onOpen]
  split
  · exact same item
  · rfl

def got (read : Part → List Content) (item : Item Key Part Result) : List Content :=
  item.parts.flatMap read

theorem got_extend (read : Part → List Content) :
    (item.extend more).got read = item.got read ++ more.flatMap read :=
  List.flatMap_append

end Item

open Item

/-- Behind the closed items come the open ones, of which the first alone has got parts. -/
structure Serving (items closed opened : List (Item Key Part Result)) : Prop where
  whole : items = closed ++ opened
  done : ∀ item ∈ closed, item.result ≠ none
  still : ∀ item ∈ opened, item.result = none
  waits : ∀ item ∈ opened.tail, item.parts = []

namespace Serving

variable {items closed rest opened : List (Item Key Part Result)} {item : Item Key Part Result}
  {key : Key} {chosen : Key → Bool} {change : Item Key Part Result → Item Key Part Result}
  {more : List Part} {result : Result}

theorem start : Serving ([] : List (Item Key Part Result)) [] [] := ⟨rfl, nofun, nofun, nofun⟩

theorem arrive (serving : Serving items closed opened) :
    Serving (items ++ [arrived key]) closed (opened ++ [arrived key]) where
  whole := by rw [serving.whole, List.append_assoc]
  done := serving.done
  still other member := by
    rcases List.mem_append.mp member with old | new
    · exact serving.still other old
    · rw [List.mem_singleton.mp new]
      rfl
  waits other member := by
    cases opened with
    | nil => cases member
    | cons first rest =>
      rcases List.mem_append.mp member with old | new
      · exact serving.waits other old
      · rw [List.mem_singleton.mp new]
        rfl

theorem map_onOpen (serving : Serving items closed (item :: rest)) (here : chosen item.key = true)
    (others : ∀ other ∈ rest, chosen other.key = false) :
    items.map (onOpen chosen change) = closed ++ change item :: rest := by
  have early : closed.map (onOpen chosen change) = closed :=
    (List.map_congr_left fun other member => onOpen_of_closed (serving.done other member)).trans
      (List.map_id _)
  have late : rest.map (onOpen chosen change) = rest :=
    (List.map_congr_left fun other member => onOpen_of_not (others other member)).trans
      (List.map_id _)
  rw [serving.whole, List.map_append, List.map_cons, early, late,
    onOpen_of_open (serving.still item List.mem_cons_self) here]

theorem extend (serving : Serving items closed (item :: rest)) (here : chosen item.key = true)
    (others : ∀ other ∈ rest, chosen other.key = false) :
    Serving (items.map (onOpen chosen (Item.extend more))) closed (item.extend more :: rest) where
  whole := serving.map_onOpen here others
  done := serving.done
  still other member := by
    rcases List.mem_cons.mp member with rfl | later
    · exact serving.still item List.mem_cons_self
    · exact serving.still other (List.mem_cons_of_mem _ later)
  waits := serving.waits

theorem close (serving : Serving items closed (item :: rest)) (here : chosen item.key = true)
    (others : ∀ other ∈ rest, chosen other.key = false) :
    Serving (items.map (onOpen chosen (Item.close result))) (closed ++ [item.close result]) rest where
  whole := by rw [serving.map_onOpen here others, List.append_cons]
  done other member := by
    rcases List.mem_append.mp member with old | new
    · exact serving.done other old
    · rw [List.mem_singleton.mp new]
      exact Option.some_ne_none result
  still other member := serving.still other (List.mem_cons_of_mem _ member)
  waits other member := serving.waits other (List.mem_of_mem_tail member)

theorem got_extend (serving : Serving items closed (item :: rest)) (here : chosen item.key = true)
    (others : ∀ other ∈ rest, chosen other.key = false) (read : Part → List Content) :
    (items.map (onOpen chosen (Item.extend more))).flatMap (Item.got read) =
      items.flatMap (Item.got read) ++ more.flatMap read := by
  have nothing : rest.flatMap (Item.got read) = [] := by
    refine List.flatMap_eq_nil_iff.mpr fun other member => ?_
    rw [Item.got, serving.waits other member]
    rfl
  rw [serving.map_onOpen here others, serving.whole, List.flatMap_append, List.flatMap_append,
    List.flatMap_cons, List.flatMap_cons, nothing, Item.got_extend, List.append_nil,
    List.append_nil, List.append_assoc]

theorem got_close (items : List (Item Key Part Result)) (read : Part → List Content) :
    (items.map (onOpen chosen (Item.close result))).flatMap (Item.got read) =
      items.flatMap (Item.got read) := by
  rw [List.flatMap_map]
  refine List.flatMap_congr fun other _ => ?_
  rw [onOpen]
  split
  · rfl
  · rfl

/-- No item is served while an earlier one is open. -/
theorem in_order (serving : Serving items closed opened) :
    items.Pairwise fun earlier later =>
      earlier.result = none → later.parts = [] ∧ later.result = none := by
  rw [serving.whole, List.pairwise_append]
  refine ⟨?_, ?_, fun earlier member _ _ still => absurd still (serving.done earlier member)⟩
  · exact List.pairwise_of_forall_mem_list fun earlier member _ _ still =>
      absurd still (serving.done earlier member)
  · cases opened with
    | nil => exact .nil
    | cons first rest =>
      have later : ∀ item ∈ rest, item.parts = [] ∧ item.result = none := fun item member =>
        ⟨serving.waits item member, serving.still item (List.mem_cons_of_mem _ member)⟩
      refine List.pairwise_cons.mpr ⟨fun item member _ => later item member, ?_⟩
      exact List.pairwise_of_forall_mem_list fun _ _ item member _ => later item member

end Serving

end GlobalComponents.Library
