import Mathlib.Data.List.Basic
import Mathlib.Logic.Function.Basic

/-! Queues that are linked lists with a pointer to each end. -/

set_option autoImplicit false

namespace GlobalComponents.Library

variable {P : Type}

/-- From `first` the links lead through the nodes to null. -/
def Chain (next : P → Option P) : Option P → List P → Prop
  | first, [] => first = none
  | first, p :: nodes => first = some p ∧ Chain next (next p) nodes

namespace Chain

variable {next : P → Option P} {first : Option P}

theorem unique {left right : List P} (one : Chain next first left)
    (other : Chain next first right) : left = right := by
  induction left generalizing first right with
  | nil =>
    cases right with
    | nil => rfl
    | cons q rest => exact absurd (one.symm.trans other.1).symm (Option.some_ne_none q)
  | cons p nodes ih =>
    cases right with
    | nil => exact absurd (one.1.symm.trans other) (Option.some_ne_none p)
    | cons q rest =>
      obtain rfl := Option.some.inj (one.1.symm.trans other.1)
      rw [ih one.2 other.2]

theorem suffix {before after : List P} {p : P} (chain : Chain next first (before ++ p :: after)) :
    Chain next (some p) (p :: after) := by
  induction before generalizing first with
  | nil => exact ⟨rfl, chain.2⟩
  | cons q before ih => exact ih chain.2

/-- A list that ends does not come back to one of its nodes. -/
theorem nodup {nodes : List P} (chain : Chain next first nodes) : nodes.Nodup := by
  induction nodes generalizing first with
  | nil => exact List.nodup_nil
  | cons p nodes ih =>
    refine List.nodup_cons.mpr ⟨fun again => ?_, ih chain.2⟩
    obtain ⟨before, after, rfl⟩ := List.append_of_mem again
    have whole : Chain next (some p) (p :: (before ++ p :: after)) := ⟨rfl, chain.2⟩
    have same := congrArg List.length (whole.unique (suffix chain.2))
    simp only [List.length_cons, List.length_append] at same
    omega

theorem frame {other : P → Option P} {nodes : List P} (chain : Chain next first nodes)
    (same : ∀ p ∈ nodes, other p = next p) : Chain other first nodes := by
  induction nodes generalizing first with
  | nil => exact chain
  | cons p nodes ih =>
    refine ⟨chain.1, ?_⟩
    rw [same p List.mem_cons_self]
    exact ih chain.2 fun q member => same q (List.mem_cons_of_mem p member)

theorem concat [DecidableEq P] {nodes : List P} {last new : P}
    (chain : Chain next first (nodes ++ [last])) (fresh : new ∉ nodes ++ [last]) :
    Chain (Function.update (Function.update next last (some new)) new none) first
      (nodes ++ [last, new]) := by
  -- on the nodes, of which the last one alone gets a new link
  induction nodes generalizing first with
  | nil =>
    have other : last ≠ new := by
      rintro rfl
      simp at fresh
    refine ⟨chain.1, ?_, ?_⟩
    · simp [Function.update_of_ne other]
    · simp [Chain]
  | cons p nodes ih =>
    have nodup := List.nodup_cons.mp chain.nodup
    have other : p ≠ new := by
      rintro rfl
      simp at fresh
    have early : p ≠ last := by
      rintro rfl
      simp at nodup
    refine ⟨chain.1, ?_⟩
    rw [Function.update_of_ne other, Function.update_of_ne early]
    exact ih chain.2 (fun again => fresh (List.mem_cons_of_mem p again))

end Chain

/-- A queue with these nodes. -/
def Linked (next : P → Option P) (first last : Option P) (nodes : List P) : Prop :=
  Chain next first nodes ∧ last = nodes.getLast?

namespace Linked

variable {next : P → Option P} {first last : Option P} {nodes : List P}

theorem empty (next : P → Option P) : Linked next none none [] := ⟨rfl, rfl⟩

theorem unique {left right : List P} (one : Linked next first last left)
    (other : Linked next first last right) : left = right := one.1.unique other.1

theorem frame {other : P → Option P} (linked : Linked next first last nodes)
    (same : ∀ p ∈ nodes, other p = next p) : Linked other first last nodes :=
  ⟨linked.1.frame same, linked.2⟩

theorem first_eq_none (linked : Linked next first last nodes) : first = none ↔ nodes = [] := by
  cases nodes with
  | nil => exact iff_of_true linked.1 rfl
  | cons p nodes =>
    rw [linked.1.1]
    exact iff_of_false (Option.some_ne_none p) (List.cons_ne_nil p nodes)

theorem last_eq_none (linked : Linked next first last nodes) : last = none ↔ nodes = [] := by
  rw [linked.2, List.getLast?_eq_none_iff]

theorem head {p : P} (linked : Linked next (some p) last nodes) : ∃ rest, nodes = p :: rest := by
  cases nodes with
  | nil => exact absurd linked.1 (Option.some_ne_none p)
  | cons q rest => exact ⟨rest, by rw [Option.some.inj linked.1.1]⟩

theorem pop [DecidableEq P] {p : P} (linked : Linked next first last (p :: nodes)) :
    Linked next (next p) (if last = some p then none else last) nodes := by
  obtain ⟨⟨_, rest⟩, end'⟩ := linked
  refine ⟨rest, ?_⟩
  cases nodes with
  | nil => simp [end']
  | cons q nodes =>
    have other : last ≠ some p := by
      intro same
      rw [end', List.getLast?_cons_cons] at same
      have member := List.mem_of_getLast? same
      exact (List.nodup_cons.mp (Chain.nodup ⟨rfl, rest⟩ : (p :: q :: nodes).Nodup)).1 member
    rw [if_neg other, end', List.getLast?_cons_cons]

theorem push [DecidableEq P] {end' new : P} (linked : Linked next first (some end') nodes)
    (fresh : new ∉ nodes) :
    Linked (Function.update (Function.update next end' (some new)) new none) first (some new)
      (nodes ++ [new]) := by
  obtain ⟨before, rfl⟩ := List.getLast?_eq_some_iff.mp linked.2.symm
  refine ⟨?_, by simp⟩
  have := linked.1.concat fresh
  rwa [List.append_assoc]

theorem single [DecidableEq P] (next : P → Option P) (new : P) :
    Linked (Function.update next new none) (some new) (some new) [new] :=
  ⟨⟨rfl, by simp [Chain]⟩, rfl⟩

end Linked

end GlobalComponents.Library
