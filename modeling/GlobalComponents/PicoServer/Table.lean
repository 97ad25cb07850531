import GlobalComponents.PicoServer.Search

/-! The hash table as a finite map.

`Table` carries the well-formedness of its table. Each operation of `khash.h` is described by what it
does to `lookup`; nothing outside this module looks at buckets.
-/

set_option autoImplicit false

namespace GlobalComponents.PicoServer

open Library.Slots

structure Table {K : Type} (hash : K → UInt32) (V : Type) where
  table : Khash K V
  wf : Khash.Wf hash table

namespace Table

variable {K V : Type} {hash : K → UInt32}

def init [Inhabited K] [Inhabited V] : Table hash V where
  table := .init
  wf := {
    shape := .inl ⟨rfl, rfl⟩
    bound := (by decide : 0 = computeSize 0)
    occupancy := rfl
    unique := by simp [Khash.entries, contents, Khash.init]
    count := rfl
    reach := fun _ bucket => absurd bucket (Nat.not_lt_zero _)
    behind := fun _ _ => rfl }

/-- `kh_end` -/
def last (t : Table hash V) : Nat := t.table.nBuckets

def key (t : Table hash V) (x : Nat) : K := t.table.keys x

def val (t : Table hash V) (x : Nat) : V := t.table.vals x

def size (t : Table hash V) : Nat := t.table.size

def exist (t : Table hash V) (x : Nat) : Bool := t.table.live x

def setVal (t : Table hash V) (x : Nat) (val : V) : Table hash V where
  table := t.table.setVal x val
  wf := Khash.setVal_wf t.wf x val

/-- The word of `flags` that bucket `x` belongs to is allocated. -/
def InFlags (t : Table hash V) (x : Nat) : Prop := x >>> 4 < acFsize t.last

instance (t : Table hash V) (x : Nat) : Decidable (t.InFlags x) := Nat.decLt _ _

def del (t : Table hash V) (x : Nat) : Table hash V where
  table := t.table.del x
  wf := Khash.del_wf t.wf x

/-- The loop from `kh_begin` to the first bucket that exists, or to `kh_end`. -/
def first (t : Table hash V) : Nat := ((List.range t.last).find? t.exist).getD t.last

variable [DecidableEq K]

def get (t : Table hash V) (key : K) : Nat := t.table.get hash key

theorem put_wf (t : Table hash V) (key : K) (memory : Bool) :
    Khash.Wf hash (t.table.put hash key memory).1 := by
  have spec := Khash.put_spec t.wf key memory
  generalize t.table.put hash key memory = result at spec ⊢
  cases spec with
  | failed => exact t.wf
  | kept wf => exact wf
  | added _ wf => exact wf

def put (t : Table hash V) (key : K) (memory : Bool) : Table hash V × Nat × Int :=
  (⟨(t.table.put hash key memory).1, t.put_wf key memory⟩, (t.table.put hash key memory).2)

/-- What the table maps the key to. -/
def lookup (t : Table hash V) (key : K) : Option V :=
  if t.get key = t.last then none else some (t.val (t.get key))

variable {t : Table hash V} {k : K} {x : Nat} {v : V}

omit [DecidableEq K] in
theorem present_or_absent (t : Table hash V) (key : K) :
    (∃ x < t.last, t.exist x = true ∧ t.key x = key) ∨ t.table.Absent key := by
  by_cases present : ∃ x < t.last, t.exist x = true ∧ t.key x = key
  · exact .inl present
  · exact .inr fun x bucket live here => present ⟨x, bucket, live, here⟩

theorem get_of_exist (bucket : x < t.last) (live : t.exist x = true) : t.get (t.key x) = x :=
  Khash.get_present t.wf bucket live

theorem lookup_of_exist (bucket : x < t.last) (live : t.exist x = true) :
    t.lookup (t.key x) = some (t.val x) := by
  rw [lookup, get_of_exist bucket live, if_neg bucket.ne]

theorem lookup_of_absent (absent : t.table.Absent k) : t.lookup k = none :=
  if_pos (Khash.get_absent absent)

theorem get_exist (found : t.get k ≠ t.last) :
    t.get k < t.last ∧ t.exist (t.get k) = true ∧ t.key (t.get k) = k := by
  rcases present_or_absent t k with ⟨x, bucket, live, rfl⟩ | absent
  · rw [get_of_exist bucket live]
    exact ⟨bucket, live, rfl⟩
  · exact absurd (Khash.get_absent absent) found

theorem lookup_eq_none : t.lookup k = none ↔ t.get k = t.last := by
  simp [lookup]

theorem lookup_eq_some : t.lookup k = some v ↔ t.get k ≠ t.last ∧ t.val (t.get k) = v := by
  rw [lookup]
  split
  · next none => simp [none]
  · next found => simp [found]

theorem lookup_iff_mem : t.lookup k = some v ↔ (k, v) ∈ t.table.entries := by
  rw [Khash.mem_entries, lookup_eq_some]
  constructor
  · rintro ⟨found, here⟩
    obtain ⟨bucket, live, same⟩ := get_exist found
    exact ⟨t.get k, bucket, live, same, here⟩
  · rintro ⟨x, bucket, live, rfl, rfl⟩
    have site : t.get (t.table.keys x) = x := get_of_exist bucket live
    rw [site]
    exact ⟨bucket.ne, rfl⟩

theorem lookup_congr (t other : Table hash V) (same : other.table.entries = t.table.entries) :
    other.lookup = t.lookup := by
  funext k
  apply Option.ext
  intro v
  rw [lookup_iff_mem, lookup_iff_mem, same]

theorem lookup_init [Inhabited K] [Inhabited V] (k : K) : (init : Table hash V).lookup k = none :=
  rfl

theorem lookup_insert (t other : Table hash V) (absent : t.lookup k = none)
    (entries : other.table.entries = t.table.entries + {(k, v)}) :
    other.lookup = Function.update t.lookup k (some v) := by
  funext key
  apply Option.ext
  intro value
  rw [lookup_iff_mem, entries, Multiset.mem_add, Multiset.mem_singleton, ← lookup_iff_mem]
  by_cases here : key = k
  · subst here
    simp [absent, eq_comm]
  · simp [here]

theorem lookup_remove (t other : Table hash V)
    (entries : other.table.entries + {(k, v)} = t.table.entries) :
    other.lookup = Function.update t.lookup k none := by
  have gone : other.lookup k = none := by
    apply Option.eq_none_iff_forall_ne_some.mpr
    intro value held
    have unique := t.wf.unique
    rw [← entries, Multiset.map_add, Multiset.map_singleton, Multiset.nodup_add] at unique
    have left : (k, value) ∈ other.table.entries := lookup_iff_mem.mp held
    apply Multiset.disjoint_singleton.mp unique.2.2
    exact Multiset.mem_map.mpr ⟨(k, value), left, rfl⟩
  have whole := lookup_insert other t gone entries.symm
  rw [whole, Function.update_idem, ← gone, Function.update_eq_self]

theorem lookup_del (bucket : x < t.last) (live : t.exist x = true) :
    (t.del x).lookup = Function.update t.lookup (t.key x) none := by
  apply lookup_remove t (t.del x) (v := t.val x)
  exact Khash.del_entries bucket live

theorem lookup_del_get (found : t.get k ≠ t.last) :
    (t.del (t.get k)).lookup = Function.update t.lookup k none := by
  obtain ⟨bucket, live, here⟩ := get_exist found
  rw [lookup_del bucket live, here]

omit [DecidableEq K] in
theorem del_last (t : Table hash V) (x : Nat) : (t.del x).last = t.last := by
  rw [last, del]
  dsimp only
  rw [Khash.del]
  split <;> rfl

omit [DecidableEq K] in
/-- A bucket that is not live is left alone. -/
theorem del_dead (dead : ¬(x < t.last ∧ t.exist x = true)) : t.del x = t := by
  have same : t.table.del x = t.table := by
    rw [Khash.del, if_neg]
    exact fun live => dead ⟨t.wf.bucket_of_live live.2, live.2⟩
  rw [del]
  congr

theorem lookup_del_absent (absent : t.lookup k = none) (x : Nat) :
    (t.del x).lookup k = none := by
  by_cases live : x < t.last ∧ t.exist x = true
  · rw [lookup_del live.1 live.2]
    by_cases here : k = t.key x
    · rw [here, Function.update_self]
    · rw [Function.update_of_ne here, absent]
  · rw [del_dead live, absent]

/-- An entry goes exactly with its bucket. -/
theorem lookup_del_eq_none (held : t.lookup k ≠ none) :
    (t.del x).lookup k = none ↔ t.get k = x := by
  have found : t.get k ≠ t.last := mt lookup_eq_none.mpr held
  constructor
  · intro gone
    by_cases live : x < t.last ∧ t.exist x = true
    · rw [lookup_del live.1 live.2] at gone
      by_cases here : k = t.key x
      · rw [here]
        exact get_of_exist live.1 live.2
      · rw [Function.update_of_ne here] at gone
        exact absurd gone held
    · rw [del_dead live] at gone
      exact absurd gone held
  · rintro rfl
    rw [lookup_del_get found, Function.update_self]

omit [DecidableEq K] in
/-- A number of buckets from 16 on is a multiple of 16, so every bucket has its bits. -/
theorem inFlags_of_lt (bucket : x < t.last) : t.InFlags x := by
  rw [InFlags, acFsize, Nat.shiftRight_eq_div_pow]
  split
  · omega
  · next large =>
    rcases t.wf.shape with ⟨none, _⟩ | ⟨k, _, _, size⟩
    · exact absurd bucket (by rw [last, none]; exact Nat.not_lt_zero x)
    · change t.last = 2 ^ k at size
      have exponent : 4 ≤ k := by
        by_contra less
        have : 2 ^ k ≤ 2 ^ 3 := Nat.pow_le_pow_right (by decide) (by omega)
        omega
      obtain ⟨j, rfl⟩ := Nat.exists_eq_add_of_le exponent
      rw [Nat.pow_add] at size
      rw [Nat.shiftRight_eq_div_pow]
      omega

theorem lookup_setVal_absent (absent : t.table.Absent k) : (t.setVal x v).lookup k = none :=
  lookup_of_absent (t := t.setVal x v) absent

theorem get_setVal (t : Table hash V) (x : Nat) (v : V) (k : K) :
    (t.setVal x v).get k = t.get k := by
  rcases present_or_absent t k with ⟨y, bucket, live, rfl⟩ | absent
  · exact (get_of_exist (t := t.setVal x v) bucket live).trans (get_of_exist bucket live).symm
  · exact (lookup_eq_none.mp (lookup_setVal_absent absent)).trans
      (lookup_eq_none.mp (lookup_of_absent absent)).symm

theorem lookup_setVal (bucket : x < t.last) (live : t.exist x = true) :
    (t.setVal x v).lookup = Function.update t.lookup (t.key x) (some v) := by
  funext key
  by_cases here : key = t.key x
  · subst here
    rw [Function.update_self]
    exact (lookup_of_exist (t := t.setVal x v) bucket live).trans (by simp [val, setVal, Khash.setVal])
  · rw [Function.update_of_ne here]
    rcases present_or_absent t key with ⟨y, small, alive, rfl⟩ | absent
    · have other : y ≠ x := fun same => here (congrArg t.key same)
      rw [lookup_of_exist small alive]
      refine (lookup_of_exist (t := t.setVal x v) small alive).trans ?_
      simp [val, setVal, Khash.setVal, Function.update_of_ne other]
    · rw [lookup_of_absent absent]
      exact lookup_of_absent (t := t.setVal x v) absent

omit [DecidableEq K] in
theorem first_spec (found : ¬t.last ≤ t.first) : t.first < t.last ∧ t.exist t.first = true := by
  rw [first] at found ⊢
  cases here : (List.range t.last).find? t.exist with
  | none => exact absurd (by simp [here]) found
  | some x =>
    have member := List.mem_of_find?_eq_some here
    exact ⟨List.mem_range.mp member, List.find?_some here⟩

omit [DecidableEq K] in
theorem first_none (none : t.last ≤ t.first) {x : Nat} (bucket : x < t.last) :
    t.exist x = false := by
  rw [first] at none
  cases here : (List.range t.last).find? t.exist with
  | none =>
    have gone := List.find?_eq_none.mp here x (List.mem_range.mpr bucket)
    exact Bool.eq_false_iff.mpr gone
  | some y =>
    rw [here] at none
    have member := List.mem_of_find?_eq_some here
    exact absurd (List.mem_range.mp member) (Nat.not_lt.mpr none)

theorem lookup_of_first (none : t.last ≤ t.first) (k : K) : t.lookup k = Option.none := by
  apply lookup_of_absent
  intro x bucket live
  exact absurd live (Bool.eq_false_iff.mp (first_none none bucket))

omit [DecidableEq K] in
def keys (t : Table hash V) : Finset K := ⟨t.table.entries.map Prod.fst, t.wf.unique⟩

theorem mem_keys : k ∈ t.keys ↔ t.lookup k ≠ none := by
  rw [keys, Finset.mem_mk, Option.ne_none_iff_exists']
  simp [lookup_iff_mem]

omit [DecidableEq K] in
theorem size_keys (t : Table hash V) : t.size = t.keys.card :=
  t.wf.count.trans (Multiset.card_map _ _).symm

/-- The table counts its keys; `name` is what they stand for. -/
theorem size_eq_card {α : Type} (t : Table hash V) (name : K ≃ α) (keys : Finset α)
    (same : ∀ k, t.lookup k ≠ none ↔ name k ∈ keys) : t.size = keys.card := by
  have held : t.keys = keys.map name.symm.toEmbedding := by
    ext k
    rw [mem_keys, Finset.mem_map_equiv, Equiv.symm_symm, same]
  rw [size_keys, held, Finset.card_map]

theorem size_insert {other : Table hash V} (absent : t.lookup k = none)
    (present : other.lookup = Function.update t.lookup k (some v)) : other.size = t.size + 1 := by
  have missing : k ∉ t.keys := fun member => mem_keys.mp member absent
  have held : other.keys = insert k t.keys := by
    ext key
    rw [mem_keys, present, Finset.mem_insert, mem_keys]
    by_cases here : key = k
    · simp [here]
    · simp [here]
  rw [size_keys, held, Finset.card_insert_of_notMem missing, size_keys]

theorem size_remove {other : Table hash V} (found : t.lookup k = some v)
    (gone : other.lookup = Function.update t.lookup k none) : other.size + 1 = t.size := by
  have absent : other.lookup k = none := by rw [gone, Function.update_self]
  have present : t.lookup = Function.update other.lookup k (some v) := by
    rw [gone, Function.update_idem, ← found, Function.update_eq_self]
  exact (size_insert absent present).symm

omit [DecidableEq K] in
/-- `kh_put` has to resize the table, and there is no memory. -/
def Refuses (t : Table hash V) (memory : Bool) : Prop := t.table.makeRoom hash memory = none

omit [DecidableEq K] in
/-- The table is full and cannot grow. -/
def Crowded (t : Table hash V) : Prop := 2 ^ 27 ≤ t.last ∧ t.size = t.last

inductive Put (t : Table hash V) (k : K) (memory : Bool) : Table hash V × Nat × Int → Prop where
  | failed : t.Refuses memory → Put t k memory (t, t.last, -1)
  | kept {after : Table hash V} {x : Nat} {key : K} : after.lookup = t.lookup →
      t.lookup key = some (after.val x) → (key = k ∨ t.lookup k = none) → ¬t.Refuses memory →
      (t.lookup k = none → t.Crowded) → Put t k memory (after, x, 0)
  | added {after : Table hash V} {x : Nat} {ret : Int} : ret = 1 ∨ ret = 2 → t.lookup k = none →
      x < after.last → after.exist x = true → after.key x = k →
      after.lookup = Function.update t.lookup k (some (after.val x)) → ¬t.Refuses memory →
      ¬t.Crowded → Put t k memory (after, x, ret)

theorem absent_of_lookup (none : t.lookup k = none) : t.table.Absent k := by
  rcases present_or_absent t k with ⟨x, bucket, live, rfl⟩ | absent
  · rw [lookup_of_exist bucket live] at none
    cases none
  · exact absent

theorem put_cases (t : Table hash V) (k : K) {memory : Bool} {result : Khash K V × Nat × Int}
    (spec : Khash.Put hash t.table k memory result) (wf : Khash.Wf hash result.1) :
    Put t k memory (⟨result.1, wf⟩, result.2) := by
  cases spec with
  | failed refused => exact .failed refused
  | @kept table x _ same bucket live here made crowded =>
    have lookup := lookup_congr t ⟨table, wf⟩ same
    refine .kept lookup (lookup ▸ lookup_of_exist bucket live) (here.imp id fun absent => ?_) made
      fun none => crowded (absent_of_lookup none)
    rw [← lookup]
    exact lookup_of_absent absent
  | @added table x ret kind _ absent bucket live here entries made free =>
    have none := lookup_of_absent absent
    exact .added kind none bucket live here (lookup_insert t ⟨table, wf⟩ none entries) made free

theorem put_spec (t : Table hash V) (k : K) (memory : Bool) : Put t k memory (t.put k memory) :=
  put_cases t k (Khash.put_spec t.wf k memory) (t.put_wf k memory)

theorem present_cases (held : t.lookup k = some v) {memory : Bool} (made : ¬t.Refuses memory)
    {result : Khash K V × Nat × Int} (spec : Khash.Put hash t.table k memory result)
    (wf : Khash.Wf hash result.1) :
    ∃ after x, ((⟨result.1, wf⟩, result.2) : Table hash V × Nat × Int) = (after, x, 0) ∧
      x < after.last ∧ after.exist x = true ∧ after.key x = k ∧ after.val x = v ∧
      after.lookup = t.lookup := by
  cases spec with
  | failed refused => exact absurd refused made
  | added _ _ absent =>
    exact absurd (held.symm.trans (lookup_of_absent absent)) (Option.some_ne_none v)
  | @kept table x _ same bucket live here =>
    have lookup := lookup_congr t ⟨table, wf⟩ same
    rw [← lookup] at held
    have key : table.keys x = k := by
      refine here.resolve_right fun absent => ?_
      exact absurd (held.symm.trans (lookup_of_absent absent)) (Option.some_ne_none v)
    subst key
    have value := lookup_of_exist (t := ⟨table, wf⟩) bucket live
    exact ⟨⟨table, wf⟩, x, rfl, bucket, live, rfl,
      Option.some.inj (value.symm.trans held), lookup⟩

/-- `kh_put` with a key that the table has. -/
theorem put_present {memory : Bool} (held : t.lookup k = some v) (made : ¬t.Refuses memory) :
    ∃ after x, t.put k memory = (after, x, 0) ∧ x < after.last ∧ after.exist x = true ∧
      after.key x = k ∧ after.val x = v ∧ after.lookup = t.lookup :=
  present_cases held made (Khash.put_spec t.wf k memory) (t.put_wf k memory)

end Table

end GlobalComponents.PicoServer
