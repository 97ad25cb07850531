import GlobalComponents.Library.Dictionary
import GlobalComponents.PicoServer.Growth

/-! The hash tables are dictionaries, over every run of their operations.

`serve` puts the calls of `khash.h` together as `picoserver_client.c` does: an insertion stores its
value unless `kh_put` reports a failure, a removal looks the bucket up first, and a poll takes the
first bucket that exists.
-/

set_option autoImplicit false

namespace GlobalComponents.PicoServer

open Library Library.Dictionary

namespace Table

variable {K V : Type} [DecidableEq K] {hash : K → UInt32}

def serve (t : Table hash V) : Command K V → Table hash V × Response K V
  | .put key val memory =>
    let (t, x, ret) := t.put key memory
    if ret = -1 then (t, .refused) else (t.setVal x val, .stored (ret ≠ 0))
  | .get key => (t, .found (t.lookup key))
  | .del key =>
    let x := t.get key
    if x = t.last then (t, .deleted false) else (t.del x, .deleted true)
  | .first =>
    let x := t.first
    if t.last ≤ x then (t, .taken none) else (t.del x, .taken (some (t.key x)))
  | .size => (t, .counted t.size)

def machine (hash : K → UInt32) (V : Type) : Machine (Table hash V) (Command K V) (Response K V) where
  allowed _ _ := True
  step t command := some (t.serve command)

/-- No new key meets a table that is full and cannot grow. -/
def Fits (t : Table hash V) (command : Command K V) : Prop :=
  ∀ key val memory, command = .put key val memory → t.lookup key = none → ¬t.Crowded

variable {t : Table hash V} {k : K}

omit [DecidableEq K] in
theorem memory_of_refuses {memory : Bool} (refused : t.Refuses memory) : memory = false := by
  cases memory with
  | false => rfl
  | true => exact absurd refused t.not_refuses

omit [DecidableEq K] in
/-- A crowded table stays as it is, so no memory is asked for. -/
theorem not_refuses_of_crowded (crowded : t.Crowded) (memory : Bool) : ¬t.Refuses memory := by
  obtain ⟨large, full⟩ := crowded
  have full : t.table.size = t.table.nBuckets := full
  obtain ⟨k, low, high, size⟩ := t.wf.shape.resolve_left fun none => by
    rw [last, none.1] at large
    omega
  have large : 27 ≤ k := Khash.two_pow_27_le.mp (size ▸ large)
  have bound : 2 ^ k ≤ 2 ^ 31 := Nat.pow_le_pow_right (by decide) high
  have stays : ∀ newBuckets j, Khash.RoundsTo newBuckets j → computeSize (2 ^ j) ≤ 2 ^ k →
      t.table.resize hash newBuckets memory ≠ none := by
    intro newBuckets j rounds small
    rw [Khash.resize, rounds]
    dsimp only
    rw [if_pos (by omega)]
    exact Option.some_ne_none _
  rw [Refuses, Khash.makeRoom]
  split
  · split
    · rw [size]
      exact stays _ k (Khash.roundsTo_below low high) (Khash.computeSize_lt k (by omega) low).le
    · next tight =>
      have short : k ≤ 30 := by
        by_contra last
        obtain rfl : k = 31 := by omega
        omega
      rw [size]
      exact stays _ (k + 1) (Khash.roundsTo_above low short)
        (Khash.computeSize_large (k + 1) (by omega) (by omega))
  · exact Option.some_ne_none _

theorem serve_put_refused {key : K} {val : V} {memory : Bool} (refused : t.Refuses memory) :
    t.serve (.put key val memory) = (t, .refused) := by
  have spec := t.put_spec key memory
  rw [serve]
  generalize t.put key memory = result at spec ⊢
  cases spec with
  | failed => rfl
  | kept _ _ _ made => exact absurd refused made
  | added _ _ _ _ _ _ made => exact absurd refused made

theorem serve_put_present {key : K} {held : V} (val : V) {memory : Bool} (made : ¬t.Refuses memory)
    (present : t.lookup key = some held) :
    (t.serve (.put key val memory)).2 = .stored false ∧
      (t.serve (.put key val memory)).1.lookup = Function.update t.lookup key (some val) := by
  obtain ⟨after, x, result, bucket, live, here, _, same⟩ := put_present present made
  rw [serve, result]
  refine ⟨rfl, ?_⟩
  rw [← same, ← here]
  exact lookup_setVal bucket live

theorem serve_put_absent {key : K} (val : V) {memory : Bool} (made : ¬t.Refuses memory)
    (absent : t.lookup key = none) :
    t.Crowded ∧ (t.serve (.put key val memory)).2 = .stored false ∨
      ¬t.Crowded ∧ (t.serve (.put key val memory)).2 = .stored true ∧
        (t.serve (.put key val memory)).1.lookup = Function.update t.lookup key (some val) := by
  have spec := t.put_spec key memory
  rw [serve]
  generalize t.put key memory = result at spec ⊢
  cases spec with
  | failed refused => exact absurd refused made
  | kept _ _ _ _ crowded => exact .inl ⟨crowded absent, rfl⟩
  | @added after x ret kind _ bucket live here stored _ roomy =>
    have positive : ret ≠ -1 ∧ ret ≠ 0 := by
      rcases kind with rfl | rfl <;> decide
    simp only [if_neg positive.1]
    refine .inr ⟨roomy, by simp [positive.2], ?_⟩
    rw [lookup_setVal bucket live, here, stored, Function.update_idem]

theorem serve_put (t : Table hash V) (key : K) (val : V) (memory : Bool)
    (fits : t.Fits (.put key val memory)) :
    Step t.lookup (.put key val memory) (t.serve (.put key val memory)).2
      (t.serve (.put key val memory)).1.lookup := by
  have stored : Step t.lookup (.put key val memory) (.stored (t.lookup key).isNone)
      (Function.update t.lookup key (some val)) := .stored
  by_cases refused : t.Refuses memory
  · obtain rfl := memory_of_refuses refused
    rw [serve_put_refused refused]
    exact .refused
  · cases present : t.lookup key with
    | none =>
      have roomy := fits key val memory rfl present
      obtain ⟨_, answer, after⟩ :=
        (serve_put_absent val refused present).resolve_left fun crowded => roomy crowded.1
      rwa [answer, after, ← show (t.lookup key).isNone = true by rw [present]; rfl]
    | some held =>
      obtain ⟨answer, after⟩ := serve_put_present val refused present
      rwa [answer, after, ← show (t.lookup key).isNone = false by rw [present]; rfl]

theorem serve_step (t : Table hash V) (command : Command K V) (fits : t.Fits command) :
    Step t.lookup command (t.serve command).2 (t.serve command).1.lookup := by
  cases command with
  | put key val memory => exact serve_put t key val memory fits
  | get key => exact .found
  | del key =>
    rw [serve]
    split
    · next none =>
      have absent : t.lookup key = Option.none := lookup_eq_none.mpr none
      have same : Function.update t.lookup key Option.none = t.lookup :=
        absent ▸ Function.update_eq_self key t.lookup
      have step : Step t.lookup (.del key) (.deleted (t.lookup key).isSome)
          (Function.update t.lookup key Option.none) := .deleted
      rwa [same, absent] at step
    · next found =>
      have present : t.lookup key ≠ none := mt lookup_eq_none.mp found
      have step : Step t.lookup (.del key) (.deleted (t.lookup key).isSome)
          (Function.update t.lookup key none) := .deleted
      rwa [← lookup_del_get found, Option.isSome_iff_ne_none.mpr present] at step
  | first =>
    rw [serve]
    split
    · next none => exact .empty (lookup_of_first none)
    · next found =>
      obtain ⟨bucket, live⟩ := first_spec found
      rw [lookup_del bucket live]
      apply Step.taken
      rw [lookup_of_exist bucket live]
      exact Option.some_ne_none _
  | size =>
    rw [serve, size_keys]
    exact .counted fun key => mem_keys

/-- In a crowded table a new key passes for one that is there. -/
theorem fits_of_step {command : Command K V} {map : K → Option V}
    (step : Step t.lookup command (t.serve command).2 map) : t.Fits command := by
  rintro key val memory rfl absent crowded
  obtain ⟨_, answer⟩ :=
    (serve_put_absent val (not_refuses_of_crowded crowded memory) absent).resolve_right
      fun roomy => roomy.1 crowded
  rw [answer] at step
  generalize told : Response.stored false = answer at step
  cases step with
  | stored =>
    rw [absent] at told
    cases told
  | refused => cases told

/-- From the empty table on, the answers of every run are those of a finite map, which the table
holds at the end; but for a new key in a crowded table, and with that exactly until then. -/
theorem dictionary_iff [Inhabited K] [Inhabited V] {trace : List (Command K V × Response K V)}
    {final : Table hash V} (run : (machine hash V).Run .init trace final) :
    dictionary.Run (fun _ => none) trace final.lookup ↔
      (machine hash V).EveryStep .init trace Fits := by
  have refines : (∃ map, dictionary.Run (fun _ => none) trace map ∧ map = final.lookup) ↔
      (machine hash V).EveryStep .init trace Fits := by
    refine run.refines_iff (fun t map => map = t.lookup) ?_ ?_ ?_ (funext fun _ => rfl)
    · rintro before _ command after answer rfl _ fits step
      have served : before.serve command = (after, answer) := Option.some.inj step
      have taken := serve_step before command fits
      rw [served] at taken
      exact ⟨_, taken, rfl⟩
    · rintro before _ command after answer map rfl _ step taken
      have served : before.serve command = (after, answer) := Option.some.inj step
      rw [← show (before.serve command).2 = answer by rw [served]] at taken
      exact fits_of_step taken
    · exact fun _ _ _ _ _ left right => left.settled right
  rw [← refines]
  constructor
  · exact fun image => ⟨_, image, rfl⟩
  · rintro ⟨_, image, rfl⟩
    exact image

omit [DecidableEq K] in
theorem not_crowded (small : t.last < 2 ^ 27) : ¬t.Crowded :=
  fun crowded => absurd crowded.1 (Nat.not_le.mpr small)

theorem serve_run {start t : Table hash V} {trace : List (Command K V × Response K V)}
    (run : (machine hash V).Run start trace t) (all : (machine hash V).EveryStep start trace Fits)
    (command : Command K V) (answer : Response K V)
    (told : t.last < 2 ^ 27 ∧ (t.serve command).2 = answer) :
    (machine hash V).Run start (trace ++ [(command, answer)]) (t.serve command).1 ∧
      (machine hash V).EveryStep start (trace ++ [(command, answer)]) Fits := by
  obtain ⟨small, rfl⟩ := told
  exact ⟨run.on command trivial rfl,
    all.next run fun _ _ _ _ _ => not_crowded small⟩

/-- Keys 1 and 5 start their search at the same bucket. -/
theorem dictionary_iff_collision : ∃ final : Table intHashFunc Nat,
    dictionary.Run (fun _ => none) [(.put 1 10 true, .stored true), (.put 5 50 true, .stored true),
      (.del 1, .deleted true), (.get 5, .found (some 50)), (.size, .counted 1)] final.lookup := by
  let start : Table intHashFunc Nat := init
  have run : (machine intHashFunc Nat).Run start [] start := .start
  obtain ⟨run, all⟩ := serve_run run .start (.put 1 10 true) (.stored true) (by decide +kernel)
  obtain ⟨run, all⟩ := serve_run run all (.put 5 50 true) (.stored true) (by decide +kernel)
  obtain ⟨run, all⟩ := serve_run run all (.del 1) (.deleted true) (by decide +kernel)
  obtain ⟨run, all⟩ := serve_run run all (.get 5) (.found (some 50)) (by decide +kernel)
  obtain ⟨run, all⟩ := serve_run run all .size (.counted 1) (by decide +kernel)
  exact ⟨_, (dictionary_iff run).mpr all⟩

end Table

end GlobalComponents.PicoServer
