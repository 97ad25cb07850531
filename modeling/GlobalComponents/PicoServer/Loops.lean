import GlobalComponents.Library.Loop
import GlobalComponents.PicoServer.Table

/-! The loops of `khash.h` end, and with the results of the definitions that count fuel.

`Gets`, `Resizes` and `Puts` are the functions again, with their loops as they stand in C: nothing
bounds the number of passes, counters and sums wrap in `khint_t`, and a pass that indexes an array
outside its buckets has no outcome. What they come to is then found from the table alone.
-/

set_option autoImplicit false

namespace GlobalComponents.PicoServer

open Library Library.Probing Library.Slots

namespace Khash

section
variable {K V : Type}

/-- `i = (i + (++step)) & mask`, in `khint_t`. -/
def nextBucket (i step mask : Nat) : Nat := (i + step) % 2 ^ 32 &&& mask

def nextStep (step : Nat) : Nat := (step + 1) % 2 ^ 32

def GetPass [DecidableEq K] (h : Khash K V) (key : K) (last : Nat) (state : Nat × Nat)
    (outcome : Pass (Nat × Nat) Nat) : Prop :=
  state.1 < h.nBuckets ∧ outcome =
    if h.passes key state.1 then
      let step := nextStep state.2
      let i := nextBucket state.1 step (h.nBuckets - 1)
      if i = last then .done h.nBuckets else .again (i, step)
    else if (h.flags state.1).either then .done h.nBuckets
    else .done state.1

/-- `kh_get`, with the loop of the source. -/
def Gets [DecidableEq K] (hash : K → UInt32) (h : Khash K V) (key : K) (x : Nat) : Prop :=
  if h.nBuckets ≠ 0 then
    let i := (hash key).toNat &&& (h.nBuckets - 1)
    Loop.Ends (h.GetPass key i) (i, 0) x
  else x = 0

def PutPass [DecidableEq K] (h : Khash K V) (key : K) (last : Nat) (state : Nat × Nat × Nat)
    (outcome : Pass (Nat × Nat × Nat) Nat) : Prop :=
  state.1 < h.nBuckets ∧ outcome =
    if h.passes key state.1 then
      let site := if (h.flags state.1).del then state.1 else state.2.2
      let step := nextStep state.2.1
      let i := nextBucket state.1 step (h.nBuckets - 1)
      if i = last then .done (h.putEnd site i site) else .again (i, step, site)
    else .done (h.putEnd h.nBuckets state.1 state.2.2)

def PutSite [DecidableEq K] (hash : K → UInt32) (h : Khash K V) (key : K) (x : Nat) : Prop :=
  let i := (hash key).toNat &&& (h.nBuckets - 1)
  i < h.nBuckets ∧
    if (h.flags i).empty then x = i else Loop.Ends (h.PutPass key i) (i, 0, h.nBuckets) x

def FindPass (newFlags : Nat → Flag) (newBuckets : Nat) (state : Nat × Nat)
    (outcome : Pass (Nat × Nat) Nat) : Prop :=
  state.1 < newBuckets ∧ outcome =
    if (newFlags state.1).empty then .done state.1
    else
      let step := nextStep state.2
      .again (nextBucket state.1 step (newBuckets - 1), step)

def KickPass (hash : K → UInt32) (newBuckets : Nat) (state : Khash K V × (Nat → Flag) × K × V)
    (outcome : Pass (Khash K V × (Nat → Flag) × K × V) (Khash K V × (Nat → Flag))) : Prop :=
  let (h, newFlags, key, val) := state
  ∃ i, Loop.Ends (FindPass newFlags newBuckets) ((hash key).toNat &&& (newBuckets - 1), 0) i ∧
    outcome =
      if i < h.nBuckets ∧ h.live i = true then
        .again (h.write (mark h.flags i) i key val, take newFlags i, h.keys i, h.vals i)
      else .done (h.write h.flags i key val, take newFlags i)

def RehashPass (hash : K → UInt32) (newBuckets nBuckets : Nat)
    (state : Nat × Khash K V × (Nat → Flag))
    (outcome : Pass (Nat × Khash K V × (Nat → Flag)) (Khash K V × (Nat → Flag))) : Prop :=
  let (j, h, newFlags) := state
  if j = nBuckets then outcome = .done (h, newFlags)
  else if h.live j then
    ∃ after, Loop.Ends (KickPass hash newBuckets)
      ({ h with flags := mark h.flags j }, newFlags, h.keys j, h.vals j) after ∧
      outcome = .again (j + 1, after)
  else outcome = .again (j + 1, h, newFlags)

def Resizes (hash : K → UInt32) (h : Khash K V) (newBuckets : Nat) (memory : Bool)
    (resized : Option (Khash K V)) : Prop :=
  let rounded := (kroundup32 (UInt32.ofNat newBuckets)).toNat
  let newBuckets := if rounded < 4 then 4 else rounded
  if h.size ≥ computeSize newBuckets then resized = some h
  else if !memory then resized = none
  else
    ∃ moved newFlags, Loop.Ends (RehashPass hash newBuckets h.nBuckets)
      (0, h, fun _ => .fresh) (moved, newFlags) ∧
      resized = some { moved with
        flags := newFlags
        nBuckets := newBuckets
        nOccupied := h.size
        upperBound := computeSize newBuckets }

def MakesRoom (hash : K → UInt32) (h : Khash K V) (memory : Bool)
    (room : Option (Khash K V)) : Prop :=
  if h.nOccupied ≥ h.upperBound then
    if h.nBuckets > h.size * 2 % 2 ^ 32 then Resizes hash h (h.nBuckets - 1) memory room
    else Resizes hash h (h.nBuckets + 1) memory room
  else room = some h

def Puts [DecidableEq K] (hash : K → UInt32) (h : Khash K V) (key : K) (memory : Bool)
    (result : Khash K V × Nat × Int) : Prop :=
  ∃ made, MakesRoom hash h memory made ∧
    match made with
    | none => result = (h, h.nBuckets, -1)
    | some h => ∃ x, PutSite hash h key x ∧
      let filled := { h with
        keys := Function.update h.keys x key
        flags := Function.update h.flags x ⟨false, false⟩
        size := h.size + 1 }
      result =
        if (h.flags x).empty then ({ filled with nOccupied := h.nOccupied + 1 }, x, 1)
        else if (h.flags x).del then (filled, x, 2)
        else (h, x, 0)

end

section
variable {K V : Type} {hash : K → UInt32} {h : Khash K V} {k start step : Nat}

/-- No counter wraps within two rounds, and the mask drops what a sum loses. -/
theorem next_probe (start : Nat) (high : k ≤ 31) (early : step + 1 < 2 * 2 ^ k) :
    nextStep step = step + 1 ∧
      nextBucket (probe (2 ^ k) start step) (step + 1) (2 ^ k - 1) =
        probe (2 ^ k) start (step + 1) := by
  have limit : 2 ^ k ≤ 2 ^ 31 := Nat.pow_le_pow_right (by decide) high
  have same : nextStep step = step + 1 := Nat.mod_eq_of_lt (by omega)
  have divides : 2 ^ k ∣ 2 ^ 32 := Nat.pow_dvd_pow 2 (by omega)
  refine ⟨same, ?_⟩
  rw [nextBucket, and_mask, Nat.mod_mod_of_dvd _ divides, probe_succ]

theorem probe_lt (k start step : Nat) : probe (2 ^ k) start step < 2 ^ k :=
  Nat.mod_lt _ (Nat.two_pow_pos k)

/-- The search is not yet back at its start, so it has steps left. -/
theorem steps_left (away : probe (2 ^ k) start (step + 1) ≠ probe (2 ^ k) start 0)
    (early : step < 2 * 2 ^ k - 1) : step + 1 < 2 * 2 ^ k - 1 := by
  apply Nat.lt_of_le_of_ne early
  intro last
  have back := probe_return (k := k) start
  rw [← last] at back
  exact away back

variable [DecidableEq K]

theorem getLoop_ends (size : h.nBuckets = 2 ^ k) (high : k ≤ 31) (key : K) (start : Nat) :
    Loop.Ends (h.GetPass key (probe (2 ^ k) start 0)) (probe (2 ^ k) start 0, 0)
      (h.getLoop key (probe (2 ^ k) start 0) (2 * 2 ^ k) (probe (2 ^ k) start 0) 0) := by
  have positive := Nat.two_pow_pos k
  generalize answer : h.getLoop key _ (2 * 2 ^ k) _ 0 = found
  -- the definition has as much fuel left as the search has steps
  let Inv (state : Nat × Nat) : Prop :=
    state.1 = probe (2 ^ k) start state.2 ∧ state.2 < 2 * 2 ^ k - 1 ∧
      h.getLoop key (probe (2 ^ k) start 0) (2 * 2 ^ k - state.2) state.1 state.2 = found
  suffices ∃ x, Loop.Ends (h.GetPass key (probe (2 ^ k) start 0)) (probe (2 ^ k) start 0, 0) x ∧
      x = found by
    obtain ⟨_, ends, rfl⟩ := this
    exact ends
  refine Loop.ends Inv (fun state => 2 * 2 ^ k - state.2) ?_ ⟨rfl, by dsimp only; omega, answer⟩
  rintro ⟨i, step⟩ ⟨here, early, rest⟩
  dsimp only at here early rest
  subst here
  obtain ⟨stepped, turn⟩ := next_probe start high (show step + 1 < 2 * 2 ^ k by omega)
  have bucket : probe (2 ^ k) start step < 2 ^ k := probe_lt k start step
  have fuel : 2 * 2 ^ k - step = (2 * 2 ^ k - (step + 1)) + 1 := by omega
  rw [fuel, getLoop] at rest
  simp only [size, probe_next] at rest
  simp only [GetPass, size, turn, stepped]
  split at rest
  · next goes =>
    rw [if_pos goes]
    split at rest
    · next back => exact .inl ⟨_, ⟨bucket, by rw [if_pos back]⟩, rest⟩
    · next away =>
      exact .inr ⟨_, ⟨bucket, by rw [if_neg away]⟩, ⟨rfl, steps_left away early, rest⟩,
        by dsimp only; omega⟩
  · next stops =>
    rw [if_neg stops]
    split at rest
    · next dead => exact .inl ⟨_, ⟨bucket, by rw [if_pos dead]⟩, rest⟩
    · next alive => exact .inl ⟨_, ⟨bucket, by rw [if_neg alive]⟩, rest⟩

theorem putLoop_ends (size : h.nBuckets = 2 ^ k) (high : k ≤ 31) (key : K) (start site : Nat) :
    Loop.Ends (h.PutPass key (probe (2 ^ k) start 0)) (probe (2 ^ k) start 0, 0, site)
      (h.putLoop key (probe (2 ^ k) start 0) (2 * 2 ^ k) (probe (2 ^ k) start 0) 0 site) := by
  have positive := Nat.two_pow_pos k
  generalize answer : h.putLoop key _ (2 * 2 ^ k) _ 0 site = found
  let Inv (state : Nat × Nat × Nat) : Prop :=
    state.1 = probe (2 ^ k) start state.2.1 ∧ state.2.1 < 2 * 2 ^ k - 1 ∧
      h.putLoop key (probe (2 ^ k) start 0) (2 * 2 ^ k - state.2.1) state.1 state.2.1 state.2.2 =
        found
  suffices ∃ x, Loop.Ends (h.PutPass key (probe (2 ^ k) start 0)) (probe (2 ^ k) start 0, 0, site)
      x ∧ x = found by
    obtain ⟨_, ends, rfl⟩ := this
    exact ends
  refine Loop.ends Inv (fun state => 2 * 2 ^ k - state.2.1) ?_ ⟨rfl, by dsimp only; omega, answer⟩
  rintro ⟨i, step, site⟩ ⟨here, early, rest⟩
  dsimp only at here early rest
  subst here
  obtain ⟨stepped, turn⟩ := next_probe start high (show step + 1 < 2 * 2 ^ k by omega)
  have bucket : probe (2 ^ k) start step < 2 ^ k := probe_lt k start step
  have fuel : 2 * 2 ^ k - step = (2 * 2 ^ k - (step + 1)) + 1 := by omega
  rw [fuel, putLoop] at rest
  simp only [size, probe_next] at rest
  simp only [PutPass, size, turn, stepped]
  split at rest
  · next goes =>
    rw [if_pos goes]
    split at rest
    · next back => exact .inl ⟨_, ⟨bucket, by rw [if_pos back]⟩, rest⟩
    · next away =>
      exact .inr ⟨_, ⟨bucket, by rw [if_neg away]⟩, ⟨rfl, steps_left away early, rest⟩,
        by dsimp only; omega⟩
  · next stops => exact .inl ⟨_, ⟨bucket, by rw [if_neg stops]⟩, rest⟩

theorem gets_get (wf : Wf hash h) (key : K) : Gets hash h key (h.get hash key) := by
  rw [Gets, get]
  split
  · next some =>
    obtain ⟨k, _, high, size⟩ := wf.shape.resolve_left fun none => some none.1
    have ends := getLoop_ends size high key (hash key).toNat
    rw [probe_zero, ← and_mask] at ends
    rwa [size]
  · rfl

theorem putSite_ends (wf : Wf hash h) (some : h.nBuckets ≠ 0) (key : K) :
    PutSite hash h key (h.putSite hash key) := by
  obtain ⟨k, _, high, size⟩ := wf.shape.resolve_left fun none => some none.1
  refine ⟨mask_lt some, ?_⟩
  rw [putSite]
  split
  · rfl
  · have ends := putLoop_ends size high key (hash key).toNat h.nBuckets
    rw [probe_zero, ← and_mask] at ends
    rwa [size] at ends ⊢

end

section
variable {K V : Type} {hash : K → UInt32} {h : Khash K V} {newFlags : Nat → Flag} {k span : Nat}

theorem findEmpty_ends (high : k ≤ 31) (start : Nat) {t : Nat} (small : t < 2 ^ k)
    (free : (newFlags (probe (2 ^ k) start t)).empty = true)
    (path : ∀ j < t, occupied newFlags (probe (2 ^ k) start j)) :
    Loop.Ends (FindPass newFlags (2 ^ k)) (start &&& (2 ^ k - 1), 0) (probe (2 ^ k) start t) := by
  suffices ∃ x, Loop.Ends (FindPass newFlags (2 ^ k)) (start &&& (2 ^ k - 1), 0) x ∧
      x = probe (2 ^ k) start t by
    obtain ⟨_, ends, rfl⟩ := this
    exact ends
  refine Loop.ends (fun state => state.1 = probe (2 ^ k) start state.2 ∧ state.2 ≤ t)
    (fun state => t - state.2) ?_ ⟨by rw [probe_zero, and_mask], Nat.zero_le t⟩
  rintro ⟨i, step⟩ ⟨here, early⟩
  dsimp only at here early
  subst here
  have bucket := probe_lt k start step
  rcases Nat.lt_or_eq_of_le early with before | rfl
  · have full : (newFlags (probe (2 ^ k) start step)).empty = false := path step before
    obtain ⟨stepped, turn⟩ := next_probe start high (show step + 1 < 2 * 2 ^ k by omega)
    refine .inr ⟨(probe (2 ^ k) start (step + 1), step + 1), ⟨bucket, ?_⟩, ⟨rfl, before⟩, ?_⟩
    · simp [full, stepped, turn]
    · dsimp only
      omega
  · exact .inl ⟨_, ⟨bucket, by simp [free]⟩, rfl⟩

theorem site_ends (high : k ≤ 31) (fits : 2 ^ k ≤ span)
    (room : (contents (h.moving newFlags) span).card < 2 ^ k) (start : Nat) :
    Loop.Ends (FindPass newFlags (2 ^ k)) (start &&& (2 ^ k - 1), 0)
      (findEmpty newFlags (2 ^ k - 1) (2 ^ k) (start &&& (2 ^ k - 1)) 0) := by
  obtain ⟨i, bucket, free⟩ := exists_free fits room
  obtain ⟨t, small, first, path⟩ :=
    exists_first_free start bucket (show ¬occupied newFlags i by simp [occupied, free])
  have empty : (newFlags (probe (2 ^ k) start t)).empty = true := by
    simpa [occupied] using first
  rw [findEmpty_spec small empty path]
  exact findEmpty_ends high start small empty path

theorem write_kicked (newFlags : Nat → Flag) (key : K) (val : V) {i : Nat} (within : i < span)
    (old : i < h.nBuckets) (live : h.live i = true) :
    (h.write (mark h.flags i) i key val).entries.card + 1 = h.entries.card ∧
      (contents ((h.write (mark h.flags i) i key val).moving (take newFlags i)) span).card =
        (contents (h.moving newFlags) span).card := by
  have smaller := congrArg Multiset.card (entries_write old live key val)
  have swapped := contents_update (h.moving newFlags) within (some (key, val))
  have held : h.moving newFlags i = some (h.keys i, h.vals i) := by
    simp [Khash.moving, old, live]
  rw [← moving_write (mark h.flags i) fun _ => mark_of_ne, held] at swapped
  have same := congrArg Multiset.card swapped
  simp only [Multiset.card_add, Multiset.card_singleton, Option.toList_some,
    Multiset.coe_singleton] at smaller same
  exact ⟨smaller, Nat.add_right_cancel same⟩

theorem kickOut_ends (high : k ≤ 31) (fits : 2 ^ k ≤ span) (fuel : Nat) (h : Khash K V)
    (newFlags : Nat → Flag) (key : K) (val : V) (enough : h.entries.card < fuel)
    (room : (contents (h.moving newFlags) span).card < 2 ^ k) :
    Loop.Ends (KickPass hash (2 ^ k)) (h, newFlags, key, val)
      (kickOut hash (2 ^ k) fuel h newFlags key val) := by
  -- each round empties an old bucket, so there are no more than entries
  induction fuel generalizing h newFlags key val with
  | zero => omega
  | succ fuel ih =>
    have search := site_ends high fits room (hash key).toNat
    obtain ⟨i, bucket, site, _⟩ := exists_site fits room (hash key).toNat
    rw [site] at search
    rw [kickOut]
    simp only [site]
    split
    · next kicked =>
      obtain ⟨smaller, same⟩ := write_kicked newFlags key val
        (show i < span by omega) kicked.1 kicked.2
      exact .again ⟨i, search, by rw [if_pos kicked]⟩
        (ih (h.write (mark h.flags i) i key val) (take newFlags i) _ _ (by omega) (by omega))
    · next last => exact .done ⟨i, search, by rw [if_neg last]; rfl⟩

theorem rehash_ends {total : Multiset (K × V)} (high : k ≤ 31) (fits : 2 ^ k ≤ span)
    (covers : h.nBuckets ≤ span) (room : total.card < 2 ^ k)
    (moves : Moves hash k span h total (h, newFlags)) :
    Loop.Ends (RehashPass hash (2 ^ k) h.nBuckets) (0, h, newFlags)
      ((List.range h.nBuckets).foldl (rehashBucket hash (2 ^ k)) (h, newFlags)) := by
  refine Loop.ends_range (fun _ => Moves hash k span h total) (fun state => ?_)
    (fun j state old moves => ?_) moves
  · rw [RehashPass, if_pos rfl]
  · obtain ⟨after, _⟩ := rehashBucket_moves fits covers old moves room
    refine ⟨?_, after⟩
    obtain ⟨g, flags⟩ := state
    rw [RehashPass, rehashBucket, if_neg old.ne]
    dsimp only
    split
    · next live =>
      have fewer : (contents ({ g with flags := mark g.flags j }.moving flags) span).card ≤
          (contents (g.moving flags) span).card := by
        apply card_contents_mono
        intro i _ taken
        by_cases here : i = j
        · subst here
          simp [Khash.moving, Khash.live, mark_dead] at taken
          simp [Khash.moving, taken]
        · simpa [Khash.moving, Khash.live, mark_of_ne here] using taken
      rw [moves.total] at fewer
      exact ⟨_, kickOut_ends high fits _ _ flags _ _
        (Nat.lt_succ_of_le (card_contents_le _ _)) (fewer.trans_lt room), rfl⟩
    · rfl

theorem Wf.rounds (wf : Wf hash h) :
    (h.nBuckets > h.size * 2 % 2 ^ 32 → Rounds (h.nBuckets - 1)) ∧ Rounds (h.nBuckets + 1) := by
  rcases wf.shape with ⟨none, _⟩ | ⟨k, low, high, size⟩
  · rw [none]
    exact ⟨fun more => absurd more (Nat.not_lt_zero _), rounds_fresh⟩
  · rw [size]
    exact ⟨fun _ => rounds_below low high, rounds_above low high⟩

theorem resize_ends {newBuckets : Nat} (wf : Wf hash h) (rounds : Rounds newBuckets)
    (memory : Bool) : Resizes hash h newBuckets memory (h.resize hash newBuckets memory) := by
  obtain ⟨k, low, high, rounded⟩ := rounds
  rw [RoundsTo] at rounded
  have limit := computeSize_lt k (by omega) low
  rw [Resizes, resize]
  simp only [rounded]
  split
  · rfl
  · next bigger =>
    split
    · rfl
    · have count := wf.count
      have total := contents_fresh h (Nat.le_max_left h.nBuckets (2 ^ k))
      exact ⟨_, _, rehash_ends high (Nat.le_max_right h.nBuckets (2 ^ k)) (Nat.le_max_left _ _)
        (show h.entries.card < 2 ^ k by omega)
        ⟨.fresh hash (2 ^ k) h, total, rfl, rfl, fun _ live => live⟩, rfl⟩

theorem makeRoom_ends (wf : Wf hash h) (memory : Bool) :
    MakesRoom hash h memory (h.makeRoom hash memory) := by
  obtain ⟨less, more⟩ := wf.rounds
  rw [MakesRoom, makeRoom]
  split
  · split
    · next loose => exact resize_ends wf (less loose) memory
    · exact resize_ends wf more memory
  · rfl

theorem put_ends [DecidableEq K] (wf : Wf hash h) (key : K) (memory : Bool) :
    Puts hash h key memory (h.put hash key memory) := by
  refine ⟨h.makeRoom hash memory, makeRoom_ends wf memory, ?_⟩
  rw [put]
  cases made : h.makeRoom hash memory with
  | none => rfl
  | some room =>
    obtain ⟨wf', _, some⟩ := makeRoom_wf wf made
    exact ⟨_, putSite_ends wf' some key, rfl⟩

theorem gets_unique [DecidableEq K] {key : K} {x y : Nat} (left : Gets hash h key x)
    (right : Gets hash h key y) : x = y := by
  rw [Gets] at left right
  split at left
  · next some =>
    rw [if_pos some] at right
    exact left.unique (fun _ _ _ first second => first.2.trans second.2.symm) right
  · next none =>
    rw [if_neg none] at right
    exact left.trans right.symm

theorem putSite_unique [DecidableEq K] {key : K} {x y : Nat} (left : PutSite hash h key x)
    (right : PutSite hash h key y) : x = y := by
  obtain ⟨_, left⟩ := left
  obtain ⟨_, right⟩ := right
  split at left
  · next empty =>
    rw [if_pos empty] at right
    exact left.trans right.symm
  · next full =>
    rw [if_neg full] at right
    exact left.unique (fun _ _ _ first second => first.2.trans second.2.symm) right

theorem kickPass_functional {newBuckets : Nat} (state : Khash K V × (Nat → Flag) × K × V)
    (first second : Pass (Khash K V × (Nat → Flag) × K × V) (Khash K V × (Nat → Flag)))
    (left : KickPass hash newBuckets state first) (right : KickPass hash newBuckets state second) :
    first = second := by
  obtain ⟨i, here, rfl⟩ := left
  obtain ⟨j, there, rfl⟩ := right
  obtain rfl := here.unique (fun _ _ _ first second => first.2.trans second.2.symm) there
  rfl

theorem rehashPass_functional {newBuckets nBuckets : Nat}
    (state : Nat × Khash K V × (Nat → Flag))
    (first second : Pass (Nat × Khash K V × (Nat → Flag)) (Khash K V × (Nat → Flag)))
    (left : RehashPass hash newBuckets nBuckets state first)
    (right : RehashPass hash newBuckets nBuckets state second) : first = second := by
  obtain ⟨j, h, newFlags⟩ := state
  rw [RehashPass] at left right
  split at left
  · next last =>
    rw [if_pos last] at right
    exact left.trans right.symm
  · next more =>
    rw [if_neg more] at right
    split at left
    · next live =>
      rw [if_pos live] at right
      obtain ⟨after, here, rfl⟩ := left
      obtain ⟨other, there, rfl⟩ := right
      rw [here.unique kickPass_functional there]
    · next dead =>
      rw [if_neg dead] at right
      exact left.trans right.symm

theorem resizes_unique {newBuckets : Nat} {memory : Bool} {left right : Option (Khash K V)}
    (first : Resizes hash h newBuckets memory left)
    (second : Resizes hash h newBuckets memory right) : left = right := by
  simp only [Resizes] at first second
  generalize (if (kroundup32 (UInt32.ofNat newBuckets)).toNat < 4 then 4
    else (kroundup32 (UInt32.ofNat newBuckets)).toNat) = rounded at first second
  split at first
  · next small =>
    rw [if_pos small] at second
    exact first.trans second.symm
  · next bigger =>
    rw [if_neg bigger] at second
    split at first
    · next none =>
      rw [if_pos none] at second
      exact first.trans second.symm
    · next enough =>
      rw [if_neg enough] at second
      obtain ⟨moved, newFlags, here, rfl⟩ := first
      obtain ⟨moved', newFlags', there, rfl⟩ := second
      cases here.unique rehashPass_functional there
      rfl

theorem makesRoom_unique {memory : Bool} {left right : Option (Khash K V)}
    (first : MakesRoom hash h memory left) (second : MakesRoom hash h memory right) :
    left = right := by
  rw [MakesRoom] at first second
  split at first
  · next full =>
    rw [if_pos full] at second
    split at first
    · next loose =>
      rw [if_pos loose] at second
      exact resizes_unique first second
    · next tight =>
      rw [if_neg tight] at second
      exact resizes_unique first second
  · next free =>
    rw [if_neg free] at second
    exact first.trans second.symm

theorem puts_unique [DecidableEq K] {key : K} {memory : Bool} {left right : Khash K V × Nat × Int}
    (first : Puts hash h key memory left) (second : Puts hash h key memory right) :
    left = right := by
  obtain ⟨made, here, first⟩ := first
  obtain ⟨made', there, second⟩ := second
  obtain rfl := makesRoom_unique here there
  cases made with
  | none => exact first.trans second.symm
  | some room =>
    obtain ⟨x, site, rfl⟩ := first
    obtain ⟨y, site', rfl⟩ := second
    rw [putSite_unique site site']

end

end Khash

/-- On every table the loops of `kh_get` and `kh_put`, those of `kh_resize` included, end without an
access outside the arrays, and the table and the bucket are those of `Khash.get` and `Khash.put`. -/
theorem khash_ends {K V : Type} [DecidableEq K] {hash : K → UInt32} (t : Table hash V) (key : K)
    (memory : Bool) :
    (∀ x, Khash.Gets hash t.table key x ↔ x = t.get key) ∧
      ∀ result, Khash.Puts hash t.table key memory result ↔
        result = t.table.put hash key memory := by
  have found := Khash.gets_get t.wf key
  have put := Khash.put_ends t.wf key memory
  refine ⟨fun x => ⟨fun gets => Khash.gets_unique gets found, ?_⟩,
    fun result => ⟨fun puts => Khash.puts_unique puts put, ?_⟩⟩
  · rintro rfl
    exact found
  · rintro rfl
    exact put

end GlobalComponents.PicoServer
