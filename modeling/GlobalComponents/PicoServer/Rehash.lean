import GlobalComponents.Library.Probing
import GlobalComponents.Library.Slots
import GlobalComponents.PicoServer.Khash

/-! Rehashing moves every entry of a table into its new flags and leaves none behind.

While entries move, a bucket counts when it is still live in the old flags or already taken in the
new ones. No bucket is both, so one array holds the entries of both tables, and each kick-out swaps
the entry in hand with one bucket of it.
-/

set_option autoImplicit false

namespace GlobalComponents.PicoServer

open Library Library.Probing Library.Slots

namespace Khash

variable {K V : Type}

def slot (h : Khash K V) (i : Nat) : Option (K × V) :=
  if h.live i then some (h.keys i, h.vals i) else none

def entries (h : Khash K V) : Multiset (K × V) := contents h.slot h.nBuckets

def occupied (flags : Nat → Flag) (i : Nat) : Prop := (flags i).empty = false

def occupancy (flags : Nat → Flag) (size : Nat) : Nat :=
  (contents (fun i => if (flags i).empty then none else some ()) size).card

structure Wf (hash : K → UInt32) (h : Khash K V) : Prop where
  shape : (h.nBuckets = 0 ∧ h.upperBound = 0) ∨ ∃ k, 2 ≤ k ∧ k ≤ 31 ∧ h.nBuckets = 2 ^ k
  bound : h.upperBound = computeSize h.nBuckets
  occupancy : h.nOccupied = occupancy h.flags h.nBuckets
  unique : (h.entries.map Prod.fst).Nodup
  count : h.size = h.entries.card
  reach : ∀ i < h.nBuckets, h.live i = true →
    Reaches h.nBuckets (occupied h.flags) (hash (h.keys i)).toNat i
  /-- The last word of `flags` may reach behind the last bucket. -/
  behind : ∀ i, h.nBuckets ≤ i → h.flags i = .fresh

theorem and_mask (x k : Nat) : x &&& (2 ^ k - 1) = x % 2 ^ k := Nat.and_two_pow_sub_one_eq_mod x k

theorem probe_next {k start t : Nat} :
    (probe (2 ^ k) start t + (t + 1)) &&& (2 ^ k - 1) = probe (2 ^ k) start (t + 1) := by
  rw [and_mask, probe_succ]

theorem slot_of_live {h : Khash K V} {i : Nat} (live : h.live i = true) :
    h.slot i = some (h.keys i, h.vals i) := by
  simp [slot, live]

theorem slot_eq_some {h : Khash K V} {i : Nat} {entry : K × V} :
    h.slot i = some entry ↔ h.live i = true ∧ h.keys i = entry.1 ∧ h.vals i = entry.2 := by
  simp [slot, Prod.ext_iff]

theorem mem_entries {h : Khash K V} {key : K} {val : V} :
    (key, val) ∈ h.entries ↔
      ∃ i < h.nBuckets, h.live i = true ∧ h.keys i = key ∧ h.vals i = val := by
  simp [entries, mem_contents, slot_eq_some]

/-- In a table without deleted marks the buckets that are not empty are the live ones. -/
theorem occupancy_of_clean {h : Khash K V} (clean : ∀ i, (h.flags i).del = false) :
    occupancy h.flags h.nBuckets = h.entries.card := by
  have slots : (fun i => (h.slot i).map fun _ => ()) =
      fun i => if (h.flags i).empty then none else some () := by
    funext i
    cases empty : (h.flags i).empty <;> simp [slot, live, Flag.either, empty, clean i]
  rw [entries, ← Multiset.card_map (fun _ => ()), map_contents, slots]
  rfl

theorem findEmpty_spec {newFlags : Nat → Flag} {k start : Nat} {t : Nat} (small : t < 2 ^ k)
    (free : (newFlags (probe (2 ^ k) start t)).empty = true)
    (path : ∀ j < t, occupied newFlags (probe (2 ^ k) start j)) :
    findEmpty newFlags (2 ^ k - 1) (2 ^ k) (start &&& (2 ^ k - 1)) 0 =
      probe (2 ^ k) start t := by
  -- by induction on the steps left before bucket `t`
  have loop : ∀ left fuel s, s + left = t → left < fuel →
      findEmpty newFlags (2 ^ k - 1) fuel (probe (2 ^ k) start s) s = probe (2 ^ k) start t := by
    intro left
    -- on the steps up to the first empty bucket
    induction left with
    | zero =>
      intro fuel s here enough
      obtain ⟨fuel, rfl⟩ := Nat.exists_eq_add_of_lt enough
      obtain rfl : s = t := here
      simp [findEmpty, free]
    | succ left ih =>
      intro fuel s here enough
      obtain ⟨fuel, rfl⟩ := Nat.exists_eq_add_of_lt enough
      have taken : (newFlags (probe (2 ^ k) start s)).empty = false := path s (by omega)
      have next := ih (left + 1 + fuel) (s + 1) (by omega) (by omega)
      rw [findEmpty, taken]
      change findEmpty newFlags _ _ ((_ + (s + 1)) &&& _) (s + 1) = _
      rwa [probe_next]
  have := loop t (2 ^ k) 0 (Nat.zero_add t) small
  rwa [probe_zero, ← and_mask] at this

/-- What bucket `i` holds while entries move: `newFlags` for those that have moved. -/
def moving (h : Khash K V) (newFlags : Nat → Flag) (i : Nat) : Option (K × V) :=
  if (i < h.nBuckets ∧ h.live i = true) ∨ (newFlags i).empty = false then
    some (h.keys i, h.vals i)
  else none

structure Moving (hash : K → UInt32) (newBuckets : Nat) (h : Khash K V)
    (newFlags : Nat → Flag) : Prop where
  apart : ∀ i < h.nBuckets, h.live i = true → (newFlags i).empty = true
  clean : ∀ i, (newFlags i).del = false
  within : ∀ i, newBuckets ≤ i → (newFlags i).empty = true
  reach : ∀ i < newBuckets, occupied newFlags i →
    Reaches newBuckets (occupied newFlags) (hash (h.keys i)).toNat i

section
variable {hash : K → UInt32} {k span : Nat}

theorem exists_free {h : Khash K V} {newFlags : Nat → Flag} (fits : 2 ^ k ≤ span)
    (room : (contents (h.moving newFlags) span).card < 2 ^ k) :
    ∃ i < 2 ^ k, (newFlags i).empty = true := by
  by_contra full
  have taken : ∀ i < 2 ^ k, h.moving newFlags i ≠ none := by
    intro i bucket
    have : (newFlags i).empty = false := by
      by_contra empty
      exact full ⟨i, bucket, by simpa using empty⟩
    simp [moving, this]
  have := le_card_contents fits taken
  omega

/-- The entry in hand takes the first free bucket of its search; `i` is that bucket. -/
theorem exists_site {h : Khash K V} {newFlags : Nat → Flag} (fits : 2 ^ k ≤ span)
    (room : (contents (h.moving newFlags) span).card < 2 ^ k) (start : Nat) :
    ∃ i < 2 ^ k, findEmpty newFlags (2 ^ k - 1) (2 ^ k) (start &&& (2 ^ k - 1)) 0 = i ∧
      (newFlags i).empty = true ∧ Reaches (2 ^ k) (occupied newFlags) start i := by
  obtain ⟨i, bucket, free⟩ := exists_free fits room
  obtain ⟨t, small, first, path⟩ :=
    exists_first_free start bucket (show ¬occupied newFlags i by simp [occupied, free])
  have empty : (newFlags (probe (2 ^ k) start t)).empty = true := by
    simpa [occupied] using first
  exact ⟨_, Nat.mod_lt _ (Nat.two_pow_pos k), findEmpty_spec small empty path, empty, t, rfl, path⟩

def write (h : Khash K V) (flags : Nat → Flag) (i : Nat) (key : K) (val : V) : Khash K V :=
  { h with
    flags := flags
    keys := Function.update h.keys i key
    vals := Function.update h.vals i val }

/-- `__ac_set_isempty_false` -/
def take (newFlags : Nat → Flag) (i : Nat) : Nat → Flag :=
  Function.update newFlags i { newFlags i with empty := false }

/-- `__ac_set_isdel_true` -/
def mark (flags : Nat → Flag) (i : Nat) : Nat → Flag :=
  Function.update flags i { flags i with del := true }

theorem take_of_ne {newFlags : Nat → Flag} {i j : Nat} (other : j ≠ i) :
    take newFlags i j = newFlags j := Function.update_of_ne other _ _

theorem mark_of_ne {flags : Nat → Flag} {i j : Nat} (other : j ≠ i) :
    mark flags i j = flags j := Function.update_of_ne other _ _

theorem mark_dead (flags : Nat → Flag) (i : Nat) : (mark flags i i).either = true := by
  simp [mark, Flag.either]

theorem Moving.write {h : Khash K V} {newFlags : Nat → Flag} {key : K} {i : Nat}
    (moving : Moving hash (2 ^ k) h newFlags) (flags : Nat → Flag) (val : V) (bucket : i < 2 ^ k)
    (free : (newFlags i).empty = true)
    (reaches : Reaches (2 ^ k) (occupied newFlags) (hash key).toNat i)
    (left : ∀ j < h.nBuckets, (flags j).either = false → j ≠ i ∧ h.live j = true) :
    Moving hash (2 ^ k) (h.write flags i key val) (take newFlags i) where
  apart j old alive := by
    obtain ⟨other, before⟩ := left j old (by simpa [live, Khash.write] using alive)
    rw [take_of_ne other]
    exact moving.apart j old before
  clean j := by
    by_cases here : j = i
    · subst here
      simpa [take] using moving.clean j
    · rw [take_of_ne here]
      exact moving.clean j
  within j outside := by
    rw [take_of_ne (by omega)]
    exact moving.within j outside
  reach j small taken := by
    have more : ∀ m, occupied newFlags m → occupied (take newFlags i) m := by
      intro m full
      have other : m ≠ i := by
        rintro rfl
        simp [occupied, free] at full
      rwa [occupied, take_of_ne other]
    by_cases here : j = i
    · subst here
      simpa [Khash.write] using reaches.mono more
    · simp only [Khash.write, Function.update_of_ne here]
      rw [occupied, take_of_ne here] at taken
      exact (moving.reach j small taken).mono more

end

theorem moving_write {h : Khash K V} {newFlags : Nat → Flag} {key : K} {val : V} {i : Nat}
    (flags : Nat → Flag)
    (others : ∀ j, j ≠ i → flags j = h.flags j) :
    (h.write flags i key val).moving (take newFlags i) =
      Function.update (h.moving newFlags) i (some (key, val)) := by
  funext j
  by_cases here : j = i
  · subst here
    simp [moving, write, take]
  · simp [moving, live, write, take, Function.update_of_ne here, others j here]

structure Moves (hash : K → UInt32) (k span : Nat) (h : Khash K V) (total : Multiset (K × V))
    (state : Khash K V × (Nat → Flag)) : Prop where
  moving : Moving hash (2 ^ k) state.1 state.2
  total : contents (state.1.moving state.2) span = total
  buckets : state.1.nBuckets = h.nBuckets
  size : state.1.size = h.size
  fewer : ∀ i, state.1.live i = true → h.live i = true

theorem entries_write {h : Khash K V} {i : Nat} (within : i < h.nBuckets) (live : h.live i = true)
    (key : K) (val : V) :
    (h.write (mark h.flags i) i key val).entries + {(h.keys i, h.vals i)} = h.entries := by
  have slots : (h.write (mark h.flags i) i key val).slot = Function.update h.slot i none := by
    funext j
    by_cases here : j = i
    · subst here
      simp [slot, Khash.live, write, mark_dead]
    · simp [slot, Khash.live, write, Function.update_of_ne here, mark_of_ne here]
  rw [entries, slots]
  exact contents_clear within (slot_of_live live)

theorem kickOut_moves {hash : K → UInt32} {k span : Nat} (fits : 2 ^ k ≤ span) (fuel : Nat)
    (h : Khash K V) (newFlags : Nat → Flag) (key : K) (val : V) (covers : h.nBuckets ≤ span)
    (moving : Moving hash (2 ^ k) h newFlags) (enough : h.entries.card < fuel)
    (room : (contents (h.moving newFlags) span).card < 2 ^ k) :
    Moves hash k span h (contents (h.moving newFlags) span + {(key, val)})
      (kickOut hash (2 ^ k) fuel h newFlags key val) := by
  -- each round empties an old bucket, so there are no more than entries
  induction fuel generalizing h newFlags key val with
  | zero => omega
  | succ fuel ih =>
    obtain ⟨i, bucket, site, free, reaches⟩ := exists_site fits room (hash key).toNat
    have within : i < span := by omega
    rw [kickOut]
    simp only [site]
    split
    · next kicked =>
      obtain ⟨old, live⟩ := kicked
      have written := moving.write (mark h.flags i) val bucket free reaches (by
        intro j _ alive
        have other : j ≠ i := by
          rintro rfl
          simp [mark_dead] at alive
        rw [mark_of_ne other] at alive
        exact ⟨other, by simp [Khash.live, alive]⟩)
      -- the entry in hand and bucket `i` change places
      have swapped := contents_update (h.moving newFlags) within (some (key, val))
      have held : h.moving newFlags i = some (h.keys i, h.vals i) := by
        simp [Khash.moving, old, live]
      rw [← moving_write (mark h.flags i) fun _ => mark_of_ne, held] at swapped
      have smaller := congrArg Multiset.card (entries_write old live key val)
      have same := congrArg Multiset.card swapped
      simp only [Multiset.card_add, Multiset.card_singleton, Option.toList_some,
        Multiset.coe_singleton] at smaller same swapped
      have rest := ih (h.write (mark h.flags i) i key val) (take newFlags i) (h.keys i) (h.vals i)
        covers written (by omega) (by omega)
      exact {
        moving := rest.moving
        total := rest.total.trans swapped
        buckets := rest.buckets
        size := rest.size
        fewer := by
          intro j alive
          have marked := rest.fewer j alive
          by_cases here : j = i
          · rw [here]
            exact live
          · simpa [Khash.live, write, mark_of_ne here] using marked }
    · next last =>
      have empty : h.moving newFlags i = none := by
        simpa [Khash.moving, free] using last
      exact {
        moving := by
          apply moving.write _ _ bucket free reaches
          intro j old alive
          refine ⟨?_, by simp [Khash.live, alive]⟩
          rintro rfl
          exact last ⟨old, by simp [Khash.live, alive]⟩
        total := by
          have filled := contents_fill within empty (key, val)
          rwa [← moving_write h.flags fun _ _ => rfl] at filled
        buckets := rfl
        size := rfl
        fewer := fun _ alive => alive }

theorem Moves.trans {hash : K → UInt32} {k span : Nat} {h : Khash K V}
    {middle total : Multiset (K × V)} {state final : Khash K V × (Nat → Flag)}
    (first : Moves hash k span h middle state) (second : Moves hash k span state.1 total final) :
    Moves hash k span h total final where
  moving := second.moving
  total := second.total
  buckets := second.buckets.trans first.buckets
  size := second.size.trans first.size
  fewer i alive := first.fewer i (second.fewer i alive)

theorem rehashBucket_moves {hash : K → UInt32} {k span : Nat} {h : Khash K V}
    {total : Multiset (K × V)} {state : Khash K V × (Nat → Flag)} {j : Nat}
    (fits : 2 ^ k ≤ span) (covers : h.nBuckets ≤ span) (old : j < h.nBuckets)
    (moves : Moves hash k span h total state) (room : total.card < 2 ^ k) :
    Moves hash k span h total (rehashBucket hash (2 ^ k) state j) ∧
      (rehashBucket hash (2 ^ k) state j).1.live j = false := by
  obtain ⟨g, newFlags⟩ := state
  have old : j < g.nBuckets := moves.buckets ▸ old
  have covers : g.nBuckets ≤ span := moves.buckets ▸ covers
  rw [rehashBucket]
  simp only
  split
  · next live =>
    let marked : Khash K V := { g with flags := mark g.flags j }
    have alive : ∀ i, marked.live i = true → i ≠ j ∧ g.live i = true := by
      intro i alive
      have other : i ≠ j := by
        rintro rfl
        simp [marked, Khash.live, mark_dead] at alive
      exact ⟨other, by simpa [marked, Khash.live, mark_of_ne other] using alive⟩
    have moving : Moving hash (2 ^ k) marked newFlags :=
      { moves.moving with apart := fun i small live => moves.moving.apart i small (alive i live).2 }
    have taken : marked.moving newFlags = Function.update (g.moving newFlags) j none := by
      funext i
      by_cases here : i = j
      · subst here
        have empty : (newFlags i).empty = true := moves.moving.apart i old live
        simp [Khash.moving, marked, Khash.live, mark_dead, empty]
      · simp [Khash.moving, marked, Khash.live, Function.update_of_ne here, mark_of_ne here]
    have held : g.moving newFlags j = some (g.keys j, g.vals j) := by
      simp [Khash.moving, old, live]
    have parts := contents_clear (show j < span by omega) held
    rw [← taken, moves.total] at parts
    have card := congrArg Multiset.card parts
    rw [Multiset.card_add, Multiset.card_singleton] at card
    have rest := kickOut_moves fits (g.nBuckets + 1) marked newFlags (g.keys j) (g.vals j) covers
      moving (Nat.lt_succ_of_le (card_contents_le _ _)) (by omega)
    refine ⟨moves.trans ⟨rest.moving, rest.total.trans parts, rest.buckets, rest.size,
      fun i live => (alive i (rest.fewer i live)).2⟩, ?_⟩
    apply Bool.eq_false_iff.mpr
    intro live
    exact (alive j (rest.fewer j live)).1 rfl
  · next dead => exact ⟨moves, by simpa using dead⟩

theorem rehash_moves {hash : K → UInt32} {k span : Nat} {h : Khash K V}
    {total : Multiset (K × V)} (fits : 2 ^ k ≤ span) (covers : h.nBuckets ≤ span)
    (room : total.card < 2 ^ k) (buckets : List Nat) (old : ∀ j ∈ buckets, j < h.nBuckets)
    (state : Khash K V × (Nat → Flag)) (moves : Moves hash k span h total state) :
    Moves hash k span h total (buckets.foldl (rehashBucket hash (2 ^ k)) state) ∧
      ∀ j ∈ buckets, (buckets.foldl (rehashBucket hash (2 ^ k)) state).1.live j = false := by
  -- on the buckets that were visited, which are all dead in the old table
  induction buckets using List.reverseRecOn with
  | nil => exact ⟨moves, by simp⟩
  | append_singleton buckets j ih =>
    obtain ⟨before, gone⟩ := ih fun i member => old i (List.mem_append_left _ member)
    have last := old j (by simp)
    rw [List.foldl_append, List.foldl_cons, List.foldl_nil]
    generalize buckets.foldl (rehashBucket hash (2 ^ k)) state = middle at before gone
    obtain ⟨after, dead⟩ := rehashBucket_moves fits covers last before room
    refine ⟨after, fun i member => ?_⟩
    rcases List.mem_append.mp member with early | here
    · have own := rehashBucket_moves (h := middle.1) fits (before.buckets ▸ covers)
        (before.buckets ▸ last)
        ⟨before.moving, before.total, rfl, rfl, fun _ live => live⟩ room
      apply Bool.eq_false_iff.mpr
      intro live
      exact Bool.eq_false_iff.mp (gone i early) (own.1.fewer i live)
    · rw [List.mem_singleton.mp here]
      exact dead

theorem kroundup32_below :
    ∀ k < 32, 2 ≤ k → (kroundup32 (UInt32.ofNat (2 ^ k - 1))).toNat = 2 ^ k := by decide +kernel

theorem kroundup32_above :
    ∀ k < 31, 2 ≤ k → (kroundup32 (UInt32.ofNat (2 ^ k + 1))).toNat = 2 ^ (k + 1) := by
  decide +kernel

theorem computeSize_lt : ∀ k < 32, 2 ≤ k → computeSize (2 ^ k) < 2 ^ k := by decide +kernel

theorem computeSize_pos : ∀ k < 32, 2 ≤ k → 0 < computeSize (2 ^ k) := by decide +kernel

/-- `kh_resize` rounds the bucket count that it is asked for up to this power of two. -/
def RoundsTo (newBuckets k : Nat) : Prop :=
  (if (kroundup32 (UInt32.ofNat newBuckets)).toNat < 4 then 4
    else (kroundup32 (UInt32.ofNat newBuckets)).toNat) = 2 ^ k

def Rounds (newBuckets : Nat) : Prop := ∃ k, 2 ≤ k ∧ k ≤ 31 ∧ RoundsTo newBuckets k

theorem roundsTo_below {k : Nat} (low : 2 ≤ k) (high : k ≤ 31) : RoundsTo (2 ^ k - 1) k := by
  have large : 2 ^ 2 ≤ 2 ^ k := Nat.pow_le_pow_right (by omega) low
  rw [RoundsTo, kroundup32_below k (by omega) low, if_neg (by omega)]

theorem roundsTo_above {k : Nat} (low : 2 ≤ k) (high : k ≤ 30) :
    RoundsTo (2 ^ k + 1) (k + 1) := by
  have large : 2 ^ 2 ≤ 2 ^ (k + 1) := Nat.pow_le_pow_right (by omega) (by omega)
  rw [RoundsTo, kroundup32_above k (by omega) low, if_neg (by omega)]

/-- The table stays as it is if the new one is too small for its entries. -/
theorem resize_cases {hash : K → UInt32} {h resized : Khash K V} {newBuckets k : Nat}
    {memory : Bool} (rounds : RoundsTo newBuckets k)
    (done : h.resize hash newBuckets memory = some resized) :
    computeSize (2 ^ k) ≤ h.size ∧ resized = h ∨
      h.size < computeSize (2 ^ k) ∧ resized.nBuckets = 2 ^ k ∧ resized.nOccupied = h.size := by
  rw [resize, rounds] at done
  dsimp only at done
  split at done
  · next small => exact .inl ⟨small, (Option.some.inj done).symm⟩
  · next large =>
    split at done
    · cases done
    · obtain rfl := Option.some.inj done
      exact .inr ⟨Nat.lt_of_not_le large, rfl, rfl⟩

theorem Moving.fresh (hash : K → UInt32) (newBuckets : Nat) (h : Khash K V) :
    Moving hash newBuckets h fun _ => .fresh where
  apart _ _ _ := rfl
  clean _ := rfl
  within _ _ := rfl
  reach _ _ taken := Bool.noConfusion taken

theorem contents_fresh (h : Khash K V) {span : Nat} (covers : h.nBuckets ≤ span) :
    contents (h.moving fun _ => .fresh) span = h.entries := by
  have outside : ∀ i, h.nBuckets ≤ i → h.moving (fun _ => .fresh) i = none := by
    intro i beyond
    have : ¬i < h.nBuckets := by omega
    simp [moving, Flag.fresh, this]
  rw [contents_extend covers outside]
  apply contents_congr
  intro i old
  simp [moving, Flag.fresh, slot, old]

/-- The table under its new flags, once no bucket is live under the old ones. -/
theorem rehashed_wf {hash : K → UInt32} {k span : Nat} {h moved : Khash K V}
    {newFlags : Nat → Flag} (wf : Wf hash h) (low : 2 ≤ k) (high : k ≤ 31) (fits : 2 ^ k ≤ span)
    (moves : Moves hash k span h h.entries (moved, newFlags))
    (gone : ∀ i < h.nBuckets, moved.live i = false) :
    let table : Khash K V := { moved with
      flags := newFlags
      nBuckets := 2 ^ k
      nOccupied := h.size
      upperBound := computeSize (2 ^ k) }
    Wf hash table ∧ table.entries = h.entries := by
  intro table
  have alive : ∀ i, table.live i = true → occupied newFlags i := by
    intro i live
    have : (newFlags i).either = false := by simpa [table, Khash.live] using live
    exact (Bool.or_eq_false_iff.mp this).1
  have slots : table.slot = moved.moving newFlags := by
    funext i
    have dead : ¬(i < moved.nBuckets ∧ moved.live i = true) := by
      rintro ⟨old, live⟩
      exact Bool.eq_false_iff.mp (gone i (moves.buckets ▸ old)) live
    have clean : (newFlags i).del = false := moves.moving.clean i
    simp only [Khash.moving, or_iff_right dead]
    simp [slot, table, Khash.live, Flag.either, clean]
  have outside : ∀ i, 2 ^ k ≤ i → table.slot i = none := by
    intro i beyond
    have empty : (newFlags i).empty = true := moves.moving.within i beyond
    simp [slot, table, Khash.live, Flag.either, empty]
  have same : table.entries = h.entries := by
    rw [← moves.total, entries, ← contents_extend fits outside, slots]
  have clean : ∀ i, (table.flags i).del = false := moves.moving.clean
  refine ⟨⟨.inr ⟨k, low, high, rfl⟩, rfl, ?_, ?_, ?_, ?_, ?_⟩, same⟩
  · rw [occupancy_of_clean clean, same]
    exact wf.count
  · rw [same]
    exact wf.unique
  · rw [same]
    exact moves.size.trans wf.count
  · intro i small live
    exact moves.moving.reach i small (alive i live)
  · intro i beyond
    have empty : (newFlags i).empty = true := moves.moving.within i beyond
    exact Flag.ext empty (clean i)

theorem resize_wf {hash : K → UInt32} {h resized : Khash K V} {newBuckets : Nat} {memory : Bool}
    (wf : Wf hash h) (rounds : Rounds newBuckets)
    (done : h.resize hash newBuckets memory = some resized) :
    Wf hash resized ∧ resized.entries = h.entries ∧ resized.nBuckets ≠ 0 := by
  obtain ⟨k, low, high, rounded⟩ := rounds
  rw [RoundsTo] at rounded
  have limit := computeSize_lt k (by omega) low
  rw [resize] at done
  simp only [rounded] at done
  split at done
  · next small =>
    obtain rfl := Option.some.inj done
    refine ⟨wf, rfl, fun none => ?_⟩
    -- a table without buckets is too small for its first entry
    have card := card_contents_le h.slot h.nBuckets
    have positive := computeSize_pos k (by omega) low
    have count := wf.count
    rw [entries] at count
    omega
  · next bigger =>
    split at done
    · simp at done
    · have count := wf.count
      have total := contents_fresh h (Nat.le_max_left h.nBuckets (2 ^ k))
      obtain ⟨moves, gone⟩ := rehash_moves (Nat.le_max_right h.nBuckets (2 ^ k))
        (Nat.le_max_left _ _) (show h.entries.card < 2 ^ k by omega) (List.range h.nBuckets)
        (fun j member => List.mem_range.mp member) (h, fun _ => .fresh)
        ⟨.fresh hash (2 ^ k) h, total, rfl, rfl, fun _ live => live⟩
      generalize (List.range h.nBuckets).foldl (rehashBucket hash (2 ^ k))
        (h, fun _ => .fresh) = final at done moves gone
      obtain ⟨moved, newFlags⟩ := final
      obtain rfl := Option.some.inj done
      obtain ⟨wf', same⟩ := rehashed_wf wf low high (Nat.le_max_right h.nBuckets (2 ^ k)) moves
        fun i old => gone i (List.mem_range.mpr old)
      exact ⟨wf', same, (Nat.two_pow_pos k).ne'⟩

/-- Rounded up to a power of two this wraps around to zero. -/
theorem roundsTo_last : RoundsTo (2 ^ 31 + 1) 2 := by
  rw [RoundsTo]
  decide +kernel

theorem roundsTo_fresh : RoundsTo 1 2 := by
  rw [RoundsTo]
  decide +kernel

theorem rounds_fresh : Rounds 1 := ⟨2, by decide, by decide, roundsTo_fresh⟩

theorem rounds_below {k : Nat} (low : 2 ≤ k) (high : k ≤ 31) : Rounds (2 ^ k - 1) :=
  ⟨k, low, high, roundsTo_below low high⟩

theorem rounds_above {k : Nat} (low : 2 ≤ k) (high : k ≤ 31) : Rounds (2 ^ k + 1) := by
  by_cases last : k = 31
  · exact last ▸ ⟨2, by decide, by decide, roundsTo_last⟩
  · exact ⟨k + 1, by omega, by omega, roundsTo_above low (by omega)⟩

end Khash

end GlobalComponents.PicoServer
