import GlobalComponents.PicoServer.Rehash

/-! What the searches of `kh_get` and `kh_put` find, and what `kh_put` and `kh_del` do to the entries. -/

set_option autoImplicit false

namespace GlobalComponents.PicoServer

open Library Library.Probing Library.Slots

namespace Khash

variable {K V : Type} [DecidableEq K] {hash : K → UInt32} {h : Khash K V} {key : K}

def Absent (h : Khash K V) (key : K) : Prop :=
  ∀ i < h.nBuckets, h.live i = true → h.keys i ≠ key

theorem mask_lt {n x : Nat} (some : n ≠ 0) : x &&& (n - 1) < n :=
  lt_of_le_of_lt Nat.and_le_right (by omega)

/-- The search goes on unless the bucket is empty or holds the key. -/
theorem passes_eq_false {i : Nat} :
    h.passes key i = false ↔ (h.flags i).empty = true ∨ h.live i = true ∧ h.keys i = key := by
  cases empty : (h.flags i).empty <;> cases del : (h.flags i).del <;>
    simp [passes, live, Flag.either, empty, del]

theorem getLoop_absent (absent : h.Absent key) (some : h.nBuckets ≠ 0) (last fuel i step : Nat)
    (bucket : i < h.nBuckets) : h.getLoop key last fuel i step = h.nBuckets := by
  induction fuel generalizing i step with
  | zero => rfl
  | succ fuel ih =>
    rw [getLoop]
    split
    · dsimp only
      split
      · rfl
      · exact ih _ _ (mask_lt some)
    · next stops =>
      split
      · rfl
      · next alive =>
        have live : h.live i = true := by simpa [live] using alive
        -- the search stops at an empty bucket, or at one that holds the key
        rcases passes_eq_false.mp (by simpa using stops) with empty | ⟨_, here⟩
        · simp [Flag.either, empty] at alive
        · exact absurd here (absent i bucket live)

theorem get_absent (absent : h.Absent key) : h.get hash key = h.nBuckets := by
  rw [get]
  split
  · next some => exact getLoop_absent absent some _ _ _ _ (mask_lt some)
  · next none => simpa using (not_not.mp none).symm

omit [DecidableEq K] in
theorem Wf.live_unique (wf : Wf hash h) {i j : Nat} (left : i < h.nBuckets)
    (right : j < h.nBuckets) (here : h.live i = true) (there : h.live j = true)
    (same : h.keys i = h.keys j) : i = j :=
  slot_unique wf.unique left right (slot_of_live here) (slot_of_live there) same

theorem Wf.path (wf : Wf hash h) {i : Nat} (bucket : i < h.nBuckets) (live : h.live i = true) :
    ∃ k t, h.nBuckets = 2 ^ k ∧ t < 2 ^ k ∧ probe (2 ^ k) (hash (h.keys i)).toNat t = i ∧
      ∀ j < t, h.passes (h.keys i) (probe (2 ^ k) (hash (h.keys i)).toNat j) = true := by
  rcases wf.shape with ⟨none, _⟩ | ⟨k, _, _, size⟩
  · omega
  · have reaches := wf.reach i bucket live
    rw [size] at reaches bucket
    obtain ⟨t, small, here, path⟩ := reaches.first
    refine ⟨k, t, size, small, here, fun j early => ?_⟩
    obtain ⟨full, other⟩ := path j early
    apply Bool.not_eq_false _ |>.mp
    intro stops
    rcases passes_eq_false.mp stops with empty | ⟨alive, same⟩
    · exact Bool.eq_false_iff.mp full empty
    · apply other
      have small := Nat.mod_lt ((hash (h.keys i)).toNat + triangle j) (Nat.two_pow_pos k)
      exact wf.live_unique (by rw [size]; exact small) (by rwa [size]) alive live same

theorem get_present (wf : Wf hash h) {i : Nat} (bucket : i < h.nBuckets)
    (live : h.live i = true) : h.get hash (h.keys i) = i := by
  obtain ⟨k, t, size, small, here, path⟩ := wf.path bucket live
  generalize begin : (hash (h.keys i)).toNat = start at here path
  -- by induction on the steps left before the bucket
  have loop : ∀ left fuel s, s + left = t → left < fuel →
      h.getLoop (h.keys i) (probe (2 ^ k) start 0) fuel (probe (2 ^ k) start s) s = i := by
    intro left
    -- on the steps up to the bucket of the key
    induction left with
    | zero =>
      intro fuel s same enough
      obtain ⟨fuel, rfl⟩ := Nat.exists_eq_add_of_lt enough
      obtain rfl : s = t := same
      have stops : h.passes (h.keys i) i = false := passes_eq_false.mpr (.inr ⟨live, rfl⟩)
      have alive : (h.flags i).either = false := by simpa [Khash.live] using live
      rw [here, getLoop]
      simp [stops, alive]
    | succ left ih =>
      intro fuel s same enough
      obtain ⟨fuel, rfl⟩ := Nat.exists_eq_add_of_lt enough
      have next := ih (left + 1 + fuel) (s + 1) (by omega) (by omega)
      have away : probe (2 ^ k) start (s + 1) ≠ probe (2 ^ k) start 0 :=
        probe_ne_start start (by omega) (by omega)
      rw [getLoop, if_pos (path s (by omega))]
      simp only [size, probe_next, if_neg away]
      exact next
  have found := loop t (2 * h.nBuckets) 0 (Nat.zero_add t) (by omega)
  rw [get, if_pos (by omega), begin]
  simp only [size, and_mask]
  rwa [size, probe_zero] at found

theorem putSite_present (wf : Wf hash h) {i : Nat} (bucket : i < h.nBuckets)
    (live : h.live i = true) : h.putSite hash (h.keys i) = i := by
  obtain ⟨k, t, size, small, here, path⟩ := wf.path bucket live
  generalize begin : (hash (h.keys i)).toNat = start at here path
  have alive : (h.flags i).empty = false := by
    have : (h.flags i).either = false := by simpa [Khash.live] using live
    exact (Bool.or_eq_false_iff.mp this).1
  have loop : ∀ left fuel s site, s + left = t → left < fuel →
      h.putLoop (h.keys i) (probe (2 ^ k) start 0) fuel (probe (2 ^ k) start s) s site = i := by
    intro left
    -- on the steps up to the bucket of the key, with any site noted on the way
    induction left with
    | zero =>
      intro fuel s site same enough
      obtain ⟨fuel, rfl⟩ := Nat.exists_eq_add_of_lt enough
      obtain rfl : s = t := same
      have stops : h.passes (h.keys i) i = false := passes_eq_false.mpr (.inr ⟨live, rfl⟩)
      rw [here, putLoop]
      simp [stops, putEnd, alive]
    | succ left ih =>
      intro fuel s site same enough
      obtain ⟨fuel, rfl⟩ := Nat.exists_eq_add_of_lt enough
      have next := fun site => ih (left + 1 + fuel) (s + 1) site (by omega) (by omega)
      have away : probe (2 ^ k) start (s + 1) ≠ probe (2 ^ k) start 0 :=
        probe_ne_start start (by omega) (by omega)
      rw [putLoop, if_pos (path s (by omega))]
      simp only [size, probe_next, if_neg away]
      exact next _
  have found := loop t (2 * h.nBuckets) 0 h.nBuckets (Nat.zero_add t) (by omega)
  have first : (h.flags (probe (2 ^ k) start 0)).empty = false := by
    by_cases zero : t = 0
    · rwa [← zero, here]
    · have := path 0 (by omega)
      simp only [passes, Bool.and_eq_true, Bool.not_eq_true'] at this
      exact this.1
  rw [putSite, begin]
  simp only [size, and_mask]
  rw [probe_zero] at first found
  rw [if_neg (by simp [first])]
  rwa [size] at found

/-- Where `kh_put` may put a key that is absent: a dead bucket on its path, or else a bucket of
another key when every bucket is live. -/
def Site (hash : K → UInt32) (h : Khash K V) (key : K) (x : Nat) : Prop :=
  x < h.nBuckets ∧
    (h.live x = false → Reaches h.nBuckets (occupied h.flags) (hash key).toNat x) ∧
    (h.live x = true → h.keys x = key ∨ ∀ i < h.nBuckets, h.live i = true)

/-- What the search has passed after `s` steps: only occupied buckets, and only live ones as long as
it has noted no site. -/
structure Passed (h : Khash K V) (k start s site : Nat) : Prop where
  taken : ∀ j < s, occupied h.flags (probe (2 ^ k) start j)
  noted : (site = h.nBuckets ∧ ∀ j < s, h.live (probe (2 ^ k) start j) = true) ∨
    (∃ j < s, site = probe (2 ^ k) start j) ∧ h.live site = false

section
variable {k start s site : Nat}

theorem Passed.next (passed : h.Passed k start s site)
    (goes : h.passes key (probe (2 ^ k) start s) = true) :
    h.Passed k start (s + 1)
      (if (h.flags (probe (2 ^ k) start s)).del then probe (2 ^ k) start s else site) := by
  have full : occupied h.flags (probe (2 ^ k) start s) := by
    simp only [passes, Bool.and_eq_true, Bool.not_eq_true'] at goes
    exact goes.1
  constructor
  · intro j before
    rcases Nat.lt_succ_iff_lt_or_eq.mp before with earlier | rfl
    · exact passed.taken j earlier
    · exact full
  · split
    · next del => exact .inr ⟨⟨s, Nat.lt_succ_self s, rfl⟩, by simp [live, Flag.either, del]⟩
    · next clean =>
      rcases passed.noted with ⟨unset, alive⟩ | ⟨⟨j, before, here⟩, dead⟩
      · refine .inl ⟨unset, fun j before => ?_⟩
        rcases Nat.lt_succ_iff_lt_or_eq.mp before with earlier | rfl
        · exact alive j earlier
        · have empty : (h.flags (probe (2 ^ k) start j)).empty = false := full
          simp [live, Flag.either, empty, clean]
      · exact .inr ⟨⟨j, Nat.lt_succ_of_lt before, here⟩, dead⟩

variable (size : h.nBuckets = 2 ^ k) (begin : (hash key).toNat = start)
include size begin

omit [DecidableEq K] in
theorem Passed.site_noted (passed : h.Passed k start s site) (some : site ≠ h.nBuckets) :
    Site hash h key site := by
  obtain ⟨⟨j, early, rfl⟩, dead⟩ := passed.noted.resolve_left fun none => some none.1
  refine ⟨?_, fun _ => ?_, fun alive => absurd alive (Bool.eq_false_iff.mp dead)⟩
  · rw [size]
    exact Nat.mod_lt _ (Nat.two_pow_pos k)
  · rw [size, begin]
    exact ⟨j, rfl, fun m earlier => passed.taken m (earlier.trans early)⟩

/-- The search stops at an empty bucket or at the key. -/
theorem Passed.site_stop (passed : h.Passed k start s site)
    (stops : h.passes key (probe (2 ^ k) start s) = false) :
    Site hash h key (h.putEnd h.nBuckets (probe (2 ^ k) start s) site) := by
  rw [putEnd, if_pos rfl]
  split
  · next reuse => exact passed.site_noted size begin reuse.2
  · refine ⟨?_, fun _ => ?_, fun alive => ?_⟩
    · rw [size]
      exact Nat.mod_lt _ (Nat.two_pow_pos k)
    · rw [size, begin]
      exact ⟨s, rfl, passed.taken⟩
    · rcases passes_eq_false.mp stops with empty | ⟨_, here⟩
      · simp [live, Flag.either, empty] at alive
      · exact .inl here

omit [DecidableEq K] in
/-- The search has come back to its start. -/
theorem Passed.site_round (passed : h.Passed k start s site) (round : 2 ^ k ≤ s) :
    Site hash h key (h.putEnd site (probe (2 ^ k) start 0) site) := by
  by_cases none : site = h.nBuckets
  · have all : ∀ i < h.nBuckets, h.live i = true := by
      intro i bucket
      rw [size] at bucket
      obtain ⟨t, small, rfl⟩ := probe_covers start bucket
      rcases passed.noted with ⟨_, alive⟩ | ⟨⟨j, _, here⟩, _⟩
      · exact alive t (by omega)
      · have inside := Nat.mod_lt (start + triangle j) (Nat.two_pow_pos k)
        rw [none, size] at here
        exact absurd here inside.ne'
    have bucket : probe (2 ^ k) start 0 < h.nBuckets := by
      rw [size]
      exact Nat.mod_lt _ (Nat.two_pow_pos k)
    rw [putEnd, if_pos none, if_neg fun reuse => reuse.2 none]
    exact ⟨bucket, fun dead => absurd (all _ bucket) (Bool.eq_false_iff.mp dead),
      fun _ => .inr all⟩
  · rw [putEnd, if_neg none]
    exact passed.site_noted size begin none

end

theorem putSite_site {k : Nat} (size : h.nBuckets = 2 ^ k) (key : K) :
    Site hash h key (h.putSite hash key) := by
  generalize begin : (hash key).toNat = start
  have positive := Nat.two_pow_pos k
  have loop : ∀ fuel s site, s + fuel = 2 * 2 ^ k → s < 2 * 2 ^ k - 1 →
      h.Passed k start s site →
      Site hash h key
        (h.putLoop key (probe (2 ^ k) start 0) fuel (probe (2 ^ k) start s) s site) := by
    intro fuel
    -- on the steps up to where the search began
    induction fuel with
    | zero =>
      intro s _ spent early
      omega
    | succ fuel ih =>
      intro s site spent early passed
      rw [putLoop]
      split
      · next goes =>
        have turn : (probe (2 ^ k) start s + (s + 1)) &&& (h.nBuckets - 1) =
            probe (2 ^ k) start (s + 1) := by
          rw [size, probe_next]
        dsimp only
        rw [turn]
        split
        · next back =>
          rw [back]
          apply (passed.next goes).site_round size begin
          by_contra short
          exact probe_ne_start start (Nat.succ_pos s) (by omega) back
        · next away =>
          apply ih (s + 1) _ (by omega) _ (passed.next goes)
          apply Nat.lt_of_le_of_ne (by omega)
          intro last
          exact away (last ▸ probe_return start)
      · next stops => exact passed.site_stop size begin (Bool.eq_false_iff.mpr stops)
  have start' : h.Passed k start 0 h.nBuckets :=
    ⟨fun j none => absurd none (Nat.not_lt_zero j),
      .inl ⟨rfl, fun j none => absurd none (Nat.not_lt_zero j)⟩⟩
  have first : (hash key).toNat &&& (h.nBuckets - 1) = probe (2 ^ k) start 0 := by
    rw [size, and_mask, begin, probe_zero]
  rw [putSite, first]
  split
  · next empty =>
    have stops : h.passes key (probe (2 ^ k) start 0) = false := passes_eq_false.mpr (.inl empty)
    have site : Site hash h key _ := start'.site_stop size begin stops
    rwa [putEnd, if_pos rfl, if_neg fun reuse => reuse.2 rfl] at site
  · have found := loop (2 * 2 ^ k) 0 h.nBuckets (Nat.zero_add _) (by omega) start'
    rwa [size] at found ⊢

omit [DecidableEq K] in
theorem makeRoom_wf {room : Khash K V} {memory : Bool} (wf : Wf hash h)
    (made : h.makeRoom hash memory = some room) :
    Wf hash room ∧ room.entries = h.entries ∧ room.nBuckets ≠ 0 := by
  have rounds : (h.nBuckets > h.size * 2 % 2 ^ 32 → Rounds (h.nBuckets - 1)) ∧
      Rounds (h.nBuckets + 1) := by
    rcases wf.shape with ⟨none, _⟩ | ⟨k, low, high, size⟩
    · rw [none]
      exact ⟨fun more => absurd more (Nat.not_lt_zero _), rounds_fresh⟩
    · rw [size]
      exact ⟨fun _ => rounds_below low high, rounds_above low high⟩
  rw [makeRoom] at made
  split at made
  · split at made
    · next more => exact resize_wf wf (rounds.1 more) made
    · exact resize_wf wf rounds.2 made
  · next free =>
    cases made
    refine ⟨wf, rfl, fun none => ?_⟩
    rcases wf.shape with ⟨_, bound⟩ | ⟨k, _, _, size⟩
    · omega
    · exact (Nat.two_pow_pos k).ne' (size ▸ none)

omit [DecidableEq K] in
theorem absent_iff : h.Absent key ↔ key ∉ h.entries.map Prod.fst := by
  simp only [Absent, Multiset.mem_map, Prod.exists, exists_and_right, exists_eq_right, mem_entries]
  constructor
  · rintro absent ⟨val, i, bucket, live, here, _⟩
    exact absent i bucket live here
  · intro missing i bucket live here
    exact missing ⟨h.vals i, i, bucket, live, here, rfl⟩

def fill (h : Khash K V) (x : Nat) (key : K) (nOccupied : Nat) : Khash K V :=
  { h with
    keys := Function.update h.keys x key
    flags := Function.update h.flags x ⟨false, false⟩
    size := h.size + 1
    nOccupied := nOccupied }

omit [DecidableEq K] in
theorem fill_entries {x : Nat} (bucket : x < h.nBuckets) (dead : h.live x = false) (key : K)
    (nOccupied : Nat) : (h.fill x key nOccupied).entries = h.entries + {(key, h.vals x)} := by
  have slots : (h.fill x key nOccupied).slot =
      Function.update h.slot x (some (key, h.vals x)) := by
    funext i
    by_cases here : i = x
    · subst here
      simp [slot, fill, live, Flag.either]
    · simp [slot, fill, live, Function.update_of_ne here]
  rw [entries, slots]
  exact contents_fill bucket (by simp [slot, dead]) _

omit [DecidableEq K] in
theorem occupancy_fill {x : Nat} (wf : Wf hash h) (bucket : x < h.nBuckets) :
    occupancy (Function.update h.flags x ⟨false, false⟩) h.nBuckets =
      if (h.flags x).empty then h.nOccupied + 1 else h.nOccupied := by
  have slots : (fun i => if (Function.update h.flags x ⟨false, false⟩ i).empty then none
      else some ()) = Function.update (fun i => if (h.flags i).empty then none else some ()) x
        (some ()) := by
    funext i
    by_cases here : i = x
    · subst here
      simp
    · simp [Function.update_of_ne here]
  rw [occupancy, slots, wf.occupancy, occupancy]
  split
  · next empty => rw [contents_fill bucket (if_pos empty), Multiset.card_add, Multiset.card_singleton]
  · next full =>
    have held : (fun i => if (h.flags i).empty then none else some ()) x = some () := if_neg full
    rw [Function.update_eq_self_iff.mpr held.symm]

omit [DecidableEq K] in
theorem fill_wf {x : Nat} (wf : Wf hash h) (bucket : x < h.nBuckets) (dead : h.live x = false)
    (absent : h.Absent key) (reaches : Reaches h.nBuckets (occupied h.flags) (hash key).toNat x)
    {nOccupied : Nat} (occupied' : nOccupied = if (h.flags x).empty then h.nOccupied + 1
      else h.nOccupied) : Wf hash (h.fill x key nOccupied) where
  shape := wf.shape
  bound := wf.bound
  occupancy := by
    rw [occupied']
    exact (occupancy_fill wf bucket).symm
  unique := by
    rw [fill_entries bucket dead, Multiset.map_add, Multiset.map_singleton, Multiset.nodup_add]
    refine ⟨wf.unique, Multiset.nodup_singleton _, ?_⟩
    exact Multiset.disjoint_singleton.mpr (absent_iff.mp absent)
  count := by
    rw [fill_entries bucket dead, Multiset.card_add, Multiset.card_singleton, ← wf.count]
    rfl
  reach i small alive := by
    have more : ∀ j, occupied h.flags j → occupied (h.fill x key nOccupied).flags j := by
      intro j full
      by_cases here : j = x
      · simp [occupied, fill, here]
      · simpa [occupied, fill, Function.update_of_ne here] using full
    by_cases here : i = x
    · subst here
      simpa [fill] using reaches.mono more
    · have before : h.live i = true := by simpa [fill, live, Function.update_of_ne here] using alive
      simpa [fill, Function.update_of_ne here] using (wf.reach i small before).mono more
  behind i beyond := by
    have other : i ≠ x := (bucket.trans_le beyond).ne'
    exact (Function.update_of_ne other _ _).trans (wf.behind i beyond)

/-- Every bucket of the table is live, and it is so large that `COMPUTE_SIZE` overflows for a larger
one. -/
def Crowded (h : Khash K V) : Prop := 2 ^ 27 ≤ h.nBuckets ∧ h.size = h.nBuckets

omit [DecidableEq K] in
theorem Wf.full_iff (wf : Wf hash h) :
    h.size = h.nBuckets ↔ ∀ i < h.nBuckets, h.live i = true := by
  constructor
  · intro full i bucket
    by_contra dead
    have free : h.slot i = none := if_neg dead
    have more := congrArg Multiset.card (contents_fill bucket free (h.keys i, h.vals i))
    have most := card_contents_le (Function.update h.slot i (some (h.keys i, h.vals i))) h.nBuckets
    have count := wf.count
    rw [entries] at count
    rw [Multiset.card_add, Multiset.card_singleton] at more
    omega
  · intro all
    have taken : ∀ i < h.nBuckets, h.slot i ≠ none := by
      intro i bucket
      rw [slot_of_live (all i bucket)]
      exact Option.some_ne_none _
    have least := le_card_contents le_rfl taken
    have most := card_contents_le h.slot h.nBuckets
    have count := wf.count
    rw [entries] at count
    omega

omit [DecidableEq K] in
theorem Wf.size_le (wf : Wf hash h) : h.size ≤ h.nOccupied := by
  rw [wf.count, wf.occupancy]
  apply card_contents_mono
  intro i _ taken
  cases empty : (h.flags i).empty with
  | false => simp
  | true => exact absurd (by simp [slot, live, Flag.either, empty]) taken

theorem computeSize_large : ∀ k < 32, 28 ≤ k → computeSize (2 ^ k) ≤ 2 ^ (k - 1) := by
  decide +kernel

theorem computeSize_small : ∀ k < 28, 2 ≤ k → 2 ^ (k - 1) < computeSize (2 ^ k) := by
  decide +kernel

theorem two_pow_27_le {k : Nat} : 2 ^ 27 ≤ 2 ^ k ↔ 27 ≤ k :=
  Nat.pow_le_pow_iff_right Nat.one_lt_two

omit [DecidableEq K] in
theorem Wf.size_le_nBuckets (wf : Wf hash h) : h.size ≤ h.nBuckets := by
  rw [wf.count]
  exact card_contents_le h.slot h.nBuckets

inductive Asks (h : Khash K V) : Nat → Prop where
  | fresh : h.nBuckets = 0 → Asks h 2
  | same {k : Nat} : h.nBuckets = 2 ^ k → 2 * h.size < 2 ^ k ∨ h.size = 2 ^ 31 → Asks h k
  | double {k : Nat} : h.nBuckets = 2 ^ k → k < 31 → 2 ^ k ≤ 2 * h.size → Asks h (k + 1)
  /-- `2 ^ 31 + 1` is rounded up to 0. -/
  | last : h.nBuckets = 2 ^ 31 → 2 ^ 30 ≤ h.size → Asks h 2

section
variable {room : Khash K V} {memory : Bool}
omit [DecidableEq K]

theorem makeRoom_asks (wf : Wf hash h) (made : h.makeRoom hash memory = some room) :
    h.nOccupied < h.upperBound ∧ room = h ∨ h.upperBound ≤ h.nOccupied ∧
      ∃ j, h.Asks j ∧ 2 ≤ j ∧ j ≤ 31 ∧ (computeSize (2 ^ j) ≤ h.size ∧ room = h ∨
        h.size < computeSize (2 ^ j) ∧ room.nBuckets = 2 ^ j ∧ room.nOccupied = h.size) := by
  have most := wf.size_le_nBuckets
  rw [makeRoom] at made
  split at made
  · next full =>
    refine .inr ⟨full, ?_⟩
    rcases wf.shape with ⟨none, _⟩ | ⟨k, low, high, size⟩
    · rw [if_neg (by omega), none] at made
      exact ⟨2, .fresh none, le_rfl, by decide, resize_cases roundsTo_fresh made⟩
    · have bound : 2 ^ k ≤ 2 ^ 31 := Nat.pow_le_pow_right (by omega) high
      rw [size] at made most
      split at made
      · next loose =>
        exact ⟨k, .same size (by omega), low, high, resize_cases (roundsTo_below low high) made⟩
      · next tight =>
        by_cases last : k = 31
        · subst last
          exact ⟨2, .last size (by omega), le_rfl, by decide, resize_cases roundsTo_last made⟩
        · exact ⟨k + 1, .double size (by omega) (by omega), by omega, by omega,
            resize_cases (roundsTo_above low (by omega)) made⟩
  · next free => exact .inl ⟨by omega, (Option.some.inj made).symm⟩

/-- A full table that is not replaced is crowded. -/
theorem Asks.crowded {j : Nat} (asks : h.Asks j) (cramped : computeSize (2 ^ j) ≤ h.size)
    (full : h.size = h.nBuckets) : h.Crowded := by
  refine ⟨?_, full⟩
  cases asks with
  | fresh none =>
    have := computeSize_pos 2 (by decide) le_rfl
    omega
  | same size loose =>
    have := Nat.two_pow_pos j
    omega
  | @double k size =>
    rw [size, two_pow_27_le]
    by_contra short
    by_cases tiny : k = 0
    · subst tiny
      have : computeSize (2 ^ (0 + 1)) = 2 := by decide
      omega
    · have := computeSize_small (k + 1) (by omega) (by omega)
      rw [Nat.add_sub_cancel] at this
      omega
  | last size => rw [size]; decide

/-- A crowded table is not replaced. -/
theorem Asks.cramped {j : Nat} (asks : h.Asks j) (crowded : h.Crowded) (high : j ≤ 31) :
    computeSize (2 ^ j) ≤ h.size := by
  obtain ⟨large, full⟩ := crowded
  cases asks with
  | fresh none => omega
  | same size =>
    rw [size, two_pow_27_le] at large
    have := computeSize_lt j (by omega) (by omega)
    omega
  | @double k size =>
    rw [size, two_pow_27_le] at large
    have := computeSize_large (k + 1) (by omega) (by omega)
    rw [Nat.add_sub_cancel] at this
    omega
  | last =>
    have := computeSize_lt 2 (by decide) le_rfl
    omega

/-- A table is full with room made exactly if it is crowded. -/
theorem makeRoom_full (wf : Wf hash h) (made : h.makeRoom hash memory = some room) :
    room.size = room.nBuckets ↔ h.Crowded := by
  obtain ⟨wf', entries, _⟩ := makeRoom_wf wf made
  have same : room.size = h.size := by rw [wf'.count, entries, wf.count]
  rcases makeRoom_asks wf made with ⟨free, rfl⟩ | ⟨_, j, asks, low, high, outcome⟩
  · have least := wf.size_le
    have bound := wf.bound
    have fewer : room.size < room.nBuckets := by
      rcases wf.shape with ⟨_, none⟩ | ⟨k, low, high, size⟩
      · omega
      · have := computeSize_lt k (by omega) low
        rw [size] at bound ⊢
        omega
    exact iff_of_false fewer.ne fun crowded => fewer.ne crowded.2
  · rcases outcome with ⟨cramped, rfl⟩ | ⟨fits, buckets, _⟩
    · exact ⟨asks.crowded cramped, And.right⟩
    · have := computeSize_lt j (by omega) low
      exact iff_of_false (by omega) fun crowded => absurd (asks.cramped crowded high) (by omega)

end

/-- What `kh_put` comes to: the new table, the bucket and `ret`. -/
inductive Put (hash : K → UInt32) (h : Khash K V) (key : K) (memory : Bool) :
    Khash K V × Nat × Int → Prop where
  | failed : h.makeRoom hash memory = none → Put hash h key memory (h, h.nBuckets, -1)
  | kept {table : Khash K V} {x : Nat} : Wf hash table → table.entries = h.entries →
      x < table.nBuckets → table.live x = true → (table.keys x = key ∨ table.Absent key) →
      h.makeRoom hash memory ≠ none → (h.Absent key → h.Crowded) →
      Put hash h key memory (table, x, 0)
  | added {table : Khash K V} {x : Nat} {ret : Int} : ret = 1 ∨ ret = 2 → Wf hash table →
      h.Absent key → x < table.nBuckets → table.live x = true → table.keys x = key →
      table.entries = h.entries + {(key, table.vals x)} →
      h.makeRoom hash memory ≠ none → ¬h.Crowded → Put hash h key memory (table, x, ret)

theorem put_spec (wf : Wf hash h) (key : K) (memory : Bool) :
    Put hash h key memory (h.put hash key memory) := by
  rw [put]
  split
  · next none => exact .failed none
  · next room made =>
    obtain ⟨wf', same, some⟩ := makeRoom_wf wf made
    have crowded := makeRoom_full wf made
    have found : h.makeRoom hash memory ≠ none := by
      rw [made]
      exact Option.some_ne_none room
    obtain ⟨k, size⟩ : ∃ k, room.nBuckets = 2 ^ k := by
      rcases wf'.shape with ⟨none, _⟩ | ⟨k, _, _, size⟩
      · exact absurd none some
      · exact ⟨k, size⟩
    have site : Site hash room key (room.putSite hash key) := putSite_site size key
    obtain ⟨bucket, reaches, others⟩ := site
    -- a key that is there is found, so what the search ends with is its own bucket
    have present : ∀ i < room.nBuckets, room.live i = true → room.keys i = key →
        room.putSite hash key = i := by
      rintro i small live rfl
      exact putSite_present wf' small live
    generalize room.putSite hash key = x at bucket reaches others present
    have absent : room.Absent key ↔ h.Absent key := by rw [absent_iff, absent_iff, same]
    have missing : room.keys x ≠ key ∨ room.live x = false → room.Absent key := by
      intro other i small live here
      obtain rfl := present i small live here
      rcases other with other | dead
      · exact other here
      · exact Bool.eq_false_iff.mp dead live
    have filled : ∀ nOccupied ret, ret = 1 ∨ ret = 2 → room.live x = false →
        (nOccupied = if (room.flags x).empty then room.nOccupied + 1 else room.nOccupied) →
        Put hash h key memory (room.fill x key nOccupied, x, ret) := by
      intro nOccupied ret kind dead occupied'
      have gone := missing (.inr dead)
      refine .added kind (fill_wf wf' bucket dead gone (reaches dead) occupied')
        (absent.mp gone) bucket ?_ ?_ ?_ found ?_
      · simp [fill, live, Flag.either]
      · simp [fill]
      · rw [fill_entries bucket dead, same]
        rfl
      · intro full
        have live := wf'.full_iff.mp (crowded.mpr full) x bucket
        exact Bool.eq_false_iff.mp dead live
    -- an empty bucket, a deleted one, or a live one of the key or of a full table
    dsimp only
    split
    · next empty =>
      exact filled _ 1 (.inl rfl) (by simp [live, Flag.either, empty]) (if_pos empty).symm
    · next full =>
      split
      · next del =>
        exact filled _ 2 (.inr rfl) (by simp [live, Flag.either, del]) (if_neg full).symm
      · next alive =>
        have live : room.live x = true := by simp [live, Flag.either, full, alive]
        have here : room.keys x = key ∨ room.Absent key := by
          by_cases here : room.keys x = key
          · exact .inl here
          · exact .inr (missing (.inl here))
        refine .kept wf' same bucket live here found fun gone => ?_
        have all := (others live).resolve_left (absent.mpr gone x bucket live)
        exact crowded.mp (wf'.full_iff.mpr all)

omit [DecidableEq K] in
theorem setVal_keys (h : Khash K V) (x : Nat) (val : V) :
    (h.setVal x val).entries.map Prod.fst = h.entries.map Prod.fst := by
  rw [entries, entries, map_contents, map_contents]
  apply contents_congr
  intro i _
  by_cases live : h.live i = true
  · rw [slot_of_live live, slot_of_live (h := h.setVal x val) live]
    rfl
  · simp [slot, setVal, Khash.live] at live ⊢

omit [DecidableEq K] in
theorem setVal_wf (wf : Wf hash h) (x : Nat) (val : V) : Wf hash (h.setVal x val) where
  shape := wf.shape
  bound := wf.bound
  occupancy := wf.occupancy
  unique := by
    rw [setVal_keys]
    exact wf.unique
  count := by
    have same := congrArg Multiset.card (setVal_keys h x val)
    rw [Multiset.card_map, Multiset.card_map] at same
    exact wf.count.trans same.symm
  reach := wf.reach
  behind := wf.behind

omit [DecidableEq K] in
theorem del_entries {x : Nat} (bucket : x < h.nBuckets) (live : h.live x = true) :
    (h.del x).entries + {(h.keys x, h.vals x)} = h.entries := by
  rw [del, if_pos ⟨bucket.ne, live⟩]
  have slots : slot { h with
      flags := mark h.flags x
      size := h.size - 1 } = Function.update h.slot x none := by
    funext i
    by_cases here : i = x
    · subst here
      simp [slot, Khash.live, mark_dead]
    · simp [slot, Khash.live, mark_of_ne here, Function.update_of_ne here]
  exact (congrArg (fun slots => contents slots h.nBuckets + _) slots).trans
    (contents_clear bucket (slot_of_live live))

omit [DecidableEq K] in
theorem Wf.bucket_of_live {x : Nat} (wf : Wf hash h) (live : h.live x = true) : x < h.nBuckets := by
  by_contra beyond
  rw [Khash.live, wf.behind x (Nat.not_lt.mp beyond)] at live
  cases live

omit [DecidableEq K] in
theorem del_wf (wf : Wf hash h) (x : Nat) : Wf hash (h.del x) := by
  by_cases there : x ≠ h.nBuckets ∧ h.live x = true
  · obtain ⟨inside, live⟩ := there
    have bucket := wf.bucket_of_live live
    have parts := del_entries bucket live
    rw [del, if_pos ⟨inside, live⟩] at parts ⊢
    have same : ∀ i, (Function.update h.flags x { h.flags x with del := true } i).empty =
        (h.flags i).empty := by
      intro i
      by_cases here : i = x
      · subst here
        simp
      · simp [Function.update_of_ne here]
    exact {
      shape := wf.shape
      bound := wf.bound
      occupancy := by
        simp only [occupancy, same]
        exact wf.occupancy
      unique := by
        have unique := wf.unique
        rw [← parts, Multiset.map_add, Multiset.nodup_add] at unique
        exact unique.1
      count := by
        have card := congrArg Multiset.card parts
        rw [Multiset.card_add, Multiset.card_singleton, ← wf.count] at card
        exact (Nat.eq_sub_of_add_eq card).symm
      reach := by
        intro i small alive
        have other : i ≠ x := by
          rintro rfl
          simp [Khash.live, Flag.either] at alive
        have before : h.live i = true := by
          simpa [Khash.live, Function.update_of_ne other] using alive
        apply (wf.reach i small before).mono
        intro j full
        by_cases here : j = x
        · subst here
          simpa [occupied] using full
        · simpa [occupied, Function.update_of_ne here] using full
      behind := by
        intro i beyond
        have other : i ≠ x := (bucket.trans_le beyond).ne'
        exact (Function.update_of_ne other _ _).trans (wf.behind i beyond) }
  · rw [del, if_neg there]
    exact wf

end Khash

end GlobalComponents.PicoServer
