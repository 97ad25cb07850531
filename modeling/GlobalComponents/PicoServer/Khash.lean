import Mathlib.Algebra.Group.Nat.Defs
import Mathlib.Logic.Function.Basic

/-! The hash table of `khash.h`: open addressing with triangular probing and deleted marks.

The table grows in place: `kh_resize` moves each entry to its new bucket and kicks out what it finds
there. A set is a table whose values carry nothing.
-/

set_option autoImplicit false

namespace GlobalComponents.PicoServer

@[ext] structure Flag where
  empty : Bool
  del : Bool
  deriving DecidableEq

def Flag.either (flag : Flag) : Bool := flag.empty || flag.del

/-- What `memset(flags, 0xaa, ..)` leaves in each bucket. -/
def Flag.fresh : Flag := ⟨true, false⟩

structure Khash (K V : Type) where
  nBuckets : Nat
  size : Nat
  nOccupied : Nat
  upperBound : Nat
  flags : Nat → Flag
  keys : Nat → K
  vals : Nat → V

def kroundup32 (x : UInt32) : UInt32 :=
  let x := x - 1
  let x := x ||| x >>> 1
  let x := x ||| x >>> 2
  let x := x ||| x >>> 4
  let x := x ||| x >>> 8
  let x := x ||| x >>> 16
  x + 1

/-- `__ac_fsize`: the words of `flags`, each of which holds the bits of 16 buckets. -/
def acFsize (m : Nat) : Nat := if m < 16 then 1 else m >>> 4

/-- `COMPUTE_SIZE`, in unsigned 64-bit arithmetic. -/
def computeSize (num : Nat) : Nat := (num * 77 + 50) * 1374389535 % 2 ^ 64 / 2 ^ 37

namespace Khash

variable {K V : Type}

def init [Inhabited K] [Inhabited V] : Khash K V where
  nBuckets := 0
  size := 0
  nOccupied := 0
  upperBound := 0
  flags := fun _ => .fresh
  keys := fun _ => default
  vals := fun _ => default

/-- `!__ac_iseither(flags, i)` -/
def live (h : Khash K V) (i : Nat) : Bool := !(h.flags i).either

def passes [DecidableEq K] (h : Khash K V) (key : K) (i : Nat) : Bool :=
  !(h.flags i).empty && ((h.flags i).del || h.keys i ≠ key)

/-- The fuel bounds the number of iterations. -/
def getLoop [DecidableEq K] (h : Khash K V) (key : K) (last : Nat) : Nat → Nat → Nat → Nat
  | 0, _, _ => h.nBuckets
  | fuel + 1, i, step =>
    if h.passes key i then
      let step := step + 1
      let i := (i + step) &&& (h.nBuckets - 1)
      if i = last then h.nBuckets else getLoop h key last fuel i step
    else if (h.flags i).either then h.nBuckets
    else i

def get [DecidableEq K] (hash : K → UInt32) (h : Khash K V) (key : K) : Nat :=
  if h.nBuckets ≠ 0 then
    let i := (hash key).toNat &&& (h.nBuckets - 1)
    h.getLoop key i (2 * h.nBuckets) i 0
  else 0

/-- `while (!__ac_isempty(new_flags, i)) i = (i + (++step)) & new_mask;` -/
def findEmpty (newFlags : Nat → Flag) (newMask : Nat) : Nat → Nat → Nat → Nat
  | 0, i, _ => i
  | fuel + 1, i, step =>
    if (newFlags i).empty then i
    else
      let step := step + 1
      findEmpty newFlags newMask fuel ((i + step) &&& newMask) step

/-- The kick-out process: the entry in hand takes its new bucket; what is still there in the old table
is in hand next. -/
def kickOut (hash : K → UInt32) (newBuckets : Nat) :
    Nat → Khash K V → (Nat → Flag) → K → V → Khash K V × (Nat → Flag)
  | 0, h, newFlags, _, _ => (h, newFlags)
  | fuel + 1, h, newFlags, key, val =>
    let newMask := newBuckets - 1
    let i := findEmpty newFlags newMask newBuckets ((hash key).toNat &&& newMask) 0
    let newFlags := Function.update newFlags i { newFlags i with empty := false }
    let written := { h with
      keys := Function.update h.keys i key
      vals := Function.update h.vals i val }
    -- the bucket still holds an entry of the old table, which is in hand next
    if i < h.nBuckets ∧ h.live i = true then
      let marked := { written with
        flags := Function.update h.flags i { h.flags i with del := true } }
      kickOut hash newBuckets fuel marked newFlags (h.keys i) (h.vals i)
    else (written, newFlags)

/-- One iteration of the rehashing loop, for bucket `j`. -/
def rehashBucket (hash : K → UInt32) (newBuckets : Nat) (state : Khash K V × (Nat → Flag))
    (j : Nat) : Khash K V × (Nat → Flag) :=
  let (h, newFlags) := state
  if h.live j then
    let marked := { h with flags := Function.update h.flags j { h.flags j with del := true } }
    kickOut hash newBuckets (h.nBuckets + 1) marked newFlags (h.keys j) (h.vals j)
  else (h, newFlags)

/-- `none` when memory runs out; the table is then as before. -/
def resize (hash : K → UInt32) (h : Khash K V) (newBuckets : Nat) (memory : Bool) :
    Option (Khash K V) :=
  let rounded := (kroundup32 (UInt32.ofNat newBuckets)).toNat
  let newBuckets := if rounded < 4 then 4 else rounded
  -- the requested size is too small for the entries
  if h.size ≥ computeSize newBuckets then some h
  else if !memory then none
  else
    let (moved, newFlags) := (List.range h.nBuckets).foldl (rehashBucket hash newBuckets)
      (h, fun _ => .fresh)
    some { moved with
      flags := newFlags
      nBuckets := newBuckets
      nOccupied := h.size
      upperBound := computeSize newBuckets }

def putEnd (h : Khash K V) (x i site : Nat) : Nat :=
  if x = h.nBuckets then
    if (h.flags i).empty ∧ site ≠ h.nBuckets then site else i
  else x

def putLoop [DecidableEq K] (h : Khash K V) (key : K) (last : Nat) :
    Nat → Nat → Nat → Nat → Nat
  | 0, i, _, site => h.putEnd h.nBuckets i site
  | fuel + 1, i, step, site =>
    if h.passes key i then
      let site := if (h.flags i).del then i else site
      let step := step + 1
      let i := (i + step) &&& (h.nBuckets - 1)
      if i = last then h.putEnd site i site else putLoop h key last fuel i step site
    else h.putEnd h.nBuckets i site

def putSite [DecidableEq K] (hash : K → UInt32) (h : Khash K V) (key : K) : Nat :=
  let i := (hash key).toNat &&& (h.nBuckets - 1)
  if (h.flags i).empty then i else h.putLoop key i (2 * h.nBuckets) i 0 h.nBuckets

/-- The first part of `kh_put`: a full table clears its deleted buckets or grows. -/
def makeRoom (hash : K → UInt32) (h : Khash K V) (memory : Bool) : Option (Khash K V) :=
  if h.nOccupied ≥ h.upperBound then
    -- the doubled count is a 32-bit number
    if h.nBuckets > h.size * 2 % 2 ^ 32 then h.resize hash (h.nBuckets - 1) memory
    else h.resize hash (h.nBuckets + 1) memory
  else some h

/-- The table, the bucket and the value stored through `ret`. -/
def put [DecidableEq K] (hash : K → UInt32) (h : Khash K V) (key : K) (memory : Bool) :
    Khash K V × Nat × Int :=
  match h.makeRoom hash memory with
  | none => (h, h.nBuckets, -1)
  | some h =>
    let x := h.putSite hash key
    let filled := { h with
      keys := Function.update h.keys x key
      flags := Function.update h.flags x ⟨false, false⟩
      size := h.size + 1 }
    if (h.flags x).empty then ({ filled with nOccupied := h.nOccupied + 1 }, x, 1)
    else if (h.flags x).del then (filled, x, 2)
    else (h, x, 0)

def del (h : Khash K V) (x : Nat) : Khash K V :=
  if x ≠ h.nBuckets ∧ h.live x = true then
    { h with
      flags := Function.update h.flags x { h.flags x with del := true }
      size := h.size - 1 }
  else h

/-- `kh_val(h, x) = val` -/
def setVal (h : Khash K V) (x : Nat) (val : V) : Khash K V :=
  { h with vals := Function.update h.vals x val }

end Khash

def intHashFunc (key : UInt32) : UInt32 := key

def int64HashFunc (key : UInt64) : UInt32 := (key >>> 33 ^^^ key ^^^ key <<< 11).toUInt32

end GlobalComponents.PicoServer
