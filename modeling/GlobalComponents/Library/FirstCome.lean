import GlobalComponents.Library.Run

/-! Things that belong for ever to whoever is first granted them.

A step may grant a key that nobody holds yet, and no step takes a key away.
-/

set_option autoImplicit false

namespace GlobalComponents.Library

variable {State Event Result Key Holder : Type}

/-- `holder` reads the state, `grant` the event of a step with its result. -/
structure FirstCome (machine : Machine State Event Result) (holder : State → Key → Option Holder)
    (grant : Event × Result → Key → Option Holder) : Prop where
  granted : ∀ {before event after result key new}, machine.allowed before event →
    machine.step before event = some (after, result) → grant (event, result) key = some new →
    holder after key = some new
  free : ∀ {before event after result key new}, machine.allowed before event →
    machine.step before event = some (after, result) → grant (event, result) key = some new →
    ∀ owner, holder before key = some owner → owner = new
  kept : ∀ {before event after result key}, machine.allowed before event →
    machine.step before event = some (after, result) → grant (event, result) key = none →
    holder after key = holder before key

namespace FirstCome

variable {machine : Machine State Event Result} {holder : State → Key → Option Holder}
  {grant : Event × Result → Key → Option Holder} {start final : State} {key : Key}
  {trace : List (Event × Result)}

theorem held (first : FirstCome machine holder grant) {before after : State} {event : Event}
    {result : Result} {owner : Holder} (allowed : machine.allowed before event)
    (step : machine.step before event = some (after, result))
    (held : holder before key = some owner) : holder after key = some owner := by
  cases given : grant (event, result) key with
  | none => exact (first.kept allowed step given).trans held
  | some new => exact first.free allowed step given owner held ▸ first.granted allowed step given

theorem stays (first : FirstCome machine holder grant) {owner : Holder}
    (run : machine.Run start trace final) (held : holder start key = some owner) :
    holder final key = some owner := by
  apply run.invariant held
  exact fun before event after result held allowed step => first.held allowed step held

theorem holder_eq (first : FirstCome machine holder grant) (run : machine.Run start trace final)
    (nobody : holder start key = none) :
    holder final key = trace.findSome? fun entry => grant entry key := by
  induction run with
  | start => exact nobody
  | @next trace before after event result run allowed step ih =>
    rw [List.findSome?_append, ← ih]
    -- once there is a holder, grants to others have no effect
    cases had : holder before key with
    | some owner => exact first.held allowed step had
    | none =>
      cases given : grant (event, result) key with
      | none => simp [first.kept allowed step given, had, given]
      | some new => simp [first.granted allowed step given, given]

/-- A key that is only granted while it is free is granted once at most. -/
theorem grants_length_le (first : FirstCome machine holder grant)
    (fresh : ∀ before event after result new, machine.allowed before event →
      machine.step before event = some (after, result) → grant (event, result) key = some new →
      holder before key = none)
    (run : machine.Run start trace final) (nobody : holder start key = none) :
    (trace.filter fun entry => (grant entry key).isSome).length ≤ 1 := by
  induction run with
  | start => simp
  | @next trace before after event result run allowed step ih =>
    rw [List.filter_append, List.length_append]
    cases given : grant (event, result) key with
    | none => simpa [given] using ih
    | some new =>
      have free := fresh _ _ _ _ _ allowed step given
      rw [first.holder_eq run nobody, List.findSome?_eq_none_iff] at free
      have earlier : trace.filter (fun entry => (grant entry key).isSome) = [] := by
        rw [List.filter_eq_nil_iff]
        intro entry member
        simp [free entry member]
      simp [earlier, given]

end FirstCome

end GlobalComponents.Library
