import GlobalComponents.SerialServer.Server

/-! The output side of the server, and what a typed byte does to it: nothing, or one announcement on
a terminal whose colours are reset first.
-/

set_option autoImplicit false

namespace GlobalComponents.SerialServer

structure Display where
  lastOut : Option Nat
  outputBuffers : Nat → UInt8
  used : Nat → Nat
  bitmask : BitVec 16
  doneOutput : Bool
  hasData : Bool
  out : List Output

def Server.display (s : Server) : Display :=
  ⟨s.lastOut, s.outputBuffers, s.used, s.bitmask, s.doneOutput, s.hasData, s.out⟩

def Display.announce (d : Display) (tokens : List Output) : Display :=
  { d with lastOut := none, out := d.out ++ .reset :: tokens }

/-- What is neither a colour nor a byte of a stream. -/
def Output.plain : Output → Bool
  | .text _ | .byte [] _ => true
  | .reset | .colour _ | .byte (_ :: _) _ => false

theorem internalRawPutchar_display {config : Config} {s s' : Server} {id : Nat} {c : UInt8}
    (put : internalRawPutchar config s id c = some s') : s'.display = s.display := by
  unfold internalRawPutchar at put
  split at put
  · dsimp only at put
    split at put
    · cases put
      rfl
    · split at put
      · split at put
        · cases put
          rfl
        · cases put
          rfl
      · cases put
  · cases put

theorem internalRawPutchars_display {config : Config} {s s' : Server} {c : UInt8} {ids : List Nat}
    (put : ids.foldlM (fun s id => internalRawPutchar config s id c) s = some s') :
    s'.display = s.display := by
  induction ids generalizing s with
  | nil =>
    cases put
    rfl
  | cons id rest ih =>
    rw [List.foldlM_cons] at put
    obtain ⟨middle, one, others⟩ := Option.bind_eq_some_iff.mp put
    exact (ih others).trans (internalRawPutchar_display one)

theorem giveClientChar_display {config : Config} {s s' : Server} {c : UInt8}
    (given : giveClientChar config s c = some s') : s'.display = s.display := by
  unfold giveClientChar at given
  split at given
  · exact internalRawPutchar_display given
  · exact internalRawPutchars_display given

inductive Display.Handled (d : Display) : Display → Prop where
  | same : Display.Handled d d
  | announced {tokens : List Output} : tokens.all Output.plain = true →
      Display.Handled d (d.announce tokens)

theorem Display.Handled.of_eq {d d' : Display} (same : d' = d) : d.Handled d' := same ▸ .same

theorem handleCommand_handled {config : Config} {s s' : Server} {c : UInt8}
    (handled : handleCommand config s c = some s') : s.display.Handled s'.display := by
  unfold handleCommand at handled
  split at handled
  · have given := giveClientChar_display handled
    exact .of_eq given
  split at handled
  · cases handled
    exact .announced rfl
  split at handled
  · cases handled
    exact .announced rfl
  split at handled
  · cases handled
    refine @Display.Handled.announced _ (_ :: _) ?_
    split <;> rfl
  split at handled
  · cases handled
    exact .announced rfl
  dsimp only at handled
  split at handled
  · cases handled
    exact .announced rfl
  · cases handled
    exact .announced rfl

theorem handleChar_handled {config : Config} {s s' : Server} {c : UInt8}
    (handled : handleChar config s c = some s') : s.display.Handled s'.display := by
  unfold handleChar at handled
  split at handled
  · cases handled
    exact .same
  split at handled
  · have given := giveClientChar_display handled
    refine .of_eq (given.trans ?_)
    split <;> rfl
  · split at handled
    · exact .of_eq (giveClientChar_display handled)
    split at handled
    · cases handled
      exact .same
    · have given := giveClientChar_display handled
      exact .of_eq given
  · exact handleCommand_handled handled
  · split at handled
    · cases handled
      exact .announced rfl
    · split at handled
      · cases handled
        exact .announced rfl
      · cases handled
        exact .same
  · cases handled
    exact .same

end GlobalComponents.SerialServer
