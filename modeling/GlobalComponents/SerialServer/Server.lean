import GlobalComponents.Library.Run
import GlobalComponents.Library.Window
import Mathlib.Data.UInt

/-! The serial server: buffered output of many streams on one terminal, and input that is handed to
the active clients through rings in shared memory.

The rows of `output_buffers` lie one behind the other in a flat memory, so that an index behind a
row's end reaches the next row. A store behind the end of a ring is a fault. Log messages are left
out.
-/

set_option autoImplicit false

namespace GlobalComponents.SerialServer

open Library Library.Window

def escapeChar : UInt8 := 64
def maxClients : Nat := 12
def outputBufferSize : Nat := 4096
def ctrlC : UInt8 := 0x03
def ctrlZ : UInt8 := 0x1A
def carriageReturn : UInt8 := 13
def newline : UInt8 := 10

/-- `MAX_CLIENTS * 2`: the processed streams and behind them the raw ones. -/
def numStreams : Nat := maxClients * 2

/-- `sizeof(client_buffer_t.buf)` -/
def ringSize : Nat := 4096 - 8

/-- `client_buffer_t`, in memory that the client writes too. -/
structure ClientBuffer where
  head : UInt32
  tail : UInt32
  buf : Fin ringSize → UInt8

structure GetcharClient where
  clientId : Nat
  buf : ClientBuffer
  lastHead : UInt32

inductive Hue where
  | red | green | blue | magenta | yellow | cyan | white
  deriving DecidableEq

structure Ansi where
  foreground : Hue
  background : Option Hue
  bold : Bool
  deriving DecidableEq

def ansiColor (hue : Hue) (bold : Bool) : List Ansi := [⟨hue, none, bold⟩]
def ansiColor2 (hue background : Hue) (bold : Bool) : List Ansi := [⟨hue, some background, bold⟩]

/-- Adjacent literals are one string, so the bold red entries end in the bold green sequence and the
last entry of each row is a null pointer. -/
def allOutputColours : List (List (Option (List Ansi))) :=
  [[some (ansiColor .red false), some (ansiColor .green false), some (ansiColor .blue false),
    some (ansiColor .magenta false), some (ansiColor .yellow false), some (ansiColor .cyan false),
    some (ansiColor .red true ++ ansiColor .green true), some (ansiColor .blue true),
    some (ansiColor .magenta true), some (ansiColor .yellow true), some (ansiColor .cyan true),
    none],
   [some (ansiColor2 .red .white false), some (ansiColor2 .green .white false),
    some (ansiColor2 .blue .white false), some (ansiColor2 .magenta .white false),
    some (ansiColor2 .yellow .white false), some (ansiColor2 .cyan .white false),
    some (ansiColor2 .red .white true ++ ansiColor2 .green .white true),
    some (ansiColor2 .blue .white true), some (ansiColor2 .magenta .white true),
    some (ansiColor2 .yellow .white true), some (ansiColor2 .cyan .white true), none]]

def colourIndexToStyle (x : Nat) : Nat := x / (maxClients - 1)
def colourIndexToSlot (x : Nat) : Nat := x % maxClients

/-- `none` for a null pointer and for what lies behind the table. -/
def outputColour (b : Nat) : Option (List Ansi) :=
  allOutputColours[colourIndexToStyle b]?.bind fun row => row[colourIndexToSlot b]?.join

/-- What goes to the terminal. A buffered byte is marked with the streams it is printed for. -/
inductive Output where
  | reset
  | colour (entry : Option (List Ansi))
  | byte (streams : List Nat) (c : UInt8)
  | text (s : String)
  deriving DecidableEq

/-- What the server is built with and finds when it starts. -/
structure Config where
  /-- Whether `getchar_num_badges` is linked in. -/
  hasGetchar : Bool
  numGetcharClients : Nat
  badge : Nat → Nat
  getcharBuf : Nat → ClientBuffer
  debugBuild : Bool
  charIsSigned : Bool

structure Server where
  /-- `-1` is `none`. -/
  lastOut : Option Nat
  outputBuffers : Nat → UInt8
  used : Nat → Nat
  bitmask : BitVec 16
  doneOutput : Bool
  hasData : Bool
  debug : Nat
  /-- `-1` is `none`. -/
  activeClient : Option Nat
  activeMulticlients : BitVec 32
  statemachine : Nat
  getcharClients : Nat → GetcharClient
  /-- The badges passed to `getchar_emit`, the latest first. -/
  emitted : List Nat
  /-- All output so far, the oldest first. -/
  out : List Output

def row (b : Nat) : Nat := b * outputBufferSize

/-- `BIT(b)`, as far as it fits the bitmask. -/
def bit (b : Nat) : BitVec 16 := BitVec.ofNat 16 (2 ^ b)

namespace Server

def pending (s : Server) (b : Nat) : List UInt8 := window s.outputBuffers (row b) (s.used b)

def print (s : Server) (tokens : List Output) : Server := { s with out := s.out ++ tokens }

/-- `if (b != last_out)`, print the stream's colours. -/
def setColour (s : Server) (b : Nat) : Server :=
  if s.lastOut = some b then s
  else { s.print [.reset, .colour (outputColour b)] with lastOut := some b }

end Server

def flushBuffer (s : Server) (b : Nat) : Server :=
  if s.used b = 0 then s
  else
    let s := (s.setColour b).print ((s.pending b).map (.byte [b]))
    { s with
      doneOutput := true
      used := Function.update s.used b 0
      bitmask := s.bitmask &&& ~~~bit b }

/-- `memchr(output_buffers[b], c, output_buffers_used[b])`, as an index. -/
def Server.memchr (s : Server) (b : Nat) (c : UInt8) : Option Nat :=
  (s.pending b).findIdx? (· == c)

/-- The length of the first line: up to the first `\\r`, without one up to the first `\\n`, and the
newline character behind it. -/
def Server.lineLength (s : Server) (b : Nat) : Option Nat :=
  ((s.memchr b carriageReturn).or (s.memchr b newline)).map fun nl =>
    let length := nl + 1
    if length < s.used b ∧ (s.outputBuffers (row b + length) = newline ∨
        s.outputBuffers (row b + length) = carriageReturn) then length + 1
    else length

def Server.shift (s : Server) (b length : Nat) : Server :=
  let used := s.used b - length
  let bitmask := if used = 0 then s.bitmask &&& ~~~bit b else s.bitmask
  { s with
    outputBuffers := moveDown s.outputBuffers (row b) length used
    used := Function.update s.used b used
    bitmask }

/-- The returned flag tells whether a line was printed. The test for the length 0 is left out: a line
ends in a newline character. -/
def flushBufferLine (s : Server) (b : Nat) : Server × Bool :=
  if s.used b = 0 then (s, false)
  else
    match s.lineLength b with
    | none => (s, false)
    | some length =>
      let s := (s.setColour b).print ((window s.outputBuffers (row b) length).map (.byte [b]))
      (s.shift b length, true)

def isNewline (first second : UInt8) : Bool :=
  (first == carriageReturn && second == newline) || (first == newline && second == carriageReturn)

/-- The loop of `try_coalesce_output` over the streams. It ends with the common length and the
streams in use, or with two streams that differ in their first bytes. -/
def coalesceScan (s : Server) : List Nat → Nat → List Nat → Except (Nat × Nat × Nat) (Nat × List Nat)
  | [], length, used => .ok (length, used)
  | i :: rest, length, used =>
    if s.used i > 0 then
      let length := if length = 0 ∨ length > s.used i then s.used i else length
      match used with
      | [] => coalesceScan s rest length [i]
      | first :: _ =>
        if window s.outputBuffers (row first) length = window s.outputBuffers (row i) length then
          coalesceScan s rest length (used ++ [i])
        else .error (first, i, length)
    else coalesceScan s rest length used

/-- `%0hhx` for each byte -/
def hexText (bytes : List UInt8) : String :=
  String.join (bytes.map fun c => String.ofList (Nat.toDigits 16 c.toNat))

/-- Print the common front of the streams `used` and remove it from each of them. -/
def Server.printCommon (s : Server) (used : List Nat) (first length : Nat) : Server :=
  let s := if s.lastOut = none then s else s.print [.reset]
  let s := s.print ((window s.outputBuffers (row first) length).map (.byte used))
  let s := used.foldl (fun s i => Server.shift s i length) { s with lastOut := none }
  if s.bitmask ≠ 0 then { s with hasData := true } else s

/-- The returned value: `-1` when the contents differ, 0 when coalesced, 1 when buffering. -/
def tryCoalesceOutput (s : Server) : Server × Int :=
  match coalesceScan s (List.range numStreams) 0 [] with
  | .error (first, i, length) =>
    -- only streams that differ are reported, and only at debug level 1
    if s.debug = 1 then
      (s.print [.text (hexText (window s.outputBuffers (row first) length)), .text "' vs '",
        .text (hexText (window s.outputBuffers (row i) length)), .text "'\r\n"], -1)
    else (s, -1)
  | .ok (length, used) =>
    match used with
    | first :: _ :: _ =>
      if length > 0 then (s.printCommon used first length, 0) else (s, 1)
    | _ => (s, 1)

def flushNext (before : Server × Bool) (i : Nat) : Server × Bool :=
  let (s, line) := flushBufferLine before.1 i
  (s, before.2 || line)

/-- One pass over all streams, each of which prints at most one line. -/
def flushPass (s : Server) : Server × Bool := (List.range numStreams).foldl flushNext (s, false)

/-- `while (!is_done)`, with whether any line was printed. Each further pass has printed a line, so
there are at most as many as there are buffered bytes. -/
def flushPasses : Nat → Server → Server × Bool
  | 0, s => (s, false)
  | fuel + 1, s =>
    let (s, flushed) := flushPass s
    if flushed then ((flushPasses fuel s).1, true) else (s, false)

def Server.buffered (s : Server) : Nat := ((List.range numStreams).map s.used).sum

def flushLines (s : Server) : Server × Bool := flushPasses (s.buffered + 1) s

def flushPrevious (s : Server) : Server :=
  match s.lastOut with
  | some prevClient => (flushBufferLine s prevClient).1
  | none => s

def flushOthers (s : Server) (b : Nat) : Server :=
  if s.used b = outputBufferSize then
    ((List.range numStreams).filter (· ≠ b)).foldl flushBuffer s
  else s

def flushFull (s : Server) (b : Nat) : Server :=
  (flushOthers (flushLines (flushPrevious s)).1 b).setColour b

/-- `buffer[index] = (uint8_t)c; output_buffers_used[b]++;` -/
def Server.store (s : Server) (b : Nat) (c : Int) : Server :=
  { s with
    outputBuffers := Function.update s.outputBuffers (row b + s.used b) (UInt8.ofInt c)
    used := Function.update s.used b (s.used b + 1) }

def coalesceIfMulti (s : Server) : Server × Int :=
  if s.activeClient = none then tryCoalesceOutput s else (s, -1)

/-- The end of `internal_putchar`: the byte was stored at `index`. -/
def flushStored (s : Server) (b index : Nat) (coalesceStatus : Int) : Server :=
  let ended := index ≥ 1 ∧
    isNewline (s.outputBuffers (row b + index - 1)) (s.outputBuffers (row b + index))
  if s.used b = outputBufferSize then flushFull s b
  else if (ended ∧ coalesceStatus = -1) ∨
      (s.lastOut = some b ∧ s.bitmask = 0 ∧ coalesceStatus = -1) then flushBuffer s b
  else { s with bitmask := s.bitmask ||| bit b }

def internalPutchar (s : Server) (b : Nat) (c : Int) : Server :=
  let (after, coalesceStatus) := coalesceIfMulti (s.store b c)
  { flushStored after b (s.used b) coalesceStatus with hasData := true }

def internalRawPutchar (config : Config) (s : Server) (id : Nat) (c : UInt8) : Option Server :=
  if id < config.numGetcharClients then
    let client := s.getcharClients id
    let nextTail := (client.buf.tail + 1) % UInt32.ofNat ringSize
    if nextTail = client.buf.head then some s
    else
      let lastReadHead := client.buf.head
      if within : client.buf.tail.toNat < ringSize then
        let buf := { client.buf with
          buf := Function.update client.buf.buf ⟨client.buf.tail.toNat, within⟩ c
          tail := nextTail }
        if lastReadHead ≠ client.lastHead then
          some { s with
            getcharClients := Function.update s.getcharClients id
              { client with buf, lastHead := lastReadHead }
            emitted := client.clientId :: s.emitted }
        else
          some { s with getcharClients := Function.update s.getcharClients id { client with buf } }
      else none
  else none

def giveClientChar (config : Config) (s : Server) (c : UInt8) : Option Server :=
  match s.activeClient with
  | some client => internalRawPutchar config s client c
  | none =>
    ((List.range numStreams).filter fun i => s.activeMulticlients.getLsbD i).foldlM
      (fun s i => internalRawPutchar config s i c) s

def endsLine (c : UInt8) : Bool :=
  c == carriageReturn || c == newline || c == ctrlC || c == ctrlZ

/-- `c >= '0' && c < '0' + num_getchar_clients`, and then `c - '0'` -/
def selectedClient (config : Config) (c : UInt8) : Option Nat :=
  if 48 ≤ c.toNat ∧ c.toNat < 48 + config.numGetcharClients then some (c.toNat - 48) else none

/-- `%-2d` -/
def leftAligned (n : Int) : String := (toString n).rightpad 2

def helpText (config : Config) : String :=
  "\r\n --- SerialServer help ---" ++
  "\r\n Escape char: @" ++
  "\r\n 0 - " ++ leftAligned (config.numGetcharClients - 1) ++ " switches input to that client" ++
  "\r\n ?      shows this help" ++
  "\r\n s      dump seL4 scheduler (depends on CONFIG_DEBUG_BUILD)" ++
  "\r\n m      simultaneous multi-client input" ++
  "\r\n d      switch between debugging modes" ++
  "\r\n          0: no debugging" ++
  "\r\n          1: debug multi-input mode output coalescing" ++
  "\r\n          2: debug flush_buffer_line" ++
  "\r\n"

def handleCommand (config : Config) (s : Server) (c : UInt8) : Option Server :=
  -- the escape character itself is typed by escaping it
  if c = escapeChar then giveClientChar config { s with statemachine := 0 } c
  else if c = 109 then
    some { s.print [.reset, .text "\r\nMulti-client input to clients: "] with
      statemachine := 3, activeMulticlients := 0, activeClient := none, lastOut := none }
  else if c = 100 then
    let debug := (s.debug + 1) % 3
    some { s.print [.reset, .text s!"\r\nDebug: {debug}\r\n"] with
      debug, lastOut := none, statemachine := 1 }
  else if c = 115 then
    let dump := if config.debugBuild then [] else
      [.text "\r\nScheduler dump works on debug builds only\r\n"]
    some { s.print ([.reset, .text "\r\n"] ++ dump) with lastOut := none, statemachine := 1 }
  else if c = 63 then
    some { s.print [.reset, .text (helpText config)] with lastOut := none, statemachine := 1 }
  else
    let s := { s with lastOut := none, statemachine := 1 }
    match selectedClient config c with
    | some client =>
      some { s.print [.reset, .text s!"\r\nSwitching input to {client}\r\n"] with
        activeClient := some client }
    | none =>
      some (s.print [.reset, .text "\r\nInvalid SerialServer command: ", .byte [] c,
        .text "\r\nType @? for help\r\n"])

def handleChar (config : Config) (s : Server) (c : UInt8) : Option Server :=
  if !config.hasGetchar then some s
  else
    match s.statemachine with
    | 0 => giveClientChar config (if endsLine c then { s with statemachine := 1 } else s) c
    | 1 =>
      if endsLine c then giveClientChar config s c
      else if c = escapeChar then some { s with statemachine := 2 }
      else giveClientChar config { s with statemachine := 0 } c
    | 2 => handleCommand config s c
    | 3 =>
      match selectedClient config c with
      | some client =>
        let separator := if s.activeMulticlients ≠ 0 then "," else ""
        some { s.print [.reset, .text s!"{separator}{client}"] with
          activeMulticlients := s.activeMulticlients ||| BitVec.ofNat 32 (2 ^ client)
          lastOut := none }
      | none =>
        if c = 109 ∨ c = 77 ∨ c = carriageReturn ∨ c = newline then
          some { s.print [.reset, .text ("\r\nSwitching input to multi-client. " ++
              "Output will be best-effort coalesced (colored white).\r\n")] with
            lastOut := none, statemachine := 1 }
        else some s
    | _ => some s

def timerCallback (s : Server) : Server :=
  -- a heartbeat right after output only forgets it
  if s.doneOutput then { s with doneOutput := false }
  else if s.hasData then
    let (s, succeeded) := flushLines s
    -- without any line whatever is buffered goes out as it is
    if succeeded then s else (List.range numStreams).foldl flushBuffer s
  else s

def Server.init (config : Config) : Server where
  lastOut := none
  outputBuffers := fun _ => 0
  used := fun _ => 0
  bitmask := 0
  doneOutput := false
  hasData := false
  debug := 0
  activeClient := some 0
  activeMulticlients := 0
  statemachine := 1
  getcharClients := fun i => ⟨config.badge i, config.getcharBuf (config.badge i), 0xFFFFFFFF⟩
  emitted := []
  out := []

inductive Event where
  | putchar (b : Nat) (c : Int)
  | timer
  | input (c : UInt8)
  /-- A client writes its ring. -/
  | share (id : Nat) (buf : ClientBuffer)

def Server.step (config : Config) (s : Server) : Event → Option Server
  | .putchar b c =>
    -- a buffer that overflows reaches into the next one, and the last one out of the array
    if row b + s.used b < numStreams * outputBufferSize then some (internalPutchar s b c) else none
  | .timer => some (timerCallback s)
  | .input c => handleChar config s c
  | .share id buf =>
    some { s with
      getcharClients := Function.update s.getcharClients id { s.getcharClients id with buf } }

theorem putchar_step {config : Config} {s after : Server} {b : Nat} {c : Int}
    (step : s.step config (.putchar b c) = some after) : after = internalPutchar s b c := by
  rw [Server.step] at step
  split at step
  · exact (Option.some.inj step).symm
  · cases step

def Event.valid : Event → Prop
  | .putchar b _ => b < numStreams
  | .timer | .input _ | .share _ _ => True

def machine (config : Config) : Machine Server Event Unit where
  allowed _ event := event.valid
  step s event := (s.step config event).map (·, ())

end GlobalComponents.SerialServer
