import GlobalComponents.FileServer.Server

/-! Clients of the file server do not see each other.

Each client could as well have a server of its own, on which its files are numbered in the order in
which it opened them: what the client is told does not depend on anything else.
-/

set_option autoImplicit false

namespace GlobalComponents.FileServer

open Library Library.Window

variable {w : Nat} {config : Config w}

/-! ## Requests on open files -/

inductive Request (w : Nat) where
  | seek (offset whence : Int)
  | read (size : BitVec w)
  | close (result : Int)

namespace Request

def act (config : Config w) (client : Nat) (file : File w) : Request w → Option (File w) × Reply
  | .seek offset whence =>
    match config.seek file offset whence with
    | some position => (some { file with position }, ⟨position, []⟩)
    | none => (some file, ⟨-1, []⟩)
  | .read size =>
    if config.readFails file (clamp config client size) then (some file, ⟨-1, []⟩)
    else
      let bytes := file.left.take (clamp config client size).toNat
      (some (file.advance bytes.length), ⟨bytes.length, bytes⟩)
  | .close result => (none, ⟨result, []⟩)

def rejection : Request w → Reply
  | .seek _ _ | .read _ => ⟨-1, []⟩
  | .close _ => ⟨-ebadf, []⟩

theorem rejection_negative (request : Request w) : request.rejection.value < 0 := by
  cases request with
  | seek offset whence => exact (by decide : (-1 : Int) < 0)
  | read size => exact (by decide : (-1 : Int) < 0)
  | close result => exact (by decide : -ebadf < 0)

end Request

namespace Event

def client : Event w → Nat
  | .open client _ _ _ _ | .seek client _ _ _ | .read client _ _ | .close client _ _ => client

def request : Event w → Option (Int × Request w)
  | .open _ _ _ _ _ => none
  | .seek _ fd offset whence => some (fd, .seek offset whence)
  | .read _ fd size => some (fd, .read size)
  | .close _ fd result => some (fd, .close result)

end Event

def mine (client : Nat) (file : File w) : FileData w := ⟨file, some client⟩

inductive Did (config : Config w) (s : Server w) : Event w → Server w → Reply → Prop where
  | openFailed {client : Nat} {name : String} {flags fd value : Int} {room : Bool} :
      value < 0 → Did config s (.open client name flags fd room) s ⟨value, []⟩
  | opened {client : Nat} {name : String} {flags fd : Int} :
      0 ≤ fd → config.validFd fd = true → s.fds fd = none →
      Did config s (.open client name flags fd true)
        (s.setFd fd (some (mine client (config.find name flags)))) ⟨fd, []⟩
  | rejected {event : Event w} {fd : Int} {request : Request w} :
      event.request = some (fd, request) →
      (∀ file, s.fds fd ≠ some (mine event.client file)) →
      Did config s event s request.rejection
  | accepted {event : Event w} {fd : Int} {request : Request w} {file : File w}
      {buf : Nat → Nat → UInt8} :
      event.request = some (fd, request) → s.fds fd = some (mine event.client file) →
      (∀ other, buf other ≠ s.buf other →
        other = event.client ∧ ∃ size, request = .read size) →
      Did config s event
        ⟨Function.update s.fds fd
          ((request.act config event.client file).1.map (mine event.client)), buf⟩
        (request.act config event.client file).2

def Server.Regular (config : Config w) (s : Server w) : Prop :=
  ∀ fd data, s.fds fd = some data → config.validFd fd = true ∧ data.client ≠ none

theorem accepted_iff {s : Server w} (regular : s.Regular config) {fd : Int} {client : Nat} :
    validateClientFd config s fd client = true ↔ ∃ file, s.fds fd = some (mine client file) := by
  unfold validateClientFd
  constructor
  · intro accepted
    split at accepted
    · split at accepted
      · next data record =>
        obtain ⟨file, owner⟩ := data
        obtain rfl : owner = some client := by simpa using accepted
        exact ⟨file, record⟩
      · cases accepted
    · cases accepted
  · rintro ⟨file, record⟩
    rw [if_pos (regular fd _ record).1, record]
    simp [mine]

theorem not_accepted {s : Server w} (regular : s.Regular config) {fd : Int} {client : Nat}
    (rejected : validateClientFd config s fd client = false) (file : File w) :
    s.fds fd ≠ some (mine client file) := by
  intro record
  rw [(accepted_iff regular).mpr ⟨file, record⟩] at rejected
  cases rejected

theorem setFd_setFd (s : Server w) (fd : Int) (first second : Option (FileData w)) :
    (s.setFd fd first).setFd fd second = s.setFd fd second := by
  simp [Server.setFd]

theorem setFd_same {s : Server w} {fd : Int} {data : Option (FileData w)}
    (same : s.fds fd = data) : s.setFd fd data = s := by
  subst same
  simp [Server.setFd]

theorem open_did {s : Server w} {client : Nat} {name : String} {flags fd : Int} {room : Bool}
    (allowed : (machine config).allowed s (.open client name flags fd room)) :
    Did config s (.open client name flags fd room)
      (s.run config (.open client name flags fd room)).1
      (s.run config (.open client name flags fd room)).2 := by
  unfold Server.run fsCtrlOpen
  by_cases failed : fd < 0
  · simp only [if_pos failed]
    exact .openFailed failed
  · obtain ⟨valid, free⟩ := allowed.resolve_left failed
    simp only [if_neg failed]
    cases room with
    | true =>
      simp only [if_true, setFd_setFd]
      exact .opened (Int.not_lt.mp failed) valid free
    | false =>
      simp only [Bool.false_eq_true, if_false, setFd_setFd, setFd_same free]
      exact .openFailed (by decide)

theorem seek_did {s : Server w} (regular : s.Regular config) (client : Nat)
    (fd offset whence : Int) :
    Did config s (.seek client fd offset whence) (s.run config (.seek client fd offset whence)).1
      (s.run config (.seek client fd offset whence)).2 := by
  have request : (Event.seek (w := w) client fd offset whence).request =
    some (fd, .seek offset whence) := rfl
  unfold Server.run fsCtrlSeek
  cases accepted : validateClientFd config s fd client with
  | false =>
    simp only [accepted, Bool.false_eq_true, if_false]
    exact .rejected request (not_accepted regular accepted)
  | true =>
    obtain ⟨file, record⟩ := (accepted_iff regular).mp accepted
    have did : Did config s _ _ _ := .accepted request record fun other changed =>
      absurd (Eq.refl (s.buf other)) changed
    simp only [accepted, if_true, Server.lseek, record, mine]
    cases sought : config.seek file offset whence with
    | some position =>
      simp only [Request.act, sought, Option.map_some] at did
      exact did
    | none =>
      have same := setFd_same record
      rw [Server.setFd] at same
      simp only [Request.act, Event.client, sought, Option.map_some, same] at did
      exact did

theorem read_did {s : Server w} (regular : s.Regular config) (client : Nat) (fd : Int)
    (size : BitVec w) :
    Did config s (.read client fd size) (s.run config (.read client fd size)).1
      (s.run config (.read client fd size)).2 := by
  have request : (Event.read client fd size).request = some (fd, .read size) := rfl
  unfold Server.run fsCtrlRead
  cases accepted : validateClientFd config s fd client with
  | false =>
    simp only [accepted, Bool.false_eq_true, if_false, minus_one_toInt config]
    exact .rejected request (not_accepted regular accepted)
  | true =>
    obtain ⟨file, record⟩ := (accepted_iff regular).mp accepted
    simp only [accepted, if_true, Server.read, record, mine]
    cases fails : config.readFails file (clamp config client size) with
    | true =>
      have did : Did config s _ _ _ := .accepted request record fun other changed =>
        absurd (Eq.refl (s.buf other)) changed
      have same := setFd_same record
      rw [Server.setFd] at same
      simp only [Request.act, Event.client, fails, if_true, Option.map_some, same] at did
      simp only [if_true, minus_one_toInt config]
      exact did
    | false =>
      generalize taken : file.left.take (clamp config client size).toNat = bytes
      have small : 2 * bytes.length < 2 ^ w := by
        have most := file.small
        rw [← taken, List.length_take, File.left, List.length_drop]
        omega
      let buf := Function.update s.buf client (store (s.buf client) 0 bytes)
      have written : ∀ other, buf other ≠ s.buf other →
          other = client ∧ ∃ n, Request.read size = .read n := fun other changed =>
        ⟨by_contra fun elsewhere => changed (Function.update_of_ne elsewhere _ _), size, rfl⟩
      have did : Did config s _ _ _ := .accepted request record written
      simp only [Request.act, Event.client, fails, Bool.false_eq_true, if_false, taken,
        Option.map_some] at did
      simp only [Bool.false_eq_true, if_false, ofNat_toInt small, Int.toNat_natCast,
        Function.update_self, window_store]
      exact did

theorem close_did {s : Server w} (regular : s.Regular config) (client : Nat) (fd result : Int) :
    Did config s (.close client fd result) (s.run config (.close client fd result)).1
      (s.run config (.close client fd result)).2 := by
  have request : (Event.close (w := w) client fd result).request = some (fd, .close result) := rfl
  unfold Server.run fsCtrlClose
  cases accepted : validateClientFd config s fd client with
  | false =>
    simp only [accepted, Bool.false_eq_true, if_false]
    exact .rejected request (not_accepted regular accepted)
  | true =>
    obtain ⟨file, record⟩ := (accepted_iff regular).mp accepted
    simp only [accepted, if_true]
    exact .accepted request record fun other changed => absurd rfl changed

theorem step_did {s s' : Server w} {event : Event w} {reply : Reply} (regular : s.Regular config)
    (allowed : (machine config).allowed s event)
    (step : (machine config).step s event = some (s', reply)) : Did config s event s' reply := by
  obtain ⟨rfl, rfl⟩ := Prod.mk.inj (Option.some.inj step)
  cases event with
  | «open» client name flags fd room => exact open_did allowed
  | seek client fd offset whence => exact seek_did regular client fd offset whence
  | read client fd size => exact read_did regular client fd size
  | close client fd result => exact close_did regular client fd result

theorem Did.regular {s s' : Server w} {event : Event w} {reply : Reply}
    (regular : s.Regular config) (did : Did config s event s' reply) : s'.Regular config := by
  intro other data open_
  cases did with
  | openFailed _ => exact regular other data open_
  | @opened client name flags fd _ valid _ =>
    rcases eq_or_ne other fd with rfl | different
    · obtain rfl : mine client (config.find name flags) = data := by
        simpa [Server.setFd] using open_
      exact ⟨valid, nofun⟩
    · exact regular other data (by simpa [Server.setFd, different] using open_)
  | rejected _ _ => exact regular other data open_
  | @accepted _ fd request file buf _ record _ =>
    rcases eq_or_ne other fd with rfl | different
    · refine ⟨(regular other _ record).1, ?_⟩
      obtain ⟨after, _, rfl⟩ := Option.map_eq_some_iff.mp (by simpa using open_)
      exact nofun
    · exact regular other data (by simpa [different] using open_)

/-! ## Owners -/

/-- Who has opened a descriptor and not closed it since, after one more event. -/
def held (holder : Int → Option Nat) : Event w × Reply → Int → Option Nat
  | (.open client _ _ _ _, reply) =>
    if reply.value < 0 then holder else Function.update holder reply.value (some client)
  | (.seek _ _ _ _, _) | (.read _ _ _, _) => holder
  | (.close client fd _, _) =>
    if holder fd = some client then Function.update holder fd none else holder

def holder (trace : List (Event w × Reply)) : Int → Option Nat := trace.foldl held fun _ => none

theorem holder_concat (trace : List (Event w × Reply)) (step : Event w × Reply) :
    holder (trace ++ [step]) = held (holder trace) step := by
  simp [holder]

def Server.owner (s : Server w) (fd : Int) : Option Nat := (s.fds fd).bind FileData.client

theorem owner_of_mine {s : Server w} {fd : Int} {client : Nat} {file : File w}
    (record : s.fds fd = some (mine client file)) : s.owner fd = some client := by
  simp [Server.owner, record, mine]

theorem mine_of_owner {s : Server w} {fd : Int} {client : Nat} (owner : s.owner fd = some client) :
    ∃ file, s.fds fd = some (mine client file) := by
  obtain ⟨⟨file, same⟩, record, owned⟩ := Option.bind_eq_some_iff.mp owner
  exact ⟨file, by rw [record, mine, ← owned]⟩

theorem Did.owner {s s' : Server w} {event : Event w} {reply : Reply}
    (did : Did config s event s' reply) : s'.owner = held s.owner (event, reply) := by
  funext other
  cases did with
  | openFailed negative => rw [held, if_pos negative]
  | @opened client name flags fd positive _ free =>
    rw [held, if_neg (Int.not_lt.mpr positive)]
    rcases eq_or_ne other fd with rfl | different
    · simp [Server.owner, Server.setFd, mine]
    · simp [Server.owner, Server.setFd, different]
  | @rejected event fd request asked foreign =>
    -- the caller has no record of it, so it has not opened it
    have unowned : s.owner fd ≠ some event.client := fun owner =>
      have ⟨file, record⟩ := mine_of_owner owner
      foreign file record
    cases event with
    | «open» => cases asked
    | seek => rfl
    | read => rfl
    | close client fd' result =>
      cases asked
      exact congrFun (if_neg unowned).symm other
  | @accepted event fd request file buf asked record _ =>
    have owned := owner_of_mine record
    have kept : ∀ file', (request.act config event.client file).1 = some file' →
        (⟨Function.update s.fds fd ((request.act config event.client file).1.map
          (mine event.client)), buf⟩ : Server w).owner other = s.owner other := by
      intro file' still
      rcases eq_or_ne other fd with rfl | different
      · rw [owned]
        simp [Server.owner, still, mine]
      · simp [Server.owner, different]
    cases event with
    | «open» => cases asked
    | seek client fd' offset whence =>
      cases asked
      have ⟨file', still⟩ : ∃ file', ((Request.seek offset whence).act config client file).1 =
          some file' := by
        unfold Request.act
        dsimp only
        split <;> exact ⟨_, rfl⟩
      exact kept file' still
    | read client fd' size =>
      cases asked
      have ⟨file', still⟩ : ∃ file', ((Request.read size).act config client file).1 =
          some file' := by
        unfold Request.act
        dsimp only
        split <;> exact ⟨_, rfl⟩
      exact kept file' still
    | close client fd' result =>
      cases asked
      have owned : s.owner fd = some client := owned
      rw [held, if_pos owned]
      rcases eq_or_ne other fd with rfl | different
      · simp [Server.owner, Request.act]
      · simp [Server.owner, different]

structure Confined (holder : Int → Option Nat) (s : Server w) (event : Event w) (s' : Server w)
    (reply : Reply) : Prop where
  /-- A record changes for a request of its holder, or when nobody has opened it. -/
  fds : ∀ fd, s'.fds fd ≠ s.fds fd →
    (∃ request, event.request = some (fd, request) ∧ holder fd = some event.client) ∨
      event.request = none ∧ reply.value = fd ∧ holder fd = none
  /-- Only a client that reads its own file gets data, in its own dataport. -/
  bufs : ∀ client, s'.buf client ≠ s.buf client → client = event.client ∧
    ∃ fd size, event.request = some (fd, .read size) ∧ holder fd = some client
  rejected : ∀ fd request, event.request = some (fd, request) → holder fd ≠ some event.client →
    s' = s ∧ reply.value < 0
  openFailed : event.request = none → reply.value < 0 → s' = s

theorem Did.confined {s s' : Server w} {event : Event w} {reply : Reply}
    (did : Did config s event s' reply) : Confined s.owner s event s' reply := by
  cases did with
  | openFailed negative =>
    exact ⟨fun fd changed => absurd rfl changed, fun client changed => absurd rfl changed,
      fun fd request asked => (nomatch asked), fun _ _ => rfl⟩
  | @opened client name flags fd positive _ free =>
    refine ⟨fun other changed => .inr ⟨rfl, ?_⟩, fun client changed => absurd rfl changed,
      fun fd request asked => (nomatch asked), fun _ negative => ?_⟩
    · obtain rfl : other = fd := by_contra fun different =>
        changed (by simp [Server.setFd, different])
      exact ⟨rfl, by simp [Server.owner, free]⟩
    · exact absurd negative (Int.not_lt.mpr positive)
  | @rejected event fd request asked foreign =>
    refine ⟨fun other changed => absurd rfl changed, fun client changed => absurd rfl changed,
      fun _ _ _ _ => ⟨rfl, request.rejection_negative⟩, fun none => ?_⟩
    rw [none] at asked
    cases asked
  | @accepted event fd request file buf asked record written =>
    have owned := owner_of_mine record
    refine ⟨fun other changed => .inl ?_, fun client changed => ?_,
      fun fd' request' asked' foreign => ?_, fun none => ?_⟩
    · obtain rfl : other = fd := by_contra fun different =>
        changed (Function.update_of_ne different _ _)
      exact ⟨request, asked, owned⟩
    · obtain ⟨rfl, size, rfl⟩ := written client changed
      exact ⟨rfl, fd, size, asked, owned⟩
    · rw [asked] at asked'
      cases asked'
      exact absurd owned foreign
    · rw [none] at asked
      cases asked

/-! ## A server for one client -/

/-- What a client asks, with its files numbered in the order in which it opened them, and without a
number for a descriptor that it has not opened. -/
inductive Ask (w : Nat) where
  | opened (name : String) (flags : Int)
  | openFailed (value : Int)
  | file (number : Option Nat) (request : Request w)

structure Own (w : Nat) where
  files : Nat → Option (File w)
  next : Nat

/-- The file system that a client believes it has. -/
def Own.answer (config : Config w) (client : Nat) (own : Own w) : Ask w → Own w × Reply
  | .opened name flags =>
    (⟨Function.update own.files own.next (some (config.find name flags)), own.next + 1⟩, ⟨0, []⟩)
  | .openFailed value => (own, ⟨value, []⟩)
  | .file none request => (own, request.rejection)
  | .file (some number) request =>
    match own.files number with
    | some file =>
      let (after, reply) := request.act config client file
      ({ own with files := Function.update own.files number after }, reply)
    | none => (own, request.rejection)

def alone (config : Config w) (client : Nat) : Machine (Own w) (Ask w) Reply where
  allowed _ _ := True
  step own ask := some (own.answer config client ask)

/-- A client's notes: its numbers for descriptors, and what it asked and was told. That an open
succeeded is noted without the descriptor. -/
structure Notes (w : Nat) where
  number : Int → Option Nat
  next : Nat
  exchanges : List (Ask w × Reply)

def Notes.write (notes : Notes w) : Event w × Reply → Notes w
  | (.open _ name flags _ _, reply) =>
    if reply.value < 0 then
      { notes with exchanges := notes.exchanges ++ [(.openFailed reply.value, reply)] }
    else
      { number := Function.update notes.number reply.value (some notes.next)
        next := notes.next + 1
        exchanges := notes.exchanges ++ [(.opened name flags, ⟨0, []⟩)] }
  | (.seek _ fd offset whence, reply) =>
    { notes with
      exchanges := notes.exchanges ++ [(.file (notes.number fd) (.seek offset whence), reply)] }
  | (.read _ fd size, reply) =>
    { notes with
      exchanges := notes.exchanges ++ [(.file (notes.number fd) (.read size), reply)] }
  | (.close _ fd result, reply) =>
    { notes with
      number := Function.update notes.number fd none
      exchanges := notes.exchanges ++ [(.file (notes.number fd) (.close result), reply)] }

def notes (client : Nat) (trace : List (Event w × Reply)) : Notes w :=
  (trace.filter fun step => step.1.client = client).foldl Notes.write ⟨fun _ => none, 0, []⟩

structure Mirrors (client : Nat) (s : Server w) (notes : Notes w) (own : Own w) : Prop where
  file : ∀ fd number, notes.number fd = some number →
    ∃ file, own.files number = some file ∧ s.fds fd = some (mine client file)
  noted : ∀ fd file, s.fds fd = some (mine client file) → ∃ number, notes.number fd = some number
  single : ∀ fd fd' number, notes.number fd = some number → notes.number fd' = some number → fd = fd'
  earlier : ∀ fd number, notes.number fd = some number → number < notes.next
  next : own.next = notes.next

theorem Did.foreign {s s' : Server w} {event : Event w} {reply : Reply}
    (did : Did config s event s' reply) {client : Nat} (other : event.client ≠ client) (fd : Int)
    (file : File w) : s'.fds fd = some (mine client file) ↔ s.fds fd = some (mine client file) := by
  have apart : ∀ file', mine event.client file' ≠ mine client file := by
    intro file' same
    exact other (by simpa [mine] using (FileData.mk.inj same).2)
  cases did with
  | openFailed _ => rfl
  | @opened client' name flags fd' _ _ free =>
    rcases eq_or_ne fd fd' with rfl | different
    · refine iff_of_false (fun record => ?_) (by simp [free])
      exact apart (config.find name flags) (by simpa [Server.setFd, Event.client] using record)
    · simp [Server.setFd, different]
  | rejected _ _ => rfl
  | @accepted _ fd' request file' buf _ record _ =>
    rcases eq_or_ne fd fd' with rfl | different
    · refine iff_of_false (fun after => ?_) fun before => ?_
      · obtain ⟨next, _, same⟩ := Option.map_eq_some_iff.mp (by simpa using after)
        exact apart next same
      · exact apart file' (Option.some.inj (record.symm.trans before))
    · simp [different]

theorem Mirrors.foreign {client : Nat} {s s' : Server w} {notes : Notes w} {own : Own w}
    {event : Event w} {reply : Reply} (mirrors : Mirrors client s notes own)
    (did : Did config s event s' reply) (other : event.client ≠ client) :
    Mirrors client s' notes own := by
  refine ⟨fun fd number noted => ?_, fun fd file record => ?_, mirrors.single, mirrors.earlier,
    mirrors.next⟩
  · obtain ⟨file, mine, record⟩ := mirrors.file fd number noted
    exact ⟨file, mine, (did.foreign other fd file).mpr record⟩
  · exact mirrors.noted fd file ((did.foreign other fd file).mp record)

def Request.renumber (number : Int → Option Nat) (fd : Int) : Request w → Int → Option Nat
  | .seek _ _ | .read _ => number
  | .close _ => Function.update number fd none

theorem write_request {notes : Notes w} {event : Event w} {reply : Reply} {fd : Int}
    {request : Request w} (asked : event.request = some (fd, request)) :
    notes.write (event, reply) =
      ⟨request.renumber notes.number fd, notes.next,
        notes.exchanges ++ [(.file (notes.number fd) request, reply)]⟩ := by
  cases event with
  | «open» => cases asked
  | seek =>
    cases asked
    rfl
  | read =>
    cases asked
    rfl
  | close =>
    cases asked
    rfl

theorem act_cases (config : Config w) (client : Nat) (file : File w) (request : Request w)
    (number : Int → Option Nat) (fd : Int) :
    (∃ file', (request.act config client file).1 = some file' ∧
      request.renumber number fd = number) ∨
    (request.act config client file).1 = none ∧
      request.renumber number fd = Function.update number fd none := by
  cases request with
  | seek offset whence =>
    unfold Request.act
    dsimp only
    split <;> exact .inl ⟨_, rfl, rfl⟩
  | read size =>
    unfold Request.act
    dsimp only
    split <;> exact .inl ⟨_, rfl, rfl⟩
  | close result => exact .inr ⟨rfl, rfl⟩

theorem Mirrors.absent {client : Nat} {s : Server w} {notes : Notes w} {own : Own w} {fd : Int}
    (mirrors : Mirrors client s notes own) (foreign : ∀ file, s.fds fd ≠ some (mine client file)) :
    notes.number fd = none := by
  cases noted : notes.number fd with
  | none => rfl
  | some number =>
    obtain ⟨file, _, record⟩ := mirrors.file fd number noted
    exact absurd record (foreign file)

theorem Mirrors.opened {client : Nat} {s : Server w} {notes : Notes w} {own : Own w} {fd : Int}
    (mirrors : Mirrors client s notes own) (free : s.fds fd = none) (file : File w)
    (exchanges : List (Ask w × Reply)) :
    Mirrors client (s.setFd fd (some (mine client file)))
      ⟨Function.update notes.number fd (some notes.next), notes.next + 1, exchanges⟩
      ⟨Function.update own.files own.next (some file), own.next + 1⟩ := by
  have before : ∀ fd' number, notes.number fd' = some number → number ≠ notes.next :=
    fun fd' number noted => (mirrors.earlier fd' number noted).ne
  refine ⟨fun fd' number noted => ?_, fun fd' file' record => ?_, fun fd' fd'' number => ?_,
    fun fd' number noted => ?_, congrArg (· + 1) mirrors.next⟩
  · rcases eq_or_ne fd' fd with rfl | different
    · obtain rfl : notes.next = number := by simpa using noted
      exact ⟨file, by simp [mirrors.next], by simp [Server.setFd]⟩
    · have noted : notes.number fd' = some number := by simpa [different] using noted
      obtain ⟨file', mine', record⟩ := mirrors.file fd' number noted
      refine ⟨file', ?_, by simpa [Server.setFd, different] using record⟩
      simpa [mirrors.next, before fd' number noted] using mine'
  · rcases eq_or_ne fd' fd with rfl | different
    · exact ⟨notes.next, by simp⟩
    · simpa [different] using mirrors.noted fd' file' (by simpa [Server.setFd, different] using record)
  · intro first second
    rcases eq_or_ne fd' fd with rfl | different
    · obtain rfl : notes.next = number := by simpa using first
      by_contra other
      have second : notes.number fd'' = some notes.next := by simpa [Ne.symm other] using second
      exact before fd'' _ second rfl
    · have early : notes.number fd' = some number := by simpa [different] using first
      rcases eq_or_ne fd'' fd with rfl | different'
      · have late : notes.next = number := by simpa using second
        exact absurd late.symm (before fd' number early)
      · exact mirrors.single fd' fd'' number early (by simpa [different'] using second)
  · rcases eq_or_ne fd' fd with rfl | different
    · obtain rfl : notes.next = number := by simpa using noted
      exact Nat.lt_succ_self _
    · have noted : notes.number fd' = some number := by simpa [different] using noted
      exact (mirrors.earlier fd' number noted).trans (Nat.lt_succ_self _)

theorem Mirrors.accepted {client : Nat} {s : Server w} {notes : Notes w} {own : Own w} {fd : Int}
    {number : Nat} {file : File w} {request : Request w} (mirrors : Mirrors client s notes own)
    (noted : notes.number fd = some number) (record : s.fds fd = some (mine client file))
    (buf : Nat → Nat → UInt8) (exchanges : List (Ask w × Reply)) :
    Mirrors client
      ⟨Function.update s.fds fd ((request.act config client file).1.map (mine client)), buf⟩
      ⟨request.renumber notes.number fd, notes.next, exchanges⟩
      { own with files := Function.update own.files number (request.act config client file).1 } := by
  have others : ∀ fd' number', fd' ≠ fd → notes.number fd' = some number' → number' ≠ number :=
    fun fd' number' different noted' same => different
      (mirrors.single fd' fd number' noted' (same ▸ noted))
  rcases act_cases config client file request notes.number fd with
    ⟨file', still, same⟩ | ⟨closed, gone⟩
  · rw [still, same]
    refine ⟨fun fd' number' noted' => ?_, fun fd' file'' record' => ?_, mirrors.single,
      mirrors.earlier, mirrors.next⟩
    · rcases eq_or_ne fd' fd with rfl | different
      · obtain rfl := Option.some.inj (noted.symm.trans noted')
        exact ⟨file', by simp, by simp⟩
      · obtain ⟨file'', mine', record'⟩ := mirrors.file fd' number' noted'
        exact ⟨file'', by simpa [others fd' number' different noted'] using mine',
          by simpa [different] using record'⟩
    · rcases eq_or_ne fd' fd with rfl | different
      · exact ⟨number, noted⟩
      · exact mirrors.noted fd' file'' (by simpa [different] using record')
  · rw [closed, gone]
    have kept : ∀ fd' number', Function.update notes.number fd none fd' = some number' →
        fd' ≠ fd ∧ notes.number fd' = some number' := by
      intro fd' number' noted'
      rcases eq_or_ne fd' fd with rfl | different
      · simp at noted'
      · exact ⟨different, by simpa [different] using noted'⟩
    refine ⟨fun fd' number' noted' => ?_, fun fd' file' record' => ?_,
      fun fd' fd'' number' first second => ?_, fun fd' number' noted' => ?_, mirrors.next⟩
    · obtain ⟨different, noted'⟩ := kept fd' number' noted'
      obtain ⟨file', mine', record'⟩ := mirrors.file fd' number' noted'
      exact ⟨file', by simpa [others fd' number' different noted'] using mine',
        by simpa [different] using record'⟩
    · rcases eq_or_ne fd' fd with rfl | different
      · simp at record'
      · simpa [different] using mirrors.noted fd' file' (by simpa [different] using record')
    · exact mirrors.single fd' fd'' number' (kept fd' number' first).2 (kept fd'' number' second).2
    · exact mirrors.earlier fd' number' (kept fd' number' noted').2

theorem Mirrors.own {s s' : Server w} {notes : Notes w} {own : Own w} {event : Event w}
    {reply : Reply} (mirrors : Mirrors event.client s notes own)
    (did : Did config s event s' reply) :
    ∃ ask, (notes.write (event, reply)).exchanges =
        notes.exchanges ++ [(ask, (own.answer config event.client ask).2)] ∧
      Mirrors event.client s' (notes.write (event, reply))
        (own.answer config event.client ask).1 := by
  cases did with
  | @openFailed client name flags fd value room negative =>
    refine ⟨.openFailed value, ?_, ?_⟩
    · rw [Notes.write, if_pos negative]
      rfl
    · rw [Notes.write, if_pos negative]
      exact ⟨mirrors.file, mirrors.noted, mirrors.single, mirrors.earlier, mirrors.next⟩
  | @opened client name flags fd positive _ free =>
    refine ⟨.opened name flags, ?_, ?_⟩
    · rw [Notes.write, if_neg (Int.not_lt.mpr positive)]
      rfl
    · rw [Notes.write, if_neg (Int.not_lt.mpr positive)]
      exact mirrors.opened free (config.find name flags) _
  | @rejected event fd request asked foreign =>
    have absent := mirrors.absent foreign
    have same : request.renumber notes.number fd = notes.number := by
      cases request with
      | seek => rfl
      | read => rfl
      | close => exact Function.update_eq_self_iff.mpr absent.symm
    refine ⟨.file none request, ?_, ?_⟩
    · rw [write_request asked, absent]
      rfl
    · rw [write_request asked, same]
      exact ⟨mirrors.file, mirrors.noted, mirrors.single, mirrors.earlier, mirrors.next⟩
  | @accepted event fd request file buf asked record _ =>
    obtain ⟨number, noted⟩ := mirrors.noted fd file record
    obtain ⟨file', mine', record'⟩ := mirrors.file fd number noted
    -- both records are that of the descriptor
    obtain rfl : file = file' := by
      have same := Option.some.inj (record.symm.trans record')
      exact (FileData.mk.inj same).1
    refine ⟨.file (some number) request, ?_, ?_⟩
    · rw [write_request asked, noted, Own.answer, mine']
    · rw [write_request asked, Own.answer, mine']
      exact mirrors.accepted noted record buf _

/-! ## Runs -/

theorem init_regular (buf : Nat → Nat → UInt8) : (Server.init buf : Server w).Regular config :=
  nofun

theorem run_regular {buf : Nat → Nat → UInt8} {trace : List (Event w × Reply)} {s : Server w}
    (run : (machine config).Run (Server.init buf) trace s) : s.Regular config := by
  apply run.invariant (init_regular buf)
  exact fun _ _ _ _ regular allowed step => (step_did regular allowed step).regular regular

/-- The record of a descriptor names the client that has opened it and not closed it since. -/
theorem owner_eq_holder {buf : Nat → Nat → UInt8} {trace : List (Event w × Reply)} {s : Server w}
    (run : (machine config).Run (Server.init buf) trace s) : s.owner = holder trace := by
  induction run with
  | start => rfl
  | @next trace before after event reply run allowed step ih =>
    rw [holder_concat, ← ih]
    exact (step_did (run_regular run) allowed step).owner

theorem run_mirrors {buf : Nat → Nat → UInt8} {trace : List (Event w × Reply)} {s : Server w}
    (run : (machine config).Run (Server.init buf) trace s) (client : Nat) :
    ∃ own, (alone config client).Run ⟨fun _ => none, 0⟩ (notes client trace).exchanges own ∧
      Mirrors client s (notes client trace) own := by
  -- on the run: the notes so far are those of a run of the client's own server
  induction run with
  | start => exact ⟨_, .start, nofun, nofun, nofun, nofun, rfl⟩
  | @next trace before after event reply run allowed step ih =>
    obtain ⟨own, answers, mirrors⟩ := ih
    have did := step_did (run_regular run) allowed step
    -- the own server takes a step only for the events of its client
    by_cases here : event.client = client
    · subst here
      have more : notes event.client (trace ++ [(event, reply)]) =
          (notes event.client trace).write (event, reply) := by
        simp [notes, List.filter_append]
      obtain ⟨ask, exchanges, mirrors⟩ := mirrors.own did
      refine ⟨_, ?_, more ▸ mirrors⟩
      rw [more, exchanges]
      exact answers.on ask trivial rfl
    · have same : notes client (trace ++ [(event, reply)]) = notes client trace := by
        simp [notes, List.filter_append, here]
      rw [same]
      exact ⟨own, answers, mirrors.foreign did here⟩

/-- A step only touches what its client has opened, data goes to the client's own dataport, and a
request that is rejected and an open that fails change nothing. What a client is told depends on
what it asks, and not on any other client. -/
theorem clients_isolated {buf : Nat → Nat → UInt8} {trace : List (Event w × Reply)} {s : Server w}
    (run : (machine config).Run (Server.init buf) trace s) :
    (∀ event s' reply, (machine config).allowed s event →
      (machine config).step s event = some (s', reply) →
      Confined (holder trace) s event s' reply) ∧
    ∀ client buf' trace' s', (machine config).Run (Server.init buf') trace' s' →
      (notes client trace').exchanges.map Prod.fst = (notes client trace).exchanges.map Prod.fst →
      (notes client trace').exchanges = (notes client trace).exchanges := by
  refine ⟨fun event s' reply allowed step => ?_, fun client buf' trace' s' run' same => ?_⟩
  · rw [← owner_eq_holder run]
    exact (step_did (run_regular run) allowed step).confined
  · obtain ⟨_, answers, _⟩ := run_mirrors run client
    obtain ⟨_, answers', _⟩ := run_mirrors run' client
    exact answers'.eq_of_events answers same

/-- Client 1 opens the file and reads 4 bytes of it, before and after an open of client 2. -/
theorem clients_isolated_archive : ∃ s s' trace trace',
    (machine archive).Run (Server.init fun _ _ => 0) trace s ∧
    (machine archive).Run (Server.init fun _ _ => 0) trace' s' ∧
    (notes 1 trace').exchanges = (notes 1 trace).exchanges := by
  have first : (machine archive).Run (Server.init fun _ _ => 0) [] _ := .start
  have opened := first.on (.open 1 "hello" 0 3 true) (.inr ⟨rfl, rfl⟩) rfl
  have run := opened.on (.read 1 3 9) trivial rfl
  have taken := first.on (.open 2 "hello" 0 3 true) (.inr ⟨rfl, rfl⟩) rfl
  have opened' := taken.on (.open 1 "hello" 0 4 true) (.inr ⟨rfl, rfl⟩) rfl
  have run' := opened'.on (.read 1 4 9) trivial rfl
  exact ⟨_, _, _, _, run, run', (clients_isolated run).2 1 _ _ _ run' rfl⟩

end GlobalComponents.FileServer
