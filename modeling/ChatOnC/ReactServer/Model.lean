import ChatOnC.Common.CString
import ChatOnC.Common.System
import Mathlib.Algebra.Group.Nat.Defs

/-!
# The chat server (`task4_DesignPattern_Reactor/react_server.c`)

Model of the reactor: its registry of events, its poll set, and `startReactor`
as a transition system. A step is one test of a loop, one system call with what
follows it up to the next test, or one removal. What the kernel and the
allocator answer is the label of the step (`Kernel`).

An access outside an array, the call of a `NULL` handler and `exit(1)` end in
the state `stopped`. What the server did is recorded in a history (`Act`).
Descriptors are the non-negative numbers that `accept` and `socket` return.
-/

namespace ChatOnC.ReactServer

open ChatOnC.Common

/-! ## The reactor (lines 19–111) -/

/-- A function pointer; `none` is `NULL`. -/
abbrev EventHandler := Option ℕ

structure Event where
  id : ℕ
  handler : EventHandler
  deriving DecidableEq

/-- The bits of `revents`. -/
abbrev Revents := BitVec 16

def pollIn : Revents := 0x001
def pollErr : Revents := 0x008
def pollHup : Revents := 0x010
def pollNval : Revents := 0x020

/-- `POLLERR | POLLHUP | POLLNVAL` (line 351). -/
def hangupBits : Revents := pollErr ||| pollHup ||| pollNval

structure PollFd where
  fd : ℕ
  events : Revents
  revents : Revents
  deriving DecidableEq

/-- `events` is empty while the pointer is `NULL`; otherwise `events` and `pfds`
    are all that was allocated. -/
structure Reactor where
  events : List Event
  eventCount : ℕ
  running : Bool
  pfds : List PollFd
  fdCount : ℕ
  fdSize : ℕ

/-- The descriptors in `pfds[0 .. fd_count)`. -/
def Reactor.fds (r : Reactor) : List ℕ := (r.pfds.take r.fdCount).map PollFd.fd

/-- `createReactor` (lines 41–55). -/
def createReactor : Reactor where
  events := []
  eventCount := 0
  running := false
  pfds := []
  fdCount := 0
  fdSize := 5

/-- `realloc` to `n` elements: the old ones stay, the memory behind them is
    `fresh`. -/
def realloc {α : Type*} (old : List α) (n : ℕ) (fresh : ℕ → α) : List α :=
  (List.range n).map fun i => old.getD i (fresh i)

/-- `addEvent` (lines 58–69). When `realloc` fails, `events` is `NULL`. -/
def addEvent (r : Reactor) (id : ℕ) (handler : EventHandler) (alloc : Option (ℕ → Event)) :
    Reactor :=
  match alloc with
  | none => { r with events := [] }
  | some fresh =>
    { r with
      events := (realloc r.events (r.eventCount + 1) fresh).set r.eventCount ⟨id, handler⟩
      eventCount := r.eventCount + 1 }

/-- `stopReactor` (lines 73–75). -/
def stopReactor (r : Reactor) : Reactor := { r with running := false }

/-- What the loop of `handleEvent` comes to. -/
inductive Lookup
  | notFound
  | found (handler : EventHandler)
  | outOfBounds
  deriving DecidableEq

/-- The loop of `handleEvent` from index `i` on, with this many left (lines
    87–92). -/
def findEvent (events : List Event) (id : ℕ) : ℕ → ℕ → Lookup
  | _, 0 => .notFound
  | i, left + 1 =>
    match events[i]? with
    | none => .outOfBounds
    | some e => if e.id = id then .found e.handler else findEvent events id (i + 1) left

/-- The entry that `handleEvent` looks for (lines 86–95). -/
def lookup (r : Reactor) (id : ℕ) : Lookup := findEvent r.events id 0 r.eventCount

/-! ## What the environment answers -/

/-- `send` returns a count, or -1 with `errno` `EWOULDBLOCK` or `EAGAIN`, or -1
    with another one. -/
inductive SendResult
  | sent
  | wouldBlock
  | failed
  deriving DecidableEq

/-- The answers to what a step asks. `none` is -1 or `NULL`; the fresh memory of
    an allocation has arbitrary contents, and a call of `NULL` may trap or
    return. -/
structure Kernel where
  poll : Option (ℕ → Revents) := none
  accept : Option ℕ := none
  recv : Option (List UInt8) := none
  send : ℕ → SendResult := fun _ => .sent
  pfdsAlloc : Option (ℕ → PollFd) := none
  eventsAlloc : Option (ℕ → Event) := none
  nullCallReturns : Bool := false

namespace Kernel

/-- A step that asks nothing. -/
def idle : Kernel := {}

/-- `poll` reports these bits for entry `i` and nothing for the others. -/
def ready (i : ℕ) (bits : Revents) : Kernel := { poll := some fun j => if j = i then bits else 0 }

/-- `accept` returns `fd`, and its registration finds memory. -/
def accepts (fd : ℕ) : Kernel := { accept := some fd, eventsAlloc := some fun _ => ⟨0, none⟩ }

/-- `accept` returns `fd`, and there is no memory for its registration. -/
def acceptsUnregistered (fd : ℕ) : Kernel := { accept := some fd }

/-- `recv` returns these bytes. -/
def receives (chunk : List UInt8) : Kernel := { recv := some chunk }

end Kernel

/-- Why the server stopped. -/
inductive Stop
  | exit
  | pfdsIndex
  | removeIndex
  | overflow
  | eventsIndex
  | nullHandler
  | message
  deriving DecidableEq

/-- What the server did. `polled` is the entry that `poll` left at the same index
    in this iteration, `clients` the descriptors in `pfds[1 .. fd_count)`. -/
inductive Act
  | accepted (fd : ℕ)
  | handled (id : ℕ) (found : Lookup)
  | recvOn (entry : PollFd) (polled : Option PollFd)
  | closed (entry : PollFd) (polled : Option PollFd)
  | data (seq src : ℕ) (msg : List UInt8) (clients : List ℕ)
  | sent (seq dst : ℕ) (msg : List UInt8) (result : SendResult)
  deriving DecidableEq

/-! ## `startReactor` (lines 222–368) -/

/-- Where `startReactor` stands. -/
inductive Pc
  /-- before the test of `running` and `poll` (lines 234–235) -/
  | poll
  /-- before the loop test and the tests of `revents` (lines 247–252) -/
  | scan (i : ℕ)
  /-- before `accept` (line 260) -/
  | accept (i : ℕ)
  /-- before `recv` (line 284) -/
  | recv (i : ℕ)
  /-- before the test for an error or hang-up (line 351) -/
  | hangup (i : ℕ)
  /-- before the loop test of the removal (line 364) -/
  | remove (m : ℕ)
  | returned
  | stopped (why : Stop)
  deriving DecidableEq

/-- `removeLen` is the length `descriptorsToRemove` was declared with. `reported`
    and `hist` are history: the entries as `poll` left them in this iteration,
    and what the server did. -/
structure State where
  reactor : Reactor
  pc : Pc
  descriptorsToRemove : List ℕ
  removeLen : ℕ
  reported : List PollFd
  hist : List Act

namespace State

variable (s : State)

def goto (pc : Pc) : State := { s with pc := pc }

def stop (why : Stop) : State := s.goto (.stopped why)

def log (acts : List Act) : State := { s with hist := s.hist ++ acts }

/-- The descriptors in `pfds[1 .. fd_count)`. -/
def clients : List ℕ := s.reactor.fds.drop 1

/-- `handleEvent(reactor, id, NULL)`, and what follows it. -/
def handleEvent (k : Kernel) (id : ℕ) (next : State → State) : State :=
  match lookup s.reactor id with
  | .notFound => next (s.log [.handled id .notFound])
  | .found none =>
    if k.nullCallReturns then next (s.log [.handled id (.found none)])
    else (s.log [.handled id (.found none)]).stop .nullHandler
  | .found (some h) => next (s.log [.handled id (.found (some h))])
  | .outOfBounds => (s.log [.handled id .outOfBounds]).stop .eventsIndex

/-- `descriptorsToRemove[descriptorsToRemoveCount++] = i`, and what follows it. -/
def pushRemove (i : ℕ) (next : State → State) : State :=
  if s.descriptorsToRemove.length < s.removeLen then
    next { s with descriptorsToRemove := s.descriptorsToRemove ++ [i] }
  else s.stop .removeIndex

end State

/-- The largest `int`. -/
def intMax : ℕ := 2 ^ 31 - 1

/-- The room that `addFd` makes (lines 188–196). -/
def growPfds (r : Reactor) (alloc : Option (ℕ → PollFd)) : Except Stop Reactor :=
  if r.fdCount = r.fdSize then
    if intMax < r.fdSize * 2 then .error .overflow
    else match alloc with
      | none => .error .exit
      | some fresh =>
        .ok { r with pfds := realloc r.pfds (r.fdSize * 2) fresh, fdSize := r.fdSize * 2 }
  else .ok r

/-- `addFd` (lines 186–203). The `revents` of the new entry are what the memory
    holds. -/
def addFd (k : Kernel) (r : Reactor) (newfd : ℕ) (handler : EventHandler) :
    Except Stop Reactor := do
  let r ← growPfds r k.pfdsAlloc
  match r.pfds[r.fdCount]? with
  | none => .error .pfdsIndex
  | some p =>
    .ok (addEvent
      { r with
        pfds := r.pfds.set r.fdCount { p with fd := newfd, events := pollIn }
        fdCount := r.fdCount + 1 }
      newfd handler k.eventsAlloc)

/-- `del_from_pfds` (lines 206–219). -/
def delFromPfds (r : Reactor) (i : ℕ) : Except Stop Reactor :=
  if r.fdCount = 0 ∨ r.pfds.length ≤ i then .error .pfdsIndex
  else match r.pfds[r.fdCount - 1]? with
    | none => .error .pfdsIndex
    | some last =>
      let r := { r with pfds := r.pfds.set i last, fdCount := r.fdCount - 1 }
      .ok (if r.fdCount = 1 then stopReactor r else r)

/-- What `recv` put into `buf`, prefixed for the other clients (lines 283 and
    300–305); `none` if a write leaves `buf`, `num_c` or `msg`. -/
def assembleMsg (fd : ℕ) (chunk : List UInt8) : Option (List UInt8) := do
  let num := ascii (toString fd)
  if chunk.length < 256 ∧ num.length + 1 ≤ 5 then
    let msg := overwrite (List.replicate 256 0) 0 (ascii "Client socket ")
    let msg ← strcat msg num
    let msg ← strcat msg (ascii ": ")
    strcat msg (cString (chunk ++ [0]))
  else none

/-- The loop that sends to everyone (lines 307–320) over the entries from index
    `j` on, and whether it came to its end. -/
def broadcast (k : Kernel) (listener me seq : ℕ) (msg : List UInt8) :
    ℕ → List PollFd → List Act × Bool
  | _, [] => ([], true)
  | j, p :: ps =>
    if p.fd ≠ listener ∧ p.fd ≠ me then
      if k.send j = .failed then ([.sent seq p.fd msg .failed], false)
      else
        (.sent seq p.fd msg (k.send j) :: (broadcast k listener me seq msg (j + 1) ps).1,
          (broadcast k listener me seq msg (j + 1) ps).2)
    else broadcast k listener me seq msg (j + 1) ps

def Act.isData : Act → Bool
  | .data .. => true
  | _ => false

/-- `poll` writes `revents` of the first `n` entries. -/
def writeRevents (revents : ℕ → Revents) (n : ℕ) (pfds : List PollFd) : List PollFd :=
  pfds.mapIdx fun i p => if i < n then { p with revents := revents i } else p

/-- Lines 234–244. -/
def pollStep (k : Kernel) (s : State) : State :=
  if s.reactor.running = false then s.goto .returned
  else match k.poll with
    | none => s.stop .exit
    | some revents =>
      if s.reactor.pfds.length < s.reactor.fdCount then s.stop .pfdsIndex
      else
        let pfds := writeRevents revents s.reactor.fdCount s.reactor.pfds
        { s with
          reactor := { s.reactor with pfds := pfds }
          pc := .scan 0
          descriptorsToRemove := []
          removeLen := s.reactor.fdCount
          reported := pfds.take s.reactor.fdCount }

/-- Lines 247–252. -/
def scanStep (i : ℕ) (s : State) : State :=
  if i < s.reactor.fdCount then
    match s.reactor.pfds[i]?, s.reactor.pfds[0]? with
    | some p, some listener =>
      if p.revents = 0 then s.goto (.scan (i + 1))
      else if p.revents &&& pollIn ≠ 0 then
        if p.fd = listener.fd then s.goto (.accept i) else s.goto (.recv i)
      else s.goto (.hangup i)
    | _, _ => s.stop .pfdsIndex
  else s.goto (.remove 0)

/-- Lines 259–279. -/
def acceptStep (k : Kernel) (i : ℕ) (s : State) : State :=
  match k.accept with
  | none => s.goto (.hangup i)
  | some newfd =>
    (s.log [.accepted newfd]).handleEvent k newfd fun s =>
      match addFd k s.reactor newfd none with
      | .error why => s.stop why
      | .ok r => { s with reactor := r, pc := .hangup i }

/-- Lines 282–322. -/
def recvStep (k : Kernel) (i : ℕ) (s : State) : State :=
  match s.reactor.pfds[i]?, s.reactor.pfds[0]? with
  | some p, some listener =>
    let s := s.log [.recvOn p s.reported[i]?]
    match k.recv with
    | none | some [] => s.pushRemove i fun s => s.goto (.scan (i + 1))
    | some chunk =>
      match assembleMsg p.fd chunk with
      | none => s.stop .message
      | some msg =>
        if s.reactor.pfds.length < s.reactor.fdCount then s.stop .pfdsIndex
        else
          let seq := s.hist.countP Act.isData
          let sends := broadcast k listener.fd p.fd seq msg 0
            (s.reactor.pfds.take s.reactor.fdCount)
          let s := s.log (.data seq p.fd msg s.clients :: sends.1)
          if sends.2 then s.goto (.hangup i) else s.stop .exit
  | _, _ => s.stop .pfdsIndex

/-- Lines 351–359. -/
def hangupStep (k : Kernel) (i : ℕ) (s : State) : State :=
  match s.reactor.pfds[i]? with
  | none => s.stop .pfdsIndex
  | some p =>
    if p.revents &&& hangupBits ≠ 0 then
      (s.log [.closed p s.reported[i]?]).handleEvent k p.fd fun s =>
        s.pushRemove i fun s => s.goto (.scan (i + 1))
    else s.goto (.scan (i + 1))

/-- Lines 364–366. -/
def removeStep (m : ℕ) (s : State) : State :=
  match s.descriptorsToRemove[m]? with
  | none => s.goto .poll
  | some i =>
    match delFromPfds s.reactor i with
    | .error why => s.stop why
    | .ok r => { s with reactor := r, pc := .remove (m + 1) }

/-- The reactor as `main` and the head of `startReactor` leave it (lines 385–404
    and 227–228): five zeroed entries, the first of them the listener's. -/
def startedReactor (listener : ℕ) : Reactor :=
  { createReactor with
    running := true
    pfds := ⟨listener, pollIn, 0⟩ :: List.replicate 4 ⟨0, 0, 0⟩
    fdCount := 1 }

/-- The main loop of `startReactor`. -/
def startReactor (listener : ℕ) : System State Kernel where
  init :=
    { reactor := startedReactor listener, pc := .poll, descriptorsToRemove := [], removeLen := 0,
      reported := [], hist := [] }
  step k s :=
    match s.pc with
    | .poll => some (pollStep k s)
    | .scan i => some (scanStep i s)
    | .accept i => some (acceptStep k i s)
    | .recv i => some (recvStep k i s)
    | .hangup i => some (hangupStep k i s)
    | .remove m => some (removeStep m s)
    | .returned => none
    | .stopped _ => none

/-- The answers of an iteration in which `fd` joins `n` clients that are not
    ready. -/
def join (fd n : ℕ) : List Kernel :=
  [.ready 0 pollIn, .idle, .accepts fd] ++ List.replicate (n + 4) .idle

/-- The same, and its registration fails. -/
def joinUnregistered (fd n : ℕ) : List Kernel :=
  [.ready 0 pollIn, .idle, .acceptsUnregistered fd] ++ List.replicate (n + 4) .idle

end ChatOnC.ReactServer
