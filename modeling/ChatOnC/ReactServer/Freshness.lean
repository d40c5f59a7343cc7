import ChatOnC.ReactServer.PollSet

/-!
# Freshness of `revents`

The scan runs up to a count that an accept in the same scan has raised, and
`addFd` leaves the `revents` of the new entry as the memory holds them.

* `fresh_of_leftoverQuiet`: if these leftovers have no bit that the scan acts on,
  every `recv` and every `close` acts on what `poll` reported for that entry in
  the same iteration.
* `stale_readiness`: otherwise the server reads from a client that `poll` has not
  reported yet.
-/

namespace ChatOnC.ReactServer

open ChatOnC.Common

variable {k : Kernel} {s s' : State} {listener : ℕ}

/-- The bits that make the scan call `recv`, `accept` or `close`. -/
def actedBits : Revents := pollIn ||| hangupBits

/-- The `revents` that the entry written by `addFd` is left with: those of the
    entry behind the last one, or of fresh memory when the array grows. -/
def leftover (k : Kernel) (r : Reactor) : Option Revents :=
  if r.fdCount = r.fdSize then k.pfdsAlloc.map fun fresh => (fresh r.fdCount).revents
  else r.pfds[r.fdCount]?.map PollFd.revents

/-- `startReactor` stands before `accept`. -/
def Pc.accepting : Pc → Bool
  | .accept _ => true
  | _ => false

/-- A new entry is left without any bit that the scan acts on. -/
abbrev LeftoverQuiet (k : Kernel) (s : State) : Prop :=
  s.pc.accepting = true → k.accept.isSome = true →
    (leftover k s.reactor).all (fun revents => revents &&& actedBits = 0) = true

/-- An act on an entry is based on what `poll` reported for it in the same
    iteration. -/
def Act.Fresh : Act → Prop
  | .recvOn entry polled | .closed entry polled => polled = some entry
  | _ => True

/-- An entry that the scan may come to was reported by `poll`, or it has no bit
    that the scan acts on. -/
def ScanFresh (s : State) : Prop :=
  ∀ j p, j < s.reactor.fdCount → s.reactor.pfds[j]? = some p →
    s.reported[j]? = some p ∨ p.revents &&& actedBits = 0

/-- What holds where `startReactor` stands. -/
def FreshPhase (s : State) : Prop :=
  match s.pc with
  | .scan _ => ScanFresh s
  | .accept i | .hangup i => ScanFresh s ∧ i < s.reactor.fdCount
  | .recv i => ScanFresh s ∧ i < s.reactor.fdCount ∧
      ∀ p, s.reactor.pfds[i]? = some p → p.revents &&& pollIn ≠ 0
  | _ => True

structure FreshInv (s : State) : Prop where
  acts : ∀ a ∈ s.hist, a.Fresh
  phase : FreshPhase s

theorem and_of_actedBits {revents bits : Revents} (hbits : actedBits &&& bits = bits)
    (h : revents &&& actedBits = 0) : revents &&& bits = 0 := by
  rw [← hbits, ← BitVec.and_assoc, h]
  simp

/-- What a step records is fresh. -/
theorem fresh_records {acts : List Act} (hinv : FreshInv s) (h : Records k s acts) :
    ∀ a ∈ acts, a.Fresh := by
  have hphase := hinv.phase
  unfold FreshPhase at hphase
  have hrecv : ∀ i p, s.pc = .recv i → s.reactor.pfds[i]? = some p →
      s.reported[i]? = some p := by
    intro i p hpc hp
    rw [hpc] at hphase
    obtain ⟨hscan, hi, hin⟩ := hphase
    refine (hscan i p hi hp).resolve_right fun hquiet => hin p hp ?_
    exact and_of_actedBits (by decide) hquiet
  intro a ha
  cases h with
  | nothing => cases ha
  | accepted hpc haccept =>
    simp only [List.mem_cons, List.not_mem_nil, or_false] at ha
    rcases ha with rfl | rfl <;> trivial
  | received hpc hp =>
    rw [List.mem_singleton] at ha
    rw [ha]
    exact hrecv _ _ hpc hp
  | relayed hpc hp hl hrecv' hmsg =>
    rcases List.mem_cons.mp ha with rfl | ha
    · exact hrecv _ _ hpc hp
    · rcases List.mem_cons.mp ha with rfl | ha
      · trivial
      · obtain ⟨seq, dst, msg, result, rfl⟩ := mem_broadcast ha
        trivial
  | @closed i p hpc hp hbits =>
    simp only [List.mem_cons, List.not_mem_nil, or_false] at ha
    rcases ha with rfl | rfl
    · rw [hpc] at hphase
      obtain ⟨hscan, hi⟩ := hphase
      refine (hscan i p hi hp).resolve_right fun hquiet => hbits ?_
      exact and_of_actedBits (by decide) hquiet
    · trivial

/-- The new entry keeps the leftover. -/
theorem leftover_addFd {r r' : Reactor} {newfd : ℕ} {handler : EventHandler} (hsized : Sized r)
    (hadd : addFd k r newfd handler = .ok r') :
    ∃ p, r'.pfds[r.fdCount]? = some p ∧ p.fd = newfd ∧ leftover k r = some p.revents := by
  obtain ⟨-, -, -, -, p, hp, hfd, hold, hnew⟩ := hsized.addFd hadd
  refine ⟨p, hp, hfd, ?_⟩
  have hle := hsized.countLe
  rw [leftover]
  split_ifs with hfull
  · exact hnew hfull
  · exact hold (by omega)

theorem freshPhase_moves {pc : Pc} (hphase : FreshPhase s) (h : Moves k s pc) :
    FreshPhase (s.goto pc) := by
  unfold FreshPhase at hphase
  cases h with
  | idle hpc hi hp hrev =>
    rw [hpc] at hphase
    exact hphase
  | accepts hpc hi hp hl hin hfd =>
    rw [hpc] at hphase
    exact ⟨hphase, hi⟩
  | @receives i p l hpc hi hp hl hin hfd =>
    rw [hpc] at hphase
    refine ⟨hphase, hi, fun q hq => ?_⟩
    have hq' : s.reactor.pfds[i]? = some q := hq
    rw [hp] at hq'
    cases hq'
    exact hin
  | checks hpc hi hp hin =>
    rw [hpc] at hphase
    exact ⟨hphase, hi⟩
  | refused hpc haccept =>
    rw [hpc] at hphase
    exact hphase
  | healthy hpc hp hbits =>
    rw [hpc] at hphase
    exact hphase.1
  | _ => trivial

/-- Every step keeps the invariant. -/
theorem freshInv_step (hok : LeftoverQuiet k s) (hsized : Sized s.reactor) (hinv : FreshInv s)
    (h : Outcome k s s') : FreshInv s' := by
  refine ⟨?_, ?_⟩
  · obtain ⟨acts, hrec, hhist⟩ := h.records
    intro a ha
    rw [hhist] at ha
    rcases List.mem_append.mp ha with ha | ha
    · exact hinv.acts a ha
    · exact fresh_records hinv hrec a ha
  · have hphase := hinv.phase
    cases h with
    | moved h => exact freshPhase_moves hphase h
    | stopped h hrec => trivial
    | polled hpc hrun hpoll hlen =>
      intro j p hj hp
      left
      show (List.take _ _)[j]? = _
      rw [List.getElem?_take_of_lt hj]
      exact hp
    | @added i newfd r hpc haccept hadd =>
      unfold FreshPhase at hphase
      rw [hpc] at hphase
      obtain ⟨hscan, hi⟩ := hphase
      obtain ⟨-, hcount, -, hsame, -⟩ := hsized.addFd hadd
      refine ⟨fun j p hj hp => ?_, ?_⟩
      · have hp' : r.pfds[j]? = some p := hp
        have hj' : j < r.fdCount := hj
        by_cases hlast : j = s.reactor.fdCount
        · subst hlast
          right
          obtain ⟨q, hq, -, hleft⟩ := leftover_addFd hsized hadd
          rw [hq] at hp'
          cases hp'
          have hquiet := hok (by rw [hpc]; rfl) (by rw [haccept]; rfl)
          rw [hleft] at hquiet
          simpa using hquiet
        · rw [hsame j (by omega)] at hp'
          exact hscan j p (by omega) hp'
      · show i < r.fdCount
        omega
    | dropped hpc hp hrecv hroom =>
      unfold FreshPhase at hphase
      rw [hpc] at hphase
      exact hphase.1
    | relayed hpc hp hl hrecv hne hmsg =>
      unfold FreshPhase at hphase
      rw [hpc] at hphase
      exact ⟨hphase.1, hphase.2.1⟩
    | closed hpc hp hbits hroom =>
      unfold FreshPhase at hphase
      rw [hpc] at hphase
      exact hphase.1
    | deleted hpc hm hdel => trivial

/-- If the leftovers are quiet, every act on an entry is based on what `poll`
    reported for it in the same iteration. -/
theorem fresh_of_leftoverQuiet (h : (startReactor listener).Reach LeftoverQuiet s) :
    ∀ a ∈ s.hist, a.Fresh := by
  have hinv : FreshInv s := by
    refine h.invariant_of (I := FreshInv) (J := fun s => Sized s.reactor)
      (fun s hs => sized_reach hs) ?_ ?_
    · refine ⟨?_, trivial⟩
      intro a ha
      cases ha
    · intro k s s' hok hsized hinv hstep
      exact freshInv_step hok hsized hinv (step_outcome hstep)
  exact hinv.acts

/-- Client 5 joins, and sends in the next iteration. -/
def joinAndSend : List Kernel :=
  join 5 0 ++ [.ready 1 pollIn, .idle, .idle, .receives (ascii "hi")]

theorem fresh_joinAndSend :
    ∃ s, (startReactor 3).execIf LeftoverQuiet joinAndSend (startReactor 3).init = some s ∧
      s.hist[2]? = some (.recvOn ⟨5, pollIn, pollIn⟩ (some ⟨5, pollIn, pollIn⟩)) ∧
      ∀ a ∈ s.hist, a.Fresh := by
  have hrun : ((startReactor 3).execIf LeftoverQuiet joinAndSend (startReactor 3).init).map
      (fun s => s.hist[2]?) = some (some (.recvOn ⟨5, pollIn, pollIn⟩
        (some ⟨5, pollIn, pollIn⟩))) := by decide +kernel
  obtain ⟨s, hs, hact⟩ := Option.map_eq_some_iff.mp hrun
  have hreach : (startReactor 3).Reach LeftoverQuiet s := .of_execIf .init hs
  exact ⟨s, hs, hact, fresh_of_leftoverQuiet hreach⟩

/-- Clients 5 and 6 join; 6 leaves, and 7 takes its entry in the next iteration. -/
def reusedEntry : List Kernel :=
  [join 5 0, join 6 1,
    [.ready 2 pollIn, .idle, .idle, .idle, .receives [], .idle, .idle, .idle],
    [.ready 0 pollIn, .idle, .accepts 7, .idle, .idle, .idle, .receives []]].flatten

/-- In that run the server calls `recv` on client 7, which `poll` has not
    reported. -/
theorem stale_readiness :
    ¬ ∀ s, (startReactor 3).Reachable s → ∀ a ∈ s.hist, a.Fresh := by
  intro hall
  obtain ⟨s, hs, hact⟩ : ∃ s, (startReactor 3).exec reusedEntry (startReactor 3).init = some s ∧
      s.hist.getLast? = some (.recvOn ⟨7, pollIn, pollIn⟩ none) := ⟨_, rfl, rfl⟩
  have hfresh := hall s (.of_exec hs) _ (List.mem_of_getLast? hact)
  cases hfresh

end ChatOnC.ReactServer
