import ChatOnC.Common.SwapRemove
import ChatOnC.ReactServer.Steps

/-!
# The poll set over whole runs

`Sized` and `PollSet` say what an array of `pollfd`s with its count and size must
look like: nothing beyond what was allocated, the listener first, and other
descriptors behind it. Every operation on the reactor keeps them. `PollInv` adds,
by where `startReactor` stands, how far the scan and the removal have come.

* `sized_reach`: the sizes are right in every run.
* `pollInv_reach`: the invariant holds as long as `poll` reports no error on the
  listener and `accept` does not return the listener.
* `fds_addFd`, `fds_delFromPfds`: what the operations do to the descriptors.
* `pollSet_discipline`: with a sound listener and a bounded count, no index leaves
  its array and `running` is cleared exactly by an iteration that removed the last
  client.
-/

namespace ChatOnC.ReactServer

open ChatOnC.Common

variable {k : Kernel} {s s' : State} {r r' : Reactor} {listener : ℕ}

/-! ## The array -/

/-- The count does not exceed the size, and the size is what was allocated. -/
structure Sized (r : Reactor) : Prop where
  length : r.pfds.length = r.fdSize
  countLe : r.fdCount ≤ r.fdSize
  sizePos : 0 < r.fdSize

/-- The listener is at index 0 and nowhere else. -/
structure PollSet (listener : ℕ) (r : Reactor) : Prop extends Sized r where
  countPos : 1 ≤ r.fdCount
  first : ∃ p, r.pfds[0]? = some p ∧ p.fd = listener
  rest : ∀ i p, 1 ≤ i → i < r.fdCount → r.pfds[i]? = some p → p.fd ≠ listener

/-- An index below the count has an entry. -/
theorem Sized.getElem (h : Sized r) {i : ℕ} (hi : i < r.fdCount) : ∃ p, r.pfds[i]? = some p := by
  have hlen := h.length
  have hle := h.countLe
  exact ⟨_, List.getElem?_eq_getElem (by omega)⟩

theorem PollSet.fd_ne (h : PollSet listener r) {i : ℕ} {p q : PollFd} (hp : r.pfds[i]? = some p)
    (hi : i < r.fdCount) (hq : r.pfds[0]? = some q) (h1 : 1 ≤ i) : p.fd ≠ q.fd := by
  obtain ⟨q', hq', hfd⟩ := h.first
  rw [hq] at hq'
  cases hq'
  rw [hfd]
  exact h.rest i p h1 hi hp

theorem getElem?_writeRevents {revents : ℕ → Revents} {n i : ℕ} {pfds : List PollFd} :
    (writeRevents revents n pfds)[i]? =
      pfds[i]?.map fun p => if i < n then { p with revents := revents i } else p := by
  simp [writeRevents]

theorem length_writeRevents {revents : ℕ → Revents} {n : ℕ} {pfds : List PollFd} :
    (writeRevents revents n pfds).length = pfds.length := by
  simp [writeRevents]

/-- `poll` writes `revents` only. -/
theorem fd_writeRevents {revents : ℕ → Revents} {n i : ℕ} {pfds : List PollFd} {p : PollFd}
    (hp : (writeRevents revents n pfds)[i]? = some p) :
    ∃ q, pfds[i]? = some q ∧ q.fd = p.fd ∧ (i < n → p.revents = revents i) := by
  rw [getElem?_writeRevents] at hp
  obtain ⟨q, hq, rfl⟩ := Option.map_eq_some_iff.mp hp
  refine ⟨q, hq, ?_, fun hi => ?_⟩
  · split_ifs <;> rfl
  · rw [if_pos hi]

theorem Sized.poll (h : Sized r) (revents : ℕ → Revents) (n : ℕ) :
    Sized { r with pfds := writeRevents revents n r.pfds } where
  length := by
    show (writeRevents revents n r.pfds).length = _
    rw [length_writeRevents, h.length]
  countLe := h.countLe
  sizePos := h.sizePos

theorem PollSet.poll (h : PollSet listener r) (revents : ℕ → Revents) (n : ℕ) :
    PollSet listener { r with pfds := writeRevents revents n r.pfds } where
  toSized := h.toSized.poll revents n
  countPos := h.countPos
  first := by
    obtain ⟨q, hq, hfd⟩ := h.first
    show ∃ p, (writeRevents revents n r.pfds)[0]? = some p ∧ p.fd = listener
    rw [getElem?_writeRevents, hq]
    refine ⟨_, rfl, ?_⟩
    split_ifs <;> exact hfd
  rest := by
    intro i p h1 hi hp
    obtain ⟨q, hq, hfd, -⟩ := fd_writeRevents hp
    rw [← hfd]
    exact h.rest i q h1 hi hq

/-- The growth leaves room for one more entry. -/
theorem Sized.growPfds (h : Sized r) {alloc : Option (ℕ → PollFd)}
    (hg : growPfds r alloc = .ok r') : r'.fdCount < r'.pfds.length := by
  have hlen := h.length
  have hle := h.countLe
  have hpos := h.sizePos
  obtain ⟨hcount, -, -, -, ⟨hpfds, -, hne⟩ | ⟨heq, -, fresh, -, hpfds⟩⟩ := growPfds_eq_ok hg
  · rw [hcount, hpfds]
    omega
  · rw [hcount, hpfds, length_realloc]
    omega

/-- Only the growth can fail. -/
theorem Sized.addFd_eq_error (h : Sized r) {newfd : ℕ} {handler : EventHandler} {why : Stop}
    (hadd : addFd k r newfd handler = .error why) :
    why = .exit ∨ why = .overflow ∧ r.fdCount = r.fdSize ∧ intMax < r.fdSize * 2 := by
  cases hg : ReactServer.growPfds r k.pfdsAlloc with
  | error why' =>
    rw [addFd_of_error hg] at hadd
    cases hadd
    exact growPfds_eq_error hg
  | ok g =>
    rw [addFd_of_some hg (List.getElem?_eq_getElem (h.growPfds hg))] at hadd
    cases hadd

/-- After `addFd` the entries that were there are there, and the one behind them
    has the new descriptor. -/
theorem Sized.addFd (h : Sized r) {newfd : ℕ} {handler : EventHandler}
    (hadd : addFd k r newfd handler = .ok r') :
    Sized r' ∧ r'.fdCount = r.fdCount + 1 ∧ r'.running = r.running ∧
      (∀ i, i < r.fdCount → r'.pfds[i]? = r.pfds[i]?) ∧
      ∃ p, r'.pfds[r.fdCount]? = some p ∧ p.fd = newfd ∧
        (r.fdCount < r.fdSize → (r.pfds[r.fdCount]?).map PollFd.revents = some p.revents) ∧
        (r.fdCount = r.fdSize →
          k.pfdsAlloc.map (fun fresh => (fresh r.fdCount).revents) = some p.revents) := by
  obtain ⟨g, p, hg, hp, rfl⟩ := addFd_eq_ok hadd
  obtain ⟨hcount, hrun, -, -, hroom⟩ := growPfds_eq_ok hg
  obtain ⟨hpfds, hcount', hsize, hrun'⟩ := addEvent_frame
    { g with
      pfds := g.pfds.set g.fdCount { p with fd := newfd, events := pollIn }
      fdCount := g.fdCount + 1 } newfd handler k.eventsAlloc
  rw [hpfds, hcount', hrun']
  have hlen := h.length
  have hle := h.countLe
  have hpos := h.sizePos
  have hlt : g.fdCount < g.pfds.length := (List.getElem?_eq_some_iff.mp hp).1
  have hset : ∀ q, (g.pfds.set g.fdCount q)[r.fdCount]? = some q := by
    intro q
    rw [← hcount, List.getElem?_set_self hlt]
  have hother : ∀ q i, i < r.fdCount → (g.pfds.set g.fdCount q)[i]? = g.pfds[i]? := by
    intro q i hi
    exact List.getElem?_set_ne (by omega)
  have hsized : g.pfds.length = g.fdSize → g.fdCount + 1 ≤ g.fdSize →
      Sized (addEvent
        { g with
          pfds := g.pfds.set g.fdCount { p with fd := newfd, events := pollIn }
          fdCount := g.fdCount + 1 } newfd handler k.eventsAlloc) := by
    intro hglen hgle
    refine ⟨?_, ?_, ?_⟩
    · rw [hpfds, hsize, List.length_set]
      exact hglen
    · rw [hcount', hsize]
      exact hgle
    · rw [hsize]
      show 0 < g.fdSize
      omega
  rcases hroom with ⟨hgp, hgs, hne⟩ | ⟨heq, hgs, fresh, halloc, hgp⟩
  · refine ⟨hsized (by rw [hgp, hgs, hlen]) (by omega), by simp [hcount], hrun, ?_, _, hset _,
      rfl, ?_, ?_⟩
    · intro i hi
      rw [hother _ i hi, hgp]
    · intro _
      rw [← hcount, ← hgp, hp]
      rfl
    · intro heq
      omega
  · refine ⟨hsized (by rw [hgp, hgs, length_realloc]) (by omega), by simp [hcount], hrun, ?_, _,
      hset _, rfl, ?_, ?_⟩
    · intro i hi
      rw [hother _ i hi, hgp, getElem?_realloc (by omega) (by omega)]
    · intro hlt'
      omega
    · intro _
      rw [hcount, hgp, getElem?_realloc_fresh (show r.fdCount < r.fdSize * 2 by omega)
        (show r.pfds.length ≤ r.fdCount by omega)] at hp
      cases hp
      rw [halloc]
      rfl

theorem PollSet.addFd (h : PollSet listener r) {newfd : ℕ} {handler : EventHandler}
    (hne : newfd ≠ listener) (hadd : addFd k r newfd handler = .ok r') :
    PollSet listener r' := by
  obtain ⟨hsized, hcount, -, hsame, p, hp, hfd, -, -⟩ := h.toSized.addFd hadd
  have hpos := h.countPos
  refine ⟨hsized, by omega, ?_, ?_⟩
  · rw [hsame 0 (by omega)]
    exact h.first
  · intro i q h1 hi hq
    by_cases hlast : i = r.fdCount
    · subst hlast
      rw [hp] at hq
      cases hq
      rw [hfd]
      exact hne
    · rw [hsame i (by omega)] at hq
      exact h.rest i q h1 (by omega) hq

theorem Sized.delFromPfds (h : Sized r) {i : ℕ} (hdel : delFromPfds r i = .ok r') : Sized r' := by
  obtain ⟨-, -, last, -, hpfds, hcount, hsize, -⟩ := delFromPfds_eq_ok hdel
  have hle := h.countLe
  refine ⟨?_, by omega, ?_⟩
  · rw [hpfds, List.length_set, hsize, h.length]
  · rw [hsize]
    exact h.sizePos

theorem PollSet.delFromPfds (h : PollSet listener r) {i : ℕ} (h1 : 1 ≤ i) (hcount : 2 ≤ r.fdCount)
    (hdel : delFromPfds r i = .ok r') : PollSet listener r' := by
  obtain ⟨-, hi, last, hlast, hpfds, hcount', -⟩ := delFromPfds_eq_ok hdel
  refine ⟨h.toSized.delFromPfds hdel, by omega, ?_, ?_⟩
  · rw [hpfds, List.getElem?_set_ne (by omega)]
    exact h.first
  · intro j q hj1 hj hq
    rw [hpfds] at hq
    by_cases hji : j = i
    · subst hji
      rw [List.getElem?_set_self hi] at hq
      cases hq
      exact h.rest _ _ (by omega) (by omega) hlast
    · rw [List.getElem?_set_ne (Ne.symm hji)] at hq
      exact h.rest j q hj1 (by omega) hq

/-! ## The descriptors -/

theorem getElem?_fds (r : Reactor) {i : ℕ} (hi : i < r.fdCount) :
    r.fds[i]? = r.pfds[i]?.map PollFd.fd := by
  rw [Reactor.fds, List.getElem?_map, List.getElem?_take_of_lt hi]

theorem Sized.length_fds (h : Sized r) : r.fds.length = r.fdCount := by
  have hlen := h.length
  have hle := h.countLe
  rw [Reactor.fds, List.length_map, List.length_take]
  omega

/-- `poll` changes no descriptor. -/
theorem fds_poll (r : Reactor) (revents : ℕ → Revents) :
    { r with pfds := writeRevents revents r.fdCount r.pfds }.fds = r.fds := by
  apply List.ext_getElem?
  intro i
  by_cases hi : i < r.fdCount
  · have hget := getElem?_fds { r with pfds := writeRevents revents r.fdCount r.pfds } hi
    rw [hget, getElem?_fds r hi, getElem?_writeRevents, Option.map_map]
    congr 1
    funext p
    show (if i < r.fdCount then _ else p).fd = p.fd
    rw [if_pos hi]
  · simp only [Reactor.fds, List.getElem?_map, List.getElem?_take]
    rw [if_neg hi, if_neg hi]

/-- `addFd` appends the descriptor. -/
theorem fds_addFd (h : Sized r) {newfd : ℕ} {handler : EventHandler}
    (hadd : addFd k r newfd handler = .ok r') : r'.fds = r.fds ++ [newfd] := by
  obtain ⟨hsized, hcount, -, hsame, p, hp, hfd, -⟩ := h.addFd hadd
  have hlen := h.length_fds
  have hlen' := hsized.length_fds
  apply List.ext_getElem?
  intro i
  rcases Nat.lt_trichotomy i r.fdCount with hi | rfl | hi
  · rw [List.getElem?_append_left (by omega), getElem?_fds r hi, getElem?_fds r' (by omega),
      hsame i hi]
  · rw [List.getElem?_append_right (by omega), getElem?_fds r' (by omega), hp, hlen, Nat.sub_self]
    exact congrArg some hfd
  · rw [List.getElem?_eq_none (by omega), List.getElem?_eq_none]
    rw [List.length_append, List.length_singleton]
    omega

/-- `delFromPfds` moves the last descriptor into the place. -/
theorem fds_delFromPfds (h : Sized r) {i : ℕ} (hdel : delFromPfds r i = .ok r') :
    r'.fds = swapRemove r.fds i := by
  obtain ⟨hpos, hi, last, hlast, hpfds, hcount, -⟩ := delFromPfds_eq_ok hdel
  have hlen := h.length_fds
  have hlen' := (h.delFromPfds hdel).length_fds
  apply List.ext_getElem?
  intro j
  by_cases hj : j + 1 < r.fdCount
  · rw [getElem?_swapRemove (by omega), getElem?_fds r' (by omega), hpfds]
    split_ifs with hji
    · subst hji
      rw [List.getElem?_set_self hi, hlen, getElem?_fds r (by omega), hlast]
    · rw [List.getElem?_set_ne (Ne.symm hji), getElem?_fds r (by omega)]
  · rw [List.getElem?_eq_none (by omega), List.getElem?_eq_none]
    rw [length_swapRemove]
    omega

/-- The removal of one more listed index. -/
theorem fds_delFromPfds_take (h : Sized r) {fds removed : List ℕ} {m i : ℕ}
    (hfds : r.fds = (removed.take m).foldl swapRemove fds) (hm : removed[m]? = some i)
    (hdel : delFromPfds r i = .ok r') : r'.fds = (removed.take (m + 1)).foldl swapRemove fds := by
  rw [List.take_add_one, hm, List.foldl_append, ← hfds, fds_delFromPfds h hdel]
  rfl

theorem nodup_addFd (h : Sized r) (hnodup : r.fds.Nodup) {newfd : ℕ} {handler : EventHandler}
    (hnew : newfd ∉ r.fds) (hadd : addFd k r newfd handler = .ok r') : r'.fds.Nodup := by
  rw [fds_addFd h hadd, List.nodup_append]
  refine ⟨hnodup, List.nodup_singleton newfd, fun fd hmem fd' hmem' heq => ?_⟩
  rw [heq, List.mem_singleton.mp hmem'] at hmem
  exact hnew hmem

theorem nodup_delFromPfds (h : Sized r) (hnodup : r.fds.Nodup) {i : ℕ}
    (hdel : delFromPfds r i = .ok r') : r'.fds.Nodup := by
  rw [fds_delFromPfds h hdel]
  exact nodup_swapRemove hnodup i

/-- The listener, and the clients behind it. -/
theorem PollSet.fds_eq (h : PollSet listener r) :
    r.fds = listener :: r.fds.drop 1 ∧ listener ∉ r.fds.drop 1 := by
  have hpos := h.countPos
  refine ⟨?_, fun hmem => ?_⟩
  · obtain ⟨p, hp, hfd⟩ := h.first
    have hget := getElem?_fds r (show 0 < r.fdCount by omega)
    rw [hp, ← List.head?_eq_getElem?] at hget
    cases hfds : r.fds with
    | nil =>
      rw [hfds] at hget
      cases hget
    | cons fd fds =>
      rw [hfds] at hget
      cases hget
      rw [hfd]
      rfl
  · obtain ⟨j, hj⟩ := List.mem_iff_getElem?.mp hmem
    rw [List.getElem?_drop] at hj
    have hlt := (List.getElem?_eq_some_iff.mp hj).1
    rw [h.toSized.length_fds] at hlt
    rw [getElem?_fds r hlt] at hj
    obtain ⟨p, hp, hfd⟩ := Option.map_eq_some_iff.mp hj
    exact h.rest _ p (by omega) hlt hp hfd

theorem sized_init : Sized (startedReactor listener) := by
  refine ⟨rfl, ?_, ?_⟩
  · show 1 ≤ 5
    omega
  · show 0 < 5
    omega

theorem sized_step (hsized : Sized s.reactor) (h : Outcome k s s') : Sized s'.reactor := by
  cases h with
  | moved h => exact hsized
  | stopped h hrec => exact hsized
  | polled hpc hrun hpoll hlen => exact hsized.poll _ _
  | added hpc haccept hadd => exact (hsized.addFd hadd).1
  | dropped hpc hp hrecv hroom => exact hsized
  | relayed hpc hp hl hrecv hne hmsg => exact hsized
  | closed hpc hp hbits hroom => exact hsized
  | deleted hpc hm hdel => exact hsized.delFromPfds hdel

/-- The sizes are right in every run. -/
theorem sized_reach {ok : Kernel → State → Prop} (h : (startReactor listener).Reach ok s) :
    Sized s.reactor :=
  h.invariant (I := fun s => Sized s.reactor) sized_init fun _ _ _ _ hsized hstep =>
    sized_step hsized (step_outcome hstep)

/-! ## The scan and the removal -/

/-- The list of removals while the scan stands at index `i`: the indices are
    behind the listener's and before `i`, in order. `fd_count` may have grown by
    one since the list was declared. -/
structure Scanning (i : ℕ) (s : State) : Prop where
  running : s.reactor.running = true
  increasing : s.descriptorsToRemove.Pairwise (· < ·)
  bounds : ∀ x ∈ s.descriptorsToRemove, 1 ≤ x ∧ x < i
  short : s.descriptorsToRemove.length ≤ i - 1
  index : i ≤ s.reactor.fdCount
  grown : s.reactor.fdCount ≤ s.removeLen + 1
  healthy : ∀ p, s.reactor.pfds[0]? = some p → p.revents &&& hangupBits = 0

theorem Scanning.congr {i : ℕ} (h : Scanning i s) (hreactor : s'.reactor = s.reactor)
    (hlist : s'.descriptorsToRemove = s.descriptorsToRemove) (hlen : s'.removeLen = s.removeLen) :
    Scanning i s' := by
  obtain ⟨hrun, hinc, hbounds, hshort, hindex, hgrown, hhealthy⟩ := h
  rw [← hreactor] at hrun hindex hgrown hhealthy
  rw [← hlist] at hinc hbounds hshort
  rw [← hlen] at hgrown
  exact ⟨hrun, hinc, hbounds, hshort, hindex, hgrown, hhealthy⟩

/-- The scan goes on to the next index, with nothing to remove at this one. -/
theorem Scanning.next {i : ℕ} (h : Scanning i s) (hi : i < s.reactor.fdCount)
    (hreactor : s'.reactor = s.reactor)
    (hlist : s'.descriptorsToRemove = s.descriptorsToRemove) (hlen : s'.removeLen = s.removeLen) :
    Scanning (i + 1) s' := by
  have h' : Scanning i s' := h.congr hreactor hlist hlen
  obtain ⟨hrun, hinc, hbounds, hshort, -, hgrown, hhealthy⟩ := h'
  refine ⟨hrun, hinc, fun x hx => ?_, by omega, ?_, hgrown, hhealthy⟩
  · have := hbounds x hx
    omega
  · rw [hreactor]
    omega

/-- The scan goes on to the next index, with this one listed. -/
theorem Scanning.push {i : ℕ} (h : Scanning i s) (h1 : 1 ≤ i) (hi : i < s.reactor.fdCount)
    (hreactor : s'.reactor = s.reactor)
    (hlist : s'.descriptorsToRemove = s.descriptorsToRemove ++ [i])
    (hlen : s'.removeLen = s.removeLen) : Scanning (i + 1) s' := by
  obtain ⟨hrun, hinc, hbounds, hshort, hindex, hgrown, hhealthy⟩ := h
  refine ⟨by rwa [hreactor], ?_, ?_, ?_, by rw [hreactor]; omega, by rw [hreactor, hlen]; omega,
    by rwa [hreactor]⟩
  · rw [hlist, List.pairwise_append]
    refine ⟨hinc, List.pairwise_singleton _ _, fun x hx y hy => ?_⟩
    rw [List.mem_singleton.mp hy]
    exact (hbounds x hx).2
  · intro x hx
    rw [hlist] at hx
    rcases List.mem_append.mp hx with hx | hx
    · have := hbounds x hx
      omega
    · rw [List.mem_singleton.mp hx]
      omega
  · rw [hlist, List.length_append, List.length_singleton]
    omega

/-- The removal has deleted `m` of the listed indices. They are below the count
    that the removal began with. -/
structure Removing (m : ℕ) (s : State) : Prop where
  le : m ≤ s.descriptorsToRemove.length
  increasing : s.descriptorsToRemove.Pairwise (· < ·)
  bounds : ∀ x ∈ s.descriptorsToRemove, 1 ≤ x ∧ x < s.reactor.fdCount + m
  short : s.descriptorsToRemove.length + 1 ≤ s.reactor.fdCount + m
  allocated : s.reactor.fdCount + m ≤ s.reactor.fdSize
  running : s.reactor.running = false ↔ 0 < m ∧ s.reactor.fdCount = 1

/-- What holds where `startReactor` stands. -/
def Phase (s : State) : Prop :=
  match s.pc with
  | .poll => s.reactor.running = false ↔ s.descriptorsToRemove ≠ [] ∧ s.reactor.fdCount = 1
  | .scan i => Scanning i s ∧ (i = 0 → s.reactor.fdCount = s.removeLen)
  | .accept i => Scanning i s ∧ i = 0 ∧ s.reactor.fdCount = s.removeLen
  | .recv i => Scanning i s ∧ 1 ≤ i ∧ i < s.reactor.fdCount
  | .hangup i => Scanning i s ∧ i < s.reactor.fdCount
  | .remove m => Removing m s
  | .returned => True
  | .stopped why => why ≠ .pfdsIndex ∧ why ≠ .removeIndex

structure PollInv (listener : ℕ) (s : State) : Prop where
  pollSet : PollSet listener s.reactor
  phase : Phase s

theorem PollInv.scan {i : ℕ} (h : PollInv listener s) (hpc : s.pc = .scan i) :
    Scanning i s ∧ (i = 0 → s.reactor.fdCount = s.removeLen) := by
  have hphase := h.phase
  unfold Phase at hphase
  rwa [hpc] at hphase

theorem PollInv.recv {i : ℕ} (h : PollInv listener s) (hpc : s.pc = .recv i) :
    Scanning i s ∧ 1 ≤ i ∧ i < s.reactor.fdCount := by
  have hphase := h.phase
  unfold Phase at hphase
  rwa [hpc] at hphase

theorem PollInv.accept {i : ℕ} (h : PollInv listener s) (hpc : s.pc = .accept i) :
    Scanning i s ∧ i = 0 ∧ s.reactor.fdCount = s.removeLen := by
  have hphase := h.phase
  unfold Phase at hphase
  rwa [hpc] at hphase

/-- Nothing is listed for removal before the listener is handled. -/
theorem PollInv.nothing_listed {i : ℕ} (h : PollInv listener s) (hpc : s.pc = .accept i) :
    s.descriptorsToRemove = [] := by
  obtain ⟨hscan, hi0, -⟩ := h.accept hpc
  rw [List.eq_nil_iff_forall_not_mem]
  intro x hx
  have hbounds := hscan.bounds x hx
  omega

theorem PollInv.hangup {i : ℕ} (h : PollInv listener s) (hpc : s.pc = .hangup i) :
    Scanning i s ∧ i < s.reactor.fdCount := by
  have hphase := h.phase
  unfold Phase at hphase
  rwa [hpc] at hphase

theorem PollInv.remove {m : ℕ} (h : PollInv listener s) (hpc : s.pc = .remove m) :
    Removing m s := by
  have hphase := h.phase
  unfold Phase at hphase
  rwa [hpc] at hphase

/-- An entry with an error or hang-up is behind the listener's. -/
theorem PollInv.client_of_hangup {i : ℕ} {p : PollFd} (h : PollInv listener s)
    (hpc : s.pc = .hangup i) (hp : s.reactor.pfds[i]? = some p)
    (hbits : p.revents &&& hangupBits ≠ 0) :
    1 ≤ i ∧ s.reactor.fds[i]? = some p.fd ∧ p.fd ≠ listener := by
  obtain ⟨hscan, hi⟩ := h.hangup hpc
  have hi0 : i ≠ 0 := by
    rintro rfl
    exact hbits (hscan.healthy p hp)
  have h1 : 1 ≤ i := by omega
  refine ⟨h1, ?_, h.pollSet.rest i p h1 hi hp⟩
  rw [getElem?_fds _ hi, hp]
  rfl

/-- `poll` reports no error or hang-up on the listener, and `accept` returns
    another descriptor. -/
structure ListenerSound (listener : ℕ) (k : Kernel) : Prop where
  healthy : ∀ revents ∈ k.poll, revents 0 &&& hangupBits = 0
  accept_ne : k.accept ≠ some listener

theorem pollInv_init : PollInv listener (startReactor listener).init where
  pollSet := by
    refine ⟨sized_init, le_rfl, ⟨_, rfl, rfl⟩, ?_⟩
    · intro i p h1 hi
      have : i < 1 := hi
      omega
  phase := by
    show true = false ↔ [] ≠ [] ∧ _
    simp

/-! ## Steps -/

/-- A step that only moves on keeps the phase. -/
theorem phase_moves {pc : Pc} (hinv : PollInv listener s) (h : Moves k s pc) :
    Phase (s.goto pc) := by
  have hset := hinv.pollSet
  have hpos := hset.countPos
  cases h with
  | returns hpc hrun => trivial
  | @scanned i hpc hi =>
    obtain ⟨hscan, hzero⟩ := hinv.scan hpc
    have hindex := hscan.index
    have hshort := hscan.short
    refine ⟨Nat.zero_le _, hscan.increasing, ?_, ?_, hset.countLe, ?_⟩
    · intro x hx
      have hx' := hscan.bounds x hx
      show 1 ≤ x ∧ x < s.reactor.fdCount + 0
      omega
    · show s.descriptorsToRemove.length + 1 ≤ s.reactor.fdCount + 0
      omega
    · show s.reactor.running = false ↔ _
      rw [hscan.running]
      simp
  | @idle i p hpc hi hp hrev =>
    exact ⟨(hinv.scan hpc).1.next hi rfl rfl rfl, fun h => by omega⟩
  | @accepts i p l hpc hi hp hl hin hfd =>
    obtain ⟨hscan, hzero⟩ := hinv.scan hpc
    have hi0 : i = 0 := by
      by_contra hne
      exact hset.fd_ne hp hi hl (by omega) hfd
    exact ⟨hscan.congr rfl rfl rfl, hi0, hzero hi0⟩
  | @receives i p l hpc hi hp hl hin hfd =>
    obtain ⟨hscan, hzero⟩ := hinv.scan hpc
    refine ⟨hscan.congr rfl rfl rfl, ?_, hi⟩
    by_contra hne
    rw [show i = 0 by omega] at hp
    rw [hp] at hl
    cases hl
    exact hfd rfl
  | @checks i p hpc hi hp hin => exact ⟨(hinv.scan hpc).1.congr rfl rfl rfl, hi⟩
  | @refused i hpc haccept =>
    obtain ⟨hscan, hi0, hzero⟩ := hinv.accept hpc
    refine ⟨hscan.congr rfl rfl rfl, ?_⟩
    show i < s.reactor.fdCount
    omega
  | @healthy i p hpc hp hbits =>
    obtain ⟨hscan, hi⟩ := hinv.hangup hpc
    exact ⟨hscan.next hi rfl rfl rfl, fun h => by omega⟩
  | @removed m hpc hm =>
    obtain ⟨hle, -, -, -, -, hrun⟩ := hinv.remove hpc
    have hlen : s.descriptorsToRemove.length ≤ m := List.getElem?_eq_none_iff.mp hm
    show s.reactor.running = false ↔ s.descriptorsToRemove ≠ [] ∧ s.reactor.fdCount = 1
    rw [hrun, ← List.length_pos_iff]
    have heq : m = s.descriptorsToRemove.length := by omega
    rw [heq]

/-- A step does not stop because of an index of `pfds` or `descriptorsToRemove`. -/
theorem index_of_stops {why : Stop} (hinv : PollInv listener s) (h : Stops k s why) :
    why ≠ .pfdsIndex ∧ why ≠ .removeIndex := by
  have hset := hinv.pollSet
  have hlen := hset.length
  have hle := hset.countLe
  have hpos := hset.countPos
  cases h with
  | pollFails hpc hpoll => exact ⟨by simp, by simp⟩
  | acceptEvent hpc haccept hevent => cases hevent <;> exact ⟨by simp, by simp⟩
  | message hpc hp hrecv hne hmsg => exact ⟨by simp, by simp⟩
  | sendFails hpc hp hl hrecv hne hmsg hsends => exact ⟨by simp, by simp⟩
  | hangupEvent hpc hp hbits hevent => cases hevent <;> exact ⟨by simp, by simp⟩
  | pollIndex hpc hlt => omega
  | scanIndex hpc hi hlt => omega
  | recvIndex hpc hlt =>
    have := (hinv.recv hpc).2.2
    omega
  | hangupIndex hpc hlt =>
    have := (hinv.hangup hpc).2
    omega
  | @addFd i newfd why hpc haccept hadd =>
    rcases hset.toSized.addFd_eq_error hadd with rfl | ⟨rfl, -, -⟩ <;> exact ⟨by simp, by simp⟩
  | @pushRemove i hpc hroom =>
    exfalso
    rcases hpc with hpc | ⟨hpc, p, hp, hbits⟩
    · obtain ⟨hscan, h1, hi⟩ := hinv.recv hpc
      have hshort := hscan.short
      have hgrown := hscan.grown
      omega
    · obtain ⟨hscan, hi⟩ := hinv.hangup hpc
      obtain ⟨h1, -, -⟩ := hinv.client_of_hangup hpc hp hbits
      have hshort := hscan.short
      have hgrown := hscan.grown
      omega
  | @delFromPfds m i why hpc hm hdel =>
    exfalso
    obtain ⟨hm', -, hbounds, hshort, halloc, -⟩ := hinv.remove hpc
    have hlt : m < s.descriptorsToRemove.length := (List.getElem?_eq_some_iff.mp hm).1
    have hi := hbounds i (List.mem_of_getElem? hm)
    unfold ReactServer.delFromPfds at hdel
    rw [if_neg (by omega), List.getElem?_eq_getElem (by omega)] at hdel
    cases hdel

/-- Every step keeps the invariant. -/
theorem pollInv_step (hok : ListenerSound listener k) (hinv : PollInv listener s)
    (h : Outcome k s s') : PollInv listener s' := by
  have hset := hinv.pollSet
  have hpos := hset.countPos
  cases h with
  | moved h => exact ⟨hset, phase_moves hinv h⟩
  | stopped h hrec => exact ⟨hset, index_of_stops hinv h⟩
  | @polled revents hpc hrun hpoll hlen =>
    refine ⟨hset.poll revents _, ⟨hrun, List.Pairwise.nil, ?_, Nat.zero_le _, Nat.zero_le _,
      Nat.le_succ _, ?_⟩, fun _ => rfl⟩
    · intro x hx
      cases hx
    · intro p hp
      obtain ⟨q, -, -, hrev⟩ := fd_writeRevents hp
      rw [hrev (by omega)]
      exact hok.healthy revents hpoll
  | @added i newfd r hpc haccept hadd =>
    obtain ⟨⟨hrun, hinc, hbounds, hshort, hindex, hgrown, hhealthy⟩, hi0, hzero⟩ :=
      hinv.accept hpc
    obtain ⟨-, hcount, hrun', hsame, -⟩ := hset.toSized.addFd hadd
    have hne : newfd ≠ listener := by
      rintro rfl
      exact hok.accept_ne haccept
    refine ⟨hset.addFd hne hadd, ⟨hrun'.trans hrun, hinc, hbounds, hshort, ?_, ?_, ?_⟩, ?_⟩
    · show i ≤ r.fdCount
      omega
    · show r.fdCount ≤ s.removeLen + 1
      omega
    · intro p hp
      have hp' : r.pfds[0]? = some p := hp
      rw [hsame 0 (by omega)] at hp'
      exact hhealthy p hp'
    · show i < r.fdCount
      omega
  | @dropped i p hpc hp hrecv hroom =>
    obtain ⟨hscan, h1, hi⟩ := hinv.recv hpc
    exact ⟨hset, hscan.push h1 hi rfl rfl rfl, fun h => by omega⟩
  | @relayed i p l chunk msg hpc hp hl hrecv hne hmsg =>
    obtain ⟨hscan, -, hi⟩ := hinv.recv hpc
    exact ⟨hset, hscan.congr rfl rfl rfl, hi⟩
  | @closed i p hpc hp hbits hroom =>
    obtain ⟨hscan, hi⟩ := hinv.hangup hpc
    obtain ⟨h1, -, -⟩ := hinv.client_of_hangup hpc hp hbits
    exact ⟨hset, hscan.push h1 hi rfl rfl rfl, fun h => by omega⟩
  | @deleted m i r hpc hm hdel =>
    obtain ⟨hm', hinc, hbounds, hshort, halloc, hrun⟩ := hinv.remove hpc
    have hlt : m < s.descriptorsToRemove.length := (List.getElem?_eq_some_iff.mp hm).1
    have hi := hbounds i (List.mem_of_getElem? hm)
    have hset' := hset.delFromPfds hi.1 (by omega) hdel
    obtain ⟨-, -, last, -, -, hcount, hsize, hrun', -⟩ := delFromPfds_eq_ok hdel
    refine ⟨hset', hlt, hinc, ?_, ?_, ?_, ?_⟩
    · intro x hx
      have := hbounds x hx
      show 1 ≤ x ∧ x < r.fdCount + (m + 1)
      omega
    · show s.descriptorsToRemove.length + 1 ≤ r.fdCount + (m + 1)
      omega
    · show r.fdCount + (m + 1) ≤ r.fdSize
      omega
    · show r.running = false ↔ 0 < m + 1 ∧ r.fdCount = 1
      -- the flag was still set: two entries were left
      have hset2 : s.reactor.running = true := by
        by_contra hne
        have := hrun.mp (by simpa using hne)
        omega
      rw [hrun', hcount, hset2]
      split_ifs <;> simp_all

theorem pollInv_reach {ok : Kernel → State → Prop}
    (hok : ∀ k s, ok k s → PollSet listener s.reactor → ListenerSound listener k)
    (h : (startReactor listener).Reach ok s) : PollInv listener s :=
  h.invariant pollInv_init fun k s _ ha hinv hstep =>
    pollInv_step (hok k s ha hinv.pollSet) hinv (step_outcome hstep)

/-- The listener is sound, and the count is below `2 ^ 30`. -/
structure Assumptions (listener : ℕ) (k : Kernel) (s : State) : Prop where
  sound : ListenerSound listener k
  count_lt : s.reactor.fdCount < 2 ^ 30

instance (listener : ℕ) (k : Kernel) : Decidable (ListenerSound listener k) :=
  decidable_of_iff ((∀ revents ∈ k.poll, revents 0 &&& hangupBits = 0) ∧ k.accept ≠ some listener)
    ⟨fun ⟨h, h'⟩ => ⟨h, h'⟩, fun ⟨h, h'⟩ => ⟨h, h'⟩⟩

instance (listener : ℕ) (k : Kernel) (s : State) : Decidable (Assumptions listener k s) :=
  decidable_of_iff (ListenerSound listener k ∧ s.reactor.fdCount < 2 ^ 30)
    ⟨fun ⟨h, h'⟩ => ⟨h, h'⟩, fun ⟨h, h'⟩ => ⟨h, h'⟩⟩

/-- A count below `2 ^ 30` can be doubled. -/
theorem ne_overflow_step (hsized : Sized s.reactor) (hcount : s.reactor.fdCount < 2 ^ 30)
    (h : Outcome k s s') : s'.pc ≠ .stopped .overflow := by
  cases h with
  | moved h => cases h <;> simp [State.goto]
  | stopped h hrec =>
    cases h with
    | addFd hpc haccept hadd =>
      rcases hsized.addFd_eq_error hadd with rfl | ⟨rfl, hfull, hmax⟩
      · simp [State.stop, State.goto]
      · rw [intMax] at hmax
        omega
    | delFromPfds hpc hm hdel =>
      obtain rfl := delFromPfds_eq_error hdel
      simp [State.stop, State.goto]
    | acceptEvent hpc haccept hevent => cases hevent <;> simp [State.stop, State.goto]
    | hangupEvent hpc hp hbits hevent => cases hevent <;> simp [State.stop, State.goto]
    | _ => simp [State.stop, State.goto]
  | _ => simp [State.goto]

/-- In every state reached with a sound listener and a bounded count: the count
    is between one and the size, which is the allocated length; the listener is
    at index 0; no step has left `pfds` or `descriptorsToRemove`, or overflowed
    the size; and at the head of the loop `running` is cleared if and only if
    the iteration removed an entry and left one. -/
theorem pollSet_discipline (h : (startReactor listener).Reach (Assumptions listener) s) :
    1 ≤ s.reactor.fdCount ∧ s.reactor.fdCount ≤ s.reactor.fdSize ∧
      s.reactor.fdSize = s.reactor.pfds.length ∧
      (∃ p, s.reactor.pfds[0]? = some p ∧ p.fd = listener) ∧
      (∀ why, s.pc = .stopped why → why ≠ .pfdsIndex ∧ why ≠ .removeIndex ∧ why ≠ .overflow) ∧
      (s.pc = .poll →
        (s.reactor.running = false ↔ s.descriptorsToRemove ≠ [] ∧ s.reactor.fdCount = 1)) := by
  have hoverflow : s.pc ≠ .stopped .overflow := by
    refine h.invariant_of (I := fun s => s.pc ≠ .stopped .overflow)
      (J := fun s => Sized s.reactor) (fun s hs => sized_reach hs) ?_ ?_
    · simp [startReactor]
    · intro k s s' ha hsized _ hstep
      exact ne_overflow_step hsized ha.count_lt (step_outcome hstep)
  obtain ⟨hset, hphase⟩ := pollInv_reach (fun k s ha _ => ha.sound) h
  refine ⟨hset.countPos, hset.countLe, hset.length.symm, hset.first, fun why hpc => ?_,
    fun hpc => ?_⟩
  · unfold Phase at hphase
    rw [hpc] at hphase hoverflow
    exact ⟨hphase.1, hphase.2, fun heq => hoverflow (by rw [heq])⟩
  · unfold Phase at hphase
    rw [hpc] at hphase
    exact hphase

/-- A client joins, ends its connection in the next iteration, and is removed. -/
def joinAndLeave : List Kernel :=
  join 5 0 ++ [.ready 1 pollIn, .idle, .idle, .receives [], .idle, .idle, .idle]

theorem pollSet_discipline_joinAndLeave :
    ∃ s, (startReactor 3).execIf (Assumptions 3) joinAndLeave (startReactor 3).init = some s ∧
      s.descriptorsToRemove = [1] ∧ s.reactor.running = false := by
  obtain ⟨s, hs, hpc, hlist, hcount⟩ :
      ∃ s, (startReactor 3).execIf (Assumptions 3) joinAndLeave (startReactor 3).init = some s ∧
        s.pc = .poll ∧ s.descriptorsToRemove = [1] ∧ s.reactor.fdCount = 1 :=
    ⟨_, rfl, rfl, rfl, rfl⟩
  have hreach : (startReactor 3).Reach (Assumptions 3) s := .of_execIf .init hs
  obtain ⟨-, -, -, -, -, hrun⟩ := pollSet_discipline hreach
  exact ⟨s, hs, hlist, (hrun hpc).mpr ⟨by simp [hlist], hcount⟩⟩

end ChatOnC.ReactServer
