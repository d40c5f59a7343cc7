import ChatOnC.Common.SwapRemove
import ChatOnC.ReactServer.PollSet

/-!
# What the deferred removal removes

The loop at the end of an iteration (`react_server.c` lines 363–366) calls
`del_from_pfds` on each index that the scan has listed. Every call moves the last
entry into the hole, so a listed entry near the end may be moved to an index
that has been dealt with.

* `removal_run`: the loop comes to its end, having removed the listed indices one
  by one from the list of descriptors.
* `removal_exact_iff`: exactly the listed descriptors are gone if and only if no
  listed entry is moved into a listed place.
-/

namespace ChatOnC.ReactServer

open ChatOnC.Common

variable {s : State} {listener : ℕ} {L : List ℕ}

/-- The indices a scan over `n` entries can list. -/
structure Listed (n : ℕ) (L : List ℕ) : Prop where
  increasing : L.Pairwise (· < ·)
  bound : ∀ i ∈ L, 1 ≤ i ∧ i < n

/-- The descriptors in `pfds[0 .. fd_count)` are those before the loop, less the
    ones that stood at the listed indices. -/
structure RemovedExactly (r r' : Reactor) (L : List ℕ) : Prop where
  count : r'.fdCount + L.length = r.fdCount
  fds : ∀ fd, fd ∈ r'.fds ↔ fd ∈ r.fds ∧ ∀ i ∈ L, r.fds[i]? ≠ some fd

/-- No index is listed twice. -/
theorem Listed.length_le {n : ℕ} (h : Listed n L) : L.length ≤ n := by
  by_cases hL : L.length = 0
  · omega
  · have hfirst : L[0]? = some L[0] := List.getElem?_eq_getElem (by omega)
    have hlast : L[L.length - 1]? = some L[L.length - 1] := List.getElem?_eq_getElem (by omega)
    have hgap := increasing_gap h.increasing (Nat.zero_le _) hfirst hlast
    have h1 := (h.bound _ (List.mem_of_getElem? hfirst)).1
    have hn := (h.bound _ (List.mem_of_getElem? hlast)).2
    omega

theorem delFromPfds_ok {r : Reactor} (hsized : Sized r) {i : ℕ} (hpos : 0 < r.fdCount)
    (hi : i < r.fdSize) : ∃ r', delFromPfds r i = .ok r' := by
  obtain ⟨last, hlast⟩ := hsized.getElem (show r.fdCount - 1 < r.fdCount by omega)
  have hlen := hsized.length
  exact ⟨_, by rw [delFromPfds, if_neg (by omega), hlast]⟩

/-- **The loop.** From the test for index number `m` on, the loop deals with the rest
    of the list and goes back to `poll`. -/
theorem removal_run {m : ℕ} (hpc : s.pc = .remove m) (hsized : Sized s.reactor)
    (hlen : s.descriptorsToRemove.length = m + L.length) (hL : s.descriptorsToRemove.drop m = L)
    (hcount : L.length ≤ s.reactor.fdCount) (hbound : ∀ i ∈ L, i < s.reactor.fdSize)
    {ks : List Kernel} (hks : ks.length = L.length + 1) :
    ∃ s', (startReactor listener).exec ks s = some s' ∧ s'.pc = .poll ∧ Sized s'.reactor ∧
      s'.reactor.fds = L.foldl swapRemove s.reactor.fds := by
  induction L generalizing s m ks with
  | nil =>
    obtain ⟨k, rfl⟩ := List.length_eq_one_iff.mp hks
    have hdone : s.descriptorsToRemove[m]? = none :=
      List.getElem?_eq_none (by rw [hlen, List.length_nil, Nat.add_zero])
    refine ⟨s.goto .poll, ?_, rfl, hsized, rfl⟩
    simp only [System.exec_cons, startReactor, hpc, removeStep, hdone]
    rfl
  | cons i L ih =>
    obtain ⟨k, ks, rfl⟩ := List.exists_cons_of_length_eq_add_one hks
    have hget : s.descriptorsToRemove[m]? = some i := by
      have hhead : (s.descriptorsToRemove.drop m)[0]? = s.descriptorsToRemove[m + 0]? :=
        List.getElem?_drop
      rw [hL, Nat.add_zero] at hhead
      exact hhead.symm
    rw [List.length_cons] at hlen hcount hks
    obtain ⟨r, hdel⟩ := delFromPfds_ok hsized (by omega) (hbound i (List.mem_cons_self ..))
    obtain ⟨-, -, last, -, -, hcount', hsize', -⟩ := delFromPfds_eq_ok hdel
    have htail : s.descriptorsToRemove.drop (m + 1) = L := by
      rw [← List.drop_drop, hL]
      rfl
    obtain ⟨s', hexec, hpc', hsized', hfds⟩ :=
      @ih { s with reactor := r, pc := .remove (m + 1) } (m + 1) rfl (hsized.delFromPfds hdel)
        (show s.descriptorsToRemove.length = _ by omega) htail
        (show L.length ≤ r.fdCount by omega)
        (show ∀ j ∈ L, j < r.fdSize by
          rw [hsize']
          exact fun j hj => hbound j (List.mem_cons_of_mem i hj))
        ks (by simpa using hks)
    refine ⟨s', ?_, hpc', hsized', ?_⟩
    · rw [System.exec_cons, ← hexec]
      simp only [startReactor, hpc, removeStep, hget, hdel]
      rfl
    · rw [hfds, List.foldl_cons, ← fds_delFromPfds hsized hdel]

/-- **Deferred removal.** For distinct descriptors and any list a scan can make, the
    loop ends with `fd_count` less by the length of the list, and exactly the listed
    descriptors are gone if and only if no entry that `del_from_pfds` moves into a
    listed place is itself listed. -/
theorem removal_exact_iff (hpc : s.pc = .remove 0) (hsized : Sized s.reactor)
    (hnodup : s.reactor.fds.Nodup) (hlisted : Listed s.reactor.fdCount s.descriptorsToRemove)
    {ks : List Kernel} (hks : ks.length = s.descriptorsToRemove.length + 1) :
    ∃ s', (startReactor listener).exec ks s = some s' ∧ s'.pc = .poll ∧
      s'.reactor.fdCount + s.descriptorsToRemove.length = s.reactor.fdCount ∧
      (RemovedExactly s.reactor s'.reactor s.descriptorsToRemove ↔
        SwapSafe s.reactor.fdCount s.descriptorsToRemove) := by
  have hle := hlisted.length_le
  have hsize := hsized.countLe
  have hlen := hsized.length_fds
  have hbound : ∀ i ∈ s.descriptorsToRemove, i < s.reactor.fdSize := by
    intro i hi
    have hlt := (hlisted.bound i hi).2
    omega
  obtain ⟨s', hexec, hpc', hsized', hfds⟩ := @removal_run s listener s.descriptorsToRemove 0 hpc
    hsized (Nat.zero_add _).symm rfl hle hbound ks hks
  have hcount : s'.reactor.fdCount + s.descriptorsToRemove.length = s.reactor.fdCount := by
    rw [← hsized'.length_fds, hfds, length_foldl_swapRemove, hlen]
    omega
  refine ⟨s', hexec, hpc', hcount, ?_⟩
  rw [← hlen, ← removes_exactly_iff hnodup hlisted.increasing
    (fun i hi => by rw [hlen]; exact (hlisted.bound i hi).2), ← hfds]
  exact ⟨fun h => h.fds, fun h => ⟨hcount, h⟩⟩

/-- Before the removal, with the listener and the clients 5, 6 and 7 in `pfds`. -/
def beforeRemoval (descriptorsToRemove : List ℕ) : State where
  reactor :=
    { createReactor with
      running := true
      pfds := [⟨3, pollIn, 0⟩, ⟨5, pollIn, 0⟩, ⟨6, pollIn, 0⟩, ⟨7, pollIn, 0⟩, ⟨0, 0, 0⟩]
      fdCount := 4 }
  pc := .remove 0
  descriptorsToRemove := descriptorsToRemove
  removeLen := 4
  reported := []
  hist := []

theorem removal_exact_iff_oneHangUp :
    ∃ s', (startReactor 3).exec [.idle, .idle] (beforeRemoval [1]) = some s' ∧ s'.pc = .poll ∧
      s'.reactor.fdCount + 1 = 4 ∧
      (RemovedExactly (beforeRemoval [1]).reactor s'.reactor [1] ↔ SwapSafe 4 [1]) :=
  @removal_exact_iff (beforeRemoval [1]) 3 rfl ⟨rfl, by decide, by decide⟩ (by decide)
    ⟨by decide, by decide⟩ [.idle, .idle] rfl

/-- Clients 5 and 7 hang up in one scan: entry 3 is moved to index 1, which has been
    dealt with, so 7 is still polled, and 6 is not. -/
theorem removal_wrong_twoHangUps :
    Listed 4 [1, 3] ∧ ∃ s',
      (startReactor 3).exec [.idle, .idle, .idle] (beforeRemoval [1, 3]) = some s' ∧
      s'.reactor.fds = [3, 7] ∧
      ¬RemovedExactly (beforeRemoval [1, 3]).reactor s'.reactor [1, 3] := by
  refine ⟨⟨by decide, by decide⟩, _, rfl, rfl, fun h => ?_⟩
  have h7 := ((h.fds 7).mp (by decide)).2 3 (by decide)
  exact h7 (by decide)

end ChatOnC.ReactServer
