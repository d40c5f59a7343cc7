import ChatOnC.Common.System
import Mathlib.Data.Int.Notation

/-!
# Loops around a write that may be partial

`send` and `write` take some of the bytes they are handed, or fail. A loop hands
them the rest of a buffer until all of it is taken, and keeps its place in
variables of its own. The first failure ends the loop.

* `Tracks`: the variables of the loop are a function of the number of bytes taken.
* `Tracks.inv_reachable`: then what was taken is the buffer up to that number.
* `Tracks.run_length`: calls that take something at each success are at most as
  many as the buffer has bytes.
* `Tracks.faithful`: what follows for the calls, the end of the loop and its length.
-/

namespace ChatOnC.Common

/-- A loop `while (more) { n = write(fd, buffer + offset, request); .. }`: its variables
    on entry, its test, the two arguments, and the assignments behind a call that took
    `n` bytes. -/
structure WriteLoop (σ : Type*) where
  start : σ
  more : σ → Bool
  offset : σ → ℤ
  request : σ → ℤ
  advance : σ → ℕ → σ

/-- Where the execution is: in front of a call, behind the loop, or behind the
    `break` or `return` after a failed call. -/
inductive WritePc
  | head
  | left
  | failed
deriving DecidableEq, Repr

/-- The loop, and the outside world: the bytes taken so far, and the range of each
    call as its offset and its count. -/
structure WriteState (σ α : Type*) where
  vars : σ
  pc : WritePc
  accepted : List α
  calls : List (ℤ × ℤ)

variable {σ α : Type*} (loop : WriteLoop σ) (buffer : List α)

/-- The test of the loop. -/
def WriteLoop.test (vars : σ) : WritePc := if loop.more vars then .head else .left

/-- One call with its outcome: `none` is `-1`, `some k` the number of bytes taken, which
    is at most the count requested. -/
def WriteLoop.step (outcome : Option ℕ) (s : WriteState σ α) : Option (WriteState σ α) :=
  if s.pc = .head then
    let calls := s.calls ++ [(loop.offset s.vars, loop.request s.vars)]
    match outcome with
    | none => some { s with pc := .failed, calls }
    | some k =>
      if (k : ℤ) ≤ loop.request s.vars then
        let vars := loop.advance s.vars k
        let taken := (buffer.drop (loop.offset s.vars).toNat).take k
        some { vars, pc := loop.test vars, accepted := s.accepted ++ taken, calls }
      else none
  else none

/-- The loop over all outcomes of its calls. -/
def WriteLoop.system : System (WriteState σ α) (Option ℕ) where
  init := ⟨loop.start, loop.test loop.start, [], []⟩
  step := loop.step buffer

/-- After `n` bytes of `N` the variables are `vars n`. -/
structure Tracks (N : ℕ) (vars : ℕ → σ) : Prop where
  start : loop.start = vars 0
  more : ∀ n ≤ N, (loop.more (vars n) = true ↔ n < N)
  offset : ∀ n ≤ N, loop.offset (vars n) = n
  request : ∀ n ≤ N, loop.request (vars n) = N - n
  advance : ∀ n k, n + k ≤ N → loop.advance (vars n) k = vars (n + k)

variable {loop buffer} {vars : ℕ → σ}

/-! ## The invariant -/

/-- `n` bytes were taken: those at the front of the buffer. -/
structure WriteInv (loop : WriteLoop σ) (buffer : List α) (vars : ℕ → σ) (n : ℕ)
    (s : WriteState σ α) : Prop where
  le : n ≤ buffer.length
  vars : s.vars = vars n
  accepted : s.accepted = buffer.take n
  head : s.pc = .head → n < buffer.length
  left : s.pc = .left → n = buffer.length
  within : ∀ r ∈ s.calls, 0 ≤ r.1 ∧ 0 ≤ r.2 ∧ r.1 + r.2 ≤ buffer.length

theorem WriteLoop.test_eq_head_iff (v : σ) : loop.test v = .head ↔ loop.more v = true := by
  unfold WriteLoop.test
  split_ifs with h
  · exact iff_of_true rfl h
  · exact iff_of_false nofun h

theorem WriteLoop.test_eq_left_iff (v : σ) : loop.test v = .left ↔ ¬loop.more v = true := by
  unfold WriteLoop.test
  split_ifs with h
  · exact iff_of_false nofun (not_not_intro h)
  · exact iff_of_true rfl h

/-- A step is a failed call, or a call that took `k` bytes. -/
theorem WriteLoop.step_cases {outcome : Option ℕ} {s s' : WriteState σ α}
    (h : (loop.system buffer).step outcome s = some s') :
    s.pc = .head ∧ s'.calls = s.calls ++ [(loop.offset s.vars, loop.request s.vars)] ∧
      ((outcome = none ∧ s'.pc = .failed ∧ s'.vars = s.vars ∧ s'.accepted = s.accepted) ∨
        ∃ k, outcome = some k ∧ (k : ℤ) ≤ loop.request s.vars ∧
          s'.vars = loop.advance s.vars k ∧ s'.pc = loop.test s'.vars ∧
          s'.accepted = s.accepted ++ (buffer.drop (loop.offset s.vars).toNat).take k) := by
  change loop.step buffer outcome s = some s' at h
  unfold WriteLoop.step at h
  split_ifs at h with hpc
  refine ⟨hpc, ?_⟩
  match outcome with
  | none =>
    obtain rfl := Option.some.inj h
    exact ⟨rfl, .inl ⟨rfl, rfl, rfl, rfl⟩⟩
  | some k =>
    obtain ⟨hk, h⟩ := Option.ite_none_right_eq_some.mp h
    obtain rfl := Option.some.inj h
    exact ⟨rfl, .inr ⟨k, rfl, hk, rfl, rfl, rfl⟩⟩

theorem Tracks.inv_init (h : Tracks loop buffer.length vars) :
    WriteInv loop buffer vars 0 (loop.system buffer).init where
  le := Nat.zero_le _
  vars := h.start
  accepted := List.take_zero.symm
  head hpc := by
    change loop.test loop.start = .head at hpc
    rwa [WriteLoop.test_eq_head_iff, h.start, h.more 0 (Nat.zero_le _)] at hpc
  left hpc := by
    change loop.test loop.start = .left at hpc
    rw [WriteLoop.test_eq_left_iff, h.start, h.more 0 (Nat.zero_le _)] at hpc
    omega
  within := by simp [WriteLoop.system]

/-- What a call takes comes right behind what was taken before. -/
theorem Tracks.inv_step (h : Tracks loop buffer.length vars) {n : ℕ} {outcome : Option ℕ}
    {s s' : WriteState σ α} (hinv : WriteInv loop buffer vars n s)
    (hstep : (loop.system buffer).step outcome s = some s') :
    WriteInv loop buffer vars (n + outcome.getD 0) s' := by
  obtain ⟨hpc, hcalls, hcase⟩ := WriteLoop.step_cases hstep
  have hn := hinv.head hpc
  rw [hinv.vars, h.offset n hinv.le, h.request n hinv.le] at hcalls hcase
  have hwithin : ∀ r ∈ s'.calls, 0 ≤ r.1 ∧ 0 ≤ r.2 ∧ r.1 + r.2 ≤ buffer.length := by
    intro r hr
    rw [hcalls, List.mem_append, List.mem_singleton] at hr
    rcases hr with hr | rfl
    · exact hinv.within r hr
    · dsimp only
      omega
  rcases hcase with ⟨rfl, hpc', hvars, haccepted⟩ | ⟨k, rfl, hk, hvars, hpc', haccepted⟩
  · refine ⟨hinv.le, hvars, haccepted.trans hinv.accepted, ?_, ?_, hwithin⟩
    · rw [hpc']
      exact nofun
    · rw [hpc']
      exact nofun
  · have hle : n + k ≤ buffer.length := by omega
    rw [h.advance n k hle] at hvars
    rw [hvars] at hpc'
    refine ⟨hle, hvars, ?_, ?_, ?_, hwithin⟩
    · rw [haccepted, hinv.accepted, Int.toNat_natCast, Option.getD_some, List.take_add]
    · rw [hpc', WriteLoop.test_eq_head_iff, h.more _ hle]
      exact id
    · rw [hpc', WriteLoop.test_eq_left_iff, h.more _ hle, Option.getD_some]
      omega

theorem Tracks.inv_reachable (h : Tracks loop buffer.length vars) {s : WriteState σ α}
    (hs : (loop.system buffer).Reachable s) : ∃ n, WriteInv loop buffer vars n s := by
  apply hs.invariant ⟨0, h.inv_init⟩
  rintro outcome t t' - ⟨n, hinv⟩ hstep
  exact ⟨_, h.inv_step hinv hstep⟩

/-! ## How long the loop runs -/

/-- The call takes a byte if it succeeds. -/
def TakesSome (outcome : Option ℕ) : Prop := outcome ≠ some 0

/-- Calls that take a byte each, but for a last one that may fail, are at most as many as
    the bytes that are left. -/
theorem Tracks.run_length (h : Tracks loop buffer.length vars) {n : ℕ}
    {outcomes : List (Option ℕ)} {s s' : WriteState σ α} (hinv : WriteInv loop buffer vars n s)
    (hsome : ∀ o ∈ outcomes, TakesSome o)
    (hrun : (loop.system buffer).exec outcomes s = some s') :
    outcomes.length ≤ buffer.length - n := by
  induction outcomes generalizing n s with
  | nil => exact Nat.zero_le _
  | cons o outcomes ih =>
    obtain ⟨t, ht, hrun'⟩ := Option.bind_eq_some_iff.mp hrun
    have hn := hinv.head (WriteLoop.step_cases ht).1
    have hinv' := h.inv_step hinv ht
    rw [List.length_cons]
    match o with
    | none =>
      -- behind a failed call there is no other one
      match outcomes with
      | [] =>
        rw [List.length_nil]
        omega
      | o' :: outcomes =>
        obtain ⟨t', ht', -⟩ := Option.bind_eq_some_iff.mp hrun'
        have hpc := (WriteLoop.step_cases ht').1
        rcases (WriteLoop.step_cases ht).2.2 with ⟨-, hfailed, -⟩ | ⟨k, hk, -⟩
        · rw [hfailed] at hpc
          exact nomatch hpc
        · exact nomatch hk
    | some k =>
      have hk : k ≠ 0 := by
        rintro rfl
        exact hsome _ List.mem_cons_self rfl
      have hlen := ih hinv' (fun o' ho' => hsome o' (List.mem_cons_of_mem _ ho')) hrun'
      rw [Option.getD_some] at hlen
      omega

/-- The loop goes on with every outcome that its call can have. -/
theorem WriteLoop.step_isSome {s : WriteState σ α} (hpc : s.pc = .head) {outcome : Option ℕ}
    (hk : ∀ k, outcome = some k → (k : ℤ) ≤ loop.request s.vars) :
    (loop.step buffer outcome s).isSome := by
  unfold WriteLoop.step
  rw [if_pos hpc]
  match outcome with
  | none => rfl
  | some k =>
    dsimp only
    rw [if_pos (hk k rfl)]
    rfl

/-! ## What the loop does -/

/-- A loop that neither skips nor repeats a byte of the buffer. -/
structure Faithful (loop : WriteLoop σ) (buffer : List α) : Prop where
  /-- In front of a call the bytes taken are those up to the offset, and the count is
      that of the others. -/
  head : ∀ s, (loop.system buffer).Reachable s → s.pc = .head →
    ∃ n : ℕ, loop.offset s.vars = n ∧ s.accepted = buffer.take n ∧
      loop.request s.vars = buffer.length - n
  /-- No call is handed anything outside of the buffer. -/
  within : ∀ s, (loop.system buffer).Reachable s →
    ∀ r ∈ s.calls, 0 ≤ r.1 ∧ 0 ≤ r.2 ∧ r.1 + r.2 ≤ buffer.length
  /-- Without a failure the loop is left when the whole buffer was taken. -/
  left : ∀ s, (loop.system buffer).Reachable s → s.pc = .left → s.accepted = buffer
  /-- Every outcome of a call takes the loop further. -/
  goes_on : ∀ s : WriteState σ α, s.pc = .head → ∀ outcome : Option ℕ,
    (∀ k, outcome = some k → (k : ℤ) ≤ loop.request s.vars) →
      ((loop.system buffer).step outcome s).isSome
  /-- If every successful call takes a byte, there are at most `N + 1` calls. -/
  ends : ∀ outcomes s, (loop.system buffer).exec outcomes (loop.system buffer).init = some s →
    (∀ o ∈ outcomes, TakesSome o) → outcomes.length ≤ buffer.length + 1

/-- **Partial writes.** A loop whose variables track the number of bytes taken neither
    skips nor repeats a byte. -/
theorem Tracks.faithful (h : Tracks loop buffer.length vars) : Faithful loop buffer where
  head s hs hpc := by
    obtain ⟨n, hinv⟩ := h.inv_reachable hs
    refine ⟨n, ?_, hinv.accepted, ?_⟩
    · rw [hinv.vars, h.offset n hinv.le]
    · rw [hinv.vars, h.request n hinv.le]
  within s hs := by
    obtain ⟨n, hinv⟩ := h.inv_reachable hs
    exact hinv.within
  left s hs hpc := by
    obtain ⟨n, hinv⟩ := h.inv_reachable hs
    rw [hinv.accepted, hinv.left hpc, List.take_length]
  goes_on s hpc outcome hk := WriteLoop.step_isSome hpc hk
  ends outcomes s hrun hsome := by
    have hlen := h.run_length h.inv_init hsome hrun
    omega

end ChatOnC.Common
