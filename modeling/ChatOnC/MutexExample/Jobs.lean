import ChatOnC.Common.Termination
import ChatOnC.MutexExample.Model

/-!
# What the jobs print

Each thread reads, writes and prints `counter` in steps of its own, and between two of them any
other thread may run. The mutex keeps the others out.

* `serial_eq`: what jobs that run alone make of `counter` and the output.
* `ThreadInv`: with the mutex, they are like jobs that run alone.
* `ThreadInv.locked`, `ThreadInv.ran`, `ThreadInv.unlocked`: how each step keeps that.
-/

namespace ChatOnC.MutexExample

open ChatOnC.Common

variable {n : ℕ} {s s' : State}

/-! ## Jobs that run alone -/

/-- `doSomeThing` on `counter` and the lines of the jobs. -/
def jobSection : Section Job (ℕ × List Line) where
  start := .load
  next job x := (doSomeThing job x.1).map fun (job, counter, lines) =>
    (job, counter, x.2 ++ lines)

/-- The lines of `n` jobs. -/
def jobs (n : ℕ) : List Line :=
  (List.range n).flatMap fun i => [.started (i + 1), .finished (i + 1)]

theorem jobs_succ (n : ℕ) : jobs (n + 1) = jobs n ++ [.started (n + 1), .finished (n + 1)] := by
  rw [jobs, List.range_succ, List.flatMap_append]
  rfl

theorem jobs_le {m : ℕ} (h : m ≤ n) : jobs m <+: jobs n := by
  induction h with
  | refl => exact List.prefix_rfl
  | step _ ih =>
    rw [jobs_succ]
    exact ih.trans (List.prefix_append _ _)

/-- What a job has made of `counter`, if it was `n`, and of the lines. -/
def JobAt (n : ℕ) (out : List Line) : Job → ℕ × List Line → Prop
  | .load, x => x = (n, out)
  | .store read, x => read = n ∧ x = (n, out)
  | .start, x => x = (n + 1, out)
  | .printStart arg, x => arg = n + 1 ∧ x = (n + 1, out)
  | .spin _, x => x = (n + 1, out ++ [.started (n + 1)])
  | .finish, x => x = (n + 1, out ++ [.started (n + 1)])
  | .printFinish arg, x => arg = n + 1 ∧ x = (n + 1, out ++ [.started (n + 1)])
  | .unlock, x => x = (n + 1, out ++ [.started (n + 1), .finished (n + 1)])

theorem jobAt_step {out : List Line} {job job' : Job} {x y : ℕ × List Line}
    (h : JobAt n out job x) (hnext : jobSection.next job x = some (job', y)) :
    JobAt n out job' y := by
  obtain ⟨⟨job₁, counter, lines⟩, hrun, heq⟩ := Option.map_eq_some_iff.mp hnext
  cases heq
  cases job with
  | load =>
    cases h
    cases hrun
    exact ⟨rfl, by rw [List.append_nil]⟩
  | store read =>
    obtain ⟨rfl, rfl⟩ := h
    cases hrun
    show (_, _) = _
    rw [List.append_nil]
  | start =>
    cases h
    cases hrun
    exact ⟨rfl, by rw [List.append_nil]⟩
  | printStart arg =>
    obtain ⟨rfl, rfl⟩ := h
    cases hrun
    rfl
  | spin i =>
    cases h
    cases hrun
    split_ifs
    · show (_, _) = _
      rw [List.append_nil]
    · show (_, _) = _
      rw [List.append_nil]
  | finish =>
    cases h
    cases hrun
    exact ⟨rfl, by rw [List.append_nil]⟩
  | printFinish arg =>
    obtain ⟨rfl, rfl⟩ := h
    cases hrun
    show (_, _) = _
    rw [List.append_assoc]
    rfl
  | unlock => cases hrun

theorem jobAt_of_runs {out : List Line} {job : Job} {x : ℕ × List Line}
    (h : jobSection.Runs (n, out) job x) : JobAt n out job x := by
  induction h with
  | start => rfl
  | step h hnext ih => exact jobAt_step ih hnext

/-- A job is through where it unlocks. -/
theorem next_eq_none {job : Job} {x : ℕ × List Line} (h : jobSection.next job x = none) :
    job = .unlock := by
  cases job with
  | unlock => rfl
  | _ => cases h

/-- `n` jobs alone count to `n`. -/
theorem serial_eq {x : ℕ × List Line} (h : jobSection.Serial (0, []) n x) : x = (n, jobs n) := by
  induction h with
  | zero => rfl
  | @succ m x y h hrun ih =>
    obtain ⟨job, hruns, hend⟩ := hrun
    rw [ih] at hruns
    have hat := jobAt_of_runs hruns
    rw [next_eq_none hend] at hat
    rw [hat, jobs_succ]

/-- One job more has at most its own two lines. -/
theorem lines_of_runs {job : Job} {x : ℕ × List Line}
    (h : jobSection.Runs (n, jobs n) job x) : x.2 <+: jobs (n + 1) := by
  have hat := jobAt_of_runs h
  have hnone : jobs n <+: jobs (n + 1) := jobs_le (Nat.le_succ n)
  have hone : jobs n ++ [.started (n + 1)] <+: jobs (n + 1) := by
    rw [jobs_succ]
    exact ⟨[.finished (n + 1)], by rw [List.append_assoc]; rfl⟩
  cases job with
  | load => rwa [hat]
  | store read => rwa [hat.2]
  | start => rwa [hat]
  | printStart arg => rwa [hat.2]
  | spin i => rwa [hat]
  | finish => rwa [hat]
  | printFinish arg => rwa [hat.2]
  | unlock =>
    rw [hat, jobs_succ]

/-- And it counts to one more at most. -/
theorem counter_of_runs {job : Job} {x : ℕ × List Line}
    (h : jobSection.Runs (n, jobs n) job x) : x.1 ≤ n + 1 := by
  have hat := jobAt_of_runs h
  cases job with
  | load =>
    rw [hat]
    exact Nat.le_succ n
  | store read =>
    rw [hat.2]
    exact Nat.le_succ n
  | printStart arg => rw [hat.2]
  | printFinish arg => rw [hat.2]
  | _ => rw [hat]

/-! ## The threads -/

/-- A sum over the threads when one of them moves. -/
theorem sum_setPc (g : Pc → ℕ) {t : ℕ} (ht : t < n) (pc : Pc) :
    ∑ u ∈ Finset.range n, g ((s.setPc t pc).pc u) + g (s.pc t) =
      ∑ u ∈ Finset.range n, g (s.pc u) + g pc := by
  have hsum := System.sum_add_of_one (s := Finset.range n) (i := t)
    (f := fun u => g ((s.setPc t pc).pc u)) (g := fun u => g (s.pc u))
    (Finset.mem_range.mpr ht) fun u _ hu => by
      show g (Function.update s.pc t pc u) = g (s.pc u)
      rw [Function.update_of_ne hu]
  have hself : (s.setPc t pc).pc t = pc := by
    show Function.update s.pc t pc t = pc
    rw [Function.update_self]
  simp only [hself] at hsum
  exact hsum

/-- How many threads have ended. -/
def State.ended (s : State) (n : ℕ) : ℕ :=
  ∑ t ∈ Finset.range n, if s.pc t = .ended then 1 else 0

theorem ended_le (s : State) (n : ℕ) : s.ended n ≤ n := by
  have hle : s.ended n ≤ ∑ _ ∈ Finset.range n, 1 := by
    apply Finset.sum_le_sum
    intro t _
    split_ifs
    · exact le_rfl
    · exact Nat.zero_le 1
  rwa [← Finset.card_eq_sum_ones, Finset.card_range] at hle

/-- Nobody waits on the condition variable, which the program does not have, and the mutex guards
    `counter` and the lines of the jobs. -/
structure ThreadInv (n : ℕ) (s : State) : Prop where
  quiet : s.lock.blocked = ∅ ∧ s.lock.woken = ∅
  guarded : jobSection.Guarded (0, []) s.lock (Pc.job ∘ s.pc) (s.ended n)
    (s.counter, s.output.filter Line.isJob)

theorem lines_of_doSomeThing {job job' : Job} {counter counter' : ℕ} {lines : List Line}
    (h : doSomeThing job counter = some (job', counter', lines)) :
    ∀ line ∈ lines, line.isJob = true := by
  cases job with
  | unlock => cases h
  | printStart n =>
    cases h
    exact fun line hline => by rw [List.mem_singleton.mp hline]; rfl
  | printFinish n =>
    cases h
    exact fun line hline => by rw [List.mem_singleton.mp hline]; rfl
  | _ =>
    cases h
    exact fun line hline => absurd hline List.not_mem_nil

/-- What `main` prints is none of the jobs' lines. -/
theorem ThreadInv.congr (h : ThreadInv n s) (hlock : s'.lock = s.lock) (hpc : s'.pc = s.pc)
    (hcounter : s'.counter = s.counter)
    (hout : s'.output.filter Line.isJob = s.output.filter Line.isJob) : ThreadInv n s' := by
  obtain ⟨hquiet, hguarded⟩ := h
  refine ⟨by rwa [hlock], ?_⟩
  rw [hlock, hpc, hcounter, hout, State.ended, hpc]
  exact hguarded

/-- `main` starts a thread. -/
theorem ThreadInv.created {t : ℕ} (h : ThreadInv n s) (ht : t < n) (habs : s.pc t = .absent) :
    ThreadInv n (s.setPc t .lock) := by
  obtain ⟨hquiet, hguarded⟩ := h
  have hjob : Pc.job ∘ Function.update s.pc t .lock = Pc.job ∘ s.pc := by
    rw [Function.comp_update]
    apply Function.update_eq_self_iff.mpr
    rw [Function.comp_apply, habs]
    rfl
  have hsum := sum_setPc (s := s) (fun pc => if pc = .ended then 1 else 0) ht .lock
  rw [habs] at hsum
  have hended : (s.setPc t .lock).ended n = s.ended n := hsum
  refine ⟨hquiet, ?_⟩
  show jobSection.Guarded (0, []) s.lock (Pc.job ∘ Function.update s.pc t .lock) _ _
  rw [hjob, hended]
  exact hguarded

theorem ThreadInv.locked {t : ℕ} {lock : Monitor ℕ} (h : ThreadInv n s) (ht : t < n)
    (hpc : s.pc t = .lock) (hlock : s.lock.lock t = some lock) :
    ThreadInv n { s.setPc t (.inside .load) with lock := lock } := by
  obtain ⟨hquiet, hguarded⟩ := h
  obtain ⟨-, -, hblocked, hwoken⟩ := Monitor.lock_eq_some hlock
  have hsum := sum_setPc (s := s) (fun pc => if pc = .ended then 1 else 0) ht (.inside .load)
  rw [hpc] at hsum
  have hended : (s.setPc t (.inside .load)).ended n = s.ended n := hsum
  refine ⟨⟨hblocked.trans hquiet.1, hwoken.trans hquiet.2⟩, ?_⟩
  have hnew := hguarded.lock hlock
  show jobSection.Guarded (0, []) lock (Pc.job ∘ Function.update s.pc t (.inside .load))
    ((s.setPc t (.inside .load)).ended n) _
  rw [Function.comp_update, hended]
  exact hnew

theorem ThreadInv.ran {t counter : ℕ} {job job' : Job} {lines : List Line} (h : ThreadInv n s)
    (ht : t < n) (hpc : s.pc t = .inside job)
    (hrun : doSomeThing job s.counter = some (job', counter, lines)) :
    ThreadInv n { (s.setPc t (.inside job')).print lines with counter := counter } := by
  obtain ⟨hquiet, hguarded⟩ := h
  have hsum := sum_setPc (s := s) (fun pc => if pc = .ended then 1 else 0) ht (.inside job')
  rw [hpc] at hsum
  have hended : (s.setPc t (.inside job')).ended n = s.ended n := hsum
  have hin : (Pc.job ∘ s.pc) t = some job := by
    rw [Function.comp_apply, hpc]
    rfl
  have hnext : jobSection.next job (s.counter, s.output.filter Line.isJob) =
      some (job', counter, s.output.filter Line.isJob ++ lines) := by
    show (doSomeThing job s.counter).map _ = _
    rw [hrun]
    rfl
  refine ⟨hquiet, ?_⟩
  have hnew := hguarded.step hin hnext
  show jobSection.Guarded (0, []) s.lock (Pc.job ∘ Function.update s.pc t (.inside job'))
    ((s.setPc t (.inside job')).ended n) (counter, (s.output ++ lines).filter Line.isJob)
  rw [Function.comp_update, hended, List.filter_append,
    List.filter_eq_self.mpr (lines_of_doSomeThing hrun)]
  exact hnew

theorem ThreadInv.unlocked {t : ℕ} {lock : Monitor ℕ} (h : ThreadInv n s) (ht : t < n)
    (hpc : s.pc t = .inside .unlock) (hunlock : s.lock.unlock t = some lock) :
    ThreadInv n { s.setPc t .ended with lock := lock } := by
  obtain ⟨hquiet, hguarded⟩ := h
  obtain ⟨-, -, hblocked, hwoken⟩ := Monitor.unlock_eq_some hunlock
  have hsum := sum_setPc (s := s) (fun pc => if pc = .ended then 1 else 0) ht .ended
  rw [hpc] at hsum
  have hended : (s.setPc t .ended).ended n = s.ended n + 1 := hsum
  have hin : (Pc.job ∘ s.pc) t = some .unlock := by
    rw [Function.comp_apply, hpc]
    rfl
  refine ⟨⟨hblocked.trans hquiet.1, hwoken.trans hquiet.2⟩, ?_⟩
  have hnew := hguarded.unlock hin rfl hunlock
  show jobSection.Guarded (0, []) lock (Pc.job ∘ Function.update s.pc t .ended)
    ((s.setPc t .ended).ended n) _
  rw [Function.comp_update, hended]
  exact hnew

end ChatOnC.MutexExample
