import ChatOnC.MutexExample.Invariant

/-!
# The jobs run one by one

* `left_step`: every step leaves less to do.
* `Inv.not_stuck`: no thread waits for ever, nor does `main`.
* `jobs_one_by_one`: in every order of the steps the program ends, and what the threads print is
  at any time the beginning of `jobs n`.
-/

namespace ChatOnC.MutexExample

open ChatOnC.Common

variable {n : ℕ} {s s' : State} {a : Act}

/-! ## The end -/

/-- The steps that are left in a job. -/
def Job.left : Job → ℕ
  | .load => rounds + 7
  | .store _ => rounds + 6
  | .start => rounds + 5
  | .printStart _ => rounds + 4
  | .spin i => rounds - i + 3
  | .finish => 2
  | .printFinish _ => 1
  | .unlock => 0

def Pc.left : Pc → ℕ
  | .absent => rounds + 10
  | .lock => rounds + 9
  | .inside job => job.left + 1
  | .ended => 0

def Main.left (n : ℕ) : Main → ℕ
  | .init => 2 * n + 4
  | .create i => n - i + n + 3
  | .join i => n - i + 2
  | .destroy => 1
  | .failed | .returned | .undefined => 0

/-- The steps that are left at most. -/
def State.left (s : State) (n : ℕ) : ℕ := ∑ t ∈ Finset.range n, (s.pc t).left + s.main.left n

theorem left_of_doSomeThing {job job' : Job} {counter counter' : ℕ} {lines : List Line}
    (h : doSomeThing job counter = some (job', counter', lines)) : job'.left < job.left := by
  cases job with
  | spin i =>
    cases h
    split_ifs with hi
    · show rounds - (i + 1) + 3 < rounds - i + 3
      omega
    · show 2 < rounds - i + 3
      omega
  | unlock => cases h
  | _ =>
    cases h
    simp only [Job.left]
    omega

/-- A thread moves to a place with less to do. -/
theorem sum_left_lt {t : ℕ} {pc : Pc} (ht : t < n) (hlt : pc.left < (s.pc t).left) :
    ∑ u ∈ Finset.range n, ((s.setPc t pc).pc u).left < ∑ u ∈ Finset.range n, (s.pc u).left := by
  have hsum := sum_setPc (s := s) Pc.left ht pc
  omega

theorem left_step (h : Inv n s) (hout : Outcome n s s') : s'.left n < s.left n := by
  have hgoto : ∀ main : Main, main.left n < s.main.left n → (s.goto main).left n < s.left n :=
    fun main hlt => Nat.add_lt_add_left hlt _
  have hthread : ∀ t pc, s.pc t ≠ .absent → pc.left < (s.pc t).left →
      (s.setPc t pc).left n < s.left n :=
    fun t pc habs hlt => Nat.add_lt_add_right (sum_left_lt (h.lt_of_pc habs) hlt) _
  cases hout with
  | initialised hmain =>
    apply hgoto
    rw [hmain]
    show n - 0 + n + 3 < 2 * n + 4
    omega
  | initFailed hmain =>
    apply hgoto
    rw [hmain]
    show 0 < 2 * n + 4
    omega
  | @created i hmain hi =>
    have habs : s.pc i = .absent := h.main.absent i (by rw [hmain]; exact le_rfl)
    have hlt : Pc.left .lock < (s.pc i).left := by
      rw [habs]
      exact Nat.lt_succ_self _
    apply Nat.add_lt_add (sum_left_lt hi hlt)
    rw [hmain]
    show n - (i + 1) + n + 3 < n - i + n + 3
    omega
  | @notCreated i e hmain hi =>
    apply hgoto
    rw [hmain]
    show n - (i + 1) + n + 3 < n - i + n + 3
    omega
  | @createdAll i hmain hi =>
    apply hgoto
    rw [hmain]
    show n - 0 + 2 < n - i + n + 3
    omega
  | @joined i hmain hi hpc =>
    apply hgoto
    rw [hmain]
    show n - (i + 1) + 2 < n - i + 2
    omega
  | @joinedAbsent i hmain hi hpc =>
    apply hgoto
    rw [hmain]
    show 0 < n - i + 2
    omega
  | @joinedAll i hmain hi =>
    apply hgoto
    rw [hmain]
    show 1 < n - i + 2
    omega
  | destroyed hmain hfree =>
    apply hgoto
    rw [hmain]
    exact Nat.zero_lt_one
  | destroyedHeld hmain hheld =>
    apply hgoto
    rw [hmain]
    exact Nat.zero_lt_one
  | @locked t lock hpc hlock =>
    apply hthread t
    · rw [hpc]
      exact nofun
    · rw [hpc]
      exact Nat.lt_succ_self _
  | @ran t counter job job' lines hpc hrun =>
    apply hthread t
    · rw [hpc]
      exact nofun
    · rw [hpc]
      exact Nat.succ_lt_succ (left_of_doSomeThing hrun)
  | @unlocked t lock hpc hunlock =>
    apply hthread t
    · rw [hpc]
      exact nofun
    · rw [hpc]
      exact Nat.succ_pos _

/-- How the program may have ended. Undefined is a join of a thread that could not be created. -/
def Finished (n : ℕ) (s : State) : Prop :=
  match s.main with
  | .failed => s.output = [.initFailed]
  | .returned => s.output = jobs n
  | .undefined => ∃ e, .cantCreate e ∈ s.output
  | _ => False

theorem filter_isJob {lines : List Line} (hinit : .initFailed ∉ lines)
    (hcant : ¬∃ e, .cantCreate e ∈ lines) : lines.filter Line.isJob = lines := by
  apply List.filter_eq_self.mpr
  intro line hmem
  cases line with
  | started _ => rfl
  | finished _ => rfl
  | initFailed => exact absurd hmem hinit
  | cantCreate e => exact absurd ⟨e, hmem⟩ hcant

/-- The program has ended as it should. -/
theorem Inv.finished (h : Inv n s) (hover : s.main.over = true) : Finished n s := by
  have hm := h.main
  unfold Finished
  cases hmain : s.main with
  | failed => exact hm.failed hmain
  | undefined => exact hm.undefined hmain
  | returned =>
    have hend : ∀ t < n, s.pc t = .ended := fun t ht => hm.joined t (by rw [hmain]; exact ht)
    have hcant : ¬∃ e, .cantCreate e ∈ s.output := by
      rw [hm.cantCreate, hmain]
      rintro ⟨t, ht, hpc⟩
      rw [hend t ht] at hpc
      cases hpc
    have hfree : s.lock.holder = none := by
      by_contra hheld
      obtain ⟨t, ht⟩ := Option.ne_none_iff_exists'.mp hheld
      obtain ⟨job, hpc⟩ := h.inside_of_holder ht
      rw [hend t (h.lt_of_pc (by rw [hpc]; intro heq; cases heq))] at hpc
      cases hpc
    have hended : s.ended n = n := by
      rw [State.ended, Finset.sum_congr rfl fun t ht => if_pos (hend t (Finset.mem_range.mp ht))]
      simp
    have hserial := serial_eq (h.threads.guarded.idle hfree)
    have hmade : s.main ≠ .failed := by
      rw [hmain]
      intro heq
      cases heq
    rw [hended, Prod.mk.injEq, filter_isJob (hm.initFailed hmade) hcant] at hserial
    exact hserial.2
  | _ =>
    rw [hmain] at hover
    cases hover

theorem step_of_main {s₁ : State} (hover : s.main.over = false) (h : s.mainStep n a = some s₁) :
    (program n).step a s = some s₁ := by
  simp only [program, hover, Bool.false_eq_true, if_false]
  cases a with
  | lock t => cases h
  | run t => cases h
  | unlock t => cases h
  | _ => exact h

theorem step_of_thread {s₁ : State} (hover : s.main.over = false) (h : s.threadStep a = some s₁) :
    (program n).step a s = some s₁ := by
  simp only [program, hover, Bool.false_eq_true, if_false]
  cases a with
  | lock t => exact h
  | run t => exact h
  | unlock t => exact h
  | _ => cases h

/-- The thread that holds the mutex can go on. -/
theorem Inv.holder_steps {t : ℕ} (h : Inv n s) (hholder : s.lock.holder = some t) :
    ∃ a s', s.threadStep a = some s' := by
  obtain ⟨job, hpc⟩ := h.inside_of_holder hholder
  cases hrun : doSomeThing job s.counter with
  | some result =>
    obtain ⟨job', counter, lines⟩ := result
    refine ⟨.run t, { (s.setPc t (.inside job')).print lines with counter := counter }, ?_⟩
    simp only [State.threadStep, hpc, hrun]
    rfl
  | none =>
    have hjob : job = .unlock := by
      cases job with
      | unlock => rfl
      | _ => cases hrun
    rw [hjob] at hpc
    obtain ⟨lock, hunlock⟩ : ∃ lock, s.lock.unlock t = some lock := ⟨_, if_pos hholder⟩
    refine ⟨.unlock t, { s.setPc t .ended with lock := lock }, ?_⟩
    simp only [State.threadStep, hpc, hunlock, if_true]
    rfl

/-- A thread that stands before the mutex can take it, or another one can go on. -/
theorem Inv.thread_steps {t : ℕ} (h : Inv n s) (habs : s.pc t ≠ .absent) (hend : s.pc t ≠ .ended) :
    ∃ a s', s.threadStep a = some s' := by
  cases hholder : s.lock.holder with
  | some u => exact h.holder_steps hholder
  | none =>
    have hout := h.threads.guarded.holds t
    rw [hholder, Function.comp_apply] at hout
    cases hpc : s.pc t with
    | absent => exact absurd hpc habs
    | ended => exact absurd hpc hend
    | inside job =>
      rw [hpc] at hout
      cases hout.mp (Option.some_ne_none job)
    | lock =>
      obtain ⟨hblocked, hwoken⟩ := h.threads.quiet
      obtain ⟨lock, hlock⟩ : ∃ lock, s.lock.lock t = some lock :=
        ⟨_, dif_pos ⟨hholder, by rw [hblocked]; exact Finset.notMem_empty t,
          by rw [hwoken]; exact Finset.notMem_empty t⟩⟩
      refine ⟨.lock t, { s.setPc t (.inside .load) with lock := lock }, ?_⟩
      simp only [State.threadStep, hpc, hlock, if_true]
      rfl

/-- Where the program has not ended, some step can be made. -/
theorem Inv.not_stuck (h : Inv n s) (hover : s.main.over = false) :
    ∃ a s', (program n).step a s = some s' := by
  cases hmain : s.main with
  | init =>
    exact ⟨.mutexInit true, s.goto (.create 0), step_of_main hover (if_pos hmain)⟩
  | create i =>
    refine ⟨.create none, s.createStep n i none, step_of_main hover ?_⟩
    simp only [State.mainStep, hmain]
  | join i =>
    have hjoin : s.mainStep n .join = s.joinStep n i := by
      simp only [State.mainStep, hmain]
    by_cases hi : i < n
    · cases hpc : s.pc i with
      | absent =>
        refine ⟨.join, s.goto .undefined, step_of_main hover (hjoin.trans ?_)⟩
        simp only [State.joinStep, hi, hpc, if_true]
      | ended =>
        refine ⟨.join, s.goto (.join (i + 1)), step_of_main hover (hjoin.trans ?_)⟩
        simp only [State.joinStep, hi, hpc, if_true]
      | _ =>
        obtain ⟨a, s', hstep⟩ := h.thread_steps (t := i) (by rw [hpc]; intro heq; cases heq)
          (by rw [hpc]; intro heq; cases heq)
        exact ⟨a, s', step_of_thread hover hstep⟩
    · exact ⟨.join, s.goto .destroy, step_of_main hover (hjoin.trans (if_neg hi))⟩
  | destroy =>
    exact ⟨.destroy, s.goto (if s.lock.holder = none then .returned else .undefined),
      step_of_main hover (if_pos hmain)⟩
  | _ =>
    rw [hmain] at hover
    cases hover

/-- At any time `counter` and the lines of the jobs are what the jobs that are over have made of
    them, and a part of one more. -/
theorem Inv.progress (h : Inv n s) :
    s.counter ≤ n ∧ s.output.filter Line.isJob <+: jobs n := by
  have hguarded := h.threads.guarded
  cases hholder : s.lock.holder with
  | none =>
    have hserial := serial_eq (hguarded.idle hholder)
    rw [Prod.mk.injEq] at hserial
    rw [hserial.1, hserial.2]
    exact ⟨ended_le s n, jobs_le (ended_le s n)⟩
  | some t =>
    obtain ⟨job, hpc⟩ := h.inside_of_holder hholder
    have hlt : t < n := h.lt_of_pc (by rw [hpc]; exact nofun)
    obtain ⟨x, hserial, hruns⟩ := hguarded.busy t job (by rw [Function.comp_apply, hpc]; rfl)
    rw [serial_eq hserial] at hruns
    -- this thread has not ended
    have hsum := sum_setPc (s := s) (fun pc => if pc = .ended then 1 else 0) hlt .ended
    rw [hpc] at hsum
    have hmore : (s.setPc t .ended).ended n = s.ended n + 1 := hsum
    have hle : s.ended n + 1 ≤ n := by
      rw [← hmore]
      exact ended_le _ n
    exact ⟨(counter_of_runs hruns).trans hle, (lines_of_runs hruns).trans (jobs_le hle)⟩

/-- **The mutex example.** With any number of threads and in every order of the steps: the
    program ends, having printed all jobs in order unless a thread could not be created; and
    what the threads have printed is at any time the beginning of that, with a `counter` that has
    never gone beyond the number of threads, so that below `2 ^ 31` of them no `int` overflows. -/
theorem jobs_one_by_one (n : ℕ) :
    (program n).AlwaysEnds (fun _ _ => True) (Finished n) ∧
      ∀ s, (program n).Reachable s →
        s.counter ≤ n ∧ s.output.filter Line.isJob <+: jobs n := by
  refine ⟨System.alwaysEnds_of_measure (I := Inv n) (fun s => s.left n)
    (fun s hs => inv_reach hs) ?_ ?_, fun s hs => (inv_reach hs).progress⟩
  · exact fun a s s' _ hinv hstep => left_step hinv (step_outcome hstep)
  · intro s hinv hstuck
    apply hinv.finished
    by_contra hover
    obtain ⟨a, s', hstep⟩ := hinv.not_stuck (Bool.eq_false_iff.mpr hover)
    exact System.not_stuck_of_step trivial hstep hstuck

end ChatOnC.MutexExample
