import ChatOnC.MutexExample.Jobs

/-!
# Creating and joining the threads

* `step_outcome`: the outcomes of a step, listed once.
* `MainInv`: what `main` knows of the threads, and what it has printed.
* `inv_step`: every step keeps that and `ThreadInv`.
-/

namespace ChatOnC.MutexExample

open ChatOnC.Common

variable {n : ℕ} {s s' : State} {a : Act}

/-! ## What a step can do -/

/-- The state after a step. -/
inductive Outcome (n : ℕ) (s : State) : State → Prop
  | initialised (hmain : s.main = .init) : Outcome n s (s.goto (.create 0))
  | initFailed (hmain : s.main = .init) :
      Outcome n s ((s.print [.initFailed]).goto .failed)
  | created {i : ℕ} (hmain : s.main = .create i) (hi : i < n) :
      Outcome n s ((s.setPc i .lock).goto (.create (i + 1)))
  | notCreated {i : ℕ} {e : String} (hmain : s.main = .create i) (hi : i < n) :
      Outcome n s ((s.print [.cantCreate e]).goto (.create (i + 1)))
  | createdAll {i : ℕ} (hmain : s.main = .create i) (hi : n ≤ i) : Outcome n s (s.goto (.join 0))
  | joined {i : ℕ} (hmain : s.main = .join i) (hi : i < n) (hpc : s.pc i = .ended) :
      Outcome n s (s.goto (.join (i + 1)))
  | joinedAbsent {i : ℕ} (hmain : s.main = .join i) (hi : i < n) (hpc : s.pc i = .absent) :
      Outcome n s (s.goto .undefined)
  | joinedAll {i : ℕ} (hmain : s.main = .join i) (hi : n ≤ i) : Outcome n s (s.goto .destroy)
  | destroyed (hmain : s.main = .destroy) (hfree : s.lock.holder = none) :
      Outcome n s (s.goto .returned)
  | destroyedHeld (hmain : s.main = .destroy) (hheld : s.lock.holder ≠ none) :
      Outcome n s (s.goto .undefined)
  | locked {t : ℕ} {lock : Monitor ℕ} (hpc : s.pc t = .lock) (hlock : s.lock.lock t = some lock) :
      Outcome n s { s.setPc t (.inside .load) with lock := lock }
  | ran {t counter : ℕ} {job job' : Job} {lines : List Line} (hpc : s.pc t = .inside job)
      (hrun : doSomeThing job s.counter = some (job', counter, lines)) :
      Outcome n s { (s.setPc t (.inside job')).print lines with counter := counter }
  | unlocked {t : ℕ} {lock : Monitor ℕ} (hpc : s.pc t = .inside .unlock)
      (hunlock : s.lock.unlock t = some lock) :
      Outcome n s { s.setPc t .ended with lock := lock }

theorem thread_outcome (h : s.threadStep a = some s') : Outcome n s s' := by
  unfold State.threadStep at h
  cases a with
  | lock t =>
    obtain ⟨hpc, h⟩ := Option.ite_none_right_eq_some.mp h
    obtain ⟨lock, hlock, rfl⟩ := Option.map_eq_some_iff.mp h
    exact .locked hpc hlock
  | run t =>
    cases hpc : s.pc t with
    | inside job =>
      simp only [hpc] at h
      obtain ⟨⟨job', counter, lines⟩, hrun, rfl⟩ := Option.map_eq_some_iff.mp h
      exact .ran hpc hrun
    | _ =>
      simp only [hpc] at h
      cases h
  | unlock t =>
    obtain ⟨hpc, h⟩ := Option.ite_none_right_eq_some.mp h
    obtain ⟨lock, hunlock, rfl⟩ := Option.map_eq_some_iff.mp h
    exact .unlocked hpc hunlock
  | _ => cases h

theorem main_outcome (h : s.mainStep n a = some s') : Outcome n s s' := by
  unfold State.mainStep at h
  cases a with
  | mutexInit ok =>
    obtain ⟨hmain, h⟩ := Option.ite_none_right_eq_some.mp h
    cases ok with
    | true =>
      cases h
      exact .initialised hmain
    | false =>
      cases h
      exact .initFailed hmain
  | create error =>
    cases hmain : s.main with
    | create i =>
      simp only [hmain, State.createStep, Option.some.injEq] at h
      subst h
      split_ifs with hi
      · cases error with
        | none => exact .created hmain hi
        | some e => exact .notCreated hmain hi
      · exact .createdAll hmain (Nat.le_of_not_lt hi)
    | _ =>
      simp only [hmain] at h
      cases h
  | join =>
    cases hmain : s.main with
    | join i =>
      simp only [hmain, State.joinStep] at h
      split_ifs at h with hi
      · cases hpc : s.pc i with
        | ended =>
          simp only [hpc] at h
          cases h
          exact .joined hmain hi hpc
        | absent =>
          simp only [hpc] at h
          cases h
          exact .joinedAbsent hmain hi hpc
        | _ =>
          simp only [hpc] at h
          cases h
      · cases h
        exact .joinedAll hmain (Nat.le_of_not_lt hi)
    | _ =>
      simp only [hmain] at h
      cases h
  | destroy =>
    obtain ⟨hmain, h⟩ := Option.ite_none_right_eq_some.mp h
    cases h
    split_ifs with hfree
    · exact .destroyed hmain hfree
    · exact .destroyedHeld hmain hfree
  | _ => cases h

theorem step_outcome (h : (program n).step a s = some s') : Outcome n s s' := by
  simp only [program] at h
  split_ifs at h
  cases a with
  | lock t => exact thread_outcome h
  | run t => exact thread_outcome h
  | unlock t => exact thread_outcome h
  | mutexInit ok => exact main_outcome h
  | create error => exact main_outcome h
  | join => exact main_outcome h
  | destroy => exact main_outcome h

/-! ## `main` -/

/-- The threads before this one have been created, or could not be. -/
def Main.createdTo (n : ℕ) : Main → ℕ
  | .init | .failed => 0
  | .create i => i
  | .join _ | .destroy | .returned | .undefined => n

/-- The threads before this one have been joined. -/
def Main.joinedTo (n : ℕ) : Main → ℕ
  | .join i => i
  | .destroy | .returned => n
  | .init | .create _ | .failed | .undefined => 0

/-- What `main` knows of the threads, and what it has printed. -/
structure MainInv (n : ℕ) (s : State) : Prop where
  created_le : s.main.createdTo n ≤ n
  joined_le : s.main.joinedTo n ≤ n
  absent : ∀ t, s.main.createdTo n ≤ t → s.pc t = .absent
  joined : ∀ t, t < s.main.joinedTo n → s.pc t = .ended
  cantCreate : (∃ e, .cantCreate e ∈ s.output) ↔ ∃ t < s.main.createdTo n, s.pc t = .absent
  undefined : s.main = .undefined → ∃ e, .cantCreate e ∈ s.output
  fresh : s.main = .init → s.output = []
  failed : s.main = .failed → s.output = [.initFailed]
  initFailed : s.main ≠ .failed → .initFailed ∉ s.output

theorem MainInv.lt_created {t : ℕ} (h : MainInv n s) (hpc : s.pc t ≠ .absent) :
    t < s.main.createdTo n := by
  by_contra hle
  exact hpc (h.absent t (Nat.le_of_not_lt hle))

/-- A thread moves, and prints lines of its job. -/
theorem MainInv.thread {t : ℕ} {pc : Pc} (lines : List Line) (h : MainInv n s)
    (hmain : s'.main = s.main) (hpcs : s'.pc = Function.update s.pc t pc)
    (hout : s'.output = s.output ++ lines) (hlines : ∀ line ∈ lines, line.isJob = true)
    (habs : s.pc t ≠ .absent) (hend : s.pc t ≠ .ended) (hpc : pc ≠ .absent) : MainInv n s' := by
  have ht := h.lt_created habs
  have hjob : ∀ line : Line, line.isJob = false → (line ∈ s'.output ↔ line ∈ s.output) := by
    intro line hline
    rw [hout, List.mem_append]
    refine ⟨fun hmem => hmem.resolve_right fun hmem => ?_, .inl⟩
    rw [hlines line hmem] at hline
    cases hline
  have hcant : (∃ e, .cantCreate e ∈ s'.output) ↔ ∃ e, .cantCreate e ∈ s.output :=
    exists_congr fun e => hjob (.cantCreate e) rfl
  have hstarted : s.main.createdTo n ≠ 0 := by omega
  refine ⟨by rw [hmain]; exact h.created_le, by rw [hmain]; exact h.joined_le, ?_, ?_, ?_, ?_, ?_,
    ?_, ?_⟩
  · intro u hu
    rw [hmain] at hu
    rw [hpcs, Function.update_of_ne (by omega)]
    exact h.absent u hu
  · intro u hu
    rw [hmain] at hu
    have hne : u ≠ t := by
      rintro rfl
      exact hend (h.joined u hu)
    rw [hpcs, Function.update_of_ne hne]
    exact h.joined u hu
  · rw [hcant, h.cantCreate, hmain, hpcs]
    refine exists_congr fun u => and_congr_right fun _ => ?_
    by_cases hut : u = t
    · rw [hut, Function.update_self]
      exact iff_of_false habs hpc
    · rw [Function.update_of_ne hut]
  · intro hu
    rw [hcant]
    exact h.undefined (hmain ▸ hu)
  · intro hinit
    rw [hmain] at hinit
    rw [hinit] at hstarted
    exact absurd rfl hstarted
  · intro hfail
    rw [hmain] at hfail
    rw [hfail] at hstarted
    exact absurd rfl hstarted
  · rw [hmain, hjob _ rfl]
    exact h.initFailed

/-- `main` moves on to another place and leaves the threads and the output alone. -/
theorem MainInv.goto {main : Main} (h : MainInv n s)
    (hcreated : main.createdTo n = s.main.createdTo n) (hle : main.joinedTo n ≤ n)
    (hjoined : ∀ t, t < main.joinedTo n → s.pc t = .ended)
    (hundef : main = .undefined → ∃ e, .cantCreate e ∈ s.output) (hinit : main ≠ .init)
    (hfailed : s.main ≠ .failed) (hfail : main ≠ .failed) : MainInv n (s.goto main) where
  created_le := by
    show main.createdTo n ≤ n
    rw [hcreated]
    exact h.created_le
  joined_le := hle
  absent t ht := h.absent t (hcreated ▸ ht)
  joined := hjoined
  cantCreate := by
    show _ ↔ ∃ t < main.createdTo n, s.pc t = .absent
    rw [hcreated]
    exact h.cantCreate
  undefined := hundef
  fresh heq := absurd heq hinit
  failed heq := absurd heq hfail
  initFailed _ := h.initFailed hfailed

/-- `pthread_create` returns, and `main` goes on to the next thread. -/
theorem MainInv.create {i : ℕ} (h : MainInv n s) (hmain : s.main = .create i) (hi : i < n) :
    MainInv n ((s.setPc i .lock).goto (.create (i + 1))) ∧
      ∀ e, MainInv n ((s.print [.cantCreate e]).goto (.create (i + 1))) := by
  have hcreated : s.main.createdTo n = i := by
    rw [hmain]
    rfl
  have habs : ∀ t, i ≤ t → s.pc t = .absent := fun t ht => h.absent t (hcreated ▸ ht)
  have hinit : .initFailed ∉ s.output := h.initFailed (by rw [hmain]; exact nofun)
  have hcant := h.cantCreate
  rw [hcreated] at hcant
  refine ⟨⟨hi, Nat.zero_le n, fun t ht => ?_, nofun, ?_, nofun, nofun, nofun, fun _ => hinit⟩,
    fun e => ⟨hi, Nat.zero_le n, fun t ht => habs t (Nat.le_of_succ_le ht), nofun, ?_, nofun,
      nofun, nofun, fun _ hmem => ?_⟩⟩
  · show Function.update s.pc i .lock t = .absent
    have hti : i < t := ht
    rw [Function.update_of_ne (by omega)]
    exact habs t (by omega)
  · show _ ↔ ∃ t < i + 1, Function.update s.pc i .lock t = .absent
    show (∃ e, .cantCreate e ∈ s.output) ↔ _
    rw [hcant]
    constructor
    · rintro ⟨t, ht, hpc⟩
      exact ⟨t, by omega, by rw [Function.update_of_ne (by omega)]; exact hpc⟩
    · rintro ⟨t, ht, hpc⟩
      have hne : t ≠ i := by
        rintro rfl
        rw [Function.update_self] at hpc
        cases hpc
      rw [Function.update_of_ne hne] at hpc
      exact ⟨t, by omega, hpc⟩
  · exact iff_of_true ⟨e, List.mem_append_right _ List.mem_cons_self⟩
      ⟨i, Nat.lt_succ_self i, habs i le_rfl⟩
  · rcases List.mem_append.mp hmem with hmem | hmem
    · exact hinit hmem
    · cases List.mem_singleton.mp hmem

/-- The mutex could not be initialised. -/
theorem MainInv.initFailed_init (h : MainInv n s) (hmain : s.main = .init) :
    MainInv n ((s.print [.initFailed]).goto .failed) := by
  have hout := h.fresh hmain
  have habs : ∀ t, s.pc t = .absent := fun t => h.absent t (by rw [hmain]; exact Nat.zero_le t)
  have hnew : ((s.print [.initFailed]).goto .failed).output = [.initFailed] := by
    show s.output ++ [.initFailed] = _
    rw [hout]
    rfl
  refine ⟨Nat.zero_le n, Nat.zero_le n, fun t _ => habs t, nofun, ?_, nofun, nofun, fun _ => hnew,
    fun hne => absurd rfl hne⟩
  rw [hnew]
  refine iff_of_false ?_ nofun
  rintro ⟨e, hmem⟩
  cases List.mem_singleton.mp hmem

structure Inv (n : ℕ) (s : State) : Prop where
  threads : ThreadInv n s
  main : MainInv n s

/-- A thread that holds the mutex stands inside. -/
theorem Inv.inside_of_holder {t : ℕ} (h : Inv n s) (hholder : s.lock.holder = some t) :
    ∃ job, s.pc t = .inside job := by
  obtain ⟨job, hjob⟩ := h.threads.guarded.exists_inside hholder
  rw [Function.comp_apply] at hjob
  cases hpc : s.pc t with
  | inside job' => exact ⟨job', rfl⟩
  | _ =>
    rw [hpc] at hjob
    cases hjob

theorem Inv.lt_of_pc {t : ℕ} (h : Inv n s) (hpc : s.pc t ≠ .absent) : t < n :=
  Nat.lt_of_lt_of_le (h.main.lt_created hpc) h.main.created_le

theorem Inv.frame {main : Main} (h : Inv n s) (hmain : MainInv n (s.goto main)) :
    Inv n (s.goto main) :=
  ⟨h.threads.congr rfl rfl rfl rfl, hmain⟩

/-- Every step keeps the invariant. -/
theorem inv_step (h : Inv n s) (hout : Outcome n s s') : Inv n s' := by
  have hm := h.main
  cases hout with
  | initialised hmain =>
    apply h.frame
    refine hm.goto ?_ (Nat.zero_le n) nofun nofun nofun ?_ nofun
    · rw [hmain]
      rfl
    · rw [hmain]
      exact nofun
  | initFailed hmain =>
    refine ⟨h.threads.congr rfl rfl rfl ?_, hm.initFailed_init hmain⟩
    exact (List.filter_append ..).trans (List.append_nil _)
  | @created i hmain hi =>
    have habs : s.pc i = .absent := hm.absent i (by rw [hmain]; exact le_rfl)
    exact ⟨(h.threads.created hi habs).congr rfl rfl rfl rfl, (hm.create hmain hi).1⟩
  | @notCreated i e hmain hi =>
    refine ⟨h.threads.congr rfl rfl rfl ?_, (hm.create hmain hi).2 e⟩
    exact (List.filter_append ..).trans (List.append_nil _)
  | @createdAll i hmain hi =>
    have hle := hm.created_le
    rw [hmain] at hle
    apply h.frame
    refine hm.goto ?_ (Nat.zero_le n) nofun nofun nofun ?_ nofun
    · rw [hmain]
      exact Nat.le_antisymm hi hle
    · rw [hmain]
      exact nofun
  | @joined i hmain hi hpc =>
    have hjoined := hm.joined
    rw [hmain] at hjoined
    apply h.frame
    refine hm.goto ?_ hi ?_ nofun nofun ?_ nofun
    · rw [hmain]
      rfl
    · intro t ht
      rcases Nat.lt_succ_iff_lt_or_eq.mp ht with ht | rfl
      · exact hjoined t ht
      · exact hpc
    · rw [hmain]
      exact nofun
  | @joinedAbsent i hmain hi hpc =>
    apply h.frame
    refine hm.goto ?_ (Nat.zero_le n) nofun ?_ nofun ?_ nofun
    · rw [hmain]
      rfl
    · intro _
      apply hm.cantCreate.mpr
      exact ⟨i, by rw [hmain]; exact hi, hpc⟩
    · rw [hmain]
      exact nofun
  | @joinedAll i hmain hi =>
    have hjoined := hm.joined
    rw [hmain] at hjoined
    apply h.frame
    refine hm.goto ?_ le_rfl ?_ nofun nofun ?_ nofun
    · rw [hmain]
      rfl
    · exact fun t ht => hjoined t (Nat.lt_of_lt_of_le ht hi)
    · rw [hmain]
      exact nofun
  | destroyed hmain hfree =>
    have hjoined := hm.joined
    rw [hmain] at hjoined
    apply h.frame
    refine hm.goto ?_ le_rfl hjoined nofun nofun ?_ nofun
    · rw [hmain]
      rfl
    · rw [hmain]
      exact nofun
  | destroyedHeld hmain hheld =>
    -- all threads have ended, so none of them holds the mutex
    obtain ⟨t, ht⟩ := Option.ne_none_iff_exists'.mp hheld
    obtain ⟨job, hpc⟩ := h.inside_of_holder ht
    have hlt : t < n := h.lt_of_pc (by rw [hpc]; exact nofun)
    have hend := hm.joined t (by rw [hmain]; exact hlt)
    rw [hpc] at hend
    cases hend
  | @locked t lock hpc hlock =>
    have habs : s.pc t ≠ .absent := by
      rw [hpc]
      exact nofun
    refine ⟨h.threads.locked (h.lt_of_pc habs) hpc hlock, ?_⟩
    exact hm.thread [] rfl rfl (List.append_nil _).symm (fun _ hmem => absurd hmem
      List.not_mem_nil) habs (by rw [hpc]; exact nofun) nofun
  | @ran t counter job job' lines hpc hrun =>
    have habs : s.pc t ≠ .absent := by
      rw [hpc]
      exact nofun
    refine ⟨h.threads.ran (h.lt_of_pc habs) hpc hrun, ?_⟩
    exact hm.thread lines rfl rfl rfl (lines_of_doSomeThing hrun) habs (by rw [hpc]; exact nofun)
      nofun
  | @unlocked t lock hpc hunlock =>
    have habs : s.pc t ≠ .absent := by
      rw [hpc]
      exact nofun
    refine ⟨h.threads.unlocked (h.lt_of_pc habs) hpc hunlock, ?_⟩
    exact hm.thread [] rfl rfl (List.append_nil _).symm (fun _ hmem => absurd hmem
      List.not_mem_nil) habs (by rw [hpc]; exact nofun) nofun

theorem inv_init (n : ℕ) : Inv n (program n).init where
  threads := by
    refine ⟨⟨rfl, rfl⟩, ?_⟩
    have hended : State.ended (program n).init n = 0 := Finset.sum_eq_zero fun _ _ => rfl
    rw [hended]
    exact .init jobSection (0, [])
  main := by
    refine ⟨Nat.zero_le n, Nat.zero_le n, fun _ _ => rfl, nofun, ?_, nofun, fun _ => rfl, nofun,
      fun _ => List.not_mem_nil⟩
    exact iff_of_false (fun ⟨_, hmem⟩ => List.not_mem_nil hmem) nofun

theorem inv_reach (h : (program n).Reachable s) : Inv n s :=
  h.invariant (I := Inv n) (inv_init n) fun _ _ _ _ hinv hstep => inv_step hinv (step_outcome hstep)

end ChatOnC.MutexExample
