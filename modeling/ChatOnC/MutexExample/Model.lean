import ChatOnC.Common.CriticalSection
import ChatOnC.Common.System

/-!
# Jobs under a mutex (`threads_mutex_example/mutex.c`)

`main` creates threads that run `doSomeThing`, joins them and destroys the mutex. A step is one
access to `counter`, one round of the delay loop, or one call. `counter` is a natural number:
it never goes beyond the number of threads, so that the `int` of the source overflows only with
more than `2 ^ 31 - 1` of them. What `pthread_mutex_init` and `pthread_create` return is in the
label of the step.
-/

namespace ChatOnC.MutexExample

open ChatOnC.Common

/-- What is printed (lines 17, 21, 35 and 43). -/
inductive Line
  /-- `"\n Job %d started\n"` -/
  | started (counter : ℕ)
  /-- `"\n Job %d finished\n"` -/
  | finished (counter : ℕ)
  /-- `"\n mutex init failed\n"` -/
  | initFailed
  /-- `"\ncan't create thread :[%s]"` -/
  | cantCreate (error : String)
  deriving DecidableEq

/-- The lines of `doSomeThing`. -/
def Line.isJob : Line → Bool
  | .started _ | .finished _ => true
  | .initFailed | .cantCreate _ => false

/-! ## `doSomeThing` (lines 11–26) -/

/-- The bound of the loop (line 19). -/
def rounds : ℕ := 0xFFFFFFFF

/-- Where a thread stands between `pthread_mutex_lock` and `pthread_mutex_unlock`. -/
inductive Job
  /-- before `counter` is read (line 16) -/
  | load
  /-- before `counter` is written, with what was read -/
  | store (read : ℕ)
  /-- before the argument of line 17 is read -/
  | start
  | printStart (counter : ℕ)
  /-- before the loop test (line 19) -/
  | spin (i : ℕ)
  /-- before the argument of line 21 is read -/
  | finish
  | printFinish (counter : ℕ)
  /-- before `pthread_mutex_unlock` (line 23) -/
  | unlock
  deriving DecidableEq

/-- A step from there: the next place, `counter`, and what is printed. -/
def doSomeThing : Job → ℕ → Option (Job × ℕ × List Line)
  | .load, counter => some (.store counter, counter, [])
  | .store read, _ => some (.start, read + 1, [])
  | .start, counter => some (.printStart counter, counter, [])
  | .printStart n, counter => some (.spin 0, counter, [.started n])
  | .spin i, counter => some (if i < rounds then .spin (i + 1) else .finish, counter, [])
  | .finish, counter => some (.printFinish counter, counter, [])
  | .printFinish n, counter => some (.unlock, counter, [.finished n])
  | .unlock, _ => none

/-- Where a thread stands. -/
inductive Pc
  | absent
  /-- before `pthread_mutex_lock` (line 13) -/
  | lock
  | inside (job : Job)
  | ended
  deriving DecidableEq

def Pc.job : Pc → Option Job
  | .inside job => some job
  | _ => none

/-! ## `main` (lines 28–53) -/

/-- Where `main` stands. -/
inductive Main
  /-- before `pthread_mutex_init` (line 33) -/
  | init
  /-- before the loop test (line 39) -/
  | create (i : ℕ)
  /-- before the joins from thread `i` on (lines 47–48) -/
  | join (i : ℕ)
  /-- before `pthread_mutex_destroy` (line 50) -/
  | destroy
  /-- `return 1` (line 36) -/
  | failed
  /-- `return 0` (line 52) -/
  | returned
  /-- behind a join of a thread that was not created, or the destruction of a held mutex -/
  | undefined
  deriving DecidableEq

def Main.over : Main → Bool
  | .failed | .returned | .undefined => true
  | _ => false

structure State where
  main : Main
  lock : Monitor ℕ
  pc : ℕ → Pc
  counter : ℕ
  output : List Line

inductive Act
  | mutexInit (ok : Bool)
  /-- `error` is what `strerror` says if `pthread_create` fails -/
  | create (error : Option String)
  | join
  | destroy
  | lock (t : ℕ)
  | run (t : ℕ)
  | unlock (t : ℕ)

namespace State

variable (s : State)

def goto (main : Main) : State := { s with main := main }

def print (lines : List Line) : State := { s with output := s.output ++ lines }

def setPc (t : ℕ) (pc : Pc) : State := { s with pc := Function.update s.pc t pc }

/-- Lines 39–45, with `n` threads to create. -/
def createStep (n i : ℕ) (error : Option String) : State :=
  if i < n then
    match error with
    | none => (s.setPc i .lock).goto (.create (i + 1))
    | some e => (s.print [.cantCreate e]).goto (.create (i + 1))
  else s.goto (.join 0)

/-- A join from lines 47–48; `none` while it blocks. -/
def joinStep (n i : ℕ) : Option State :=
  if i < n then
    match s.pc i with
    | .ended => some (s.goto (.join (i + 1)))
    | .absent => some (s.goto .undefined)
    | _ => none
  else some (s.goto .destroy)

def mainStep (n : ℕ) : Act → Option State
  | .mutexInit ok =>
    if s.main = .init then
      some (if ok then s.goto (.create 0) else (s.print [.initFailed]).goto .failed)
    else none
  | .create error =>
    match s.main with
    | .create i => some (s.createStep n i error)
    | _ => none
  | .join =>
    match s.main with
    | .join i => s.joinStep n i
    | _ => none
  | .destroy =>
    if s.main = .destroy then
      some (s.goto (if s.lock.holder = none then .returned else .undefined))
    else none
  | _ => none

def threadStep : Act → Option State
  | .lock t =>
    if s.pc t = .lock then
      (s.lock.lock t).map fun lock => { s.setPc t (.inside .load) with lock := lock }
    else none
  | .run t =>
    match s.pc t with
    | .inside job =>
      (doSomeThing job s.counter).map fun (job, counter, lines) =>
        { (s.setPc t (.inside job)).print lines with counter := counter }
    | _ => none
  | .unlock t =>
    if s.pc t = .inside .unlock then
      (s.lock.unlock t).map fun lock => { s.setPc t .ended with lock := lock }
    else none
  | _ => none

end State

/-- The program with `n` threads; the source has two. -/
def program (n : ℕ) : System State Act where
  init :=
    { main := .init, lock := Monitor.free, pc := fun _ => .absent, counter := 0, output := [] }
  step a s :=
    if s.main.over then none
    else match a with
      | .lock _ | .run _ | .unlock _ => s.threadStep a
      | _ => s.mainStep n a

end ChatOnC.MutexExample
