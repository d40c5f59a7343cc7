import ChatOnC.ReactServer.Leak

/-!
# The server from `main` to its end

`main` (lines 372–419) gets the listener, runs `startReactor` on it and closes it. What the calls
of `getaddrinfo`, `socket`, `bind`, `listen`, `calloc` and `malloc` return is given.

* `stillOpen_findListener`: the loop over the addresses leaves one descriptor open, that of the
  first address that could be bound.
* `main_descriptors`: what is open when `main` has ended: that one if it has not come to
  `startReactor`, also where `listen` has failed; and else the descriptors of the connections that
  have ended.
-/

namespace ChatOnC.ReactServer

open ChatOnC.Common

/-! ## Getting the listener (lines 136–182) -/

/-- An address of the list, and what `socket` and `bind` return for it. -/
structure Address where
  socket : Option ℕ
  binds : Bool

/-- A descriptor of the process is opened or closed. -/
inductive Call
  | opened (fd : ℕ)
  | closed (fd : ℕ)

/-- The loop over the addresses (lines 153–168), and the listener it ends with. -/
def findListener : List Address → List Call × Option ℕ
  | [] => ([], none)
  | address :: rest =>
    match address.socket with
    | none => findListener rest
    | some fd =>
      if address.binds then ([.opened fd], some fd)
      else (.opened fd :: .closed fd :: (findListener rest).1, (findListener rest).2)

/-- `none` is -1, for want of a listener or because `listen` fails. -/
def getListenerSocket (addresses : List Address) (listens : Bool) : List Call × Option ℕ :=
  let (calls, listener) := findListener addresses
  (calls, if listens then listener else none)

/-! ## `main` (lines 372–419) -/

/-- What the calls up to `startReactor` return: `addresses` is `none` if `getaddrinfo` fails, the
    others say whether `listen`, `calloc` and `createReactor` do not. -/
structure Setup where
  addresses : Option (List Address)
  listens : Bool
  calloc : Bool
  create : Bool

/-- Lines 378–404: the listener on which `startReactor` is run, or `none` for `exit(1)`. -/
def Setup.run (setup : Setup) : List Call × Option ℕ :=
  match setup.addresses with
  | none => ([], none)
  | some addresses =>
    let (calls, listener) := getListenerSocket addresses setup.listens
    (calls, if setup.calloc ∧ setup.create then listener else none)

def Act.call : Act → Option Call
  | .accepted fd => some (.opened fd)
  | .closed entry _ => some (.closed entry.fd)
  | _ => none

/-- The calls of a process that has come to `return 0`: those of the set-up, those of
    `startReactor`, and `close(listener)` (line 415). -/
def mainCalls (setup : List Call) (listener : ℕ) (hist : List Act) : List Call :=
  setup ++ hist.filterMap Act.call ++ [.closed listener]

/-! ## Open descriptors -/

def Call.openAfter (fd : ℕ) (before : Bool) : Call → Bool
  | .opened fd' => if fd' = fd then true else before
  | .closed fd' => if fd' = fd then false else before

/-- The process has opened `fd`, and has not closed it since. -/
def stillOpen (fd : ℕ) (calls : List Call) : Bool := calls.foldl (Call.openAfter fd) false

variable {k : Kernel} {s : State} {listener fd : ℕ}

theorem foldl_call (hist : List Act) (before : Bool) :
    (hist.filterMap Act.call).foldl (Call.openAfter fd) before =
      hist.foldl (Act.openAfter fd) before := by
  induction hist generalizing before with
  | nil => rfl
  | cons a hist ih =>
    cases a with
    | accepted fd' => exact ih _
    | closed entry polled => exact ih _
    | _ => exact ih _

/-- The first address that could be bound. -/
def firstBound (addresses : List Address) : Option ℕ :=
  addresses.findSome? fun address => if address.binds then address.socket else none

theorem findListener_snd (addresses : List Address) :
    (findListener addresses).2 = firstBound addresses := by
  induction addresses with
  | nil => rfl
  | cons address rest ih =>
    obtain ⟨socket, binds⟩ := address
    cases socket with
    | none =>
      cases binds with
      | true => exact ih
      | false => exact ih
    | some fd =>
      cases binds with
      | true => rfl
      | false => exact ih

/-- A socket that cannot be bound is closed, whatever is open before. -/
theorem stillOpen_findListener (addresses : List Address) (fd : ℕ) :
    stillOpen fd (findListener addresses).1 = true ↔ firstBound addresses = some fd := by
  rw [← findListener_snd]
  induction addresses with
  | nil => exact iff_of_false Bool.false_ne_true nofun
  | cons address rest ih =>
    obtain ⟨socket, binds⟩ := address
    cases socket with
    | none => exact ih
    | some fd' =>
      cases binds with
      | true =>
        show (if fd' = fd then true else false) = true ↔ some fd' = some fd
        simp
      | false =>
        have hclosed : Call.openAfter fd (Call.openAfter fd false (.opened fd')) (.closed fd') =
            false := by
          by_cases hfd : fd' = fd
          · simp [Call.openAfter, hfd]
          · simp [Call.openAfter, hfd]
        show List.foldl (Call.openAfter fd) (Call.openAfter fd (Call.openAfter fd false
          (.opened fd')) (.closed fd')) (findListener rest).1 = true ↔ _
        rw [hclosed]
        exact ih

/-- The address that `main` has bound, also where it has not come to `startReactor`. -/
def Setup.bound (setup : Setup) : Option ℕ := setup.addresses.bind firstBound

theorem stillOpen_run (setup : Setup) (fd : ℕ) :
    stillOpen fd setup.run.1 = true ↔ setup.bound = some fd := by
  unfold Setup.run Setup.bound
  cases setup.addresses with
  | none => exact iff_of_false Bool.false_ne_true nofun
  | some addresses => exact stillOpen_findListener addresses fd

/-- The listener is the socket that was bound. -/
theorem bound_of_run {setup : Setup} (h : setup.run.2 = some listener) :
    setup.bound = some listener := by
  unfold Setup.run at h
  unfold Setup.bound
  cases haddresses : setup.addresses with
  | none =>
    rw [haddresses] at h
    cases h
  | some addresses =>
    rw [haddresses] at h
    have h' : (if setup.calloc ∧ setup.create then
        (if setup.listens then (findListener addresses).2 else none) else none) =
        some listener := h
    rw [findListener_snd] at h'
    split_ifs at h'
    exact h'

/-- The listener is not accepted, so it is not among the descriptors of the clients. -/
theorem isOpen_listener (h : (startReactor listener).Reach (Regular listener) s) :
    isOpen listener s.hist = false := by
  refine h.invariant (I := fun s => isOpen listener s.hist = false) rfl ?_
  intro k s s' hok hclosed hstep
  obtain ⟨acts, hrec, hhist⟩ := (step_outcome hstep).records
  rw [hhist, ← Bool.not_eq_true]
  intro hopen
  rcases isOpen_or_accepted hopen with hopen | hmem
  · rw [hclosed] at hopen
    cases hopen
  · cases hrec with
    | nothing => cases hmem
    | accepted hpc haccept =>
      simp only [List.mem_cons, Act.accepted.injEq, reduceCtorEq, List.not_mem_nil,
        or_false] at hmem
      rw [← hmem] at haccept
      exact hok.sound.accept_ne haccept
    | received hpc hp => simp at hmem
    | relayed hpc hp hl hrecv hmsg =>
      simp only [List.mem_cons, reduceCtorEq, false_or] at hmem
      obtain ⟨seq, dst, msg, result, hsent⟩ := mem_broadcast hmem
      cases hsent
    | closed hpc hp hbits => simp at hmem

/-- **The descriptors of the server.** A process that ends before `startReactor` has one descriptor
    open if an address could be bound, and none otherwise. One that comes to `return 0` has the
    descriptors open whose connections have ended, in every run with a sound listener, an `accept`
    that returns no open descriptor, and removals that move no entry to be removed. -/
theorem main_descriptors (setup : Setup) :
    (∀ fd, stillOpen fd setup.run.1 = true ↔ setup.bound = some fd) ∧
      ∀ listener, setup.run.2 = some listener → ∀ s,
        (startReactor listener).Reach (Regular listener) s → s.pc = .returned → ∀ fd,
          stillOpen fd (mainCalls setup.run.1 listener s.hist) = true ↔ Ended fd s.hist := by
  refine ⟨stillOpen_run setup, fun listener hrun s hreach hpc fd => ?_⟩
  have hreturned := (leakInv_reach hreach).2.returned hpc fd
  have hsetup := stillOpen_run setup fd
  rw [bound_of_run hrun, Option.some.injEq] at hsetup
  rw [stillOpen, mainCalls, List.foldl_append, List.foldl_append, foldl_call]
  show (if listener = fd then false else _) = true ↔ _
  by_cases hfd : listener = fd
  · -- it is closed, and no client was ever accepted on it
    subst hfd
    rw [isOpen_listener hreach] at hreturned
    rw [if_pos rfl]
    exact hreturned
  · have hclosed : setup.run.1.foldl (Call.openAfter fd) false = false :=
      Bool.eq_false_iff.mpr fun hopen => hfd (hsetup.mp hopen)
    rw [if_neg hfd, hclosed]
    exact hreturned

/-- The first address cannot be bound, the second one can. -/
def secondAddress : Setup where
  addresses := some [⟨some 3, false⟩, ⟨some 3, true⟩]
  listens := true
  calloc := true
  create := true

theorem main_descriptors_secondAddress :
    ∃ s, (startReactor 3).execIf (Regular 3) endAndHangUp (startReactor 3).init = some s ∧
      Ended 5 s.hist ∧ ∀ fd,
        stillOpen fd (mainCalls secondAddress.run.1 3 s.hist) = true ↔ Ended fd s.hist := by
  have hrun : ((startReactor 3).execIf (Regular 3) endAndHangUp (startReactor 3).init).map
      (fun s => (s.pc, decide (Ended 5 s.hist))) = some (.returned, true) := by
    decide +kernel
  obtain ⟨s, hs, hat⟩ := Option.map_eq_some_iff.mp hrun
  have hreach : (startReactor 3).Reach (Regular 3) s := .of_execIf .init hs
  simp only [Prod.mk.injEq, decide_eq_true_eq] at hat
  exact ⟨s, hs, hat.2, (main_descriptors secondAddress).2 3 rfl s hreach hat.1⟩

end ChatOnC.ReactServer
