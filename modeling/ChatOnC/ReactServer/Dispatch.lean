import ChatOnC.ReactServer.Steps

/-!
# Dispatch to `NULL` handlers

Every client is registered with the handler `NULL` and stays registered, so
`handleEvent` calls `NULL` as soon as it is given a descriptor that `accept` has
returned before.

* `null_call_iff`: as long as registrations find memory, a run is without a call
  of `NULL` if and only if no step hands such a descriptor to `handleEvent`.
* `null_call`: a client that hangs up is such a descriptor.
-/

namespace ChatOnC.ReactServer

open ChatOnC.Common

variable {k : Kernel} {s s' : State} {r : Reactor} {listener : ℕ}

/-- The lookups of `handleEvent`. -/
def lookups (hist : List Act) : List (ℕ × Lookup) :=
  hist.filterMap fun a => match a with
    | .handled id found => some (id, found)
    | _ => none

/-- `handleEvent` has called no `NULL` handler. -/
def NoNullCall (s : State) : Prop := ∀ c ∈ lookups s.hist, c.2 ≠ .found none

/-- The descriptor that the step hands to `handleEvent` (lines 275 and 356). -/
def lookedUp (k : Kernel) (s : State) : Option ℕ :=
  match s.pc with
  | .accept _ => k.accept
  | .hangup i =>
    s.reactor.pfds[i]?.bind fun p => if p.revents &&& hangupBits ≠ 0 then some p.fd else none
  | _ => none

/-- `accept` has not returned the descriptor handed to `handleEvent` before. -/
abbrev FreshLookup (k : Kernel) (s : State) : Prop :=
  (lookedUp k s).all (fun fd => .accepted fd ∉ s.hist) = true

/-- The registration of a client finds memory. -/
abbrev RegistrationSucceeds (k : Kernel) (_ : State) : Prop :=
  k.accept.isSome = true → k.eventsAlloc.isSome = true

/-! ## The registry -/

/-- With memory, `addEvent` appends the entry. -/
theorem addEvent_append (id : ℕ) (handler : EventHandler) (fresh : ℕ → Event)
    (hcount : r.eventCount = r.events.length) :
    (addEvent r id handler (some fresh)).events = r.events ++ [⟨id, handler⟩] ∧
      (addEvent r id handler (some fresh)).eventCount = r.eventCount + 1 := by
  refine ⟨?_, rfl⟩
  show (realloc r.events (r.eventCount + 1) fresh).set r.eventCount ⟨id, handler⟩ = _
  apply List.ext_getElem?
  intro i
  have hlen := length_realloc r.events (r.eventCount + 1) fresh
  rcases Nat.lt_trichotomy i r.eventCount with hlt | heq | hgt
  · rw [List.getElem?_set_ne (by omega), getElem?_realloc (by omega) (by omega),
      List.getElem?_append_left (by omega)]
  · subst heq
    rw [List.getElem?_set_self (by omega), hcount, List.getElem?_concat_length]
  · rw [List.getElem?_eq_none (by rw [List.length_set]; omega),
      List.getElem?_eq_none (by rw [List.length_append, List.length_singleton]; omega)]

/-- With memory, `addFd` registers the descriptor. -/
theorem addFd_events {newfd : ℕ} {handler : EventHandler} {fresh : ℕ → Event}
    (hcount : r.eventCount = r.events.length) (halloc : k.eventsAlloc = some fresh)
    (hadd : addFd k r newfd handler = .ok r') :
    r'.events = r.events ++ [⟨newfd, handler⟩] ∧ r'.eventCount = r.eventCount + 1 := by
  obtain ⟨g, p, hg, -, rfl⟩ := addFd_eq_ok hadd
  obtain ⟨-, -, hevents, hcount', -⟩ := growPfds_eq_ok hg
  rw [halloc, ← hevents, ← hcount']
  apply addEvent_append
  show g.eventCount = g.events.length
  rw [hcount', hevents, hcount]

/-- With `NULL` handlers only, the loop of `handleEvent` finds `NULL` or
    nothing. -/
theorem findEvent_null {events : List Event} {id i left : ℕ} (hlen : i + left = events.length)
    (hnull : ∀ e ∈ events, e.handler = none) :
    findEvent events id i left =
      if ∃ e ∈ events.drop i, e.id = id then .found none else .notFound := by
  induction left generalizing i with
  | zero =>
    rw [findEvent, List.drop_of_length_le (by omega)]
    simp
  | succ left ih =>
    have hi : i < events.length := by omega
    have hcons : (∃ e ∈ events.drop i, e.id = id) ↔
        events[i].id = id ∨ ∃ e ∈ events.drop (i + 1), e.id = id := by
      rw [List.drop_eq_getElem_cons hi]
      simp only [List.mem_cons, exists_eq_or_imp]
    have hhandler := hnull _ (List.getElem_mem hi)
    rw [findEvent, List.getElem?_eq_getElem hi, ih (by omega)]
    by_cases hid : events[i].id = id
    · simp only [hcons, hid, hhandler, true_or, if_true]
    · simp only [hcons, hid, false_or, if_false]

/-- The entries are those of the descriptors that `accept` has returned, all
    with the handler `NULL`. -/
structure Registry (s : State) : Prop where
  count : s.reactor.eventCount = s.reactor.events.length
  null : ∀ e ∈ s.reactor.events, e.handler = none
  registered : (∀ why, s.pc ≠ .stopped why) →
    ∀ fd, (∃ e ∈ s.reactor.events, e.id = fd) ↔ .accepted fd ∈ s.hist

theorem Registry.lookup_eq (h : Registry s) (id : ℕ) :
    lookup s.reactor id =
      if ∃ e ∈ s.reactor.events, e.id = id then .found none else .notFound := by
  rw [lookup, findEvent_null (by rw [Nat.zero_add, h.count]) h.null, List.drop_zero]

/-- Every step that finds memory keeps the registry. -/
theorem registry_step (hok : RegistrationSucceeds k s) (hreg : Registry s)
    (hpc : ∀ why, s.pc ≠ .stopped why) (h : Outcome k s s') : Registry s' := by
  have hregistered := hreg.registered hpc
  -- a step that accepts nothing leaves the registry alone
  have hkeep : ∀ s' : State, s'.reactor.events = s.reactor.events →
      s'.reactor.eventCount = s.reactor.eventCount →
      (∀ fd, .accepted fd ∈ s'.hist ↔ .accepted fd ∈ s.hist) → Registry s' := by
    intro s' hevents hcount haccepted
    refine ⟨by rw [hevents, hcount, hreg.count], by rw [hevents]; exact hreg.null, fun _ fd => ?_⟩
    rw [hevents, haccepted]
    exact hregistered fd
  have happend : ∀ acts : List Act, (∀ fd, .accepted fd ∉ acts) →
      ∀ fd, .accepted fd ∈ s.hist ++ acts ↔ .accepted fd ∈ s.hist := by
    intro acts hacts fd
    simp [hacts fd]
  cases h with
  | moved h => exact hkeep _ rfl rfl fun _ => Iff.rfl
  | @stopped why acts h hrec =>
    exact ⟨hreg.count, hreg.null, fun hne => absurd rfl (hne why)⟩
  | polled hpc hrun hpoll hlen => exact hkeep _ rfl rfl fun _ => Iff.rfl
  | @added i newfd r hpc' haccept hadd =>
    obtain ⟨fresh, halloc⟩ := Option.isSome_iff_exists.mp (hok (by rw [haccept]; rfl))
    obtain ⟨hevents, hcount⟩ := addFd_events hreg.count halloc hadd
    refine ⟨?_, ?_, ?_⟩
    · show r.eventCount = r.events.length
      rw [hevents, hcount, List.length_append, List.length_singleton, hreg.count]
    · intro e he
      have he' : e ∈ r.events := he
      rw [hevents] at he'
      rcases List.mem_append.mp he' with he' | he'
      · exact hreg.null e he'
      · rw [List.mem_singleton.mp he']
    · intro _ fd
      show (∃ e ∈ r.events, e.id = fd) ↔
        .accepted fd ∈ s.hist ++ [.accepted newfd, .handled newfd (lookup s.reactor newfd)]
      rw [hevents]
      simp only [List.mem_append, List.mem_cons, List.not_mem_nil, or_false, or_and_right,
        exists_or, exists_eq_left, hregistered fd, Act.accepted.injEq, reduceCtorEq]
      exact or_congr_right eq_comm
  | dropped hpc hp hrecv hroom =>
    exact hkeep _ rfl rfl (happend _ (by simp))
  | relayed hpc hp hl hrecv hne hmsg =>
    refine hkeep _ rfl rfl (happend _ fun fd hmem => ?_)
    simp only [List.mem_cons, reduceCtorEq, false_or] at hmem
    obtain ⟨seq, dst, msg, result, heq⟩ := mem_broadcast hmem
    cases heq
  | closed hpc hp hbits hroom =>
    exact hkeep _ rfl rfl (happend _ (by simp))
  | deleted hpc hm hdel =>
    obtain ⟨-, -, last, -, -, -, -, -, hevents, hcount⟩ := delFromPfds_eq_ok hdel
    exact hkeep _ hevents hcount fun _ => Iff.rfl

/-- A stopped server takes no step. -/
theorem not_stopped_of_step (h : (startReactor listener).step k s = some s') (why : Stop) :
    s.pc ≠ .stopped why := by
  intro hpc
  simp [startReactor, hpc] at h

theorem registry_init : Registry (startReactor listener).init where
  count := rfl
  null := by
    intro e he
    cases he
  registered := by
    intro _ fd
    refine ⟨?_, ?_⟩
    · rintro ⟨e, he, -⟩
      cases he
    · intro h
      cases h

/-- The registry is kept in every run whose registrations find memory. -/
theorem registry_reach (h : (startReactor listener).Reach RegistrationSucceeds s) : Registry s :=
  h.invariant registry_init fun _ _ _ hok hreg hstep =>
    registry_step hok hreg (not_stopped_of_step hstep) (step_outcome hstep)

/-! ## Lookups of a step -/

theorem lookups_append (as bs : List Act) : lookups (as ++ bs) = lookups as ++ lookups bs := by
  simp [lookups]

/-- `handleEvent` makes one lookup, whatever follows. -/
theorem lookups_handleEvent {id : ℕ} {next : State → State}
    (hnext : ∀ t, (next t).hist = t.hist) :
    lookups (s.handleEvent k id next).hist = lookups s.hist ++ [(id, lookup s.reactor id)] := by
  rcases handleEvent_cases s k id next with h | ⟨why, -, h⟩
  · rw [h, hnext, State.log, lookups_append]
    rfl
  · rw [h, State.stop, State.goto, State.log, lookups_append]
    rfl

/-- A step makes one lookup for the descriptor it hands to `handleEvent`. -/
theorem step_lookups (h : (startReactor listener).step k s = some s') :
    lookups s'.hist = lookups s.hist ++
      ((lookedUp k s).map fun fd => (fd, lookup s.reactor fd)).toList := by
  have hquiet : lookedUp k s = none → (∀ acts, Records k s acts → lookups acts = []) →
      lookups s'.hist = lookups s.hist ++
        ((lookedUp k s).map fun fd => (fd, lookup s.reactor fd)).toList := by
    intro hnone hacts
    obtain ⟨acts, hrec, hhist⟩ := (step_outcome h).records
    rw [hhist, lookups_append, hacts acts hrec, hnone]
    rfl
  cases hpc : s.pc with
  | accept i =>
    have hlook : lookedUp k s = k.accept := by rw [lookedUp, hpc]
    simp only [startReactor, hpc, Option.some.injEq] at h
    rw [← h, hlook, acceptStep]
    cases k.accept with
    | none => exact (List.append_nil _).symm
    | some newfd =>
      rw [lookups_handleEvent]
      · rw [State.log, lookups_append]
        simp [lookups]
      · intro t
        split <;> rfl
  | hangup i =>
    have hlook : lookedUp k s = s.reactor.pfds[i]?.bind fun p =>
        if p.revents &&& hangupBits ≠ 0 then some p.fd else none := by rw [lookedUp, hpc]
    simp only [startReactor, hpc, Option.some.injEq] at h
    rw [← h, hlook, hangupStep]
    split
    · rename_i hp
      rw [hp]
      exact (List.append_nil _).symm
    · rename_i p hp
      rw [hp, Option.bind_some]
      split_ifs with hbits
      · rw [lookups_handleEvent]
        · rw [State.log, lookups_append]
          simp [lookups]
        · intro t
          rw [State.pushRemove]
          split_ifs <;> rfl
      · exact (List.append_nil _).symm
  | recv i =>
    refine hquiet (by rw [lookedUp, hpc]) fun acts hrec => ?_
    cases hrec with
    | nothing => rfl
    | accepted hpc' haccept =>
      rw [hpc] at hpc'
      cases hpc'
    | received hpc' hp => rfl
    | relayed hpc' hp hl hrecv hmsg =>
      rw [lookups, List.filterMap_cons_none rfl, List.filterMap_cons_none rfl,
        List.filterMap_eq_nil_iff]
      intro a ha
      obtain ⟨seq, dst, msg, result, rfl⟩ := mem_broadcast ha
      rfl
    | closed hpc' hp hbits =>
      rw [hpc] at hpc'
      cases hpc'
  | _ =>
    refine hquiet (by rw [lookedUp, hpc]) fun acts hrec => ?_
    cases hrec with
    | nothing => rfl
    | accepted hpc' => rw [hpc] at hpc'; cases hpc'
    | received hpc' => rw [hpc] at hpc'; cases hpc'
    | relayed hpc' => rw [hpc] at hpc'; cases hpc'
    | closed hpc' => rw [hpc] at hpc'; cases hpc'

/-- A step keeps the server from a call of `NULL` exactly when the descriptor it
    looks up is fresh. -/
theorem noNullCall_step (hreg : Registry s) (h : (startReactor listener).step k s = some s') :
    NoNullCall s' ↔ NoNullCall s ∧ FreshLookup k s := by
  have hpc := not_stopped_of_step h
  rw [NoNullCall, step_lookups h, NoNullCall, FreshLookup]
  cases lookedUp k s with
  | none => simp
  | some fd =>
    rw [Option.map_some, Option.toList_some, hreg.lookup_eq fd]
    simp only [List.mem_append, List.mem_singleton, or_imp, forall_and, forall_eq,
      hreg.registered hpc fd, Option.all_some, decide_eq_true_eq]
    refine and_congr_right fun _ => ?_
    split_ifs with hmem <;> simp [hmem]

/-- In a run whose registrations find memory, `handleEvent` never calls `NULL`
    if and only if no step hands it a descriptor that `accept` has returned
    before. -/
theorem null_call_iff {run : List Kernel}
    (hrun : (startReactor listener).exec run (startReactor listener).init = some s)
    (hmem : (startReactor listener).Meets RegistrationSucceeds run (startReactor listener).init) :
    NoNullCall s ↔ (startReactor listener).Meets FreshLookup run (startReactor listener).init := by
  have hkeep : ∀ k s s', RegistrationSucceeds k s → Registry s →
      (startReactor listener).step k s = some s' →
      Registry s' ∧ (NoNullCall s' ↔ NoNullCall s ∧ FreshLookup k s) := by
    intro k s s' hok hreg hstep
    exact ⟨registry_step hok hreg (not_stopped_of_step hstep) (step_outcome hstep),
      noNullCall_step hreg hstep⟩
  rw [System.meets_iff hkeep registry_init hmem hrun]
  apply and_iff_right
  intro c hc
  cases hc

/-- Two clients join. -/
def twoJoins : List Kernel := join 5 0 ++ join 6 1

theorem null_call_iff_twoJoins :
    ∃ s, (startReactor 3).exec twoJoins (startReactor 3).init = some s ∧
      lookups s.hist = [(5, .notFound), (6, .notFound)] ∧ NoNullCall s := by
  have hrun : ((startReactor 3).execIf (fun k s => RegistrationSucceeds k s ∧ FreshLookup k s)
      twoJoins (startReactor 3).init).map (fun s => lookups s.hist) =
      some [(5, .notFound), (6, .notFound)] := by decide +kernel
  obtain ⟨s, hs, hlook⟩ := Option.map_eq_some_iff.mp hrun
  obtain ⟨hmeets, hexec⟩ := System.meets_of_execIf hs
  have hmem := hmeets.mono fun _ _ h => h.1
  exact ⟨s, hexec, hlook, (null_call_iff hexec hmem).mpr (hmeets.mono fun _ _ h => h.2)⟩

/-- A client joins and hangs up. -/
def joinAndHangUp : List Kernel :=
  join 5 0 ++ [.ready 1 pollHup, .idle, .idle, .idle]

/-- In that run the handler found for the client is `NULL`. -/
theorem null_call : ¬ ∀ s, (startReactor 3).Reachable s → NoNullCall s := by
  intro hall
  obtain ⟨s, hs, hlook⟩ : ∃ s, (startReactor 3).exec joinAndHangUp (startReactor 3).init = some s ∧
      lookups s.hist = [(5, .notFound), (5, .found none)] := ⟨_, rfl, rfl⟩
  exact hall s (.of_exec hs) (5, .found none) (by rw [hlook]; simp) rfl

end ChatOnC.ReactServer
