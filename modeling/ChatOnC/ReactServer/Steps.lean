import ChatOnC.ReactServer.Model

/-!
# What a step of `startReactor` can do

`step_outcome` lists once the outcomes of a step: it moves on without touching
anything (`Moves`), it stops (`Stops`), or it is one of the six steps that
change the reactor, the list of removals or the history. `Records` is what a
step adds to the history. The lemmas on `realloc`, `addEvent`, `addFd` and
`delFromPfds` say what each does to the poll set and the registry.
-/

namespace ChatOnC.ReactServer

open ChatOnC.Common

variable {k : Kernel} {s s' : State} {r r' : Reactor}

/-! ## The operations of the reactor -/

@[simp] theorem length_realloc {α : Type*} (old : List α) (n : ℕ) (fresh : ℕ → α) :
    (realloc old n fresh).length = n := by
  simp [realloc]

/-- `realloc` keeps the elements it was given. -/
theorem getElem?_realloc {α : Type*} {old : List α} {n i : ℕ} {fresh : ℕ → α} (hi : i < n)
    (hold : i < old.length) : (realloc old n fresh)[i]? = old[i]? := by
  simp [realloc, hi, hold]

/-- Behind them is fresh memory. -/
theorem getElem?_realloc_fresh {α : Type*} {old : List α} {n i : ℕ} {fresh : ℕ → α} (hi : i < n)
    (hold : old.length ≤ i) : (realloc old n fresh)[i]? = some (fresh i) := by
  simp [realloc, hi, hold]

/-- `addEvent` touches the registry only. -/
theorem addEvent_frame (r : Reactor) (id : ℕ) (handler : EventHandler)
    (alloc : Option (ℕ → Event)) :
    (addEvent r id handler alloc).pfds = r.pfds ∧
      (addEvent r id handler alloc).fdCount = r.fdCount ∧
      (addEvent r id handler alloc).fdSize = r.fdSize ∧
      (addEvent r id handler alloc).running = r.running := by
  cases alloc <;> exact ⟨rfl, rfl, rfl, rfl⟩

/-- Room for one more entry, and the entries there were. -/
theorem growPfds_eq_ok {alloc : Option (ℕ → PollFd)} (h : growPfds r alloc = .ok r') :
    r'.fdCount = r.fdCount ∧ r'.running = r.running ∧ r'.events = r.events ∧
      r'.eventCount = r.eventCount ∧
      (r'.pfds = r.pfds ∧ r'.fdSize = r.fdSize ∧ r.fdCount ≠ r.fdSize ∨
        r.fdCount = r.fdSize ∧ r'.fdSize = r.fdSize * 2 ∧
          ∃ fresh, alloc = some fresh ∧ r'.pfds = realloc r.pfds (r.fdSize * 2) fresh) := by
  unfold growPfds at h
  split_ifs at h with hfull hmax
  · cases alloc with
    | none => cases h
    | some fresh =>
      cases h
      exact ⟨rfl, rfl, rfl, rfl, .inr ⟨hfull, rfl, fresh, rfl, rfl⟩⟩
  · cases h
    exact ⟨rfl, rfl, rfl, rfl, .inl ⟨rfl, rfl, hfull⟩⟩

/-- The growth fails for lack of memory, or because the size cannot be doubled. -/
theorem growPfds_eq_error {alloc : Option (ℕ → PollFd)} {why : Stop}
    (h : growPfds r alloc = .error why) :
    why = .exit ∨ why = .overflow ∧ r.fdCount = r.fdSize ∧ intMax < r.fdSize * 2 := by
  unfold growPfds at h
  split_ifs at h with hfull hmax
  · cases h
    exact .inr ⟨rfl, hfull, hmax⟩
  · cases alloc with
    | none =>
      cases h
      exact .inl rfl
    | some fresh => cases h

theorem addFd_of_error {newfd : ℕ} {handler : EventHandler} {why : Stop}
    (hg : growPfds r k.pfdsAlloc = .error why) : addFd k r newfd handler = .error why := by
  rw [addFd, hg]
  rfl

theorem addFd_of_none {g : Reactor} {newfd : ℕ} {handler : EventHandler}
    (hg : growPfds r k.pfdsAlloc = .ok g) (hp : g.pfds[g.fdCount]? = none) :
    addFd k r newfd handler = .error .pfdsIndex := by
  simp only [addFd, hg, hp, bind, Except.bind]

/-- It writes `fd` and `events` of the entry behind the last one, whose `revents`
    stay what the memory holds. -/
theorem addFd_of_some {g : Reactor} {newfd : ℕ} {handler : EventHandler} {p : PollFd}
    (hg : growPfds r k.pfdsAlloc = .ok g) (hp : g.pfds[g.fdCount]? = some p) :
    addFd k r newfd handler = .ok (addEvent
      { g with
        pfds := g.pfds.set g.fdCount { p with fd := newfd, events := pollIn }
        fdCount := g.fdCount + 1 }
      newfd handler k.eventsAlloc) := by
  simp only [addFd, hg, hp, bind, Except.bind]

/-- What `addFd` does when it returns. -/
theorem addFd_eq_ok {newfd : ℕ} {handler : EventHandler}
    (h : addFd k r newfd handler = .ok r') :
    ∃ g p, growPfds r k.pfdsAlloc = .ok g ∧ g.pfds[g.fdCount]? = some p ∧
      r' = addEvent
        { g with
          pfds := g.pfds.set g.fdCount { p with fd := newfd, events := pollIn }
          fdCount := g.fdCount + 1 }
        newfd handler k.eventsAlloc := by
  cases hg : growPfds r k.pfdsAlloc with
  | error why =>
    rw [addFd_of_error hg] at h
    cases h
  | ok g =>
    cases hp : g.pfds[g.fdCount]? with
    | none =>
      rw [addFd_of_none hg hp] at h
      cases h
    | some p =>
      rw [addFd_of_some hg hp] at h
      cases h
      exact ⟨g, p, rfl, hp, rfl⟩

/-- What `delFromPfds` does. -/
theorem delFromPfds_eq_ok {i : ℕ} (h : delFromPfds r i = .ok r') :
    0 < r.fdCount ∧ i < r.pfds.length ∧ ∃ last, r.pfds[r.fdCount - 1]? = some last ∧
      r'.pfds = r.pfds.set i last ∧ r'.fdCount = r.fdCount - 1 ∧ r'.fdSize = r.fdSize ∧
      r'.running = (if r.fdCount - 1 = 1 then false else r.running) ∧
      r'.events = r.events ∧ r'.eventCount = r.eventCount := by
  unfold delFromPfds at h
  split_ifs at h with hbad
  split at h
  · cases h
  · rename_i last hlast
    simp only [Except.ok.injEq] at h
    have hpos : 0 < r.fdCount := by omega
    have hi : i < r.pfds.length := by omega
    refine ⟨hpos, hi, last, hlast, ?_⟩
    subst h
    split_ifs <;> exact ⟨rfl, rfl, rfl, rfl, rfl, rfl⟩

theorem delFromPfds_eq_error {i : ℕ} {why : Stop} (h : delFromPfds r i = .error why) :
    why = .pfdsIndex := by
  unfold delFromPfds at h
  split_ifs at h
  · cases h
    rfl
  · split at h <;> cases h
    rfl

/-- The entry is neither the listener's nor the sender's. -/
abbrev IsRecipient (listener me : ℕ) (q : PollFd) : Prop := q.fd ≠ listener ∧ q.fd ≠ me

theorem broadcast_cons {listener me seq j : ℕ} {msg : List UInt8} {p : PollFd}
    {ps : List PollFd} : broadcast k listener me seq msg j (p :: ps) =
    if IsRecipient listener me p then
      if k.send j = .failed then ([.sent seq p.fd msg .failed], false)
      else
        (.sent seq p.fd msg (k.send j) :: (broadcast k listener me seq msg (j + 1) ps).1,
          (broadcast k listener me seq msg (j + 1) ps).2)
    else broadcast k listener me seq msg (j + 1) ps := rfl

/-- The broadcast records nothing but what it sends. -/
theorem mem_broadcast {fd me seq j : ℕ} {msg : List UInt8} {ps : List PollFd} {a : Act}
    (h : a ∈ (broadcast k fd me seq msg j ps).1) :
    ∃ seq dst msg result, a = .sent seq dst msg result := by
  induction ps generalizing j with
  | nil => cases h
  | cons p ps ih =>
    rw [broadcast_cons] at h
    split_ifs at h
    · exact ⟨_, _, _, _, List.mem_singleton.mp h⟩
    · rcases List.mem_cons.mp h with h | h
      · exact ⟨_, _, _, _, h⟩
      · exact ih h
    · exact ih h

/-! ## Outcomes -/

/-- What a step adds to the history. -/
inductive Records (k : Kernel) (s : State) : List Act → Prop
  | nothing : Records k s []
  | accepted {i newfd : ℕ} (hpc : s.pc = .accept i) (haccept : k.accept = some newfd) :
      Records k s [.accepted newfd, .handled newfd (lookup s.reactor newfd)]
  | received {i : ℕ} {p : PollFd} (hpc : s.pc = .recv i) (hp : s.reactor.pfds[i]? = some p) :
      Records k s [.recvOn p s.reported[i]?]
  | relayed {i : ℕ} {p listener : PollFd} {chunk msg : List UInt8} (hpc : s.pc = .recv i)
      (hp : s.reactor.pfds[i]? = some p) (hl : s.reactor.pfds[0]? = some listener)
      (hrecv : k.recv = some chunk) (hmsg : assembleMsg p.fd chunk = some msg) :
      Records k s (.recvOn p s.reported[i]? ::
        .data (s.hist.countP Act.isData) p.fd msg s.clients ::
        (broadcast k listener.fd p.fd (s.hist.countP Act.isData) msg 0
          (s.reactor.pfds.take s.reactor.fdCount)).1)
  | closed {i : ℕ} {p : PollFd} (hpc : s.pc = .hangup i) (hp : s.reactor.pfds[i]? = some p)
      (hbits : p.revents &&& hangupBits ≠ 0) :
      Records k s [.closed p s.reported[i]?, .handled p.fd (lookup s.reactor p.fd)]

/-- A step that only moves on. -/
inductive Moves (k : Kernel) (s : State) : Pc → Prop
  | returns (hpc : s.pc = .poll) (hrun : s.reactor.running = false) : Moves k s .returned
  | scanned {i : ℕ} (hpc : s.pc = .scan i) (hi : s.reactor.fdCount ≤ i) : Moves k s (.remove 0)
  | idle {i : ℕ} {p : PollFd} (hpc : s.pc = .scan i) (hi : i < s.reactor.fdCount)
      (hp : s.reactor.pfds[i]? = some p) (hrev : p.revents = 0) : Moves k s (.scan (i + 1))
  | accepts {i : ℕ} {p listener : PollFd} (hpc : s.pc = .scan i) (hi : i < s.reactor.fdCount)
      (hp : s.reactor.pfds[i]? = some p) (hl : s.reactor.pfds[0]? = some listener)
      (hin : p.revents &&& pollIn ≠ 0) (hfd : p.fd = listener.fd) : Moves k s (.accept i)
  | receives {i : ℕ} {p listener : PollFd} (hpc : s.pc = .scan i) (hi : i < s.reactor.fdCount)
      (hp : s.reactor.pfds[i]? = some p) (hl : s.reactor.pfds[0]? = some listener)
      (hin : p.revents &&& pollIn ≠ 0) (hfd : p.fd ≠ listener.fd) : Moves k s (.recv i)
  | checks {i : ℕ} {p : PollFd} (hpc : s.pc = .scan i) (hi : i < s.reactor.fdCount)
      (hp : s.reactor.pfds[i]? = some p) (hin : p.revents &&& pollIn = 0) : Moves k s (.hangup i)
  | refused {i : ℕ} (hpc : s.pc = .accept i) (haccept : k.accept = none) : Moves k s (.hangup i)
  | healthy {i : ℕ} {p : PollFd} (hpc : s.pc = .hangup i) (hp : s.reactor.pfds[i]? = some p)
      (hbits : p.revents &&& hangupBits = 0) : Moves k s (.scan (i + 1))
  | removed {m : ℕ} (hpc : s.pc = .remove m) (hm : s.descriptorsToRemove[m]? = none) :
      Moves k s .poll

/-- A call of `handleEvent` that does not come back, and why. -/
inductive EventStops (r : Reactor) (id : ℕ) : Stop → Prop
  | nullHandler (hfound : lookup r id = .found none) : EventStops r id .nullHandler
  | eventsIndex (hfound : lookup r id = .outOfBounds) : EventStops r id .eventsIndex

/-- A step that stops, and why. -/
inductive Stops (k : Kernel) (s : State) : Stop → Prop
  | pollFails (hpc : s.pc = .poll) (hpoll : k.poll = none) : Stops k s .exit
  | acceptEvent {i newfd : ℕ} {why : Stop} (hpc : s.pc = .accept i)
      (haccept : k.accept = some newfd) (hevent : EventStops s.reactor newfd why) : Stops k s why
  | message {i : ℕ} {p : PollFd} {chunk : List UInt8} (hpc : s.pc = .recv i)
      (hp : s.reactor.pfds[i]? = some p) (hrecv : k.recv = some chunk) (hne : chunk ≠ [])
      (hmsg : assembleMsg p.fd chunk = none) : Stops k s .message
  | sendFails {i : ℕ} {p listener : PollFd} {chunk msg : List UInt8} (hpc : s.pc = .recv i)
      (hp : s.reactor.pfds[i]? = some p) (hl : s.reactor.pfds[0]? = some listener)
      (hrecv : k.recv = some chunk) (hne : chunk ≠ []) (hmsg : assembleMsg p.fd chunk = some msg)
      (hsends : ¬(broadcast k listener.fd p.fd (s.hist.countP Act.isData) msg 0
        (s.reactor.pfds.take s.reactor.fdCount)).2 = true) : Stops k s .exit
  | hangupEvent {i : ℕ} {p : PollFd} {why : Stop} (hpc : s.pc = .hangup i)
      (hp : s.reactor.pfds[i]? = some p) (hbits : p.revents &&& hangupBits ≠ 0)
      (hevent : EventStops s.reactor p.fd why) : Stops k s why
  | pollIndex (hpc : s.pc = .poll) (hlen : s.reactor.pfds.length < s.reactor.fdCount) :
      Stops k s .pfdsIndex
  | scanIndex {i : ℕ} (hpc : s.pc = .scan i) (hi : i < s.reactor.fdCount)
      (hlen : s.reactor.pfds.length ≤ i) : Stops k s .pfdsIndex
  | recvIndex {i : ℕ} (hpc : s.pc = .recv i)
      (hlen : s.reactor.pfds.length ≤ i ∨ s.reactor.pfds.length < s.reactor.fdCount) :
      Stops k s .pfdsIndex
  | hangupIndex {i : ℕ} (hpc : s.pc = .hangup i) (hlen : s.reactor.pfds.length ≤ i) :
      Stops k s .pfdsIndex
  | addFd {i newfd : ℕ} {why : Stop} (hpc : s.pc = .accept i) (haccept : k.accept = some newfd)
      (hadd : addFd k s.reactor newfd none = .error why) : Stops k s why
  | pushRemove {i : ℕ} (hpc : s.pc = .recv i ∨ s.pc = .hangup i ∧
        ∃ p, s.reactor.pfds[i]? = some p ∧ p.revents &&& hangupBits ≠ 0)
      (hroom : s.removeLen ≤ s.descriptorsToRemove.length) : Stops k s .removeIndex
  | delFromPfds {m i : ℕ} {why : Stop} (hpc : s.pc = .remove m)
      (hm : s.descriptorsToRemove[m]? = some i)
      (hdel : delFromPfds s.reactor i = .error why) : Stops k s why

/-- The state after a step. -/
inductive Outcome (k : Kernel) (s : State) : State → Prop
  | moved {pc : Pc} (h : Moves k s pc) : Outcome k s (s.goto pc)
  | stopped {why : Stop} {acts : List Act} (h : Stops k s why) (hrec : Records k s acts) :
      Outcome k s ((s.log acts).stop why)
  | polled {revents : ℕ → Revents} (hpc : s.pc = .poll) (hrun : s.reactor.running = true)
      (hpoll : k.poll = some revents) (hlen : s.reactor.fdCount ≤ s.reactor.pfds.length) :
      Outcome k s
        { s with
          reactor := { s.reactor with
            pfds := writeRevents revents s.reactor.fdCount s.reactor.pfds }
          pc := .scan 0
          descriptorsToRemove := []
          removeLen := s.reactor.fdCount
          reported :=
            (writeRevents revents s.reactor.fdCount s.reactor.pfds).take s.reactor.fdCount }
  | added {i newfd : ℕ} {r : Reactor} (hpc : s.pc = .accept i) (haccept : k.accept = some newfd)
      (hadd : addFd k s.reactor newfd none = .ok r) :
      Outcome k s
        { s.log [.accepted newfd, .handled newfd (lookup s.reactor newfd)] with
          reactor := r
          pc := .hangup i }
  | dropped {i : ℕ} {p : PollFd} (hpc : s.pc = .recv i) (hp : s.reactor.pfds[i]? = some p)
      (hrecv : k.recv = none ∨ k.recv = some [])
      (hroom : s.descriptorsToRemove.length < s.removeLen) :
      Outcome k s
        { s.log [.recvOn p s.reported[i]?] with
          descriptorsToRemove := s.descriptorsToRemove ++ [i]
          pc := .scan (i + 1) }
  | relayed {i : ℕ} {p listener : PollFd} {chunk msg : List UInt8} (hpc : s.pc = .recv i)
      (hp : s.reactor.pfds[i]? = some p) (hl : s.reactor.pfds[0]? = some listener)
      (hrecv : k.recv = some chunk) (hne : chunk ≠ [])
      (hmsg : assembleMsg p.fd chunk = some msg) :
      Outcome k s
        ((s.log (.recvOn p s.reported[i]? ::
          .data (s.hist.countP Act.isData) p.fd msg s.clients ::
          (broadcast k listener.fd p.fd (s.hist.countP Act.isData) msg 0
            (s.reactor.pfds.take s.reactor.fdCount)).1)).goto (.hangup i))
  | closed {i : ℕ} {p : PollFd} (hpc : s.pc = .hangup i) (hp : s.reactor.pfds[i]? = some p)
      (hbits : p.revents &&& hangupBits ≠ 0)
      (hroom : s.descriptorsToRemove.length < s.removeLen) :
      Outcome k s
        { s.log [.closed p s.reported[i]?, .handled p.fd (lookup s.reactor p.fd)] with
          descriptorsToRemove := s.descriptorsToRemove ++ [i]
          pc := .scan (i + 1) }
  | deleted {m i : ℕ} {r : Reactor} (hpc : s.pc = .remove m)
      (hm : s.descriptorsToRemove[m]? = some i) (hdel : delFromPfds s.reactor i = .ok r) :
      Outcome k s { s with reactor := r, pc := .remove (m + 1) }

/-- `handleEvent` records what it found, and goes on or stops. -/
theorem handleEvent_cases (s : State) (k : Kernel) (id : ℕ) (next : State → State) :
    s.handleEvent k id next = next (s.log [.handled id (lookup s.reactor id)]) ∨
      ∃ why, EventStops s.reactor id why ∧
        s.handleEvent k id next = (s.log [.handled id (lookup s.reactor id)]).stop why := by
  unfold State.handleEvent
  split <;> rename_i hfound <;> rw [hfound]
  · exact .inl rfl
  · split
    · exact .inl rfl
    · exact .inr ⟨.nullHandler, .nullHandler hfound, rfl⟩
  · exact .inl rfl
  · exact .inr ⟨.eventsIndex, .eventsIndex hfound, rfl⟩

theorem log_log (s : State) (as bs : List Act) : (s.log as).log bs = s.log (as ++ bs) := by
  simp [State.log]

theorem countP_log_recvOn (s : State) (entry : PollFd) (polled : Option PollFd) :
    (s.log [.recvOn entry polled]).hist.countP Act.isData = s.hist.countP Act.isData := by
  simp [State.log, Act.isData]

theorem log_nil (s : State) : s.log [] = s := by simp [State.log]

theorem outcome_stop {why : Stop} (h : Stops k s why) : Outcome k s (s.stop why) := by
  have hout := Outcome.stopped h .nothing
  rwa [log_nil] at hout

theorem poll_outcome (hpc : s.pc = .poll) : Outcome k s (pollStep k s) := by
  unfold pollStep
  by_cases hrun : s.reactor.running = false
  · rw [if_pos hrun]
    exact .moved (.returns hpc hrun)
  · rw [if_neg hrun]
    cases hpoll : k.poll with
    | none => exact outcome_stop (.pollFails hpc hpoll)
    | some revents =>
      dsimp only
      split_ifs with hlen
      · exact outcome_stop (.pollIndex hpc hlen)
      · exact .polled hpc (by simpa using hrun) hpoll (by omega)

/-- A look at entry `i` and at the listener fails only behind the end. -/
theorem length_le_of_no_entries {pfds : List PollFd} {i : ℕ}
    (h : ∀ p listener, pfds[i]? = some p → pfds[0]? = some listener → False) :
    pfds.length ≤ i := by
  by_contra hlt
  have h0 : 0 < pfds.length := by omega
  exact h _ _ (List.getElem?_eq_getElem (by omega)) (List.getElem?_eq_getElem h0)

theorem scan_outcome {i : ℕ} (hpc : s.pc = .scan i) : Outcome k s (scanStep i s) := by
  unfold scanStep
  split_ifs with hi
  · split
    · rename_i p listener hp hl
      split_ifs with hrev hin hfd
      · exact .moved (.idle hpc hi hp hrev)
      · exact .moved (.accepts hpc hi hp hl hin hfd)
      · exact .moved (.receives hpc hi hp hl hin hfd)
      · exact .moved (.checks hpc hi hp (by simpa using hin))
    · rename_i hnone
      exact outcome_stop (.scanIndex hpc hi (length_le_of_no_entries hnone))
  · exact .moved (.scanned hpc (by omega))

theorem accept_outcome {i : ℕ} (hpc : s.pc = .accept i) : Outcome k s (acceptStep k i s) := by
  unfold acceptStep
  cases haccept : k.accept with
  | none => exact .moved (.refused hpc haccept)
  | some newfd =>
    dsimp only
    have hrec : Records k s ([.accepted newfd] ++ [.handled newfd (lookup s.reactor newfd)]) :=
      .accepted hpc haccept
    rcases handleEvent_cases (s.log [.accepted newfd]) k newfd _ with h | ⟨why, hevent, h⟩
    · rw [h, log_log]
      cases hadd : addFd k s.reactor newfd none with
      | error why =>
        have hsame : addFd k ((s.log ([.accepted newfd] ++
            [.handled newfd (lookup s.reactor newfd)])).reactor) newfd none = .error why := hadd
        simp only [show (s.log [.accepted newfd]).reactor = s.reactor from rfl, hsame]
        exact .stopped (.addFd hpc haccept hadd) hrec
      | ok r =>
        have hsame : addFd k ((s.log ([.accepted newfd] ++
            [.handled newfd (lookup s.reactor newfd)])).reactor) newfd none = .ok r := hadd
        simp only [show (s.log [.accepted newfd]).reactor = s.reactor from rfl, hsame]
        exact .added hpc haccept hadd
    · rw [h, log_log]
      exact .stopped (.acceptEvent hpc haccept hevent) hrec

/-- Pushing an index either stops or goes on with it recorded. -/
theorem pushRemove_cases (s : State) (i : ℕ) (next : State → State) :
    s.descriptorsToRemove.length < s.removeLen ∧
      s.pushRemove i next = next { s with descriptorsToRemove := s.descriptorsToRemove ++ [i] } ∨
      s.removeLen ≤ s.descriptorsToRemove.length ∧ s.pushRemove i next = s.stop .removeIndex := by
  unfold State.pushRemove
  split_ifs with h
  · exact .inl ⟨h, rfl⟩
  · exact .inr ⟨by omega, rfl⟩

theorem recv_outcome {i : ℕ} (hpc : s.pc = .recv i) : Outcome k s (recvStep k i s) := by
  unfold recvStep
  split
  · rename_i p listener hp hl
    have hrec : Records k s [.recvOn p s.reported[i]?] := .received hpc hp
    have hdrop : k.recv = none ∨ k.recv = some [] → Outcome k s
        ((s.log [.recvOn p s.reported[i]?]).pushRemove i fun s => s.goto (.scan (i + 1))) := by
      intro hrecv
      rcases pushRemove_cases (s.log [.recvOn p s.reported[i]?]) i
        (fun s => s.goto (.scan (i + 1))) with ⟨hroom, h⟩ | ⟨hroom, h⟩
      · rw [h]
        exact .dropped hpc hp hrecv hroom
      · rw [h]
        exact .stopped (.pushRemove (.inl hpc) hroom) hrec
    dsimp only
    split
    · rename_i hrecv
      exact hdrop (.inl hrecv)
    · rename_i hrecv
      exact hdrop (.inr hrecv)
    · rename_i chunk hne hrecv
      split
      · rename_i hmsg
        exact .stopped (.message hpc hp hrecv hne hmsg) hrec
      · rename_i msg hmsg
        split_ifs with hlen hsends
        · exact .stopped (.recvIndex hpc (.inr hlen)) hrec
        · rw [log_log, countP_log_recvOn]
          exact .relayed hpc hp hl hrecv hne hmsg
        · rw [log_log, countP_log_recvOn]
          rw [countP_log_recvOn] at hsends
          exact .stopped (.sendFails hpc hp hl hrecv hne hmsg hsends)
            (.relayed hpc hp hl hrecv hmsg)
  · rename_i hnone
    exact outcome_stop (.recvIndex hpc (.inl (length_le_of_no_entries hnone)))

theorem hangup_outcome {i : ℕ} (hpc : s.pc = .hangup i) : Outcome k s (hangupStep k i s) := by
  unfold hangupStep
  split
  · rename_i hnone
    exact outcome_stop (.hangupIndex hpc (List.getElem?_eq_none_iff.mp hnone))
  · rename_i p hp
    split_ifs with hbits
    · have hrec : Records k s ([.closed p s.reported[i]?] ++
          [.handled p.fd (lookup s.reactor p.fd)]) := .closed hpc hp hbits
      rcases handleEvent_cases (s.log [.closed p s.reported[i]?]) k p.fd _ with
        h | ⟨why, hevent, h⟩
      · rw [h, log_log]
        rcases pushRemove_cases (s.log ([.closed p s.reported[i]?] ++
          [.handled p.fd (lookup s.reactor p.fd)])) i (fun s => s.goto (.scan (i + 1))) with
          ⟨hroom, h'⟩ | ⟨hroom, h'⟩
        · exact h' ▸ .closed hpc hp hbits hroom
        · exact h' ▸ .stopped (.pushRemove (.inr ⟨hpc, p, hp, hbits⟩) hroom) hrec
      · rw [h, log_log]
        exact .stopped (.hangupEvent hpc hp hbits hevent) hrec
    · exact .moved (.healthy hpc hp (by simpa using hbits))

theorem remove_outcome {m : ℕ} (hpc : s.pc = .remove m) : Outcome k s (removeStep m s) := by
  unfold removeStep
  split
  · rename_i hm
    exact .moved (.removed hpc hm)
  · rename_i i hm
    cases hdel : delFromPfds s.reactor i with
    | error why => exact outcome_stop (.delFromPfds hpc hm hdel)
    | ok r => exact .deleted hpc hm hdel

/-- Every step of `startReactor` has one of the outcomes. -/
theorem step_outcome {listener : ℕ} (h : (startReactor listener).step k s = some s') :
    Outcome k s s' := by
  simp only [startReactor] at h
  split at h
  · rename_i hpc
    cases h
    exact poll_outcome hpc
  · rename_i i hpc
    cases h
    exact scan_outcome hpc
  · rename_i i hpc
    cases h
    exact accept_outcome hpc
  · rename_i i hpc
    cases h
    exact recv_outcome hpc
  · rename_i i hpc
    cases h
    exact hangup_outcome hpc
  · rename_i m hpc
    cases h
    exact remove_outcome hpc
  · cases h
  · cases h

/-- The history grows by what the step records. -/
theorem Outcome.records (h : Outcome k s s') :
    ∃ acts, Records k s acts ∧ s'.hist = s.hist ++ acts := by
  cases h with
  | moved h => exact ⟨[], .nothing, (List.append_nil _).symm⟩
  | stopped h hrec => exact ⟨_, hrec, rfl⟩
  | polled hpc hrun hpoll hlen => exact ⟨[], .nothing, (List.append_nil _).symm⟩
  | added hpc haccept hadd => exact ⟨_, .accepted hpc haccept, rfl⟩
  | dropped hpc hp hrecv hroom => exact ⟨_, .received hpc hp, rfl⟩
  | relayed hpc hp hl hrecv hne hmsg => exact ⟨_, .relayed hpc hp hl hrecv hmsg, rfl⟩
  | closed hpc hp hbits hroom => exact ⟨_, .closed hpc hp hbits, rfl⟩
  | deleted hpc hm hdel => exact ⟨[], .nothing, (List.append_nil _).symm⟩

end ChatOnC.ReactServer
