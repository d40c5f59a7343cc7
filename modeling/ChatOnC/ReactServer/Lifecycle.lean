import ChatOnC.ReactServer.PollSet

/-!
# Client descriptors from `accept` to `close`

A client leaves the poll set on two paths. After an error or a hang-up the server
closes its descriptor; after a `recv` that returns nothing it does not. In both
cases the entry is removed once the scan is over, by moving the last one into its
place.

* `lifecycle_of_orderly`: if every `recv` returns data, and no removal moves an
  entry that is to be removed too, the open descriptors are the polled ones
  whenever the loop begins, and no descriptor is closed twice.
* `descriptor_leak`: a client that ends its connection is removed, and its
  descriptor stays open.
-/

namespace ChatOnC.ReactServer

open ChatOnC.Common

variable {k : Kernel} {s s' : State} {listener : ℕ}

/-! ## Open descriptors -/

/-- Whether `fd` is open after an act, if it was `before`. -/
def Act.openAfter (fd : ℕ) (before : Bool) : Act → Bool
  | .accepted newfd => if newfd = fd then true else before
  | .closed entry _ => if entry.fd = fd then false else before
  | _ => before

/-- `accept` has returned `fd`, and the server has not closed it since. -/
def isOpen (fd : ℕ) (hist : List Act) : Bool := hist.foldl (Act.openAfter fd) false

/-- What the life of the descriptors should be: when the loop begins, the open
    ones are those polled, and between two closes of one it is accepted again. -/
structure Lifecycle (s : State) : Prop where
  polled : s.pc = .poll → ∀ fd, isOpen fd s.hist = true ↔ fd ∈ s.clients
  closedOnce : ∀ before e polled between e' polled' after,
    s.hist = before ++ .closed e polled :: (between ++ .closed e' polled' :: after) →
      e.fd = e'.fd → .accepted e.fd ∈ between

/-- All entries are scanned. -/
def State.scanDone (s : State) : Bool :=
  match s.pc with
  | .scan i => s.reactor.fdCount ≤ i
  | _ => false

/-- `startReactor` stands before `recv`. -/
def Pc.receiving : Pc → Bool
  | .recv _ => true
  | _ => false

/-- The listener is sound, `accept` returns no open descriptor, `recv` returns
    data, and no removal moves an entry that is to be removed too. -/
structure Orderly (listener : ℕ) (k : Kernel) (s : State) : Prop where
  sound : ListenerSound listener k
  acceptNew : k.accept.all (fun newfd => !isOpen newfd s.hist) = true
  receives : s.pc.receiving = true → k.recv ≠ none ∧ k.recv ≠ some []
  swapSafe : s.scanDone = true → SwapSafe s.reactor.fdCount s.descriptorsToRemove

instance (listener : ℕ) (k : Kernel) (s : State) : Decidable (Orderly listener k s) :=
  decidable_of_iff
    (ListenerSound listener k ∧ k.accept.all (fun newfd => !isOpen newfd s.hist) = true ∧
      (s.pc.receiving = true → k.recv ≠ none ∧ k.recv ≠ some []) ∧
      (s.scanDone = true → SwapSafe s.reactor.fdCount s.descriptorsToRemove))
    ⟨fun ⟨h1, h2, h3, h4⟩ => ⟨h1, h2, h3, h4⟩, fun ⟨h1, h2, h3, h4⟩ => ⟨h1, h2, h3, h4⟩⟩

theorem isOpen_append (fd : ℕ) (hist acts : List Act) :
    isOpen fd (hist ++ acts) = acts.foldl (Act.openAfter fd) (isOpen fd hist) :=
  List.foldl_append

theorem isOpen_accepted {fd newfd : ℕ} {hist : List Act} {found : Lookup} :
    isOpen fd (hist ++ [.accepted newfd, .handled newfd found]) = true ↔
      fd = newfd ∨ isOpen fd hist = true := by
  rw [isOpen_append]
  show (if newfd = fd then true else isOpen fd hist) = true ↔ _
  split_ifs with h
  · simp [h]
  · simp [Ne.symm h]

theorem isOpen_closed {fd : ℕ} {hist : List Act} {p : PollFd} {polled : Option PollFd}
    {found : Lookup} :
    isOpen fd (hist ++ [.closed p polled, .handled p.fd found]) = true ↔
      fd ≠ p.fd ∧ isOpen fd hist = true := by
  rw [isOpen_append]
  show (if p.fd = fd then false else isOpen fd hist) = true ↔ _
  split_ifs with h
  · simp [h]
  · simp [Ne.symm h]

/-- What `recv` and the sends record opens and closes nothing. -/
theorem isOpen_relayed {k : Kernel} {fd listener me seq j : ℕ} {msg : List UInt8}
    {ps : List PollFd} {hist : List Act} {p : PollFd} {polled : Option PollFd}
    {clients : List ℕ} :
    isOpen fd (hist ++ .recvOn p polled :: .data seq me msg clients ::
      (broadcast k listener me seq msg j ps).1) = isOpen fd hist := by
  have hframe : ∀ acts : List Act,
      (∀ a ∈ acts, ∃ seq dst msg result, a = .sent seq dst msg result) →
      ∀ before, acts.foldl (Act.openAfter fd) before = before := by
    intro acts hacts before
    induction acts with
    | nil => rfl
    | cons a acts ih =>
      obtain ⟨seq, dst, msg, result, rfl⟩ := hacts a List.mem_cons_self
      exact ih fun a ha => hacts a (List.mem_cons_of_mem _ ha)
  rw [isOpen_append, List.foldl_cons, List.foldl_cons]
  exact hframe _ (fun a ha => mem_broadcast ha) _

/-- A descriptor that is open after some acts was open before, or they accept
    it. -/
theorem isOpen_or_accepted {fd : ℕ} {hist acts : List Act} (h : isOpen fd (hist ++ acts) = true) :
    isOpen fd hist = true ∨ .accepted fd ∈ acts := by
  induction acts using List.reverseRecOn with
  | nil => exact .inl (by rwa [List.append_nil] at h)
  | append_singleton acts a ih =>
    rw [← List.append_assoc, isOpen_append] at h
    have hstep : Act.openAfter fd (isOpen fd (hist ++ acts)) a = true := h
    have hold : isOpen fd (hist ++ acts) = true → isOpen fd hist = true ∨
        .accepted fd ∈ acts ++ [a] := fun h' => (ih h').imp_right fun hmem => by simp [hmem]
    cases a with
    | accepted newfd =>
      simp only [Act.openAfter] at hstep
      split_ifs at hstep with hfd
      · right
        simp [hfd]
      · exact hold hstep
    | closed entry polled =>
      simp only [Act.openAfter] at hstep
      split_ifs at hstep
      exact hold hstep
    | _ => exact hold hstep

/-- The server closes open descriptors only. -/
def ClosesOpen (hist : List Act) : Prop :=
  ∀ before e polled after, hist = before ++ .closed e polled :: after → isOpen e.fd before = true

/-- Then a descriptor is accepted between two closes. -/
theorem ClosesOpen.accepted_between {hist : List Act} (h : ClosesOpen hist)
    {before between after : List Act} {e e' : PollFd} {polled polled' : Option PollFd}
    (hhist : hist = before ++ .closed e polled :: (between ++ .closed e' polled' :: after))
    (hfd : e.fd = e'.fd) : .accepted e.fd ∈ between := by
  have hopen := h (before ++ .closed e polled :: between) e' polled' after (by simp [hhist])
  rw [← hfd, List.append_cons] at hopen
  refine (isOpen_or_accepted hopen).resolve_left ?_
  rw [isOpen_append]
  simp [Act.openAfter]

theorem ClosesOpen.append {hist acts : List Act} (h : ClosesOpen hist)
    (hacts : ∀ before e polled after, acts = before ++ .closed e polled :: after →
      isOpen e.fd (hist ++ before) = true) : ClosesOpen (hist ++ acts) := by
  intro before e polled after heq
  rcases List.append_eq_append_iff.mp heq with ⟨as, rfl, hacts'⟩ | ⟨bs, rfl, hbs⟩
  · exact hacts _ _ _ _ hacts'
  · cases bs with
    | nil =>
      have := hacts [] e polled after hbs.symm
      simpa using this
    | cons b bs =>
      rw [List.cons_append, List.cons.injEq] at hbs
      exact h before e polled bs (by rw [hbs.1])

/-- What a step records keeps `ClosesOpen`, if it closes an open descriptor. -/
theorem closesOpen_records {acts : List Act} (h : ClosesOpen s.hist)
    (hopen : ∀ i p, s.pc = .hangup i → s.reactor.pfds[i]? = some p →
      p.revents &&& hangupBits ≠ 0 → isOpen p.fd s.hist = true)
    (hrec : Records k s acts) : ClosesOpen (s.hist ++ acts) := by
  apply h.append
  intro before e polled after hacts
  have hmem : .closed e polled ∈ acts := by
    rw [hacts]
    simp
  cases hrec with
  | nothing => cases hmem
  | accepted hpc haccept => simp at hmem
  | received hpc hp => simp at hmem
  | relayed hpc hp hl hrecv hmsg =>
    simp only [List.mem_cons, reduceCtorEq, false_or] at hmem
    obtain ⟨seq, dst, msg, result, hsent⟩ := mem_broadcast hmem
    cases hsent
  | @closed i p hpc hp hbits =>
    cases before with
    | nil =>
      cases hacts
      rw [List.append_nil]
      exact hopen i _ hpc hp hbits
    | cons b before =>
      rw [List.cons_append, List.cons.injEq] at hacts
      have hlast : .closed e polled ∈ [Act.handled p.fd (lookup s.reactor p.fd)] := by
        rw [hacts.2]
        simp
      simp at hlast

/-! ## The invariant -/

/-- The open descriptors are those at the indices not listed for removal, the
    listener apart. -/
def OpenAt (listener : ℕ) (hist : List Act) (fds removed : List ℕ) : Prop :=
  ∀ fd, isOpen fd hist = true ↔ fd ≠ listener ∧ ∃ j, fds[j]? = some fd ∧ j ∉ removed

/-- What holds where `startReactor` stands. The removal compares with the
    descriptors it began with. -/
def LifePhase (listener : ℕ) (s : State) : Prop :=
  match s.pc with
  | .poll => OpenAt listener s.hist s.reactor.fds []
  | .scan _ | .accept _ | .recv _ | .hangup _ =>
    OpenAt listener s.hist s.reactor.fds s.descriptorsToRemove
  | .remove m => ∃ fds, s.reactor.fds = (s.descriptorsToRemove.take m).foldl swapRemove fds ∧
      fds.length = s.reactor.fdCount + m ∧ SwapSafe fds.length s.descriptorsToRemove ∧
      OpenAt listener s.hist fds s.descriptorsToRemove
  | _ => True

structure LifeInv (listener : ℕ) (s : State) : Prop where
  nodup : s.reactor.fds.Nodup
  closes : ClosesOpen s.hist
  phase : LifePhase listener s

theorem openAt_nil {hist : List Act} {fds : List ℕ} : OpenAt listener hist fds [] ↔
    ∀ fd, isOpen fd hist = true ↔ fd ≠ listener ∧ fd ∈ fds := by
  simp [OpenAt, List.mem_iff_getElem?]

/-- A new descriptor is appended. -/
theorem OpenAt.accepted {hist : List Act} {fds : List ℕ} {newfd : ℕ} {found : Lookup}
    (h : OpenAt listener hist fds []) (hne : newfd ≠ listener) :
    OpenAt listener (hist ++ [.accepted newfd, .handled newfd found]) (fds ++ [newfd]) [] := by
  rw [openAt_nil] at h ⊢
  intro fd
  rw [isOpen_accepted, h fd, List.mem_append, List.mem_singleton]
  constructor
  · rintro (rfl | ⟨hfd, hmem⟩)
    · exact ⟨hne, .inr rfl⟩
    · exact ⟨hfd, .inl hmem⟩
  · rintro ⟨hfd, hmem | rfl⟩
    · exact .inr ⟨hfd, hmem⟩
    · exact .inl rfl

/-- A listed descriptor is closed. -/
theorem OpenAt.closed {hist : List Act} {fds removed : List ℕ} {i : ℕ} {p : PollFd}
    {polled : Option PollFd} {found : Lookup} (h : OpenAt listener hist fds removed)
    (hnodup : fds.Nodup) (hi : fds[i]? = some p.fd) :
    OpenAt listener (hist ++ [.closed p polled, .handled p.fd found]) fds (removed ++ [i]) := by
  have hat : ∀ j fd, fds[j]? = some fd → (j = i ↔ fd = p.fd) := by
    intro j fd hj
    have hlt := (List.getElem?_eq_some_iff.mp hj).1
    refine ⟨?_, ?_⟩
    · rintro rfl
      rw [hi] at hj
      exact (Option.some.inj hj).symm
    · rintro rfl
      exact (List.getElem?_inj hlt hnodup).mp (hj.trans hi.symm)
  intro fd
  rw [isOpen_closed, h fd]
  constructor
  · rintro ⟨hfd, hne, j, hj, hmem⟩
    refine ⟨hne, j, hj, ?_⟩
    simp only [List.mem_append, List.mem_singleton, not_or]
    exact ⟨hmem, fun hji => hfd ((hat j fd hj).mp hji)⟩
  · rintro ⟨hne, j, hj, hmem⟩
    simp only [List.mem_append, List.mem_singleton, not_or] at hmem
    exact ⟨fun hfd => hmem.2 ((hat j fd hj).mpr hfd), hne, j, hj, hmem.1⟩

/-- The removal has deleted everything listed. -/
theorem OpenAt.removed {hist : List Act} {fds removed : List ℕ}
    (h : OpenAt listener hist fds removed) (hinc : removed.Pairwise (· < ·))
    (hbound : ∀ x ∈ removed, x < fds.length) (hsafe : SwapSafe fds.length removed) :
    OpenAt listener hist (removed.foldl swapRemove fds) [] := by
  rw [openAt_nil]
  intro fd
  rw [h fd, mem_foldl_swapRemove hinc hbound hsafe]

theorem lifePhase_moves {pc : Pc} (hok : Orderly listener k s) (hpoll : PollInv listener s)
    (hinv : LifeInv listener s) (h : Moves k s pc) : LifePhase listener (s.goto pc) := by
  have hphase := hinv.phase
  unfold LifePhase at hphase
  cases h with
  | returns hpc hrun => trivial
  | @scanned i hpc hi =>
    rw [hpc] at hphase
    have hlen := hpoll.pollSet.toSized.length_fds
    refine ⟨s.reactor.fds, rfl, hlen, ?_, hphase⟩
    rw [hlen]
    apply hok.swapSafe
    rw [State.scanDone, hpc]
    exact decide_eq_true hi
  | idle hpc hi hp hrev =>
    rw [hpc] at hphase
    exact hphase
  | accepts hpc hi hp hl hin hfd =>
    rw [hpc] at hphase
    exact hphase
  | receives hpc hi hp hl hin hfd =>
    rw [hpc] at hphase
    exact hphase
  | checks hpc hi hp hin =>
    rw [hpc] at hphase
    exact hphase
  | refused hpc haccept =>
    rw [hpc] at hphase
    exact hphase
  | healthy hpc hp hbits =>
    rw [hpc] at hphase
    exact hphase
  | @removed m hpc hm =>
    rw [hpc] at hphase
    obtain ⟨fds, hfds, hlen, hsafe, hopen⟩ := hphase
    have hrem := hpoll.remove hpc
    rw [List.take_of_length_le (List.getElem?_eq_none_iff.mp hm)] at hfds
    show OpenAt listener s.hist s.reactor.fds []
    rw [hfds]
    apply hopen.removed hrem.increasing ?_ hsafe
    intro x hx
    rw [hlen]
    exact (hrem.bounds x hx).2

/-- Every step that meets the condition keeps the invariant. -/
theorem lifeInv_step (hok : Orderly listener k s) (hpoll : PollInv listener s)
    (hinv : LifeInv listener s) (h : Outcome k s s') : LifeInv listener s' := by
  have hsized := hpoll.pollSet.toSized
  obtain ⟨hnodup, hcloses, hphase⟩ := hinv
  have hopen : ∀ i p, s.pc = .hangup i → s.reactor.pfds[i]? = some p →
      p.revents &&& hangupBits ≠ 0 → isOpen p.fd s.hist = true := by
    intro i p hpc hp hbits
    obtain ⟨-, hget, hne⟩ := hpoll.client_of_hangup hpc hp hbits
    have hbounds := (hpoll.hangup hpc).1.bounds
    unfold LifePhase at hphase
    rw [hpc] at hphase
    exact (hphase p.fd).mpr ⟨hne, i, hget, fun hmem => absurd (hbounds i hmem).2 (lt_irrefl i)⟩
  have hcloses' : ClosesOpen s'.hist := by
    obtain ⟨acts, hrec, hhist⟩ := h.records
    rw [hhist]
    exact closesOpen_records hcloses hopen hrec
  cases h with
  | moved h => exact ⟨hnodup, hcloses', lifePhase_moves hok hpoll ⟨hnodup, hcloses, hphase⟩ h⟩
  | stopped h hrec => exact ⟨hnodup, hcloses', trivial⟩
  | @polled revents hpc hrun hpoll' hlen =>
    have hfds := fds_poll s.reactor revents
    unfold LifePhase at hphase
    rw [hpc] at hphase
    refine ⟨?_, hcloses', ?_⟩
    · rw [hfds]
      exact hnodup
    · show OpenAt listener s.hist (Reactor.fds _) []
      rw [hfds]
      exact hphase
  | @added i newfd r hpc haccept hadd =>
    have hnew : isOpen newfd s.hist = false := by
      have hall := hok.acceptNew
      rw [haccept] at hall
      simpa using hall
    have hne : newfd ≠ listener := by
      rintro rfl
      exact hok.sound.accept_ne haccept
    unfold LifePhase at hphase
    rw [hpc] at hphase
    dsimp only at hphase
    rw [hpoll.nothing_listed hpc] at hphase
    have hnot : newfd ∉ s.reactor.fds := by
      intro hmem
      have hopen' := (openAt_nil.mp hphase newfd).mpr ⟨hne, hmem⟩
      rw [hnew] at hopen'
      cases hopen'
    refine ⟨nodup_addFd hsized hnodup hnot hadd, hcloses', ?_⟩
    show OpenAt listener (s.hist ++ _) r.fds s.descriptorsToRemove
    rw [hpoll.nothing_listed hpc, fds_addFd hsized hadd]
    exact hphase.accepted hne
  | dropped hpc hp hrecv hroom =>
    obtain ⟨hsome, hdata⟩ := hok.receives (by rw [hpc]; rfl)
    rcases hrecv with h | h
    · exact absurd h hsome
    · exact absurd h hdata
  | @relayed i p l chunk msg hpc hp hl hrecv hne hmsg =>
    unfold LifePhase at hphase
    rw [hpc] at hphase
    refine ⟨hnodup, hcloses', fun fd => ?_⟩
    show isOpen fd (s.hist ++ _) = true ↔ _
    rw [isOpen_relayed]
    exact hphase fd
  | @closed i p hpc hp hbits hroom =>
    obtain ⟨-, hget, -⟩ := hpoll.client_of_hangup hpc hp hbits
    unfold LifePhase at hphase
    rw [hpc] at hphase
    exact ⟨hnodup, hcloses', OpenAt.closed hphase hnodup hget⟩
  | @deleted m i r hpc hm hdel =>
    obtain ⟨hpos, -, last, -, -, hcount, -⟩ := delFromPfds_eq_ok hdel
    unfold LifePhase at hphase
    rw [hpc] at hphase
    obtain ⟨fds, hold, hlen, hsafe, hopen'⟩ := hphase
    have hfds := fds_delFromPfds_take hsized hold hm hdel
    refine ⟨nodup_delFromPfds hsized hnodup hdel, hcloses', fds, hfds, ?_, hsafe, hopen'⟩
    show fds.length = r.fdCount + (m + 1)
    omega

theorem lifeInv_init : LifeInv listener (startReactor listener).init where
  nodup := List.nodup_singleton listener
  closes := by
    intro before e polled after heq
    exact absurd (congrArg List.length heq) (by simp [startReactor])
  phase := by
    show OpenAt listener [] [listener] []
    intro fd
    constructor
    · intro h
      cases h
    · rintro ⟨hne, j, hj, -⟩
      exact absurd (List.mem_singleton.mp (List.mem_of_getElem? hj)) hne

/-- In every state reached by orderly steps, the open descriptors are those
    polled when the loop begins, and a descriptor is accepted between any two
    closes of it. -/
theorem lifecycle_of_orderly (h : (startReactor listener).Reach (Orderly listener) s) :
    Lifecycle s := by
  have hreach : ∀ s, (startReactor listener).Reach (Orderly listener) s → PollInv listener s :=
    fun s hs => pollInv_reach (fun _ _ ha _ => ha.sound) hs
  have hinv : LifeInv listener s :=
    h.invariant_of hreach lifeInv_init fun k s s' hok hpoll hinv hstep =>
      lifeInv_step hok hpoll hinv (step_outcome hstep)
  refine ⟨fun hpc fd => ?_, ?_⟩
  · obtain ⟨hfds, hnot⟩ := (hreach s h).pollSet.fds_eq
    have hphase := hinv.phase
    unfold LifePhase at hphase
    rw [hpc] at hphase
    rw [openAt_nil.mp hphase fd, State.clients]
    constructor
    · rintro ⟨hne, hmem⟩
      rw [hfds] at hmem
      exact (List.mem_cons.mp hmem).resolve_left hne
    · intro hmem
      refine ⟨?_, List.mem_of_mem_drop hmem⟩
      rintro rfl
      exact hnot hmem
  · intro before e polled between e' polled' after hhist hfd
    exact hinv.closes.accepted_between hhist hfd

/-- Clients 5 and 6 join and cannot be registered; 5 hangs up, is closed and removed. -/
def hangUp : List Kernel :=
  [joinUnregistered 5 0, joinUnregistered 6 1,
    [.ready 1 pollHup, .idle, .idle, .idle, .idle, .idle, .idle, .idle]].flatten

theorem lifecycle_hangUp :
    ∃ s, (startReactor 3).execIf (Orderly 3) hangUp (startReactor 3).init = some s ∧
      s.pc = .poll ∧ s.clients = [6] ∧ isOpen 5 s.hist = false ∧ Lifecycle s := by
  have hrun : ((startReactor 3).execIf (Orderly 3) hangUp (startReactor 3).init).map
      (fun s => (s.pc, s.clients, isOpen 5 s.hist)) = some (.poll, [6], false) := by
    decide +kernel
  obtain ⟨s, hs, hat⟩ := Option.map_eq_some_iff.mp hrun
  have hreach : (startReactor 3).Reach (Orderly 3) s := .of_execIf .init hs
  simp only [Prod.mk.injEq] at hat
  obtain ⟨hpc, hclients, hopen⟩ := hat
  exact ⟨s, hs, hpc, hclients, hopen, lifecycle_of_orderly hreach⟩

/-- Clients 5 and 6 join; 5 ends its connection, and is removed. -/
def endOfStream : List Kernel :=
  [join 5 0, join 6 1,
    [.ready 1 pollIn, .idle, .idle, .receives [], .idle, .idle, .idle, .idle]].flatten

/-- After that run the descriptor of client 5 is open, and not polled. -/
theorem descriptor_leak : ¬ ∀ s, (startReactor 3).Reachable s → Lifecycle s := by
  intro hall
  have hrun : ((startReactor 3).exec endOfStream (startReactor 3).init).map
      (fun s => (s.pc, s.clients, isOpen 5 s.hist)) = some (.poll, [6], true) := by
    decide +kernel
  obtain ⟨s, hs, hat⟩ := Option.map_eq_some_iff.mp hrun
  simp only [Prod.mk.injEq] at hat
  obtain ⟨hpc, hclients, hopen⟩ := hat
  have hmem := ((hall s (.of_exec hs)).polled hpc 5).mp hopen
  rw [hclients] at hmem
  cases hmem with
  | tail _ hmem => cases hmem

end ChatOnC.ReactServer
