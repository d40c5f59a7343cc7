import ChatOnC.ReactServer.Lifecycle

/-!
# Which descriptors leak

The server closes a client's descriptor on an error or a hang-up, and on no other path. Here
`recv` may also report the end of a connection, and the open descriptors are accounted for in
all runs whose removals are safe.

* `Ended`: a `recv` on the descriptor has given nothing.
* `LeakAt.dropped`, `LeakAt.closed`, `LeakAt.swept`: how a descriptor gets from the polled ones
  to the leaked or to the closed ones.
* `open_iff_polled_or_ended`: whenever the loop begins, the open descriptors are those polled
  and those ended; when `startReactor` returns they are those ended.
-/

namespace ChatOnC.ReactServer

open ChatOnC.Common

variable {k : Kernel} {s s' : State} {listener : ℕ}

/-! ## Connections that have ended -/

def Act.isRecvOn (fd : ℕ) : Act → Bool
  | .recvOn entry _ => entry.fd = fd
  | _ => false

def Act.isDataFrom (fd : ℕ) : Act → Bool
  | .data _ src _ _ => src = fd
  | _ => false

/-- There were more calls of `recv` on `fd` than messages from it. -/
def Ended (fd : ℕ) (hist : List Act) : Prop :=
  hist.countP (Act.isDataFrom fd) < hist.countP (Act.isRecvOn fd)

instance (fd : ℕ) (hist : List Act) : Decidable (Ended fd hist) :=
  inferInstanceAs (Decidable (_ < _))

/-- There are no more messages than calls. -/
def Heard (hist : List Act) : Prop :=
  ∀ fd, hist.countP (Act.isDataFrom fd) ≤ hist.countP (Act.isRecvOn fd)

/-- In these acts every `recv` gives a message. -/
def Even (acts : List Act) : Prop :=
  ∀ fd, acts.countP (Act.isDataFrom fd) = acts.countP (Act.isRecvOn fd)

section Counts

variable {hist acts : List Act} {fd : ℕ}

theorem ended_append (h : Even acts) : Ended fd (hist ++ acts) ↔ Ended fd hist := by
  rw [Ended, List.countP_append, List.countP_append, h fd, Ended]
  exact Nat.add_lt_add_iff_right

theorem Heard.append (hheard : Heard hist) (h : Even acts) : Heard (hist ++ acts) := by
  intro fd
  rw [List.countP_append, List.countP_append, h fd]
  exact Nat.add_le_add_right (hheard fd) _

/-- A `recv` that gives nothing ends the connection. -/
theorem ended_recvOn {p : PollFd} {polled : Option PollFd} (hheard : Heard hist) :
    Ended fd (hist ++ [.recvOn p polled]) ↔ fd = p.fd ∨ Ended fd hist := by
  have hle := hheard fd
  have hdata : [Act.recvOn p polled].countP (Act.isDataFrom fd) = 0 := rfl
  have hrecv : [Act.recvOn p polled].countP (Act.isRecvOn fd) = if p.fd = fd then 1 else 0 := by
    simp [Act.isRecvOn]
  rw [Ended, Ended, List.countP_append, List.countP_append, hdata, hrecv]
  by_cases hfd : p.fd = fd
  · rw [if_pos hfd]
    exact iff_of_true (by omega) (.inl hfd.symm)
  · rw [if_neg hfd]
    exact ⟨.inr, fun h => h.resolve_left fun heq => hfd heq.symm⟩

theorem Heard.recvOn {p : PollFd} {polled : Option PollFd} (hheard : Heard hist) :
    Heard (hist ++ [.recvOn p polled]) := by
  intro fd
  have hle := hheard fd
  have hdata : [Act.recvOn p polled].countP (Act.isDataFrom fd) = 0 := rfl
  rw [List.countP_append, List.countP_append, hdata]
  omega

theorem even_accepted {newfd : ℕ} {found : Lookup} :
    Even [.accepted newfd, .handled newfd found] := fun _ => rfl

theorem even_closed {p : PollFd} {polled : Option PollFd} {found : Lookup} :
    Even [.closed p polled, .handled p.fd found] := fun _ => rfl

/-- What is sent is neither a call of `recv` nor a message of a client. -/
theorem countP_broadcast {q : Act → Bool} (hq : ∀ seq dst msg result,
      q (.sent seq dst msg result) = false) {listener me seq j : ℕ} {msg : List UInt8}
    {ps : List PollFd} : (broadcast k listener me seq msg j ps).1.countP q = 0 := by
  rw [List.countP_eq_zero]
  intro a ha
  obtain ⟨seq, dst, msg, result, rfl⟩ := mem_broadcast ha
  rw [hq]
  exact Bool.false_ne_true

theorem even_relayed {listener seq j : ℕ} {msg : List UInt8} {ps : List PollFd} {p : PollFd}
    {polled : Option PollFd} {clients : List ℕ} :
    Even (.recvOn p polled :: .data seq p.fd msg clients ::
      (broadcast k listener p.fd seq msg j ps).1) := by
  intro fd
  rw [List.countP_cons, List.countP_cons, List.countP_cons, List.countP_cons,
    countP_broadcast fun _ _ _ _ => rfl, countP_broadcast fun _ _ _ _ => rfl]
  rfl

end Counts

/-! ## The open descriptors -/

/-- The descriptor of a client, at an index that is not listed for removal. -/
def Live (listener : ℕ) (fds removed : List ℕ) (fd : ℕ) : Prop :=
  fd ≠ listener ∧ ∃ j, fds[j]? = some fd ∧ j ∉ removed

/-- A descriptor is live as long as it is open and its connection has not ended, and that of
    an ended connection stays open. -/
structure LeakAt (listener : ℕ) (hist : List Act) (fds removed : List ℕ) : Prop where
  live_iff : ∀ fd, Live listener fds removed fd ↔ isOpen fd hist = true ∧ ¬Ended fd hist
  open_of_ended : ∀ fd, Ended fd hist → isOpen fd hist = true

section LeakAt

variable {hist : List Act} {fds removed : List ℕ}

theorem live_nil {fd : ℕ} : Live listener fds [] fd ↔ fd ≠ listener ∧ fd ∈ fds := by
  simp [Live, List.mem_iff_getElem?]

/-- To list an index is to take its descriptor from the live ones. -/
theorem live_push {i fd fd' : ℕ} (hnodup : fds.Nodup) (hi : fds[i]? = some fd) :
    Live listener fds (removed ++ [i]) fd' ↔ fd' ≠ fd ∧ Live listener fds removed fd' := by
  have hat : ∀ j, fds[j]? = some fd' → (j = i ↔ fd' = fd) := by
    intro j hj
    have hlt := (List.getElem?_eq_some_iff.mp hj).1
    constructor
    · rintro rfl
      exact Option.some.inj (hj.symm.trans hi)
    · rintro rfl
      exact (List.getElem?_inj hlt hnodup).mp (hj.trans hi.symm)
  constructor
  · rintro ⟨hne, j, hj, hmem⟩
    simp only [List.mem_append, List.mem_singleton, not_or] at hmem
    exact ⟨fun hfd => hmem.2 ((hat j hj).mpr hfd), hne, j, hj, hmem.1⟩
  · rintro ⟨hfd, hne, j, hj, hmem⟩
    refine ⟨hne, j, hj, ?_⟩
    simp only [List.mem_append, List.mem_singleton, not_or]
    exact ⟨hmem, fun hji => hfd ((hat j hj).mp hji)⟩

/-- The open descriptors, each on one side. -/
theorem LeakAt.isOpen_iff (h : LeakAt listener hist fds removed) (fd : ℕ) :
    isOpen fd hist = true ↔ Live listener fds removed fd ∨ Ended fd hist := by
  constructor
  · intro hopen
    by_cases hend : Ended fd hist
    · exact .inr hend
    · exact .inl ((h.live_iff fd).mpr ⟨hopen, hend⟩)
  · rintro (hlive | hend)
    · exact ((h.live_iff fd).mp hlive).1
    · exact h.open_of_ended fd hend

/-- Acts that open, close and end nothing change nothing. -/
theorem LeakAt.frame {acts : List Act} (h : LeakAt listener hist fds removed)
    (hopen : ∀ fd, isOpen fd (hist ++ acts) = isOpen fd hist) (heven : Even acts) :
    LeakAt listener (hist ++ acts) fds removed where
  live_iff fd := by rw [hopen, ended_append heven, h.live_iff fd]
  open_of_ended fd hend := by
    rw [hopen]
    exact h.open_of_ended fd ((ended_append heven).mp hend)

/-- A descriptor that was closed, or never open, is accepted and appended. -/
theorem LeakAt.accepted {newfd : ℕ} {found : Lookup} (h : LeakAt listener hist fds [])
    (hne : newfd ≠ listener) (hnew : isOpen newfd hist = false) :
    LeakAt listener (hist ++ [.accepted newfd, .handled newfd found]) (fds ++ [newfd]) [] := by
  have hfresh : ¬Ended newfd hist := by
    intro hend
    have hopen := h.open_of_ended newfd hend
    rw [hnew] at hopen
    cases hopen
  refine ⟨fun fd => ?_, fun fd hend => ?_⟩
  · have hlive := h.live_iff fd
    rw [live_nil] at hlive
    rw [live_nil, List.mem_append, List.mem_singleton, isOpen_accepted, ended_append even_accepted]
    constructor
    · rintro ⟨hfd, hmem | rfl⟩
      · obtain ⟨hopen, hend⟩ := hlive.mp ⟨hfd, hmem⟩
        exact ⟨.inr hopen, hend⟩
      · exact ⟨.inl rfl, hfresh⟩
    · rintro ⟨rfl | hopen, hend⟩
      · exact ⟨hne, .inr rfl⟩
      · obtain ⟨hfd, hmem⟩ := hlive.mpr ⟨hopen, hend⟩
        exact ⟨hfd, .inl hmem⟩
  · rw [isOpen_accepted]
    exact .inr (h.open_of_ended fd ((ended_append even_accepted).mp hend))

/-- A client's connection ends: it is listed, and its descriptor stays open. -/
theorem LeakAt.dropped {i : ℕ} {p : PollFd} {polled : Option PollFd}
    (h : LeakAt listener hist fds removed) (hheard : Heard hist) (hnodup : fds.Nodup)
    (hi : fds[i]? = some p.fd) (hlive : Live listener fds removed p.fd) :
    LeakAt listener (hist ++ [.recvOn p polled]) fds (removed ++ [i]) := by
  have hopen : ∀ fd, isOpen fd (hist ++ [.recvOn p polled]) = isOpen fd hist := fun fd => by
    rw [isOpen_append]
    rfl
  refine ⟨fun fd => ?_, fun fd hend => ?_⟩
  · rw [live_push hnodup hi, h.live_iff fd, hopen, ended_recvOn hheard, not_or]
    exact and_left_comm
  · rw [hopen]
    rcases (ended_recvOn hheard).mp hend with rfl | hend
    · exact ((h.live_iff p.fd).mp hlive).1
    · exact h.open_of_ended fd hend

/-- A client's descriptor is closed, and it is listed. -/
theorem LeakAt.closed {i : ℕ} {p : PollFd} {polled : Option PollFd} {found : Lookup}
    (h : LeakAt listener hist fds removed) (hnodup : fds.Nodup)
    (hi : fds[i]? = some p.fd) (hlive : Live listener fds removed p.fd) :
    LeakAt listener (hist ++ [.closed p polled, .handled p.fd found]) fds (removed ++ [i]) := by
  refine ⟨fun fd => ?_, fun fd hend => ?_⟩
  · rw [live_push hnodup hi, h.live_iff fd, isOpen_closed, ended_append even_closed, and_assoc]
  · rw [ended_append even_closed] at hend
    rw [isOpen_closed]
    refine ⟨?_, h.open_of_ended fd hend⟩
    rintro rfl
    exact ((h.live_iff p.fd).mp hlive).2 hend

/-- The removal deletes what is listed, and nothing else. -/
theorem LeakAt.swept (h : LeakAt listener hist fds removed) (hinc : removed.Pairwise (· < ·))
    (hbound : ∀ x ∈ removed, x < fds.length) (hsafe : SwapSafe fds.length removed) :
    LeakAt listener hist (removed.foldl swapRemove fds) [] where
  live_iff fd := by
    rw [live_nil, mem_foldl_swapRemove hinc hbound hsafe, ← h.live_iff fd, Live]
  open_of_ended := h.open_of_ended

end LeakAt

/-! ## The invariant -/

/-- The listener is sound, `accept` returns no open descriptor, and no removal moves an entry
    that is to be removed too. -/
structure Regular (listener : ℕ) (k : Kernel) (s : State) : Prop where
  sound : ListenerSound listener k
  acceptNew : k.accept.all (fun newfd => !isOpen newfd s.hist) = true
  swapSafe : s.scanDone = true → SwapSafe s.reactor.fdCount s.descriptorsToRemove

instance (listener : ℕ) (k : Kernel) (s : State) : Decidable (Regular listener k s) :=
  decidable_of_iff
    (ListenerSound listener k ∧ k.accept.all (fun newfd => !isOpen newfd s.hist) = true ∧
      (s.scanDone = true → SwapSafe s.reactor.fdCount s.descriptorsToRemove))
    ⟨fun ⟨h1, h2, h3⟩ => ⟨h1, h2, h3⟩, fun ⟨h1, h2, h3⟩ => ⟨h1, h2, h3⟩⟩

/-- What holds where `startReactor` stands. The removal compares with the descriptors it began
    with; at the end the listener is left. -/
def LeakPhase (listener : ℕ) (s : State) : Prop :=
  match s.pc with
  | .poll => LeakAt listener s.hist s.reactor.fds []
  | .scan _ | .accept _ | .recv _ | .hangup _ =>
    LeakAt listener s.hist s.reactor.fds s.descriptorsToRemove
  | .remove m => ∃ fds, s.reactor.fds = (s.descriptorsToRemove.take m).foldl swapRemove fds ∧
      fds.length = s.reactor.fdCount + m ∧ SwapSafe fds.length s.descriptorsToRemove ∧
      LeakAt listener s.hist fds s.descriptorsToRemove
  | .returned => LeakAt listener s.hist [listener] []
  | .stopped _ => True

structure LeakInv (listener : ℕ) (s : State) : Prop where
  nodup : s.reactor.fds.Nodup
  heard : Heard s.hist
  phase : LeakPhase listener s

/-- When the server is told to stop, only the listener is left. -/
theorem PollInv.fds_of_not_running (h : PollInv listener s) (hpc : s.pc = .poll)
    (hrun : s.reactor.running = false) : s.reactor.fds = [listener] := by
  have hphase := h.phase
  unfold Phase at hphase
  rw [hpc] at hphase
  have hcount := (hphase.mp hrun).2
  have hlen := h.pollSet.toSized.length_fds
  obtain ⟨hfds, -⟩ := h.pollSet.fds_eq
  rw [hfds] at hlen ⊢
  rw [List.length_cons, hcount] at hlen
  rw [List.eq_nil_of_length_eq_zero (Nat.succ.inj hlen)]

/-- The client at an index the scan has reached is live. -/
theorem Scanning.live {i fd : ℕ} (h : Scanning i s) (hget : s.reactor.fds[i]? = some fd)
    (hne : fd ≠ listener) : Live listener s.reactor.fds s.descriptorsToRemove fd :=
  ⟨hne, i, hget, fun hmem => absurd (h.bounds i hmem).2 (lt_irrefl i)⟩

theorem leakPhase_moves {pc : Pc} (hok : Regular listener k s) (hpoll : PollInv listener s)
    (hinv : LeakInv listener s) (h : Moves k s pc) : LeakPhase listener (s.goto pc) := by
  have hphase := hinv.phase
  unfold LeakPhase at hphase
  cases h with
  | returns hpc hrun =>
    rw [hpc] at hphase
    dsimp only at hphase
    rw [hpoll.fds_of_not_running hpc hrun] at hphase
    exact hphase
  | @scanned i hpc hi =>
    rw [hpc] at hphase
    have hlen := hpoll.pollSet.toSized.length_fds
    refine ⟨s.reactor.fds, rfl, hlen, ?_, hphase⟩
    rw [hlen]
    apply hok.swapSafe
    rw [State.scanDone, hpc]
    exact decide_eq_true hi
  | idle hpc hi hp hrev =>
    rw [hpc] at hphase
    exact hphase
  | accepts hpc hi hp hl hin hfd =>
    rw [hpc] at hphase
    exact hphase
  | receives hpc hi hp hl hin hfd =>
    rw [hpc] at hphase
    exact hphase
  | checks hpc hi hp hin =>
    rw [hpc] at hphase
    exact hphase
  | refused hpc haccept =>
    rw [hpc] at hphase
    exact hphase
  | healthy hpc hp hbits =>
    rw [hpc] at hphase
    exact hphase
  | @removed m hpc hm =>
    rw [hpc] at hphase
    obtain ⟨fds, hfds, hlen, hsafe, hleak⟩ := hphase
    have hrem := hpoll.remove hpc
    rw [List.take_of_length_le (List.getElem?_eq_none_iff.mp hm)] at hfds
    show LeakAt listener s.hist s.reactor.fds []
    rw [hfds]
    apply hleak.swept hrem.increasing ?_ hsafe
    intro x hx
    rw [hlen]
    exact (hrem.bounds x hx).2

/-- Every step that meets the condition keeps the invariant. -/
theorem leakInv_step (hok : Regular listener k s) (hpoll : PollInv listener s)
    (hinv : LeakInv listener s) (h : Outcome k s s') : LeakInv listener s' := by
  have hsized := hpoll.pollSet.toSized
  obtain ⟨hnodup, hheard, hphase⟩ := hinv
  cases h with
  | moved h => exact ⟨hnodup, hheard, leakPhase_moves hok hpoll ⟨hnodup, hheard, hphase⟩ h⟩
  | stopped h hrec =>
    refine ⟨hnodup, ?_, trivial⟩
    cases hrec with
    | nothing => exact hheard.append fun _ => rfl
    | accepted hpc haccept => exact hheard.append even_accepted
    | received hpc hp => exact hheard.recvOn
    | relayed hpc hp hl hrecv hmsg => exact hheard.append even_relayed
    | closed hpc hp hbits => exact hheard.append even_closed
  | @polled revents hpc hrun hpoll' hlen =>
    have hfds := fds_poll s.reactor revents
    unfold LeakPhase at hphase
    rw [hpc] at hphase
    refine ⟨?_, hheard, ?_⟩
    · rw [hfds]
      exact hnodup
    · show LeakAt listener s.hist (Reactor.fds _) []
      rw [hfds]
      exact hphase
  | @added i newfd r hpc haccept hadd =>
    have hnew : isOpen newfd s.hist = false := by
      have hall := hok.acceptNew
      rw [haccept] at hall
      simpa using hall
    have hne : newfd ≠ listener := by
      rintro rfl
      exact hok.sound.accept_ne haccept
    unfold LeakPhase at hphase
    rw [hpc] at hphase
    dsimp only at hphase
    rw [hpoll.nothing_listed hpc] at hphase
    have hnot : newfd ∉ s.reactor.fds := by
      intro hmem
      have hopen := ((hphase.live_iff newfd).mp (live_nil.mpr ⟨hne, hmem⟩)).1
      rw [hnew] at hopen
      cases hopen
    refine ⟨nodup_addFd hsized hnodup hnot hadd, hheard.append even_accepted, ?_⟩
    show LeakAt listener (s.hist ++ _) r.fds s.descriptorsToRemove
    rw [hpoll.nothing_listed hpc, fds_addFd hsized hadd]
    exact hphase.accepted hne hnew
  | @dropped i p hpc hp hrecv hroom =>
    obtain ⟨hscan, h1, hi⟩ := hpoll.recv hpc
    have hget : s.reactor.fds[i]? = some p.fd := by
      rw [getElem?_fds _ hi, hp]
      rfl
    unfold LeakPhase at hphase
    rw [hpc] at hphase
    exact ⟨hnodup, hheard.recvOn, LeakAt.dropped hphase hheard hnodup hget
      (hscan.live hget (hpoll.pollSet.rest i p h1 hi hp))⟩
  | @relayed i p l chunk msg hpc hp hl hrecv hne hmsg =>
    unfold LeakPhase at hphase
    rw [hpc] at hphase
    exact ⟨hnodup, hheard.append even_relayed,
      LeakAt.frame hphase (fun _ => isOpen_relayed) even_relayed⟩
  | @closed i p hpc hp hbits hroom =>
    obtain ⟨-, hget, hne⟩ := hpoll.client_of_hangup hpc hp hbits
    unfold LeakPhase at hphase
    rw [hpc] at hphase
    exact ⟨hnodup, hheard.append even_closed,
      LeakAt.closed hphase hnodup hget ((hpoll.hangup hpc).1.live hget hne)⟩
  | @deleted m i r hpc hm hdel =>
    obtain ⟨hpos, -, last, -, -, hcount, -⟩ := delFromPfds_eq_ok hdel
    unfold LeakPhase at hphase
    rw [hpc] at hphase
    obtain ⟨fds, hold, hlen, hsafe, hleak⟩ := hphase
    have hfds := fds_delFromPfds_take hsized hold hm hdel
    refine ⟨nodup_delFromPfds hsized hnodup hdel, hheard, fds, hfds, ?_, hsafe, hleak⟩
    show fds.length = r.fdCount + (m + 1)
    omega

theorem leakInv_init : LeakInv listener (startReactor listener).init where
  nodup := List.nodup_singleton listener
  heard := fun _ => le_rfl
  phase := by
    show LeakAt listener [] [listener] []
    refine ⟨fun fd => ?_, fun fd hend => absurd hend (lt_irrefl 0)⟩
    rw [live_nil]
    constructor
    · rintro ⟨hne, hmem⟩
      exact absurd (List.mem_singleton.mp hmem) hne
    · rintro ⟨hopen, -⟩
      cases hopen

theorem leakInv_reach (h : (startReactor listener).Reach (Regular listener) s) :
    PollInv listener s ∧ LeakInv listener s := by
  have hreach : ∀ s, (startReactor listener).Reach (Regular listener) s → PollInv listener s :=
    fun s hs => pollInv_reach (fun _ _ ha _ => ha.sound) hs
  exact ⟨hreach s h, h.invariant_of hreach leakInv_init fun k s s' hok hpoll hinv hstep =>
    leakInv_step hok hpoll hinv (step_outcome hstep)⟩

/-- What `startReactor` leaves open. -/
theorem LeakInv.returned (h : LeakInv listener s) (hpc : s.pc = .returned) (fd : ℕ) :
    isOpen fd s.hist = true ↔ Ended fd s.hist := by
  have hphase := h.phase
  unfold LeakPhase at hphase
  rw [hpc] at hphase
  rw [LeakAt.isOpen_iff hphase fd, live_nil]
  refine ⟨fun h => h.resolve_left ?_, .inr⟩
  rintro ⟨hne, hmem⟩
  exact hne (List.mem_singleton.mp hmem)

/-- Whenever the loop begins, a descriptor is open if it is polled or its connection has ended,
    and not both; when `startReactor` returns, the open ones are those ended. -/
theorem open_iff_polled_or_ended (h : (startReactor listener).Reach (Regular listener) s) :
    (s.pc = .poll → ∀ fd, (isOpen fd s.hist = true ↔ fd ∈ s.clients ∨ Ended fd s.hist) ∧
      ¬(fd ∈ s.clients ∧ Ended fd s.hist)) ∧
    (s.pc = .returned → ∀ fd, isOpen fd s.hist = true ↔ Ended fd s.hist) := by
  obtain ⟨hpoll, hinv⟩ := leakInv_reach h
  refine ⟨fun hpc fd => ?_, hinv.returned⟩
  obtain ⟨hfds, hnot⟩ := hpoll.pollSet.fds_eq
  have hphase := hinv.phase
  unfold LeakPhase at hphase
  rw [hpc] at hphase
  have hlive : Live listener s.reactor.fds [] fd ↔ fd ∈ s.clients := by
    rw [live_nil, hfds, List.mem_cons, State.clients]
    constructor
    · rintro ⟨hne, hmem⟩
      exact hmem.resolve_left hne
    · intro hmem
      exact ⟨fun heq => hnot (heq ▸ hmem), .inr hmem⟩
  refine ⟨?_, ?_⟩
  · rw [LeakAt.isOpen_iff hphase fd, hlive]
  · rintro ⟨hmem, hend⟩
    exact ((LeakAt.live_iff hphase fd).mp (hlive.mpr hmem)).2 hend

/-- Clients 5 and 6 join and cannot be registered; 5 ends its connection, and 6 hangs up. -/
def endAndHangUp : List Kernel :=
  [joinUnregistered 5 0, joinUnregistered 6 1,
    [.ready 1 pollIn, .idle, .idle, .receives [], .idle, .idle, .idle, .idle],
    [.ready 1 pollHup, .idle, .idle, .idle, .idle, .idle, .idle, .idle]].flatten

theorem open_iff_polled_or_ended_endAndHangUp :
    ∃ s, (startReactor 3).execIf (Regular 3) endAndHangUp (startReactor 3).init = some s ∧
      s.pc = .returned ∧ isOpen 5 s.hist = true ∧ isOpen 6 s.hist = false ∧
      (s.pc = .returned → ∀ fd, isOpen fd s.hist = true ↔ Ended fd s.hist) := by
  have hrun : ((startReactor 3).execIf (Regular 3) endAndHangUp (startReactor 3).init).map
      (fun s => (s.pc, isOpen 5 s.hist, isOpen 6 s.hist)) = some (.returned, true, false) := by
    decide +kernel
  obtain ⟨s, hs, hat⟩ := Option.map_eq_some_iff.mp hrun
  have hreach : (startReactor 3).Reach (Regular 3) s := .of_execIf .init hs
  simp only [Prod.mk.injEq] at hat
  obtain ⟨hpc, h5, h6⟩ := hat
  exact ⟨s, hs, hpc, h5, h6, (open_iff_polled_or_ended hreach).2⟩

/-! ## How many entries are polled -/

def Act.isAccept : Act → Bool
  | .accepted _ => true
  | _ => false

def Act.isRecv : Act → Bool
  | .recvOn .. => true
  | _ => false

def Act.isClose : Act → Bool
  | .closed .. => true
  | _ => false

/-- What brings an entry, or keeps the one that `recv` was called for. -/
def credit (hist : List Act) : ℕ := hist.countP Act.isAccept + hist.countP Act.isData

/-- What takes an entry, unless `recv` gives a message. -/
def debit (hist : List Act) : ℕ := hist.countP Act.isClose + hist.countP Act.isRecv

/-- The entries that are listed for removal and not removed yet. -/
def State.toRemove (s : State) : ℕ :=
  match s.pc with
  | .scan _ | .accept _ | .recv _ | .hangup _ => s.descriptorsToRemove.length
  | .remove m => s.descriptorsToRemove.length - m
  | _ => 0

/-- One entry is the listener's. -/
def Balanced (s : State) : Prop :=
  s.reactor.fdCount + debit s.hist = 1 + credit s.hist + s.toRemove

theorem credit_append (hist acts : List Act) :
    credit (hist ++ acts) = credit hist + credit acts := by
  rw [credit, credit, credit, List.countP_append, List.countP_append]
  omega

theorem debit_append (hist acts : List Act) : debit (hist ++ acts) = debit hist + debit acts := by
  rw [debit, debit, debit, List.countP_append, List.countP_append]
  omega

/-- A message is credited for the call of `recv` that gave it. -/
theorem ledger_relayed {listener seq src me j : ℕ} {msg msg' : List UInt8} {ps : List PollFd}
    {p : PollFd} {polled : Option PollFd} {clients : List ℕ} :
    credit (.recvOn p polled :: .data seq src msg clients ::
        (broadcast k listener me seq msg' j ps).1) = 1 ∧
      debit (.recvOn p polled :: .data seq src msg clients ::
        (broadcast k listener me seq msg' j ps).1) = 1 := by
  have hsent : ∀ q : Act → Bool, (∀ seq dst msg result, q (.sent seq dst msg result) = false) →
      (broadcast k listener me seq msg' j ps).1.countP q = 0 := fun q hq => countP_broadcast hq
  constructor
  · rw [credit, List.countP_cons, List.countP_cons, List.countP_cons, List.countP_cons,
      hsent _ fun _ _ _ _ => rfl, hsent _ fun _ _ _ _ => rfl]
    rfl
  · rw [debit, List.countP_cons, List.countP_cons, List.countP_cons, List.countP_cons,
      hsent _ fun _ _ _ _ => rfl, hsent _ fun _ _ _ _ => rfl]
    rfl

theorem balanced_moves {pc : Pc} (hbal : Balanced s) (h : Moves k s pc) : Balanced (s.goto pc) := by
  have hsame : (s.goto pc).toRemove = s.toRemove := by
    unfold State.toRemove
    cases h with
    | @removed m hpc hm =>
      rw [hpc]
      exact (Nat.sub_eq_zero_of_le (List.getElem?_eq_none_iff.mp hm)).symm
    | _ hpc =>
      rw [hpc]
      rfl
  unfold Balanced
  rw [hsame]
  exact hbal

/-- Every step keeps the balance, unless it stops the server. -/
theorem balanced_step (hbal : Balanced s) (h : Outcome k s s') :
    Balanced s' ∨ ∃ why, s'.pc = .stopped why := by
  unfold Balanced State.toRemove at hbal
  cases h with
  | moved h => exact .inl (balanced_moves hbal h)
  | stopped h hrec => exact .inr ⟨_, rfl⟩
  | polled hpc hrun hpoll hlen =>
    rw [hpc] at hbal
    exact .inl hbal
  | @added i newfd r hpc haccept hadd =>
    rw [hpc] at hbal
    left
    have hcount : r.fdCount = s.reactor.fdCount + 1 := by
      obtain ⟨g, p, hg, hp, rfl⟩ := addFd_eq_ok hadd
      rw [(addEvent_frame _ _ _ _).2.1, (growPfds_eq_ok hg).1]
    show r.fdCount + debit (s.hist ++ _) = 1 + credit (s.hist ++ _) + s.descriptorsToRemove.length
    rw [credit_append, debit_append, hcount,
      show credit [.accepted newfd, .handled newfd (lookup s.reactor newfd)] = 1 from rfl,
      show debit [.accepted newfd, .handled newfd (lookup s.reactor newfd)] = 0 from rfl]
    dsimp only at hbal
    omega
  | @dropped i p hpc hp hrecv hroom =>
    rw [hpc] at hbal
    left
    show s.reactor.fdCount + debit (s.hist ++ _) =
      1 + credit (s.hist ++ _) + (s.descriptorsToRemove ++ [i]).length
    rw [credit_append, debit_append, List.length_append, List.length_singleton,
      show credit [.recvOn p s.reported[i]?] = 0 from rfl,
      show debit [.recvOn p s.reported[i]?] = 1 from rfl]
    dsimp only at hbal
    omega
  | relayed hpc hp hl hrecv hne hmsg =>
    rw [hpc] at hbal
    left
    show s.reactor.fdCount + debit (s.hist ++ _) =
      1 + credit (s.hist ++ _) + s.descriptorsToRemove.length
    rw [credit_append, debit_append, ledger_relayed.1, ledger_relayed.2]
    dsimp only at hbal
    omega
  | @closed i p hpc hp hbits hroom =>
    rw [hpc] at hbal
    left
    show s.reactor.fdCount + debit (s.hist ++ _) =
      1 + credit (s.hist ++ _) + (s.descriptorsToRemove ++ [i]).length
    rw [credit_append, debit_append, List.length_append, List.length_singleton,
      show credit [.closed p s.reported[i]?, .handled p.fd (lookup s.reactor p.fd)] = 0 from rfl,
      show debit [.closed p s.reported[i]?, .handled p.fd (lookup s.reactor p.fd)] = 1 from rfl]
    dsimp only at hbal
    omega
  | @deleted m i r hpc hm hdel =>
    rw [hpc] at hbal
    left
    obtain ⟨hpos, -, last, -, -, hcount, -⟩ := delFromPfds_eq_ok hdel
    have hlt := (List.getElem?_eq_some_iff.mp hm).1
    show r.fdCount + debit s.hist =
      1 + credit s.hist + (s.descriptorsToRemove.length - (m + 1))
    dsimp only at hbal
    omega

/-- Whatever the environment answers and whichever entries are removed: whenever the loop begins
    or has ended there is one entry for the listener and one for each `accept`, less the closes
    and the calls of `recv` that gave nothing. -/
theorem polled_count (h : (startReactor listener).Reachable s)
    (hpc : s.pc = .poll ∨ s.pc = .returned) :
    s.reactor.fdCount + (s.hist.countP Act.isClose + s.hist.countP Act.isRecv) =
      1 + (s.hist.countP Act.isAccept + s.hist.countP Act.isData) := by
  have h0 : Balanced (startReactor listener).init := rfl
  have hbal : Balanced s ∨ ∃ why, s.pc = .stopped why := by
    refine h.invariant (I := fun s => Balanced s ∨ ∃ why, s.pc = .stopped why) (.inl h0) ?_
    intro k s s' _ hbal hstep
    rcases hbal with hbal | ⟨why, hwhy⟩
    · exact balanced_step hbal (step_outcome hstep)
    · simp only [startReactor, hwhy] at hstep
      cases hstep
  rcases hbal with hbal | ⟨why, hwhy⟩
  · unfold Balanced State.toRemove at hbal
    rcases hpc with hpc | hpc
    · rw [hpc] at hbal
      exact hbal
    · rw [hpc] at hbal
      exact hbal
  · rw [hwhy] at hpc
    rcases hpc with hpc | hpc
    · cases hpc
    · cases hpc

theorem polled_count_endAndHangUp :
    ∃ s, (startReactor 3).exec endAndHangUp (startReactor 3).init = some s ∧
      s.reactor.fdCount + (s.hist.countP Act.isClose + s.hist.countP Act.isRecv) =
        1 + (s.hist.countP Act.isAccept + s.hist.countP Act.isData) := by
  have hrun : ((startReactor 3).exec endAndHangUp (startReactor 3).init).map State.pc =
      some .returned := by
    decide +kernel
  obtain ⟨s, hs, hpc⟩ := Option.map_eq_some_iff.mp hrun
  exact ⟨s, hs, polled_count (.of_exec hs) (.inr hpc)⟩

end ChatOnC.ReactServer
