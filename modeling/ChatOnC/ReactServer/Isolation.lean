import ChatOnC.ReactServer.Broadcast
import ChatOnC.ReactServer.Dispatch
import ChatOnC.ReactServer.Removal

/-!
# One client's failing socket

A `send` that fails with an error other than `EWOULDBLOCK` or `EAGAIN` ends the process
(lines 312–317), where a `recv` or an `accept` that fails concerns one client. The call of the
`NULL` handler of a client that has hung up (line 356) ends it, too. The clients that leave in a
scan are removed behind it, each by the last entry moved into its place.

* `broadcast_complete_iff`: when the broadcast comes to its end.
* `not_stops`: which steps do not end the process.
* `rest_run`: the rest of an iteration is bounded, and does not touch the descriptors before
  the removal.
* `removalKeeps`: the removal goes back to `poll`, and who is left then.
* `isolation`: from a received chunk to the end of the iteration.
-/

namespace ChatOnC.ReactServer

open ChatOnC.Common

variable {k : Kernel} {s s' : State} {listener : ℕ}

/-! ## The broadcast -/

section Broadcast

variable {me seq j : ℕ} {msg : List UInt8} {ps : List PollFd}

/-- The loop comes to its end if and only if no `send` to a recipient fails. -/
theorem broadcast_complete_iff : (broadcast k listener me seq msg j ps).2 = true ↔
    ∀ t q, ps[t]? = some q → IsRecipient listener me q → k.send (j + t) ≠ .failed := by
  induction ps generalizing j with
  | nil => exact ⟨fun _ t q => nofun, fun _ => rfl⟩
  | cons p ps ih =>
    have hsplit : (∀ t q, (p :: ps)[t]? = some q → IsRecipient listener me q →
        k.send (j + t) ≠ .failed) ↔ (IsRecipient listener me p → k.send j ≠ .failed) ∧
        (broadcast k listener me seq msg (j + 1) ps).2 = true := by
      rw [ih]
      constructor
      · intro h
        refine ⟨h 0 p rfl, fun t q hq hrecipient => ?_⟩
        rw [Nat.add_right_comm]
        exact h (t + 1) q hq hrecipient
      · rintro ⟨hhead, htail⟩ t q hq hrecipient
        cases t with
        | zero =>
          cases hq
          exact hhead hrecipient
        | succ t =>
          have hnext := htail t q hq hrecipient
          rwa [Nat.add_right_comm] at hnext
    rw [hsplit, broadcast_cons]
    split_ifs with hp hfail
    · exact iff_of_false not_false fun h => h.1 hp hfail
    · exact (and_iff_right fun _ => hfail).symm
    · exact (and_iff_right fun h => absurd h hp).symm

/-- Then every recipient got its `send`. -/
theorem sent_of_complete (h : (broadcast k listener me seq msg j ps).2 = true) {t : ℕ}
    {q : PollFd} (hq : ps[t]? = some q) (hrecipient : IsRecipient listener me q) :
    .sent seq q.fd msg (k.send (j + t)) ∈ (broadcast k listener me seq msg j ps).1 := by
  induction ps generalizing j t with
  | nil => cases hq
  | cons p ps ih =>
    rw [broadcast_cons] at h ⊢
    cases t with
    | zero =>
      cases hq
      rw [if_pos hrecipient] at h ⊢
      split_ifs at h ⊢
      exact List.mem_cons_self
    | succ t =>
      have hrest : (broadcast k listener me seq msg (j + 1) ps).2 = true → _ := fun h => ih h hq
      rw [Nat.add_right_comm] at hrest
      split_ifs at h ⊢
      · exact List.mem_cons_of_mem _ (hrest h)
      · exact hrest h

end Broadcast

/-! ## The step that relays -/

variable {i : ℕ} {p l : PollFd} {chunk msg : List UInt8}

/-- The step of an assembled message, with all entries allocated. -/
theorem recvStep_assembled (hp : s.reactor.pfds[i]? = some p) (hl : s.reactor.pfds[0]? = some l)
    (hrecv : k.recv = some chunk) (hne : chunk ≠ []) (hmsg : assembleMsg p.fd chunk = some msg)
    (hlen : s.reactor.fdCount ≤ s.reactor.pfds.length) :
    recvStep k i s =
      if (broadcast k l.fd p.fd (s.hist.countP Act.isData) msg 0
          (s.reactor.pfds.take s.reactor.fdCount)).2 then
        (s.log (.recvOn p s.reported[i]? ::
          .data (s.hist.countP Act.isData) p.fd msg s.clients ::
          (broadcast k l.fd p.fd (s.hist.countP Act.isData) msg 0
            (s.reactor.pfds.take s.reactor.fdCount)).1)).goto (.hangup i)
      else
        (s.log (.recvOn p s.reported[i]? ::
          .data (s.hist.countP Act.isData) p.fd msg s.clients ::
          (broadcast k l.fd p.fd (s.hist.countP Act.isData) msg 0
            (s.reactor.pfds.take s.reactor.fdCount)).1)).stop .exit := by
  obtain ⟨b, bs, rfl⟩ := List.exists_cons_of_ne_nil hne
  have hbound : ¬(s.log [.recvOn p s.reported[i]?]).reactor.pfds.length <
      (s.log [.recvOn p s.reported[i]?]).reactor.fdCount := Nat.not_lt.mpr hlen
  unfold recvStep
  simp only [hp, hl, hrecv, hmsg]
  rw [if_neg hbound, countP_log_recvOn, log_log]
  rfl

/-- The entry at index `j` is that of another client than `me`. -/
structure OtherClient (s : State) (me j : ℕ) (q : PollFd) : Prop where
  pos : 1 ≤ j
  lt : j < s.reactor.fdCount
  entry : s.reactor.pfds[j]? = some q
  ne : q.fd ≠ me

/-- What a failing `send` must not cost the others: the process goes on, and every other
    client gets its `send`. -/
structure Relayed (k : Kernel) (s s' : State) (me : ℕ) (msg : List UInt8) : Prop where
  goesOn : ∀ why, s'.pc ≠ .stopped why
  sent : ∀ j q, OtherClient s me j q →
    .sent (s.hist.countP Act.isData) q.fd msg (k.send j) ∈ s'.hist.drop s.hist.length

/-- No `send` to another client fails with an error that the loop does not forgive. -/
def Forgiven (k : Kernel) (s : State) (me : ℕ) : Prop :=
  ∀ j q, OtherClient s me j q → k.send j ≠ .failed

instance (k : Kernel) (s : State) (me : ℕ) : Decidable (Forgiven k s me) :=
  decidable_of_iff
    (∀ j < s.reactor.fdCount, 1 ≤ j → ∀ q ∈ s.reactor.pfds[j]?, q.fd ≠ me → k.send j ≠ .failed)
    ⟨fun h j q hother => h j hother.lt hother.pos q hother.entry hother.ne,
      fun h j hj h1 q hq hme => h j q ⟨h1, hj, hq, hme⟩⟩

/-- The recipients are the other clients. -/
theorem recipient_iff (hset : PollSet listener s.reactor) (hl : s.reactor.pfds[0]? = some l)
    {me j : ℕ} {q : PollFd} :
    (s.reactor.pfds.take s.reactor.fdCount)[j]? = some q ∧ IsRecipient l.fd me q ↔
      OtherClient s me j q := by
  rw [List.getElem?_take]
  constructor
  · rintro ⟨hq, hnot, hme⟩
    split_ifs at hq with hj
    refine ⟨Nat.one_le_iff_ne_zero.mpr ?_, hj, hq, hme⟩
    rintro rfl
    rw [hl] at hq
    cases hq
    exact hnot rfl
  · rintro ⟨hpos, hlt, hq, hme⟩
    rw [if_pos hlt]
    exact ⟨hq, hset.fd_ne hq hlt hl hpos, hme⟩

/-- The broadcast comes to its end if and only if the others' sends are forgiven. -/
theorem complete_iff_forgiven (hset : PollSet listener s.reactor)
    (hl : s.reactor.pfds[0]? = some l) {me seq : ℕ} :
    (broadcast k l.fd me seq msg 0 (s.reactor.pfds.take s.reactor.fdCount)).2 = true ↔
      Forgiven k s me := by
  rw [broadcast_complete_iff]
  constructor
  · intro h j q hother
    obtain ⟨hq, hrecipient⟩ := (recipient_iff hset hl).mpr hother
    rw [← Nat.zero_add j]
    exact h j q hq hrecipient
  · intro h t q hq hrecipient
    rw [Nat.zero_add]
    exact h t q ((recipient_iff hset hl).mp ⟨hq, hrecipient⟩)

/-- **The broadcast.** The process goes on and every other client gets its `send` if and
    only if none of these fails with an error that the loop does not forgive. -/
theorem relayed_iff (hset : PollSet listener s.reactor) (hp : s.reactor.pfds[i]? = some p)
    (hrecv : k.recv = some chunk) (hne : chunk ≠ []) (hmsg : assembleMsg p.fd chunk = some msg) :
    Relayed k s (recvStep k i s) p.fd msg ↔ Forgiven k s p.fd := by
  obtain ⟨l, hl, -⟩ := hset.first
  have hlen : s.reactor.fdCount ≤ s.reactor.pfds.length := hset.length ▸ hset.countLe
  rw [recvStep_assembled hp hl hrecv hne hmsg hlen, ← complete_iff_forgiven hset hl]
  constructor
  · intro h
    by_contra hfail
    rw [if_neg hfail] at h
    exact h.goesOn .exit rfl
  · intro hends
    rw [if_pos hends]
    refine ⟨fun why => nofun, fun j q hother => ?_⟩
    obtain ⟨hq, hrecipient⟩ := (recipient_iff hset hl).mpr hother
    have hsent := sent_of_complete hends hq hrecipient
    rw [Nat.zero_add] at hsent
    show _ ∈ (s.hist ++ _).drop s.hist.length
    rw [List.drop_left]
    exact List.mem_cons_of_mem _ (List.mem_cons_of_mem _ hsent)

/-! ## The rest of the iteration -/

/-- A step behind the `poll` of an iteration, with a sound listener. -/
structure RestStep (listener : ℕ) (k : Kernel) (s : State) : Prop where
  sound : ListenerSound listener k
  inside : s.pc ≠ .poll

instance (listener : ℕ) (k : Kernel) (s : State) : Decidable (RestStep listener k s) :=
  decidable_of_iff (ListenerSound listener k ∧ s.pc ≠ .poll)
    ⟨fun ⟨h1, h2⟩ => ⟨h1, h2⟩, fun ⟨h1, h2⟩ => ⟨h1, h2⟩⟩

/-- Where the rest of an iteration stands that had the descriptors `fds` polled when the
    scan was behind the listener. -/
def RestInv (fds : List ℕ) (s : State) : Prop :=
  match s.pc with
  | .scan i | .hangup i => s.reactor.fds = fds ∧ 1 ≤ i
  | .recv _ => s.reactor.fds = fds
  | .accept _ => False
  | .remove m => m = 0 → s.reactor.fds = fds
  | .poll | .returned | .stopped _ => True

theorem restInv_moves {fds : List ℕ} {pc : Pc} (hpoll : PollInv listener s)
    (hinv : RestInv fds s) (h : Moves k s pc) : RestInv fds (s.goto pc) := by
  unfold RestInv at hinv
  cases h with
  | returns hpc hrun => trivial
  | scanned hpc hi =>
    rw [hpc] at hinv
    exact fun _ => hinv.1
  | idle hpc hi hp hrev =>
    rw [hpc] at hinv
    exact ⟨hinv.1, Nat.le_succ_of_le hinv.2⟩
  | accepts hpc hi hp hl hin hfd =>
    -- the listener is behind the scan
    rw [hpc] at hinv
    exact absurd hfd (hpoll.pollSet.fd_ne hp hi hl hinv.2)
  | receives hpc hi hp hl hin hfd =>
    rw [hpc] at hinv
    exact hinv.1
  | checks hpc hi hp hin =>
    rw [hpc] at hinv
    exact hinv
  | refused hpc haccept =>
    rw [hpc] at hinv
    exact hinv.elim
  | healthy hpc hp hbits =>
    rw [hpc] at hinv
    exact ⟨hinv.1, Nat.le_succ_of_le hinv.2⟩
  | removed hpc hm => trivial

/-- Every step of the rest of an iteration keeps the invariant. -/
theorem restInv_step {fds : List ℕ} (hok : RestStep listener k s) (hpoll : PollInv listener s)
    (hinv : RestInv fds s) (h : Outcome k s s') : RestInv fds s' := by
  have hphase := hinv
  unfold RestInv at hphase
  cases h with
  | moved h => exact restInv_moves hpoll hinv h
  | stopped h hrec => trivial
  | polled hpc => exact absurd hpc hok.inside
  | added hpc haccept hadd =>
    rw [hpc] at hphase
    exact hphase.elim
  | dropped hpc hp hrecv hroom =>
    rw [hpc] at hphase
    exact ⟨hphase, Nat.succ_pos _⟩
  | relayed hpc hp hl hrecv hne hmsg =>
    rw [hpc] at hphase
    exact ⟨hphase, (hpoll.recv hpc).2.1⟩
  | closed hpc hp hbits hroom =>
    rw [hpc] at hphase
    exact ⟨hphase.1, Nat.le_succ_of_le hphase.2⟩
  | deleted hpc hm hdel => exact fun hm0 => absurd hm0 (Nat.succ_ne_zero _)

/-! ## Steps that do not end the process -/

/-- `handleEvent` comes back for this descriptor: it finds no `NULL` handler, and does not
    leave `events`. -/
def Handled (r : Reactor) (fd : ℕ) : Prop := lookup r fd ≠ .found none ∧ lookup r fd ≠ .outOfBounds

instance (r : Reactor) (fd : ℕ) : Decidable (Handled r fd) :=
  inferInstanceAs (Decidable (_ ∧ _))

/-- The entry and the chunk that the step relays (lines 283–305). -/
def relaying (k : Kernel) (s : State) : Option (PollFd × List UInt8) :=
  match s.pc with
  | .recv i =>
    s.reactor.pfds[i]?.bind fun p =>
      k.recv.bind fun chunk => if chunk = [] then none else some (p, chunk)
  | _ => none

/-- A step whose chunk fits and whose sends are forgiven, and whose client, if it has hung up,
    has no `NULL` handler registered. -/
structure HarmlessStep (listener : ℕ) (k : Kernel) (s : State) : Prop where
  sound : ListenerSound listener k
  fits : ∀ m ∈ relaying k s, (assembleMsg m.1.fd m.2).isSome = true
  forgiven : ∀ m ∈ relaying k s, Forgiven k s m.1.fd
  handled : ∀ fd ∈ lookedUp k s, Handled s.reactor fd

instance (listener : ℕ) (k : Kernel) (s : State) : Decidable (HarmlessStep listener k s) :=
  decidable_of_iff
    (ListenerSound listener k ∧
      (∀ m ∈ relaying k s, (assembleMsg m.1.fd m.2).isSome = true) ∧
      (∀ m ∈ relaying k s, Forgiven k s m.1.fd) ∧ ∀ fd ∈ lookedUp k s, Handled s.reactor fd)
    ⟨fun ⟨h1, h2, h3, h4⟩ => ⟨h1, h2, h3, h4⟩, fun ⟨h1, h2, h3, h4⟩ => ⟨h1, h2, h3, h4⟩⟩

theorem relaying_eq (hpc : s.pc = .recv i) (hp : s.reactor.pfds[i]? = some p)
    (hrecv : k.recv = some chunk) (hne : chunk ≠ []) : relaying k s = some (p, chunk) := by
  simp [relaying, hpc, hp, hrecv, hne]

theorem lookedUp_eq (hpc : s.pc = .hangup i) (hp : s.reactor.pfds[i]? = some p)
    (hbits : p.revents &&& hangupBits ≠ 0) : lookedUp k s = some p.fd := by
  simpa [lookedUp, hpc, hp] using hbits

theorem Handled.not_stops {r : Reactor} {fd : ℕ} {why : Stop} (h : Handled r fd) :
    ¬EventStops r fd why := by
  intro hevent
  cases hevent with
  | nullHandler hfound => exact h.1 hfound
  | eventsIndex hfound => exact h.2 hfound

/-- Behind `poll` and the listener, and not beyond the start of the removal. -/
def Pc.ahead : Pc → Prop
  | .scan _ | .recv _ | .hangup _ => True
  | .remove m => m = 0
  | .poll | .accept _ | .returned | .stopped _ => False

theorem step_of_ahead (h : s.pc.ahead) : ∃ s', (startReactor listener).step k s = some s' := by
  cases hpc : s.pc with
  | returned =>
    rw [hpc] at h
    exact h.elim
  | stopped why =>
    rw [hpc] at h
    exact h.elim
  | _ => simp [startReactor, hpc]

theorem inside_of_ahead (h : s.pc.ahead) : s.pc ≠ .poll := by
  intro hpc
  rw [hpc] at h
  exact h

/-- A harmless step does not stop. -/
theorem not_stops {why : Stop} (hok : HarmlessStep listener k s) (hpoll : PollInv listener s)
    (hahead : s.pc.ahead) : ¬Stops k s why := by
  intro h
  obtain ⟨hpfds, hremove⟩ := index_of_stops hpoll h
  cases h with
  | pollFails hpc => exact inside_of_ahead hahead hpc
  | acceptEvent hpc | addFd hpc =>
    rw [hpc] at hahead
    exact hahead
  | message hpc hp hrecv hne hmsg =>
    have hfits := hok.fits _ (relaying_eq hpc hp hrecv hne)
    rw [hmsg] at hfits
    cases hfits
  | sendFails hpc hp hl hrecv hne hmsg hsends =>
    have hforgiven := hok.forgiven _ (relaying_eq hpc hp hrecv hne)
    exact hsends ((complete_iff_forgiven hpoll.pollSet hl).mpr hforgiven)
  | hangupEvent hpc hp hbits hevent =>
    exact (hok.handled _ (lookedUp_eq hpc hp hbits)).not_stops hevent
  | pushRemove hpc hroom => exact hremove rfl
  | delFromPfds hpc hm hdel => exact hpfds (delFromPfds_eq_error hdel)
  | _ => exact hpfds rfl

/-- Up to the removal it comes to another place of the iteration. -/
theorem ahead_step {fds : List ℕ} (hok : HarmlessStep listener k s) (hpoll : PollInv listener s)
    (hinv : RestInv fds s) (hahead : s.pc.ahead) (hnot : s.pc ≠ .remove 0)
    (h : Outcome k s s') : s'.pc.ahead := by
  have hbefore : ∀ m, s.pc ≠ .remove m := by
    intro m hpc
    have hm : m = 0 := by
      rw [hpc] at hahead
      exact hahead
    exact hnot (hm ▸ hpc)
  cases h with
  | moved h =>
    have hnext := restInv_moves hpoll hinv h
    cases h with
    | returns hpc => exact absurd hpc (inside_of_ahead hahead)
    | scanned => exact rfl
    | accepts => exact hnext.elim
    | removed hpc => exact absurd hpc (hbefore _)
    | _ => trivial
  | stopped h hrec => exact absurd h (not_stops hok hpoll hahead)
  | polled hpc => exact absurd hpc (inside_of_ahead hahead)
  | added hpc =>
    rw [hpc] at hahead
    exact hahead.elim
  | deleted hpc => exact absurd hpc (hbefore _)
  | _ => trivial

/-! ## The length of the rest -/

/-- A bound on the steps that are left of an iteration. -/
def restLeft (s : State) : ℕ :=
  match s.pc with
  | .scan i => 3 * (s.reactor.fdCount - i) + s.reactor.fdCount + 2
  | .recv i => 3 * (s.reactor.fdCount - i) + s.reactor.fdCount + 1
  | .hangup i => 3 * (s.reactor.fdCount - i) + s.reactor.fdCount
  | .remove m => s.descriptorsToRemove.length + 1 - m
  | _ => 0

theorem restLeft_moves {fds : List ℕ} {pc : Pc} (hok : RestStep listener k s)
    (hpoll : PollInv listener s) (hinv : RestInv fds s) (h : Moves k s pc) :
    restLeft (s.goto pc) < restLeft s := by
  unfold RestInv at hinv
  cases h with
  | returns hpc hrun => exact absurd hpc hok.inside
  | scanned hpc hi =>
    have hscan := (hpoll.scan hpc).1
    have hshort := hscan.short
    have hindex := hscan.index
    simp only [restLeft, State.goto, hpc]
    omega
  | idle hpc hi hp hrev =>
    simp only [restLeft, State.goto, hpc]
    omega
  | accepts hpc hi hp hl hin hfd =>
    simp only [restLeft, State.goto, hpc]
    omega
  | receives hpc hi hp hl hin hfd =>
    simp only [restLeft, State.goto, hpc]
    omega
  | checks hpc hi hp hin =>
    simp only [restLeft, State.goto, hpc]
    omega
  | refused hpc haccept =>
    rw [hpc] at hinv
    exact hinv.elim
  | healthy hpc hp hbits =>
    have hi := (hpoll.hangup hpc).2
    simp only [restLeft, State.goto, hpc]
    omega
  | removed hpc hm =>
    have hle := (hpoll.remove hpc).le
    simp only [restLeft, State.goto, hpc]
    omega

/-- Some are left where a step is taken. -/
theorem restLeft_pos {fds : List ℕ} (hok : RestStep listener k s) (hpoll : PollInv listener s)
    (hinv : RestInv fds s) (hstep : (startReactor listener).step k s = some s') :
    0 < restLeft s := by
  unfold RestInv at hinv
  cases hpc : s.pc with
  | poll => exact absurd hpc hok.inside
  | accept i =>
    rw [hpc] at hinv
    exact hinv.elim
  | returned => simp [startReactor, hpc] at hstep
  | stopped why => simp [startReactor, hpc] at hstep
  | scan i =>
    simp only [restLeft, hpc]
    omega
  | recv i =>
    simp only [restLeft, hpc]
    omega
  | hangup i =>
    have hi := (hpoll.hangup hpc).2
    simp only [restLeft, hpc]
    omega
  | remove m =>
    have hle := (hpoll.remove hpc).le
    simp only [restLeft, hpc]
    omega

/-- Every step of the rest of an iteration leaves fewer. -/
theorem restLeft_lt {fds : List ℕ} (hok : RestStep listener k s) (hpoll : PollInv listener s)
    (hinv : RestInv fds s) (hstep : (startReactor listener).step k s = some s') :
    restLeft s' < restLeft s := by
  have hphase := hinv
  unfold RestInv at hphase
  cases step_outcome hstep with
  | moved h => exact restLeft_moves hok hpoll hinv h
  | stopped h hrec => exact restLeft_pos hok hpoll hinv hstep
  | polled hpc => exact absurd hpc hok.inside
  | added hpc haccept hadd =>
    rw [hpc] at hphase
    exact hphase.elim
  | dropped hpc hp hrecv hroom =>
    have hi := (hpoll.recv hpc).2.2
    simp only [restLeft, State.log, hpc]
    omega
  | relayed hpc hp hl hrecv hne hmsg =>
    simp only [restLeft, State.goto, State.log, hpc]
    omega
  | closed hpc hp hbits hroom =>
    have hi := (hpoll.hangup hpc).2
    simp only [restLeft, State.log, hpc]
    omega
  | deleted hpc hm hdel =>
    have hlt := (List.getElem?_eq_some_iff.mp hm).1
    simp only [restLeft, hpc]
    omega

/-- The rest of an iteration keeps both invariants, and takes no more steps than are
    left. -/
theorem rest_run {fds : List ℕ} {ks : List Kernel} {t : State} (hpoll : PollInv listener s)
    (hinv : RestInv fds s) (hmeets : (startReactor listener).Meets (RestStep listener) ks s)
    (hexec : (startReactor listener).exec ks s = some t) :
    PollInv listener t ∧ RestInv fds t ∧ ks.length ≤ restLeft s := by
  have hkeep : ∀ k s s', RestStep listener k s → PollInv listener s ∧ RestInv fds s →
      (startReactor listener).step k s = some s' → PollInv listener s' ∧ RestInv fds s' := by
    rintro k s s' hok ⟨hpoll, hinv⟩ hstep
    have hout := step_outcome hstep
    exact ⟨pollInv_step hok.sound hpoll hout, restInv_step hok hpoll hinv hout⟩
  obtain ⟨hpoll', hinv'⟩ := hmeets.invariant hkeep ⟨hpoll, hinv⟩ hexec
  refine ⟨hpoll', hinv', ?_⟩
  exact hmeets.length_le restLeft hkeep
    (fun k s s' hok hboth hstep => restLeft_lt hok hboth.1 hboth.2 hstep) ⟨hpoll, hinv⟩ hexec

/-- Harmless steps lead to the removal. -/
theorem leads_to_removal {fds : List ℕ} (hpoll : PollInv listener s) (hinv : RestInv fds s)
    (hahead : s.pc.ahead) :
    (startReactor listener).Leads (HarmlessStep listener)
      (fun t => PollInv listener t ∧ t.reactor.fds = fds ∧ t.pc = .remove 0) s := by
  refine System.Leads.of_measure
    (I := fun t => PollInv listener t ∧ RestInv fds t ∧ t.pc.ahead) restLeft ?_
    ⟨hpoll, hinv, hahead⟩
  rintro k t hok ⟨hpoll, hinv, hahead⟩ hfinal
  have hrest : RestStep listener k t := ⟨hok.sound, inside_of_ahead hahead⟩
  have hnot : t.pc ≠ .remove 0 := by
    intro hpc
    have hfds := hinv
    unfold RestInv at hfds
    rw [hpc] at hfds
    exact hfinal ⟨hpoll, hfds rfl, hpc⟩
  obtain ⟨t', hstep⟩ : ∃ t', (startReactor listener).step k t = some t' := step_of_ahead hahead
  have hout := step_outcome hstep
  exact ⟨t', hstep, ⟨pollInv_step hok.sound hpoll hout, restInv_step hrest hpoll hinv hout,
    ahead_step hok hpoll hinv hahead hnot hout⟩, restLeft_lt hrest hpoll hinv hstep⟩

/-! ## The removal -/

/-- Whatever the answers, the removal goes back to `poll`, and the listener stays at
    index 0. -/
theorem removal_back (hpoll : PollInv listener s) (hpc : s.pc = .remove 0) {ks : List Kernel}
    (hks : ks.length = s.descriptorsToRemove.length + 1) :
    ∃ s', (startReactor listener).exec ks s = some s' ∧ s'.pc = .poll ∧
      s'.reactor.fds = s.descriptorsToRemove.foldl swapRemove s.reactor.fds ∧
      s'.reactor.fds = listener :: s'.clients := by
  obtain ⟨-, hinc, hbounds, hshort, halloc, -⟩ := hpoll.remove hpc
  have hset := hpoll.pollSet
  obtain ⟨s', hexec, hback, -, hfds⟩ := removal_run hpc hset.toSized (Nat.zero_add _).symm rfl
    (by omega) (fun x hx => by have hx' := hbounds x hx; omega) hks
  refine ⟨s', hexec, hback, hfds, ?_⟩
  have hfirst : s'.reactor.fds[0]? = some listener := by
    have hlen := hset.toSized.length_fds
    rw [hfds, (getElem?_foldl_swapRemove hinc _ (by omega)).1 ?_, hset.fds_eq.1]
    · rfl
    · intro hmem
      have hpos := (hbounds 0 hmem).1
      omega
  show s'.reactor.fds = listener :: s'.reactor.fds.drop 1
  cases hlist : s'.reactor.fds with
  | nil => simp [hlist] at hfirst
  | cons fd fds =>
    rw [hlist] at hfirst
    cases hfirst
    rfl

/-- What the removal that begins in `t` and ends in `u` leaves of the other clients: of those
    that are not listed, the ones that survive its moves, and, with distinct descriptors, no
    others. -/
structure Kept (s t u : State) (me : ℕ) : Prop where
  back : u.pc = .poll
  survives : ∀ j q, OtherClient s me j q → j ∉ t.descriptorsToRemove →
    Survives s.reactor.fdCount t.descriptorsToRemove j → q.fd ∈ u.clients
  only : s.reactor.fds.Nodup → ∀ j q, OtherClient s me j q → j ∉ t.descriptorsToRemove →
    q.fd ∈ u.clients → Survives s.reactor.fdCount t.descriptorsToRemove j

/-- The removal begins in `t`. Whatever the answers, it goes back to `poll`. -/
structure RemovalKeeps (listener : ℕ) (s t : State) (me : ℕ) : Prop where
  begins : t.pc = .remove 0
  ends : ∀ ks : List Kernel, ks.length = t.descriptorsToRemove.length + 1 →
    ∃ u, (startReactor listener).exec ks t = some u ∧ Kept s t u me

/-- **The removal** of an iteration that has polled the descriptors of `s`. -/
theorem removalKeeps {t : State} {me : ℕ} (hset : PollSet listener s.reactor)
    (hpoll : PollInv listener t) (hfds : t.reactor.fds = s.reactor.fds)
    (hpc : t.pc = .remove 0) : RemovalKeeps listener s t me := by
  refine ⟨hpc, fun ks hks => ?_⟩
  obtain ⟨u, hexec, hback, hleft, hlistener⟩ := removal_back hpoll hpc hks
  have hinc := (hpoll.remove hpc).increasing
  have hget : ∀ j q, OtherClient s me j q → s.reactor.fds[j]? = some q.fd := by
    intro j q hother
    rw [getElem?_fds _ hother.lt, hother.entry]
    rfl
  have hclients : ∀ j q, OtherClient s me j q → (q.fd ∈ u.clients ↔ q.fd ∈ u.reactor.fds) := by
    intro j q hother
    rw [hlistener, List.mem_cons]
    exact (or_iff_right (hset.rest j q hother.pos hother.lt hother.entry)).symm
  rw [hfds] at hleft
  refine ⟨u, hexec, hback, fun j q hother hnot hsurvives => ?_,
    fun hnodup j q hother hnot hmem => ?_⟩
  · rw [hclients j q hother, hleft]
    rw [← hset.toSized.length_fds] at hsurvives
    exact mem_of_survives hinc (hget j q hother) hnot hsurvives
  · rw [hclients j q hother, hleft] at hmem
    rw [← hset.toSized.length_fds]
    exact survives_of_mem hnodup hinc (hget j q hother) hmem

/-- **Isolation.** In any state reached with a sound listener, when a chunk of a client has
    been assembled: the process goes on and every other client gets its `send` if and only
    if none of these fails with an error that the loop does not forgive. If none does, the rest
    of the iteration leads to the removal and back to `poll`, as long as its steps are
    harmless; another client that is not listed when the removal begins is then polled if it
    survives its moves, and, with distinct descriptors, only if it does. In any case the rest
    is bounded. -/
theorem isolation (hreach : (startReactor listener).Reach (fun k _ => ListenerSound listener k) s)
    (hpc : s.pc = .recv i) (hp : s.reactor.pfds[i]? = some p) (hrecv : k.recv = some chunk)
    (hne : chunk ≠ []) (hmsg : assembleMsg p.fd chunk = some msg) (hok : ListenerSound listener k)
    (hstep : (startReactor listener).step k s = some s') :
    (Relayed k s s' p.fd msg ↔ Forgiven k s p.fd) ∧
      (Forgiven k s p.fd → (startReactor listener).Leads (HarmlessStep listener)
        (fun t => RemovalKeeps listener s t p.fd) s') ∧
      ∀ ks t, (startReactor listener).Meets (RestStep listener) ks s' →
        (startReactor listener).exec ks s' = some t →
        ks.length ≤ 4 * s.reactor.fdCount ∧
        (t.pc = .remove 0 → RemovalKeeps listener s t p.fd) := by
  have hinv := pollInv_reach (fun k s ha _ => ha) hreach
  have hset := hinv.pollSet
  have hrest : RestStep listener k s := ⟨hok, by simp [hpc]⟩
  have hhere : RestInv s.reactor.fds s := by
    unfold RestInv
    rw [hpc]
  have hout := step_outcome hstep
  have hinv' := pollInv_step hok hinv hout
  have hhere' := restInv_step hrest hinv hhere hout
  refine ⟨?_, fun hforgiven => ?_, fun ks t hmeets hexec => ⟨?_, fun hremove => ?_⟩⟩
  · simp only [startReactor, hpc, Option.some.injEq] at hstep
    rw [← hstep]
    exact relayed_iff hset hp hrecv hne hmsg
  · have hharmless : HarmlessStep listener k s := by
      refine ⟨hok, ?_, ?_, ?_⟩
      · rw [relaying_eq hpc hp hrecv hne]
        rintro m ⟨⟩
        exact Option.isSome_of_eq_some hmsg
      · rw [relaying_eq hpc hp hrecv hne]
        rintro m ⟨⟩
        exact hforgiven
      · simp [lookedUp, hpc]
    have hahead : s'.pc.ahead :=
      ahead_step hharmless hinv hhere (by rw [hpc]; trivial) (by simp [hpc]) hout
    refine (leads_to_removal hinv' hhere' hahead).mono ?_
    rintro t ⟨hpoll, hfds, hremove⟩
    exact removalKeeps hset hpoll hfds hremove
  · have hleft : restLeft s = 3 * (s.reactor.fdCount - i) + s.reactor.fdCount + 1 := by
      simp only [restLeft, hpc]
    have hbound := (rest_run hinv' hhere' hmeets hexec).2.2
    have hlt := restLeft_lt hrest hinv hhere hstep
    have hpos := (hinv.recv hpc).2
    omega
  · obtain ⟨hpoll, hend, -⟩ := rest_run hinv' hhere' hmeets hexec
    unfold RestInv at hend
    rw [hremove] at hend
    exact removalKeeps hset hpoll (hend rfl) hremove

/-- `recv` returns this chunk, and `send` to entry 2 gives `result`. -/
def Kernel.relays (chunk : List UInt8) (result : SendResult) : Kernel where
  recv := some chunk
  send j := if j = 2 then result else .sent

/-- Clients 5, 6 and 7 join, 7 hangs up, and a chunk of 5 is to be read. -/
def talkAndHangUp (join : ℕ → ℕ → List Kernel) : List Kernel :=
  [join 5 0, join 6 1, join 7 2,
    [{ poll := some fun j => if j = 1 then pollIn else if j = 3 then pollHup else 0 },
      .idle, .idle]].flatten

theorem isolation_talkAndHangUp : ∃ s s' t msg,
    (startReactor 3).execIf (fun k _ => ListenerSound 3 k) (talkAndHangUp joinUnregistered)
        (startReactor 3).init = some s ∧
      (startReactor 3).step (.relays (ascii "hi") .wouldBlock) s = some s' ∧
      (startReactor 3).execIf (fun k s => RestStep 3 k s ∧ HarmlessStep 3 k s)
        (List.replicate 5 .idle) s' = some t ∧
      s.clients = [5, 6, 7] ∧ t.descriptorsToRemove = [3] ∧
      (Relayed (.relays (ascii "hi") .wouldBlock) s s' 5 msg ↔
        Forgiven (.relays (ascii "hi") .wouldBlock) s 5) ∧
      (startReactor 3).Leads (HarmlessStep 3) (fun t => RemovalKeeps 3 s t 5) s' ∧
      5 ≤ 4 * s.reactor.fdCount ∧ RemovalKeeps 3 s t 5 := by
  have hrun : (((startReactor 3).execIf (fun k _ => ListenerSound 3 k)
      (talkAndHangUp joinUnregistered) (startReactor 3).init).bind fun s =>
      ((startReactor 3).step (.relays (ascii "hi") .wouldBlock) s).bind fun s' =>
        ((startReactor 3).execIf (fun k s => RestStep 3 k s ∧ HarmlessStep 3 k s)
          (List.replicate 5 .idle) s').map fun t =>
          ([s.pc, t.pc], s.reactor.pfds[1]?, [s.clients, t.descriptorsToRemove],
            decide (Forgiven (.relays (ascii "hi") .wouldBlock) s 5))) =
      some ([.recv 1, .remove 0], some ⟨5, pollIn, pollIn⟩, [[5, 6, 7], [3]], true) := by
    decide +kernel
  obtain ⟨s, hs, hrun⟩ := Option.bind_eq_some_iff.mp hrun
  obtain ⟨s', hs', hrun⟩ := Option.bind_eq_some_iff.mp hrun
  obtain ⟨t, ht, hat⟩ := Option.map_eq_some_iff.mp hrun
  simp only [Prod.mk.injEq, List.cons.injEq, and_true] at hat
  obtain ⟨⟨hpc, hremove⟩, hp, ⟨hclients, hlisted⟩, hforgiven⟩ := hat
  obtain ⟨msg, hmsg⟩ : ∃ msg, assembleMsg 5 (ascii "hi") = some msg :=
    Option.isSome_iff_exists.mp (by decide +kernel)
  have hall := isolation (.of_execIf .init hs) hpc hp
    (show (Kernel.relays (ascii "hi") .wouldBlock).recv = some (ascii "hi") from rfl) (by decide)
    hmsg ⟨nofun, nofun⟩ hs'
  obtain ⟨hmeets, hexec⟩ := System.meets_of_execIf ht
  have hrest := hall.2.2 _ t (hmeets.mono fun _ _ hok => hok.1) hexec
  exact ⟨s, s', t, msg, hs, hs', ht, hclients, hlisted, hall.1,
    hall.2.1 (of_decide_eq_true hforgiven), hrest.1, hrest.2 hremove⟩

/-- `poll` reports `POLLIN` for these entries and nothing for the others. -/
def Kernel.readyAll (is : List ℕ) : Kernel where
  poll := some fun j => if j ∈ is then pollIn else 0

/-- Clients 5, 6 and 7 join, and a chunk of 5 is to be read, and then one of 6. -/
def twoTalk : List Kernel :=
  [join 5 0, join 6 1, join 7 2, [.readyAll [1, 2], .idle, .idle]].flatten

/-- Clients 5, 6, 7 and 8 join, 5 ends its connection, and a chunk of 6 is to be read. -/
def fourJoin : List Kernel :=
  [join 5 0, join 6 1, join 7 2, join 8 3,
    [.readyAll [1, 2, 4], .idle, .idle, .receives [], .idle]].flatten

/-- 8 ends its connection, and the iteration ends. -/
def endOfEight : List Kernel :=
  [.idle, .idle, .idle, .receives [], .idle, .idle, .idle, .idle]

/-- When the `send` to 6 fails, the server exits and 7 gets none. When 7 has hung up, its
    `NULL` handler is called, and 6 is gone, whose `send` succeeded. When 5 and 8 end their
    connections around a message of 6, the removal takes 7, whose `send` succeeded. -/
theorem isolation_broken :
    (∃ s s', (startReactor 3).exec twoTalk (startReactor 3).init = some s ∧
      (startReactor 3).step (.relays (ascii "hi") .failed) s = some s' ∧
      s.clients = [5, 6, 7] ∧ s'.pc = .stopped .exit ∧ sentTo 7 s'.hist = []) ∧
    (∃ s t, (startReactor 3).exec (talkAndHangUp join) (startReactor 3).init = some s ∧
      (startReactor 3).exec (.receives (ascii "hi") :: List.replicate 4 .idle) s = some t ∧
      s.clients = [5, 6, 7] ∧ (sentTo 6 t.hist).length = 1 ∧ t.pc = .stopped .nullHandler) ∧
    ∃ s s' t, (startReactor 3).exec fourJoin (startReactor 3).init = some s ∧
      (startReactor 3).step (.receives (ascii "hi")) s = some s' ∧
      (startReactor 3).exec endOfEight s' = some t ∧ s.clients = [5, 6, 7, 8] ∧
      (sentTo 7 s'.hist).length = 1 ∧ t.pc = .poll ∧ t.descriptorsToRemove = [1, 4] ∧
      t.clients = [8, 6] := by
  refine ⟨?_, ?_, ?_⟩
  · have hrun : (((startReactor 3).exec twoTalk (startReactor 3).init).bind fun s =>
        ((startReactor 3).step (.relays (ascii "hi") .failed) s).map fun s' =>
          (s.clients, s'.pc, sentTo 7 s'.hist)) = some ([5, 6, 7], .stopped .exit, []) := by
      decide +kernel
    obtain ⟨s, hs, hrun⟩ := Option.bind_eq_some_iff.mp hrun
    obtain ⟨s', hs', hat⟩ := Option.map_eq_some_iff.mp hrun
    simp only [Prod.mk.injEq] at hat
    exact ⟨s, s', hs, hs', hat⟩
  · have hrun : (((startReactor 3).exec (talkAndHangUp join) (startReactor 3).init).bind fun s =>
        ((startReactor 3).exec (.receives (ascii "hi") :: List.replicate 4 .idle) s).map fun t =>
          (s.clients, (sentTo 6 t.hist).length, t.pc)) =
        some ([5, 6, 7], 1, .stopped .nullHandler) := by
      decide +kernel
    obtain ⟨s, hs, hrun⟩ := Option.bind_eq_some_iff.mp hrun
    obtain ⟨t, ht, hat⟩ := Option.map_eq_some_iff.mp hrun
    simp only [Prod.mk.injEq] at hat
    exact ⟨s, t, hs, ht, hat⟩
  · have hrun : (((startReactor 3).exec fourJoin (startReactor 3).init).bind fun s =>
        ((startReactor 3).step (.receives (ascii "hi")) s).bind fun s' =>
          ((startReactor 3).exec endOfEight s').map fun t =>
            (s.clients, (sentTo 7 s'.hist).length, t.pc, t.descriptorsToRemove, t.clients)) =
        some ([5, 6, 7, 8], 1, .poll, [1, 4], [8, 6]) := by
      decide +kernel
    obtain ⟨s, hs, hrun⟩ := Option.bind_eq_some_iff.mp hrun
    obtain ⟨s', hs', hrun⟩ := Option.bind_eq_some_iff.mp hrun
    obtain ⟨t, ht, hat⟩ := Option.map_eq_some_iff.mp hrun
    simp only [Prod.mk.injEq] at hat
    exact ⟨s, s', t, hs, hs', ht, hat⟩

end ChatOnC.ReactServer
