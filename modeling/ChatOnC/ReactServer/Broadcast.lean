import ChatOnC.Common.Subsequence
import ChatOnC.ReactServer.Lifecycle

/-!
# The broadcast

Every message that the server builds from received data goes once to every other
client of that moment. This needs the descriptors in the poll set to be distinct,
which every accept and every removal must keep.

* `broadcast_sent`: what one broadcast sends.
* `faultless_broadcast`: over a whole run without faults, each client is sent the
  messages of the others, in the order in which the server received them, and
  any two clients see what they have in common in the same order.
-/

namespace ChatOnC.ReactServer

open ChatOnC.Common

variable {k : Kernel} {s s' : State} {listener : ℕ}

/-! ## Messages received and sent -/

/-- A message as the server assembled it: its number in the order of receipt, the
    descriptor it came from, and the clients at that moment. -/
structure Relay where
  seq : ℕ
  src : ℕ
  msg : List UInt8
  clients : List ℕ

def Relay.numbered (r : Relay) : ℕ × List UInt8 := (r.seq, r.msg)

def Act.relay? : Act → Option Relay
  | .data seq src msg clients => some ⟨seq, src, msg, clients⟩
  | _ => none

def Act.sentTo? (d : ℕ) : Act → Option (ℕ × List UInt8)
  | .sent seq dst msg _ => if dst = d then some (seq, msg) else none
  | _ => none

/-- The messages received, in the order of receipt. -/
def relays (hist : List Act) : List Relay := hist.filterMap Act.relay?

/-- The messages sent to `d`, in the order in which they were sent. -/
def sentTo (d : ℕ) (hist : List Act) : List (ℕ × List UInt8) := hist.filterMap (Act.sentTo? d)

/-- The messages from others that were received while `d` was a client. -/
def dueTo (d : ℕ) (hist : List Act) : List (ℕ × List UInt8) :=
  ((relays hist).filter fun r => r.src ≠ d ∧ d ∈ r.clients).map Relay.numbered

/-- The listener and the open descriptors. -/
def State.inUse (s : State) (listener fd : ℕ) : Bool := fd = listener || isOpen fd s.hist

/-- `poll` reports `POLLNVAL` for a descriptor that is not open. -/
abbrev ReportsInvalid (listener : ℕ) (k : Kernel) (s : State) : Prop :=
  k.poll.all (fun revents => ∀ i < s.reactor.fdCount,
    s.reactor.fds[i]?.all (s.inUse listener) = true ∨ revents i &&& pollNval ≠ 0) = true

/-- `poll` reports `POLLIN` only, `accept` returns no open descriptor, and every
    `send` succeeds. -/
structure Faultless (listener : ℕ) (k : Kernel) (s : State) : Prop where
  pollsIn : k.poll.all (fun revents => ∀ i < s.reactor.fdCount,
    revents i = 0 ∨ revents i = pollIn) = true
  acceptNew : k.accept.all (fun newfd => !s.inUse listener newfd) = true
  sends : ∀ j < s.reactor.fdCount, k.send j = .sent

instance (listener : ℕ) (k : Kernel) (s : State) : Decidable (Faultless listener k s) :=
  decidable_of_iff
    (k.poll.all (fun revents => ∀ i < s.reactor.fdCount,
        revents i = 0 ∨ revents i = pollIn) = true ∧
      k.accept.all (fun newfd => !s.inUse listener newfd) = true ∧
      ∀ j < s.reactor.fdCount, k.send j = .sent)
    ⟨fun ⟨h1, h2, h3⟩ => ⟨h1, h2, h3⟩, fun ⟨h1, h2, h3⟩ => ⟨h1, h2, h3⟩⟩

/-! ## One broadcast -/

/-- When every `send` succeeds, the message goes to all but the listener and the
    sender. -/
theorem broadcast_sent {me seq j : ℕ} {msg : List UInt8} {ps : List PollFd}
    (hsend : ∀ t < ps.length, k.send (j + t) = .sent) :
    (broadcast k listener me seq msg j ps).1 =
      ((ps.map PollFd.fd).filter fun fd => fd ≠ listener ∧ fd ≠ me).map
        fun fd => .sent seq fd msg .sent := by
  induction ps generalizing j with
  | nil => rfl
  | cons p ps ih =>
    have hrest := @ih (j + 1) fun t ht => by
      rw [Nat.add_right_comm]
      exact hsend (t + 1) (by rw [List.length_cons]; omega)
    have hfirst : k.send j = .sent := hsend 0 (by rw [List.length_cons]; omega)
    rw [broadcast_cons, List.map_cons]
    split_ifs with hp hfail
    · rw [hfirst] at hfail
      cases hfail
    · rw [List.filter_cons_of_pos (by simpa using hp), List.map_cons, hrest, hfirst]
    · rw [List.filter_cons_of_neg (by simpa using hp), hrest]

/-- A descriptor that occurs once is sent the message once. -/
theorem sentTo_sends {d seq : ℕ} {msg : List UInt8} {fds : List ℕ} (hnodup : fds.Nodup) :
    sentTo d (fds.map fun fd => .sent seq fd msg .sent) =
      if d ∈ fds then [(seq, msg)] else [] := by
  induction fds with
  | nil => rfl
  | cons fd fds ih =>
    obtain ⟨hfd, hnodup⟩ := List.nodup_cons.mp hnodup
    have hrest := ih hnodup
    rw [sentTo] at hrest ⊢
    rw [List.map_cons, List.filterMap_cons, hrest]
    by_cases heq : fd = d
    · subst heq
      simp [Act.sentTo?, hfd]
    · simp [Act.sentTo?, heq, Ne.symm heq]

theorem relays_sends {seq : ℕ} {msg : List UInt8} {fds : List ℕ} :
    relays (fds.map fun fd => .sent seq fd msg .sent) = [] := by
  rw [relays, List.filterMap_map, List.filterMap_eq_nil_iff]
  intro fd _
  rfl

theorem sentTo_append (d : ℕ) (hist acts : List Act) :
    sentTo d (hist ++ acts) = sentTo d hist ++ sentTo d acts := List.filterMap_append

theorem relays_append (hist acts : List Act) :
    relays (hist ++ acts) = relays hist ++ relays acts := List.filterMap_append

theorem dueTo_append (d : ℕ) (hist acts : List Act) :
    dueTo d (hist ++ acts) = dueTo d hist ++ dueTo d acts := by
  rw [dueTo, relays_append, List.filter_append, List.map_append]
  rfl

/-! ## Runs -/

/-- What the history says so far. -/
structure Accounts (listener : ℕ) (hist : List Act) : Prop where
  sent : ∀ d, sentTo d hist = dueTo d hist
  numbered : (relays hist).map Relay.seq = List.range (hist.countP Act.isData)
  notListener : ∀ r ∈ relays hist, listener ∉ r.clients

/-- Acts that neither receive data nor send change nothing. -/
theorem Accounts.append_quiet {hist acts : List Act} (h : Accounts listener hist)
    (hsent : ∀ d, sentTo d acts = []) (hrelays : relays acts = [])
    (hdata : acts.countP Act.isData = 0) : Accounts listener (hist ++ acts) where
  sent d := by
    rw [sentTo_append, dueTo_append, h.sent d, hsent d, dueTo, dueTo, hrelays]
    rfl
  numbered := by
    rw [relays_append, hrelays, List.append_nil, h.numbered, List.countP_append, hdata]
    rfl
  notListener := by
    rw [relays_append, hrelays, List.append_nil]
    exact h.notListener

theorem Accounts.append_relayed {hist sends : List Act} {p : PollFd} {polled : Option PollFd}
    {seq me : ℕ} {msg : List UInt8} {clients : List ℕ} (h : Accounts listener hist)
    (hseq : seq = hist.countP Act.isData) (hnot : listener ∉ clients) (hnodup : clients.Nodup)
    (hsends : sends = ((listener :: clients).filter fun fd => fd ≠ listener ∧ fd ≠ me).map
      fun fd => .sent seq fd msg .sent) :
    Accounts listener (hist ++ .recvOn p polled :: .data seq me msg clients :: sends) := by
  have hrelays : relays (.recvOn p polled :: .data seq me msg clients :: sends) =
      [⟨seq, me, msg, clients⟩] := by
    rw [hsends]
    exact congrArg _ relays_sends
  have hsent : ∀ d, sentTo d (.recvOn p polled :: .data seq me msg clients :: sends) =
      if me ≠ d ∧ d ∈ clients then [(seq, msg)] else [] := by
    intro d
    have hfds : (listener :: clients).Nodup := List.nodup_cons.mpr ⟨hnot, hnodup⟩
    show sentTo d sends = _
    rw [hsends, sentTo_sends (hfds.filter _)]
    congr 1
    simp only [List.mem_filter, List.mem_cons, decide_eq_true_eq, eq_iff_iff]
    constructor
    · rintro ⟨hmem, hne, hme⟩
      exact ⟨Ne.symm hme, hmem.resolve_left hne⟩
    · rintro ⟨hme, hmem⟩
      refine ⟨.inr hmem, ?_, Ne.symm hme⟩
      rintro rfl
      exact hnot hmem
  have hcount : (.recvOn p polled :: .data seq me msg clients :: sends).countP Act.isData = 1 := by
    have hzero : sends.countP Act.isData = 0 := by
      rw [hsends, List.countP_map, List.countP_eq_zero]
      intro fd _ h
      cases h
    rw [List.countP_cons, List.countP_cons, hzero]
    rfl
  refine ⟨fun d => ?_, ?_, ?_⟩
  · rw [sentTo_append, dueTo_append, h.sent d, hsent d, dueTo, dueTo, hrelays]
    congr 1
    by_cases hdue : me ≠ d ∧ d ∈ clients
    · rw [if_pos hdue, List.filter_cons_of_pos (by simpa using hdue)]
      rfl
    · rw [if_neg hdue, List.filter_cons_of_neg (by simpa using hdue)]
      rfl
  · rw [relays_append, hrelays, List.map_append, h.numbered, List.countP_append, hcount,
      List.range_succ, hseq]
    rfl
  · intro r hr
    rw [relays_append, hrelays] at hr
    rcases List.mem_append.mp hr with hr | hr
    · exact h.notListener r hr
    · rw [List.mem_singleton.mp hr]
      exact hnot

/-- While the scan has not come to the listener yet, the polled descriptors are
    in use. -/
def OpenPhase (listener : ℕ) (s : State) : Prop :=
  match s.pc with
  | .scan i => i = 0 → ∀ fd ∈ s.reactor.fds, s.inUse listener fd = true
  | .accept _ => ∀ fd ∈ s.reactor.fds, s.inUse listener fd = true
  | _ => True

structure BroadcastInv (listener : ℕ) (s : State) : Prop where
  nodup : s.reactor.fds.Nodup
  accounts : Accounts listener s.hist
  phase : OpenPhase listener s

/-- The listener is sound. -/
theorem Faultless.sound (h : Faultless listener k s) (hset : PollSet listener s.reactor) :
    ListenerSound listener k where
  healthy := by
    intro revents hrev
    have hpos := hset.countPos
    have hin := h.pollsIn
    rw [show k.poll = some revents from hrev] at hin
    rcases of_decide_eq_true hin 0 (by omega) with h0 | h0 <;> rw [h0] <;> decide
  accept_ne := by
    intro haccept
    have hnew := h.acceptNew
    rw [haccept] at hnew
    simp [State.inUse] at hnew

/-- What a step records keeps the accounts. -/
theorem accounts_records {acts : List Act} (hok : Faultless listener k s)
    (hpoll : PollInv listener s) (hinv : BroadcastInv listener s) (hrec : Records k s acts) :
    Accounts listener (s.hist ++ acts) := by
  have haccounts := hinv.accounts
  cases hrec with
  | nothing =>
    rw [List.append_nil]
    exact haccounts
  | accepted hpc haccept => exact haccounts.append_quiet (fun _ => rfl) rfl rfl
  | received hpc hp => exact haccounts.append_quiet (fun _ => rfl) rfl rfl
  | closed hpc hp hbits => exact haccounts.append_quiet (fun _ => rfl) rfl rfl
  | @relayed i p l chunk msg hpc hp hl hrecv hmsg =>
    obtain ⟨hfds, hnot⟩ := hpoll.pollSet.fds_eq
    obtain ⟨l', hl', hfd⟩ := hpoll.pollSet.first
    have hlen := hpoll.pollSet.length
    have hle := hpoll.pollSet.countLe
    rw [hl] at hl'
    cases hl'
    apply haccounts.append_relayed rfl hnot (hinv.nodup.sublist (List.drop_sublist _ _))
    rw [broadcast_sent, ← Reactor.fds, hfd, ← hfds]
    intro t ht
    rw [Nat.zero_add]
    apply hok.sends
    rw [List.length_take] at ht
    omega

/-- Every step without faults keeps the invariant. -/
theorem broadcastInv_step (hkernel : ReportsInvalid listener k s)
    (hok : Faultless listener k s) (hpoll : PollInv listener s) (hinv : BroadcastInv listener s)
    (h : Outcome k s s') : BroadcastInv listener s' := by
  have hsized := hpoll.pollSet.toSized
  have haccounts : Accounts listener s'.hist := by
    obtain ⟨acts, hrec, hhist⟩ := h.records
    rw [hhist]
    exact accounts_records hok hpoll hinv hrec
  obtain ⟨hnodup, -, hphase⟩ := hinv
  unfold OpenPhase at hphase
  cases h with
  | moved h =>
    refine ⟨hnodup, haccounts, ?_⟩
    cases h with
    | @idle i p hpc hi hp hrev => exact fun hzero => absurd hzero (by omega)
    | @healthy i p hpc hp hbits => exact fun hzero => absurd hzero (by omega)
    | @accepts i p l hpc hi hp hl hin hfd =>
      rw [hpc] at hphase
      apply hphase
      by_contra hne
      exact hpoll.pollSet.fd_ne hp hi hl (by omega) hfd
    | _ => trivial
  | stopped h hrec => exact ⟨hnodup, haccounts, trivial⟩
  | @polled revents hpc hrun hpoll' hlen =>
    have hfds := fds_poll s.reactor revents
    refine ⟨?_, haccounts, fun _ fd hmem => ?_⟩
    · rw [hfds]
      exact hnodup
    · have hmem' : fd ∈ Reactor.fds _ := hmem
      rw [hfds] at hmem'
      obtain ⟨i, hi⟩ := List.mem_iff_getElem?.mp hmem'
      have hlt := (List.getElem?_eq_some_iff.mp hi).1
      rw [hsized.length_fds] at hlt
      -- an entry that is not in use would have been reported
      have hin := hok.pollsIn
      rw [ReportsInvalid, hpoll'] at hkernel
      rw [hpoll'] at hin
      have hrep := of_decide_eq_true hkernel i hlt
      rw [hi] at hrep
      refine hrep.resolve_right fun hbits => hbits ?_
      rcases of_decide_eq_true hin i hlt with h0 | h0 <;> rw [h0] <;> decide
  | @added i newfd r hpc haccept hadd =>
    rw [hpc] at hphase
    have hnot : newfd ∉ s.reactor.fds := by
      intro hmem
      have hnew := hok.acceptNew
      rw [haccept] at hnew
      simp [hphase newfd hmem] at hnew
    exact ⟨nodup_addFd hsized hnodup hnot hadd, haccounts, trivial⟩
  | dropped hpc hp hrecv hroom => exact ⟨hnodup, haccounts, fun hzero => absurd hzero (by omega)⟩
  | relayed hpc hp hl hrecv hne hmsg => exact ⟨hnodup, haccounts, trivial⟩
  | closed hpc hp hbits hroom => exact ⟨hnodup, haccounts, fun hzero => absurd hzero (by omega)⟩
  | @deleted m i r hpc hm hdel =>
    exact ⟨nodup_delFromPfds hsized hnodup hdel, haccounts, trivial⟩

theorem broadcastInv_init : BroadcastInv listener (startReactor listener).init where
  nodup := List.nodup_singleton listener
  accounts := ⟨fun _ => rfl, rfl, fun r hr => by cases hr⟩
  phase := trivial

/-- Each client is due a subsequence of what was received. -/
theorem dueTo_sublist (d : ℕ) (hist : List Act) :
    (dueTo d hist).Sublist ((relays hist).map Relay.numbered) :=
  List.filter_sublist.map _

/-- In every state reached without faults: each client was sent, in the order of
    receipt and each once, the messages from others received while it was in
    the poll set; what was sent went neither to the listener nor back to where
    it came from; and any two clients were sent their common messages in the
    same order. -/
theorem faultless_broadcast
    (h : (startReactor listener).Reach
      (fun k s => ReportsInvalid listener k s ∧ Faultless listener k s) s) :
    (∀ d, sentTo d s.hist = dueTo d s.hist) ∧
      (relays s.hist).map Relay.seq = List.range (relays s.hist).length ∧
      (∀ seq dst msg result, .sent seq dst msg result ∈ s.hist →
        dst ≠ listener ∧ ∃ r ∈ relays s.hist, r.seq = seq ∧ r.msg = msg ∧ r.src ≠ dst ∧
          dst ∈ r.clients) ∧
      ∀ d e, (sentTo d s.hist).filter (· ∈ sentTo e s.hist) =
        (sentTo e s.hist).filter (· ∈ sentTo d s.hist) := by
  have hreach : ∀ s, (startReactor listener).Reach
      (fun k s => ReportsInvalid listener k s ∧ Faultless listener k s) s → PollInv listener s :=
    fun s hs => pollInv_reach (fun _ _ ha hset => ha.2.sound hset) hs
  have hinv : BroadcastInv listener s :=
    h.invariant_of hreach broadcastInv_init fun k s s' hok hpoll hinv hstep =>
      broadcastInv_step hok.1 hok.2 hpoll hinv (step_outcome hstep)
  obtain ⟨hsent, hseq, hnot⟩ := hinv.accounts
  have hlen : (relays s.hist).length = s.hist.countP Act.isData := by
    rw [← List.length_map Relay.seq, hseq, List.length_range]
  refine ⟨hsent, by rw [hlen, hseq], fun seq dst msg result hmem => ?_, fun d e => ?_⟩
  · have hmem' : (seq, msg) ∈ sentTo dst s.hist :=
      List.mem_filterMap.mpr ⟨_, hmem, if_pos rfl⟩
    rw [hsent dst] at hmem'
    obtain ⟨r, hr, heq⟩ := List.mem_map.mp hmem'
    obtain ⟨hr, hdue⟩ := List.mem_filter.mp hr
    obtain ⟨hsrc, hclient⟩ := of_decide_eq_true hdue
    cases heq
    refine ⟨?_, r, hr, rfl, rfl, hsrc, hclient⟩
    rintro rfl
    exact hnot r hr hclient
  · have hnodup : ((relays s.hist).map Relay.numbered).Nodup := by
      apply List.Nodup.of_map Prod.fst
      rw [List.map_map]
      show ((relays s.hist).map Relay.seq).Nodup
      rw [hseq]
      exact List.nodup_range
    apply filter_common hnodup
    · rw [hsent d]
      exact dueTo_sublist d s.hist
    · rw [hsent e]
      exact dueTo_sublist e s.hist

/-- Clients 5, 6 and 7 join; 5 sends; 6 leaves; 7 sends. -/
def talk : List Kernel :=
  [join 5 0, join 6 1, join 7 2,
    [.ready 1 pollIn, .idle, .idle, .receives (ascii "hi"), .idle, .idle, .idle, .idle, .idle],
    [.ready 2 pollIn, .idle, .idle, .idle, .receives [], .idle, .idle, .idle, .idle],
    [.ready 2 pollIn, .idle, .idle, .idle, .receives (ascii "yo"), .idle]].flatten

theorem faultless_broadcast_talk :
    ∃ s, (startReactor 3).execIf (fun k s => ReportsInvalid 3 k s ∧ Faultless 3 k s) talk
        (startReactor 3).init = some s ∧
      (relays s.hist).map Relay.src = [5, 7] ∧
      (sentTo 5 s.hist).map Prod.fst = [1] ∧ (sentTo 6 s.hist).map Prod.fst = [0] ∧
      (sentTo 7 s.hist).map Prod.fst = [0] ∧
      ∀ d, sentTo d s.hist = dueTo d s.hist := by
  have hrun : ((startReactor 3).execIf (fun k s => ReportsInvalid 3 k s ∧ Faultless 3 k s) talk
      (startReactor 3).init).map (fun s => ((relays s.hist).map Relay.src,
        (sentTo 5 s.hist).map Prod.fst, (sentTo 6 s.hist).map Prod.fst,
        (sentTo 7 s.hist).map Prod.fst)) = some ([5, 7], [1], [0], [0]) := by
    decide +kernel
  obtain ⟨s, hs, hat⟩ := Option.map_eq_some_iff.mp hrun
  simp only [Prod.mk.injEq] at hat
  obtain ⟨hsrc, h5, h6, h7⟩ := hat
  obtain ⟨hsent, -⟩ := faultless_broadcast (.of_execIf .init hs)
  exact ⟨s, hs, hsrc, h5, h6, h7, hsent⟩

end ChatOnC.ReactServer
