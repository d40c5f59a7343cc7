import ChatOnC.Common.Room
import ChatOnC.ReactServer.Broadcast

/-!
# The server hosts a chat room

The abstract room has members that join, say something, part, and are swept out together.
The server has an array of entries that doubles, a scan with a list of removals, and entries
moved into the places of others. With a well-behaved kernel and removals that are safe, the
members are the clients in the poll set, who has parted is listed for removal, and what a
member has heard is what was sent to it.

* `HostPhase`: the room, by where `startReactor` stands.
* `hosts_room`: every step of the server is a step of the room, or none.
-/

namespace ChatOnC.ReactServer

open ChatOnC.Common

variable {k : Kernel} {s s' : State} {listener : ℕ}

/-- A message with its number. -/
abbrev ChatRoom := Room ℕ (ℕ × List UInt8)

/-- `accept` returns a descriptor that is not in the poll set, every `send` succeeds, and the
    removal of the listed entries is safe. -/
structure Hosting (listener : ℕ) (k : Kernel) (s : State) : Prop where
  sound : ListenerSound listener k
  acceptNew : ∀ newfd, k.accept = some newfd → newfd ∉ s.reactor.fds
  sends : ∀ j < s.reactor.fdCount, k.send j = .sent
  swapSafe : ∀ m, s.pc = .remove m → SwapSafe (s.reactor.fdCount + m) s.descriptorsToRemove

/-- The members are the descriptors behind the listener, and those listed have parted. -/
structure Hosts (fds listed : List ℕ) (room : ChatRoom) : Prop where
  members : ∀ d, d ∈ room.members ↔ d ∈ fds.drop 1
  parted : ∀ d, d ∈ room.parted ↔ ∃ i ∈ listed, fds[i]? = some d

/-- What a removal began with, when it has deleted `m` of the listed entries. -/
structure RemovalOf (listener m : ℕ) (s : State) (fds : List ℕ) : Prop where
  nodup : fds.Nodup
  first : fds = listener :: fds.drop 1
  length : fds.length = s.reactor.fdCount + m
  left : s.reactor.fds = (s.descriptorsToRemove.take m).foldl swapRemove fds

/-- The room, by where `startReactor` stands. -/
def HostPhase (listener : ℕ) (s : State) (room : ChatRoom) : Prop :=
  match s.pc with
  | .poll | .returned => Hosts s.reactor.fds [] room
  | .scan _ | .accept _ | .recv _ | .hangup _ => Hosts s.reactor.fds s.descriptorsToRemove room
  | .remove m => ∃ fds, RemovalOf listener m s fds ∧ Hosts fds s.descriptorsToRemove room
  | .stopped _ => True

/-- The server hosts the room. -/
structure HostsRoom (listener : ℕ) (s : State) (room : ChatRoom) : Prop where
  pollInv : PollInv listener s
  nodup : s.reactor.fds.Nodup
  heard : ∀ d, room.heard d = sentTo d s.hist
  phase : HostPhase listener s room

variable {room room' : ChatRoom}

theorem hostsRoom_init : HostsRoom listener (startReactor listener).init Room.empty where
  pollInv := pollInv_init
  nodup := List.nodup_singleton listener
  heard := fun _ => rfl
  phase := ⟨fun d => by simp [Room.empty, startReactor, startedReactor, Reactor.fds],
    fun d => by simp [Room.empty]⟩

/-! ## The members -/

section Members

variable {fds listed : List ℕ} {i d : ℕ} {p : PollFd}

theorem mem_drop_one {l : List ℕ} {x : ℕ} (hfirst : l = x :: l.drop 1) (hnot : x ∉ l.drop 1) :
    d ∈ l.drop 1 ↔ d ∈ l ∧ d ≠ x := by
  constructor
  · intro hd
    refine ⟨List.mem_of_mem_drop hd, ?_⟩
    rintro rfl
    exact hnot hd
  · rintro ⟨hd, hne⟩
    rw [hfirst] at hd
    exact (List.mem_cons.mp hd).resolve_left hne

/-- A client in the poll set is a member that has not parted, if its entry is not listed. -/
theorem Hosts.member (h : Hosts fds listed room) (hnodup : fds.Nodup) (h1 : 1 ≤ i)
    (hget : fds[i]? = some d) (hnot : i ∉ listed) : d ∈ room.members ∧ d ∉ room.parted := by
  constructor
  · rw [h.members, List.mem_iff_getElem?]
    refine ⟨i - 1, ?_⟩
    rw [List.getElem?_drop, show 1 + (i - 1) = i by omega]
    exact hget
  · rw [h.parted]
    rintro ⟨j, hj, hgetj⟩
    have hlt : i < fds.length := (List.getElem?_eq_some_iff.mp hget).1
    have hij : i = j := (List.getElem?_inj hlt hnodup).mp (hget.trans hgetj.symm)
    exact hnot (hij ▸ hj)

/-- The client at index `i` parts, and its entry is listed. -/
theorem Hosts.part (h : Hosts fds listed room) (hget : fds[i]? = some d)
    (hmembers : room'.members = room.members) (hparted : room'.parted = insert d room.parted) :
    Hosts fds (listed ++ [i]) room' where
  members d' := by rw [hmembers, h.members]
  parted d' := by
    rw [hparted, Finset.mem_insert, h.parted]
    constructor
    · rintro (rfl | ⟨j, hj, hgetj⟩)
      · exact ⟨i, List.mem_append_right _ (List.mem_singleton_self i), hget⟩
      · exact ⟨j, List.mem_append_left _ hj, hgetj⟩
    · rintro ⟨j, hj, hgetj⟩
      rcases List.mem_append.mp hj with hj | hj
      · exact .inr ⟨j, hj, hgetj⟩
      · rw [List.mem_singleton.mp hj, hget] at hgetj
        exact .inl (Option.some.inj hgetj).symm

/-- A new client joins behind the others. -/
theorem Hosts.join (h : Hosts fds [] room) (hne : fds ≠ [])
    (hmembers : room'.members = insert d room.members) (hparted : room'.parted = room.parted) :
    Hosts (fds ++ [d]) [] room' where
  members d' := by
    have hlen : 1 ≤ fds.length := List.length_pos_iff.mpr hne
    rw [hmembers, Finset.mem_insert, h.members, List.drop_append_of_le_length hlen,
      List.mem_append, List.mem_singleton, or_comm]
  parted d' := by
    rw [hparted, h.parted]
    simp

/-- When all listed entries are deleted, those who have parted are gone, and nobody else. -/
theorem Hosts.sweep {m : ℕ} (h : Hosts fds s.descriptorsToRemove room)
    (hof : RemovalOf listener m s fds) (hremoving : Removing m s)
    (hset : PollSet listener s.reactor) (hm : s.descriptorsToRemove[m]? = none)
    (hsafe : SwapSafe (s.reactor.fdCount + m) s.descriptorsToRemove)
    (hmembers : room'.members = room.members \ room.parted) (hparted : room'.parted = ∅) :
    Hosts s.reactor.fds [] room' where
  members d := by
    obtain ⟨hnodup, hfirst, hlength, hleft⟩ := hof
    rw [List.take_of_length_le (List.getElem?_eq_none_iff.mp hm)] at hleft
    have hexact := (removes_exactly_iff hnodup hremoving.increasing
      (fun i hi => hlength ▸ (hremoving.bounds i hi).2)).mpr (hlength ▸ hsafe) d
    have hbefore : d ∈ fds.drop 1 ↔ d ∈ fds ∧ d ≠ listener := by
      rw [hfirst] at hnodup
      exact mem_drop_one hfirst (List.nodup_cons.mp hnodup).1
    have hafter : d ∈ s.reactor.fds.drop 1 ↔ d ∈ s.reactor.fds ∧ d ≠ listener :=
      mem_drop_one hset.fds_eq.1 hset.fds_eq.2
    rw [hmembers, Finset.mem_sdiff, h.members, h.parted, hbefore, hafter, hleft, hexact]
    simp only [not_exists, not_and]
    tauto
  parted d := by simp [hparted]

end Members

/-! ## The messages -/

/-- What relaying a chunk sends to `d`. -/
theorem sentTo_relayed {i d : ℕ} {p l : PollFd} {msg : List UInt8} (hpoll : PollInv listener s)
    (hnodup : s.reactor.fds.Nodup) (hl : s.reactor.pfds[0]? = some l)
    (hsends : ∀ j < s.reactor.fdCount, k.send j = .sent) :
    sentTo d (.recvOn p s.reported[i]? ::
      .data (s.hist.countP Act.isData) p.fd msg s.clients ::
      (broadcast k l.fd p.fd (s.hist.countP Act.isData) msg 0
        (s.reactor.pfds.take s.reactor.fdCount)).1) =
      if d ∈ s.clients ∧ d ≠ p.fd then [(s.hist.countP Act.isData, msg)] else [] := by
  obtain ⟨l', hl', hfd⟩ := hpoll.pollSet.first
  obtain ⟨hfirst, hnot⟩ := hpoll.pollSet.fds_eq
  rw [hl] at hl'
  cases hl'
  show sentTo d (broadcast k l.fd p.fd (s.hist.countP Act.isData) msg 0
    (s.reactor.pfds.take s.reactor.fdCount)).1 = _
  rw [broadcast_sent, ← Reactor.fds, hfd, sentTo_sends (hnodup.filter _)]
  · congr 1
    rw [List.mem_filter, State.clients, mem_drop_one hfirst hnot]
    simp only [decide_eq_true_eq, eq_iff_iff]
    tauto
  · intro t ht
    rw [Nat.zero_add]
    apply hsends
    rw [List.length_take] at ht
    omega

/-! ## The steps -/

/-- The abstract steps. -/
abbrev chatRoom : System ChatRoom (RoomAct ℕ (ℕ × List UInt8)) := Room.system ℕ (ℕ × List UInt8)

/-- The step is matched by steps of the room. -/
def Matched (listener : ℕ) (s' : State) (room : ChatRoom) : Prop :=
  ∃ acts room', chatRoom.exec acts room = some room' ∧ HostsRoom listener s' room'

theorem matched_none (h : HostsRoom listener s' room) : Matched listener s' room :=
  ⟨[], room, rfl, h⟩

theorem matched_one {act : RoomAct ℕ (ℕ × List UInt8)} (hstep : room.step act = some room')
    (h : HostsRoom listener s' room') : Matched listener s' room := by
  refine ⟨[act], room', ?_, h⟩
  rw [System.exec_cons]
  show (room.step act).bind _ = _
  rw [hstep]
  rfl

theorem matched_moves {pc : Pc} (hok : Hosting listener k s) (hroom : HostsRoom listener s room)
    (h : Moves k s pc) (hpoll : PollInv listener (s.goto pc)) :
    Matched listener (s.goto pc) room := by
  obtain ⟨hinv, hnodup, hheard, hphase⟩ := hroom
  unfold HostPhase at hphase
  cases h with
  | @scanned i hpc hi =>
    rw [hpc] at hphase
    exact matched_none ⟨hpoll, hnodup, hheard, s.reactor.fds,
      ⟨hnodup, hinv.pollSet.fds_eq.1, hinv.pollSet.toSized.length_fds, rfl⟩, hphase⟩
  | @removed m hpc hm =>
    rw [hpc] at hphase
    obtain ⟨fds, hof, hhosts⟩ := hphase
    obtain ⟨room', hstep, hmembers, hparted, hheard'⟩ := room.step_sweep
    apply matched_one hstep
    exact ⟨hpoll, hnodup, fun d => (congrFun hheard' d).trans (hheard d),
      hhosts.sweep hof (hinv.remove hpc) hinv.pollSet hm (hok.swapSafe m hpc) hmembers hparted⟩
  | returns hpc hrun | idle hpc hi hp hrev | accepts hpc hi hp hl hin hfd
  | receives hpc hi hp hl hin hfd | checks hpc hi hp hin | refused hpc haccept
  | healthy hpc hp hbits =>
    rw [hpc] at hphase
    exact matched_none ⟨hpoll, hnodup, hheard, hphase⟩

section Steps

variable {i : ℕ} {p l : PollFd} {msg : List UInt8} {acts : List Act}

/-- Acts that send nothing are not heard. -/
theorem HostsRoom.heard_quiet (h : HostsRoom listener s room) (hquiet : ∀ d, sentTo d acts = [])
    (d : ℕ) : room.heard d = sentTo d (s.hist ++ acts) := by
  rw [sentTo_append, hquiet d, List.append_nil, h.heard d]

/-- What `recv` reads from is the entry of a member that has not parted. -/
theorem HostsRoom.speaker (h : HostsRoom listener s room) (hpc : s.pc = .recv i)
    (hp : s.reactor.pfds[i]? = some p) :
    s.reactor.fds[i]? = some p.fd ∧ p.fd ∈ room.members ∧ p.fd ∉ room.parted := by
  obtain ⟨hscan, h1, hi⟩ := h.pollInv.recv hpc
  have hphase := h.phase
  unfold HostPhase at hphase
  rw [hpc] at hphase
  have hget : s.reactor.fds[i]? = some p.fd := by
    rw [getElem?_fds _ hi, hp]
    rfl
  refine ⟨hget, hphase.member h.nodup h1 hget fun hlisted => ?_⟩
  have hlt := (hscan.bounds i hlisted).2
  omega

/-- Relaying a chunk is saying it in the room. -/
theorem HostsRoom.say (h : HostsRoom listener s room) (hok : Hosting listener k s)
    (hpc : s.pc = .recv i) (hp : s.reactor.pfds[i]? = some p) (hl : s.reactor.pfds[0]? = some l)
    (hacts : acts = .recvOn p s.reported[i]? ::
      .data (s.hist.countP Act.isData) p.fd msg s.clients ::
      (broadcast k l.fd p.fd (s.hist.countP Act.isData) msg 0
        (s.reactor.pfds.take s.reactor.fdCount)).1) :
    ∃ room', room.step (.say p.fd (s.hist.countP Act.isData, msg)) = some room' ∧
      room'.members = room.members ∧ room'.parted = room.parted ∧
      ∀ d, room'.heard d = sentTo d (s.hist ++ acts) := by
  obtain ⟨-, hmem, hnot⟩ := h.speaker hpc hp
  refine ⟨_, Room.step_say hmem hnot _, rfl, rfl, fun d => ?_⟩
  have hphase := h.phase
  unfold HostPhase at hphase
  rw [hpc] at hphase
  have hiff : d ∈ room.members ∧ d ≠ p.fd ↔ d ∈ s.clients ∧ d ≠ p.fd :=
    and_congr_left' (hphase.members d)
  show room.hears p.fd _ d = _
  rw [Room.hears, h.heard d, sentTo_append, hacts,
    sentTo_relayed h.pollInv h.nodup hl hok.sends]
  by_cases hd : d ∈ s.clients ∧ d ≠ p.fd
  · rw [if_pos (hiff.mpr hd), if_pos hd]
  · rw [if_neg (mt hiff.mp hd), if_neg hd, List.append_nil]

theorem matched_stopped {why : Stop} (hok : Hosting listener k s)
    (hroom : HostsRoom listener s room) (hrec : Records k s acts)
    (hpoll : PollInv listener ((s.log acts).stop why)) :
    Matched listener ((s.log acts).stop why) room := by
  cases hrec with
  | relayed hpc hp hl hrecv hmsg =>
    obtain ⟨room', hstep, -, -, hheard⟩ := hroom.say hok hpc hp hl rfl
    exact matched_one hstep ⟨hpoll, hroom.nodup, hheard, trivial⟩
  | nothing | accepted hpc haccept | received hpc hp | closed hpc hp hbits =>
    exact matched_none ⟨hpoll, hroom.nodup, hroom.heard_quiet fun _ => rfl, trivial⟩

end Steps

/-- **Refinement.** -/
theorem hosts_room (listener : ℕ) :
    System.Simulation (startReactor listener) (Hosting listener) chatRoom
      (HostsRoom listener) where
  init := hostsRoom_init
  step := by
    intro k s s' room hok hroom hstep
    have hout := step_outcome hstep
    have hpoll := pollInv_step hok.sound hroom.pollInv hout
    have hsized := hroom.pollInv.pollSet.toSized
    have hphase := hroom.phase
    unfold HostPhase at hphase
    show Matched listener s' room
    cases hout with
    | moved h => exact matched_moves hok hroom h hpoll
    | stopped h hrec => exact matched_stopped hok hroom hrec hpoll
    | @polled revents hpc hrun hpoll' hlen =>
      have hfds := fds_poll s.reactor revents
      rw [hpc] at hphase
      refine matched_none ⟨hpoll, ?_, hroom.heard, ?_⟩
      · rw [hfds]
        exact hroom.nodup
      · show Hosts _ [] room
        rw [hfds]
        exact hphase
    | @added i newfd r hpc haccept hadd =>
      have hnew := hok.acceptNew newfd haccept
      have hfirst := hroom.pollInv.pollSet.fds_eq.1
      rw [hpc] at hphase
      dsimp only at hphase
      rw [hroom.pollInv.nothing_listed hpc] at hphase
      have hnot : newfd ∉ room.members := by
        rw [hphase.members]
        exact fun hmem => hnew (List.mem_of_mem_drop hmem)
      obtain ⟨room', hstep', hmembers, hparted, hheard⟩ := Room.step_join hnot
      refine matched_one hstep' ⟨hpoll, nodup_addFd hsized hroom.nodup hnew hadd, fun d => ?_, ?_⟩
      · rw [hheard]
        exact hroom.heard_quiet (fun _ => rfl) d
      · show Hosts r.fds s.descriptorsToRemove room'
        rw [hroom.pollInv.nothing_listed hpc, fds_addFd hsized hadd]
        exact hphase.join (by rw [hfirst]; exact List.cons_ne_nil _ _) hmembers hparted
    | @dropped i p hpc hp hrecv hroom' =>
      obtain ⟨hget, hmem, hnot⟩ := hroom.speaker hpc hp
      obtain ⟨room', hstep', hmembers, hparted, hheard⟩ := Room.step_part hmem hnot
      rw [hpc] at hphase
      refine matched_one hstep' ⟨hpoll, hroom.nodup, fun d => ?_, hphase.part hget hmembers hparted⟩
      rw [hheard]
      exact hroom.heard_quiet (fun _ => rfl) d
    | @relayed i p l chunk msg hpc hp hl hrecv hne hmsg =>
      obtain ⟨room', hstep', hmembers, hparted, hheard⟩ := hroom.say hok hpc hp hl rfl
      rw [hpc] at hphase
      refine matched_one hstep' ⟨hpoll, hroom.nodup, hheard, ⟨fun d => ?_, fun d => ?_⟩⟩
      · rw [hmembers]
        exact hphase.members d
      · rw [hparted]
        exact hphase.parted d
    | @closed i p hpc hp hbits hroom' =>
      obtain ⟨h1, hget, -⟩ := hroom.pollInv.client_of_hangup hpc hp hbits
      have hscan := (hroom.pollInv.hangup hpc).1
      rw [hpc] at hphase
      obtain ⟨hmem, hnot⟩ := hphase.member hroom.nodup h1 hget fun hlisted =>
        absurd (hscan.bounds i hlisted).2 (Nat.lt_irrefl i)
      obtain ⟨room', hstep', hmembers, hparted, hheard⟩ := Room.step_part hmem hnot
      refine matched_one hstep' ⟨hpoll, hroom.nodup, fun d => ?_, hphase.part hget hmembers hparted⟩
      rw [hheard]
      exact hroom.heard_quiet (fun _ => rfl) d
    | @deleted m i r hpc hm hdel =>
      obtain ⟨hpos, -, -, -, -, hcount, -⟩ := delFromPfds_eq_ok hdel
      rw [hpc] at hphase
      obtain ⟨fds, hof, hhosts⟩ := hphase
      refine matched_none ⟨hpoll, nodup_delFromPfds hsized hroom.nodup hdel, hroom.heard, fds,
        ⟨hof.nodup, hof.first, ?_, ?_⟩, hhosts⟩
      · have hlength := hof.length
        show fds.length = r.fdCount + (m + 1)
        omega
      · exact fds_delFromPfds_take hsized hof.left hm hdel

end ChatOnC.ReactServer
