import ChatOnC.Common.Stream
import ChatOnC.Common.Termination
import ChatOnC.FileTransfer.StreamClients
import ChatOnC.FileTransfer.StreamServers

/-!
# File transfers over streams

A client of `client.c` and the server of `server.c` it is meant for, once they are
connected. The client reads the file and makes one call of `send` for each chunk, which
returns what it can return; the server counts what it receives. The connection holds any
number of bytes, the server is told of the end of the stream when the client has closed
its socket, by `close` or by `exit`, and both sides take their steps in any order.

* `clientMoves_of_step`, `serverMoves_of_step`: what a step does.
* `transfers_end`: every transfer ends, the server reports a time however the client has
  ended, and it has counted the whole file if and only if every chunk was sent, unchanged
  and accepted as a whole.
-/

namespace ChatOnC.FileTransfer

open ChatOnC.Common

/-! ## The model -/

/-- A client, a server and their connection. `unread` is what the client has still to read
    of the file; `calls` and `reads` are history. -/
structure Transfer where
  unread : List (List UInt8)
  calls : List (List UInt8 × ℤ)
  ending : Option Ending
  connection : Fifo UInt8
  totalBytesRead : ℤ
  reads : List ℤ
  report : Option Report

/-- Who takes the next step, and what `send` or `recv` returns to him. -/
inductive TransferMove
  | client (result : ℤ)
  | server (bytesRead : ℤ)

instance (requested : ℕ) (result : ℤ) : Decidable (ValidResult requested result) :=
  inferInstanceAs (Decidable (_ ∨ _))

/-- A round of the client's loop, or the end of its body. -/
def Transfer.clientStep (c : FileClient) (result : ℤ) (s : Transfer) : Option Transfer :=
  if s.ending ≠ none then none
  else
    match s.unread with
    | [] => some { s with ending := some .success }
    | chunk :: unread =>
      if ValidResult (c.argument chunk).length result then
        some { s with
          unread := unread
          calls := s.calls ++ [(chunk, result)]
          connection := s.connection.write (c.accepted (chunk, result))
          ending := if c.writes chunk ∧ c.failed result then some c.onFailure else none }
      else none

/-- The connection after a `recv` that returns this. -/
def Transfer.recv (s : Transfer) (bytesRead : ℤ) : Option (Fifo UInt8) :=
  if bytesRead = -1 then some s.connection
  else if bytesRead = 0 then
    if s.connection.items = [] ∧ s.ending ≠ none then some s.connection else none
  else if 0 < bytesRead ∧ bytesRead ≤ bufferSize then
    (s.connection.read bytesRead.toNat).map Prod.snd
  else none

/-- What the server does with the value `recv` has returned. -/
def Transfer.count (server : StreamServer) (start stop : Timeval) (bytesRead : ℤ)
    (s : Transfer) : Transfer :=
  match server.round bytesRead with
  | .again => { s with totalBytesRead := s.totalBytesRead + bytesRead }
  | .fail => { s with report := some .failure }
  | .leave =>
    { s with
      report :=
        some (if server.failsBehind bytesRead then .failure else .time (elapsed start stop)) }

/-- A round of the server's loop, and what is behind it. -/
def Transfer.serverStep (server : StreamServer) (start stop : Timeval) (bytesRead : ℤ)
    (s : Transfer) : Option Transfer :=
  if s.report ≠ none then none
  else
    (s.recv bytesRead).map fun connection =>
      { s with connection := connection, reads := s.reads ++ [bytesRead] }.count server start stop
        bytesRead

/-- A client and a server on this file, the two calls of `gettimeofday` giving `start` and
    `stop`. -/
def transfer (c : FileClient) (server : StreamServer) (file : List UInt8) (start stop : Timeval) :
    System Transfer TransferMove where
  init :=
    { unread := c.read file
      calls := []
      ending := none
      connection := .empty
      totalBytesRead := 0
      reads := []
      report := none }
  step
    | .client result, s => s.clientStep c result
    | .server bytesRead, s => s.serverStep server start stop bytesRead

/-! ## What a step does -/

variable {c : FileClient} {server : StreamServer} {file : List UInt8} {start stop : Timeval}
  {s s' : Transfer}

/-- The call fails, and the client sees it. -/
abbrev FileClient.Fails (c : FileClient) (call : List UInt8 × ℤ) : Prop :=
  c.writes call.1 = true ∧ c.failed call.2 = true

/-- A server that goes on as long as it receives something, and reports a time at the end
    of the stream. -/
structure StreamServer.Sound (server : StreamServer) : Prop where
  again : ∀ n > 0, server.round n = .again
  ends : server.round 0 = .leave
  passes : server.failsBehind 0 = false

inductive ClientMoves (c : FileClient) (s : Transfer) : Transfer → Prop
  | returns (hopen : s.ending = none) (hunread : s.unread = []) :
      ClientMoves c s { s with ending := some .success }
  | calls {chunk : List UInt8} {unread : List (List UInt8)} {result : ℤ} (hopen : s.ending = none)
      (hunread : s.unread = chunk :: unread)
      (hvalid : ValidResult (c.argument chunk).length result)
      (hok : ¬c.Fails (chunk, result)) :
      ClientMoves c s { s with
        unread := unread
        calls := s.calls ++ [(chunk, result)]
        connection := s.connection.write (c.accepted (chunk, result))
        ending := none }
  | fails {chunk : List UInt8} {unread : List (List UInt8)} {result : ℤ} (hopen : s.ending = none)
      (hunread : s.unread = chunk :: unread)
      (hvalid : ValidResult (c.argument chunk).length result)
      (hfails : c.Fails (chunk, result)) :
      ClientMoves c s { s with
        unread := unread
        calls := s.calls ++ [(chunk, result)]
        connection := s.connection.write (c.accepted (chunk, result))
        ending := some c.onFailure }

theorem clientMoves_of_step {result : ℤ} (h : s.clientStep c result = some s') :
    ClientMoves c s s' := by
  unfold Transfer.clientStep at h
  split_ifs at h with hopen
  rw [not_not] at hopen
  split at h
  · rename_i hunread
    cases h
    exact .returns hopen hunread
  · rename_i chunk unread hunread
    split_ifs at h with hvalid hfails
    · cases h
      exact .fails hopen hunread hvalid hfails
    · cases h
      exact .calls hopen hunread hvalid hfails

/-- The steps of such a server when `recv` does not fail. -/
inductive ServerMoves (start stop : Timeval) (s : Transfer) : Transfer → Prop
  | receives {n : ℕ} {bytes : List UInt8} {connection : Fifo UInt8} (hrunning : s.report = none)
      (hread : s.connection.read n = some (bytes, connection)) :
      ServerMoves start stop s { s with
        connection := connection
        reads := s.reads ++ [(n : ℤ)]
        totalBytesRead := s.totalBytesRead + n }
  | reports (hrunning : s.report = none) (hitems : s.connection.items = [])
      (hclosed : s.ending ≠ none) :
      ServerMoves start stop s { s with
        reads := s.reads ++ [0]
        report := some (.time (elapsed start stop)) }

theorem count_of_pos (hserver : server.Sound) {n : ℤ} (hn : n > 0) :
    s.count server start stop n = { s with totalBytesRead := s.totalBytesRead + n } := by
  rw [Transfer.count, hserver.again n hn]

theorem count_zero (hserver : server.Sound) :
    s.count server start stop 0 = { s with report := some (.time (elapsed start stop)) } := by
  rw [Transfer.count, hserver.ends]
  simp only [hserver.passes, Bool.false_eq_true, if_false]

theorem serverMoves_of_step (hserver : server.Sound) {bytesRead : ℤ} (herror : bytesRead ≠ -1)
    (h : s.serverStep server start stop bytesRead = some s') : ServerMoves start stop s s' := by
  unfold Transfer.serverStep at h
  split_ifs at h with hrunning
  rw [not_not] at hrunning
  obtain ⟨connection, hrecv, rfl⟩ := Option.map_eq_some_iff.mp h
  rw [Transfer.recv, if_neg herror] at hrecv
  split_ifs at hrecv with hzero hend hcount
  · cases hrecv
    subst hzero
    rw [count_zero hserver]
    exact .reports hrunning hend.1 hend.2
  · obtain ⟨⟨bytes, connection'⟩, hread, rfl⟩ := Option.map_eq_some_iff.mp hrecv
    obtain ⟨n, rfl⟩ := Int.eq_ofNat_of_zero_le (Int.le_of_lt hcount.1)
    rw [count_of_pos hserver hcount.1]
    exact .receives hrunning hread

/-! ## The invariant -/

/-- The client on calls of which none has failed, and one more. -/
theorem run_concat {calls : List (List UInt8 × ℤ)} (hcalls : ∀ call ∈ calls, ¬c.Fails call)
    (last : List UInt8 × ℤ) (hlast : c.Fails last) :
    c.run (calls ++ [last]) = (((calls ++ [last]).map c.accepted).flatten, c.onFailure) := by
  induction calls with
  | nil =>
    rw [List.nil_append, run_cons, if_pos hlast]
    simp
  | cons call calls ih =>
    rw [List.forall_mem_cons] at hcalls
    rw [List.cons_append, run_cons, if_neg hcalls.1, ih hcalls.2]
    simp

/-- The invariant of the client's side: what is on the connection is what its calls have
    had accepted. -/
structure ClientInv (c : FileClient) (file : List UInt8) (s : Transfer) : Prop where
  chunks : s.calls.map Prod.fst ++ s.unread = c.read file
  valid : Possible c.argument s.calls
  sent : s.connection.put = (s.calls.map c.accepted).flatten
  passed : s.ending = none → ∀ call ∈ s.calls, ¬c.Fails call
  ended : ∀ e, s.ending = some e → c.run s.calls = (s.connection.put, e)

/-- The invariant of the server's side, as long as `recv` does not fail. -/
structure ServerInv (start stop : Timeval) (s : Transfer) : Prop where
  counted : s.totalBytesRead = s.connection.taken.length
  reported : s.report ≠ none → s.report = some (.time (elapsed start stop)) ∧
    s.connection.items = [] ∧ s.ending ≠ none

theorem clientInv_client (h : ClientMoves c s s') (hinv : ClientInv c file s) :
    ClientInv c file s' := by
  obtain ⟨hchunks, hvalid, hsent, hpassed, -⟩ := hinv
  have hlast : ∀ {call}, ValidResult (c.argument call.1).length call.2 →
      Possible c.argument (s.calls ++ [call]) := by
    intro call hcall x hx
    rcases List.mem_append.mp hx with hx | hx
    · exact hvalid x hx
    · rw [List.mem_singleton.mp hx]
      exact hcall
  cases h with
  | returns hopen hunread =>
    refine ⟨hchunks, hvalid, hsent, nofun, ?_⟩
    rintro e ⟨⟩
    rw [run_of_not_failed fun call hcall hw hf => hpassed hopen call hcall ⟨hw, hf⟩, hsent]
  | @calls chunk unread result hopen hunread hresult hok =>
    refine ⟨?_, hlast hresult, ?_, fun _ => ?_, nofun⟩
    · rw [← hchunks, hunread]
      simp
    · rw [Fifo.write_put, hsent]
      simp
    · intro call hcall
      rcases List.mem_append.mp hcall with hcall | hcall
      · exact hpassed hopen call hcall
      · rw [List.mem_singleton.mp hcall]
        exact hok
  | @fails chunk unread result hopen hunread hresult hfails =>
    have hput : (s.connection.write (c.accepted (chunk, result))).put =
        ((s.calls ++ [(chunk, result)]).map c.accepted).flatten := by
      rw [Fifo.write_put, hsent]
      simp
    refine ⟨?_, hlast hresult, hput, nofun, ?_⟩
    · rw [← hchunks, hunread]
      simp
    · rintro e ⟨⟩
      rw [run_concat (hpassed hopen) _ hfails, hput]

theorem clientInv_server (h : ServerMoves start stop s s') (hinv : ClientInv c file s) :
    ClientInv c file s' := by
  obtain ⟨hchunks, hvalid, hsent, hpassed, hended⟩ := hinv
  cases h with
  | receives _ hread =>
    obtain ⟨-, -, -, hput, -⟩ := Fifo.read_eq_some hread
    refine ⟨hchunks, hvalid, ?_, hpassed, ?_⟩
    · rw [hput, hsent]
    · rw [hput]
      exact hended
  | reports _ _ _ => exact ⟨hchunks, hvalid, hsent, hpassed, hended⟩

theorem serverInv_client (h : ClientMoves c s s') (hinv : ServerInv start stop s) :
    ServerInv start stop s' := by
  obtain ⟨hcounted, hreported⟩ := hinv
  have hopen : s.ending = none := by
    cases h with
    | returns hopen _ | calls hopen _ _ _ | fails hopen _ _ _ => exact hopen
  have hrunning : s.report = none := by
    by_contra hne
    exact (hreported hne).2.2 hopen
  cases h with
  | returns _ _ | calls _ _ _ _ | fails _ _ _ _ =>
    exact ⟨hcounted, fun hne => absurd hrunning hne⟩

theorem serverInv_server (h : ServerMoves start stop s s') (hinv : ServerInv start stop s) :
    ServerInv start stop s' := by
  obtain ⟨hcounted, -⟩ := hinv
  cases h with
  | receives hrunning hread =>
    obtain ⟨-, hlen, -, -, htaken⟩ := Fifo.read_eq_some hread
    refine ⟨?_, fun hne => absurd hrunning hne⟩
    rw [hcounted, htaken, List.length_append, hlen, Int.natCast_add]
  | reports hrunning hitems hclosed => exact ⟨hcounted, fun _ => ⟨rfl, hitems, hclosed⟩⟩

/-! ## The end of a transfer -/

/-- `recv` does not return `-1`. -/
def NoRecvError : TransferMove → Transfer → Prop
  | .client _, _ => True
  | .server bytesRead, _ => bytesRead ≠ -1

/-- The end of a transfer: what the client has done is what `FileClient.run` says of its
    calls, the server has counted what they have had accepted, and that is the file if and
    only if every chunk was sent, unchanged and accepted as a whole. -/
structure Carried (c : FileClient) (file : List UInt8) (start stop : Timeval) (s : Transfer) :
    Prop where
  client : s.ending = some (c.run s.calls).2
  time : s.report = some (.time (elapsed start stop))
  received : s.connection.taken = (c.run s.calls).1
  counted : s.totalBytesRead = (c.run s.calls).1.length
  complete : s.connection.taken = file ↔
    s.calls.map Prod.fst = c.read file ∧ ∀ call ∈ s.calls, Whole c call

/-- The two invariants together. -/
theorem transferInv_reach (hserver : server.Sound)
    (h : (transfer c server file start stop).Reach NoRecvError s) :
    ClientInv c file s ∧ ServerInv start stop s := by
  apply h.invariant
  · exact ⟨⟨rfl, nofun, rfl, nofun, nofun⟩, ⟨rfl, fun hne => absurd rfl hne⟩⟩
  · rintro move s s' hok ⟨hclient, hserving⟩ hstep
    cases move with
    | client result =>
      have hmoves := clientMoves_of_step hstep
      exact ⟨clientInv_client hmoves hclient, serverInv_client hmoves hserving⟩
    | server bytesRead =>
      have hmoves := serverMoves_of_step hserver hok hstep
      exact ⟨clientInv_server hmoves hclient, serverInv_server hmoves hserving⟩

/-- The steps that are left, and the bytes that are read and not yet received. -/
def Transfer.work (s : Transfer) : ℕ :=
  s.unread.flatten.length + s.unread.length + (if s.ending = none then 1 else 0) +
    s.connection.items.length + if s.report = none then 1 else 0

theorem work_client (hc : c.Honest) (h : ClientMoves c s s') : s'.work < s.work := by
  have haccepted : ∀ call, (c.accepted call).length ≤ call.1.length :=
    fun call => (hc.accepted_isPrefix call).length_le
  cases h with
  | returns hopen hunread =>
    simp only [Transfer.work, hopen, hunread]
    simp
  | @calls chunk unread result hopen hunread _ _ =>
    have hle : (c.accepted (chunk, result)).length ≤ chunk.length := haccepted _
    simp only [Transfer.work, hopen, hunread, Fifo.write_items, List.flatten_cons,
      List.length_append, List.length_cons, if_true]
    omega
  | @fails chunk unread result hopen hunread _ _ =>
    have hle : (c.accepted (chunk, result)).length ≤ chunk.length := haccepted _
    simp only [Transfer.work, hopen, hunread, Fifo.write_items, List.flatten_cons,
      List.length_append, List.length_cons, reduceCtorEq, if_false, if_true]
    omega

theorem work_server (h : ServerMoves start stop s s') : s'.work < s.work := by
  cases h with
  | receives hrunning hread =>
    obtain ⟨hpos, hlen, hitems, -⟩ := Fifo.read_eq_some hread
    simp only [Transfer.work, hitems, List.length_append]
    omega
  | reports hrunning hitems hclosed =>
    simp [Transfer.work, hrunning]

/-- A client that is not done has a step. -/
theorem exists_clientStep (hopen : s.ending = none) :
    ∃ result s', s.clientStep c result = some s' := by
  cases hunread : s.unread with
  | nil =>
    refine ⟨0, ?_⟩
    rw [Transfer.clientStep, if_neg (not_not.mpr hopen), hunread]
    exact ⟨_, rfl⟩
  | cons chunk unread =>
    have hvalid : ValidResult (c.argument chunk).length (-1) := .inl rfl
    refine ⟨-1, ?_⟩
    rw [Transfer.clientStep, if_neg (not_not.mpr hopen), hunread]
    dsimp only
    rw [if_pos hvalid]
    exact ⟨_, rfl⟩

/-- A server that is not done has a step once its client is. -/
theorem exists_serverStep (server : StreamServer) (start stop : Timeval)
    (hrunning : s.report = none) (hclosed : s.ending ≠ none) :
    ∃ bytesRead s', bytesRead ≠ -1 ∧ s.serverStep server start stop bytesRead = some s' := by
  by_cases hitems : s.connection.items = []
  · refine ⟨0, ?_⟩
    rw [Transfer.serverStep, if_neg (not_not.mpr hrunning), Transfer.recv, if_neg (by decide),
      if_pos rfl, if_pos ⟨hitems, hclosed⟩]
    exact ⟨_, by decide, rfl⟩
  · obtain ⟨bytes, connection, hread⟩ := Fifo.exists_read (q := s.connection) Nat.one_pos
      (List.length_pos_iff.mpr hitems)
    refine ⟨1, ?_⟩
    rw [Transfer.serverStep, if_neg (not_not.mpr hrunning), Transfer.recv, if_neg (by decide),
      if_neg (by decide), if_pos (by decide), Int.toNat_one, hread]
    exact ⟨_, by decide, rfl⟩

/-- Nothing is missing of the file if and only if nothing is missing of any chunk. -/
theorem ClientInv.complete_iff (hc : c.Honest) (hread : (c.read file).flatten = file)
    (hne : [] ∉ c.read file) (hinv : ClientInv c file s) :
    s.connection.put = file ↔
      s.calls.map Prod.fst = c.read file ∧ ∀ call ∈ s.calls, Whole c call := by
  have hchunk : ∀ call ∈ s.calls, call.1 ≠ [] := by
    intro call hcall hnil
    apply hne
    rw [← hinv.chunks, ← hnil]
    exact List.mem_append_left _ (List.mem_map_of_mem hcall)
  have hpass : ∀ call ∈ s.calls, c.accepted call = call.1 ↔ Whole c call := by
    intro call hcall
    by_cases hfail : call.2 = -1
    · have hnone : c.accepted call = [] := by
        rw [FileClient.accepted, hfail]
        split_ifs
        · rfl
        · rfl
      have hwrites : c.writes call.1 = true := by
        by_contra hskip
        exact hchunk call hcall (hc.skipped _ hskip)
      rw [hnone]
      refine iff_of_false (fun hnil => hchunk call hcall hnil.symm) fun hwhole => ?_
      have hresult := (hwhole hwrites).1
      omega
    · exact hc.accepted_eq_iff (hinv.valid call hcall) fun _ => hfail
  have hfile : (s.calls.map Prod.fst).flatten ++ s.unread.flatten = file := by
    rw [← List.flatten_append, hinv.chunks, hread]
  have hwhole : (s.calls.map c.accepted).flatten = (s.calls.map Prod.fst).flatten ↔
      ∀ call ∈ s.calls, Whole c call := by
    rw [flatten_map_eq_iff fun call _ => hc.accepted_isPrefix call]
    exact forall₂_congr hpass
  rw [hinv.sent, ← hinv.chunks]
  constructor
  · intro heq
    have hle := length_flatten_map_le fun call (_ : call ∈ s.calls) => hc.accepted_isPrefix call
    have htotal := congrArg List.length (heq.trans hfile.symm)
    rw [List.length_append] at htotal
    have hrest : s.unread.flatten = [] := List.eq_nil_of_length_eq_zero (by omega)
    have hunread : s.unread = [] := by
      by_contra hsome
      obtain ⟨chunk, hmem⟩ := List.exists_mem_of_ne_nil _ hsome
      apply hne
      rw [← hinv.chunks, ← List.flatten_eq_nil_iff.mp hrest chunk hmem]
      exact List.mem_append_right _ hmem
    rw [hrest, List.append_nil] at hfile
    exact ⟨by rw [hunread, List.append_nil], hwhole.mp (heq.trans hfile.symm)⟩
  · rintro ⟨hall, hcalls⟩
    rw [List.self_eq_append_right] at hall
    rw [hall, List.flatten_nil, List.append_nil] at hfile
    exact (hwhole.mpr hcalls).trans hfile

/-- A server that has no step any more, of a client that is done, has reported a time. -/
theorem reported_of_stuck (hserving : ServerInv start stop s) (hclosed : s.ending ≠ none)
    (hreads : ∀ bytesRead ≠ -1, s.serverStep server start stop bytesRead = none) :
    s.report = some (.time (elapsed start stop)) ∧ s.connection.taken = s.connection.put := by
  have hdone : s.report ≠ none := by
    intro hrunning
    obtain ⟨bytesRead, s', hok, hstep⟩ := exists_serverStep server start stop hrunning hclosed
    rw [hreads bytesRead hok] at hstep
    cases hstep
  obtain ⟨htime, hitems, -⟩ := hserving.reported hdone
  have htaken := s.connection.balanced
  rw [hitems, List.append_nil] at htaken
  exact ⟨htime, htaken⟩

/-- Where neither side has a step, the file has been carried. -/
theorem carried_of_stuck (hc : c.Honest) (hread : (c.read file).flatten = file)
    (hne : [] ∉ c.read file) (hclient : ClientInv c file s) (hserving : ServerInv start stop s)
    (hcalls : ∀ result, s.clientStep c result = none)
    (hreads : ∀ bytesRead ≠ -1, s.serverStep server start stop bytesRead = none) :
    Carried c file start stop s := by
  have hclosed : s.ending ≠ none := by
    intro hopen
    obtain ⟨result, s', hstep⟩ := exists_clientStep (c := c) hopen
    rw [hcalls result] at hstep
    cases hstep
  obtain ⟨e, he⟩ := Option.ne_none_iff_exists'.mp hclosed
  obtain ⟨htime, htaken⟩ := reported_of_stuck hserving hclosed hreads
  have hrun := hclient.ended e he
  constructor
  · rw [he, hrun]
  · exact htime
  · rw [htaken, hrun]
  · rw [hserving.counted, htaken, hrun]
  · rw [htaken]
    exact hclient.complete_iff hc hread hne

/-- A transfer by a client that leaves nothing of the file out when all goes well, and a
    server that counts what it receives. -/
theorem carried_alwaysEnds (hc : c.Honest) (hserver : server.Sound)
    (hread : (c.read file).flatten = file) (hne : [] ∉ c.read file) :
    (transfer c server file start stop).AlwaysEnds NoRecvError (Carried c file start stop) := by
  apply System.alwaysEnds_of_measure Transfer.work
    (fun s hs => transferInv_reach hserver hs)
  · intro move s s' hok _ hstep
    cases move with
    | client result => exact work_client hc (clientMoves_of_step hstep)
    | server bytesRead => exact work_server (serverMoves_of_step hserver hok hstep)
  · rintro s ⟨hclient, hserving⟩ hstuck
    apply carried_of_stuck hc hread hne hclient hserving
    · exact fun result => hstuck (.client result) trivial
    · exact fun bytesRead hok => hstuck (.server bytesRead) hok

/-! ## The three pairs -/

theorem sound_sIpv4Tcp : sIpv4Tcp.Sound := ⟨sIpv4Tcp_again, rfl, rfl⟩

theorem sound_sIpv6Tcp : sIpv6Tcp.Sound := ⟨sIpv6Tcp_again, rfl, rfl⟩

theorem sound_sUdsStream : sUdsStream.Sound := ⟨sUdsStream_again, rfl, rfl⟩

/-- **File transfers over streams.** For every file, every outcome of the calls of `send`
    and every way `recv` cuts the stream. -/
theorem transfers_end (file : List UInt8) (start stop : Timeval) :
    (transfer cIpv4Tcp sIpv4Tcp file start stop).AlwaysEnds NoRecvError
        (Carried cIpv4Tcp file start stop) ∧
      (transfer cIpv6Tcp sIpv6Tcp file start stop).AlwaysEnds NoRecvError
        (Carried cIpv6Tcp file start stop) ∧
      (transfer cUdsStream sUdsStream file start stop).AlwaysEnds NoRecvError
        (Carried cUdsStream file start stop) := by
  have hlines : (readLines file).flatten = file := flatten_lines newline (by decide) file
  have hchunks : (readChunks file).flatten = file := flatten_chunks (by decide) file
  have hline : [] ∉ readLines file := nil_notMem_lines newline (by decide) file
  have hchunk : [] ∉ readChunks file := nil_notMem_chunksUpTo file.length file
  refine ⟨?_, ?_, ?_⟩
  · exact carried_alwaysEnds (honest_of_argument lineDatagram_isPrefix) sound_sIpv4Tcp hlines hline
  · exact carried_alwaysEnds (honest_of_argument List.prefix_refl) sound_sIpv6Tcp hchunks hchunk
  · exact carried_alwaysEnds (honest_of_argument lineDatagram_isPrefix) sound_sUdsStream hlines
      hline

end ChatOnC.FileTransfer
