import ChatOnC.Handshake.Model

/-!
# Agreement after the handshake

The two strings carry no length and nothing separates them in the stream, so
what the server puts into its two buffers depends on how the stream is cut.

* `agree_iff`: the server ends up with the two strings of the client, and both
  sides with the same transfer, exactly when its two calls of `recv` return the
  two lengths.
* `merged_handshake`: both strings arriving together, the server rejects a
  transfer the client has selected.
-/

namespace ChatOnC.Handshake

open ChatOnC.Common

/-- The server has the strings of the client, and a client that has selected has
    selected the other side of the same transfer. -/
structure Agree (type param : Arg) (transfer : Option ServerTransfer) (s : State) : Prop where
  type_eq : cString (s.buffer 0) = type.bytes
  param_eq : cString (s.buffer 1) = param.bytes
  peer_eq : ∀ t, s.client = .selected t → transfer = t.map ClientTransfer.peer

/-! ## The two tables -/

theorem select_map {α β : Type*} (f : α → β) (table : List (String × String × α))
    (type param : List UInt8) :
    select (table.map fun (t, p, transfer) => (t, p, f transfer)) type param =
      (select table type param).map f := by
  induction table with
  | nil => rfl
  | cons row rest ih =>
    obtain ⟨t, p, transfer⟩ := row
    rw [List.map_cons, select, select]
    split_ifs
    · rfl
    · exact ih

/-- Given the same strings, both sides select the same transfer. -/
theorem select_peer (type param : List UInt8) :
    select serverTable type param = (select clientTable type param).map ClientTransfer.peer :=
  select_map ClientTransfer.peer clientTable type param

/-! ## The stream -/

/-- What the client has still to send. -/
def unsent (type param : Arg) : ClientPc → List UInt8
  | .sendType => type.bytes ++ param.bytes
  | .sendParam => param.bytes
  | _ => []

/-- What the server has received. -/
def received (s : State) : List UInt8 :=
  match s.server with
  | .recvType => []
  | .recvParam => cString (s.buffer 0)
  | _ => cString (s.buffer 0) ++ cString (s.buffer 1)

/-- The lengths of what the server has received. -/
def receivedCounts (s : State) : List ℕ :=
  match s.server with
  | .recvType => []
  | .recvParam => [(cString (s.buffer 0)).length]
  | _ => [(cString (s.buffer 0)).length, (cString (s.buffer 1)).length]

structure Inv (type param : Arg) (s : State) : Prop where
  stream : received s ++ s.arrived ++ s.inTransit ++ unsent type param s.client =
    type.bytes ++ param.bytes
  counts : s.counts = receivedCounts s
  clientSelected : ∀ t, s.client = .selected t → t = select clientTable type.bytes param.bytes
  serverSelected : ∀ t, s.server = .selected t →
    t = select serverTable (cString (s.buffer 0)) (cString (s.buffer 1))

variable {type param : Arg} {s s' : State}

theorem inv_init (stack : ℕ → Fin bufferSize → UInt8) :
    Inv type param (system type param stack).init where
  stream := rfl
  counts := rfl
  clientSelected := by
    intro t h
    cases h
  serverSelected := by
    intro t h
    cases h

/-- The client moves bytes from what it has to send to the network. -/
theorem Inv.clientMove (hinv : Inv type param s) {pc : ClientPc} {inTransit : List UInt8}
    {closed : Bool}
    (hsent : s.inTransit ++ unsent type param s.client = inTransit ++ unsent type param pc)
    (hselected : ∀ t, pc = .selected t → t = select clientTable type.bytes param.bytes) :
    Inv type param { s with client := pc, inTransit := inTransit, closed := closed } where
  stream := by
    show received s ++ s.arrived ++ inTransit ++ unsent type param pc = _
    rw [List.append_assoc, ← hsent, ← List.append_assoc]
    exact hinv.stream
  counts := hinv.counts
  clientSelected := hselected
  serverSelected := hinv.serverSelected

/-- Every step of the client is such a move. -/
theorem inv_client (hinv : Inv type param s) (h : clientStep type param s = some s') :
    Inv type param s' := by
  unfold clientStep at h
  split at h <;> rename_i hpc
  · cases h
    exact hinv.clientMove (by simp [hpc, unsent]) (by simp)
  · cases h
    exact hinv.clientMove (by simp [hpc, unsent]) (by simp)
  · cases h
    exact hinv.clientMove (by simp [hpc, unsent]) (by simp)
  · cases h
    exact hinv.clientMove (by simp [hpc, unsent]) (by simp)
  · cases h

theorem inv_deliver {n : ℕ} (hinv : Inv type param s) (h : deliverStep n s = some s') :
    Inv type param s' := by
  obtain ⟨hn, h⟩ := Option.ite_none_right_eq_some.mp h
  cases h
  obtain ⟨hstream, hcounts, hclient, hserver⟩ := hinv
  refine ⟨?_, hcounts, hclient, hserver⟩
  show received s ++ (s.arrived ++ s.inTransit.take n) ++ s.inTransit.drop n ++ _ = _
  rw [← hstream]
  simp

/-- `recv` and its terminator leave the bytes received as the string in the
    buffer. -/
theorem cString_recvInto {n : ℕ} (buf : List UInt8) {chunk : List UInt8} (hlen : chunk.length = n)
    (hzero : 0 ∉ chunk) : cString (overwrite (overwrite buf 0 chunk) n [0]) = chunk := by
  subst hlen
  rw [overwrite_overwrite, overwrite_zero, List.append_assoc, List.singleton_append]
  exact cString_append_zero hzero _

theorem recvInto_eq_some {i n : ℕ} {next : ServerPc} (hinv : Inv type param s)
    (h : recvInto i n next s = some s') :
    s'.server = next ∧ s'.client = s.client ∧ s'.inTransit = s.inTransit ∧
      s.arrived = cString (s'.buffer i) ++ s'.arrived ∧
      s'.counts = s.counts ++ [(cString (s'.buffer i)).length] ∧
      ∀ j, j ≠ i → s'.buffer j = s.buffer j := by
  obtain ⟨hn, h⟩ := Option.ite_none_right_eq_some.mp h
  cases h
  have hle : n ≤ s.arrived.length := by
    rcases hn with ⟨-, -, hle⟩ | ⟨rfl, -, -⟩
    · exact hle
    · exact Nat.zero_le _
  have hlen : (s.arrived.take n).length = n := List.length_take_of_le hle
  have hzero : (0 : UInt8) ∉ s.arrived.take n := by
    intro hmem
    have hstream : (0 : UInt8) ∈ type.bytes ++ param.bytes := by
      rw [← hinv.stream]
      simp [List.mem_of_mem_take hmem]
    rcases List.mem_append.mp hstream with h | h
    · exact type.zero_notMem h
    · exact param.zero_notMem h
  have hbuf := cString_recvInto (s.buffer i) hlen hzero
  refine ⟨rfl, rfl, rfl, ?_, ?_, fun j hj => Function.update_of_ne hj _ _⟩
  · simp only [Function.update_self]
    rw [hbuf, List.take_append_drop]
  · simp only [Function.update_self]
    rw [hbuf, hlen]

theorem inv_recv {n : ℕ} (hinv : Inv type param s) (h : recvStep n s = some s') :
    Inv type param s' := by
  unfold recvStep at h
  split at h <;> rename_i hpc
  · obtain ⟨hserver, hclient, htransit, harrived, hcounts, hbuf⟩ := recvInto_eq_some hinv h
    obtain ⟨hstream, hcounts0, hsel, -⟩ := hinv
    refine ⟨?_, ?_, ?_, ?_⟩
    · rw [received, hpc, harrived] at hstream
      rw [received, hserver, hclient, htransit]
      simpa using hstream
    · rw [hcounts, hcounts0, receivedCounts, receivedCounts, hpc, hserver]
      rfl
    · rw [hclient]
      exact hsel
    · intro t ht
      rw [hserver] at ht
      cases ht
  · obtain ⟨hserver, hclient, htransit, harrived, hcounts, hbuf⟩ := recvInto_eq_some hinv h
    obtain ⟨hstream, hcounts0, hsel, -⟩ := hinv
    have hbuf0 := hbuf 0 (by omega)
    refine ⟨?_, ?_, ?_, ?_⟩
    · rw [received, hpc, harrived] at hstream
      rw [received, hserver, hclient, htransit, hbuf0]
      simpa using hstream
    · rw [hcounts, hcounts0, receivedCounts, receivedCounts, hpc, hserver, hbuf0]
      rfl
    · rw [hclient]
      exact hsel
    · intro t ht
      rw [hserver] at ht
      cases ht
  · cases h

theorem inv_step {stack : ℕ → Fin bufferSize → UInt8} {a : Label} (hinv : Inv type param s)
    (h : (system type param stack).step a s = some s') : Inv type param s' := by
  cases a with
  | client => exact inv_client hinv h
  | deliver n => exact inv_deliver hinv h
  | deliverEnd =>
    obtain ⟨-, h⟩ := Option.ite_none_right_eq_some.mp h
    cases h
    obtain ⟨hstream, hcounts, hclient, hserver⟩ := hinv
    exact ⟨hstream, hcounts, hclient, hserver⟩
  | recv n => exact inv_recv hinv h
  | serverSelect =>
    change serverSelectStep s = some s' at h
    unfold serverSelectStep at h
    split at h <;> rename_i hpc
    · cases h
      obtain ⟨hstream, hcounts, hclient, hserver⟩ := hinv
      rw [received, hpc] at hstream
      rw [receivedCounts, hpc] at hcounts
      refine ⟨hstream, hcounts, hclient, ?_⟩
      intro t ht
      cases ht
      rfl
    · cases h

theorem inv_reachable {stack : ℕ → Fin bufferSize → UInt8}
    (h : (system type param stack).Reachable s) : Inv type param s :=
  h.invariant (inv_init stack) fun _ _ _ _ hinv hstep => inv_step hinv hstep

/-- Under every delivery of the stream and every interleaving, a server that has
    selected has the strings of the client, and both sides agree, if and only if
    the first `recv` returned the length of the first string and the second one
    that of the second. -/
theorem agree_iff {stack : ℕ → Fin bufferSize → UInt8} {transfer : Option ServerTransfer}
    (h : (system type param stack).Reachable s) (hsel : s.server = .selected transfer) :
    Agree type param transfer s ↔ s.counts = [type.bytes.length, param.bytes.length] := by
  have hinv := inv_reachable h
  have hcounts := hinv.counts
  rw [receivedCounts, hsel] at hcounts
  constructor
  · rintro ⟨htype, hparam, -⟩
    rw [hcounts, htype, hparam]
  · intro hlens
    rw [hcounts] at hlens
    simp only [List.cons.injEq, and_true] at hlens
    have hstream := hinv.stream
    rw [received, hsel] at hstream
    simp only [List.append_assoc] at hstream
    obtain ⟨htype, hrest⟩ := List.append_inj hstream hlens.1
    have hparam : cString (s.buffer 1) = param.bytes := by
      have hlen := congrArg List.length hrest
      simp only [List.length_append] at hlen
      rw [show s.arrived ++ (s.inTransit ++ unsent type param s.client) = [] by
        apply List.eq_nil_of_length_eq_zero
        simp only [List.length_append]
        omega, List.append_nil] at hrest
      exact hrest
    refine ⟨htype, hparam, fun t ht => ?_⟩
    rw [hinv.serverSelected transfer hsel, hinv.clientSelected t ht, htype, hparam]
    exact select_peer _ _

/-- The argument `ipv4`. -/
def ipv4 : Arg := ⟨ascii "ipv4", by decide, by decide, by decide⟩

/-- The argument `tcp`. -/
def tcp : Arg := ⟨ascii "tcp", by decide, by decide, by decide⟩

/-- Each string arrives before the next one is sent. -/
def separateRun : List Label :=
  [.client, .deliver 4, .recv 4, .client, .deliver 3, .recv 3, .serverSelect, .client, .client]

theorem agree_separateRun :
    ∃ s, (system ipv4 tcp fun _ _ => 0).exec separateRun (system ipv4 tcp fun _ _ => 0).init =
        some s ∧ s.client = .selected (some .c_ipv4_tcp) ∧ Agree ipv4 tcp (some .s_ipv4_tcp) s := by
  obtain ⟨s, hs, hclient, hserver, hcounts⟩ :
      ∃ s, (system ipv4 tcp fun _ _ => 0).exec separateRun (system ipv4 tcp fun _ _ => 0).init =
        some s ∧ s.client = .selected (some .c_ipv4_tcp) ∧
        s.server = .selected (some .s_ipv4_tcp) ∧ s.counts = [4, 3] := ⟨_, rfl, rfl, rfl, rfl⟩
  exact ⟨s, hs, hclient, (agree_iff (.of_exec hs) hserver).mpr hcounts⟩

/-- Both strings arrive before the first `recv`. -/
def mergedRun : List Label :=
  [.client, .client, .client, .deliver 7, .deliverEnd, .recv 7, .recv 0, .serverSelect, .client]

/-- In that run the server rejects while the client has selected `c_ipv4_tcp`. -/
theorem merged_handshake :
    ¬ ∀ transfer s, (system ipv4 tcp fun _ _ => 0).Reachable s → s.server = .selected transfer →
      Agree ipv4 tcp transfer s := by
  intro hall
  obtain ⟨s, hs, hclient, hserver⟩ :
      ∃ s, (system ipv4 tcp fun _ _ => 0).exec mergedRun (system ipv4 tcp fun _ _ => 0).init =
        some s ∧ s.client = .selected (some .c_ipv4_tcp) ∧ s.server = .selected none :=
    ⟨_, rfl, rfl, rfl⟩
  have hpeer := (hall none s (.of_exec hs) hserver).peer_eq _ hclient
  cases hpeer

end ChatOnC.Handshake
