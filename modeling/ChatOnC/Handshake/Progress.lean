import ChatOnC.Common.Termination
import ChatOnC.Handshake.Segmentation

/-!
# The handshake ends

* `shake_of_step`: what a step of the handshake does, listed once.
* `handshakeLeft_shake`: every step leaves less to do, if the end of the stream arrives once.
* `handshake_steps`: until both sides have selected, some step can be taken.
-/

namespace ChatOnC.Handshake

open ChatOnC.Common

variable {type param : Arg} {stack : ℕ → Fin bufferSize → UInt8} {h h' : State} {label : Label}

/-- What a step of the handshake does, apart from the buffers. -/
inductive Shake (type param : Arg) (h : State) : Label → State → Prop
  | sendType (hpc : h.client = .sendType) : Shake type param h .client
      { h with client := .sendParam, inTransit := h.inTransit ++ type.bytes }
  | sendParam (hpc : h.client = .sendParam) : Shake type param h .client
      { h with client := .close, inTransit := h.inTransit ++ param.bytes }
  | close (hpc : h.client = .close) :
      Shake type param h .client { h with client := .select, closed := true }
  | select (hpc : h.client = .select) (transfer : Option ClientTransfer) :
      Shake type param h .client { h with client := .selected transfer }
  | deliver {n : ℕ} (hpos : 0 < n) (hle : n ≤ h.inTransit.length) : Shake type param h (.deliver n)
      { h with inTransit := h.inTransit.drop n, arrived := h.arrived ++ h.inTransit.take n }
  | deliverEnd : Shake type param h .deliverEnd { h with endArrived := true }
  | recvType {n : ℕ} (hpc : h.server = .recvType) (arrived : List UInt8)
      (buffer : ℕ → List UInt8) (counts : List ℕ) : Shake type param h (.recv n)
      { h with server := .recvParam, arrived := arrived, buffer := buffer, counts := counts }
  | recvParam {n : ℕ} (hpc : h.server = .recvParam) (arrived : List UInt8)
      (buffer : ℕ → List UInt8) (counts : List ℕ) : Shake type param h (.recv n)
      { h with server := .select, arrived := arrived, buffer := buffer, counts := counts }
  | serverSelect (hpc : h.server = .select) (transfer : Option ServerTransfer) :
      Shake type param h .serverSelect { h with server := .selected transfer }

theorem shake_of_step (hstep : (system type param stack).step label h = some h') :
    Shake type param h label h' := by
  cases label with
  | client =>
    change clientStep type param h = some h' at hstep
    unfold clientStep at hstep
    split at hstep <;> rename_i hpc
    · cases hstep
      exact .sendType hpc
    · cases hstep
      exact .sendParam hpc
    · cases hstep
      exact .close hpc
    · cases hstep
      exact .select hpc _
    · cases hstep
  | deliver n =>
    obtain ⟨⟨hpos, hle⟩, hstep⟩ := Option.ite_none_right_eq_some.mp hstep
    cases hstep
    exact .deliver hpos hle
  | deliverEnd =>
    obtain ⟨-, hstep⟩ := Option.ite_none_right_eq_some.mp hstep
    cases hstep
    exact .deliverEnd
  | recv n =>
    change recvStep n h = some h' at hstep
    unfold recvStep at hstep
    split at hstep <;> rename_i hpc
    · obtain ⟨-, hstep⟩ := Option.ite_none_right_eq_some.mp hstep
      cases hstep
      exact .recvType hpc _ _ _
    · obtain ⟨-, hstep⟩ := Option.ite_none_right_eq_some.mp hstep
      cases hstep
      exact .recvParam hpc _ _ _
    · cases hstep
  | serverSelect =>
    change serverSelectStep h = some h' at hstep
    unfold serverSelectStep at hstep
    split at hstep <;> rename_i hpc
    · cases hstep
      exact .serverSelect hpc _
    · cases hstep

/-- A side that has selected stays there. -/
theorem selected_shake (hshake : Shake type param h label h') :
    (∀ t, h.client = .selected t → h'.client = .selected t) ∧
      (∀ t, h.server = .selected t → h'.server = .selected t) := by
  cases hshake with
  | deliver hpos hle => exact ⟨fun t ht => ht, fun t ht => ht⟩
  | deliverEnd => exact ⟨fun t ht => ht, fun t ht => ht⟩
  | recvType hpc _ _ _ => exact ⟨fun t ht => ht, fun t ht => (nomatch hpc.symm.trans ht)⟩
  | recvParam hpc _ _ _ => exact ⟨fun t ht => ht, fun t ht => (nomatch hpc.symm.trans ht)⟩
  | serverSelect hpc _ => exact ⟨fun t ht => ht, fun t ht => (nomatch hpc.symm.trans ht)⟩
  | sendType hpc => exact ⟨fun t ht => (nomatch hpc.symm.trans ht), fun t ht => ht⟩
  | sendParam hpc => exact ⟨fun t ht => (nomatch hpc.symm.trans ht), fun t ht => ht⟩
  | close hpc => exact ⟨fun t ht => (nomatch hpc.symm.trans ht), fun t ht => ht⟩
  | select hpc _ => exact ⟨fun t ht => (nomatch hpc.symm.trans ht), fun t ht => ht⟩

def ClientPc.left : ClientPc → ℕ
  | .sendType => 4
  | .sendParam => 3
  | .close => 2
  | .select => 1
  | .selected _ => 0

def ServerPc.left : ServerPc → ℕ
  | .recvType => 3
  | .recvParam => 2
  | .select => 1
  | .selected _ => 0

/-- The steps that are left in the handshake, at most: those of the two sides, and one for each byte
    and for the end of the stream to arrive. -/
def handshakeLeft (type param : Arg) (h : State) : ℕ :=
  h.client.left + (h.inTransit.length + (unsent type param h.client).length) + h.server.left +
    if h.endArrived then 0 else 1

theorem handshakeLeft_shake (hshake : Shake type param h label h')
    (hlabel : label = .deliverEnd → h.endArrived = false) :
    handshakeLeft type param h' < handshakeLeft type param h := by
  unfold handshakeLeft
  cases hshake with
  | sendType hpc =>
    rw [hpc]
    simp only [ClientPc.left, unsent, List.length_append]
    omega
  | sendParam hpc =>
    rw [hpc]
    simp only [ClientPc.left, unsent, List.length_append, List.length_nil]
    omega
  | close hpc =>
    rw [hpc]
    simp only [ClientPc.left, unsent]
    omega
  | select hpc _ =>
    rw [hpc]
    simp only [ClientPc.left, unsent]
    omega
  | deliver hpos hle =>
    simp only [List.length_drop]
    omega
  | deliverEnd =>
    rw [hlabel rfl]
    exact Nat.lt_succ_self _
  | recvType hpc _ _ _ =>
    rw [hpc]
    simp only [ServerPc.left]
    omega
  | recvParam hpc _ _ _ =>
    rw [hpc]
    simp only [ServerPc.left]
    omega
  | serverSelect hpc _ =>
    rw [hpc]
    simp only [ServerPc.left]
    omega

/-- Behind `close` the connection is closed. -/
theorem closed_of_reachable (hreach : (system type param stack).Reachable h) :
    h.client.left ≤ 1 → h.closed = true := by
  refine hreach.invariant (I := fun h => h.client.left ≤ 1 → h.closed = true) ?_ ?_
  · intro hle
    have h4 : 4 ≤ 1 := hle
    omega
  · intro label h h' _ ih hstep
    cases shake_of_step hstep with
    | sendType hpc =>
      intro hle
      have h3 : 3 ≤ 1 := hle
      omega
    | sendParam hpc =>
      intro hle
      have h2 : 2 ≤ 1 := hle
      omega
    | close hpc => exact fun _ => rfl
    | select hpc _ =>
      intro _
      apply ih
      rw [hpc]
      exact le_rfl
    | _ => exact ih

/-- The server can call `recv`, or something can arrive. -/
theorem exists_recv (type param : Arg) (stack : ℕ → Fin bufferSize → UInt8)
    (hclosed : h.closed = true) :
    (∃ n, recvReturns (bufferSize - 1) n h) ∨
      ∃ label h', (system type param stack).step label h = some h' ∧
        (label = .deliverEnd → h.endArrived = false) := by
  cases harrived : h.arrived with
  | cons x xs =>
    refine .inl ⟨1, .inl ⟨Nat.one_pos, by decide, ?_⟩⟩
    rw [harrived]
    exact Nat.le_add_left 1 _
  | nil =>
    cases htransit : h.inTransit with
    | cons x xs =>
      have hone : 0 < 1 ∧ 1 ≤ h.inTransit.length := by
        rw [htransit]
        exact ⟨Nat.one_pos, Nat.le_add_left 1 _⟩
      exact .inr ⟨.deliver 1, _, if_pos hone, nofun⟩
    | nil =>
      cases hend : h.endArrived with
      | true => exact .inl ⟨0, .inr ⟨rfl, harrived, hend⟩⟩
      | false => exact .inr ⟨.deliverEnd, _, if_pos ⟨hclosed, htransit⟩, fun _ => rfl⟩

/-- Until both sides have selected, one of them or the network can take a step. -/
theorem handshake_steps (hreach : (system type param stack).Reachable h) :
    (∃ t, h.client = .selected t) ∧ (∃ t, h.server = .selected t) ∨
      ∃ label h', (system type param stack).step label h = some h' ∧
        (label = .deliverEnd → h.endArrived = false) := by
  have hclient : (∃ t, h.client = .selected t) ∨ ∃ h', clientStep type param h = some h' := by
    unfold clientStep
    cases h.client with
    | selected t => exact .inl ⟨t, rfl⟩
    | _ => exact .inr ⟨_, rfl⟩
  rcases hclient with ⟨t, ht⟩ | ⟨h', hstep⟩
  · have hclosed := closed_of_reachable hreach (by rw [ht]; exact Nat.zero_le 1)
    cases hserver : h.server with
    | selected t' => exact .inl ⟨⟨t, ht⟩, t', rfl⟩
    | select =>
      obtain ⟨h', hstep⟩ : ∃ h', serverSelectStep h = some h' := by
        rw [serverSelectStep, hserver]
        exact ⟨_, rfl⟩
      exact .inr ⟨.serverSelect, h', hstep, fun heq => by cases heq⟩
    | recvType =>
      rcases exists_recv type param stack hclosed with ⟨n, hn⟩ | hstep
      · obtain ⟨h', hstep⟩ : ∃ h', recvStep n h = some h' := by
          rw [recvStep, hserver]
          exact ⟨_, if_pos hn⟩
        exact .inr ⟨.recv n, h', hstep, fun heq => by cases heq⟩
      · exact .inr hstep
    | recvParam =>
      rcases exists_recv type param stack hclosed with ⟨n, hn⟩ | hstep
      · obtain ⟨h', hstep⟩ : ∃ h', recvStep n h = some h' := by
          rw [recvStep, hserver]
          exact ⟨_, if_pos hn⟩
        exact .inr ⟨.recv n, h', hstep, fun heq => by cases heq⟩
      · exact .inr hstep
  · exact .inr ⟨.client, h', hstep, fun heq => by cases heq⟩

end ChatOnC.Handshake
