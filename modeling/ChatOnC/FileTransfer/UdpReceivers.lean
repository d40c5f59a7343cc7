import ChatOnC.FileTransfer.Model

/-!
# Where the UDP receivers stop

`s_ipv6_udp` clears its buffer in front of each `recvfrom`, `s_ipv4_udp` behind it. So
the two differ at most on the first datagram, which `s_ipv4_udp` compares together with
what its buffer holds behind it.

* `leavesOn_sIpv6Udp_congr`: the choice of `s_ipv6_udp` does not depend on the buffer.
* `leavesOn_zeroed`: with a cleared buffer both receivers choose the same datagram.
* `same_datagram_iff`: with which buffers and first datagrams they do.
-/

namespace ChatOnC.FileTransfer

open ChatOnC.Common

/-- The datagram on which a receive loop is left: its index. -/
def leavesOn (round : List UInt8 → List UInt8 → List UInt8 × Bool) (buffer : List UInt8) :
    List (List UInt8) → Option ℕ
  | [] => none
  | d :: ds =>
    if (round buffer d).2 then some 0 else (leavesOn round (round buffer d).1 ds).map (· + 1)

/-- What the buffer holds behind a datagram that the end message starts with completes
    that message only if nothing of it is missing, and then it does. -/
def LeftoverHarmless (buffer d : List UInt8) : Prop :=
  d <+: exitMessage →
    (exitMessage.drop d.length ++ [0] <+: buffer.drop d.length ↔ d = exitMessage)

variable {buffer d : List UInt8} {ds : List (List UInt8)}

theorem leavesOn_cons_of_leaves {round : List UInt8 → List UInt8 → List UInt8 × Bool}
    (h : (round buffer d).2 = true) : leavesOn round buffer (d :: ds) = some 0 := by
  rw [leavesOn, if_pos h]

theorem leavesOn_cons_of_stays {round : List UInt8 → List UInt8 → List UInt8 × Bool}
    (h : ¬(round buffer d).2 = true) :
    leavesOn round buffer (d :: ds) = (leavesOn round (round buffer d).1 ds).map (· + 1) := by
  rw [leavesOn, if_neg h]

/-! ## One round -/

theorem sIpv4Udp_leaves_iff (hbuffer : buffer.length = bufferSize) (hd : d.length ≤ bufferSize) :
    (sIpv4Udp buffer d).2 = true ↔ exitMessage ++ [0] <+: d ++ buffer.drop d.length := by
  unfold sIpv4Udp recvRound
  rw [← isExit_recvfrom_iff hbuffer hd]
  dsimp only
  split_ifs with h
  · exact iff_of_true rfl h
  · exact iff_of_false not_false h

/-- The loop of `s_ipv4_udp` goes on with a cleared buffer. -/
theorem sIpv4Udp_of_stays (h : ¬(sIpv4Udp buffer d).2 = true) : (sIpv4Udp buffer d).1 = zeroed := by
  unfold sIpv4Udp recvRound at h ⊢
  dsimp only at h ⊢
  split_ifs at h ⊢ with hexit
  · exact absurd rfl h
  · rfl

theorem sIpv6Udp_leaves_iff (buffer d : List UInt8) :
    (sIpv6Udp buffer d).2 = true ↔ (sIpv4Udp zeroed d).2 = true := by
  unfold sIpv6Udp sIpv4Udp recvRound
  dsimp only
  rw [decide_eq_true_iff]
  split_ifs with h
  · exact iff_of_true h rfl
  · exact iff_of_false h not_false

/-- A datagram that is not a part of the end message is compared without the rest of the
    buffer. -/
theorem completes_iff_of_not_isPrefix (h : ¬d <+: exitMessage) (rest : List UInt8) :
    exitMessage ++ [0] <+: d ++ rest ↔ exitMessage ++ [0] <+: d := by
  constructor
  · intro hrest
    rcases List.prefix_or_prefix_of_prefix hrest (List.prefix_append d rest) with hlong | hshort
    · exact hlong
    · rcases List.prefix_concat_iff.mp hshort with heq | hpart
      · exact ⟨[], by rw [heq, List.append_nil]⟩
      · exact absurd hpart h
  · exact fun hd => hd.trans (List.prefix_append d rest)

/-- A part of the end message is compared with what it lacks. -/
theorem completes_iff_of_isPrefix (h : d <+: exitMessage) (rest : List UInt8) :
    exitMessage ++ [0] <+: d ++ rest ↔ exitMessage.drop d.length ++ [0] <+: rest := by
  have hsplit : exitMessage ++ [0] = d ++ (exitMessage.drop d.length ++ [0]) := by
    rw [← List.append_assoc, List.prefix_iff_eq_append.mp h]
  rw [hsplit, List.prefix_append_right_inj]

/-- In front of zeros nothing of the end message may be missing. -/
theorem zeros_complete_iff (h : d <+: exitMessage) :
    exitMessage.drop d.length ++ [0] <+: zeroed.drop d.length ↔ d = exitMessage := by
  constructor
  · intro hzeros
    by_contra hne
    have hlt : d.length < exitMessage.length := by
      by_contra hge
      exact hne (h.eq_of_length_le (Nat.not_lt.mp hge))
    have hmem : exitMessage[d.length] ∈ exitMessage.drop d.length ++ [0] := by
      rw [List.drop_eq_getElem_cons hlt]
      exact List.mem_cons_self
    have hzero := List.eq_of_mem_replicate (List.mem_of_mem_drop (hzeros.subset hmem))
    exact zero_notMem_exitMessage (hzero ▸ List.getElem_mem hlt)
  · rintro rfl
    decide +kernel

/-- With this buffer `s_ipv4_udp` decides on this datagram as with a cleared one. -/
theorem leaves_iff_zeroed_iff (hbuffer : buffer.length = bufferSize) (hd : d.length ≤ bufferSize) :
    ((sIpv4Udp buffer d).2 = true ↔ (sIpv4Udp zeroed d).2 = true) ↔ LeftoverHarmless buffer d := by
  unfold LeftoverHarmless
  rw [sIpv4Udp_leaves_iff hbuffer hd, sIpv4Udp_leaves_iff length_zeroed hd]
  by_cases hpart : d <+: exitMessage
  · rw [forall_prop_of_true hpart, completes_iff_of_isPrefix hpart, completes_iff_of_isPrefix hpart,
      zeros_complete_iff hpart]
  · rw [completes_iff_of_not_isPrefix hpart, completes_iff_of_not_isPrefix hpart]
    exact iff_of_true Iff.rfl fun h => absurd h hpart

/-! ## The loops -/

theorem leavesOn_sIpv6Udp_congr (buffer buffer' : List UInt8) (ds : List (List UInt8)) :
    leavesOn sIpv6Udp buffer ds = leavesOn sIpv6Udp buffer' ds := by
  cases ds with
  | nil => rfl
  | cons d ds => rfl

/-- From a cleared buffer on the receivers choose the same datagram. -/
theorem leavesOn_zeroed (buffer : List UInt8) (ds : List (List UInt8)) :
    leavesOn sIpv4Udp zeroed ds = leavesOn sIpv6Udp buffer ds := by
  induction ds generalizing buffer with
  | nil => rfl
  | cons d ds ih =>
    have hround := sIpv6Udp_leaves_iff buffer d
    by_cases hleaves : (sIpv4Udp zeroed d).2 = true
    · rw [leavesOn_cons_of_leaves hleaves, leavesOn_cons_of_leaves (hround.mpr hleaves)]
    · rw [leavesOn_cons_of_stays hleaves,
        leavesOn_cons_of_stays fun h => hleaves (hround.mp h), sIpv4Udp_of_stays hleaves, ih]

theorem map_succ_ne_some_zero (n : Option ℕ) : n.map (· + 1) ≠ some 0 := by
  cases n with
  | none => exact nofun
  | some n => exact fun h => Nat.succ_ne_zero n (Option.some.inj h)

/-- **The datagram on which both leave.** The receivers leave on the same datagram, or
    neither leaves, exactly if the first datagram is decided on without the leftover in
    the buffer. -/
theorem same_datagram_iff (hbuffer : buffer.length = bufferSize)
    (hds : ∀ d ∈ ds, d.length < bufferSize) :
    leavesOn sIpv4Udp buffer ds = leavesOn sIpv6Udp buffer ds ↔
      ∀ d, ds.head? = some d → LeftoverHarmless buffer d := by
  match ds with
  | [] => exact iff_of_true rfl nofun
  | d :: ds =>
    have hd : d.length ≤ bufferSize := Nat.le_of_lt (hds d List.mem_cons_self)
    have hround := sIpv6Udp_leaves_iff buffer d
    have hhead : (∀ e, (d :: ds).head? = some e → LeftoverHarmless buffer e) ↔
        LeftoverHarmless buffer d := by
      rw [List.head?_cons]
      exact ⟨fun h => h d rfl, fun h e he => Option.some.inj he ▸ h⟩
    rw [hhead, ← leaves_iff_zeroed_iff hbuffer hd, ← hround]
    by_cases h4 : (sIpv4Udp buffer d).2 = true
    · by_cases h6 : (sIpv6Udp buffer d).2 = true
      · rw [leavesOn_cons_of_leaves h4, leavesOn_cons_of_leaves h6]
        exact iff_of_true rfl (iff_of_true h4 h6)
      · rw [leavesOn_cons_of_leaves h4, leavesOn_cons_of_stays h6]
        exact iff_of_false (map_succ_ne_some_zero _).symm fun h => h6 (h.mp h4)
    · by_cases h6 : (sIpv6Udp buffer d).2 = true
      · rw [leavesOn_cons_of_stays h4, leavesOn_cons_of_leaves h6]
        exact iff_of_false (map_succ_ne_some_zero _) fun h => h4 (h.mpr h6)
      · rw [leavesOn_cons_of_stays h4, leavesOn_cons_of_stays h6, sIpv4Udp_of_stays h4,
          leavesOn_zeroed]
        exact iff_of_true rfl (iff_of_false h4 h6)

theorem same_datagram_iff_cleared :
    leavesOn sIpv4Udp zeroed [ascii "hello", exitMessage] =
        leavesOn sIpv6Udp zeroed [ascii "hello", exitMessage] ↔
      ∀ d, [ascii "hello", exitMessage].head? = some d → LeftoverHarmless zeroed d :=
  same_datagram_iff length_zeroed (by decide)

/-- The end message into a buffer full of other bytes: `s_ipv6_udp` leaves on it, and
    `s_ipv4_udp` does not. -/
theorem exit_missed :
    leavesOn sIpv4Udp (List.replicate bufferSize 0xFF) [exitMessage] = none ∧
      leavesOn sIpv6Udp (List.replicate bufferSize 0xFF) [exitMessage] = some 0 := by
  decide +kernel

end ChatOnC.FileTransfer
