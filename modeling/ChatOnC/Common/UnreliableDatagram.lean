import ChatOnC.Common.Datagram
import Mathlib.Data.List.Induction

/-!
# Datagrams over an unreliable network

The session of `Datagram` over a network that may lose, repeat and reorder what it
carries: it hands over any datagram it holds, and may drop or copy any of them at any
time. Sender and receiver are as before.

* `networkInv_reach`: what the receiver takes has been sent.
* `outcome_iff`: what the receiver can have taken in the end, and with which variables.
* `leaves_with_iff`, `left_waiting_iff`: the same for a receiver that stops at a marker.
* `never_early_iff`: such a receiver never leaves while the sender has something to send
  if and only if the marker is not among the data.
-/

namespace ChatOnC.Common

variable {δ β : Type*}

/-- What is still to be sent, what the network holds, and the receiver's variables. `sent`
    and `taken` are history. -/
structure Exchange (δ β : Type*) where
  toSend : List δ
  sent : List δ
  inFlight : List δ
  taken : List δ
  vars : β
  returned : Bool

/-- Who takes the next step: one of the parties, or the network with the datagram at an
    index. -/
inductive NetworkMove
  | sender
  | receiver (i : ℕ)
  | drop (i : ℕ)
  | duplicate (i : ℕ)
deriving DecidableEq

/-- A round of the receiver on this datagram, the one at index `i`. -/
def Exchange.takes (s : Exchange δ β) (round : β → δ → β × Bool) (i : ℕ) (d : δ) :
    Exchange δ β where
  toSend := s.toSend
  sent := s.sent
  inFlight := s.inFlight.eraseIdx i
  taken := s.taken ++ [d]
  vars := (round s.vars d).1
  returned := (round s.vars d).2

/-- A sender of these datagrams and a receiver with this loop. -/
def unreliableSystem (sends : List δ) (round : β → δ → β × Bool) (start : β) :
    System (Exchange δ β) NetworkMove where
  init :=
    { toSend := sends, sent := [], inFlight := [], taken := [], vars := start, returned := false }
  step
    | .sender, s =>
      match s.toSend with
      | [] => none
      | d :: ds =>
        some { s with toSend := ds, sent := s.sent ++ [d], inFlight := s.inFlight ++ [d] }
    | .receiver i, s => if s.returned then none else s.inFlight[i]?.map (s.takes round i)
    | .drop i, s => s.inFlight[i]?.map fun _ => { s with inFlight := s.inFlight.eraseIdx i }
    | .duplicate i, s => s.inFlight[i]?.map fun d => { s with inFlight := s.inFlight ++ [d] }

/-! ## What can have been taken -/

/-- The invariant of an exchange. -/
structure NetworkInv (sends : List δ) (round : β → δ → β × Bool) (start : β)
    (s : Exchange δ β) : Prop where
  sent : s.sent ++ s.toSend = sends
  carried : ∀ d ∈ s.inFlight, d ∈ s.sent
  genuine : ∀ d ∈ s.taken, d ∈ s.sent
  received : Received round start s.taken s.vars s.returned

variable {sends : List δ} {round : β → δ → β × Bool} {start : β} {s s' : Exchange δ β}

theorem networkInv_step {move : NetworkMove} (hinv : NetworkInv sends round start s)
    (h : (unreliableSystem sends round start).step move s = some s') :
    NetworkInv sends round start s' := by
  obtain ⟨hsent, hcarried, hgenuine, hreceived⟩ := hinv
  cases move with
  | sender =>
    simp only [unreliableSystem] at h
    split at h
    · cases h
    · rename_i d ds htoSend
      cases h
      rw [htoSend] at hsent
      refine ⟨by simpa using hsent, ?_, ?_, hreceived⟩
      · intro x hx
        rcases List.mem_append.mp hx with hx | hx
        · exact List.mem_append_left _ (hcarried x hx)
        · exact List.mem_append_right _ hx
      · exact fun x hx => List.mem_append_left _ (hgenuine x hx)
  | receiver i =>
    simp only [unreliableSystem] at h
    split_ifs at h with hreturned
    obtain ⟨d, hd, rfl⟩ := Option.map_eq_some_iff.mp h
    rw [Bool.not_eq_true] at hreturned
    rw [hreturned] at hreceived
    have hmem : d ∈ s.sent := hcarried d (List.mem_of_getElem? hd)
    refine ⟨hsent, fun x hx => hcarried x (List.mem_of_mem_eraseIdx hx), ?_, hreceived.round d⟩
    intro x hx
    rcases List.mem_append.mp hx with hx | hx
    · exact hgenuine x hx
    · exact List.mem_singleton.mp hx ▸ hmem
  | drop i =>
    obtain ⟨d, -, rfl⟩ := Option.map_eq_some_iff.mp h
    exact ⟨hsent, fun x hx => hcarried x (List.mem_of_mem_eraseIdx hx), hgenuine, hreceived⟩
  | duplicate i =>
    obtain ⟨d, hd, rfl⟩ := Option.map_eq_some_iff.mp h
    refine ⟨hsent, fun x hx => ?_, hgenuine, hreceived⟩
    rcases List.mem_append.mp hx with hx | hx
    · exact hcarried x hx
    · exact List.mem_singleton.mp hx ▸ hcarried d (List.mem_of_getElem? hd)

theorem networkInv_reach (h : (unreliableSystem sends round start).Reachable s) :
    NetworkInv sends round start s := by
  apply h.invariant
  · exact ⟨rfl, by simp [unreliableSystem], by simp [unreliableSystem], .nil⟩
  · exact fun _ _ _ _ hinv hstep => networkInv_step hinv hstep

/-! ## What can be reached -/

/-- The sender sends a first part, and the network keeps it. -/
theorem reachable_sent (pre post : List δ) (hsends : pre ++ post = sends) :
    (unreliableSystem sends round start).Reachable
      { toSend := post, sent := pre, inFlight := pre, taken := [], vars := start,
        returned := false } := by
  induction pre using List.reverseRecOn generalizing post with
  | nil =>
    rw [List.nil_append] at hsends
    subst hsends
    exact .init
  | append_singleton pre d ih =>
    rw [List.append_assoc] at hsends
    exact .step (a := .sender) (ih (d :: post) hsends) trivial rfl

/-- The receiver takes a copy of a datagram, and the network keeps the original. -/
theorem reachable_takes {d : δ} (hd : d ∈ s.inFlight) (hrunning : s.returned = false)
    (h : (unreliableSystem sends round start).Reachable s) :
    (unreliableSystem sends round start).Reachable
      { s with
        taken := s.taken ++ [d]
        vars := (round s.vars d).1
        returned := (round s.vars d).2 } := by
  obtain ⟨i, hi, rfl⟩ := List.getElem_of_mem hd
  have hcopy : (unreliableSystem sends round start).step (.duplicate i) s =
      some { s with inFlight := s.inFlight ++ [s.inFlight[i]] } := by
    simp [unreliableSystem, List.getElem?_eq_getElem hi]
  refine .step (a := .receiver s.inFlight.length) (.step h trivial hcopy) trivial ?_
  simp [unreliableSystem, Exchange.takes, hrunning, List.eraseIdx_append_of_length_le]

/-- Of what the network holds the receiver takes any list, as long as it is in its loop. -/
theorem reachable_received {ds : List δ} {b : β} {returned : Bool} {post inFlight : List δ}
    (hstart : (unreliableSystem sends round start).Reachable
      { toSend := post, sent := inFlight, inFlight := inFlight, taken := [], vars := start,
        returned := false })
    (h : Received round start ds b returned) (hds : ∀ d ∈ ds, d ∈ inFlight) :
    (unreliableSystem sends round start).Reachable
      { toSend := post, sent := inFlight, inFlight := inFlight, taken := ds, vars := b,
        returned := returned } := by
  induction h with
  | nil => exact hstart
  | @round ds b h d ih =>
    have hbefore := ih fun x hx => hds x (List.mem_append_left _ hx)
    exact reachable_takes (hds d (by simp)) rfl hbefore

/-- The network loses all it holds. -/
theorem reachable_lost (h : (unreliableSystem sends round start).Reachable s) :
    (unreliableSystem sends round start).Reachable { s with inFlight := [] } := by
  induction hlist : s.inFlight generalizing s with
  | nil => exact hlist ▸ h
  | cons d ds ih =>
    have hstep : (unreliableSystem sends round start).step (.drop 0) s =
        some { s with inFlight := ds } := by
      simp [unreliableSystem, hlist]
    exact ih (s := { s with inFlight := ds }) (.step h trivial hstep) rfl

/-- Everything has been sent, and the network holds nothing. -/
def Quiet (s : Exchange δ β) : Prop := s.toSend = [] ∧ s.inFlight = []

/-- **Outcomes.** In the end the receiver has gone round its loop on some list of the
    datagrams that were sent, and every such list is possible. -/
theorem outcome_iff {ds : List δ} {b : β} {returned : Bool} :
    (∃ s, (unreliableSystem sends round start).Reachable s ∧ Quiet s ∧ s.taken = ds ∧
      s.vars = b ∧ s.returned = returned) ↔
    Received round start ds b returned ∧ ∀ d ∈ ds, d ∈ sends := by
  constructor
  · rintro ⟨s, hs, -, rfl, rfl, rfl⟩
    have hinv := networkInv_reach hs
    refine ⟨hinv.received, fun d hd => ?_⟩
    rw [← hinv.sent]
    exact List.mem_append_left _ (hinv.genuine d hd)
  · rintro ⟨hreceived, hds⟩
    have hsent : (unreliableSystem sends round start).Reachable _ :=
      reachable_sent sends [] (List.append_nil sends)
    have htaken := reachable_lost (reachable_received hsent hreceived hds)
    exact ⟨_, htaken, ⟨rfl, rfl⟩, rfl, rfl, rfl⟩

/-! ## A marker at the end -/

variable {marker : δ} {wf : δ → Prop} {ok : β → Prop}

/-- Without the marker the receiver stays in its loop. -/
theorem StopsAt.exists_received (h : StopsAt round start marker wf ok) {ds : List δ}
    (hds : ∀ d ∈ ds, wf d) (hnot : marker ∉ ds) : ∃ b, Received round start ds b false ∧ ok b := by
  induction ds using List.reverseRecOn with
  | nil => exact ⟨start, .nil, h.start⟩
  | append_singleton ds d ih =>
    rw [List.mem_append, not_or, List.mem_singleton] at hnot
    obtain ⟨b, hb, hok⟩ := ih (fun x hx => hds x (List.mem_append_left _ hx)) hnot.1
    have hwf : wf d := hds d (by simp)
    have hne : d ≠ marker := fun heq => hnot.2 heq.symm
    have hstays : (round b d).2 = false := by
      by_contra hleaves
      exact hne ((h.stops b d hok hwf).mp (Bool.not_eq_false _ ▸ hleaves))
    exact ⟨(round b d).1, hstays ▸ hb.round d, h.keeps b d hok hwf hne⟩

/-- It is in its loop behind the lists without the marker. -/
theorem StopsAt.received_false_iff (h : StopsAt round start marker wf ok) {ds : List δ}
    (hds : ∀ d ∈ ds, wf d) : (∃ b, Received round start ds b false) ↔ marker ∉ ds := by
  constructor
  · rintro ⟨b, hb⟩
    exact ((h.received hds hb).1 rfl).1
  · intro hnot
    obtain ⟨b, hb, -⟩ := h.exists_received hds hnot
    exact ⟨b, hb⟩

/-- It has left behind the lists that the marker ends. -/
theorem StopsAt.received_true_iff (h : StopsAt round start marker wf ok) (hmarker : wf marker)
    {ds : List δ} (hds : ∀ d ∈ ds, wf d) :
    (∃ b, Received round start ds b true) ↔ ∃ xs, ds = xs ++ [marker] ∧ marker ∉ xs := by
  constructor
  · rintro ⟨b, hb⟩
    exact (h.received hds hb).2 rfl
  · rintro ⟨xs, rfl, hnot⟩
    obtain ⟨b, hb, hok⟩ := h.exists_received (fun x hx => hds x (List.mem_append_left _ hx)) hnot
    have hleaves : (round b marker).2 = true := (h.stops b marker hok hmarker).mpr rfl
    exact ⟨(round b marker).1, hleaves ▸ hb.round marker⟩

/-- Some of the data, none of them the marker. -/
def SomeOf (data : List δ) (marker : δ) (xs : List δ) : Prop := ∀ x ∈ xs, x ∈ data ∧ x ≠ marker

variable {data ds : List δ}

theorem wf_of_mem_sends (hdata : ∀ d ∈ data, wf d) (hmarker : wf marker) {d : δ}
    (hd : d ∈ data ++ [marker]) : wf d := by
  rcases List.mem_append.mp hd with hd | hd
  · exact hdata d hd
  · exact List.mem_singleton.mp hd ▸ hmarker

theorem someOf_iff : SomeOf data marker ds ↔ marker ∉ ds ∧ ∀ d ∈ ds, d ∈ data ++ [marker] := by
  constructor
  · intro h
    exact ⟨fun hmem => (h marker hmem).2 rfl, fun d hd => List.mem_append_left _ (h d hd).1⟩
  · rintro ⟨hnot, hall⟩ d hd
    have hne : d ≠ marker := fun heq => hnot (heq ▸ hd)
    refine ⟨(List.mem_append.mp (hall d hd)).resolve_right fun hlast => ?_, hne⟩
    exact hne (List.mem_singleton.mp hlast)

/-- The receiver can be left waiting behind any list of data. -/
theorem left_waiting_iff (h : StopsAt round start marker wf ok) (hdata : ∀ d ∈ data, wf d)
    (hmarker : wf marker) :
    (∃ s, (unreliableSystem (data ++ [marker]) round start).Reachable s ∧ Quiet s ∧
      s.returned = false ∧ s.taken = ds) ↔ SomeOf data marker ds := by
  rw [someOf_iff]
  constructor
  · rintro ⟨s, hs, hquiet, hreturned, rfl⟩
    obtain ⟨hreceived, hall⟩ := outcome_iff.mp ⟨s, hs, hquiet, rfl, rfl, hreturned⟩
    have hwf : ∀ d ∈ s.taken, wf d := fun d hd => wf_of_mem_sends hdata hmarker (hall d hd)
    exact ⟨(h.received_false_iff hwf).mp ⟨s.vars, hreceived⟩, hall⟩
  · rintro ⟨hnot, hall⟩
    have hwf : ∀ d ∈ ds, wf d := fun d hd => wf_of_mem_sends hdata hmarker (hall d hd)
    obtain ⟨b, hb⟩ := (h.received_false_iff hwf).mpr hnot
    obtain ⟨s, hs, hquiet, htaken, -, hreturned⟩ := outcome_iff.mpr ⟨hb, hall⟩
    exact ⟨s, hs, hquiet, hreturned, htaken⟩

/-- The receiver can leave behind any list of data and the marker. -/
theorem leaves_with_iff (h : StopsAt round start marker wf ok) (hdata : ∀ d ∈ data, wf d)
    (hmarker : wf marker) :
    (∃ s, (unreliableSystem (data ++ [marker]) round start).Reachable s ∧ Quiet s ∧
      s.returned = true ∧ s.taken = ds) ↔
    ∃ xs, ds = xs ++ [marker] ∧ SomeOf data marker xs := by
  constructor
  · rintro ⟨s, hs, hquiet, hreturned, rfl⟩
    obtain ⟨hreceived, hall⟩ := outcome_iff.mp ⟨s, hs, hquiet, rfl, rfl, hreturned⟩
    have hwf : ∀ d ∈ s.taken, wf d := fun d hd => wf_of_mem_sends hdata hmarker (hall d hd)
    obtain ⟨xs, hxs, hnot⟩ := (h.received_true_iff hmarker hwf).mp ⟨s.vars, hreceived⟩
    refine ⟨xs, hxs, someOf_iff.mpr ⟨hnot, fun d hd => hall d ?_⟩⟩
    rw [hxs]
    exact List.mem_append_left _ hd
  · rintro ⟨xs, rfl, hxs⟩
    obtain ⟨hnot, hall⟩ := someOf_iff.mp hxs
    have hsends : ∀ d ∈ xs ++ [marker], d ∈ data ++ [marker] := by
      intro d hd
      rcases List.mem_append.mp hd with hd | hd
      · exact hall d hd
      · exact List.mem_append_right _ hd
    have hwf : ∀ d ∈ xs ++ [marker], wf d :=
      fun d hd => wf_of_mem_sends hdata hmarker (hsends d hd)
    obtain ⟨b, hb⟩ := (h.received_true_iff hmarker hwf).mpr ⟨xs, rfl, hnot⟩
    obtain ⟨s, hs, hquiet, htaken, -, hreturned⟩ := outcome_iff.mpr ⟨hb, hsends⟩
    exact ⟨s, hs, hquiet, hreturned, htaken⟩

/-- The receiver leaves on a marker only, so it does not leave in front of the end if and
    only if the marker is sent at the end only. -/
theorem never_early_iff (h : StopsAt round start marker wf ok)
    (hdata : ∀ d ∈ data, wf d) (hmarker : wf marker) :
    (∀ s, (unreliableSystem (data ++ [marker]) round start).Reachable s → s.returned = true →
      s.toSend = []) ↔ marker ∉ data := by
  constructor
  · intro hall hmem
    obtain ⟨pre, post, rfl⟩ := List.append_of_mem hmem
    have hsplit : (pre ++ [marker]) ++ (post ++ [marker]) = pre ++ marker :: post ++ [marker] := by
      simp
    have hsent : (unreliableSystem _ round start).Reachable _ := reachable_sent _ _ hsplit
    have htaken := reachable_takes (d := marker) (by simp) rfl hsent
    have hleaves : (round start marker).2 = true := (h.stops start marker h.start hmarker).mpr rfl
    have hdone := hall _ htaken hleaves
    simp at hdone
  · intro hnot s hs hreturned
    have hinv := networkInv_reach hs
    have hwf : ∀ d ∈ s.taken, wf d := by
      intro d hd
      apply wf_of_mem_sends hdata hmarker
      rw [← hinv.sent]
      exact List.mem_append_left _ (hinv.genuine d hd)
    obtain ⟨xs, hxs, -⟩ := (h.received hwf hinv.received).2 hreturned
    have hsent : marker ∈ s.sent := hinv.genuine marker (hxs ▸ by simp)
    rcases List.eq_nil_or_concat s.toSend with hnil | ⟨rest, last, hlast⟩
    · exact hnil
    · have hall := hinv.sent
      rw [hlast, List.concat_eq_append, ← List.append_assoc] at hall
      have hfront := (List.append_inj' hall rfl).1
      exact absurd (hfront ▸ List.mem_append_left rest hsent) hnot

end ChatOnC.Common
