import ChatOnC.Common.Fifo

/-!
# Sending a list of datagrams

A sender sends a list of datagrams over a channel that neither loses, repeats
nor reorders them; a receiver goes round a loop, one datagram a round, until a
round leaves the loop. The two take their steps in any order.

* `sessionInv_reach`: what has been put into the channel, and what the receiver has
  made of what it took out.
* `exists_drained`: a state is reached in which the sender is done and the receiver
  has left the loop or has nothing left to take.
* `waits_iff`: whether the receiver can be left waiting.
* `ends_at_marker_iff`: a receiver that stops at one marker takes all data in front of
  a final marker if and only if the marker is not among the data.
-/

namespace ChatOnC.Common

variable {δ β : Type*}

/-- What is still to be sent, the channel, and the receiver's variables. -/
structure Session (δ β : Type*) where
  toSend : List δ
  channel : Fifo δ
  vars : β
  returned : Bool

/-- Who takes the next step. -/
inductive Side
  | sender
  | receiver
  deriving DecidableEq

/-- A round of the receiver on this datagram. -/
def Session.takes (s : Session δ β) (round : β → δ → β × Bool) (d : δ) (channel : Fifo δ) :
    Session δ β where
  toSend := s.toSend
  channel := channel
  vars := (round s.vars d).1
  returned := (round s.vars d).2

/-- The session of a sender of these datagrams and a receiver with this loop: `round`
    takes a datagram and says whether it leaves the loop. -/
def datagramSystem (sends : List δ) (round : β → δ → β × Bool) (start : β) :
    System (Session δ β) Side where
  init := { toSend := sends, channel := .empty, vars := start, returned := false }
  step
    | .sender, s =>
      match s.toSend with
      | [] => none
      | d :: ds => some { s with toSend := ds, channel := s.channel.enqueue d }
    | .receiver, s =>
      if s.returned then none
      else s.channel.dequeue.map fun (d, channel) => s.takes round d channel

/-- The receiver's variables, and whether it has left the loop, after these
    datagrams. -/
inductive Received (round : β → δ → β × Bool) (start : β) : List δ → β → Bool → Prop
  | nil : Received round start [] start false
  | round {ds : List δ} {b : β} (h : Received round start ds b false) (d : δ) :
      Received round start (ds ++ [d]) (round b d).1 (round b d).2

/-- The invariant of a session. -/
structure SessionInv (sends : List δ) (round : β → δ → β × Bool) (start : β)
    (s : Session δ β) : Prop where
  sent : s.channel.put ++ s.toSend = sends
  received : Received round start s.channel.taken s.vars s.returned

variable {sends : List δ} {round : β → δ → β × Bool} {start : β} {s : Session δ β}

theorem sessionInv_reach (h : (datagramSystem sends round start).Reachable s) :
    SessionInv sends round start s := by
  apply h.invariant
  · exact ⟨rfl, .nil⟩
  · rintro side s s' - ⟨hsent, hreceived⟩ hstep
    cases side with
    | sender =>
      simp only [datagramSystem] at hstep
      split at hstep
      · cases hstep
      · rename_i d ds htoSend
        cases hstep
        rw [htoSend] at hsent
        refine ⟨?_, hreceived⟩
        simpa using hsent
    | receiver =>
      simp only [datagramSystem] at hstep
      split_ifs at hstep with hreturned
      obtain ⟨⟨d, channel⟩, hd, rfl⟩ := Option.map_eq_some_iff.mp hstep
      obtain ⟨-, hput, htaken⟩ := Fifo.dequeue_eq_some hd
      rw [Bool.not_eq_true] at hreturned
      rw [hreturned] at hreceived
      constructor
      · simp only [Session.takes, hput]
        exact hsent
      · simp only [Session.takes, htaken]
        exact hreceived.round d

/-- Everything has been sent, and the receiver has left the loop or waits for a
    datagram that nobody will send. -/
def Drained (s : Session δ β) : Prop :=
  s.toSend = [] ∧ (s.returned = true ∨ s.channel.items = [])

/-- The two sides get there. -/
theorem exists_drained (sends : List δ) (round : β → δ → β × Bool) (start : β) :
    ∃ s, (datagramSystem sends round start).Reachable s ∧ Drained s := by
  refine System.Reach.exists_final (fun s => 2 * s.toSend.length + s.channel.items.length) ?_
    System.Reach.init
  intro s _ hnot
  cases hsend : s.toSend with
  | cons d ds =>
    refine ⟨.sender, { s with toSend := ds, channel := s.channel.enqueue d }, trivial, ?_, ?_⟩
    · simp only [datagramSystem, hsend]
    · simp only [Fifo.enqueue_items, List.length_append, List.length_cons, List.length_nil]
      omega
  | nil =>
    have hrunning : s.returned = false := by
      by_contra hreturned
      exact hnot ⟨hsend, .inl (by simpa using hreturned)⟩
    cases hitems : s.channel.items with
    | nil => exact absurd ⟨hsend, .inr hitems⟩ hnot
    | cons d ds =>
      obtain ⟨channel, hd⟩ := Fifo.dequeue_of_items hitems
      obtain ⟨hlen, -, -⟩ := Fifo.dequeue_eq_some hd
      refine ⟨.receiver, s.takes round d channel, trivial, ?_, ?_⟩
      · simp [datagramSystem, hrunning, hd]
      · rw [← hitems, hlen]
        simp [Session.takes, hsend]

theorem SessionInv.taken_isPrefix (h : SessionInv sends round start s) :
    s.channel.taken <+: sends := by
  rw [← h.sent, ← s.channel.balanced, List.append_assoc]
  exact List.prefix_append _ _

/-- What is taken and what is still in the channel is what was sent, once all is
    sent. -/
theorem SessionInv.balance (h : SessionInv sends round start s) (hdone : s.toSend = []) :
    s.channel.taken ++ s.channel.items = sends := by
  rw [s.channel.balanced, ← h.sent, hdone, List.append_nil]

theorem Received.of_nil {b : β} {returned : Bool} (h : Received round start [] b returned) :
    b = start ∧ returned = false := by
  generalize hds : ([] : List δ) = ds at h
  cases h with
  | nil => exact ⟨rfl, rfl⟩
  | round h d => simp at hds

/-- The last round. -/
theorem Received.of_append {ds : List δ} {d : δ} {b : β} {returned : Bool}
    (h : Received round start (ds ++ [d]) b returned) :
    ∃ b', Received round start ds b' false ∧ round b' d = (b, returned) := by
  generalize hds : ds ++ [d] = all at h
  cases h with
  | nil => simp at hds
  | @round ds' b' h d' =>
    obtain ⟨rfl, hd⟩ := List.append_inj' hds rfl
    cases hd
    exact ⟨b', h, rfl⟩

theorem Received.unique {ds : List δ} {b b' : β} {returned returned' : Bool}
    (h : Received round start ds b returned) (h' : Received round start ds b' returned') :
    b' = b ∧ returned' = returned := by
  induction h generalizing b' returned' with
  | nil => exact h'.of_nil
  | @round ds b h d ih =>
    obtain ⟨b₁, h₁, hround⟩ := h'.of_append
    obtain ⟨rfl, -⟩ := ih h₁
    rw [hround]
    exact ⟨rfl, rfl⟩

/-- In front of the last round the receiver is in its loop. -/
theorem Received.of_isPrefix {ds all : List δ} {b : β} {returned : Bool}
    (h : Received round start all b returned) (hds : ds <+: all) (hne : ds ≠ all) :
    ∃ b', Received round start ds b' false := by
  induction h with
  | nil => exact absurd (List.prefix_nil.mp hds) hne
  | @round all b h d ih =>
    have hds : ds <+: all := (List.prefix_concat_iff.mp hds).resolve_left hne
    by_cases heq : ds = all
    · exact ⟨b, heq ▸ h⟩
    · exact ih hds heq

/-- The receiver waits for a datagram that nobody will send. -/
def Waits (s : Session δ β) : Prop :=
  s.toSend = [] ∧ s.channel.items = [] ∧ s.returned = false

/-- The receiver can be left waiting if and only if it is still in its loop behind all
    the datagrams. -/
theorem waits_iff : (∃ s, (datagramSystem sends round start).Reachable s ∧ Waits s) ↔
    ∃ b, Received round start sends b false := by
  constructor
  · rintro ⟨s, hs, hdone, hitems, hreturned⟩
    have hinv := sessionInv_reach hs
    have hbalance := hinv.balance hdone
    rw [hitems, List.append_nil] at hbalance
    exact ⟨s.vars, hbalance ▸ hreturned ▸ hinv.received⟩
  · rintro ⟨b, hb⟩
    obtain ⟨s, hs, hdone, hend⟩ := exists_drained sends round start
    have hinv := sessionInv_reach hs
    have hloop : ∃ b', Received round start s.channel.taken b' false := by
      by_cases heq : s.channel.taken = sends
      · exact ⟨b, heq ▸ hb⟩
      · exact hb.of_isPrefix hinv.taken_isPrefix heq
    obtain ⟨b', hb'⟩ := hloop
    have hreturned : s.returned = false := (hb'.unique hinv.received).2
    refine ⟨s, hs, hdone, hend.resolve_left ?_, hreturned⟩
    rw [hreturned]
    exact Bool.false_ne_true

/-! ## A marker at the end -/

/-- On datagrams that meet `wf` the receiver stops at the marker and nowhere else; `ok`
    is what it keeps of its variables. -/
structure StopsAt (round : β → δ → β × Bool) (start : β) (marker : δ) (wf : δ → Prop)
    (ok : β → Prop) : Prop where
  start : ok start
  stops : ∀ b d, ok b → wf d → ((round b d).2 = true ↔ d = marker)
  keeps : ∀ b d, ok b → wf d → d ≠ marker → ok (round b d).1

variable {marker : δ} {wf : δ → Prop} {ok : β → Prop}

/-- The receiver is in its loop as long as it has not seen the marker, and leaves it
    with the first one. -/
theorem StopsAt.received (h : StopsAt round start marker wf ok) {ds : List δ} {b : β}
    {returned : Bool} (hds : ∀ d ∈ ds, wf d) (hr : Received round start ds b returned) :
    (returned = false → marker ∉ ds ∧ ok b) ∧
      (returned = true → ∃ xs, ds = xs ++ [marker] ∧ marker ∉ xs) := by
  induction hr with
  | nil => exact ⟨fun _ => ⟨List.not_mem_nil, h.start⟩, nofun⟩
  | @round ds b hr d ih =>
    have hwf : wf d := hds d (by simp)
    obtain ⟨hnot, hok⟩ := (ih fun x hx => hds x (by simp [hx])).1 rfl
    have hstops := h.stops b d hok hwf
    constructor
    · intro hfalse
      have hne : d ≠ marker := by
        intro heq
        rw [hstops.mpr heq] at hfalse
        cases hfalse
      exact ⟨by simp [hnot, hne.symm], h.keeps b d hok hwf hne⟩
    · intro htrue
      exact ⟨ds, by rw [hstops.mp htrue], hnot⟩

/-- The same for the sessions of a sender of such datagrams. -/
theorem StopsAt.taken (h : StopsAt round start marker wf ok) (hsends : ∀ d ∈ sends, wf d)
    (hs : (datagramSystem sends round start).Reachable s) :
    (s.returned = false → marker ∉ s.channel.taken) ∧
      (s.returned = true → ∃ xs, s.channel.taken = xs ++ [marker] ∧ marker ∉ xs) := by
  have hinv := sessionInv_reach hs
  obtain ⟨hfalse, htrue⟩ :=
    h.received (fun d hd => hsends d (hinv.taken_isPrefix.subset hd)) hinv.received
  exact ⟨fun hf => (hfalse hf).1, htrue⟩

/-- The receiver leaves its loop with the last datagram of all, and it does leave it
    when all have been taken. -/
def EndsAtLast (sends : List δ) (s : Session δ β) : Prop :=
  (s.returned = true → s.channel.taken = sends) ∧
    (s.toSend = [] → s.channel.items = [] → s.returned = true)

/-- **In-band end marker.** Every run on `data` and a final marker ends at the final
    marker if and only if the marker is not among the data. -/
theorem ends_at_marker_iff {data : List δ} (h : StopsAt round start marker wf ok)
    (hdata : ∀ d ∈ data, wf d) (hmarker : wf marker) :
    (∀ s, (datagramSystem (data ++ [marker]) round start).Reachable s →
      EndsAtLast (data ++ [marker]) s) ↔ marker ∉ data := by
  have hwf : ∀ d ∈ data ++ [marker], wf d := by
    intro d hd
    rcases List.mem_append.mp hd with hd | hd
    · exact hdata d hd
    · rw [List.mem_singleton.mp hd]
      exact hmarker
  constructor
  · intro hall
    obtain ⟨s, hs, hdone, hend⟩ := exists_drained (data ++ [marker]) round start
    obtain ⟨htaken, hleaves⟩ := hall s hs
    have hreturned : s.returned = true := hend.elim id (hleaves hdone)
    obtain ⟨xs, hxs, hnot⟩ := (h.taken hwf hs).2 hreturned
    rw [htaken hreturned] at hxs
    rw [List.append_cancel_right hxs]
    exact hnot
  · intro hnot s hs
    have hinv := sessionInv_reach hs
    constructor
    · intro hreturned
      obtain ⟨xs, hxs, -⟩ := (h.taken hwf hs).2 hreturned
      have hfront := hinv.taken_isPrefix
      rw [hxs] at hfront ⊢
      rcases List.prefix_concat_iff.mp hfront with heq | hfront
      · exact heq
      · exact absurd (hfront.subset (by simp)) hnot
    · intro hdone hitems
      by_contra hrunning
      rw [Bool.not_eq_true] at hrunning
      have hbalance := hinv.balance hdone
      rw [hitems, List.append_nil] at hbalance
      exact (h.taken hwf hs).1 hrunning (by rw [hbalance]; simp)

end ChatOnC.Common
