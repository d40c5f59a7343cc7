import ChatOnC.Handshake.Agreement

/-!
# What the server can select

However the stream is cut, what the server reads is the beginning of what the client sends. The
words of the table, both strings of a row in one, are prefix-free, so no cut leads the server to
another transfer than the client's, but it may lead it to one that the client rejects.

* `words_prefixFree`: no word of the table is the beginning of another one.
* `word_of_selected`: the word of what the server has selected is the beginning of the stream.
* `exists_selected`: and whatever is, can be selected.
* `segmentation`: which transfers the server can select, that there is at most one, and that it is
  the client's if the client selects one.
-/

namespace ChatOnC.Handshake

open ChatOnC.Common

variable {type param : Arg} {stack : ℕ → Fin bufferSize → UInt8} {s s' : State}

/-! ## The rows of the table -/

/-- A row is found by its two strings. -/
theorem row_of_select {α : Type*} {table : List (String × String × α)} {type param : List UInt8}
    {transfer : α} (h : select table type param = some transfer) :
    ∃ t p, (t, p, transfer) ∈ table ∧ type = ascii t ∧ param = ascii p := by
  induction table with
  | nil => cases h
  | cons row rest ih =>
    obtain ⟨t, p, transfer'⟩ := row
    rw [select] at h
    split_ifs at h with heq
    · cases h
      exact ⟨t, p, List.mem_cons_self, heq⟩
    · obtain ⟨t', p', hmem, hrow⟩ := ih h
      exact ⟨t', p', List.mem_cons_of_mem _ hmem, hrow⟩

/-- What the client sends for a row, if it sends nothing else. -/
def word (row : String × String × ServerTransfer) : List UInt8 := ascii row.1 ++ ascii row.2.1

theorem words_prefixFree :
    ∀ row ∈ serverTable, ∀ row' ∈ serverTable, word row <+: word row' → row = row' := by
  decide

/-- At most one word begins a stream. -/
theorem row_unique {row row' : String × String × ServerTransfer} {stream : List UInt8}
    (hrow : row ∈ serverTable) (hrow' : row' ∈ serverTable) (h : word row <+: stream)
    (h' : word row' <+: stream) : row = row' := by
  rcases List.prefix_or_prefix_of_prefix h h' with hle | hle
  · exact words_prefixFree row hrow row' hrow' hle
  · exact (words_prefixFree row' hrow' row hrow hle).symm

/-- Each row is found, and both its strings fit the buffers. -/
theorem serverTable_rows : ∀ row ∈ serverTable,
    select serverTable (ascii row.1) (ascii row.2.1) = some row.2.2 ∧
      0 < (ascii row.1).length ∧ (ascii row.1).length ≤ bufferSize - 1 ∧
      0 < (ascii row.2.1).length ∧ (ascii row.2.1).length ≤ bufferSize - 1 := by
  decide

/-- The rows of the two tables are the same. -/
theorem mem_serverTable {t p : String} {transfer : ClientTransfer}
    (h : (t, p, transfer) ∈ clientTable) : (t, p, transfer.peer) ∈ serverTable :=
  List.mem_map_of_mem (f := fun row : String × String × ClientTransfer =>
    (row.1, row.2.1, row.2.2.peer)) h

/-! ## From the stream to the selection -/

/-- The two strings that the server has read are the beginning of the stream. -/
theorem word_of_selected {transfer : ServerTransfer} (h : (system type param stack).Reachable s)
    (hsel : s.server = .selected (some transfer)) :
    ∃ row ∈ serverTable, row.2.2 = transfer ∧ word row <+: type.bytes ++ param.bytes := by
  have hinv := inv_reachable h
  obtain ⟨t, p, hmem, htype, hparam⟩ := row_of_select (hinv.serverSelected _ hsel).symm
  have hstream := hinv.stream
  rw [received, hsel] at hstream
  dsimp only at hstream
  rw [htype, hparam, List.append_assoc _ s.arrived, List.append_assoc] at hstream
  exact ⟨(t, p, transfer), hmem, rfl, _, hstream⟩

/-! ## From the selection to the stream -/

/-- `recv` returns the first bytes of what has arrived. -/
theorem recvInto_arrived (i : ℕ) (next : ServerPc) {x y : List UInt8}
    (harrived : s.arrived = x ++ y) (hpos : 0 < x.length) (hle : x.length ≤ bufferSize - 1)
    (hzero : 0 ∉ x) :
    ∃ s', recvInto i x.length next s = some s' ∧ s'.server = next ∧ s'.arrived = y ∧
      cString (s'.buffer i) = x ∧ ∀ j, j ≠ i → s'.buffer j = s.buffer j := by
  have hreturns : recvReturns (bufferSize - 1) x.length s := by
    refine .inl ⟨hpos, hle, ?_⟩
    rw [harrived, List.length_append]
    exact Nat.le_add_right _ _
  refine ⟨_, if_pos hreturns, rfl, ?_, ?_, fun j hj => Function.update_of_ne hj _ _⟩
  · show s.arrived.drop x.length = y
    rw [harrived, List.drop_left]
  · show cString (Function.update s.buffer i _ i) = x
    rw [Function.update_self, harrived, List.take_left]
    exact cString_recvInto (s.buffer i) rfl hzero

/-- Both strings are sent before anything arrives. -/
theorem exists_arrived (type param : Arg) (stack : ℕ → Fin bufferSize → UInt8) :
    ∃ s, (system type param stack).Reachable s ∧ s.server = .recvType ∧
      s.arrived = type.bytes ++ param.bytes := by
  have hpos : 0 < (type.bytes ++ param.bytes).length := by
    rw [List.length_append]
    exact Nat.lt_of_lt_of_le (List.length_pos_of_ne_nil type.ne_nil) (Nat.le_add_right _ _)
  let s₀ := (system type param stack).init
  let s₁ : State := { s₀ with client := .sendParam, inTransit := type.bytes }
  let s₂ : State := { s₁ with client := .close, inTransit := type.bytes ++ param.bytes }
  have h₁ : (system type param stack).step .client s₀ = some s₁ := rfl
  have h₂ : (system type param stack).step .client s₁ = some s₂ := rfl
  have hsent : (system type param stack).Reachable s₂ := (System.Reach.init.step trivial h₁).step
    trivial h₂
  have h₃ : deliverStep (type.bytes ++ param.bytes).length s₂ = some _ := if_pos ⟨hpos, le_rfl⟩
  refine ⟨_, hsent.step (a := .deliver _) trivial h₃, rfl, ?_⟩
  show [] ++ List.take _ _ = _
  rw [List.take_length, List.nil_append]

/-- Cut at the right places, a stream that begins with its word makes the server select a
    transfer. -/
theorem exists_selected {row : String × String × ServerTransfer} (hrow : row ∈ serverTable)
    (hword : word row <+: type.bytes ++ param.bytes) :
    ∃ s, (system type param stack).Reachable s ∧ s.server = .selected (some row.2.2) := by
  obtain ⟨hselect, hpos, hle, hpos', hle'⟩ := serverTable_rows row hrow
  obtain ⟨rest, hrest⟩ := hword
  have hzero : ∀ x ∈ word row, x ≠ 0 := by
    intro x hx hx0
    have hmem : (0 : UInt8) ∈ type.bytes ++ param.bytes := by
      rw [← hrest, ← hx0]
      exact List.mem_append_left _ hx
    rcases List.mem_append.mp hmem with hmem | hmem
    · exact type.zero_notMem hmem
    · exact param.zero_notMem hmem
  obtain ⟨s₀, hreach, hserver, harrived⟩ := exists_arrived type param stack
  rw [← hrest, word, List.append_assoc] at harrived
  obtain ⟨s₁, hrecv, hserver₁, harrived₁, htype, -⟩ := recvInto_arrived 0 .recvParam harrived hpos
    hle fun hmem => hzero 0 (List.mem_append_left _ hmem) rfl
  obtain ⟨s₂, hrecv', hserver₂, -, hparam, hbuf⟩ := recvInto_arrived 1 .select harrived₁ hpos'
    hle' fun hmem => hzero 0 (List.mem_append_right _ hmem) rfl
  have hstep₁ : (system type param stack).step (.recv (ascii row.1).length) s₀ = some s₁ := by
    show recvStep _ s₀ = _
    rw [recvStep, hserver]
    exact hrecv
  have hstep₂ : (system type param stack).step (.recv (ascii row.2.1).length) s₁ = some s₂ := by
    show recvStep _ s₁ = _
    rw [recvStep, hserver₁]
    exact hrecv'
  have hstep₃ : (system type param stack).step .serverSelect s₂ =
      some { s₂ with server := .selected (some row.2.2) } := by
    show serverSelectStep s₂ = _
    rw [serverSelectStep, hserver₂]
    dsimp only
    rw [hbuf 0 (by decide), htype, hparam, hselect]
  exact ⟨_, ((hreach.step trivial hstep₁).step trivial hstep₂).step trivial hstep₃, rfl⟩

/-- Where both sides have selected, they have selected the two sides of one transfer. -/
theorem peer_of_selected {transfer : ClientTransfer} {transfer' : ServerTransfer}
    (h : (system type param stack).Reachable s) (hclient : s.client = .selected (some transfer))
    (hserver : s.server = .selected (some transfer')) : transfer' = transfer.peer := by
  obtain ⟨t, p, hmem, htype, hparam⟩ :=
    row_of_select ((inv_reachable h).clientSelected _ hclient).symm
  obtain ⟨row, hrow, rfl, hword⟩ := word_of_selected h hserver
  have hpeer : word (t, p, transfer.peer) <+: type.bytes ++ param.bytes := by
    rw [htype, hparam]
    exact List.prefix_rfl
  rw [row_unique hrow (mem_serverTable hmem) hword hpeer]

/-- **Safety of the handshake under any segmentation.** For non-empty arguments that fit: the
    server can select a transfer exactly if its word begins what the client sends; that is at most
    one; and where both sides have selected, they have selected the two sides of one transfer. -/
theorem segmentation (type param : Arg) (stack : ℕ → Fin bufferSize → UInt8) :
    (∀ transfer, (∃ s, (system type param stack).Reachable s ∧
        s.server = .selected (some transfer)) ↔
      ∃ row ∈ serverTable, row.2.2 = transfer ∧ word row <+: type.bytes ++ param.bytes) ∧
    (∀ s s' transfer transfer', (system type param stack).Reachable s →
      (system type param stack).Reachable s' → s.server = .selected (some transfer) →
      s'.server = .selected (some transfer') → transfer = transfer') ∧
    (∀ s transfer transfer', (system type param stack).Reachable s →
      s.client = .selected (some transfer) → s.server = .selected (some transfer') →
      transfer' = transfer.peer) := by
  refine ⟨fun transfer => ⟨?_, ?_⟩, ?_, ?_⟩
  · rintro ⟨s, hs, hsel⟩
    exact word_of_selected hs hsel
  · rintro ⟨row, hrow, rfl, hword⟩
    exact exists_selected hrow hword
  · intro s s' transfer transfer' hs hs' hsel hsel'
    obtain ⟨row, hrow, rfl, hword⟩ := word_of_selected hs hsel
    obtain ⟨row', hrow', rfl, hword'⟩ := word_of_selected hs' hsel'
    rw [row_unique hrow hrow' hword hword']
  · exact fun s transfer transfer' hs hclient hserver => peer_of_selected hs hclient hserver

end ChatOnC.Handshake
