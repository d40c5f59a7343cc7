import ChatOnC.ReactServer.Dispatch

/-!
# Registration without memory

`addEvent` stores the answer of `realloc` in `events` before it looks at it, and returns
without touching `event_count` when it is `NULL`.

* `failed_addEvent_iff`: when such a call leaves the registry as it was.
* `registrations_sound_iff`: which sequences of calls keep `event_count` within the array.
* `registration_atomic_iff`: both.
* `server_sound`: the server keeps it there as long as its registrations find memory.
-/

namespace ChatOnC.ReactServer

variable {r : Reactor} {id : ℕ}

/-! ## Lookups -/

/-- The loop of `handleEvent` stays inside an array that has all its entries. -/
theorem findEvent_ne_outOfBounds {events : List Event} {i left : ℕ}
    (hlen : i + left ≤ events.length) : findEvent events id i left ≠ .outOfBounds := by
  induction left generalizing i with
  | zero => simp [findEvent]
  | succ left ih =>
    have hi : i < events.length := by omega
    rw [findEvent, List.getElem?_eq_getElem hi]
    dsimp only
    split_ifs
    · simp
    · exact ih (by omega)

/-- `event_count` is no more than the array has entries, and no lookup leaves it. -/
structure Reactor.Sound (r : Reactor) : Prop where
  count : r.eventCount ≤ r.events.length
  inBounds : ∀ id, lookup r id ≠ .outOfBounds

theorem Reactor.sound_iff : r.Sound ↔ r.eventCount ≤ r.events.length := by
  refine ⟨Sound.count, fun hcount => ⟨hcount, fun id => ?_⟩⟩
  apply findEvent_ne_outOfBounds
  rwa [Nat.zero_add]

theorem Reactor.sound_of_length_eq (hlen : r.events.length = r.eventCount) : r.Sound :=
  Reactor.sound_iff.mpr (le_of_eq hlen.symm)

/-! ## One call -/

/-- The registry of `r'`, and what every lookup finds there, are those of `r`. -/
structure Reactor.SameRegistry (r r' : Reactor) : Prop where
  events : r'.events = r.events
  eventCount : r'.eventCount = r.eventCount
  lookups : ∀ id, lookup r' id = lookup r id

/-- A call without memory drops the array, whatever it held. -/
theorem failed_addEvent_iff (r : Reactor) (id : ℕ) (handler : EventHandler) :
    r.SameRegistry (addEvent r id handler none) ↔ r.events = [] := by
  constructor
  · intro h
    exact h.events.symm
  · intro hempty
    refine ⟨hempty.symm, rfl, fun id => ?_⟩
    show findEvent [] id 0 r.eventCount = findEvent r.events id 0 r.eventCount
    rw [hempty]

/-- With entries counted, every lookup that follows reads through `NULL`. -/
theorem lookup_failed_addEvent (hcount : 0 < r.eventCount) (newId : ℕ) (handler : EventHandler)
    (id : ℕ) : lookup (addEvent r newId handler none) id = .outOfBounds := by
  obtain ⟨n, hn⟩ := Nat.exists_eq_add_one_of_ne_zero hcount.ne'
  show findEvent [] id 0 r.eventCount = .outOfBounds
  rw [hn]
  rfl

/-! ## Sequences of calls -/

/-- The arguments of a call of `addEvent`, and what `realloc` answers. -/
structure Registration where
  id : ℕ
  handler : EventHandler
  alloc : Option (ℕ → Event)

def Reactor.register (r : Reactor) (call : Registration) : Reactor :=
  addEvent r call.id call.handler call.alloc

def Reactor.registerAll (r : Reactor) (calls : List Registration) : Reactor :=
  calls.foldl Reactor.register r

/-- No call that finds no memory comes after one that found some. -/
def NoLateFailure (calls : List Registration) : Prop :=
  calls.Pairwise fun call later => call.alloc.isSome = true → later.alloc.isSome = true

/-- A call that finds memory has the array hold all entries counted; one that does not
    leaves no array, and the count. -/
theorem register_cases (r : Reactor) (call : Registration) :
    (call.alloc.isSome = true ∧ (r.register call).events.length = (r.register call).eventCount ∧
      (r.register call).eventCount = r.eventCount + 1) ∨
    (call.alloc = none ∧ (r.register call).events = [] ∧
      (r.register call).eventCount = r.eventCount) := by
  obtain ⟨id, handler, alloc⟩ := call
  cases alloc with
  | none => exact .inr ⟨rfl, rfl, rfl⟩
  | some fresh =>
    refine .inl ⟨rfl, ?_, rfl⟩
    show ((realloc r.events (r.eventCount + 1) fresh).set _ _).length = r.eventCount + 1
    rw [List.length_set, length_realloc]

/-- Before the first call the registry is the one given, and then the one it leaves. -/
theorem prefixes_sound_cons_iff {call : Registration} {calls : List Registration} :
    (∀ before, before <+: call :: calls → (r.registerAll before).Sound) ↔
      r.Sound ∧ ∀ before, before <+: calls → ((r.register call).registerAll before).Sound := by
  constructor
  · intro h
    refine ⟨h [] List.nil_prefix, fun before hbefore => ?_⟩
    exact h (call :: before) (List.cons_prefix_cons.mpr ⟨rfl, hbefore⟩)
  · rintro ⟨hsound, h⟩ before hbefore
    rcases List.prefix_cons_iff.mp hbefore with rfl | ⟨before', rfl, hbefore'⟩
    · exact hsound
    · exact h before' hbefore'

/-- From a registry whose array holds all entries counted, every call of a sequence keeps
    it sound if and only if no failure comes after a success, counting the entries there
    are as successes. -/
theorem registerAll_sound_iff {calls : List Registration}
    (hlen : r.events.length = r.eventCount) :
    (∀ before, before <+: calls → (r.registerAll before).Sound) ↔
      NoLateFailure calls ∧ (0 < r.eventCount → ∀ call ∈ calls, call.alloc.isSome = true) := by
  induction calls generalizing r with
  | nil =>
    refine ⟨fun _ => ⟨.nil, fun _ => nofun⟩, fun _ before hbefore => ?_⟩
    rw [List.prefix_nil.mp hbefore]
    exact r.sound_of_length_eq hlen
  | cons call calls ih =>
    rw [prefixes_sound_cons_iff, and_iff_right (r.sound_of_length_eq hlen), NoLateFailure,
      List.pairwise_cons, List.forall_mem_cons]
    rcases register_cases r call with ⟨hsome, hlen', hcount'⟩ | ⟨hnone, hempty, hcount'⟩
    · rw [ih hlen', NoLateFailure]
      have hpos : 0 < (r.register call).eventCount := by omega
      constructor
      · rintro ⟨hpair, hall⟩
        exact ⟨⟨fun later hlater _ => hall hpos later hlater, hpair⟩,
          fun _ => ⟨hsome, hall hpos⟩⟩
      · rintro ⟨⟨hhead, hpair⟩, -⟩
        exact ⟨hpair, fun _ later hlater => hhead later hlater hsome⟩
    · have hfails : ¬call.alloc.isSome = true := by
        rw [hnone]
        exact Bool.false_ne_true
      by_cases hzero : r.eventCount = 0
      · -- there was nothing to lose
        have hlen' : (r.register call).events.length = (r.register call).eventCount := by
          rw [hempty, hcount', hzero]
          rfl
        rw [ih hlen', NoLateFailure, hcount', hzero]
        constructor
        · rintro ⟨hpair, -⟩
          exact ⟨⟨fun later _ hsome => absurd hsome hfails, hpair⟩, fun h => absurd h (lt_irrefl 0)⟩
        · rintro ⟨⟨-, hpair⟩, -⟩
          exact ⟨hpair, fun h => absurd h (lt_irrefl 0)⟩
      · constructor
        · intro h
          have hnow := (h [] List.nil_prefix).count
          rw [show (r.register call).registerAll [] = r.register call from rfl, hempty, hcount',
            List.length_nil] at hnow
          exact absurd (Nat.le_zero.mp hnow) hzero
        · rintro ⟨-, hall⟩
          exact absurd (hall (Nat.pos_of_ne_zero hzero)).1 hfails

/-- From the empty registry, every call of a sequence keeps it sound if and only if no
    failure comes after a success. -/
theorem registrations_sound_iff (calls : List Registration) :
    (∀ before, before <+: calls → (createReactor.registerAll before).Sound) ↔
      NoLateFailure calls := by
  rw [registerAll_sound_iff rfl]
  exact and_iff_left fun h => absurd h (lt_irrefl 0)

/-- **Registration without memory.** A call for which `realloc` fails leaves the registry
    and every later lookup as they were if and only if the registry had no array; and a
    sequence of calls keeps `event_count` within the array if and only if no call fails
    after one has succeeded. -/
theorem registration_atomic_iff (r : Reactor) (id : ℕ) (handler : EventHandler)
    (calls : List Registration) :
    (r.SameRegistry (addEvent r id handler none) ↔ r.events = []) ∧
      ((∀ before, before <+: calls → (createReactor.registerAll before).Sound) ↔
        NoLateFailure calls) :=
  ⟨failed_addEvent_iff r id handler, registrations_sound_iff calls⟩

/-- One registration succeeds and the next fails: the array is gone, its one entry is
    still counted, and a lookup reads through `NULL`. -/
theorem registration_lost :
    let r := addEvent createReactor 5 none (some fun _ => ⟨0, none⟩)
    let r' := addEvent r 6 none none
    ¬r.SameRegistry r' ∧ ¬r'.Sound ∧ lookup r 5 = .found none ∧ lookup r' 5 = .outOfBounds := by
  intro r r'
  refine ⟨fun h => ?_, fun h => ?_, by decide, lookup_failed_addEvent (by decide) 6 none 5⟩
  · exact absurd h.events (by decide)
  · exact absurd h.count (by decide)

/-- The server's own calls: its registry is sound in every run whose registrations find
    memory. -/
theorem server_sound {s : State} {listener : ℕ}
    (h : (startReactor listener).Reach RegistrationSucceeds s) : s.reactor.Sound :=
  Reactor.sound_of_length_eq (registry_reach h).count.symm

end ChatOnC.ReactServer
