import Mathlib

/-!
# Ledgers

A ledger follows what a trace acquires and releases. It comes to no balance where something is
released that is not held; where it does come to one, everything that is not held in the end was
released as often as it was acquired, and at no time before that more often.
-/

namespace Umsftpd.Systems

variable {ω ρ : Type*} [DecidableEq ρ]

/-- What an event does to a resource. -/
inductive Entry (ρ : Type*) where
  | acquire (r : ρ)
  | release (r : ρ)
  deriving DecidableEq

/-- The resources that are held after a trace, from those that are held before it. -/
def settle (entry : ω → Option (Entry ρ)) : List ω → List ρ → Option (List ρ)
  | [], held => some held
  | event :: events, held =>
    match entry event with
    | none => settle entry events held
    | some (.acquire r) => settle entry events (r :: held)
    | some (.release r) => if r ∈ held then settle entry events (held.erase r) else none

section Settle

variable {entry : ω → Option (Entry ρ)}

@[simp] theorem settle_nil (held : List ρ) : settle entry [] held = some held := rfl

theorem settle_append (events more : List ω) (held : List ρ) :
    settle entry (events ++ more) held = (settle entry events held).bind (settle entry more) := by
  induction events generalizing held with
  | nil => rfl
  | cons event events ih =>
    rw [List.cons_append, settle, settle]
    split
    · exact ih held
    · exact ih _
    · split
      · exact ih _
      · rfl

/-- Events that are in no ledger. -/
theorem settle_of_none {events : List ω} (h : ∀ event ∈ events, entry event = none)
    (held : List ρ) : settle entry events held = some held := by
  induction events with
  | nil => rfl
  | cons event events ih =>
    obtain ⟨hevent, hevents⟩ := List.forall_mem_cons.mp h
    rw [settle, hevent]
    exact ih hevents

/-- What is held beside is still held. -/
theorem settle_frame {events : List ω} {held held' : List ρ}
    (h : settle entry events held = some held') (beside : List ρ) :
    settle entry events (held ++ beside) = some (held' ++ beside) := by
  induction events generalizing held with
  | nil =>
    obtain rfl := Option.some.inj h
    rfl
  | cons event events ih =>
    rw [settle] at h ⊢
    split at h
    · exact ih h
    · next r _ => exact @ih (r :: held) h
    · next r _ =>
      split at h
      · next hmem =>
        rw [if_pos (List.mem_append_left _ hmem), List.erase_append_left _ hmem]
        exact ih h
      · exact absurd h (by simp)

/-- The order in which things are held does not matter. -/
theorem settle_perm {events : List ω} {held other held' : List ρ}
    (h : settle entry events held = some held') (hperm : held.Perm other) :
    ∃ other', settle entry events other = some other' ∧ held'.Perm other' := by
  induction events generalizing held other with
  | nil =>
    obtain rfl := Option.some.inj h
    exact ⟨other, rfl, hperm⟩
  | cons event events ih =>
    rw [settle] at h ⊢
    split at h
    · exact ih h hperm
    · next r _ => exact ih h (hperm.cons r)
    · next r _ =>
      split at h
      · next hmem =>
        rw [if_pos (hperm.mem_iff.mp hmem)]
        exact ih h (hperm.erase r)
      · exact absurd h (by simp)

/-- How often a resource is acquired in a trace. -/
def acquired (entry : ω → Option (Entry ρ)) (r : ρ) (events : List ω) : Nat :=
  events.countP fun event => entry event == some (.acquire r)

/-- How often a resource is released in a trace. -/
def released (entry : ω → Option (Entry ρ)) (r : ρ) (events : List ω) : Nat :=
  events.countP fun event => entry event == some (.release r)

/-- The balance: what was held and came to it is what was given back and is held. -/
theorem settle_count {events : List ω} {held held' : List ρ}
    (h : settle entry events held = some held') (r : ρ) :
    acquired entry r events + held.count r = released entry r events + held'.count r := by
  unfold acquired released
  induction events generalizing held with
  | nil =>
    obtain rfl := Option.some.inj h
    rfl
  | cons event events ih =>
    rw [settle] at h
    rw [List.countP_cons, List.countP_cons]
    split at h
    · next hnone =>
      rw [hnone]
      simpa using ih h
    · next s hsome =>
      have hrest := ih h
      rw [List.count_cons] at hrest
      rw [hsome]
      by_cases hs : s = r
      · subst hs
        simp at hrest ⊢
        omega
      · simp [hs] at hrest ⊢
        omega
    · next s hsome =>
      split at h
      · next hmem =>
        have hrest := ih h
        rw [hsome]
        by_cases hs : s = r
        · subst hs
          have hpos := List.count_pos_iff.mpr hmem
          rw [List.count_erase_self] at hrest
          simp
          omega
        · rw [List.count_erase_of_ne (Ne.symm hs)] at hrest
          simpa [hs] using hrest
      · exact absurd h (by simp)

/-- What came to nothing being held was released as often as it was acquired. -/
theorem settle_closed {events : List ω} (h : settle entry events ([] : List ρ) = some [])
    (r : ρ) : released entry r events = acquired entry r events := by
  simpa using (settle_count h r).symm

/-- No resource is ever released that is not held: not in any part of the trace from its start. -/
theorem settle_take {events : List ω} {held' : List ρ}
    (h : settle entry events ([] : List ρ) = some held') (n : Nat) (r : ρ) :
    released entry r (events.take n) ≤ acquired entry r (events.take n) := by
  rw [← List.take_append_drop n events, settle_append] at h
  obtain ⟨held, hheld, -⟩ := Option.bind_eq_some_iff.mp h
  have hcount := settle_count hheld r
  rw [List.count_nil] at hcount
  omega

/-! ## Uses -/

/-- The events lead from what is held to what is held after them, and each uses only what is held
when it comes. -/
structure Keeps (entry : ω → Option (Entry ρ)) (uses : ω → List ρ) (events : List ω)
    (held held' : List ρ) : Prop where
  settles : settle entry events held = some held'
  uses_held : ∀ i event, events[i]? = some event → ∀ r ∈ uses event, ∃ before,
    settle entry (events.take i) held = some before ∧ r ∈ before

/-- Each event uses only what is held, or is acquired by an event before it. -/
def UsesOnly (acquires : ω → Option ρ) (uses : ω → List ρ) : List ω → List ρ → Prop
  | [], _ => True
  | event :: events, held =>
    (∀ r ∈ uses event, r ∈ held) ∧
      UsesOnly acquires uses events ((acquires event).toList ++ held)

section UsesOnly

variable {acquires : ω → Option ρ} {uses : ω → List ρ} {events : List ω} {held : List ρ}

omit [DecidableEq ρ] in
theorem UsesOnly.mono (h : UsesOnly acquires uses events held) {more : List ρ}
    (hmore : ∀ r ∈ held, r ∈ more) : UsesOnly acquires uses events more := by
  induction events generalizing held more with
  | nil => trivial
  | cons event events ih =>
    refine ⟨fun r hr => hmore r (h.1 r hr), ih h.2 fun r hr => ?_⟩
    exact (List.mem_append.mp hr).elim (List.mem_append_left _)
      fun hr => List.mem_append_right _ (hmore r hr)

omit [DecidableEq ρ] in
/-- Events that acquire nothing. -/
theorem UsesOnly.of_uses
    (h : ∀ event ∈ events, acquires event = none ∧ ∀ r ∈ uses event, r ∈ held) :
    UsesOnly acquires uses events held := by
  induction events with
  | nil => trivial
  | cons event events ih =>
    obtain ⟨⟨hacquires, huses⟩, hevents⟩ := List.forall_mem_cons.mp h
    refine ⟨huses, ?_⟩
    rw [hacquires]
    exact ih hevents

omit [DecidableEq ρ] in
/-- Where a resource that is used comes from. -/
theorem UsesOnly.comes_from (h : UsesOnly acquires uses events held) {i : Nat} {event : ω}
    (hi : events[i]? = some event) :
    ∀ r ∈ uses event, r ∈ held ∨ r ∈ (events.take i).filterMap acquires := by
  induction events generalizing held i with
  | nil => exact absurd hi (by simp)
  | cons first events ih =>
    cases i with
    | zero =>
      obtain rfl := Option.some.inj hi
      exact fun r hr => .inl (h.1 r hr)
    | succ i =>
      intro r hr
      rw [List.take_succ_cons, ← List.singleton_append, List.filterMap_append, List.mem_append]
      rcases ih h.2 hi r hr with hmem | hmem
      · rcases List.mem_append.mp hmem with hmem | hmem
        · refine .inr (.inl (List.mem_filterMap.mpr ⟨first, by simp, ?_⟩))
          exact Option.mem_toList.mp hmem
        · exact .inl hmem
      · exact .inr (.inr hmem)

omit [DecidableEq ρ] in
theorem UsesOnly.map {ω' : Type*} {f : ω' → ω} {events : List ω'}
    (h : UsesOnly (acquires ∘ f) (uses ∘ f) events held) :
    UsesOnly acquires uses (events.map f) held := by
  induction events generalizing held with
  | nil => trivial
  | cons event events ih => exact ⟨h.1, ih h.2⟩

end UsesOnly

section Keeps

variable {uses : ω → List ρ}

theorem Keeps.nil (held : List ρ) : Keeps entry uses [] held held :=
  ⟨rfl, fun i event h => absurd h (by simp)⟩

theorem Keeps.append {events more : List ω} {held held' held'' : List ρ}
    (h : Keeps entry uses events held held') (h' : Keeps entry uses more held' held'') :
    Keeps entry uses (events ++ more) held held'' := by
  refine ⟨by rw [settle_append, h.settles]; exact h'.settles, fun i event hi r hr => ?_⟩
  by_cases hlt : i < events.length
  · rw [List.getElem?_append_left hlt] at hi
    rw [List.take_append_of_le_length (Nat.le_of_lt hlt)]
    exact h.uses_held i event hi r hr
  · obtain ⟨j, rfl⟩ := Nat.exists_eq_add_of_le (Nat.le_of_not_lt hlt)
    rw [List.getElem?_append_right (Nat.le_add_right _ _), Nat.add_sub_cancel_left] at hi
    obtain ⟨before, hbefore, hmem⟩ := h'.uses_held j event hi r hr
    refine ⟨before, ?_, hmem⟩
    rw [List.take_length_add_append, settle_append, h.settles]
    exact hbefore

/-- One event. -/
theorem Keeps.single {event : ω} {held held' : List ρ}
    (hsettles : settle entry [event] held = some held')
    (huses : ∀ r ∈ uses event, r ∈ held) : Keeps entry uses [event] held held' := by
  refine ⟨hsettles, fun i e hi r hr => ?_⟩
  cases i with
  | zero =>
    obtain rfl := Option.some.inj hi
    exact ⟨held, rfl, huses r hr⟩
  | succ i => exact absurd hi (by simp)

theorem Keeps.cons {event : ω} {events : List ω} {held held' held'' : List ρ}
    (hsettles : settle entry [event] held = some held') (huses : ∀ r ∈ uses event, r ∈ held)
    (h : Keeps entry uses events held' held'') :
    Keeps entry uses (event :: events) held held'' := (Keeps.single hsettles huses).append h

/-- What is held beside, and the order in which things are held, do not matter. -/
theorem Keeps.within {events : List ω} {held held' other : List ρ}
    (h : Keeps entry uses events held held') {beside : List ρ}
    (hperm : (held ++ beside).Perm other) :
    ∃ other', Keeps entry uses events other other' ∧ (held' ++ beside).Perm other' := by
  obtain ⟨other', hother, hperm'⟩ := settle_perm (settle_frame h.settles beside) hperm
  refine ⟨other', ⟨hother, fun i event hi r hr => ?_⟩, hperm'⟩
  obtain ⟨before, hbefore, hmem⟩ := h.uses_held i event hi r hr
  obtain ⟨before', hbefore', hmore⟩ := settle_perm (settle_frame hbefore beside) hperm
  exact ⟨before', hbefore', hmore.mem_iff.mp (List.mem_append_left _ hmem)⟩

/-- Events that release nothing. -/
theorem Keeps.of_acquires {acquires : ω → Option ρ} {events : List ω} {held : List ρ}
    (hentry : ∀ event ∈ events, entry event = (acquires event).map .acquire)
    (huses : UsesOnly acquires uses events held) :
    Keeps entry uses events held ((events.filterMap acquires).reverse ++ held) := by
  induction events generalizing held with
  | nil => exact .nil held
  | cons event events ih =>
    obtain ⟨hevent, hevents⟩ := List.forall_mem_cons.mp hentry
    obtain ⟨huses, hrest⟩ := huses
    rw [List.filterMap_cons]
    cases hacquires : acquires event with
    | none =>
      rw [hacquires, Option.map_none] at hevent
      rw [hacquires] at hrest
      exact .cons (settle_of_none (by simpa using hevent) held) huses (ih hevents hrest)
    | some s =>
      rw [hacquires, Option.map_some] at hevent
      rw [hacquires] at hrest
      rw [List.reverse_cons, List.append_assoc, List.singleton_append]
      exact .cons (by simp [settle, hevent]) huses (ih hevents hrest)

end Keeps

end Settle

end Umsftpd.Systems
