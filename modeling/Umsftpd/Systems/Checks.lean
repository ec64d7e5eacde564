import Mathlib

/-!
# Loops that check

A loop goes over the members of a list. Each member has complaints, of which the first ends the
loop, or it updates what the loop builds. So the loop ends with the first complaint of the list, or
with all the updates; and where the members have distinct keys, what is built for a key is what its
member says, wherever in the list that is.
-/

namespace Umsftpd.Systems

variable {σ α ε κ β γ : Type*}

/-- The value, or the first of the complaints. -/
def firstComplaint (complaints : List ε) (value : σ) : Except ε σ :=
  match complaints with
  | [] => .ok value
  | complaint :: _ => .error complaint

@[simp] theorem firstComplaint_nil (value : σ) :
    firstComplaint ([] : List ε) value = .ok value := rfl

@[simp] theorem firstComplaint_cons (complaint : ε) (complaints : List ε) (value : σ) :
    firstComplaint (complaint :: complaints) value = .error complaint := rfl

/-- A member of which the check is passed, and the rest. -/
theorem firstComplaint_bind (complaints more : List ε) (value : σ) (f : σ → σ) :
    (firstComplaint complaints value >>= fun s => firstComplaint more (f s)) =
      firstComplaint (complaints ++ more) (f value) := by
  cases complaints <;> rfl

/-- The loop. -/
theorem foldlM_checks {step : σ → α → Except ε σ} {complaints : α → List ε} {update : σ → α → σ}
    (hstep : ∀ s a, step s a = firstComplaint (complaints a) (update s a)) (s : σ) (l : List α) :
    l.foldlM step s = firstComplaint (l.flatMap complaints) (l.foldl update s) := by
  induction l generalizing s with
  | nil => rfl
  | cons a l ih =>
    rw [List.foldlM_cons, hstep, List.flatMap_cons, List.foldl_cons]
    simp only [ih]
    exact firstComplaint_bind (complaints a) (l.flatMap complaints) (update s a)
      fun s => l.foldl update s

/-! ## Members with keys -/

section Keys

variable [BEq κ] [LawfulBEq κ]

/-- A key that no member has. -/
theorem lookup_eq_none_of_notMem {key : κ} {l : List (κ × β)} (h : key ∉ l.map Prod.fst) :
    l.lookup key = none := by
  rw [List.lookup_eq_none_iff]
  rintro ⟨k, b⟩ hmem
  have hne : key ≠ k := fun heq => h (heq ▸ List.mem_map_of_mem hmem)
  simpa using hne

/-- What the loop builds for a key. -/
theorem foldl_lookup [DecidableEq κ] (update : σ → κ × β → σ) (get : σ → γ) (key : κ)
    (set : γ → β → γ)
    (hupdate : ∀ s a, get (update s a) = if a.1 = key then set (get s) a.2 else get s) (s : σ)
    {l : List (κ × β)} (hnodup : (l.map Prod.fst).Nodup) :
    get (l.foldl update s) = (l.lookup key).elim (get s) (set (get s)) := by
  induction l generalizing s with
  | nil => rfl
  | cons a l ih =>
    obtain ⟨k, b⟩ := a
    rw [List.map_cons, List.nodup_cons] at hnodup
    obtain ⟨hnotMem, hnodup⟩ := hnodup
    rw [List.foldl_cons, ih _ hnodup, hupdate, List.lookup_cons]
    by_cases hkey : k = key
    · subst hkey
      rw [lookup_eq_none_of_notMem hnotMem]
      simp
    · have hne : (key == k) = false := by simpa using Ne.symm hkey
      rw [hne, if_neg hkey]

/-- With distinct keys a member is found by its key. -/
theorem lookup_eq_some_iff_mem {key : κ} {b : β} {l : List (κ × β)}
    (hnodup : (l.map Prod.fst).Nodup) : l.lookup key = some b ↔ (key, b) ∈ l := by
  induction l with
  | nil => simp
  | cons a l ih =>
    obtain ⟨k, c⟩ := a
    rw [List.map_cons, List.nodup_cons] at hnodup
    obtain ⟨hnotMem, hnodup⟩ := hnodup
    rw [List.lookup_cons, List.mem_cons]
    by_cases hkey : key = k
    · subst hkey
      have hno : (key, b) ∉ l := fun hmem =>
        hnotMem (List.mem_map.mpr ⟨(key, b), hmem, rfl⟩)
      simp [hno, eq_comm]
    · have hne : (key == k) = false := by simpa using hkey
      rw [hne, ih hnodup]
      simp [hkey]

/-- The order of the members does not matter to a lookup. -/
theorem lookup_perm {key : κ} {l l' : List (κ × β)} (hperm : l.Perm l')
    (hnodup : (l.map Prod.fst).Nodup) : l'.lookup key = l.lookup key := by
  have hnodup' : (l'.map Prod.fst).Nodup := (hperm.map _).nodup_iff.mp hnodup
  ext b
  rw [lookup_eq_some_iff_mem hnodup', lookup_eq_some_iff_mem hnodup, hperm.mem_iff]

omit [LawfulBEq κ] in
/-- Lists with the same keys in the same order have values that go together for every key. -/
theorem lookup_forall₂ {R : β → γ → Prop} {l : List (κ × β)} {l' : List (κ × γ)}
    (h : List.Forall₂ (fun a b => a.1 = b.1 ∧ R a.2 b.2) l l') (key : κ) :
    Option.Rel R (l.lookup key) (l'.lookup key) := by
  induction h with
  | nil => exact .none
  | @cons a b l l' hab _ ih =>
    obtain ⟨k, v⟩ := a
    obtain ⟨k', v'⟩ := b
    obtain ⟨rfl, hR⟩ : k = k' ∧ R v v' := hab
    rw [List.lookup_cons, List.lookup_cons]
    cases key == k with
    | true => exact .some hR
    | false => exact ih

end Keys

/-! ## Values that go together -/

section Rel

variable {R : β → γ → Prop} {x : Option β} {y : Option γ} {f : β → σ} {g : γ → σ}

/-- What is made of values that go together. -/
theorem elim_of_rel (h : Option.Rel R x y) (hfg : ∀ b c, x = some b → R b c → f b = g c)
    (default : σ) : x.elim default f = y.elim default g := by
  cases h with
  | none => rfl
  | some hR => exact hfg _ _ rfl hR

theorem map_of_rel (h : Option.Rel R x y) (hfg : ∀ b c, x = some b → R b c → f b = g c) :
    x.map f = y.map g := by
  cases h with
  | none => rfl
  | some hR => exact congrArg some (hfg _ _ rfl hR)

end Rel

end Umsftpd.Systems
