import Umsftpd.CLib.Posix

/-!
# The calls of a run

Rules for the calls that a run makes, whatever the outcomes of its allocations: a relation between
the result of a run and the calls it made on the way is followed from call to call.
-/

namespace Umsftpd.CLib.Exec

variable {α β : Type} {os : Os}

/-- A run that returns adds calls to those that were made, and they and its result satisfy `R`. -/
def Traces (x : Exec α) (os : Os) (R : α → List SysCall → Prop) : Prop :=
  ∀ w a w', x os w = some (a, w') → ∃ calls, w'.calls = w.calls ++ calls ∧ R a calls

section Traces

variable {R : α → List SysCall → Prop} {S : β → List SysCall → Prop}

theorem Traces.pure {a : α} (h : R a []) : Traces (Pure.pure a) os R := by
  intro w b w' hrun
  obtain ⟨rfl, rfl⟩ := Prod.mk.inj (Option.some.inj hrun)
  exact ⟨[], (List.append_nil _).symm, h⟩

theorem Traces.bind {x : Exec α} {f : α → Exec β} (hx : Traces x os R)
    (hf : ∀ a calls, R a calls → Traces (f a) os fun b more => S b (calls ++ more)) :
    Traces (x >>= f) os S := by
  intro w b w' hrun
  rw [bind_apply] at hrun
  obtain ⟨⟨a, w1⟩, hrun1, hrun2⟩ := Option.bind_eq_some_iff.mp hrun
  obtain ⟨calls, hcalls, hR⟩ := hx w a w1 hrun1
  obtain ⟨more, hmore, hS⟩ := hf a calls hR w1 b w' hrun2
  exact ⟨calls ++ more, by rw [hmore, hcalls, List.append_assoc], hS⟩

theorem Traces.malloc {f : Bool → Exec β} (h : ∀ ok, Traces (f ok) os S) :
    Traces (Exec.malloc >>= f) os S := by
  intro w b w' hrun
  rw [bind_apply, malloc_run, Option.bind_some] at hrun
  exact h _ w.allocated b w' hrun

theorem Traces.checked {x : Option α} {f : α → Exec β}
    (h : ∀ a, x = some a → Traces (f a) os S) : Traces (Exec.checked x >>= f) os S := by
  intro w b w' hrun
  cases x with
  | none => exact absurd hrun (by simp)
  | some a => exact h a rfl w b w' hrun

theorem Traces.call {c : SysCall} {ask : Os → α} {f : α → Exec β}
    (h : Traces (f (ask os)) os fun b more => S b (c :: more)) :
    Traces (Exec.call c ask >>= f) os S := by
  intro w b w' hrun
  obtain ⟨more, hmore, hS⟩ := h { w with calls := w.calls ++ [c] } b w' hrun
  exact ⟨c :: more, by rw [hmore, List.append_assoc]; rfl, hS⟩

theorem Traces.opendir {path : Option CStr} {f : Except Errno Dir → Exec β}
    (h : (path = none → os.opendirNull = true) →
      Traces (f (os.opendir path)) os fun b more => S b (.opendir path :: more)) :
    Traces (Exec.opendir path >>= f) os S := by
  intro w b w' hrun
  rw [bind_apply] at hrun
  obtain ⟨⟨answer, w1⟩, hopendir, hrest⟩ := Option.bind_eq_some_iff.mp hrun
  obtain ⟨rfl, rfl, hpath⟩ := opendir_eq_some hopendir
  obtain ⟨more, hmore, hS⟩ := h hpath _ b w' hrest
  exact ⟨.opendir path :: more, by rw [hmore, List.append_assoc]; rfl, hS⟩

/-- A call that is the last one. -/
theorem Traces.last {c : SysCall} {ask : Os → α} (h : R (ask os) [c]) :
    Traces (Exec.call c ask) os R := by
  intro w a w' hrun
  obtain ⟨rfl, rfl⟩ := Prod.mk.inj (Option.some.inj hrun)
  exact ⟨[c], rfl, h⟩

theorem Traces.mono {R' : α → List SysCall → Prop} {x : Exec α} (h : Traces x os R)
    (hR : ∀ a calls, R a calls → R' a calls) : Traces x os R' := by
  intro w a w' hrun
  obtain ⟨calls, hcalls, hR1⟩ := h w a w' hrun
  exact ⟨calls, hcalls, hR a calls hR1⟩

/-- What is known of the result anyway. -/
theorem Traces.yields {Q : α → Prop} {x : Exec α} (h : Traces x os R) (hQ : Yields x Q) :
    Traces x os fun a calls => Q a ∧ R a calls := by
  intro w a w' hrun
  obtain ⟨calls, hcalls, hR⟩ := h w a w' hrun
  exact ⟨calls, hcalls, hQ os w a w' hrun, hR⟩

/-- The calls of a run that starts with none. -/
theorem Traces.result {x : Exec α} (h : Traces x os R) {mallocs : List Bool} {a : α} {w' : World}
    (hrun : x os ⟨mallocs, []⟩ = some (a, w')) : R a w'.calls := by
  obtain ⟨calls, hcalls, hR⟩ := h _ a w' hrun
  rw [hcalls]
  exact hR

end Traces

/-- Every call that a run makes satisfies `P`. -/
def Only (P : SysCall → Prop) (x : Exec α) (os : Os) : Prop :=
  Traces x os fun _ calls => ∀ c ∈ calls, P c

section Only

variable {P : SysCall → Prop}

theorem Only.pure (a : α) : Only P (Pure.pure a) os := Traces.pure (by simp)

theorem Only.bind {x : Exec α} {f : α → Exec β} (hx : Only P x os)
    (hf : ∀ a, Only P (f a) os) : Only P (x >>= f) os := by
  apply Traces.bind hx
  intro a calls hcalls
  apply (hf a).mono
  intro _ more hmore
  exact List.forall_mem_append.mpr ⟨hcalls, hmore⟩

theorem Only.malloc {f : Bool → Exec β} (h : ∀ ok, Only P (f ok) os) :
    Only P (Exec.malloc >>= f) os := Traces.malloc h

theorem Only.checked {x : Option α} {f : α → Exec β} (h : ∀ a, x = some a → Only P (f a) os) :
    Only P (Exec.checked x >>= f) os := Traces.checked h

theorem Only.last {c : SysCall} {ask : Os → α} (h : P c) : Only P (Exec.call c ask) os :=
  Traces.last (by simpa using h)

theorem Only.call {c : SysCall} {ask : Os → α} {f : α → Exec β} (hP : P c)
    (h : Only P (f (ask os)) os) : Only P (Exec.call c ask >>= f) os := by
  apply Traces.call
  apply h.mono
  intro _ more hmore
  exact List.forall_mem_cons.mpr ⟨hP, hmore⟩

theorem Only.opendir {path : Option CStr} {f : Except Errno Dir → Exec β} (hP : P (.opendir path))
    (h : Only P (f (os.opendir path)) os) : Only P (Exec.opendir path >>= f) os := by
  refine Traces.opendir fun _ => h.mono ?_
  intro _ more hmore
  exact List.forall_mem_cons.mpr ⟨hP, hmore⟩

theorem Only.ite {p : Prop} [Decidable p] {x y : Exec α} (hx : p → Only P x os)
    (hy : ¬p → Only P y os) : Only P (if p then x else y) os := by
  by_cases h : p
  · rw [if_pos h]
    exact hx h
  · rw [if_neg h]
    exact hy h

end Only

end Umsftpd.CLib.Exec
