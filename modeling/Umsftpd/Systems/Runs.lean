import Mathlib

/-!
# Runs of systems with outputs

A step leads from a state to a state and makes some outputs. A run collects the outputs of its
steps, and what holds along it is proved step by step.
-/

namespace Umsftpd.Systems

variable {σ ω : Type*}

/-- Any number of steps. -/
inductive Run (Step : σ → List ω → σ → Prop) (s : σ) : List ω → σ → Prop
  | start : Run Step s [] s
  | step {outputs more : List ω} {t u : σ} (hrun : Run Step s outputs t)
      (hstep : Step t more u) : Run Step s (outputs ++ more) u

section Run

variable {Step : σ → List ω → σ → Prop}

/-- What holds of the outputs and the state is preserved by a step, so it is by a run. -/
theorem Run.preserves {History : List ω → σ → Prop} {s t : σ} {outputs : List ω}
    (hrun : Run Step s outputs t) {before : List ω} (hstart : History before s)
    (hstep : ∀ outputs more t u, History outputs t → Step t more u →
      History (outputs ++ more) u) :
    History (before ++ outputs) t := by
  induction hrun with
  | start => rwa [List.append_nil]
  | step hrun hnext ih =>
    rw [← List.append_assoc]
    exact hstep _ _ _ _ ih hnext

/-- An order that every step from a state of the invariant respects relates the ends of a run. -/
theorem Run.relates {Inv : σ → Prop} {R : σ → σ → Prop} {s t : σ} {outputs : List ω}
    (hrun : Run Step s outputs t) (hinv : Inv s) (hrefl : R s s)
    (htrans : ∀ {a b c}, R a b → R b c → R a c)
    (hstep : ∀ t more u, Inv t → Step t more u → Inv u ∧ R t u) : R s t := by
  have hboth : Inv t ∧ R s t := by
    induction hrun with
    | start => exact ⟨hinv, hrefl⟩
    | step hrun hnext ih =>
      obtain ⟨hinv', hR⟩ := hstep _ _ _ ih.1 hnext
      exact ⟨hinv', htrans ih.2 hR⟩
  exact hboth.2

/-- What a step preserves and what it puts out, over a run. -/
theorem Run.invariant {I : σ → Prop} {P : ω → Prop} {s t : σ} {outputs : List ω}
    (hrun : Run Step s outputs t) (hinv : I s)
    (hstep : ∀ t more u, I t → Step t more u → I u ∧ ∀ o ∈ more, P o) :
    I t ∧ ∀ o ∈ outputs, P o := by
  induction hrun with
  | start => exact ⟨hinv, by simp⟩
  | step hrun hnext ih =>
    obtain ⟨hinv', hP⟩ := hstep _ _ _ ih.1 hnext
    exact ⟨hinv', List.forall_mem_append.mpr ⟨ih.2, hP⟩⟩

/-- A machine that reads the outputs follows the run: it is in a related state at each of them. -/
theorem Run.follows {τ : Type*} {R : σ → τ → Prop} {next : τ → ω → τ} {P : τ → ω → Prop}
    {s t : σ} {outputs : List ω} (hrun : Run Step s outputs t) {a : τ} (hstart : R s a)
    (hstep : ∀ s more t a, R s a → Step s more t →
      ∃ o, more = [o] ∧ P a o ∧ R t (next a o)) :
    R t (outputs.foldl next a) ∧
      ∀ i o, outputs[i]? = some o → P ((outputs.take i).foldl next a) o := by
  induction hrun with
  | start => exact ⟨hstart, fun i o ho => absurd ho (by simp)⟩
  | @step outputs more t u hrun hnext ih =>
    obtain ⟨hrel, hbefore⟩ := ih
    obtain ⟨o, rfl, hP, hrel'⟩ := hstep _ _ _ _ hrel hnext
    refine ⟨by rw [List.foldl_append]; exact hrel', fun i o' ho' => ?_⟩
    rcases lt_trichotomy i outputs.length with hlt | rfl | hgt
    · rw [List.getElem?_append_left hlt] at ho'
      rw [List.take_append_of_le_length (Nat.le_of_lt hlt)]
      exact hbefore i o' ho'
    · rw [List.getElem?_concat_length] at ho'
      obtain rfl := Option.some.inj ho'
      rw [List.take_left]
      exact hP
    · rw [List.getElem?_eq_none (by simpa using hgt)] at ho'
      exact absurd ho' (by simp)

/-- What holds of each output and the outputs before it. -/
theorem Run.along {J : List ω → σ → Prop} {P : List ω → ω → Prop} {s t : σ} {outputs : List ω}
    (hrun : Run Step s outputs t) (hstart : J [] s)
    (hstep : ∀ before more t u, J before t → Step t more u → J (before ++ more) u ∧
      ∀ i o, more[i]? = some o → P (before ++ more.take i) o) :
    J outputs t ∧ ∀ i o, outputs[i]? = some o → P (outputs.take i) o := by
  induction hrun with
  | start => exact ⟨hstart, fun i o ho => absurd ho (by simp)⟩
  | @step outputs more t u hrun hnext ih =>
    obtain ⟨hJ, hmore⟩ := hstep _ _ _ _ ih.1 hnext
    refine ⟨hJ, fun i o ho => ?_⟩
    by_cases hlt : i < outputs.length
    · rw [List.getElem?_append_left hlt] at ho
      rw [List.take_append_of_le_length (Nat.le_of_lt hlt)]
      exact ih.2 i o ho
    · obtain ⟨j, rfl⟩ := Nat.exists_eq_add_of_le (Nat.le_of_not_lt hlt)
      rw [List.getElem?_append_right (Nat.le_add_right _ _), Nat.add_sub_cancel_left] at ho
      rw [List.take_length_add_append]
      exact hmore j o ho

/-- A run all outputs of which are of a kind is a run of the steps with such outputs. -/
theorem Run.restrict {P : ω → Prop} {s t : σ} {outputs : List ω} (hrun : Run Step s outputs t)
    (hP : ∀ o ∈ outputs, P o) :
    Run (fun s more t => Step s more t ∧ ∀ o ∈ more, P o) s outputs t := by
  induction hrun with
  | start => exact .start
  | step hrun hnext ih =>
    obtain ⟨hbefore, hmore⟩ := List.forall_mem_append.mp hP
    exact .step (ih hbefore) ⟨hnext, hmore⟩

theorem Run.single {s t : σ} {outputs : List ω} (h : Step s outputs t) :
    Run Step s outputs t := .step .start h

/-- One run after another. -/
theorem Run.trans {s t u : σ} {outputs more : List ω} (h : Run Step s outputs t)
    (h' : Run Step t more u) : Run Step s (outputs ++ more) u := by
  induction h' with
  | start => rwa [List.append_nil]
  | step _ hnext ih =>
    rw [← List.append_assoc]
    exact .step ih hnext

end Run

end Umsftpd.Systems
