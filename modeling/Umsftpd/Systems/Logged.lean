import Mathlib.Data.List.Basic

/-!
# Computations with a log

A computation may fail, and it logs what it does on the way. What was logged stays when it fails, so
the log tells how far it came.
-/

namespace Umsftpd.Systems

structure Logged (ε β α : Type) where
  log : List β
  result : Except ε α

namespace Logged

variable {ε β α γ : Type}

instance : Monad (Logged ε β) where
  pure a := ⟨[], .ok a⟩
  bind x f := match x.result with
    | .error e => ⟨x.log, .error e⟩
    | .ok a => ⟨x.log ++ (f a).log, (f a).result⟩

/-- A step that is logged as `b`. -/
def step (b : β) (r : Except ε α) : Logged ε β α := ⟨[b], r⟩

/-- A step that is logged entry by entry. -/
def steps (bs : List β) (r : Except ε α) : Logged ε β α := ⟨bs, r⟩

/-- A step that is not logged. -/
def silently (r : Except ε α) : Logged ε β α := ⟨[], r⟩

@[simp] theorem log_pure (a : α) : (pure a : Logged ε β α).log = [] := rfl

@[simp] theorem result_pure (a : α) : (pure a : Logged ε β α).result = .ok a := rfl

@[simp] theorem result_step (b : β) (r : Except ε α) : (step b r).result = r := rfl

@[simp] theorem result_steps (bs : List β) (r : Except ε α) : (steps bs r).result = r := rfl

@[simp] theorem result_silently (r : Except ε α) : (silently r : Logged ε β α).result = r := rfl

/-- The results go together as they do without a log. -/
@[simp] theorem result_bind (x : Logged ε β α) (f : α → Logged ε β γ) :
    (x >>= f).result = x.result >>= fun a => (f a).result := by
  obtain ⟨log, result⟩ := x
  cases result <;> rfl

/-- What comes after is logged after. -/
theorem ok_bind (log : List β) (a : α) (f : α → Logged ε β γ) :
    (⟨log, .ok a⟩ : Logged ε β α) >>= f = ⟨log ++ (f a).log, (f a).result⟩ := rfl

theorem step_bind_ne_nil (b : β) (r : Except ε α) (f : α → Logged ε β γ) :
    (step b r >>= f).log ≠ [] := by
  cases r with
  | error e => exact List.cons_ne_nil _ _
  | ok a => exact List.cons_ne_nil _ _

/-! ## Logs -/

/-- Everything that is logged satisfies `P`. -/
def Logs (P : β → Prop) (x : Logged ε β α) : Prop := ∀ b ∈ x.log, P b

section Logs

variable {P : β → Prop}

theorem Logs.pure (a : α) : Logs P (Pure.pure a : Logged ε β α) := by
  intro b hb
  exact absurd hb List.not_mem_nil

theorem Logs.steps {bs : List β} {r : Except ε α} (h : ∀ b ∈ bs, P b) :
    Logs P (Logged.steps bs r) := h

/-- What comes after needs to be known only for the result that there is. -/
theorem Logs.bind {x : Logged ε β α} {f : α → Logged ε β γ} (hx : Logs P x)
    (hf : ∀ a, x.result = .ok a → Logs P (f a)) : Logs P (x >>= f) := by
  obtain ⟨log, result⟩ := x
  cases result with
  | error e => exact hx
  | ok a =>
    intro b hb
    rcases List.mem_append.mp hb with hb | hb
    · exact hx b hb
    · exact hf a rfl b hb

theorem Logs.step_bind {b : β} {r : Except ε α} {f : α → Logged ε β γ} (hb : P b)
    (hf : ∀ a, r = .ok a → Logs P (f a)) : Logs P (step b r >>= f) := by
  refine Logs.bind (fun b' hb' => ?_) hf
  obtain rfl := List.mem_singleton.mp hb'
  exact hb

end Logs

end Logged

end Umsftpd.Systems
