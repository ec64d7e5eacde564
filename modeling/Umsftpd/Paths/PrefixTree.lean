import Mathlib

/-!
# Trees given by their paths

A tree with values at its nodes, as the partial function from paths to values. Planting a leaf
fills the gaps above it with blanks and never touches a value that is there; a declaration is
planted unless its place is taken. The value inherited at a path is gathered along the path from
the root down.

The two results are what a tree is after a list of declarations that all found their place free
(`declareAll_apply`), and when they all do (`declareAll_accepted`). Both are about the list as a
set, so the order of the declarations is not in them.
-/

namespace Umsftpd.Paths

variable {α β γ δ : Type*}

/-- The values of a tree by path, `none` where there is no node. -/
abbrev PathTree (α β : Type*) := List α → Option β

namespace PathTree

/-- The tree without nodes. -/
def empty : PathTree α β := fun _ => none

/-! ## Inheriting -/

/-- What the nodes on the way to `path` add up to, the root's value first. -/
def inherit (step : γ → β → γ) (init : γ) (t : PathTree α β) (path : List α) : γ :=
  (path.inits.filterMap t).foldl step init

/-- The nodes on the way to a child are those on the way to its parent, and the child. -/
theorem inherit_concat (step : γ → β → γ) (init : γ) (t : PathTree α β) (path : List α) (a : α) :
    inherit step init t (path ++ [a]) =
      (t (path ++ [a])).elim (inherit step init t path) (step (inherit step init t path)) := by
  unfold inherit
  rw [List.inits_append, List.filterMap_append, List.foldl_append]
  cases h : t (path ++ [a]) <;> simp [h]

/-- Gathering commutes with a translation of what is gathered. -/
theorem inherit_map (step : γ → β → γ) (step' : δ → β → δ) (f : γ → δ)
    (hstep : ∀ g b, f (step g b) = step' (f g) b) (init : γ) (t : PathTree α β) (path : List α) :
    f (inherit step init t path) = inherit step' (f init) t path := by
  unfold inherit
  exact (List.foldl_hom f fun g b => (hstep g b).symm).symm

/-- Gathering reads the values through a function just as well. -/
theorem inherit_comp {β' : Type*} (step : γ → β' → γ) (f : β → β') (init : γ) (t : PathTree α β)
    (path : List α) :
    inherit step init (fun p => (t p).map f) path = inherit (fun g b => step g (f b)) init t path
    := by
  unfold inherit
  have hmap : path.inits.filterMap (fun p => (t p).map f) = (path.inits.filterMap t).map f :=
    List.map_filterMap.symm
  rw [hmap, List.foldl_map]

/-- Nodes that add nothing may stand in the gaps. -/
theorem inherit_or (step : γ → β → γ) (init : γ) (t gaps : PathTree α β)
    (hneutral : ∀ p b, gaps p = some b → ∀ g, step g b = g) (path : List α) :
    inherit step init (fun p => (t p).or (gaps p)) path = inherit step init t path := by
  unfold inherit
  generalize path.inits = ps
  induction ps generalizing init with
  | nil => rfl
  | cons p ps ih =>
    rw [List.filterMap_cons, List.filterMap_cons]
    cases ht : t p with
    | some b => simp [ih]
    | none =>
      cases hg : gaps p with
      | none => simp [ih]
      | some b => simp [ih, hneutral p b hg]

/-- A relation that every node on the way preserves holds of what is gathered. -/
theorem inherit_rel {R : γ → δ → Prop} (step : γ → β → γ) (step' : δ → β → δ)
    {t : PathTree α β} (hstep : ∀ p b g d, t p = some b → R g d → R (step g b) (step' d b))
    {g : γ} {d : δ} (hinit : R g d) (path : List α) :
    R (inherit step g t path) (inherit step' d t path) := by
  unfold inherit
  have hnodes : ∀ b ∈ path.inits.filterMap t, ∃ p, t p = some b :=
    fun b hb => (List.mem_filterMap.mp hb).imp fun _ h => h.2
  generalize path.inits.filterMap t = bs at hnodes ⊢
  induction bs generalizing g d with
  | nil => exact hinit
  | cons b bs ih =>
    obtain ⟨⟨p, hp⟩, hrest⟩ := List.forall_mem_cons.mp hnodes
    exact ih (hstep p b g d hp hinit) hrest

/-- The last node with a property is what is left when each of them replaces the one before. -/
theorem inherit_last (p : β → Bool) (t : PathTree α β) (path : List α) :
    inherit (fun last b => if p b then some b else last) none t path =
      ((path.inits.filterMap t).filter p).getLast? := by
  unfold inherit
  induction path.inits.filterMap t using List.reverseRecOn with
  | nil => rfl
  | append_singleton l b ih =>
    rw [List.foldl_append, List.foldl_cons, List.foldl_nil, ih, List.filter_append]
    cases h : p b <;> simp [h]

/-! ## Planting -/

section Planting

variable [DecidableEq α] (blank : List α → β)

/-- Set the value at `path`, unless there is one. -/
def put (t : PathTree α β) (path : List α) (b : β) : PathTree α β := fun q =>
  (t q).or (if q = path then some b else none)

/-- Fill the way from `pre` on with blanks and put `leaf` at its end. -/
def plantFrom (leaf : β) : List α → List α → PathTree α β → PathTree α β
  | pre, [], t => t.put pre leaf
  | pre, a :: rest, t => plantFrom leaf (pre ++ [a]) rest (t.put pre (blank pre))

def plant (t : PathTree α β) (path : List α) (leaf : β) : PathTree α β :=
  plantFrom blank leaf [] path t

/-- The blanks stand at the proper prefixes, and nothing that was there is lost. -/
theorem plantFrom_apply (leaf : β) (pre rest : List α) (t : PathTree α β) (q : List α) :
    plantFrom blank leaf pre rest t q =
      (t q).or (if q = pre ++ rest then some leaf
        else if pre <+: q ∧ q <+: pre ++ rest then some (blank q) else none) := by
  induction rest generalizing pre t with
  | nil =>
    rw [plantFrom, put, List.append_nil]
    by_cases hq : q = pre
    · simp [hq]
    · have hno : ¬(pre <+: q ∧ q <+: pre) := fun h =>
        hq (h.2.eq_of_length_le h.1.length_le)
      rw [if_neg hq, if_neg hq, if_neg hno]
  | cons a rest ih =>
    rw [plantFrom, ih, put, Option.or_assoc, List.append_assoc, List.singleton_append]
    congr 1
    by_cases hq : q = pre
    · subst hq
      have hne : q ≠ q ++ a :: rest := by simp
      rw [if_pos rfl, Option.some_or, if_neg hne, if_pos ⟨List.prefix_rfl, List.prefix_append _ _⟩]
    · rw [if_neg hq, Option.none_or]
      have hiff : (pre ++ [a] <+: q ∧ q <+: pre ++ a :: rest) ↔
          (pre <+: q ∧ q <+: pre ++ a :: rest) := by
        constructor
        · rintro ⟨h1, h2⟩
          exact ⟨(List.prefix_append _ _).trans h1, h2⟩
        · rintro ⟨⟨s, rfl⟩, h2⟩
          refine ⟨?_, h2⟩
          have h3 := (List.prefix_append_right_inj pre).mp h2
          cases s with
          | nil => simp at hq
          | cons b s =>
            obtain ⟨rfl, -⟩ := List.cons_prefix_cons.mp h3
            simp
      simp only [hiff]

theorem plant_apply (t : PathTree α β) (path : List α) (leaf : β) (q : List α) :
    plant blank t path leaf q =
      (t q).or (if q = path then some leaf else if q <+: path then some (blank q) else none) := by
  unfold plant
  rw [plantFrom_apply, List.nil_append]
  simp

/-- A place is free after planting when it was and is not on the way. -/
theorem plant_eq_none {t : PathTree α β} {path q : List α} {leaf : β} :
    plant blank t path leaf q = none ↔ t q = none ∧ ¬q <+: path := by
  rw [plant_apply, Option.or_eq_none_iff]
  apply and_congr_right
  intro _
  by_cases hq : q = path
  · simp [hq]
  · simp [hq]

/-! ## Declaring -/

/-- Plant a leaf where there is no node yet. -/
def declare (t : PathTree α β) (d : List α × β) : Bool × PathTree α β :=
  if (t d.1).isSome then (false, t) else (true, plant blank t d.1 d.2)

/-- Declare one leaf after the other, with the answers. -/
def declareAll : List (List α × β) → PathTree α β → List Bool × PathTree α β
  | [], t => ([], t)
  | d :: ds, t =>
    let (ok, t) := declare blank t d
    let (oks, t) := declareAll ds t
    (ok :: oks, t)

/-- Every declaration of the list found its place free. -/
def Accepted (ds : List (List α × β)) (t : PathTree α β) : Prop :=
  ∀ ok ∈ (declareAll blank ds t).1, ok = true

theorem accepted_nil (t : PathTree α β) : Accepted blank [] t := by
  intro ok hok
  simp [declareAll] at hok

theorem accepted_cons {d : List α × β} {ds : List (List α × β)} {t : PathTree α β} :
    Accepted blank (d :: ds) t ↔ t d.1 = none ∧ Accepted blank ds (plant blank t d.1 d.2) := by
  unfold Accepted
  rw [declareAll, declare]
  cases h : t d.1 <;> simp

theorem declareAll_cons_of_free {d : List α × β} {ds : List (List α × β)} {t : PathTree α β}
    (h : t d.1 = none) :
    (declareAll blank (d :: ds) t).2 = (declareAll blank ds (plant blank t d.1 d.2)).2 := by
  rw [declareAll, declare, h]
  rfl

/-- All declarations are accepted when their places are free at the start and none of them comes
after one at or below its place. -/
theorem declareAll_accepted {ds : List (List α × β)} {t : PathTree α β} :
    Accepted blank ds t ↔
      (∀ d ∈ ds, t d.1 = none) ∧ ds.Pairwise fun d e => ¬e.1 <+: d.1 := by
  induction ds generalizing t with
  | nil => simp [accepted_nil]
  | cons d ds ih =>
    rw [accepted_cons, ih, List.pairwise_cons, List.forall_mem_cons]
    simp only [plant_eq_none]
    constructor
    · rintro ⟨hd, hds, hpair⟩
      exact ⟨⟨hd, fun e he => (hds e he).1⟩, fun e he => (hds e he).2, hpair⟩
    · rintro ⟨⟨hd, hfree⟩, hbelow, hpair⟩
      exact ⟨hd, fun e he => ⟨hfree e he, hbelow e he⟩, hpair⟩

/-- The value declared for a path. -/
def leafAt (ds : List (List α × β)) : PathTree α β := fun q =>
  (ds.find? fun d => decide (d.1 = q)).map Prod.snd

/-- The tree after declarations that were all accepted: their leaves, blanks above them, and what
was there before. By induction on the declarations; the first of them on a path settles it. -/
theorem declareAll_apply {ds : List (List α × β)} {t : PathTree α β} (h : Accepted blank ds t)
    (q : List α) :
    (declareAll blank ds t).2 q =
      (t q).or ((leafAt ds q).or (if ∃ d ∈ ds, q <+: d.1 then some (blank q) else none)) := by
  induction ds generalizing t with
  | nil => simp [declareAll, leafAt]
  | cons d ds ih =>
    obtain ⟨hfree, hds⟩ := (accepted_cons blank).mp h
    rw [declareAll_cons_of_free blank hfree, ih hds, plant_apply, Option.or_assoc]
    congr 1
    by_cases hq : q = d.1
    · simp [hq, leafAt]
    · have hcons : leafAt (d :: ds) q = leafAt ds q := by
        simp [leafAt, Ne.symm hq]
      rw [if_neg hq, hcons]
      by_cases hpre : q <+: d.1
      · have hlate : leafAt ds q = none := by
          have hpair := ((declareAll_accepted blank).mp h).2
          have hnot := (List.pairwise_cons.mp hpair).1
          have hnone : ds.find? (fun e => decide (e.1 = q)) = none := by
            rw [List.find?_eq_none]
            intro e he heq
            exact hnot e he (by rwa [of_decide_eq_true heq])
          rw [leafAt, hnone]
          rfl
        simp [hpre, hlate]
      · simp only [List.exists_mem_cons_iff, hpre, false_or, if_false, Option.none_or]

/-- With pairwise distinct places, what is declared for a path does not depend on the order. -/
theorem leafAt_perm {ds es : List (List α × β)} (hp : ds.Perm es)
    (hd : ds.Pairwise fun d e => d.1 ≠ e.1) (q : List α) : leafAt ds q = leafAt es q := by
  unfold leafAt
  congr 1
  have hsome : ∀ {l : List (List α × β)}, (l.Pairwise fun d e => d.1 ≠ e.1) → ∀ d,
      l.find? (fun d => decide (d.1 = q)) = some d ↔ d ∈ l ∧ d.1 = q := by
    intro l hl d
    constructor
    · intro h
      exact ⟨List.mem_of_find?_eq_some h, by simpa using List.find?_some h⟩
    · rintro ⟨hmem, hq⟩
      cases hfind : l.find? (fun d => decide (d.1 = q)) with
      | none =>
        rw [List.find?_eq_none] at hfind
        exact absurd (decide_eq_true hq) (hfind d hmem)
      | some e =>
        have he : e.1 = q := by simpa using List.find?_some hfind
        by_contra hne
        have hne' : e ≠ d := fun h => hne (by rw [h])
        have hsymm : Std.Symm fun d e : List α × β => d.1 ≠ e.1 := ⟨fun _ _ h => h.symm⟩
        exact hl.forall (List.mem_of_find?_eq_some hfind) hmem hne' (by rw [he, hq])
  ext d
  have he : es.Pairwise fun d e => d.1 ≠ e.1 := hp.pairwise hd fun h => h.symm
  rw [hsome hd, hsome he, hp.mem_iff]

end Planting

end PathTree

end Umsftpd.Paths
