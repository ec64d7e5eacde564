import Umsftpd.CLib.CString

/-!
# Absolute paths as lists of names

A slash-separated path is its list of components. A component that can stand in a canonical path
is a `Name`, so a list of names is a canonical path by construction, and what strings have to do
with slashes, dots and doubled separators is said once, in the translations `pathOf` (without
anything at the root) and `absPath` (with the root's slash).

`normalize` is the meaning of an arbitrary path: a stack that names are pushed to and `..` pops.
-/

namespace Umsftpd.Paths

open CLib

/-! ## Names -/

/-- What can be a component of a canonical path. -/
def ValidName (s : CStr) : Prop := s ≠ [] ∧ '/' ∉ s ∧ s ≠ ['.'] ∧ s ≠ ['.', '.']

instance (s : CStr) : Decidable (ValidName s) := by unfold ValidName; infer_instance

/-- A component: not empty, without a slash, and neither `.` nor `..`. -/
@[ext] structure Name where
  val : CStr
  valid : ValidName val
  deriving DecidableEq

theorem Name.ne_nil (n : Name) : n.val ≠ [] := n.valid.1

theorem Name.no_slash (n : Name) : '/' ∉ n.val := n.valid.2.1

/-! ## From names to strings -/

/-- Every name with a slash before it; the root is the empty string. -/
def pathOf (cs : List Name) : CStr := cs.flatMap fun n => '/' :: n.val

/-- The absolute path of a list of names; the root is a single slash. -/
def absPath (cs : List Name) : CStr := if cs = [] then ['/'] else pathOf cs

/-- The names with slashes between them only. -/
def joinNames (cs : List Name) : CStr := List.intercalate ['/'] (cs.map Name.val)

@[simp] theorem pathOf_nil : pathOf [] = [] := rfl

@[simp] theorem pathOf_cons (n : Name) (cs : List Name) :
    pathOf (n :: cs) = '/' :: (n.val ++ pathOf cs) := by
  simp [pathOf]

@[simp] theorem pathOf_append (cs ds : List Name) : pathOf (cs ++ ds) = pathOf cs ++ pathOf ds := by
  simp [pathOf]

@[simp] theorem absPath_nil : absPath [] = ['/'] := rfl

theorem absPath_of_ne_nil {cs : List Name} (h : cs ≠ []) : absPath cs = pathOf cs := if_neg h

theorem length_pathOf_le (cs : List Name) : (pathOf cs).length ≤ (absPath cs).length := by
  by_cases h : cs = []
  · subst h
    exact Nat.zero_le _
  · rw [absPath_of_ne_nil h]

@[simp] theorem absPath_cons (n : Name) (cs : List Name) :
    absPath (n :: cs) = pathOf (n :: cs) := rfl

theorem pathOf_eq_nil_iff {cs : List Name} : pathOf cs = [] ↔ cs = [] := by
  cases cs <;> simp

theorem absPath_ne_nil (cs : List Name) : absPath cs ≠ [] := by
  cases cs <;> simp

/-- Dropping the first slash leaves the names joined. -/
theorem pathOf_drop_one (cs : List Name) : (pathOf cs).drop 1 = joinNames cs := by
  induction cs with
  | nil => rfl
  | cons n cs ih =>
    cases cs with
    | nil => simp [joinNames]
    | cons m cs =>
      have ih' : m.val ++ pathOf cs = joinNames (m :: cs) := by simpa using ih
      rw [pathOf_cons, List.drop_one, List.tail_cons, pathOf_cons, ih']
      simp [joinNames, List.intercalate]

/-- A slash, and the names with slashes between them. -/
theorem absPath_eq_cons (cs : List Name) : absPath cs = '/' :: joinNames cs := by
  cases cs with
  | nil => rfl
  | cons n cs =>
    rw [← pathOf_drop_one, absPath_cons, pathOf_cons]
    rfl

/-- A path that has names ends with the last of them, so not with a slash. -/
theorem pathOf_getLast? (cs : List Name) : (pathOf cs).getLast? ≠ some '/' := by
  induction cs using List.reverseRecOn with
  | nil => simp
  | append_singleton cs n _ =>
    have hne := n.ne_nil
    rw [pathOf_append, pathOf_cons, pathOf_nil, List.append_nil, List.getLast?_append_cons,
      List.getLast?_cons_of_ne_nil hne]
    intro h
    exact n.no_slash (List.mem_of_getLast? h)

/-- The first slash of what follows a name ends the name. -/
theorem name_append_inj {n m : Name} {s t : CStr} (hs : s.head? = some '/' ∨ s = [])
    (ht : t.head? = some '/' ∨ t = []) (h : n.val ++ s = m.val ++ t) : n = m ∧ s = t := by
  have cut : ∀ (a : Name) (u : CStr), (u.head? = some '/' ∨ u = []) →
      (a.val ++ u).takeWhile (· != '/') = a.val := by
    intro a u hu
    have hall : ∀ c ∈ a.val, (c != '/') = true := by
      intro c hc
      have hne : c ≠ '/' := fun he => a.no_slash (he ▸ hc)
      simpa using hne
    rw [List.takeWhile_append_of_pos hall]
    rcases hu with hu | rfl
    · cases u with
      | nil => simp
      | cons c u =>
        obtain rfl : c = '/' := by simpa using hu
        simp
    · simp
  have hval : n.val = m.val := by rw [← cut n s hs, ← cut m t ht, h]
  refine ⟨Name.ext hval, ?_⟩
  rw [hval] at h
  exact List.append_cancel_left h

theorem pathOf_head? (cs : List Name) : (pathOf cs).head? = some '/' ∨ pathOf cs = [] := by
  cases cs <;> simp

theorem pathOf_injective : Function.Injective pathOf := by
  intro cs
  induction cs with
  | nil => intro ds h; exact (pathOf_eq_nil_iff.mp h.symm).symm
  | cons n cs ih =>
    intro ds h
    cases ds with
    | nil => simp at h
    | cons m ds =>
      have h' : n.val ++ pathOf cs = m.val ++ pathOf ds := by simpa using h
      obtain ⟨rfl, ht⟩ := name_append_inj (pathOf_head? cs) (pathOf_head? ds) h'
      rw [ih ht]

/-! ## Normalisation -/

/-- What a component does to the stack of names seen so far, whose top is at the end. -/
def pushToken (stack : List Name) (token : CStr) : List Name :=
  if h : ValidName token then stack ++ [⟨token, h⟩]
  else if token = ['.', '.'] then stack.dropLast
  else stack

/-- The names left when the components are processed from left to right. -/
def normalizeFrom (stack : List Name) (tokens : List CStr) : List Name :=
  tokens.foldl pushToken stack

def normalize (tokens : List CStr) : List Name := normalizeFrom [] tokens

@[simp] theorem normalizeFrom_nil (stack : List Name) : normalizeFrom stack [] = stack := rfl

@[simp] theorem normalizeFrom_cons (stack : List Name) (t : CStr) (ts : List CStr) :
    normalizeFrom stack (t :: ts) = normalizeFrom (pushToken stack t) ts := rfl

@[simp] theorem normalizeFrom_append (stack : List Name) (ts us : List CStr) :
    normalizeFrom stack (ts ++ us) = normalizeFrom (normalizeFrom stack ts) us :=
  List.foldl_append

@[simp] theorem pushToken_name (stack : List Name) (n : Name) :
    pushToken stack n.val = stack ++ [n] := dif_pos n.valid

@[simp] theorem pushToken_empty (stack : List Name) : pushToken stack [] = stack := by
  simp [pushToken, ValidName]

@[simp] theorem pushToken_dot (stack : List Name) : pushToken stack ['.'] = stack := by
  simp [pushToken, ValidName]

@[simp] theorem pushToken_dotdot (stack : List Name) :
    pushToken stack ['.', '.'] = stack.dropLast := by
  simp [pushToken, ValidName]

/-- Names are pushed and nothing else happens. -/
theorem normalizeFrom_names (stack cs : List Name) :
    normalizeFrom stack (cs.map Name.val) = stack ++ cs := by
  induction cs generalizing stack with
  | nil => simp
  | cons n cs ih => simp [ih]

/-! ## Components of a string -/

/-- The components of an absolute path, empty ones included: what the slashes separate. -/
def tokensOf (path : CStr) : List CStr := path.tail.splitOn '/'

/-- No component has a slash. -/
theorem not_mem_of_mem_splitOn {path t : CStr} (ht : t ∈ path.splitOn '/') : '/' ∉ t := by
  induction path generalizing t with
  | nil =>
    obtain rfl : t = [] := by simpa using ht
    exact List.not_mem_nil
  | cons c path ih =>
    rw [List.splitOn_cons_eq_if_modifyHead] at ht
    split at ht
    · rcases List.mem_cons.mp ht with rfl | ht
      · exact List.not_mem_nil
      · exact ih ht
    · next hc =>
      obtain ⟨first, rest, hsplit⟩ := List.exists_cons_of_ne_nil (List.splitOn_ne_nil '/' path)
      rw [hsplit, List.modifyHead_cons] at ht
      rcases List.mem_cons.mp ht with rfl | ht
      · intro hmem
        rcases List.mem_cons.mp hmem with rfl | hmem
        · exact hc (beq_self_eq_true _)
        · exact ih (by rw [hsplit]; exact List.mem_cons_self) hmem
      · exact ih (by rw [hsplit]; exact List.mem_cons_of_mem _ ht)

/-- The components of a canonical path are its names. -/
theorem tokensOf_pathOf {cs : List Name} (h : cs ≠ []) :
    tokensOf (pathOf cs) = cs.map Name.val := by
  unfold tokensOf
  rw [← List.drop_one, pathOf_drop_one]
  apply List.splitOn_intercalate
  · intro s hs
    obtain ⟨n, -, rfl⟩ := List.mem_map.mp hs
    exact n.no_slash
  · simpa using h

/-! ## Canonical strings -/

/-- An absolute path without empty, `.` or `..` components, up to one slash at the end. -/
def Canonical (path : CStr) (cs : List Name) : Prop :=
  path = absPath cs ∨ path = pathOf cs ++ ['/']

theorem canonical_absPath (cs : List Name) : Canonical (absPath cs) cs := Or.inl rfl

end Umsftpd.Paths
