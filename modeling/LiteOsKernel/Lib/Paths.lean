import Mathlib.Data.List.Basic
import Mathlib.Data.List.Infix

/-! Paths as texts: the names between the slashes, the directory that they lead to from the root, and the canonical text of a path. -/
namespace LiteOsKernel.Paths

abbrev Name := List Char

/-- The names between the slashes. Empty ones are left out. -/
def components (t : List Char) : List Name := (t.splitOn '/').filter fun c => c ≠ []

/-- From the directory dir, given by its names below the root. -/
def follow (dir : List Name) (c : Name) : List Name :=
  if c = ['.'] then dir else if c = ['.','.'] then dir.dropLast else dir ++ [c]

def resolve (dir cs : List Name) : List Name := cs.foldl follow dir

/-- One leading slash, single ones in between. -/
def absText (cs : List Name) : List Char := '/' :: ['/'].intercalate cs

def canonical (t : List Char) : List Char := absText (resolve [] (components t))

/-- What stands between two slashes. -/
structure Name.Valid (c : Name) : Prop where
  ne_nil : c ≠ []
  slash : '/' ∉ c

/-- A name that leads to an entry of the directory. -/
structure Name.Plain (c : Name) : Prop extends c.Valid where
  dot : c ≠ ['.']
  dotdot : c ≠ ['.','.']

variable {c : Name} {cs dir : List Name} {s t : List Char}

private theorem components_append_slash (s t : List Char) : components (s ++ '/' :: t) = components s ++ components t := by
  rw [components, List.splitOn_append_cons_self, List.filter_append]
  rfl

@[simp] theorem components_nil : components [] = [] := rfl

@[simp] theorem components_slash (t : List Char) : components ('/' :: t) = components t := components_append_slash [] t

theorem components_name (hc : c.Valid) : components c = [c] := by
  rw [components, List.splitOn_eq_singleton hc.slash]
  exact List.filter_cons_of_pos (decide_eq_true hc.ne_nil)

theorem components_name_append (hc : c.Valid) (t : List Char) : components (c ++ '/' :: t) = c :: components t := by
  rw [components_append_slash, components_name hc]
  rfl

private theorem slash_not_mem (t : List Char) : ∀ c ∈ t.splitOn '/', '/' ∉ c := by
  induction t with
  | nil => simp
  | cons x t ih =>
    rw [List.splitOn_cons_eq_if_modifyHead]
    by_cases hx : x = '/'
    · rw [if_pos (beq_iff_eq.mpr hx)]
      intro c hc
      rcases List.mem_cons.mp hc with rfl | hc
      · exact List.not_mem_nil
      · exact ih c hc
    · rw [if_neg fun h => hx (beq_iff_eq.mp h)]
      intro c hc
      obtain ⟨d,l,hl⟩ := List.exists_cons_of_ne_nil (List.splitOn_ne_nil '/' t)
      rw [hl] at ih hc
      rcases List.mem_cons.mp hc with rfl | hc
      · intro h
        rcases List.mem_cons.mp h with h | h
        · exact hx h.symm
        · exact ih d List.mem_cons_self h
      · exact ih c (List.mem_cons_of_mem d hc)

theorem valid_of_mem (hc : c ∈ components t) : c.Valid := by
  obtain ⟨hmem,hne⟩ := List.mem_filter.mp hc
  exact ⟨of_decide_eq_true hne,slash_not_mem t c hmem⟩

theorem components_absText (h : ∀ c ∈ cs, c.Valid) : components (absText cs) = cs := by
  rw [absText, components_slash]
  cases cs with
  | nil => rfl
  | cons c cs =>
    rw [components, List.splitOn_intercalate '/' (fun d hd => (h d hd).slash) (List.cons_ne_nil c cs)]
    exact List.filter_eq_self.mpr fun d hd => decide_eq_true (h d hd).ne_nil

theorem resolve_cons (dir : List Name) (c : Name) (cs : List Name) : resolve dir (c :: cs) = resolve (follow dir c) cs := rfl

@[simp] theorem resolve_nil (dir : List Name) : resolve dir [] = dir := rfl

private theorem resolve_append (dir cs ds : List Name) : resolve dir (cs ++ ds) = resolve (resolve dir cs) ds := List.foldl_append

@[simp] theorem follow_dot (dir : List Name) : follow dir ['.'] = dir := rfl

@[simp] theorem follow_dotdot (dir : List Name) : follow dir ['.','.'] = dir.dropLast := rfl

theorem follow_plain (hc : c.Plain) (dir : List Name) : follow dir c = dir ++ [c] := by
  rw [follow, if_neg hc.dot, if_neg hc.dotdot]

private theorem follow_forall {P : Name → Prop} (hd : ∀ d ∈ dir, P d) (hc : c.Plain → P c) (hv : c.Valid) : ∀ d ∈ follow dir c, P d := by
  rw [follow]
  split_ifs with hdot hdotdot
  · exact hd
  · exact fun d h => hd d (List.mem_of_mem_dropLast h)
  · intro d h
    rcases List.mem_append.mp h with h | h
    · exact hd d h
    · rw [List.mem_singleton.mp h]
      exact hc ⟨hv,hdot,hdotdot⟩

/-- Names on the way are plain where they stay. -/
theorem resolve_forall (hd : ∀ d ∈ dir, d.Plain) (h : ∀ c ∈ cs, c.Valid) : ∀ d ∈ resolve dir cs, d.Plain := by
  induction cs generalizing dir with
  | nil => exact hd
  | cons c cs ih =>
    exact ih (follow_forall hd (fun hc => hc) (h c List.mem_cons_self)) fun d hd => h d (List.mem_cons_of_mem c hd)

/-- A name of dots only changes nothing. -/
theorem canonical_dot (s t : List Char) : canonical (s ++ '/' :: '.' :: '/' :: t) = canonical (s ++ '/' :: t) := by
  have hdot : Name.Valid ['.'] := ⟨List.cons_ne_nil _ _,by decide⟩
  have hname : components ('.' :: '/' :: t) = ['.'] :: components t := components_name_append hdot t
  rw [canonical, components_append_slash, hname, resolve_append, resolve_cons, follow_dot, canonical, components_append_slash, resolve_append]

end LiteOsKernel.Paths
