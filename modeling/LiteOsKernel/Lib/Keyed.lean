import Mathlib.Data.List.Basic

/-! Lists of records with a key: the first record of a key, and what replacing, adding and erasing it does to the others. -/
namespace LiteOsKernel.Keyed

variable {α κ : Type*} (key : α → κ)

/-- No two records have one key. -/
def Distinct (l : List α) : Prop := (l.map key).Nodup

variable [DecidableEq κ]

/-- The first record of k. -/
def lookup (l : List α) (k : κ) : Option α := l.find? fun a => key a = k

/-- The first record with the key of a is replaced by a, or a is added in front. -/
def put (l : List α) (a : α) : List α :=
  if l.any fun b => key b = key a then l.replaceF fun b => if key b = key a then some a else none else a :: l

def erase (l : List α) (k : κ) : List α := l.eraseP fun a => key a = k

variable {key} {l : List α} {a b : α} {k k' : κ}

omit [DecidableEq κ] in
private theorem distinct_cons : Distinct key (a :: l) ↔ (∀ b ∈ l, key b ≠ key a) ∧ Distinct key l := by
  rw [Distinct, List.map_cons, List.nodup_cons, List.mem_map]
  refine and_congr_left fun _ => ⟨fun h b hb heq => h ⟨b,hb,heq⟩,?_⟩
  rintro h ⟨b,hb,heq⟩
  exact h b hb heq

@[simp] theorem lookup_nil : lookup key [] k = none := rfl

private theorem lookup_cons : lookup key (a :: l) k = if key a = k then some a else lookup key l k := by
  rw [lookup, lookup]
  by_cases h : key a = k
  · rw [if_pos h]
    exact List.find?_cons_of_pos (decide_eq_true h)
  · rw [if_neg h]
    exact List.find?_cons_of_neg (by simpa using h)

private theorem lookup_eq_none : lookup key l k = none ↔ ∀ a ∈ l, key a ≠ k := by
  rw [lookup, List.find?_eq_none]
  simp

theorem any_iff_lookup : (l.any fun a => key a = k) = true ↔ lookup key l k ≠ none := by
  rw [Ne, lookup_eq_none, List.any_eq_true]
  push Not
  simp

private theorem erase_cons : erase key (a :: l) k = if key a = k then l else a :: erase key l k := by
  rw [erase, erase]
  by_cases h : key a = k
  · rw [if_pos h]
    exact List.eraseP_cons_of_pos (decide_eq_true h)
  · rw [if_neg h]
    exact List.eraseP_cons_of_neg (by simpa using h)

theorem lookup_erase_self (h : Distinct key l) : lookup key (erase key l k) k = none := by
  induction l with
  | nil => rfl
  | cons a l ih =>
    obtain ⟨ha,hl⟩ := distinct_cons.mp h
    rw [erase_cons]
    split_ifs with hk
    · subst hk
      exact lookup_eq_none.mpr ha
    · rw [lookup_cons, if_neg hk]
      exact ih hl

theorem lookup_erase_ne (hk : k' ≠ k) : lookup key (erase key l k) k' = lookup key l k' := by
  induction l with
  | nil => rfl
  | cons a l ih =>
    rw [erase_cons]
    split_ifs with ha
    · rw [lookup_cons, if_neg fun h => hk (h.symm.trans ha)]
    · rw [lookup_cons, lookup_cons, ih]

theorem Distinct.erase (h : Distinct key l) (k : κ) : Distinct key (erase key l k) :=
  h.sublist (List.eraseP_sublist.map key)

/-- A list without a record of the key. -/
private theorem put_eq_cons (h : lookup key l (key a) = none) : put key l a = a :: l := by
  rw [put, if_neg (fun hany => any_iff_lookup.mp hany h)]

private theorem put_cons : put key (b :: l) a = if key b = key a then a :: l
    else if lookup key l (key a) ≠ none then b :: put key l a else a :: b :: l := by
  by_cases hb : key b = key a
  · rw [if_pos hb, put, if_pos (by simp [hb])]
    exact List.replaceF_cons_of_some _ (if_pos hb)
  · rw [if_neg hb]
    by_cases hl : lookup key l (key a) = none
    · rw [if_neg (not_not.mpr hl)]
      apply put_eq_cons
      rw [lookup_cons, if_neg hb]
      exact hl
    · have hany := any_iff_lookup.mpr hl
      rw [if_pos hl, put, put, if_pos hany, if_pos (by rw [List.any_cons, hany, Bool.or_true])]
      exact List.replaceF_cons_of_none _ (if_neg hb)

example : put Prod.fst [(1,5),(2,6)] (2,7) = [(1,5),(2,7)] ∧ put Prod.fst [(1,5)] (2,7) = [(2,7),(1,5)] := by decide +kernel

theorem lookup_put_self : lookup key (put key l a) (key a) = some a := by
  induction l with
  | nil => rw [put_eq_cons rfl, lookup_cons, if_pos rfl]
  | cons b l ih =>
    rw [put_cons]
    split_ifs with hb hl
    · rw [lookup_cons, if_pos rfl]
    · rw [lookup_cons, if_neg hb]
      exact ih
    · rw [lookup_cons, if_pos rfl]

theorem lookup_put_ne (hk : k ≠ key a) : lookup key (put key l a) k = lookup key l k := by
  induction l with
  | nil => rw [put_eq_cons rfl, lookup_cons, if_neg hk.symm]
  | cons b l ih =>
    rw [put_cons]
    split_ifs with hb hl
    · rw [lookup_cons, lookup_cons, if_neg hk.symm, if_neg fun h => hk (h.symm.trans hb)]
    · rw [lookup_cons, lookup_cons, ih]
    · rw [lookup_cons, if_neg hk.symm]

theorem Distinct.put (h : Distinct key l) (a : α) : Distinct key (put key l a) := by
  induction l with
  | nil =>
    rw [put_eq_cons rfl]
    exact distinct_cons.mpr ⟨fun b hb => absurd hb List.not_mem_nil,h⟩
  | cons b l ih =>
    obtain ⟨hb,hl⟩ := distinct_cons.mp h
    rw [put_cons]
    split_ifs with hba hla
    · exact distinct_cons.mpr ⟨hba ▸ hb,hl⟩
    · refine distinct_cons.mpr ⟨lookup_eq_none.mp ?_,ih hl⟩
      rw [lookup_put_ne hba]
      exact lookup_eq_none.mpr hb
    · refine distinct_cons.mpr ⟨fun c hc => ?_,h⟩
      rcases List.mem_cons.mp hc with rfl | hc
      · exact hba
      · exact lookup_eq_none.mp (not_not.mp hla) c hc

end LiteOsKernel.Keyed
