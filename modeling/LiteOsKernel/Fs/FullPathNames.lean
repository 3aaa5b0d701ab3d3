import LiteOsKernel.Fs.FullPathScan
import Mathlib.Tactic.Common

/-! Where the loop of str_normalize_path arrives at the directory that the names of a path lead to. A name is misread where it ends in two
dots, or in one that a slash follows; that is undone by the next name or once the path is back at the root. -/
namespace LiteOsKernel.Fs
open Paths

/-- Behind a dot that was left out with its slash: names of one dot, then the name of the directory above, or the end without a slash. -/
def Undone (slash : Bool) (rest : List Name) : Prop :=
  let rest := rest.dropWhile fun c => c = ['.']
  rest.head? = some ['.','.'] ∨ rest = [] ∧ slash = false

/-- The first two dots in a row of a name end it, or a dot ends it, there are no two dots in a row, and it is not undone. -/
def Misread (slash : Bool) (c : Name) (rest : List Name) : Prop :=
  (c ≠ ['.','.'] ∧ behindDots c = some []) ∨
  (c ≠ ['.'] ∧ behindDots c = none ∧ c.getLast? = some '.' ∧ ¬ Undone slash rest)

instance (slash : Bool) (rest : List Name) : Decidable (Undone slash rest) :=
  inferInstanceAs (Decidable ((rest.dropWhile fun c => c = ['.']).head? = some ['.','.'] ∨ rest.dropWhile (fun c => c = ['.']) = [] ∧ slash = false))

instance (slash : Bool) (c : Name) (rest : List Name) : Decidable (Misread slash c rest) :=
  inferInstanceAs (Decidable ((c ≠ ['.','.'] ∧ behindDots c = some []) ∨
    (c ≠ ['.'] ∧ behindDots c = none ∧ c.getLast? = some '.' ∧ ¬ Undone slash rest)))

/-- From the directory dir the path gets to the root somewhere. -/
def Returns (dir cs : List Name) : Prop := ∃ mid, mid <+: cs ∧ resolve dir mid = []

/-- After every name that is misread the path gets to the root. -/
def ReadsWell (slash : Bool) (dir cs : List Name) : Prop :=
  ∀ front c rest, cs = front ++ c :: rest → Misread slash c rest → Returns (resolve dir (front ++ [c])) rest

section
variable {c w : Name} {dir above cs : List Name} {slash : Bool}

private theorem returns_nil : Returns dir [] ↔ dir = [] := by
  refine ⟨fun ⟨mid,hmid,h⟩ => ?_,fun h => ⟨[],List.prefix_refl [],h⟩⟩
  rw [List.prefix_nil.mp hmid] at h
  exact h

private theorem returns_cons : Returns dir (c :: cs) ↔ dir = [] ∨ Returns (follow dir c) cs := by
  constructor
  · rintro ⟨mid,hmid,h⟩
    cases mid with
    | nil => exact .inl h
    | cons d mid =>
      obtain ⟨rfl,htail⟩ := List.cons_prefix_cons.mp hmid
      exact .inr ⟨mid,htail,h⟩
  · rintro (h | ⟨mid,hmid,h⟩)
    · exact ⟨[],List.nil_prefix,h⟩
    · exact ⟨c :: mid,List.cons_prefix_cons.mpr ⟨rfl,hmid⟩,h⟩

theorem readsWell_nil : ReadsWell slash dir [] := fun front _ _ h =>
  absurd h.symm (List.append_ne_nil_of_right_ne_nil front (List.cons_ne_nil _ _))

theorem readsWell_cons : ReadsWell slash dir (c :: cs) ↔
    (Misread slash c cs → Returns (follow dir c) cs) ∧ ReadsWell slash (follow dir c) cs := by
  constructor
  · intro h
    refine ⟨h [] c cs rfl,fun front d rest hcs => ?_⟩
    exact h (c :: front) d rest (congrArg (c :: ·) hcs)
  · rintro ⟨hc,hrest⟩ front d rest hcs
    cases front with
    | nil =>
      obtain ⟨rfl,rfl⟩ := List.cons.inj hcs
      exact hc
    | cons e front =>
      obtain ⟨rfl,rfl⟩ := List.cons.inj hcs
      exact hrest front d rest rfl

/-- What is wrong becomes right at the root. -/
def Off (slash : Bool) (dir cs : List Name) : Prop := Returns dir cs ∧ ReadsWell slash dir cs

private theorem off_nil (h : dir ≠ []) : ¬ Off slash dir [] := fun hoff => h (returns_nil.mp hoff.1)

private theorem off_cons (h : dir ≠ []) : Off slash dir (c :: cs) ↔ Off slash (follow dir c) cs := by
  rw [Off, returns_cons, readsWell_cons, or_iff_right h]
  exact ⟨fun hoff => ⟨hoff.1,hoff.2.2⟩,fun hoff => ⟨hoff.1,fun _ => hoff.1,hoff.2⟩⟩

private theorem off_root : Off slash [] cs ↔ ReadsWell slash [] cs := and_iff_right ⟨[],List.nil_prefix,rfl⟩

private theorem undone_nil : Undone slash [] ↔ slash = false := by simp [Undone]

private theorem undone_dot : Undone slash (['.'] :: cs) ↔ Undone slash cs := by simp [Undone]

private theorem undone_cons (h : c ≠ ['.']) : Undone slash (c :: cs) ↔ c = ['.','.'] := by
  simp [Undone, List.dropWhile_cons_of_neg, h]

/-- How a name is read, in front of the names cs. -/
inductive NameCase (slash : Bool) (cs : List Name) : Name → Prop
  | dot (hstart : ∀ dir, readNames slash dir [] (['.'] :: cs) = readNames slash dir [] cs)
      (hrest : ∀ dir w, ¬ (cs = [] ∧ slash = false) → readNames slash dir w (['.'] :: cs) = readNames slash dir w cs)
      (hend : ∀ dir w, w ≠ [] → cs = [] ∧ slash = false → readNames slash dir w (['.'] :: cs) = dir ++ [w ++ ['.']]) : NameCase slash cs ['.']
  | up (h : ∀ dir w, readNames slash dir w (['.','.'] :: cs) = readNames slash (if w = [] then dir.dropLast else dir) [] cs) :
      NameCase slash cs ['.','.']
  | dropped {c : Name} (hc : c.Plain) (hb : behindDots c = some []) (hmis : Misread slash c cs)
      (h : ∀ dir w, readNames slash dir w (c :: cs) = readNames slash dir [] cs) : NameCase slash cs c
  | ended {v : Name} (hv : v ≠ []) (hc : Name.Plain (v ++ ['.'])) (hb : behindDots (v ++ ['.']) = none)
      (hmis : Misread slash (v ++ ['.']) cs ↔ ¬ Undone slash cs)
      (hrest : ¬ (cs = [] ∧ slash = false))
      (h : ∀ dir w, readNames slash dir w ((v ++ ['.']) :: cs) = readNames slash dir (w ++ v) cs) : NameCase slash cs (v ++ ['.'])
  | kept {c : Name} (hc : c.Plain) (hb : behindDots c ≠ some [])
      (hlast : behindDots c = none → c.getLast? = some '.' → cs = [] ∧ slash = false) (hmis : ¬ Misread slash c cs)
      (h : ∀ dir w, readNames slash dir w (c :: cs) = readNames slash (dir ++ [w ++ c]) [] cs) : NameCase slash cs c

private theorem nameCase (slash : Bool) (cs : List Name) (hc : c.Valid) : NameCase slash cs c := by
  by_cases hdot : c = ['.']
  · subst hdot
    have hread : ∀ dir w, readNames slash dir w (['.'] :: cs) =
        if ¬ (cs = [] ∧ slash = false) then readNames slash dir w cs else if w = [] then dir else readNames slash (dir ++ [w ++ ['.']]) [] cs := by
      intro dir w
      rw [readNames, show behindDots ['.'] = none from rfl]
      simp
    refine .dot (fun dir => ?_) (fun dir w hend => ?_) fun dir w hw hend => ?_
    · rw [hread, if_pos rfl]
      split_ifs with hend
      · rw [hend.1, readNames, if_pos rfl]
      · rfl
    · rw [hread, if_pos hend]
    · rw [hread, if_neg (not_not.mpr hend), if_neg hw, hend.1, readNames, if_pos rfl]
  · by_cases hdotdot : c = ['.','.']
    · subst hdotdot
      refine .up fun dir w => ?_
      rw [readNames, show behindDots ['.','.'] = some [] from rfl]
      simp
    · have hplain : c.Plain := ⟨hc,hdot,hdotdot⟩
      rcases hb : behindDots c with _ | ⟨_ | ⟨x,b⟩⟩
      · by_cases hlast : c.getLast? = some '.' ∧ ¬ (cs = [] ∧ slash = false)
        · obtain ⟨v,rfl⟩ := List.getLast?_eq_some_iff.mp hlast.1
          refine .ended ?_ hplain hb ?_ hlast.2 fun dir w => ?_
          · rintro rfl
            exact hdot rfl
          · rw [Misread]
            simp [hb, hdot]
          · rw [readNames, hb]
            simp only
            rw [if_pos hlast, List.dropLast_concat]
        · have hend : c.getLast? = some '.' → cs = [] ∧ slash = false := fun h => not_not.mp fun hend => hlast ⟨h,hend⟩
          refine .kept hplain (by rw [hb]; exact (Option.some_ne_none _).symm) (fun _ => hend) ?_ fun dir w => ?_
          · rintro (⟨-,h⟩ | ⟨-,-,hdotlast,hundone⟩)
            · exact absurd (hb.symm.trans h) (Option.some_ne_none _).symm
            · obtain ⟨rfl,hslash⟩ := hend hdotlast
              exact hundone (undone_nil.mpr hslash)
          · rw [readNames, hb]
            simp only
            rw [if_neg hlast, if_neg fun h => hdot h.2]
      · refine .dropped hplain hb (.inl ⟨hdotdot,hb⟩) fun dir w => ?_
        rw [readNames, hb]
        simp only
        rw [if_neg fun h => hdotdot h.2]
      · have hne : some (x :: b) ≠ some [] := fun h => List.cons_ne_nil x b (Option.some.inj h)
        refine .kept hplain (by rw [hb]; exact hne) (fun h => absurd (hb.symm.trans h) (Option.some_ne_none _)) ?_ fun dir w => ?_
        · rintro (⟨-,h⟩ | ⟨-,h,-⟩)
          · exact hne (hb.symm.trans h)
          · exact absurd (hb.symm.trans h) (Option.some_ne_none _)
        · rw [readNames, hb]

private theorem misread_dot : ¬ Misread slash ['.'] cs := by
  rintro (⟨-,h⟩ | ⟨h,-⟩)
  · exact absurd h nofun
  · exact h rfl

private theorem misread_dotdot : ¬ Misread slash ['.','.'] cs := by
  rintro (⟨h,-⟩ | ⟨-,h,-⟩)
  · exact h rfl
  · exact absurd h nofun

private theorem ne_of_length {a b : List Name} (h : a.length < b.length) : a ≠ b := fun he => absurd (congrArg List.length he) (Nat.ne_of_lt h)

/-- The loop against the names, in its four states: it is right; it has left out a dot with its slash in a directory that is right; it is
above the right directory; or it has left out a dot there. -/
structure Reads (slash : Bool) (cs : List Name) : Prop where
  right : ∀ dir, readNames slash dir [] cs = resolve dir cs ↔ ReadsWell slash dir cs
  ended : ∀ dir w, w ≠ [] → ¬ (cs = [] ∧ slash = false) → (readNames slash dir w cs = resolve (dir ++ [w ++ ['.']]) cs ↔
    (¬ Undone slash cs → Returns (dir ++ [w ++ ['.']]) cs) ∧ ReadsWell slash (dir ++ [w ++ ['.']]) cs)
  off : ∀ above dir : List Name, above.length < dir.length → (readNames slash above [] cs = resolve dir cs ↔ Off slash dir cs)
  offEnded : ∀ (above dir : List Name) (w : Name), w ≠ [] → above.length + 1 < dir.length →
    (readNames slash above w cs = resolve dir cs ↔ Off slash dir cs)

private theorem reads_nil (slash : Bool) : Reads slash [] := by
  refine ⟨fun dir => ?_,fun dir w hw hend => ?_,fun above dir hlt => ?_,fun above dir w hw hlt => ?_⟩
  · rw [readNames, if_pos rfl]
    exact iff_of_true rfl readsWell_nil
  · rw [readNames, if_neg hw]
    refine iff_of_false (fun h => ?_) fun h => ?_
    · have hw' := List.append_cancel_left h
      simp at hw'
    · have hundone : ¬ Undone slash [] := fun h => hend ⟨rfl,undone_nil.mp h⟩
      exact off_nil (by simp) ⟨h.1 hundone,h.2⟩
  · rw [readNames, if_pos rfl]
    exact iff_of_false (ne_of_length hlt) (off_nil fun h => by simp [h] at hlt)
  · rw [readNames, if_neg hw]
    refine iff_of_false (ne_of_length ?_) (off_nil fun h => by simp [h] at hlt)
    rw [List.length_append]
    exact hlt

private theorem ne_nil_of_lt {a b : List Name} (h : a.length < b.length) : b ≠ [] := by
  rintro rfl
  exact absurd h (Nat.not_lt_zero _)

private theorem Reads.cons_right (hc : c.Valid) (h : Reads slash cs) (dir : List Name) :
    readNames slash dir [] (c :: cs) = resolve dir (c :: cs) ↔ ReadsWell slash dir (c :: cs) := by
  rw [readsWell_cons, resolve_cons]
  cases nameCase slash cs hc with
  | dot hstart hrest hlast =>
    rw [hstart, follow_dot, and_iff_right fun hmis => absurd hmis misread_dot]
    exact h.right dir
  | up hup =>
    rw [hup, if_pos rfl, follow_dotdot, and_iff_right fun hmis => absurd hmis misread_dotdot]
    exact h.right dir.dropLast
  | dropped hp hb hmis hread =>
    rw [hread, follow_plain hp, h.off dir (dir ++ [c]) (by simp)]
    exact ⟨fun hoff => ⟨fun _ => hoff.1,hoff.2⟩,fun hoff => ⟨hoff.1 hmis,hoff.2⟩⟩
  | ended hv hp hb hmis hrest hread =>
    rw [hread, List.nil_append, follow_plain hp, hmis]
    exact h.ended dir _ hv hrest
  | kept hp hb hend hmis hread =>
    rw [hread, List.nil_append, follow_plain hp, and_iff_right fun h => absurd h hmis]
    exact h.right (dir ++ [c])

private theorem Reads.cons_ended (hc : c.Valid) (h : Reads slash cs) (dir : List Name) (hw : w ≠ []) :
    readNames slash dir w (c :: cs) = resolve (dir ++ [w ++ ['.']]) (c :: cs) ↔
    (¬ Undone slash (c :: cs) → Returns (dir ++ [w ++ ['.']]) (c :: cs)) ∧ ReadsWell slash (dir ++ [w ++ ['.']]) (c :: cs) := by
  have hne : dir ++ [w ++ ['.']] ≠ [] := List.append_ne_nil_of_right_ne_nil dir (List.cons_ne_nil _ _)
  -- behind a name that is no dots nothing is undone
  have hoff : c.Plain → ((¬ Undone slash (c :: cs) → Returns (dir ++ [w ++ ['.']]) (c :: cs)) ∧
      ReadsWell slash (dir ++ [w ++ ['.']]) (c :: cs) ↔ Off slash (dir ++ [w ++ ['.']] ++ [c]) cs) := by
    intro hp
    rw [← follow_plain hp, ← off_cons hne, undone_cons hp.dot]
    exact and_congr_left fun _ => ⟨fun h => h hp.dotdot,fun h _ => h⟩
  rw [resolve_cons]
  cases nameCase slash cs hc with
  | dot hstart hrest hlast =>
    rw [follow_dot, undone_dot, returns_cons, or_iff_right hne, readsWell_cons, follow_dot, and_iff_right fun hmis => absurd hmis misread_dot]
    by_cases hend : cs = [] ∧ slash = false
    · rw [hlast dir w hw hend, hend.1]
      exact iff_of_true rfl ⟨fun hno => absurd (undone_nil.mpr hend.2) hno,readsWell_nil⟩
    · rw [hrest dir w hend]
      exact h.ended dir w hw hend
  | up hup =>
    have hundone : Undone slash (['.','.'] :: cs) := (undone_cons (by decide)).mpr rfl
    rw [hup, if_neg hw, follow_dotdot, List.dropLast_concat, and_iff_right fun hno => absurd hundone hno, readsWell_cons, follow_dotdot,
      List.dropLast_concat, and_iff_right fun hmis => absurd hmis misread_dotdot]
    exact h.right dir
  | dropped hp hb hmis hread =>
    rw [hread, follow_plain hp, hoff hp]
    exact h.off dir _ (by simp)
  | ended hv hp hb hmis hrest hread =>
    rw [hread, follow_plain hp, hoff hp]
    exact h.offEnded dir _ _ (List.append_ne_nil_of_left_ne_nil hw _) (by simp)
  | kept hp hb hend hmis hread =>
    rw [hread, follow_plain hp, hoff hp]
    exact h.off _ _ (by simp)

private theorem Reads.cons_off (hc : c.Valid) (h : Reads slash cs) (hlt : above.length < dir.length) :
    readNames slash above [] (c :: cs) = resolve dir (c :: cs) ↔ Off slash dir (c :: cs) := by
  rw [off_cons (ne_nil_of_lt hlt), resolve_cons]
  cases nameCase slash cs hc with
  | dot hstart hrest hlast =>
    rw [hstart, follow_dot]
    exact h.off above dir hlt
  | up hup =>
    rw [hup, if_pos rfl, follow_dotdot]
    by_cases hup : above.dropLast.length < dir.dropLast.length
    · exact h.off _ _ hup
    · rw [List.length_dropLast, List.length_dropLast] at hup
      have habove : above.dropLast = [] := List.eq_nil_of_length_eq_zero (by rw [List.length_dropLast]; omega)
      have hdir : dir.dropLast = [] := List.eq_nil_of_length_eq_zero (by rw [List.length_dropLast]; omega)
      rw [habove, hdir, off_root]
      exact h.right []
  | dropped hp hb hmis hread =>
    rw [hread, follow_plain hp]
    exact h.off above _ (by rw [List.length_append]; omega)
  | ended hv hp hb hmis hrest hread =>
    rw [hread, List.nil_append, follow_plain hp]
    exact h.offEnded above _ _ hv (by rw [List.length_append, List.length_singleton]; omega)
  | kept hp hb hend hmis hread =>
    rw [hread, List.nil_append, follow_plain hp]
    exact h.off _ _ (by rw [List.length_append, List.length_append]; exact Nat.add_lt_add_right hlt _)

private theorem Reads.cons_offEnded (hc : c.Valid) (h : Reads slash cs) (hw : w ≠ []) (hlt : above.length + 1 < dir.length) :
    readNames slash above w (c :: cs) = resolve dir (c :: cs) ↔ Off slash dir (c :: cs) := by
  have hne : dir ≠ [] := ne_nil_of_lt (Nat.lt_of_succ_lt hlt)
  rw [off_cons hne, resolve_cons]
  cases nameCase slash cs hc with
  | dot hstart hrest hlast =>
    rw [follow_dot]
    by_cases hend : cs = [] ∧ slash = false
    · rw [hlast above w hw hend, hend.1]
      refine iff_of_false (ne_of_length ?_) (off_nil hne)
      rw [List.length_append]
      exact hlt
    · rw [hrest above w hend]
      exact h.offEnded above dir w hw hlt
  | up hup =>
    rw [hup, if_neg hw, follow_dotdot]
    exact h.off above _ (by rw [List.length_dropLast]; omega)
  | dropped hp hb hmis hread =>
    rw [hread, follow_plain hp]
    exact h.off above _ (by rw [List.length_append]; omega)
  | ended hv hp hb hmis hrest hread =>
    rw [hread, follow_plain hp]
    exact h.offEnded above _ _ (List.append_ne_nil_of_left_ne_nil hw _) (by rw [List.length_append]; omega)
  | kept hp hb hend hmis hread =>
    rw [hread, follow_plain hp]
    exact h.off _ _ (by rw [List.length_append, List.length_append, List.length_singleton]; omega)

theorem reads (h : ∀ c ∈ cs, c.Valid) : Reads slash cs := by
  induction cs with
  | nil => exact reads_nil slash
  | cons c cs ih =>
    have hc := h c List.mem_cons_self
    have hcs := ih fun d hd => h d (List.mem_cons_of_mem c hd)
    exact ⟨fun dir => hcs.cons_right hc dir,fun dir w hw _ => hcs.cons_ended hc dir hw,fun _ _ hlt => hcs.cons_off hc hlt,
      fun _ _ _ hw hlt => hcs.cons_offEnded hc hw hlt⟩

/-- A name that is read as it is, whatever follows. -/
structure Steady (c : Name) : Prop extends c.Plain where
  dots : behindDots c ≠ some []
  last : ¬ (behindDots c = none ∧ c.getLast? = some '.')

/-- Names that are read as they are at the end of a path without a slash. -/
def Settled (cs : List Name) : Prop :=
  ∃ dir : List Name, (∀ c ∈ dir, Steady c) ∧ (cs = dir ∨ ∃ c : Name, cs = dir ++ [c] ∧ c.Plain ∧ behindDots c ≠ some [])

private theorem behindDots_append (hw : behindDots w = none) (hlast : w.getLast? ≠ some '.') (c : Name) : behindDots (w ++ c) = behindDots c := by
  induction w with
  | nil => rfl
  | cons x w ih =>
    cases w with
    | nil => exact behindDots_cons fun h => hlast (by rw [h.1]; rfl)
    | cons y w =>
      have hx : ¬ (x = '.' ∧ (y :: w).head? = some '.') := by
        rintro ⟨rfl,hy⟩
        obtain rfl : y = '.' := Option.some.inj hy
        exact absurd hw nofun
      rw [behindDots_cons hx] at hw
      rw [List.getLast?_cons_cons] at hlast
      exact (behindDots_cons (c := y :: w ++ c) hx).trans (ih hw hlast)

private theorem getLast_append (hc : c ≠ []) (w : Name) : (w ++ c).getLast? = c.getLast? := List.getLast?_append_of_ne_nil w hc

/-- What was written and a name after it. -/
private theorem plain_append (hs : '/' ∉ w) (hw : w.getLast? ≠ some '.') (hc : c.Plain) : (w ++ c).Plain := by
  refine ⟨⟨List.append_ne_nil_of_right_ne_nil w hc.ne_nil,fun h => (List.mem_append.mp h).elim hs hc.slash⟩,fun h => ?_,fun h => ?_⟩
  · rcases List.append_eq_singleton_iff.mp h with ⟨-,h⟩ | ⟨-,h⟩
    · exact hc.dot h
    · exact hc.ne_nil h
  · rcases w with _ | ⟨x,_ | ⟨y,w⟩⟩
    · exact hc.dotdot h
    · obtain ⟨rfl,-⟩ := List.cons.inj h
      exact hw rfl
    · exact hc.ne_nil (List.append_eq_nil_iff.mp (List.cons.inj (List.cons.inj h).2).2).2

/-- A dot at the end of a name without two dots in a row does not follow another one. -/
private theorem behindDots_front {v : Name} (hv : v ≠ []) (h : behindDots (v ++ ['.']) = none) : behindDots v = none ∧ v.getLast? ≠ some '.' := by
  have hlast : v.getLast? ≠ some '.' := by
    intro hlast
    obtain ⟨u,rfl⟩ := List.getLast?_eq_some_iff.mp hlast
    refine behindDots_none h (a := u) (b := ['.']) ?_ rfl
    rw [List.append_assoc]
    rfl
  refine ⟨?_,hlast⟩
  cases hb : behindDots v with
  | none => rfl
  | some b =>
    obtain ⟨a,rfl,-⟩ := behindDots_some hb
    exact absurd rfl (behindDots_none h (a := a) (b := '.' :: (b ++ ['.'])) (by rw [List.append_assoc]; rfl))

/-- What the loop arrives at is settled. -/
theorem readNames_settled (hdir : ∀ d ∈ dir, Steady d) (hs : '/' ∉ w) (hw : behindDots w = none) (hlast : w.getLast? ≠ some '.')
    (hcs : ∀ c ∈ cs, c.Valid) : Settled (readNames slash dir w cs) := by
  induction cs generalizing dir w with
  | nil =>
    rw [readNames]
    split_ifs with hne
    · exact ⟨dir,hdir,.inl rfl⟩
    · refine ⟨dir,hdir,.inr ⟨w,rfl,⟨⟨hne,hs⟩,?_,?_⟩,by rw [hw]; exact (Option.some_ne_none _).symm⟩⟩
      · rintro rfl
        exact hlast rfl
      · rintro rfl
        exact hlast rfl
  | cons c cs ih =>
    have hc := hcs c List.mem_cons_self
    have hrest : ∀ d ∈ cs, d.Valid := fun d hd => hcs d (List.mem_cons_of_mem c hd)
    have hnone : ([] : Name).getLast? ≠ some '.' := (Option.some_ne_none _).symm
    cases nameCase slash cs hc with
    | dot hstart hmore hdot =>
      by_cases hne : w = []
      · rw [hne, hstart]
        exact ih hdir List.not_mem_nil rfl hnone hrest
      · by_cases hend : cs = [] ∧ slash = false
        · rw [hdot dir w hne hend]
          refine ⟨dir,hdir,.inr ⟨w ++ ['.'],rfl,⟨⟨List.append_ne_nil_of_left_ne_nil hne _,?_⟩,?_,?_⟩,?_⟩⟩
          · exact fun h => (List.mem_append.mp h).elim hs hc.slash
          · intro h
            have hfront := congrArg List.dropLast h
            rw [List.dropLast_concat] at hfront
            exact hne hfront
          · intro h
            have hfront := congrArg List.dropLast h
            rw [List.dropLast_concat] at hfront
            exact hlast (congrArg List.getLast? hfront)
          · rw [behindDots_append hw hlast]
            exact (Option.some_ne_none _).symm
        · rw [hmore dir w hend]
          exact ih hdir hs hw hlast hrest
    | up hread =>
      rw [hread]
      refine ih (fun d hd => ?_) List.not_mem_nil rfl hnone hrest
      split_ifs at hd
      · exact hdir d (List.mem_of_mem_dropLast hd)
      · exact hdir d hd
    | dropped hp hb hmis hread =>
      rw [hread]
      exact ih hdir List.not_mem_nil rfl hnone hrest
    | @ended v hv hp hb hmis hend hread =>
      obtain ⟨hbv,hlastv⟩ := behindDots_front hv hb
      rw [hread]
      refine ih hdir (fun h => ?_) ?_ ?_ hrest
      · exact (List.mem_append.mp h).elim hs fun h => hc.slash (List.mem_append_left _ h)
      · rw [behindDots_append hw hlast, hbv]
      · rw [getLast_append hv]
        exact hlastv
    | kept hp hb hend hmis hread =>
      have hplain := plain_append hs hlast hp
      rw [hread]
      by_cases hdot : behindDots c = none ∧ c.getLast? = some '.'
      · obtain ⟨rfl,-⟩ := hend hdot.1 hdot.2
        rw [readNames, if_pos rfl]
        exact ⟨dir,hdir,.inr ⟨w ++ c,rfl,hplain,by rw [behindDots_append hw hlast]; exact hb⟩⟩
      · have hsteady : Steady (w ++ c) := by
          refine ⟨hplain,?_,?_⟩
          · rw [behindDots_append hw hlast]
            exact hb
          · rw [behindDots_append hw hlast, getLast_append hc.ne_nil]
            exact hdot
        refine ih (fun d hd => ?_) List.not_mem_nil rfl hnone hrest
        rcases List.mem_append.mp hd with hd | hd
        · exact hdir d hd
        · rw [List.mem_singleton.mp hd]
          exact hsteady

/-- Steady names are read as they are. -/
private theorem readNames_steady (slash : Bool) (front : List Name) (h : ∀ c ∈ front, Steady c) (dir : List Name) (cs : List Name) :
    readNames slash dir [] (front ++ cs) = readNames slash (dir ++ front) [] cs := by
  induction front generalizing dir with
  | nil => rw [List.append_nil, List.nil_append]
  | cons c front ih =>
    have hc := h c List.mem_cons_self
    have hread : readNames slash dir [] (c :: (front ++ cs)) = readNames slash (dir ++ [c]) [] (front ++ cs) := by
      cases nameCase slash (front ++ cs) hc.toValid with
      | dot => exact absurd rfl hc.dot
      | up => exact absurd rfl hc.dotdot
      | dropped _ hb => exact absurd hb hc.dots
      | @ended v _ _ hb => exact absurd ⟨hb,List.getLast?_concat⟩ hc.last
      | kept _ _ _ _ hread => exact hread dir []
    rw [List.cons_append, hread, ih (fun d hd => h d (List.mem_cons_of_mem c hd)), List.append_assoc]
    rfl

/-- Settled names are read as they are. -/
theorem readNames_eq_self (h : Settled cs) : readNames false [] [] cs = cs := by
  obtain ⟨dir,hdir,rfl | ⟨c,rfl,hc,hb⟩⟩ := h
  · have hread := readNames_steady false cs hdir [] []
    rw [List.append_nil] at hread
    rw [hread, readNames, if_pos rfl]
    rfl
  · rw [readNames_steady false dir hdir, List.nil_append]
    cases nameCase false [] hc.toValid with
    | dot => exact absurd rfl hc.dot
    | up => exact absurd rfl hc.dotdot
    | dropped _ hdots => exact absurd hdots hb
    | ended _ _ _ _ hend => exact absurd ⟨rfl,rfl⟩ hend
    | kept _ _ _ _ hread => rw [hread, readNames, if_pos rfl, List.nil_append]

theorem Settled.plain (h : Settled cs) : ∀ c ∈ cs, c.Plain := by
  obtain ⟨dir,hdir,rfl | ⟨c,rfl,hc,-⟩⟩ := h
  · exact fun c hc => (hdir c hc).toPlain
  · intro d hd
    rcases List.mem_append.mp hd with hd | hd
    · exact (hdir d hd).toPlain
    · rw [List.mem_singleton.mp hd]
      exact hc

end

end LiteOsKernel.Fs
