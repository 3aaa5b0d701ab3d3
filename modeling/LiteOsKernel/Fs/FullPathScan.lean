import LiteOsKernel.Fs.FullPath
import LiteOsKernel.Lib.Paths

/-! What str_path and str_normalize_path make of the names of a path: the loop reads a name up to its first two dots, and ends it at a dot in
front of a slash. -/
namespace LiteOsKernel.Fs
open Paths

/-- The bytes behind the first two dots in a row. -/
def behindDots : Name → Option Name
  | [] => none
  | '.' :: '.' :: c => some c
  | _ :: c => behindDots c

def endsSlash (t : Path) : Bool := t.getLast? = some '/'

/-- The names with single slashes in between, with a slash at the end or without. -/
def pathText (slash : Bool) : List Name → Path
  | [] => []
  | c :: cs => c ++ if cs = [] ∧ slash = false then [] else '/' :: pathText slash cs

/-- The directory that the loop arrives at, from dir and the bytes of a name that were written and not ended. -/
def readNames (slash : Bool) : List Name → Name → List Name → List Name
  | dir, name, [] => if name = [] then dir else dir ++ [name]
  | dir, name, c :: cs =>
    match behindDots c with
    | some [] => readNames slash (if name = [] ∧ c = ['.','.'] then dir.dropLast else dir) [] cs
    | some (_ :: _) => readNames slash (dir ++ [name ++ c]) [] cs
    | none =>
      if c.getLast? = some '.' ∧ ¬ (cs = [] ∧ slash = false) then readNames slash dir (name ++ c.dropLast) cs
      else if name = [] ∧ c = ['.'] then dir
      else readNames slash (dir ++ [name ++ c]) [] cs

/-- The bytes in front of dest: the directory with a slash at its end. -/
def dirText (dir : List Name) : Path := '/' :: dir.flatMap fun c => c ++ ['/']

section
variable {c d w : Name} {dest src t : Path} {dir cs : List Name} {slash : Bool}

private theorem loop_cons {x : Char} (h : x ≠ '.') (dest src : Path) :
    strNormalizeLoop false dest (x :: src) = strNormalizeLoop false (x :: dest) src := by
  apply strNormalizeLoop.eq_7
  all_goals
    intros
    contradiction

/-- A dot that no dot and no slash follows is copied. -/
private theorem loop_dot (hdot : src.head? ≠ some '.') (hslash : src.head? ≠ some '/') (dest : Path) :
    strNormalizeLoop false dest ('.' :: src) = strNormalizeLoop false ('.' :: dest) src := by
  apply strNormalizeLoop.eq_7
  · rintro src' - rfl
    exact hslash rfl
  · rintro - rfl
    exact hdot rfl
  · rintro src' - rfl
    exact hdot rfl
  · rintro src' - rfl
    exact hdot rfl

/-- Bytes of a name are copied as long as there are no two dots in a row and no dot in front of a slash. -/
private theorem loop_copy (hs : '/' ∉ w) (h : ∀ a b, w = a ++ '.' :: b → (b ++ src).head? ≠ some '.' ∧ (b ++ src).head? ≠ some '/') (dest : Path) :
    strNormalizeLoop false dest (w ++ src) = strNormalizeLoop false (w.reverse ++ dest) src := by
  induction w generalizing dest with
  | nil => rfl
  | cons x w ih =>
    have hstep : strNormalizeLoop false dest (x :: (w ++ src)) = strNormalizeLoop false (x :: dest) (w ++ src) := by
      by_cases hx : x = '.'
      · obtain ⟨hdot,hslash⟩ := h [] w (by rw [hx]; rfl)
        rw [hx]
        exact loop_dot hdot hslash dest
      · exact loop_cons hx dest _
    rw [List.cons_append, hstep, ih (fun hw => hs (List.mem_cons_of_mem x hw)) (fun a b hab => h (x :: a) b (by rw [hab]; rfl)),
      List.reverse_cons, List.append_assoc]
    rfl

/-- The rest of a name that starts with two dots. -/
private theorem loop_rest (hs : '/' ∉ w) (hsrc : src = [] ∨ src.head? = some '/') (dest : Path) :
    strNormalizeLoop true dest (w ++ src) = strNormalizeLoop false (w.reverse ++ dest) src := by
  induction w generalizing dest with
  | nil =>
    cases src with
    | nil => rfl
    | cons x src =>
      obtain rfl : x = '/' := Option.some.inj (hsrc.resolve_left (List.cons_ne_nil x src))
      exact (loop_cons (by decide) dest src).symm
  | cons x w ih =>
    have hx : x ≠ '/' := fun hx => hs (by rw [hx]; exact List.mem_cons_self)
    rw [List.cons_append, strNormalizeLoop, decide_eq_true hx, ih fun hw => hs (List.mem_cons_of_mem x hw), List.reverse_cons, List.append_assoc]
    rfl

theorem behindDots_cons {x : Char} (h : ¬ (x = '.' ∧ c.head? = some '.')) : behindDots (x :: c) = behindDots c := by
  apply behindDots.eq_3
  rintro c' rfl rfl
  exact h ⟨rfl,rfl⟩

/-- Where the first two dots are. -/
theorem behindDots_some {b : Name} (h : behindDots c = some b) :
    ∃ a, c = a ++ '.' :: '.' :: b ∧ ∀ a' b', a = a' ++ '.' :: b' → (b' ++ ['.']).head? ≠ some '.' := by
  induction c with
  | nil => exact absurd h nofun
  | cons x c ih =>
    by_cases hx : x = '.' ∧ c.head? = some '.'
    · obtain ⟨rfl,hc⟩ := hx
      obtain ⟨c,rfl⟩ := List.head?_eq_some_iff.mp hc
      obtain rfl := Option.some.inj h
      exact ⟨[],rfl,fun a' b' hab => absurd hab (List.append_ne_nil_of_right_ne_nil a' (List.cons_ne_nil _ b')).symm⟩
    · rw [behindDots_cons hx] at h
      obtain ⟨a,rfl,ha⟩ := ih h
      refine ⟨x :: a,rfl,fun a' b' hab => ?_⟩
      cases a' with
      | nil =>
        obtain ⟨rfl,rfl⟩ := List.cons.inj hab
        intro hd
        refine hx ⟨rfl,?_⟩
        cases a with
        | nil => rfl
        | cons y a => exact hd
      | cons y a' => exact ha a' b' (List.cons.inj hab).2

theorem behindDots_none (h : behindDots c = none) {a b : Name} (hc : c = a ++ '.' :: b) : b.head? ≠ some '.' := by
  induction c generalizing a with
  | nil => exact absurd hc (List.append_ne_nil_of_right_ne_nil a (List.cons_ne_nil _ b)).symm
  | cons x c ih =>
    by_cases hx : x = '.' ∧ c.head? = some '.'
    · obtain ⟨rfl,hd⟩ := hx
      obtain ⟨c,rfl⟩ := List.head?_eq_some_iff.mp hd
      exact absurd h nofun
    · rw [behindDots_cons hx] at h
      cases a with
      | nil =>
        obtain ⟨rfl,rfl⟩ := List.cons.inj hc
        exact fun hd => hx ⟨rfl,hd⟩
      | cons y a => exact ih h (List.cons.inj hc).2

/-- What is in front of the first two dots is copied. -/
private theorem loop_copy_dots {a b : Name} (hs : '/' ∉ a) (ha : ∀ a' b', a = a' ++ '.' :: b' → (b' ++ ['.']).head? ≠ some '.') (dest : Path) :
    strNormalizeLoop false dest (a ++ '.' :: b) = strNormalizeLoop false (a.reverse ++ dest) ('.' :: b) := by
  refine loop_copy hs (fun a' b' hab => ?_) dest
  have hd := ha a' b' hab
  cases b' with
  | nil => exact absurd rfl hd
  | cons x b' =>
    refine ⟨hd,fun hx => hs ?_⟩
    obtain rfl : x = '/' := Option.some.inj hx
    rw [hab]
    exact List.mem_append_right a' (List.mem_cons_of_mem _ List.mem_cons_self)

/-- A name whose first two dots are its end is dropped, or leads to the directory above. -/
private theorem loop_dotdot (hs : '/' ∉ c) (h : behindDots c = some []) (hsrc : src = [] ∨ src.head? = some '/') (dest : Path) :
    ∃ a, c = a ++ ['.','.'] ∧
      strNormalizeLoop false dest (c ++ src) = (destBack (a.reverse ++ dest)).bind fun dest => strNormalizeLoop false dest src.tail := by
  obtain ⟨a,rfl,ha⟩ := behindDots_some h
  refine ⟨a,rfl,?_⟩
  rw [List.append_assoc]
  have hcopy : strNormalizeLoop false dest (a ++ '.' :: '.' :: src) = _ := loop_copy_dots (fun h => hs (List.mem_append_left _ h)) ha dest
  refine hcopy.trans ?_
  cases src with
  | nil => exact (Option.bind_fun_some _).symm
  | cons x src =>
    obtain rfl : x = '/' := Option.some.inj (hsrc.resolve_left (List.cons_ne_nil x src))
    rfl

/-- A name with two dots in front of its end is kept. -/
private theorem loop_kept {x : Char} {b : Name} (hs : '/' ∉ c) (h : behindDots c = some (x :: b)) (hsrc : src = [] ∨ src.head? = some '/')
    (dest : Path) : strNormalizeLoop false dest (c ++ src) = strNormalizeLoop false (c.reverse ++ dest) src := by
  obtain ⟨a,rfl,ha⟩ := behindDots_some h
  have hx : x ≠ '/' := by
    rintro rfl
    exact hs (List.mem_append_right a (List.mem_cons_of_mem _ (List.mem_cons_of_mem _ List.mem_cons_self)))
  have hb : '/' ∉ '.' :: x :: b := fun h => hs (List.mem_append_right a (List.mem_cons_of_mem _ h))
  have hdots : strNormalizeLoop false (a.reverse ++ dest) ('.' :: '.' :: ((x :: b) ++ src)) =
      strNormalizeLoop true ('.' :: (a.reverse ++ dest)) ('.' :: ((x :: b) ++ src)) :=
    strNormalizeLoop.eq_6 _ _ (List.cons_ne_nil _ _) fun src' h => hx (List.cons.inj h).1
  rw [List.append_assoc]
  refine (loop_copy_dots (fun h => hs (List.mem_append_left _ h)) ha dest).trans (hdots.trans ?_)
  refine (loop_rest hb hsrc _).trans (congrArg (strNormalizeLoop false · src) ?_)
  simp

/-- A dot at the end of a name is left out with the slash behind it. -/
private theorem loop_ended (hs : '/' ∉ w ++ ['.']) (h : behindDots (w ++ ['.']) = none) (dest src : Path) :
    strNormalizeLoop false dest (w ++ '.' :: '/' :: src) = strNormalizeLoop false (w.reverse ++ dest) src := by
  refine loop_copy_dots (fun hw => hs (List.mem_append_left _ hw)) (fun a' b' hab => ?_) dest
  refine behindDots_none h (a := a') ?_
  rw [hab, List.append_assoc]
  rfl

/-- A name without two dots in a row is kept where no dot is in front of a slash. -/
private theorem loop_plain (hs : '/' ∉ c) (h : behindDots c = none) (hsrc : src = [] ∨ src.head? = some '/' ∧ c.getLast? ≠ some '.') (dest : Path) :
    strNormalizeLoop false dest (c ++ src) = strNormalizeLoop false (c.reverse ++ dest) src := by
  refine loop_copy hs (fun a b hab => ?_) dest
  have hd := behindDots_none h hab
  cases b with
  | nil =>
    have hlast : c.getLast? = some '.' := by rw [hab, List.getLast?_concat]
    obtain rfl := hsrc.resolve_right fun hne => hne.2 hlast
    exact ⟨nofun,nofun⟩
  | cons x b =>
    refine ⟨hd,fun hx => hs ?_⟩
    obtain rfl : x = '/' := Option.some.inj hx
    rw [hab]
    exact List.mem_append_right a (List.mem_cons_of_mem _ List.mem_cons_self)

private theorem dirText_concat (dir : List Name) (c : Name) : dirText (dir ++ [c]) = dirText dir ++ (c ++ ['/']) := by
  rw [dirText, List.flatMap_append, dirText, List.cons_append, List.flatMap_singleton]

theorem absText_concat (dir : List Name) (c : Name) : absText (dir ++ [c]) = dirText dir ++ c := by
  rw [absText, dirText, List.cons_append]
  congr 1
  induction dir with
  | nil => simp
  | cons d dir ih =>
    rw [List.cons_append, List.intercalate_cons_of_ne_nil (List.append_ne_nil_of_right_ne_nil dir (List.cons_ne_nil c [])), ih,
      List.flatMap_cons, List.append_assoc, List.append_assoc, List.append_assoc]

private theorem dirText_reverse (dir : List Name) : ∃ l, (dirText dir).reverse = '/' :: l := by
  rcases List.eq_nil_or_concat dir with rfl | ⟨d,c,rfl⟩
  · exact ⟨[],rfl⟩
  · refine ⟨c.reverse ++ (dirText d).reverse,?_⟩
    rw [List.concat_eq_append, dirText_concat, List.reverse_append, List.reverse_append]
    rfl

/-- Back over the bytes of a name. -/
private theorem dropWhile_name (hs : '/' ∉ w) (dir : List Name) :
    (w.reverse ++ (dirText dir).reverse).dropWhile (fun c => c ≠ '/') = (dirText dir).reverse := by
  obtain ⟨l,hl⟩ := dirText_reverse dir
  rw [List.dropWhile_append_of_pos, hl]
  · exact List.dropWhile_cons_of_neg (by decide)
  · intro c hc
    refine decide_eq_true fun hslash => hs ?_
    rw [← hslash]
    exact List.mem_reverse.mp hc

/-- With some bytes of a name written dest goes back to the start of the name. -/
private theorem destBack_name (hne : w ≠ []) (hs : '/' ∉ w) (dir : List Name) :
    destBack (w.reverse ++ (dirText dir).reverse) = some (dirText dir).reverse := by
  obtain ⟨l,hl⟩ := dirText_reverse dir
  obtain ⟨v,x,rfl⟩ := List.eq_nil_or_concat w |>.resolve_left hne
  rw [List.concat_eq_append] at hs ⊢
  have hv := dropWhile_name (fun h => hs (List.mem_append_left [x] h)) dir
  rw [List.reverse_append, List.reverse_singleton]
  rw [hl] at hv ⊢
  refine (destBack.eq_3 x _ ?_).trans (congrArg some hv)
  exact fun h => absurd h (List.append_ne_nil_of_right_ne_nil _ (List.cons_ne_nil _ l))

/-- At the start of a name it goes to the directory above. -/
private theorem destBack_dir (hs : ∀ c ∈ dir, '/' ∉ c) : destBack (dirText dir).reverse = some (dirText dir.dropLast).reverse := by
  rcases List.eq_nil_or_concat dir with rfl | ⟨d,c,rfl⟩
  · rfl
  · rw [List.concat_eq_append] at hs ⊢
    have hc := dropWhile_name (hs c (List.mem_append_right d List.mem_cons_self)) d
    obtain ⟨l,hl⟩ := dirText_reverse d
    rw [dirText_concat, List.reverse_append, List.reverse_append, List.dropLast_concat]
    rw [hl] at hc ⊢
    refine (destBack.eq_3 '/' _ ?_).trans (congrArg some hc)
    exact fun h => absurd h (List.append_ne_nil_of_right_ne_nil _ (List.cons_ne_nil _ l))

/-- The text at the end of the loop. -/
private theorem end_dir (dir : List Name) : (strRemovePathEndSlash (dirText dir).reverse).map List.reverse = some (absText dir) := by
  rcases List.eq_nil_or_concat dir with rfl | ⟨d,c,rfl⟩
  · rfl
  · obtain ⟨l,hl⟩ := dirText_reverse d
    have hne : c.reverse ++ (dirText d).reverse ≠ [] := List.append_ne_nil_of_right_ne_nil _ (by rw [hl]; exact List.cons_ne_nil _ l)
    rw [List.concat_eq_append, dirText_concat, List.reverse_append, List.reverse_append, absText_concat]
    change (some (if c.reverse ++ (dirText d).reverse = [] then ['/'] else c.reverse ++ (dirText d).reverse)).map List.reverse = _
    rw [if_neg hne, Option.map_some, List.reverse_append, List.reverse_reverse, List.reverse_reverse]

/-- A dot that is the last name is removed. -/
private theorem end_dot (dir : List Name) : (strRemovePathEndSlash ('.' :: (dirText dir).reverse)).map List.reverse = some (absText dir) := by
  obtain ⟨l,hl⟩ := dirText_reverse dir
  have hdir := end_dir dir
  rw [hl] at hdir ⊢
  exact hdir

private theorem end_name (hne : w ≠ []) (hs : '/' ∉ w) (hdot : w ≠ ['.']) (dir : List Name) :
    (strRemovePathEndSlash (w.reverse ++ (dirText dir).reverse)).map List.reverse = some (absText (dir ++ [w])) := by
  obtain ⟨l,hl⟩ := dirText_reverse dir
  have hstay : strRemovePathEndSlash (w.reverse ++ '/' :: l) = some (w.reverse ++ '/' :: l) := by
    obtain ⟨v,x,rfl⟩ := List.eq_nil_or_concat w |>.resolve_left hne
    rw [List.concat_eq_append] at hs hdot ⊢
    rw [List.reverse_append, List.reverse_singleton]
    apply strRemovePathEndSlash.eq_5
    · exact nofun
    · exact fun h => List.append_ne_nil_of_right_ne_nil _ (List.cons_ne_nil '/' l) (List.cons.inj h).2
    · intro d h
      obtain ⟨rfl,hv⟩ := List.cons.inj h
      rcases List.eq_nil_or_concat v with rfl | ⟨u,y,rfl⟩
      · exact hdot rfl
      · rw [List.concat_eq_append] at hs hv
        simp only [List.nil_append, List.append_eq, List.reverse_append, List.reverse_singleton, List.cons_append] at hv
        obtain ⟨rfl,-⟩ := List.cons.inj hv
        exact hs (by simp)
    · intro d h
      obtain ⟨rfl,-⟩ := List.cons.inj h
      exact hs (List.mem_append_right v List.mem_cons_self)
  rw [hl, hstay, Option.map_some, List.reverse_append, List.reverse_reverse, ← hl, List.reverse_reverse, absText_concat]

private theorem pathText_tail (cs : List Name) :
    (if cs = [] ∧ slash = false then [] else '/' :: pathText slash cs).tail = pathText slash cs := by
  split_ifs with hend
  · rw [hend.1]
    rfl
  · rfl

private theorem dirText_name (dir : List Name) (w : Name) : '/' :: (w.reverse ++ (dirText dir).reverse) = (dirText (dir ++ [w])).reverse := by
  rw [dirText_concat, List.reverse_append, List.reverse_append]
  rfl

/-- The names of a path, from a directory on with some bytes of a name written. -/
private theorem loop_names (hs : '/' ∉ w) (hdot : w ≠ ['.']) (hdir : ∀ c ∈ dir, '/' ∉ c) (hcs : ∀ c ∈ cs, c.Valid) :
    ((strNormalizeLoop false (w.reverse ++ (dirText dir).reverse) (pathText slash cs)).bind strRemovePathEndSlash).map List.reverse =
      some (absText (readNames slash dir w cs)) := by
  induction cs generalizing dir w with
  | nil =>
    rw [pathText, strNormalizeLoop, readNames, Option.bind_some]
    split_ifs with hne
    · rw [hne]
      exact end_dir dir
    · exact end_name hne hs hdot dir
  | cons c cs ih =>
    obtain ⟨hne,hc⟩ := hcs c List.mem_cons_self
    have hrest : ∀ d ∈ cs, d.Valid := fun d hd => hcs d (List.mem_cons_of_mem c hd)
    have hsrc : ∀ src, src = (if cs = [] ∧ slash = false then [] else '/' :: pathText slash cs) → src = [] ∨ src.head? = some '/' := by
      rintro src rfl
      split_ifs
      · exact .inl rfl
      · exact .inr rfl
    have hwc : '/' ∉ w ++ c := fun h => (List.mem_append.mp h).elim hs hc
    have hnew : ∀ d ∈ dir ++ [w ++ c], '/' ∉ d := by
      intro d hd
      rcases List.mem_append.mp hd with hd | hd
      · exact hdir d hd
      · rw [List.mem_singleton.mp hd]
        exact hwc
    -- the name is written to its end
    have hname : (cs = [] ∧ slash = false → w ++ c ≠ ['.']) →
        ((strNormalizeLoop false (c.reverse ++ (w.reverse ++ (dirText dir).reverse))
          (if cs = [] ∧ slash = false then [] else '/' :: pathText slash cs)).bind strRemovePathEndSlash).map List.reverse =
        some (absText (readNames slash (dir ++ [w ++ c]) [] cs)) := by
      intro hlast
      rw [← List.append_assoc, ← List.reverse_append]
      split_ifs with hend
      · rw [strNormalizeLoop, Option.bind_some, hend.1, readNames, if_pos rfl]
        exact end_name (List.append_ne_nil_of_right_ne_nil w hne) hwc (hlast hend) dir
      · rw [loop_cons (by decide), dirText_name]
        exact ih List.not_mem_nil nofun hnew hrest
    rw [pathText, readNames]
    rcases hb : behindDots c with _ | ⟨_ | ⟨x,b⟩⟩
    · simp only
      by_cases hlast : c.getLast? = some '.' ∧ ¬ (cs = [] ∧ slash = false)
      · obtain ⟨v,rfl⟩ := List.getLast?_eq_some_iff.mp hlast.1
        have hv : w ++ v ≠ ['.'] := by
          intro hwv
          rcases List.append_eq_singleton_iff.mp hwv with ⟨-,rfl⟩ | ⟨hw,-⟩
          · exact absurd hb nofun
          · exact hdot hw
        rw [if_pos hlast, if_neg hlast.2, List.append_assoc, List.dropLast_concat]
        refine (congrArg (fun r => (r.bind strRemovePathEndSlash).map List.reverse) (loop_ended hc hb _ (pathText slash cs))).trans ?_
        rw [← List.append_assoc, ← List.reverse_append]
        exact ih (fun h => (List.mem_append.mp h).elim hs fun h => hc (List.mem_append_left _ h)) hv hdir hrest
      · rw [if_neg hlast, loop_plain hc hb]
        · by_cases hone : w = [] ∧ c = ['.']
          · obtain ⟨rfl,rfl⟩ := hone
            have hend : cs = [] ∧ slash = false := by
              by_contra hend
              exact hlast ⟨rfl,hend⟩
            rw [if_pos hend, if_pos ⟨rfl,rfl⟩]
            exact end_dot dir
          · rw [if_neg hone]
            refine hname fun _ h => hone ?_
            rcases List.append_eq_singleton_iff.mp h with h | ⟨-,h⟩
            · exact h
            · exact absurd h hne
        · split_ifs with hend
          · exact .inl rfl
          · exact .inr ⟨rfl,fun h => hlast ⟨h,hend⟩⟩
    · obtain ⟨a,ha,hloop⟩ := loop_dotdot hc hb (hsrc _ rfl) (w.reverse ++ (dirText dir).reverse)
      rw [hloop, pathText_tail, ← List.append_assoc, ← List.reverse_append]
      simp only
      by_cases hwa : w ++ a = []
      · obtain ⟨rfl,rfl⟩ := List.append_eq_nil_iff.mp hwa
        rw [if_pos ⟨rfl,ha⟩, List.nil_append, List.reverse_nil, List.nil_append, destBack_dir hdir, Option.bind_some]
        exact ih List.not_mem_nil nofun (fun d hd => hdir d (List.mem_of_mem_dropLast hd)) hrest
      · have hne' : ¬ (w = [] ∧ c = ['.','.']) := by
          rintro ⟨rfl,hc'⟩
          rw [hc'] at ha
          exact hwa (List.append_cancel_right ha).symm
        have hsa : '/' ∉ w ++ a := fun h => (List.mem_append.mp h).elim hs fun h => hc (by rw [ha]; exact List.mem_append_left _ h)
        rw [if_neg hne', destBack_name hwa hsa, Option.bind_some]
        exact ih List.not_mem_nil nofun hdir hrest
    · rw [loop_kept hc hb (hsrc _ rfl)]
      refine hname fun _ h => ?_
      rcases List.append_eq_singleton_iff.mp h with ⟨-,rfl⟩ | ⟨-,h⟩
      · exact absurd hb nofun
      · exact hne h

theorem endsSlash_cons {x y : Char} (t : Path) : endsSlash (x :: y :: t) = endsSlash (y :: t) := by
  rw [endsSlash, List.getLast?_cons_cons, endsSlash]

private theorem endsSlash_append (s : Path) (x : Char) (t : Path) : endsSlash (s ++ x :: t) = endsSlash (x :: t) := by
  rw [endsSlash, List.getLast?_append_of_ne_nil s (List.cons_ne_nil x t), endsSlash]

private theorem components_ne_nil {x : Char} (hx : x ≠ '/') (t : Path) : components (x :: t) ≠ [] := by
  obtain ⟨d,l,hl⟩ := List.exists_cons_of_ne_nil (List.splitOn_ne_nil '/' t)
  rw [components, List.splitOn_cons_eq_if_modifyHead, if_neg fun h => hx (beq_iff_eq.mp h), hl, List.modifyHead_cons]
  exact List.ne_nil_of_mem (List.mem_filter.mpr ⟨List.mem_cons_self,decide_eq_true (List.cons_ne_nil x d)⟩)

/-- Without a name there are slashes only. -/
private theorem endsSlash_of_components (h : components t = []) : endsSlash ('/' :: t) = true := by
  induction t with
  | nil => rfl
  | cons x t ih =>
    by_cases hx : x = '/'
    · subst hx
      rw [components_slash] at h
      rw [endsSlash_cons]
      exact ih h
    · exact absurd h (components_ne_nil hx t)

private theorem pathText_slash (t : Path) : pathText (endsSlash ('/' :: t)) (components t) = pathText (endsSlash t) (components t) := by
  cases t with
  | nil => rfl
  | cons x t => rw [endsSlash_cons]

/-- The path with single slashes, at the start of a name and within one. -/
private theorem strPathLoop_eq (t : Path) : strPathLoop true t = pathText (endsSlash t) (components t) ∧
    ∀ c : Name, c.Valid → c ++ strPathLoop false t = pathText (endsSlash (c ++ t)) (components (c ++ t)) := by
  induction t with
  | nil =>
    refine ⟨rfl,fun c hc => ?_⟩
    have hend : endsSlash c = false := decide_eq_false fun h => hc.slash (List.mem_of_getLast? h)
    rw [List.append_nil, components_name hc, hend]
    rfl
  | cons x t ih =>
    obtain ⟨ihslash,ihname⟩ := ih
    by_cases hx : x = '/'
    · subst hx
      refine ⟨?_,fun c hc => ?_⟩
      · rw [components_slash, pathText_slash, ← ihslash]
        rfl
      · have hend : ¬ (components t = [] ∧ endsSlash ('/' :: t) = false) := by
          rintro ⟨hnone,hfalse⟩
          rw [endsSlash_of_components hnone] at hfalse
          exact Bool.noConfusion hfalse
        rw [components_name_append hc, endsSlash_append, pathText, if_neg hend, pathText_slash, ← ihslash]
        rfl
    · have hstep : ∀ slash, strPathLoop slash (x :: t) = x :: strPathLoop false t := by
        intro slash
        rw [strPathLoop, if_neg fun h => hx h.2, decide_eq_false hx]
      have hsingle : Name.Valid [x] := ⟨List.cons_ne_nil x [],fun h => hx (List.mem_singleton.mp h).symm⟩
      refine ⟨(hstep true).trans (ihname [x] hsingle),fun c hc => ?_⟩
      have hcx : Name.Valid (c ++ [x]) := by
        refine ⟨List.append_ne_nil_of_left_ne_nil hc.ne_nil [x],fun h => ?_⟩
        rcases List.mem_append.mp h with h | h
        · exact hc.slash h
        · exact hsingle.slash h
      have hname := ihname (c ++ [x]) hcx
      rw [List.append_assoc, List.append_assoc] at hname
      rw [hstep]
      exact hname

/-- str_path and str_normalize_path on an absolute path. -/
theorem strNormalizePath_eq (t : Path) :
    strNormalizePath (strPath ('/' :: t)) = some (absText (readNames (endsSlash t) [] [] (components t))) := by
  have hpath : strPath ('/' :: t) = '/' :: pathText (endsSlash t) (components t) := by
    rw [← (strPathLoop_eq t).1]
    rfl
  rw [hpath, strNormalizePath, loop_cons (by decide)]
  have hname : ('/' : Char) ∉ ([] : Name) := List.not_mem_nil
  have hdir : ∀ c ∈ ([] : List Name), '/' ∉ c := nofun
  exact loop_names hname nofun hdir fun c hc => valid_of_mem hc

end

end LiteOsKernel.Fs
