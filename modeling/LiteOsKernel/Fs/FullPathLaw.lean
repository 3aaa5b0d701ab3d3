import LiteOsKernel.Fs.FullPathNames
import Mathlib.Data.List.Chain

/-! The paths that vfs_normalize_path stores in their canonical form. -/
namespace LiteOsKernel.Fs
open Paths

/-- The path that is meant: the name itself, or the name in the directory. -/
def joined (env : PathEnv) (directory : Option Path) (filename : Path) : Path :=
  if filename.head? = some '/' then filename else directory.getD env.workdir ++ '/' :: filename

/-- The path that is read, without a dot and a slash in front of the name. -/
def scanned (env : PathEnv) (directory : Option Path) (filename : Path) : Path :=
  if filename.head? = some '/' then filename else directory.getD env.workdir ++ '/' :: skipDotSlash filename

/-- A path that is accepted is stored in its canonical form, and what is stored is stored as it is. -/
def NormalizeLaw (env : PathEnv) (directory : Option Path) (filename : Path) : Prop :=
  match vfsNormalizePath env directory filename with
  | .error _ => True
  | .fault => False
  | .stored pathname => pathname = canonical (joined env directory filename) ∧
    ∀ again dir, again.mem = true → vfsNormalizePath again dir pathname = .stored pathname

section
variable {env : PathEnv} {directory : Option Path} {filename dest src t p : Path} {c : Name} {cs : List Name}

private theorem canonical_scanned (env : PathEnv) (directory : Option Path) (filename : Path) :
    canonical (scanned env directory filename) = canonical (joined env directory filename) := by
  rw [scanned, joined]
  split_ifs with hslash
  · rfl
  · rw [skipDotSlash.eq_def]
    split
    · exact (canonical_dot _ _).symm
    · rfl

private theorem vfsNormalizeFullpath_ok {fullpath : Path} (h : vfsNormalizeFullpath env (directory.getD env.workdir) filename = .ok fullpath) :
    fullpath = scanned env directory filename := by
  rw [vfsNormalizeFullpath, vfsNotAbsolutePath] at h
  rw [scanned]
  split_ifs at h with hslash hmem hmem hsecond
  · rw [if_neg hslash]
    exact (Except.ok.inj h).symm
  · rw [if_pos (not_not.mp hslash)]
    exact (Except.ok.inj h).symm

/-- What is accepted was read, and is not too long. -/
private theorem vfsNormalizePath_accepted (h : ∀ e, vfsNormalizePath env directory filename ≠ .error e) :
    (strNormalizePath (strPath (scanned env directory filename)) = none ∧ vfsNormalizePath env directory filename = .fault) ∨
    ∃ p, strNormalizePath (strPath (scanned env directory filename)) = some p ∧ p.length < PATH_MAX ∧
      vfsNormalizePath env directory filename = .stored p := by
  rw [vfsNormalizePath] at h ⊢
  cases hcheck : vfsNormalizePathParameCheck filename with
  | error e => exact absurd (by rw [hcheck]) (h e)
  | ok namelen =>
    rw [hcheck] at h
    simp only at h ⊢
    split_ifs at h ⊢ with htoo
    · exact absurd rfl (h .ENAMETOOLONG)
    · cases hfull : vfsNormalizeFullpath env (directory.getD env.workdir) filename with
      | error e => exact absurd (by rw [hfull]) (h e)
      | ok fullpath =>
        rw [hfull] at h
        simp only at h ⊢
        rw [← vfsNormalizeFullpath_ok hfull]
        cases hnorm : strNormalizePath (strPath fullpath) with
        | none => exact .inl ⟨rfl,rfl⟩
        | some p =>
          rw [hnorm] at h
          simp only at h ⊢
          split_ifs at h ⊢ with hlong
          · exact absurd rfl (h .ENAMETOOLONG)
          · exact .inr ⟨p,rfl,Nat.lt_of_not_le hlong,rfl⟩

private theorem absText_inj {ds : List Name} (hc : ∀ c ∈ cs, c.Valid) (hd : ∀ d ∈ ds, d.Valid) (h : absText cs = absText ds) : cs = ds := by
  rw [← components_absText hc, h, components_absText hd]

/-- What is stored for an absolute path. -/
private theorem strNormalizePath_settled (t : Path) :
    ∃ cs, Settled cs ∧ cs = readNames (endsSlash t) [] [] (components t) ∧ strNormalizePath (strPath ('/' :: t)) = some (absText cs) :=
  ⟨_,readNames_settled (fun _ h => absurd h List.not_mem_nil) List.not_mem_nil rfl nofun fun _ => valid_of_mem,rfl,strNormalizePath_eq t⟩

private theorem endsSlash_name (hc : c.Valid) (s : Path) : endsSlash (s ++ c) = false := by
  refine decide_eq_false fun h => hc.slash (List.mem_of_getLast? ?_)
  rwa [List.getLast?_append_of_ne_nil s hc.ne_nil] at h

/-- Behind its first slash a canonical text does not start or end with one. -/
private theorem intercalate_slash (h : ∀ c ∈ cs, c.Valid) :
    endsSlash (['/'].intercalate cs) = false ∧ (['/'].intercalate cs).head? ≠ some '/' := by
  constructor
  · rcases List.eq_nil_or_concat cs with rfl | ⟨d,c,rfl⟩
    · rfl
    · rw [List.concat_eq_append] at h ⊢
      have hc := h c (List.mem_append_right d List.mem_cons_self)
      have htext : '/' :: ['/'].intercalate (d ++ [c]) = dirText d ++ c := absText_concat d c
      have hend : endsSlash ('/' :: ['/'].intercalate (d ++ [c])) = false := by
        rw [htext]
        exact endsSlash_name hc _
      cases hu : ['/'].intercalate (d ++ [c]) with
      | nil => rfl
      | cons x u =>
        rw [hu, endsSlash_cons] at hend
        exact hend
  · cases cs with
    | nil => exact nofun
    | cons c cs =>
      have hc := h c List.mem_cons_self
      obtain ⟨x,c,rfl⟩ := List.exists_cons_of_ne_nil hc.ne_nil
      have hx : x ≠ '/' := fun hx => hc.slash (hx ▸ List.mem_cons_self)
      cases cs with
      | nil => simpa using hx
      | cons d cs => simpa using hx

/-- A settled path is stored as it is. -/
private theorem vfsNormalizePath_settled (h : Settled cs) (hlen : (absText cs).length < PATH_MAX) (env : PathEnv) (directory : Option Path)
    (hmem : env.mem = true) : vfsNormalizePath env directory (absText cs) = .stored (absText cs) := by
  have hvalid : ∀ c ∈ cs, c.Valid := fun c hc => (h.plain c hc).toValid
  obtain ⟨hend,hhead⟩ := intercalate_slash hvalid
  have hcs : components (['/'].intercalate cs) = cs := by
    rw [← components_slash]
    exact components_absText hvalid
  have hnorm : strNormalizePath (strPath (absText cs)) = some (absText cs) := by
    rw [absText, strNormalizePath_eq, hend, hcs, readNames_eq_self h, absText]
  have hname : (lastName (absText cs)).length ≤ NAME_MAX := by
    have hle : (lastName (absText cs)).length ≤ (absText cs).length := by
      rw [lastName, List.length_reverse]
      refine (List.takeWhile_sublist _).length_le.trans ?_
      rw [List.length_reverse, List.length_drop]
      exact Nat.sub_le ..
    exact hle.trans (Nat.le_of_lt_succ hlen)
  have hcheck : vfsNormalizePathParameCheck (absText cs) = .ok (absText cs).length := by
    have hmin : vfsStrnlen (absText cs) PATH_MAX = (absText cs).length := Nat.min_eq_left (Nat.le_of_lt hlen)
    rw [vfsNormalizePathParameCheck, hmin, if_neg (by rw [absText]; exact Nat.succ_ne_zero _),
      if_neg (Nat.not_le.mpr hlen), if_neg (Nat.not_lt.mpr hname)]
  have hfull : vfsNormalizeFullpath env (directory.getD env.workdir) (absText cs) = .ok (absText cs) := by
    have hsecond : (absText cs)[1]? ≠ some '/' := by
      rw [absText, List.getElem?_cons_succ, ← List.head?_eq_getElem?]
      exact hhead
    have hfirst : ¬ (absText cs).head? ≠ some '/' := not_not.mpr rfl
    rw [vfsNormalizeFullpath, if_neg hfirst, hmem, if_neg (by decide), if_neg hsecond]
  rw [vfsNormalizePath, hcheck]
  simp only
  rw [if_neg fun h => h.1 rfl, hfull]
  simp only
  rw [hnorm]
  exact if_neg (Nat.not_le.mpr hlen)

/-- No two slashes in a row. -/
def Single (t : Path) : Prop := t.IsChain fun a b => ¬ (a = '/' ∧ b = '/')

private theorem strPathLoop_single (slash : Bool) (t : Path) :
    Single (strPathLoop slash t) ∧ (slash = true → (strPathLoop slash t).head? ≠ some '/') := by
  induction t generalizing slash with
  | nil => exact ⟨List.isChain_nil,fun _ => nofun⟩
  | cons x t ih =>
    rw [strPathLoop]
    split_ifs with hx
    · exact ⟨(ih true).1,fun _ => (ih true).2 rfl⟩
    · obtain ⟨hsingle,hhead⟩ := ih (x = '/')
      refine ⟨List.isChain_cons.mpr ⟨fun y hy h => hhead (decide_eq_true h.1) ?_,hsingle⟩,fun hslash h => hx ⟨hslash,Option.some.inj h⟩⟩
      rw [h.2] at hy
      exact hy

/-- The bytes in front of dest do not start with a slash, and will not. -/
structure Relative (dest src : Path) : Prop where
  first : dest.getLast? ≠ some '/'
  next : dest = [] → src.head? ≠ some '/'

private theorem getLast_suffix {s : Path} (h : s <:+ t) (ht : t.getLast? ≠ some '/') : s.getLast? ≠ some '/' := by
  obtain ⟨r,rfl⟩ := h
  cases s with
  | nil => exact nofun
  | cons x s => rwa [List.getLast?_append_of_ne_nil r (List.cons_ne_nil x s)] at ht

private theorem destBack_relative {back : Path} (h : dest.getLast? ≠ some '/') (hback : destBack dest = some back) : back.getLast? ≠ some '/' := by
  rcases dest with _ | ⟨x,_ | ⟨y,dest⟩⟩
  · exact absurd hback nofun
  · obtain rfl := Option.some.inj hback
    exact getLast_suffix (List.dropWhile_suffix _) h
  · obtain rfl := Option.some.inj hback
    refine getLast_suffix ((List.dropWhile_suffix _).trans (List.suffix_cons x _)) h

theorem Relative.push {x : Char} (h : Relative dest (x :: src)) : Relative (x :: dest) src := by
  refine ⟨?_,fun hnil => absurd hnil (List.cons_ne_nil x dest)⟩
  cases dest with
  | nil => exact h.next rfl
  | cons y dest =>
    rw [List.getLast?_cons_cons]
    exact h.first

theorem Single.head (h : Single ('/' :: src)) : src.head? ≠ some '/' := by
  cases src with
  | nil => exact nofun
  | cons x src => exact fun hx => (List.isChain_cons_cons.mp h).1 ⟨rfl,Option.some.inj hx⟩

theorem Single.tail {x : Char} (h : Single (x :: src)) : Single src := List.IsChain.tail h

private theorem loop_relative {b : Bool} {last : Path} (hsingle : Single src) (h : Relative dest src)
    (hloop : strNormalizeLoop b dest src = some last) : last.getLast? ≠ some '/' := by
  fun_induction strNormalizeLoop b dest src with
  | case1 =>
    obtain rfl := Option.some.inj hloop
    exact h.first
  | case2 dest c src ih => exact ih hsingle.tail h.push hloop
  | case3 dest src ih => exact ih hsingle.tail.tail ⟨h.first,fun _ => hsingle.tail.head⟩ hloop
  | case4 => exact destBack_relative h.first hloop
  | case5 dest src ih =>
    obtain ⟨back,hback,hloop⟩ := Option.bind_eq_some_iff.mp hloop
    exact ih back hsingle.tail.tail.tail ⟨destBack_relative h.first hback,fun _ => hsingle.tail.tail.head⟩ hloop
  | case6 dest src _ _ ih => exact ih hsingle.tail h.push hloop
  | case7 dest c src _ _ _ _ ih => exact ih hsingle.tail h.push hloop

private theorem remove_relative {last : Path} (h : dest.getLast? ≠ some '/') (hremove : strRemovePathEndSlash dest = some last) :
    last.getLast? ≠ some '/' := by
  have hdest : ∀ d : Path, ['/'] ++ d <:+ dest → (if d = [] then ['/'] else d).getLast? ≠ some '/' := by
    intro d hd
    split_ifs with hnil
    · rw [hnil] at hd
      exact getLast_suffix hd h
    · exact getLast_suffix ((List.suffix_append ['/'] d).trans hd) h
  fun_cases strRemovePathEndSlash dest with
  | case1 => exact absurd hremove nofun
  | case2 => exact absurd hremove nofun
  | case3 d =>
    obtain rfl := Option.some.inj hremove
    exact hdest d (List.suffix_append ['.'] _)
  | case4 d =>
    obtain rfl := Option.some.inj hremove
    exact hdest d (List.suffix_refl _)
  | case5 =>
    rename_i h1 h2 h3 h4
    rw [strRemovePathEndSlash.eq_5 dest h1 h2 h3 h4] at hremove
    obtain rfl := Option.some.inj hremove
    exact h

/-- A path that does not start with a slash is stored without one. -/
private theorem strNormalizePath_relative (ht : t.head? ≠ some '/') (h : strNormalizePath (strPath t) = some p) : p.head? ≠ some '/' := by
  have hhead : (strPath t).head? ≠ some '/' := by
    cases t with
    | nil => exact nofun
    | cons x t => exact ht
  obtain ⟨last,hlast,rfl⟩ := Option.map_eq_some_iff.mp h
  obtain ⟨dest,hloop,hremove⟩ := Option.bind_eq_some_iff.mp hlast
  rw [List.head?_reverse]
  exact remove_relative (loop_relative (strPathLoop_single false t).1 ⟨by decide,fun _ => hhead⟩ hloop) hremove

private theorem readsWell_slash (t : Path) : ReadsWell (endsSlash ('/' :: t)) [] (components t) ↔ ReadsWell (endsSlash t) [] (components t) := by
  cases t with
  | nil => exact iff_of_true readsWell_nil readsWell_nil
  | cons x t => rw [endsSlash_cons]

/-- Of the paths that are accepted those are stored in their canonical form that are absolute, with a directory or without, and get to the root
after each name that is misread. -/
theorem normalizeLaw_iff (env : PathEnv) (directory : Option Path) (filename : Path)
    (h : ∀ e, vfsNormalizePath env directory filename ≠ .error e) : NormalizeLaw env directory filename ↔
      (scanned env directory filename).head? = some '/' ∧
      ReadsWell (endsSlash (scanned env directory filename)) [] (components (scanned env directory filename)) := by
  have hcanonical := canonical_scanned env directory filename
  rw [NormalizeLaw, ← hcanonical]
  by_cases habs : (scanned env directory filename).head? = some '/'
  · rw [and_iff_right habs]
    obtain ⟨t,ht⟩ := List.head?_eq_some_iff.mp habs
    obtain ⟨cs,hsettled,hcs,hnorm⟩ := strNormalizePath_settled t
    have hvalid : ∀ c ∈ components t, c.Valid := fun _ => valid_of_mem
    have hreads : cs = resolve [] (components t) ↔ ReadsWell (endsSlash t) [] (components t) := by
      rw [hcs]
      exact (reads hvalid).right []
    rw [ht] at hcanonical ⊢
    rw [components_slash, readsWell_slash, ← hreads]
    rcases vfsNormalizePath_accepted h with ⟨hnone,-⟩ | ⟨p,hp,hlen,hstored⟩
    · rw [ht, hnorm] at hnone
      exact absurd hnone nofun
    · rw [ht, hnorm] at hp
      obtain rfl := Option.some.inj hp
      rw [hstored]
      simp only
      rw [canonical, components_slash, and_iff_left fun again dir hmem => vfsNormalizePath_settled hsettled hlen again dir hmem]
      refine ⟨fun heq => absText_inj (fun c hc => (hsettled.plain c hc).toValid) (fun d hd => ?_) heq,fun heq => congrArg absText heq⟩
      exact (resolve_forall (fun _ h => absurd h List.not_mem_nil) hvalid d hd).toValid
  · refine iff_of_false ?_ fun hok => habs hok.1
    rcases vfsNormalizePath_accepted h with ⟨-,hfault⟩ | ⟨p,hp,-,hstored⟩
    · rw [hfault]
      exact not_false
    · rw [hstored]
      rintro ⟨heq,-⟩
      refine strNormalizePath_relative habs hp ?_
      rw [heq]
      rfl

end

/-- Names that start with dots, and a name that ends in two dots in front of the root. -/
theorem normalizeLaw_dots : NormalizeLaw ⟨256,['/'],true⟩ none "a../.././.b..c".toList := by
  have hstored : vfsNormalizePath ⟨256,['/'],true⟩ none "a../.././.b..c".toList = .stored "/.b..c".toList := by decide +kernel
  have hnames : components (scanned ⟨256,['/'],true⟩ none "a../.././.b..c".toList) =
      [['a','.','.'],['.','.'],['.'],['.','b','.','.','c']] := by decide +kernel
  have hend : endsSlash (scanned ⟨256,['/'],true⟩ none "a../.././.b..c".toList) = false := by decide +kernel
  refine (normalizeLaw_iff _ _ _ (by rw [hstored]; exact nofun)).mpr ⟨by decide +kernel,?_⟩
  rw [hnames, hend]
  refine readsWell_cons.mpr ⟨fun _ => ⟨[['.','.']],by decide,by decide⟩,?_⟩
  refine readsWell_cons.mpr ⟨fun h => absurd h (by decide),?_⟩
  refine readsWell_cons.mpr ⟨fun h => absurd h (by decide),?_⟩
  exact readsWell_cons.mpr ⟨fun h => absurd h (by decide),readsWell_nil⟩

/-- The name a. loses its dot. -/
theorem not_normalizeLaw_dot : ¬ ∀ env directory filename, (∀ e, vfsNormalizePath env directory filename ≠ .error e) →
    NormalizeLaw env directory filename := by
  intro hall
  have hstored : vfsNormalizePath ⟨256,['/'],true⟩ none "/a./b".toList = .stored "/ab".toList := by decide +kernel
  have hlaw := hall ⟨256,['/'],true⟩ none "/a./b".toList (by rw [hstored]; exact nofun)
  rw [NormalizeLaw, hstored] at hlaw
  exact absurd hlaw.1 (by decide +kernel)

end LiteOsKernel.Fs
