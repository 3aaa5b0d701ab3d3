import LiteOsKernel.LiteIpc.WriteRun

/-! HandleSpecialObjects over a whole message: it translates the objects up to the first one that is misplaced or refused, and undoes them
then. -/
namespace LiteOsKernel.LiteIpc
open Fs Function Lib

section
variable {H : Type} {A : Allocator H} {s s₀ x y v : IpcState H} {p : ProcIpcInfo H} {c : WriteCall} {ans : ObjAnswers}
  {obj o o' : SpecialObj} {dstTid dataSz off : Nat} {data : Nat → UInt8} {pre done offs post : List Nat} {es : List Effect}
  {as : List ((SpecialObj × Nat) × SpecialObj)} {r : Receiver}

/-- An object with its number becomes another. -/
def TransStep (A : Allocator H) (c : WriteCall) (dstTid : Nat) (s : IpcState H) (a : (SpecialObj × Nat) × SpecialObj) (s' : IpcState H) : Prop :=
  Translates A c dstTid (c.obj a.1.2) s a.1.1 s' a.2

/-- It does, and that can be taken back. -/
def CleanStep (A : Allocator H) (c : WriteCall) (dstTid : Nat) (s : IpcState H) (a : (SpecialObj × Nat) × SpecialObj) (s' : IpcState H) : Prop :=
  TransStep A c dstTid s a s' ∧ Undoable c dstTid (c.obj a.1.2) s a.1.1

/-- An object does not lie inside the data behind those that are done; the last one is in front. -/
def Misplaced (dataSz : Nat) (done : List Nat) (off : Nat) : Prop := Word.sub dataSz sizeofSpecialObj < off ∨ overlaps done off = true

def WellPlaced (dataSz : Nat) : List Nat → Prop
  | [] => True
  | off :: done => WellPlaced dataSz done ∧ ¬ Misplaced dataSz done off

/-- The objects at some offsets were translated, one after the other. -/
structure Handling (A : Allocator H) (c : WriteCall) (dstTid dataSz : Nat) (data : Nat → UInt8) (s₀ : IpcState H) (pre : List Nat)
    (as : List ((SpecialObj × Nat) × SpecialObj)) (s : IpcState H) : Prop where
  placed : WellPlaced dataSz pre.reverse
  objects : as.map Prod.fst = (pre.map (getObj data)).zipIdx
  trace : Run.Trace (TransStep A c dstTid) s₀ as s

/-- The object at an offset is misplaced, or there is nothing that it can become. -/
def Refused (A : Allocator H) (c : WriteCall) (dstTid dataSz : Nat) (data : Nat → UInt8) (pre : List Nat) (off : Nat) (s : IpcState H) : Prop :=
  Misplaced dataSz pre.reverse off ∨ ∀ v o, ¬ Translates A c dstTid (c.obj pre.length) s (getObj data off) v o

theorem Translates.unique (h : Translates A c dstTid ans s obj v o) (h' : Translates A c dstTid ans s obj x o') : o = o' ∧ v = x := by
  cases h with
  | @fd id d fdt htype hcopy =>
    cases h' with
    | @fd id' d' fdt' htype' hcopy' =>
      obtain rfl := Option.some.inj (hcopy.files.symm.trans hcopy'.files)
      obtain rfl := Option.some.inj (hcopy.table.symm.trans hcopy'.table)
      obtain rfl := lowestFree_unique hcopy.free hcopy'.free
      exact ⟨rfl,rfl⟩
    | ptr htype' => exact absurd (htype.symm.trans htype') (by decide)
    | svc htype' => exact absurd (htype.symm.trans htype') (by decide)
  | ptr htype hbuff hsize huser hproc hheap halloc hcopy =>
    obtain ⟨p',h₁,h₂,buf',bytes',-,-,-,hproc',hheap',halloc',hcopy',rfl,rfl⟩ := h'.ptr_inv htype
    obtain rfl := Option.some.inj (hproc.symm.trans hproc')
    obtain rfl := Option.some.inj (hheap.symm.trans hheap')
    obtain ⟨rfl,rfl⟩ := Prod.ext_iff.mp (Option.some.inj (halloc.symm.trans halloc'))
    obtain rfl := Except.ok.inj (hcopy.symm.trans hcopy')
    exact ⟨rfl,rfl⟩
  | svc htype hnew halive haccess htid =>
    obtain ⟨tid',-,-,-,htid',rfl,rfl⟩ := h'.svc_inv htype
    obtain rfl := Option.some.inj (htid.symm.trans htid')
    exact ⟨rfl,rfl⟩

private theorem transStep_unique {a b : (SpecialObj × Nat) × SpecialObj} (h : TransStep A c dstTid s a x) (h' : TransStep A c dstTid s b y)
    (hab : a.1 = b.1) : a = b ∧ x = y := by
  rw [TransStep, ← hab] at h'
  obtain ⟨ho,hs⟩ := Translates.unique h h'
  exact ⟨Prod.ext hab ho,hs⟩

/-- The effects of the objects that were translated, the last one in front. -/
structure HasEffects (A : Allocator H) (c : WriteCall) (dstTid : Nat) (s₀ : IpcState H) (as : List ((SpecialObj × Nat) × SpecialObj))
    (s : IpcState H) (es : List Effect) : Prop where
  possible : effects.AllPossible (receiver A s₀ dstTid) es
  receiver : receiver A s dstTid = effects.applyAll (receiver A s₀ dstTid) es
  marks : List.Forall₂ (Marks c s₀ dstTid) es (as.reverse.map Prod.snd)
  fits : (∀ a ∈ as, a.1.1.Fits) → ∀ a ∈ as, a.2.Fits
  frame : Frame s₀ s
  wf : s.Wf A
  clean : effects.AllClean (LiteIpc.receiver A s₀ dstTid) es ↔ Run.Trace (CleanStep A c dstTid) s₀ as s

theorem procs_of_frame (h : Frame s₀ s) (hproc : s₀.procs (s₀.tasks dstTid).processCB = some p) :
    ∃ p', s.procs (s.tasks dstTid).processCB = some p' := by
  have hpool := h.pool (s₀.tasks dstTid).processCB
  rw [hproc, Option.map_some] at hpool
  obtain ⟨p',hp',-⟩ := Option.map_eq_some_iff.mp hpool
  exact ⟨p',by rw [h.processCB, hp']⟩

theorem hasEffects_of_trace (hw : s₀.Wf A) (hproc : s₀.procs (s₀.tasks dstTid).processCB = some p)
    (h : Run.Trace (TransStep A c dstTid) s₀ as s) : ∃ es, HasEffects A c dstTid s₀ as s es := by
  induction h with
  | nil => exact ⟨[],trivial,rfl,.nil,fun _ _ ha => (List.not_mem_nil ha).elim,.refl s₀,hw,fun _ => .nil,fun _ => trivial⟩
  | @snoc as y z a h hs ih =>
    obtain ⟨es,he⟩ := ih
    obtain ⟨p',hp'⟩ := procs_of_frame he.frame hproc
    obtain ⟨e,h'⟩ := Translates.hasEffect he.wf hp' hs
    refine ⟨e :: es,⟨he.possible,he.receiver ▸ h'.possible⟩,?_,?_,fun hall b hb => ?_,he.frame.trans h'.frame,h'.wf,?_⟩
    · rw [h'.receiver, he.receiver]
      rfl
    · rw [List.reverse_append, List.reverse_singleton, List.singleton_append, List.map_cons]
      exact .cons (h'.marks.frame he.frame) he.marks
    · rcases List.mem_append.mp hb with hb | hb
      · exact he.fits (fun b hb => hall b (List.mem_append_left _ hb)) b hb
      · rw [List.mem_singleton.mp hb]
        exact h'.fits (hall a (List.mem_append_right as (List.mem_singleton_self a)))
    · have hclean : effects.Clean e (effects.applyAll (receiver A s₀ dstTid) es) ↔ Undoable c dstTid (c.obj a.1.2) y a.1.1 := by
        rw [← he.receiver]
        exact h'.clean
      constructor
      · rintro ⟨hes,hea⟩
        exact .snoc (he.clean.mp hes) ⟨hs,hclean.mp hea⟩
      · intro ht
        obtain ⟨y',ht',hs'⟩ := ht.last
        have htrans : Run.Trace (TransStep A c dstTid) s₀ as y' := ht'.mono fun _ _ _ hs => hs.1
        obtain ⟨-,rfl⟩ := h.unique (fun _ _ _ _ _ => transStep_unique) htrans rfl
        exact ⟨he.clean.mpr ht',hclean.mpr hs'.2⟩

/-- The way back takes all the effects back. -/
theorem rollback_revertAll (hm : List.Forall₂ (Marks c s dstTid) es (done.map (getObj data))) (hp : effects.AllPossible r es)
    (hf : Frame s x) (hx : effects.applyAll r es ≤ receiver A x dstTid) :
    receiver A (rollback A c dstTid data x done) dstTid = effects.revertAll (receiver A x dstTid) es ∧
      Frame s (rollback A c dstTid data x done) := by
  induction done generalizing x es with
  | nil =>
    cases hm
    exact ⟨rfl,hf⟩
  | cons off done ih =>
    cases hm with
    | cons hm hms =>
      obtain ⟨hrevert,hframe⟩ := handleObj_revert (c.obj done.length) hm hf hp.2 hx
      obtain ⟨hall,hframe⟩ := ih hms hp.1 hframe (hrevert ▸ Undo.le_revert_of_le hp.2 hx)
      rw [rollback]
      exact ⟨hall.trans (by rw [hrevert, Undo.revertAll]),hframe⟩

/-- The data when the objects at some offsets were translated. -/
def handled (data : Nat → UInt8) (pre : List Nat) (as : List ((SpecialObj × Nat) × SpecialObj)) : Nat → UInt8 :=
  placed data (pre.reverse.zip (as.reverse.map Prod.snd))

private theorem overlaps_eq_false {prev : Nat} (h : prev + 2 * sizeofSpecialObj ≤ 2^32) :
    overlaps (prev :: done) off = false ↔ prev + sizeofSpecialObj ≤ off := by
  rw [sizeofSpecialObj] at *
  rw [overlaps, sizeofSpecialObj, Word.add_eq (by omega), decide_eq_false_iff_not, Nat.not_lt]

/-- Offsets that are well placed are in order and lie inside the data. -/
theorem WellPlaced.spaced (hlo : sizeofSpecialObj ≤ dataSz) (hhi : dataSz + sizeofSpecialObj ≤ 2^32) (h : WellPlaced dataSz done) :
    Spaced done ∧ ∀ b ∈ done, b + sizeofSpecialObj ≤ dataSz := by
  induction done with
  | nil => exact ⟨.nil,fun b hb => (List.not_mem_nil hb).elim⟩
  | cons off done ih =>
    obtain ⟨hdone,hoff⟩ := h
    obtain ⟨hspaced,hin⟩ := ih hdone
    obtain ⟨hend,hover⟩ := not_or.mp hoff
    rw [Word.sub_eq hlo, Nat.not_lt] at hend
    refine ⟨List.pairwise_cons.mpr ⟨fun b hb => ?_,hspaced⟩,fun b hb => ?_⟩
    · cases done with
      | nil => cases hb
      | cons prev done =>
        have hprev := hin prev List.mem_cons_self
        have hle := (overlaps_eq_false (by omega)).mp ((Bool.not_eq_true _).mp hover)
        rcases List.mem_cons.mp hb with rfl | hb
        · exact hle
        · exact ((List.pairwise_cons.mp hspaced).1 b hb).trans ((Nat.le_add_right _ _).trans hle)
    · rcases List.mem_cons.mp hb with rfl | hb
      · omega
      · exact hin b hb

private theorem spaced_concat (hlo : sizeofSpecialObj ≤ dataSz) (hhi : dataSz + sizeofSpecialObj ≤ 2^32) (h : WellPlaced dataSz done)
    (hoff : ¬ Misplaced dataSz done off) : ∀ b ∈ done, b + sizeofSpecialObj ≤ off := by
  have hcons : WellPlaced dataSz (off :: done) := ⟨h,hoff⟩
  exact (List.pairwise_cons.mp (hcons.spaced hlo hhi).1).1

private theorem map_getObj_concat (data : Nat → UInt8) (pre : List Nat) (off : Nat) :
    ((pre ++ [off]).map (getObj data)).zipIdx = (pre.map (getObj data)).zipIdx ++ [(getObj data off,pre.length)] := by
  rw [List.map_append, List.map_singleton, List.zipIdx_append, List.length_map, Nat.zero_add]
  rfl

theorem Handling.length (h : Handling A c dstTid dataSz data s₀ pre as s) : as.length = pre.length := by
  have hlen := congrArg List.length h.objects
  rwa [List.length_map, List.length_zipIdx, List.length_map] at hlen

/-- The objects that were handled with their offsets. -/
theorem Handling.zip (h : Handling A c dstTid dataSz data s₀ pre as s) :
    (pre.reverse.zip (as.reverse.map Prod.snd)).map Prod.fst = pre.reverse ∧
      (pre.reverse.zip (as.reverse.map Prod.snd)).map Prod.snd = as.reverse.map Prod.snd := by
  have hlen : (as.reverse.map Prod.snd).length = pre.reverse.length := by
    rw [List.length_map, List.length_reverse, List.length_reverse, h.length]
  exact ⟨List.map_fst_zip hlen.ge,List.map_snd_zip hlen.le⟩

theorem Handling.nil (s₀ : IpcState H) : Handling A c dstTid dataSz data s₀ [] [] s₀ := ⟨trivial,rfl,.nil⟩

private theorem Handling.concat (h : Handling A c dstTid dataSz data s₀ pre as s) (hoff : ¬ Misplaced dataSz pre.reverse off)
    (ht : Translates A c dstTid (c.obj pre.length) s (getObj data off) v o) :
    Handling A c dstTid dataSz data s₀ (pre ++ [off]) (as ++ [((getObj data off,pre.length),o)]) v := by
  refine ⟨?_,?_,.snoc h.trace ht⟩
  · rw [List.reverse_append, List.reverse_singleton, List.singleton_append]
    exact ⟨h.placed,hoff⟩
  · rw [List.map_append, List.map_singleton, h.objects, map_getObj_concat]

theorem Handling.last (h : Handling A c dstTid dataSz data s₀ (pre ++ [off]) as s) :
    ∃ as' y o, as = as' ++ [((getObj data off,pre.length),o)] ∧ Handling A c dstTid dataSz data s₀ pre as' y ∧
      ¬ Misplaced dataSz pre.reverse off ∧ Translates A c dstTid (c.obj pre.length) y (getObj data off) s o := by
  obtain ⟨hplaced,hobjects,htrace⟩ := h
  rw [List.reverse_append, List.reverse_singleton, List.singleton_append] at hplaced
  rw [map_getObj_concat] at hobjects
  rcases as.eq_nil_or_concat' with rfl | ⟨as',⟨q,o⟩,rfl⟩
  · exact absurd hobjects.symm (List.append_ne_nil_of_right_ne_nil _ (List.cons_ne_nil _ _))
  · rw [List.map_append, List.map_singleton] at hobjects
    obtain ⟨hinit,hq⟩ := List.append_singleton_inj.mp hobjects
    obtain rfl : q = (getObj data off,pre.length) := hq
    obtain ⟨y,htrace,ht⟩ := htrace.last
    exact ⟨as',y,o,rfl,⟨hplaced.1,hinit,htrace⟩,hplaced.2,ht⟩

/-- Either all the objects can be translated, or there is a first one that cannot. -/
theorem handling_or_refused (offs : List Nat) (h : Handling A c dstTid dataSz data s₀ pre as s) :
    (∃ as' x, Handling A c dstTid dataSz data s₀ (pre ++ offs) as' x) ∨
      ∃ mid off post as' x, offs = mid ++ off :: post ∧ Handling A c dstTid dataSz data s₀ (pre ++ mid) as' x ∧
        Refused A c dstTid dataSz data (pre ++ mid) off x := by
  induction offs generalizing pre as s with
  | nil =>
    rw [List.append_nil]
    exact .inl ⟨as,s,h⟩
  | cons off offs ih =>
    by_cases href : Refused A c dstTid dataSz data pre off s
    · exact .inr ⟨[],off,offs,as,s,rfl,(List.append_nil pre).symm ▸ h,(List.append_nil pre).symm ▸ href⟩
    · obtain ⟨hoff,ht⟩ := not_or.mp href
      obtain ⟨v,hv⟩ := not_forall.mp ht
      obtain ⟨o,ho⟩ := not_forall.mp hv
      rcases ih (h.concat hoff (not_not.mp ho)) with ⟨as',x,h'⟩ | ⟨mid,off',post,as',x,rfl,h',href'⟩
      · rw [List.append_assoc] at h'
        exact .inl ⟨as',x,h'⟩
      · rw [List.append_assoc] at h' href'
        exact .inr ⟨off :: mid,off',post,as',x,rfl,h',href'⟩

private theorem handleObj_of_translates (hself : s.isTaskAlive c.curTask = true) (h : Translates A c dstTid ans s obj v o) :
    handleObj A c ans s dstTid obj false = (0,v,o) := by
  generalize hr : handleObj A c ans s dstTid obj false = res
  have hhandled : Handled A c dstTid ans s obj (handleObj A c ans s dstTid obj false) := handleObj_handled hself
  rw [hr] at hhandled
  cases hhandled with
  | ok h' =>
    obtain ⟨rfl,rfl⟩ := h'.unique h
    rfl
  | refused _ hno => exact absurd h (hno v o)

/-- An object that is still to be handled is as the user wrote it. -/
private theorem Handling.getObj_above (h : Handling A c dstTid dataSz data s₀ pre as s) (hoff : ∀ b ∈ pre.reverse, b + sizeofSpecialObj ≤ off) :
    getObj (handled data pre as) off = getObj data off := by
  refine getObj_placed_above fun q hq => hoff q.1 ?_
  rw [← h.zip.1]
  exact List.mem_map_of_mem hq

private theorem overlaps_of_not_misplaced (h : ¬ Misplaced dataSz done off) : ¬ overlaps done off = true := fun ho => h (.inr ho)

/-- The loop goes through the objects that can be translated. -/
theorem handleLoop_upTo (hlo : sizeofSpecialObj ≤ dataSz) (hhi : dataSz + sizeofSpecialObj ≤ 2^32) (hw : s₀.Wf A)
    (hproc : s₀.procs (s₀.tasks dstTid).processCB = some p) (hself : s₀.isTaskAlive c.curTask = true)
    (h : Handling A c dstTid dataSz data s₀ pre as s) (rest : List Nat) :
    handleLoop A c dstTid dataSz s₀ data [] (pre ++ rest) = handleLoop A c dstTid dataSz s (handled data pre as) pre.reverse rest := by
  induction pre using List.reverseRecOn generalizing as s rest with
  | nil =>
    obtain rfl := List.length_eq_zero_iff.mp h.length
    obtain rfl := h.trace.nil_eq
    rfl
  | append_singleton pre off ih =>
    obtain ⟨as',y,o,rfl,h',hoff,ht⟩ := h.last
    obtain ⟨es,he⟩ := hasEffects_of_trace hw hproc h'.trace
    have halive : y.isTaskAlive c.curTask = true := (isTaskAlive_of_fixed (he.frame.tasks c.curTask)).trans hself
    have hobj := h'.getObj_above (spaced_concat hlo hhi h'.placed hoff)
    have hdata : handled data (pre ++ [off]) (as' ++ [((getObj data off,pre.length),o)]) = putObj (handled data pre as') off o := by
      rw [handled, List.reverse_append, List.reverse_append]
      rfl
    rw [List.append_assoc, ih h' ([off] ++ rest), List.singleton_append, handleLoop, if_neg fun hend => hoff (.inl hend),
      if_neg (overlaps_of_not_misplaced hoff), hobj, List.length_reverse, handleObj_of_translates halive ht]
    dsimp only
    rw [if_neg (not_not.mpr rfl), hdata, List.reverse_append, List.reverse_singleton, List.singleton_append]

/-- The way back from an object that is misplaced or refused starts where those before it were handled. -/
structure Stopped (A : Allocator H) (c : WriteCall) (dstTid : Nat) (pre : List Nat) (as : List ((SpecialObj × Nat) × SpecialObj))
    (x : IpcState H) (res : Int × IpcState H × (Nat → UInt8)) : Prop where
  ret : res.1 ≠ 0
  back : ∃ x' data', res.2.1 = rollback A c dstTid data' x' pre.reverse ∧ Same A x' x ∧ SameRights x' x ∧
    pre.reverse.map (getObj data') = as.reverse.map Prod.snd

theorem Handling.objects_handled (hlo : sizeofSpecialObj ≤ dataSz) (hhi : dataSz + sizeofSpecialObj ≤ 2^32)
    (h : Handling A c dstTid dataSz data s₀ pre as s) (hfits : ∀ a ∈ as, a.2.Fits) :
    pre.reverse.map (getObj (handled data pre as)) = as.reverse.map Prod.snd := by
  obtain ⟨hfst,hsnd⟩ := h.zip
  have hmap := map_getObj_placed data (hfst.symm ▸ (h.placed.spaced hlo hhi).1) fun q hq => ?_
  · rwa [hfst, hsnd] at hmap
  · obtain ⟨a,ha,hq⟩ := List.mem_map.mp (hsnd ▸ List.mem_map_of_mem hq)
    rw [← hq]
    exact hfits a (List.mem_reverse.mp ha)

theorem Handling.fits (h : Handling A c dstTid dataSz data s₀ pre as s) : ∀ a ∈ as, a.1.1.Fits := by
  intro a ha
  have hmem : a.1 ∈ (pre.map (getObj data)).zipIdx := h.objects ▸ List.mem_map_of_mem ha
  obtain ⟨off,-,hoff⟩ := List.mem_map.mp (List.fst_mem_of_mem_zipIdx hmem)
  rw [← hoff]
  exact getObj_fits data off

theorem handleLoop_stopped (post : List Nat) (hlo : sizeofSpecialObj ≤ dataSz) (hhi : dataSz + sizeofSpecialObj ≤ 2^32) (hw : s₀.Wf A)
    (hproc : s₀.procs (s₀.tasks dstTid).processCB = some p) (hself : s₀.isTaskAlive c.curTask = true)
    (h : Handling A c dstTid dataSz data s₀ pre as x) (href : Refused A c dstTid dataSz data pre off x) :
    Stopped A c dstTid pre as x (handleLoop A c dstTid dataSz s₀ data [] (pre ++ off :: post)) := by
  obtain ⟨es,he⟩ := hasEffects_of_trace hw hproc h.trace
  have hobjects := h.objects_handled hlo hhi (he.fits h.fits)
  have halive : x.isTaskAlive c.curTask = true := (isTaskAlive_of_fixed (he.frame.tasks c.curTask)).trans hself
  rw [handleLoop_upTo hlo hhi hw hproc hself h, handleLoop]
  by_cases hend : Word.sub dataSz sizeofSpecialObj < off
  · rw [if_pos hend]
    exact ⟨show -EINVAL ≠ 0 by decide,x,_,rfl,.refl x,.refl x,hobjects⟩
  rw [if_neg hend]
  by_cases hover : overlaps pre.reverse off = true
  · rw [if_pos hover]
    exact ⟨show -EINVAL ≠ 0 by decide,x,_,rfl,.refl x,.refl x,hobjects⟩
  have hoff : ¬ Misplaced dataSz pre.reverse off := not_or.mpr ⟨hend,hover⟩
  have habove := spaced_concat hlo hhi h.placed hoff
  have hno := href.resolve_left hoff
  rw [if_neg hover, h.getObj_above habove, List.length_reverse]
  have hhandled : Handled A c dstTid (c.obj pre.length) x (getObj data off) _ := handleObj_handled halive
  generalize handleObj A c (c.obj pre.length) x dstTid (getObj data off) false = res at hhandled
  cases hhandled with
  | ok ht => exact absurd ht (hno _ _)
  | @refused ret x' obj' hret _ hs hr =>
    dsimp only
    rw [if_pos hret]
    refine ⟨hret,x',_,rfl,hs,hr,?_⟩
    rw [← hobjects]
    refine List.map_congr_left fun b hb => getObj_congr fun a _ h2 => ?_
    exact putObj_outside (.inl (h2.trans_le (habove b hb))) _ _

end

end LiteOsKernel.LiteIpc
