import LiteOsKernel.Sched.Priority
import Mathlib.Data.List.Nodup
import Mathlib.Tactic.SplitIfs

/-! What the operations on the run queue keep: each list holds the tasks of its level, and the bitmaps and counters say so. -/
namespace LiteOsKernel.Sched.Priority

/-- The run queue holds the tasks that have a key, each one in the list of its key. -/
structure QueueInv (rq : HPFRunqueue) (key : Nat → Option (Nat × Nat)) : Prop where
  linked : ∀ t b p, t ∈ (rq.queueList b).priQueList p ↔ key t = some (b,p)
  nodup : ∀ b p, ((rq.queueList b).priQueList p).Nodup
  readyTasks : ∀ b p, (rq.queueList b).readyTasks p = ((rq.queueList b).priQueList p).length
  key : ∀ t b p, key t = some (b,p) → b < 32 ∧ p < 32
  inner_lt : ∀ b, (rq.queueList b).queueBitmap < 2^32
  inner : ∀ b, ∀ p < 32, (rq.queueList b).queueBitmap.testBit (31 - p) = true ↔ (rq.queueList b).priQueList p ≠ []
  outer_lt : rq.queueBitmap < 2^32
  outer : ∀ b < 32, rq.queueBitmap.testBit (31 - b) = true ↔ (rq.queueList b).queueBitmap ≠ 0

variable {rq : HPFRunqueue} {key : Nat → Option (Nat × Nat)} {t b p : Nat}

private theorem prior0_shift {p : Nat} (hp : p < 32) : PRIQUEUE_PRIOR0_BIT >>> p = 1 <<< (31 - p) := by
  have hall : ∀ p < 32, PRIQUEUE_PRIOR0_BIT >>> p = 1 <<< (31 - p) := by decide
  exact hall p hp

private theorem testBit_or_prior0 (m : Nat) (hp : p < 32) {q : Nat} (hq : q < 32) :
    (m ||| PRIQUEUE_PRIOR0_BIT >>> p).testBit (31 - q) = (m.testBit (31 - q) || decide (p = q)) := by
  have h := Word.testBit_setBit m (31 - p) (31 - q)
  rw [Word.setBit] at h
  rw [prior0_shift hp, h]
  congr 2
  refine propext ⟨fun h => ?_,fun h => h ▸ rfl⟩
  omega

private theorem testBit_and_prior0 {m : Nat} (hm : m < 2^32) (hp : p < 32) {q : Nat} (hq : q < 32) :
    (m &&& Word.not (PRIQUEUE_PRIOR0_BIT >>> p)).testBit (31 - q) = (m.testBit (31 - q) && decide (p ≠ q)) := by
  have h := Word.testBit_clearBit (i := 31 - p) (by omega) hm (31 - q)
  rw [Word.clearBit] at h
  rw [prior0_shift hp, h]
  congr 2
  refine propext ⟨fun h hc => h (hc ▸ rfl),fun h hc => h ?_⟩
  omega

private theorem or_prior0_lt {m : Nat} (hm : m < 2^32) (hp : p < 32) : m ||| PRIQUEUE_PRIOR0_BIT >>> p < 2^32 := by
  rw [prior0_shift hp]
  exact Word.setBit_lt hm (by omega)

private theorem and_prior0_lt {m : Nat} (p : Nat) (hm : m < 2^32) : m &&& Word.not (PRIQUEUE_PRIOR0_BIT >>> p) < 2^32 :=
  Nat.and_le_left.trans_lt hm

private theorem eq_zero_iff (m : Nat) (hm : m < 2^32) : m = 0 ↔ ∀ q < 32, m.testBit (31 - q) ≠ true := by
  rw [Word.eq_zero_iff_testBit hm]
  refine ⟨fun h q hq => ?_,fun h i hi => ?_⟩
  · rw [h (31 - q) (by omega)]
    decide
  · have := h (31 - i) (by omega)
    rw [show 31 - (31 - i) = i by omega] at this
    exact Bool.eq_false_iff.mpr this

/-- A task joins the list of its key. -/
theorem QueueInv.insert (h : QueueInv rq key) (hn : key t = none) (hb : b < 32) (hp : p < 32) {f : List Nat → Nat → List Nat}
    (hf : ∀ l, (f l t).Perm (t :: l)) : QueueInv (priQueInsertAt f rq b t p) (Function.update key t (some (b,p))) := by
  have hnot : ∀ b p, t ∉ (rq.queueList b).priQueList p := by
    intro b p hm
    rw [h.linked, hn] at hm
    cases hm
  have hlist : ∀ b' p', ((priQueInsertAt f rq b t p).queueList b').priQueList p' =
      if b' = b ∧ p' = p then f ((rq.queueList b).priQueList p) t else (rq.queueList b').priQueList p' := by
    intro b' p'
    by_cases hb' : b' = b
    · subst hb'
      by_cases hp' : p' = p
      · subst hp'
        simp [priQueInsertAt]
      · simp [priQueInsertAt, hp']
    · simp [priQueInsertAt, hb']
  have hne : f ((rq.queueList b).priQueList p) t ≠ [] := by
    intro hc
    have := (hf ((rq.queueList b).priQueList p)).length_eq
    rw [hc] at this
    cases this
  have hinner : ((priQueInsertAt f rq b t p).queueList b).queueBitmap = if (rq.queueList b).priQueList p = []
      then (rq.queueList b).queueBitmap ||| PRIQUEUE_PRIOR0_BIT >>> p else (rq.queueList b).queueBitmap := by
    simp [priQueInsertAt]
  have hbit : ∀ q < 32, ((priQueInsertAt f rq b t p).queueList b).queueBitmap.testBit (31 - q) = true ↔
      (rq.queueList b).queueBitmap.testBit (31 - q) = true ∨ p = q := by
    intro q hq
    rw [hinner]
    split_ifs with he
    · rw [testBit_or_prior0 _ hp hq, Bool.or_eq_true, decide_eq_true_eq]
    · refine ⟨.inl,fun hc => hc.elim id ?_⟩
      rintro rfl
      exact (h.inner b p hp).mpr he
  have hother : ∀ b', b' ≠ b → (priQueInsertAt f rq b t p).queueList b' = rq.queueList b' := fun b' hb' => Function.update_of_ne hb' ..
  refine ⟨fun u b' p' => ?_,fun b' p' => ?_,fun b' p' => ?_,fun u b' p' hk => ?_,fun b' => ?_,fun b' q hq => ?_,?_,fun b' hb' => ?_⟩
  · rw [hlist]
    by_cases hu : u = t
    · subst hu
      rw [Function.update_self, Option.some.injEq, Prod.mk.injEq]
      split_ifs with hc
      · refine iff_of_true ((hf _).mem_iff.mpr List.mem_cons_self) ⟨hc.1.symm,hc.2.symm⟩
      · refine iff_of_false (hnot b' p') fun he => hc ⟨he.1.symm,he.2.symm⟩
    · rw [Function.update_of_ne hu, ← h.linked]
      split_ifs with hc
      · rw [(hf _).mem_iff, List.mem_cons, or_iff_right hu, hc.1, hc.2]
      · rfl
  · rw [hlist]
    split_ifs
    · exact (hf _).nodup_iff.mpr (List.nodup_cons.mpr ⟨hnot b p,h.nodup b p⟩)
    · exact h.nodup b' p'
  · rw [hlist]
    by_cases hb' : b' = b
    · subst hb'
      by_cases hp' : p' = p
      · subst hp'
        rw [if_pos ⟨rfl,rfl⟩, (hf _).length_eq, List.length_cons, ← h.readyTasks]
        simp [priQueInsertAt]
      · rw [if_neg fun hc => hp' hc.2, ← h.readyTasks]
        simp [priQueInsertAt, hp']
    · rw [if_neg fun hc => hb' hc.1, ← h.readyTasks, hother b' hb']
  · by_cases hu : u = t
    · subst hu
      rw [Function.update_self, Option.some.injEq, Prod.mk.injEq] at hk
      exact ⟨hk.1 ▸ hb,hk.2 ▸ hp⟩
    · rw [Function.update_of_ne hu] at hk
      exact h.key u b' p' hk
  · by_cases hb' : b' = b
    · subst hb'
      rw [hinner]
      split_ifs
      · exact or_prior0_lt (h.inner_lt b') hp
      · exact h.inner_lt b'
    · rw [hother b' hb']
      exact h.inner_lt b'
  · by_cases hb' : b' = b
    · subst hb'
      rw [hbit q hq, hlist, h.inner b' q hq]
      by_cases hq' : q = p
      · rw [if_pos ⟨rfl,hq'⟩]
        exact iff_of_true (.inr hq'.symm) hne
      · rw [if_neg fun hc => hq' hc.2, or_iff_left (Ne.symm hq')]
    · rw [hother b' hb']
      exact h.inner b' q hq
  · rw [priQueInsertAt]
    simp only
    split_ifs
    · exact or_prior0_lt h.outer_lt hb
    · exact h.outer_lt
  · have hb0 : ((priQueInsertAt f rq b t p).queueList b).queueBitmap ≠ 0 := by
      intro hc
      have := (hbit p hp).mpr (.inr rfl)
      rw [hc] at this
      simp at this
    have hout : (priQueInsertAt f rq b t p).queueBitmap.testBit (31 - b') = true ↔ rq.queueBitmap.testBit (31 - b') = true ∨ b = b' := by
      rw [priQueInsertAt]
      simp only
      split_ifs with hz
      · rw [testBit_or_prior0 _ hb hb', Bool.or_eq_true, decide_eq_true_eq]
      · refine ⟨.inl,fun hc => hc.elim id ?_⟩
        rintro rfl
        exact (h.outer b hb).mpr hz
    rw [hout]
    by_cases hbb : b' = b
    · subst hbb
      exact iff_of_true (.inr rfl) hb0
    · rw [or_iff_left (Ne.symm hbb), hother b' hbb]
      exact h.outer b' hb'

/-- A task leaves the list of its key. -/
theorem QueueInv.delete (h : QueueInv rq key) (hk : key t = some (b,p)) :
    QueueInv (priQueDelete rq b t p) (Function.update key t none) := by
  obtain ⟨hb,hp⟩ := h.key t b p hk
  have hmem : t ∈ (rq.queueList b).priQueList p := (h.linked t b p).mpr hk
  have hlist : ∀ b' p', ((priQueDelete rq b t p).queueList b').priQueList p' = ((rq.queueList b').priQueList p').erase t := by
    intro b' p'
    by_cases hb' : b' = b
    · subst hb'
      simp [priQueDelete]
    · simp [priQueDelete, hb']
  have hsame : ∀ b' p', ¬(b' = b ∧ p' = p) → ((rq.queueList b').priQueList p').erase t = (rq.queueList b').priQueList p' := by
    intro b' p' hne
    refine List.erase_of_not_mem fun hm => hne ?_
    rw [h.linked, hk, Option.some.injEq, Prod.mk.injEq] at hm
    exact ⟨hm.1.symm,hm.2.symm⟩
  have hinner : ((priQueDelete rq b t p).queueList b).queueBitmap = if ((rq.queueList b).priQueList p).erase t = []
      then (rq.queueList b).queueBitmap &&& Word.not (PRIQUEUE_PRIOR0_BIT >>> p) else (rq.queueList b).queueBitmap := by
    simp [priQueDelete]
  have hbit : ∀ q < 32, ((priQueDelete rq b t p).queueList b).queueBitmap.testBit (31 - q) = true ↔
      ((rq.queueList b).priQueList q).erase t ≠ [] := by
    intro q hq
    rw [hinner]
    by_cases hqp : q = p
    · subst hqp
      split_ifs with he
      · rw [testBit_and_prior0 (h.inner_lt b) hp hq]
        simp [he]
      · refine iff_of_true ((h.inner b q hq).mpr ?_) he
        exact List.ne_nil_of_mem hmem
    · rw [hsame b q fun hc => hqp hc.2, ← h.inner b q hq]
      split_ifs
      · rw [testBit_and_prior0 (h.inner_lt b) hp hq, decide_eq_true (Ne.symm hqp), Bool.and_true]
      · rfl
  have hinner_lt : ((priQueDelete rq b t p).queueList b).queueBitmap < 2^32 := by
    rw [hinner]
    split_ifs
    · exact and_prior0_lt p (h.inner_lt b)
    · exact h.inner_lt b
  have hbitmap : ∀ b', b' ≠ b → ((priQueDelete rq b t p).queueList b').queueBitmap = (rq.queueList b').queueBitmap := by
    intro b' hb'
    simp [priQueDelete, hb']
  refine ⟨fun u b' p' => ?_,fun b' p' => ?_,fun b' p' => ?_,fun u b' p' hk' => ?_,fun b' => ?_,fun b' q hq => ?_,?_,fun b' hb' => ?_⟩
  · rw [hlist, (h.nodup b' p').mem_erase_iff, h.linked]
    by_cases hu : u = t
    · subst hu
      rw [Function.update_self]
      exact iff_of_false (fun hc => hc.1 rfl) nofun
    · rw [Function.update_of_ne hu]
      exact and_iff_right hu
  · rw [hlist]
    exact (h.nodup b' p').erase t
  · rw [hlist]
    by_cases hc : b' = b ∧ p' = p
    · obtain ⟨rfl,rfl⟩ := hc
      have hpos : (rq.queueList b').readyTasks p' ≠ 0 := by
        rw [h.readyTasks]
        exact (List.length_pos_of_mem hmem).ne'
      rw [List.length_erase_of_mem hmem, ← h.readyTasks]
      simp [priQueDelete, hpos]
    · rw [hsame b' p' hc, ← h.readyTasks]
      by_cases hb' : b' = b
      · subst hb'
        have hp' : p' ≠ p := fun he => hc ⟨rfl,he⟩
        simp [priQueDelete, hp']
      · simp [priQueDelete, hb']
  · by_cases hu : u = t
    · subst hu
      rw [Function.update_self] at hk'
      cases hk'
    · rw [Function.update_of_ne hu] at hk'
      exact h.key u b' p' hk'
  · by_cases hb' : b' = b
    · exact hb' ▸ hinner_lt
    · rw [hbitmap b' hb']
      exact h.inner_lt b'
  · rw [hlist]
    by_cases hb' : b' = b
    · subst hb'
      exact hbit q hq
    · rw [hbitmap b' hb', hsame b' q fun hc => hb' hc.1]
      exact h.inner b' q hq
  · rw [priQueDelete]
    simp only
    split_ifs
    · exact and_prior0_lt b h.outer_lt
    · exact h.outer_lt
    · exact and_prior0_lt b h.outer_lt
    · exact h.outer_lt
  · have hout : (priQueDelete rq b t p).queueBitmap = if ((priQueDelete rq b t p).queueList b).queueBitmap = 0
        then rq.queueBitmap &&& Word.not (PRIQUEUE_PRIOR0_BIT >>> b) else rq.queueBitmap := by
      rw [hinner]
      rfl
    rw [hout]
    by_cases hbb : b' = b
    · subst hbb
      split_ifs with hz
      · rw [testBit_and_prior0 h.outer_lt hb hb']
        simp [hz]
      · refine iff_of_true ((h.outer b' hb').mpr ?_) hz
        rw [ne_eq, eq_zero_iff _ (h.inner_lt b')]
        intro hall
        exact hall p hp ((h.inner b' p hp).mpr (List.ne_nil_of_mem hmem))
    · rw [hbitmap b' hbb, ← h.outer b' hb']
      split_ifs
      · rw [testBit_and_prior0 h.outer_lt hb hb', decide_eq_true (Ne.symm hbb), Bool.and_true]
      · rfl

/-- The task that is chosen is the first of its list that is allowed, and no list before has one. -/
theorem QueueInv.top (h : QueueInv rq key) (allowed : Nat → Bool) :
    match hpfRunqueueTopTaskGet rq allowed with
    | some t => allowed t = true ∧ ∃ b p, key t = some (b,p) ∧
        ∀ u b' p', key u = some (b',p') → allowed u = true → b < b' ∨ b = b' ∧ p ≤ p'
    | none => ∀ u, key u ≠ none → allowed u = false := by
  have hin : ∀ b, BitScan.First (fun p => ((rq.queueList b).priQueList p).find? allowed) (rq.queueList b).queueBitmap
      (BitScan.scan (fun p => ((rq.queueList b).priQueList p).find? allowed) 32 (rq.queueList b).queueBitmap) :=
    fun b => BitScan.scan_first _ (h.inner_lt b)
  -- a list with an allowed task has its bit set
  have hset : ∀ {u b p}, key u = some (b,p) → (rq.queueList b).queueBitmap.testBit (31 - p) = true ∧
      rq.queueBitmap.testBit (31 - b) = true := by
    intro u b p hk
    obtain ⟨hb,hp⟩ := h.key u b p hk
    have hi := (h.inner b p hp).mpr (List.ne_nil_of_mem ((h.linked u b p).mpr hk))
    refine ⟨hi,(h.outer b hb).mpr fun hz => ?_⟩
    rw [hz] at hi
    simp at hi
  have hfind : ∀ {u b p}, key u = some (b,p) → allowed u = true → ((rq.queueList b).priQueList p).find? allowed ≠ none := by
    intro u b p hk ha hc
    exact List.find?_eq_none.mp hc u ((h.linked u b p).mpr hk) ha
  have hnone : ∀ {u b p}, key u = some (b,p) → allowed u = true →
      BitScan.scan (fun p => ((rq.queueList b).priQueList p).find? allowed) 32 (rq.queueList b).queueBitmap ≠ none := by
    intro u b p hk ha hc
    have hf := hin b
    rw [hc] at hf
    exact hfind hk ha (hf p (h.key u b p hk).2 (hset hk).1)
  have hout := BitScan.scan_first (fun b => BitScan.scan (fun p => ((rq.queueList b).priQueList p).find? allowed) 32
    (rq.queueList b).queueBitmap) h.outer_lt
  unfold hpfRunqueueTopTaskGet
  simp only
  revert hout
  cases BitScan.scan (fun b => BitScan.scan (fun p => ((rq.queueList b).priQueList p).find? allowed) 32
    (rq.queueList b).queueBitmap) 32 rq.queueBitmap with
  | none =>
    intro hout u hk
    rw [ne_eq, Option.eq_none_iff_forall_ne_some, not_forall] at hk
    obtain ⟨⟨b,p⟩,hk⟩ := hk
    rw [not_not] at hk
    refine Bool.eq_false_iff.mpr fun ha => ?_
    exact hnone hk ha (hout b (h.key u b p hk).1 (hset hk).2)
  | some t =>
    rintro ⟨b,hb,-,hb1,hb2⟩
    have hf := hin b
    simp only at hb1
    rw [hb1] at hf
    obtain ⟨p,hp,-,hp1,hp2⟩ := hf
    refine ⟨List.find?_some hp1,b,p,(h.linked t b p).mp (List.mem_of_find?_eq_some hp1),fun u b' p' hk ha => ?_⟩
    have hle : b ≤ b' := by
      by_contra hlt
      exact hnone hk ha (hb2 b' (by omega) (hset hk).2)
    rcases Nat.lt_or_eq_of_le hle with hlt | rfl
    · exact .inl hlt
    · refine .inr ⟨rfl,?_⟩
      by_contra hlt
      exact hfind hk ha (hp2 p' (by omega) (hset hk).1)

end LiteOsKernel.Sched.Priority
