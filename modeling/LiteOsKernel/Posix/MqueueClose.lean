import LiteOsKernel.Posix.MqueueInv

/-! mq_close, MqueueRefer and mq_unlink keep what holds of the message queues between two calls. -/
namespace LiteOsKernel.Posix.Mqueue

variable {st st' : MqState} {x : MqHist} {n : Name} {s a i : Nat}

/-- There are no more nodes than descriptors. -/
theorem DescInv.length_le (hx : DescInv x) {l : List Nat} (hd : l.Nodup)
    (hl : ∀ b ∈ l, ∃ i, x.st.mqPrivBuf i = some b) : l.length ≤ MAX_MQ_FD := by
  choose f hf using fun b : { b // b ∈ l } => hl b.1 b.2
  have hnodup : (l.attach.map f).Nodup := by
    refine List.Nodup.map (fun b c h => Subtype.ext ?_) (List.nodup_attach.mpr hd)
    have hc := hf c
    rw [← h, hf b] at hc
    exact Option.some.inj hc
  have hsub : l.attach.map f ⊆ List.range MAX_MQ_FD := by
    intro i hi
    obtain ⟨b,-,rfl⟩ := List.mem_map.mp hi
    obtain ⟨p,-,-,hlt,-⟩ := hx.desc _ _ (hf b)
    exact List.mem_range.mpr hlt
  have hle := (List.subperm_of_subset hnodup hsub).length_le
  rwa [List.length_map, List.length_attach, List.length_range] at hle

/-- What the removal of a node leaves: its list without it, and every other node but for its link. -/
structure Removed (st st' : MqState) (s a : Nat) (l : List Nat) : Prop where
  rest : st'.allQueue = st.allQueue ∧ st'.freeQueueList = st.freeQueueList ∧ st'.fdSet = st.fdSet ∧ st'.mqPrivBuf = st.mqPrivBuf
  other : ∀ t, t ≠ s → st'.queueTable t = st.queueTable t
  slot : st'.queueTable s = { st.queueTable s with mqPersonal := (st'.queueTable s).mqPersonal }
  node : ∀ b p, b ≠ a → st.heap b = some p → st'.heap b = some { p with mqNext := st'.next b }
  link : ∀ b, b ≠ a → b ∉ l → st'.next b = st.next b
  list : Chain.Chained st'.next (st'.queueTable s).mqPersonal (l.erase a)

private theorem mqpersonalRemove_eq (hx : DescInv x) (hi : x.st.mqPrivBuf i = some a) {l : List Nat} (hs : (x.st.node a).mqPosixdes = s)
    (hc : Chain.Chained x.st.next (x.st.queueTable s).mqPersonal l) (hd : l.Nodup)
    (hl : ∀ a, a ∈ l ↔ ∃ i, x.st.mqPrivBuf i = some a ∧ (x.st.node a).mqPosixdes = s) :
    ∃ st', mqpersonalRemove x.st a = (st',⟨0,none⟩) ∧ Removed x.st st' s a l := by
  have ha : a ∈ l := (hl a).mpr ⟨i,hi,hs⟩
  rw [mqpersonalRemove]
  simp only
  rw [hs]
  cases l with
  | nil => exact absurd ha List.not_mem_nil
  | cons b l =>
    have hb : (x.st.queueTable s).mqPersonal = some b := hc.head_eq
    rw [hb] at hc ⊢
    by_cases hba : b = a
    · subst hba
      have hnext : ∀ c, c ≠ b → ((x.st.setSlot s { x.st.queueTable s with mqPersonal := (x.st.node b).mqNext }).setNode b none).next c =
          x.st.next c := by
        intro c hcb
        rw [MqState.next, node_update, if_neg hcb]
        rfl
      have hslot : ∀ q, ((x.st.setSlot s q).setNode b none).queueTable s = q := setSlot_self x.st s
      rw [if_pos rfl]
      refine ⟨_,rfl,⟨rfl,rfl,rfl,rfl⟩,fun t ht => setSlot_of_ne _ _ ht,?_,fun c p hcb hp => ?_,fun c hcb _ => hnext c hcb,?_⟩
      · rw [hslot]
      · rw [hnext c hcb, MqState.next, node_eq hp]
        exact (Function.update_of_ne hcb ..).trans hp
      · rw [List.erase_cons_head]
        rw [hslot]
        exact hc.2.congr fun c hcl => hnext c fun he => (List.nodup_cons.mp hd).1 (he ▸ hcl)
    · rw [if_neg fun h => hba (Option.some.inj h)]
      have hal : a ∈ l := (List.mem_cons.mp ha).resolve_left fun h => hba h.symm
      have hlen := hx.length_le hd fun c hcl => ((hl c).mp hcl).imp fun _ h => h.1
      obtain ⟨tmp,hfind,htl,hta,hskip⟩ := hc.findPrev hd hal (show l.length ≤ MAX_MQ_FD + 1 by rw [List.length_cons] at hlen; omega)
      have hnext : ∀ c, c ≠ a → ((x.st.setNode tmp (some { x.st.node tmp with mqNext := (x.st.node a).mqNext })).setNode a none).next c =
          if c = tmp then x.st.next a else x.st.next c := by
        intro c hca
        rw [MqState.next, node_update, if_neg hca, node_update]
        split_ifs <;> rfl
      rw [Option.bind_some, hfind]
      refine ⟨_,rfl,⟨rfl,rfl,rfl,rfl⟩,fun _ _ => rfl,rfl,fun c p hca hp => ?_,fun c hca hcl => ?_,?_⟩
      · rw [hnext c hca]
        refine (Function.update_of_ne hca ..).trans ?_
        by_cases hct : c = tmp
        · subst hct
          rw [if_pos rfl, node_eq hp]
          exact Function.update_self ..
        · rw [if_neg hct, MqState.next, node_eq hp]
          exact (Function.update_of_ne hct ..).trans hp
      · rw [hnext c hca, if_neg]
        rintro rfl
        exact hcl htl
      · change Chain.Chained _ (x.st.queueTable s).mqPersonal _
        rw [hb]
        refine hskip _ ?_ fun c _ hct hca => ?_
        · rw [hnext tmp hta, if_pos rfl]
        · rw [hnext c hca, if_neg hct]

/-- A descriptor is closed: its node leaves the list. -/
theorem DescInv.remove {y : MqHist} {l : List Nat} (hx : DescInv x) (hi : x.st.mqPrivBuf i = some a)
    (hs : (x.st.node a).mqPosixdes = s) (hd : l.Nodup) (hl : ∀ a, a ∈ l ↔ ∃ i, x.st.mqPrivBuf i = some a ∧ (x.st.node a).mqPosixdes = s)
    (hr : Removed x.st st' s a l) (hy : y.st = mqFreeSysFd st' i) (hdesc : y.desc = Function.update x.desc i none)
    (hborn : y.born = x.born) : DescInv y := by
  obtain ⟨-,-,hf,hb⟩ := hr.rest
  obtain ⟨p,hp,-,-,hset,-⟩ := hx.desc i a hi
  have hfree : mqFreeSysFd st' i =
      { st' with fdSet := Function.update st'.fdSet i false, mqPrivBuf := Function.update st'.mqPrivBuf i none } := by
    rw [mqFreeSysFd, if_pos (by rw [hf, hset])]
  rw [hfree] at hy
  have hyb : y.st.mqPrivBuf = Function.update x.st.mqPrivBuf i none := by rw [hy, hb]
  have hyf : y.st.fdSet = Function.update x.st.fdSet i false := by rw [hy, hf]
  have hbuf : ∀ j b, y.st.mqPrivBuf j = some b ↔ x.st.mqPrivBuf j = some b ∧ b ≠ a := by
    intro j b
    rw [hyb]
    by_cases hji : j = i
    · rw [hji, hi, Function.update_self]
      exact ⟨nofun,fun h => absurd (Option.some.inj h.1).symm h.2⟩
    · rw [Function.update_of_ne hji]
      refine ⟨fun h => ⟨h,?_⟩,And.left⟩
      rintro rfl
      exact hji (hx.distinct j i b h hi)
  have hheap : ∀ j b, x.st.mqPrivBuf j = some b → b ≠ a → ∃ q, x.st.heap b = some q ∧ y.st.heap b = some { q with mqNext := y.st.next b } := by
    intro j b hj hba
    obtain ⟨q,hq,-⟩ := hx.desc j b hj
    refine ⟨q,hq,?_⟩
    rw [hy]
    exact hr.node b q hba hq
  have hpos : ∀ t b, (∃ j, y.st.mqPrivBuf j = some b ∧ (y.st.node b).mqPosixdes = t) ↔
      b ≠ a ∧ ∃ j, x.st.mqPrivBuf j = some b ∧ (x.st.node b).mqPosixdes = t := by
    intro t b
    constructor
    · rintro ⟨j,hj,ht⟩
      obtain ⟨hj,hba⟩ := (hbuf j b).mp hj
      obtain ⟨q,hq,hq'⟩ := hheap j b hj hba
      refine ⟨hba,j,hj,?_⟩
      rw [node_eq hq'] at ht
      rwa [node_eq hq]
    · rintro ⟨hba,j,hj,ht⟩
      obtain ⟨q,hq,hq'⟩ := hheap j b hj hba
      refine ⟨j,(hbuf j b).mpr ⟨hj,hba⟩,?_⟩
      rw [node_eq hq']
      rwa [node_eq hq] at ht
  have hnext : y.st.next = st'.next := by
    rw [hy]
    rfl
  have htable : y.st.queueTable = st'.queueTable := by rw [hy]
  refine ⟨fun t => ?_,fun j b hj => ?_,fun j hj => ?_,fun j k b hj hk => ?_⟩
  · by_cases hts : t = s
    · subst hts
      refine ⟨l.erase a,?_,hd.erase a,fun b => ?_⟩
      · rw [hnext, htable]
        exact hr.list
      · rw [hd.mem_erase_iff, hl b, ← hpos]
    · have hne : ∀ b, (x.st.node b).mqPosixdes = t → b ≠ a := by
        rintro b hb rfl
        exact hts (hb.symm.trans hs)
      refine (hx.lists t).congr (by rw [htable, hr.other t hts]) (fun b j hj hb => ?_) fun b => (hpos t b).trans ?_
      · rw [hnext]
        refine hr.link b (hne b hb) fun hbl => ?_
        obtain ⟨-,-,hbs⟩ := (hl b).mp hbl
        exact hts (hb.symm.trans hbs)
      · exact ⟨And.right,fun ⟨j,hj,hb⟩ => ⟨hne b hb,j,hj,hb⟩⟩
  · obtain ⟨hj,hba⟩ := (hbuf j b).mp hj
    obtain ⟨q,hq,hq'⟩ := hheap j b hj hba
    obtain ⟨q₂,hq₂,hst,hlt,hsetj,hdj⟩ := hx.desc j b hj
    obtain rfl := Option.some.inj (hq.symm.trans hq₂)
    have hji : j ≠ i := by
      rintro rfl
      exact hba (Option.some.inj (hj.symm.trans hi))
    refine ⟨_,hq',hst,hlt,?_,?_⟩
    · rw [hyf, Function.update_of_ne hji, hsetj]
    · rw [hdesc, Function.update_of_ne hji, hborn, hdj]
  · by_cases hji : j = i
    · rw [hyf, hdesc, hji, Function.update_self, Function.update_self]
      exact ⟨rfl,rfl⟩
    · rw [hyb, Function.update_of_ne hji] at hj
      rw [hyf, hdesc, Function.update_of_ne hji, Function.update_of_ne hji]
      exact hx.closed j hj
  · exact hx.distinct j k b ((hbuf j b).mp hj).1 ((hbuf k b).mp hk).1

private theorem mqFreeSysFd_rest (st : MqState) (i : Nat) : (mqFreeSysFd st i).allQueue = st.allQueue ∧
    (mqFreeSysFd st i).freeQueueList = st.freeQueueList ∧ (mqFreeSysFd st i).queueTable = st.queueTable := by
  rw [mqFreeSysFd]
  split_ifs <;> exact ⟨rfl,rfl,rfl⟩

theorem Removed.table {l : List Nat} (hr : Removed st st' s a l) (t : Nat) :
    st'.queueTable t = { st.queueTable t with mqPersonal := (st'.queueTable t).mqPersonal } := by
  by_cases hts : t = s
  · rw [hts]
    exact hr.slot
  · rw [hr.other t hts]

private theorem Removed.tableEq {l : List Nat} (hr : Removed st st' s a l) (t : Nat) :
    (st'.queueTable t).mqcb = (st.queueTable t).mqcb ∧ (st'.queueTable t).mqName = (st.queueTable t).mqName ∧
      (st'.queueTable t).mqId = (st.queueTable t).mqId ∧ (st'.queueTable t).unlinkRef = (st.queueTable t).unlinkRef ∧
      (st'.queueTable t).unlinkflag = (st.queueTable t).unlinkflag := by
  rw [hr.table t]
  exact ⟨rfl,rfl,rfl,rfl,rfl⟩

private theorem closeDesc_eq {d : Desc} (h : x.desc i = some d) : x.closeDesc i =
    { x with desc := Function.update x.desc i (if d.refs = 0 then none else some { d with refs := d.refs - 1 }) } := by
  rw [MqHist.closeDesc, h]

/-- The descriptor that is closed for good is not the last of an unlinked queue. -/
private theorem MqInv.closeOne (hx : MqInv x) (hi : x.st.mqPrivBuf i = some a) (hlast : lastReference x.st (x.st.node a) = false) :
    ∃ st', mqpersonalRemove x.st a = (st',⟨0,none⟩) ∧
      MqInv { x with st := mqFreeSysFd st' i, desc := Function.update x.desc i none } := by
  obtain ⟨l,hc,hd,hl⟩ := hx.descs.lists (x.st.node a).mqPosixdes
  obtain ⟨st',hrem,hr⟩ := mqpersonalRemove_eq hx.descs hi rfl hc hd hl
  obtain ⟨hfa,hff,hft⟩ := mqFreeSysFd_rest st' i
  obtain ⟨hra,hrf,-,-⟩ := hr.rest
  have hmem : a ∈ l := (hl a).mpr ⟨i,hi,rfl⟩
  refine ⟨st',hrem,?_,?_,hx.descs.remove hi rfl hd hl hr rfl rfl rfl,hx.opens⟩
  · refine hx.pool.congr (hfa.trans hra) (hff.trans hrf) (fun t => ?_) fun t ht => ?_
    · obtain ⟨h1,h2,h3,h4,-⟩ := hr.tableEq t
      simp only [hft]
      exact ⟨h1,h2,h3,h4⟩
    · have hts : t ≠ (x.st.node a).mqPosixdes := by
        rintro rfl
        exact absurd (ht.symm.trans (hx.desc_inUsed hi)) (by decide)
      simp only [hft]
      rw [hr.other t hts]
  · refine hx.life.congr (hfa.trans hra) rfl rfl rfl rfl (fun t => ?_) fun t hf hne => ?_
    · obtain ⟨-,h2,-,-,h5⟩ := hr.tableEq t
      simp only [hft]
      exact ⟨h2,h5⟩
    · simp only [hft]
      by_cases hts : t = (x.st.node a).mqPosixdes
      · subst hts
        intro hnone
        -- an empty list would have had this node alone, which then was the last
        have hlist := hr.list
        rw [hnone] at hlist
        have herase : l.erase a = [] := by
          cases he : l.erase a with
          | nil => rfl
          | cons b t => rw [he] at hlist; exact hlist.elim
        have hl1 : l = [a] := by
          have hlen := List.length_erase_of_mem hmem
          rw [herase] at hlen
          cases l with
          | nil => exact absurd hmem List.not_mem_nil
          | cons b t =>
            have ht : t = [] := List.length_eq_zero_iff.mp (by simpa using hlen.symm)
            rw [ht] at hmem ⊢
            rw [List.mem_singleton.mp hmem]
        rw [hl1] at hc
        have hhead := hc.head_eq
        rw [hhead] at hc
        have hnext : (x.st.node a).mqNext = none := hc.2.head_eq
        rw [lastReference, hf, hnext] at hlast
        exact absurd hlast (by decide)
      · rw [hr.other t hts]
        exact hne

private theorem deleted_slot (st : MqState) (s : Nat) : ((st.deleted s).queueTable s).mqPersonal = (st.queueTable s).mqPersonal ∧
    ((st.deleted s).queueTable s).mqcb = none ∧ ((st.deleted s).queueTable s).mqName = none := by
  have h : (st.deleted s).queueTable s = _ := Function.update_self ..
  rw [h]
  exact ⟨rfl,rfl,rfl⟩

private theorem deleted_unused (st : MqState) (s : Nat) : ((st.deleted s).allQueue s).inUsed = false := by
  have h : (st.deleted s).allQueue s = _ := Function.update_self ..
  rw [h]

private theorem deleted_other {t : Nat} (st : MqState) (h : t ≠ s) : (st.deleted s).queueTable t = st.queueTable t := setSlot_of_ne _ _ h

theorem DescInv.deleted (hx : DescInv x) (s : Nat) : DescInv { x with st := x.st.deleted s } := by
  refine hx.congr rfl rfl rfl rfl (fun t => ?_) fun _ _ => rfl
  by_cases hts : t = s
  · rw [hts]
    exact (deleted_slot x.st s).1
  · exact congrArg Mqarray.mqPersonal (deleted_other x.st hts)

/-- The last descriptor of an unlinked queue is closed for good. -/
private theorem MqInv.closeLast (hx : MqInv x) (hi : x.st.mqPrivBuf i = some a) (hlast : lastReference x.st (x.st.node a) = true)
    (honly : (x.st.queueTable (x.st.node a).mqPosixdes).mqPersonal = some a) :
    ∃ st', mqpersonalRemove (x.st.deleted (x.st.node a).mqPosixdes) a = (st',⟨0,none⟩) ∧
      MqInv { x with
        st := mqFreeSysFd st' i
        desc := Function.update x.desc i none
        deletes := x.deletes ++ [x.born (x.st.node a).mqPosixdes] } := by
  obtain ⟨hflag,hnext⟩ := Bool.and_eq_true_iff.mp hlast
  generalize hs : (x.st.node a).mqPosixdes = s at honly hflag ⊢
  have hused : (x.st.allQueue s).inUsed = true := hs ▸ hx.desc_inUsed hi
  obtain ⟨hpers,hcb,hname⟩ := deleted_slot x.st s
  have hx₁ := hx.descs.deleted s
  obtain ⟨l,hc,hd,hl⟩ := hx₁.lists s
  obtain ⟨st',hrem,hr⟩ := mqpersonalRemove_eq hx₁ hi hs hc hd hl
  have hl1 : l = [a] := by
    rw [show ((x.st.deleted s).queueTable s).mqPersonal = some a from hpers.trans honly] at hc
    cases l with
    | nil => exact hc.elim
    | cons b l =>
      obtain ⟨rfl,hc⟩ := hc
      rw [show (x.st.deleted s).next a = none from Option.isNone_iff_eq_none.mp hnext] at hc
      cases l with
      | nil => rfl
      | cons => exact hc.elim
  have hnone : (st'.queueTable s).mqPersonal = none := by
    have hlist := hr.list
    rw [hl1, List.erase_cons_head] at hlist
    exact hlist.head_eq
  obtain ⟨hfa,hff,hft⟩ := mqFreeSysFd_rest st' i
  obtain ⟨hra,hrf,-,-⟩ := hr.rest
  have htab : ∀ t, t ≠ s → (mqFreeSysFd st' i).queueTable t = x.st.queueTable t := by
    intro t hts
    rw [hft, hr.other t hts]
    exact deleted_other x.st hts
  obtain ⟨h1,h2,-⟩ := hr.tableEq s
  have hall : (mqFreeSysFd st' i).allQueue = (x.st.deleted s).allQueue := hfa.trans hra
  refine ⟨st',hrem,?_,?_,hx₁.remove hi hs hd hl hr rfl rfl rfl,hx.opens⟩
  · refine hx.pool.delete hused (getQueueIndex_set (hx.pool.used s hused).1 _) hall (hff.trans hrf) htab ?_
    simp only [hft]
    exact ⟨h1.trans hcb,h2.trans hname,hnone⟩
  · refine (hx.life.delete x.linked hused ?_ (fun t hts => ?_) htab ?_ fun n => ?_).congr rfl rfl rfl rfl rfl
      (fun _ => ⟨rfl,rfl⟩) fun _ _ h => h
    · rw [hall]
      exact deleted_unused x.st s
    · rw [hall]
      exact Function.update_of_ne hts ..
    · rw [hft]
      exact h2.trans hname
    · split_ifs with hn
      · exact hx.life.unlinked_name hflag hn
      · rfl

private theorem privBuff_some {personal : Int} {buff : Option Nat} (h : mqGetPrivDataBuff st personal = some buff) :
    ¬ personal < MQUEUE_FD_OFFSET ∧ st.mqPrivBuf (personal - MQUEUE_FD_OFFSET).toNat = buff := by
  rw [mqGetPrivDataBuff] at h
  split_ifs at h with hid
  exact ⟨by omega,Option.some.inj h⟩

private theorem privBuff_none {personal : Int} (hx : DescInv x) (h : mqGetPrivDataBuff x.st personal = none) (hge : ¬ personal < MQUEUE_FD_OFFSET) :
    x.st.mqPrivBuf (personal - MQUEUE_FD_OFFSET).toNat = none := by
  rw [mqGetPrivDataBuff] at h
  split_ifs at h with hid
  cases hi : x.st.mqPrivBuf (personal - MQUEUE_FD_OFFSET).toNat with
  | none => rfl
  | some a =>
    obtain ⟨p,-,-,hlt,-⟩ := hx.desc _ a hi
    omega

private theorem mqClose_refer {personal : Int} (hb : mqGetPrivDataBuff st personal = some (some a)) (hs : (st.node a).mqStatus = MQ_USE_MAGIC)
    (hr : (st.node a).mqRefcount ≠ 0) (inUse : Bool) : mqClose st personal inUse =
      (st.setNode a (some { st.node a with mqRefcount := (st.node a).mqRefcount - 1 }),⟨0,none⟩) := by
  have htry : mqTryClose st a = (st.setNode a (some { st.node a with mqRefcount := (st.node a).mqRefcount - 1 }),false) := if_neg hr
  rw [mqClose, hb]
  simp only
  rw [if_neg fun h => h hs, htry]

private theorem mqClose_last {personal : Int} {inUse : Bool} (hb : mqGetPrivDataBuff st personal = some (some a))
    (hs : (st.node a).mqStatus = MQ_USE_MAGIC) (hr : (st.node a).mqRefcount = 0) (hclose : doMqueueClose st a inUse = (st',⟨0,none⟩)) :
    mqClose st personal inUse = (mqFreeSysFd st' (personal - MQUEUE_FD_OFFSET).toNat,⟨0,none⟩) := by
  have htry : mqTryClose st a = (st,true) := if_pos hr
  rw [mqClose, hb]
  simp only
  rw [if_neg fun h => h hs, htry]
  simp only
  rw [hclose]
  exact if_neg (show ¬ (0 : Int) < 0 by decide)

private theorem closeDeletes_eq {personal : Int} (hb : mqGetPrivDataBuff st personal = some (some a)) (hs : (st.node a).mqStatus = MQ_USE_MAGIC)
    (hne : (st.queueTable (st.node a).mqPosixdes).mqPersonal ≠ none) : closeDeletes st personal =
      if (st.node a).mqRefcount = 0 ∧ lastReference st (st.node a) = true then some (st.node a).mqPosixdes else none := by
  rw [closeDeletes, hb]
  simp only
  exact if_congr ⟨fun h => ⟨h.2.1,h.2.2.2⟩,fun h => ⟨hs,h.1,hne,h.2⟩⟩ rfl rfl

private theorem close_run {personal : Int} {inUse : Bool} {ret : MqRet} (h : mqClose x.st personal inUse = (st',ret)) :
    (MqCall.close personal inUse).run x =
      { (if ret.ret = 0 then x.closeDesc (personal - MQUEUE_FD_OFFSET).toNat else x).logDelete (closeDeletes x.st personal) with st := st' } := by
  rw [MqCall.run, h]

theorem MqInv.close (hx : MqInv x) (personal : Int) (inUse : Bool) (hok : (MqCall.close personal inUse).Ok x) :
    MqInv ((MqCall.close personal inUse).run x) := by
  rw [MqCall.Ok] at hok
  cases hpriv : mqGetPrivDataBuff x.st personal with
  | none =>
    rw [MqCall.run, mqClose, closeDeletes, hpriv]
    exact hx
  | some buff =>
    obtain ⟨-,hi⟩ := privBuff_some hpriv
    cases buff with
    | none =>
      rw [MqCall.run, mqClose, closeDeletes, hpriv]
      exact hx
    | some a =>
      obtain ⟨p,hp,hstatus,-,-,hdesc⟩ := hx.descs.desc _ a hi
      have hne := hx.descs.nonempty hi
      have hdel := closeDeletes_eq hpriv (by rw [node_eq hp]; exact hstatus) hne
      obtain rfl := node_eq hp
      by_cases href : (x.st.node a).mqRefcount = 0
      · have hclose : ∀ st', mqClose x.st personal inUse = (st',⟨0,none⟩) → (MqCall.close personal inUse).run x =
            { { x with desc := Function.update x.desc (personal - MQUEUE_FD_OFFSET).toNat none }.logDelete (closeDeletes x.st personal) with
              st := st' } := by
          intro st' h
          rw [close_run h, if_pos rfl, closeDesc_eq hdesc, if_pos href]
        cases hlast : lastReference x.st (x.st.node a) with
        | false =>
          obtain ⟨st',hrem,hinv⟩ := hx.closeOne hi hlast
          have hdo : doMqueueClose x.st a inUse = (st',⟨0,none⟩) := by
            rw [doMqueueClose, if_neg hne, if_neg (by rw [hlast]; exact Bool.false_ne_true), hrem]
          rw [hclose _ (mqClose_last hpriv hstatus href hdo), hdel, if_neg fun h => Bool.false_ne_true (hlast.symm.trans h.2)]
          exact hinv
        | true =>
          obtain ⟨honly,rfl⟩ := hok a hpriv href hlast
          obtain ⟨st',hrem,hinv⟩ := hx.closeLast hi hlast honly
          have hdo : doMqueueClose x.st a false = (st',⟨0,none⟩) := by
            rw [doMqueueClose, if_neg hne, if_pos hlast, hx.pool.doMqueueDelete_eq (hx.desc_inUsed hi)]
            exact (if_neg (show ¬ (0 : Int) < 0 by decide)).trans hrem
          rw [hclose _ (mqClose_last hpriv hstatus href hdo), hdel, if_pos ⟨href,hlast⟩]
          exact hinv
      · rw [close_run (mqClose_refer hpriv hstatus href inUse), if_pos rfl, closeDesc_eq hdesc, if_neg href, hdel, if_neg fun h => href h.1]
        exact ⟨hx.pool.congr rfl rfl (fun _ => ⟨rfl,rfl,rfl,rfl⟩) fun _ _ => rfl,
          hx.life.congr rfl rfl rfl rfl rfl (fun _ => ⟨rfl,rfl⟩) fun _ _ h => h,
          hx.descs.refcount hi ((x.st.node a).mqRefcount - 1) rfl rfl rfl,hx.opens⟩

theorem MqInv.refer (hx : MqInv x) (sysFd : Int) (hok : (MqCall.refer sysFd).Ok x) : MqInv ((MqCall.refer sysFd).run x) := by
  rw [MqCall.Ok] at hok
  have hnone : ∀ i, x.st.mqPrivBuf i = none → x.referDesc i = x := by
    intro i hi
    rw [MqHist.referDesc, (hx.descs.closed i hi).2]
  rw [MqCall.run, mqueueRefer]
  cases hpriv : mqGetPrivDataBuff x.st sysFd with
  | none =>
    by_cases hlt : sysFd < MQUEUE_FD_OFFSET
    · rw [if_pos hlt]
      exact hx
    · rw [if_neg hlt, hnone _ (privBuff_none hx.descs hpriv hlt)]
      exact hx
  | some buff =>
    obtain ⟨hge,hi⟩ := privBuff_some hpriv
    rw [if_neg hge]
    cases buff with
    | none =>
      rw [hnone _ hi]
      exact hx
    | some a =>
      generalize (sysFd - MQUEUE_FD_OFFSET).toNat = i at hi ⊢
      obtain ⟨p,hp,-,-,-,hdesc⟩ := hx.descs.desc i a hi
      rw [MqHist.referDesc, hdesc]
      refine ⟨hx.pool.congr rfl rfl (fun _ => ⟨rfl,rfl,rfl,rfl⟩) fun _ _ => rfl,
        hx.life.congr rfl rfl rfl rfl rfl (fun _ => ⟨rfl,rfl⟩) fun _ _ h => h,
        hx.descs.refcount hi (((x.st.node a).mqRefcount + 1) % 2^32) rfl ?_ rfl,hx.opens⟩
      rw [Nat.mod_eq_of_lt (hok a hpriv), node_eq hp]

private theorem mqUnlink_eq {name : Name} (hname : mqNameCheck (some name) = none) (hf : getMqueueCBByName st name = some s) (inUse : Bool) :
    mqUnlink st (some name) inUse =
      if (st.queueTable s).mqPersonal ≠ none then (st.setSlot s { st.queueTable s with unlinkflag := true },⟨0,none⟩)
      else if (st.queueTable s).unlinkRef = 0 then doMqueueDelete st s inUse
      else (st,⟨0,none⟩) := by
  rw [mqUnlink, hname]
  simp only [Option.getD_some]
  rw [hf]

/-- The name of a queue that is open is unlinked. -/
private theorem MqInv.unlinkOpen {name : Name} (hx : MqInv x) (hn : (x.st.queueTable s).mqName = some name)
    (hne : (x.st.queueTable s).mqPersonal ≠ none) :
    MqInv { x.unlinkName name with st := x.st.setSlot s { x.st.queueTable s with unlinkflag := true } } := by
  have htab : ∀ t, ((x.st.setSlot s { x.st.queueTable s with unlinkflag := true }).queueTable t) =
      { x.st.queueTable t with unlinkflag := if t = s then true else (x.st.queueTable t).unlinkflag } := by
    intro t
    by_cases hts : t = s
    · subst hts
      rw [setSlot_self, if_pos rfl]
    · rw [setSlot_of_ne _ _ hts, if_neg hts]
  have hused := hx.pool.inUsed_of_name hn
  have hlink : ∀ n, (x.unlinkName name).linked n = if n = name then none else x.linked n := Function.update_apply x.linked name none
  refine ⟨hx.pool.congr rfl rfl (fun t => ?_) fun t _ => ?_,?_,?_,hx.opens⟩
  · rw [htab]
    exact ⟨rfl,rfl,rfl,rfl⟩
  · rw [htab]
  · refine ⟨fun t h hf => ?_,fun t h hf => ?_,fun n q hq => ?_,fun t u n h h' => ?_,hx.life.born,hx.life.inj,hx.life.nodup,
      hx.life.gone,hx.life.remains⟩
    · rw [htab] at hf ⊢
      simp only at hf ⊢
      split_ifs at hf with hts
      obtain ⟨n,hnt,hl⟩ := hx.life.name t h hf
      refine ⟨n,hnt,?_⟩
      rw [hlink, if_neg]
      · exact hl
      · rintro rfl
        exact hts (hx.life.unique t s n hnt hn)
    · rw [htab] at hf ⊢
      simp only at hf ⊢
      split_ifs at hf with hts
      · rw [hts]
        exact hne
      · exact hx.life.unlinked t h hf
    · simp only at hq
      rw [hlink] at hq
      split_ifs at hq with hnn
      obtain ⟨t,h,hf,hnt,hb⟩ := hx.life.linked n q hq
      refine ⟨t,h,?_,?_,hb⟩
      · rw [htab]
        simp only
        rw [if_neg, hf]
        rintro rfl
        exact hnn (Option.some.inj (hnt.symm.trans hn))
      · rw [htab]
        exact hnt
    · rw [htab] at h h'
      exact hx.life.unique t u n h h'
  · refine hx.descs.congr rfl rfl rfl rfl (fun t => ?_) fun _ _ => rfl
    change ((x.st.setSlot s _).queueTable t).mqPersonal = _
    rw [htab]

/-- The name of a queue that is not open is unlinked. -/
private theorem MqInv.unlinkClosed {name : Name} (hx : MqInv x) (hn : (x.st.queueTable s).mqName = some name)
    (hnone : (x.st.queueTable s).mqPersonal = none) :
    MqInv { (x.unlinkName name).logDelete (some s) with st := x.st.deleted s } := by
  have hused := hx.pool.inUsed_of_name hn
  obtain ⟨hpers,hcb,hname⟩ := deleted_slot x.st s
  have hother : ∀ t, t ≠ s → (x.st.deleted s).queueTable t = x.st.queueTable t := fun t hts => deleted_other x.st hts
  refine ⟨?_,?_,(hx.descs.deleted s).congr rfl rfl rfl rfl (fun _ => rfl) fun _ _ => rfl,hx.opens⟩
  · exact hx.pool.delete hused (getQueueIndex_set (hx.pool.used s hused).1 _) rfl rfl hother ⟨hcb,hname,hpers.trans hnone⟩
  · refine hx.life.delete _ hused (deleted_unused x.st s) (fun t hts => Function.update_of_ne hts ..) hother hname fun n => ?_
    refine (Function.update_apply x.linked name none n).trans ?_
    rw [hn]
    by_cases hnn : n = name
    · rw [if_pos hnn, if_pos (by rw [hnn])]
    · rw [if_neg hnn, if_neg fun h => hnn (Option.some.inj h).symm]

private theorem unlink_run {name : Name} {inUse : Bool} {ret : MqRet} (hname : mqNameCheck (some name) = none)
    (h : mqUnlink x.st (some name) inUse = (st',ret)) : (MqCall.unlink (some name) inUse).run x =
      { (if ret.ret = 0 then x.unlinkName name else x).logDelete (unlinkDeletes x.st name) with st := st' } := by
  rw [MqCall.run, h]
  exact if_pos hname

theorem MqInv.unlink (hx : MqInv x) (mqName : Option Name) (inUse : Bool) (hok : (MqCall.unlink mqName inUse).Ok x) :
    MqInv ((MqCall.unlink mqName inUse).run x) := by
  cases hname : mqNameCheck mqName with
  | some e =>
    rw [MqCall.run, mqUnlink, hname]
    exact hx
  | none => cases mqName with
    | none => exact absurd hname nofun
    | some name =>
      cases hf : getMqueueCBByName x.st name with
      | none =>
        have hu : mqUnlink x.st (some name) inUse = (x.st,⟨-1,some .ENOENT⟩) := by
          rw [mqUnlink, hname]
          simp only [Option.getD_some, hf]
        have hd : unlinkDeletes x.st name = none := by rw [unlinkDeletes, hf]; rfl
        rw [unlink_run hname hu, hd, if_neg (by decide)]
        exact hx
      | some s =>
        obtain ⟨-,hn⟩ := byName_some hf
        have hd : unlinkDeletes x.st name =
            if (x.st.queueTable s).mqPersonal = none ∧ (x.st.queueTable s).unlinkRef = 0 then some s else none := by
          rw [unlinkDeletes, hf, Option.filter_some]
          exact if_congr decide_eq_true_iff rfl rfl
        have hu := mqUnlink_eq hname hf inUse
        by_cases hnone : (x.st.queueTable s).mqPersonal = none
        · have hused := hx.pool.inUsed_of_name hn
          obtain ⟨-,-,-,href⟩ := hx.pool.used s hused
          obtain rfl : inUse = false := hok s hf hnone
          rw [if_neg fun h => h hnone, if_pos href, hx.pool.doMqueueDelete_eq hused] at hu
          rw [unlink_run hname hu, hd, if_pos rfl, if_pos ⟨hnone,href⟩]
          exact hx.unlinkClosed hn hnone
        · rw [if_pos hnone] at hu
          rw [unlink_run hname hu, hd, if_pos rfl, if_neg fun h => hnone h.1]
          exact hx.unlinkOpen hn hnone

end LiteOsKernel.Posix.Mqueue
