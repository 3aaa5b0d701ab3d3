import LiteOsKernel.Posix.MqueueInv

/-! The steps of mq_open: a kernel queue is taken for a name, a node is put on its list, and a descriptor is allocated for it. -/
namespace LiteOsKernel.Posix.Mqueue

variable {st st' : MqState} {x : MqHist} {n : Name} {s a i : Nat}

/-- States that differ in the owners and modes of the queues only. -/
structure SameCore (st st' : MqState) : Prop where
  rest : st'.allQueue = st.allQueue ∧ st'.freeQueueList = st.freeQueueList ∧ st'.heap = st.heap ∧ st'.fdSet = st.fdSet ∧
    st'.mqPrivBuf = st.mqPrivBuf
  table : ∀ t, (st'.queueTable t).mqcb = (st.queueTable t).mqcb ∧ (st'.queueTable t).mqName = (st.queueTable t).mqName ∧
    (st'.queueTable t).mqId = (st.queueTable t).mqId ∧ (st'.queueTable t).unlinkRef = (st.queueTable t).unlinkRef ∧
    (st'.queueTable t).unlinkflag = (st.queueTable t).unlinkflag ∧ (st'.queueTable t).mqPersonal = (st.queueTable t).mqPersonal

theorem SameCore.refl (st : MqState) : SameCore st st := ⟨⟨rfl,rfl,rfl,rfl,rfl⟩,fun _ => ⟨rfl,rfl,rfl,rfl,rfl,rfl⟩⟩

theorem SameCore.trans {st₂ : MqState} (h : SameCore st st') (h' : SameCore st' st₂) : SameCore st st₂ := by
  obtain ⟨a1,a2,a3,a4,a5⟩ := h.rest
  obtain ⟨b1,b2,b3,b4,b5⟩ := h'.rest
  refine ⟨⟨b1.trans a1,b2.trans a2,b3.trans a3,b4.trans a4,b5.trans a5⟩,fun t => ?_⟩
  obtain ⟨c1,c2,c3,c4,c5,c6⟩ := h.table t
  obtain ⟨d1,d2,d3,d4,d5,d6⟩ := h'.table t
  exact ⟨d1.trans c1,d2.trans c2,d3.trans c3,d4.trans c4,d5.trans c5,d6.trans c6⟩

theorem MqInv.core (hx : MqInv x) (h : SameCore x.st st') : MqInv { x with st := st' } := by
  obtain ⟨h1,h2,h3,h4,h5⟩ := h.rest
  refine ⟨hx.pool.congr h1 h2 (fun t => ?_) fun t _ => (h.table t).2.2.2.2.2,
    hx.life.congr h1 rfl rfl rfl rfl (fun t => ?_) fun t _ hne => ?_,
    hx.descs.congr h3 h5 h4 rfl (fun t => (h.table t).2.2.2.2.2) fun _ _ => rfl,hx.opens⟩
  · obtain ⟨c1,c2,c3,c4,-⟩ := h.table t
    exact ⟨c1,c2,c3,c4⟩
  · obtain ⟨-,c2,-,-,c5,-⟩ := h.table t
    exact ⟨c2,c5⟩
  · simp only
    rw [(h.table t).2.2.2.2.2]
    exact hne

theorem sameCore_mode (st : MqState) (user : User) (r : Except Errno Nat) : SameCore st (mqueueModeAnalysisSet st user r) := by
  cases r with
  | error e => exact SameCore.refl st
  | ok a =>
    refine ⟨⟨rfl,rfl,rfl,rfl,rfl⟩,fun t => ?_⟩
    rw [mqueueModeAnalysisSet]
    by_cases hts : t = (st.node a).mqPosixdes
    · subst hts
      rw [setSlot_self]
      exact ⟨rfl,rfl,rfl,rfl,rfl,rfl⟩
    · rw [setSlot_of_ne _ _ hts]
      exact ⟨rfl,rfl,rfl,rfl,rfl,rfl⟩

/-- A node was allocated and put in front of the list of a queue. -/
def MqState.push (st : MqState) (s a : Nat) (p : Mqpersonal) : MqState :=
  (st.setNode a (some p)).setSlot s { st.queueTable s with mqPersonal := some a }

theorem push_other {t : Nat} {p : Mqpersonal} (st : MqState) (h : t ≠ s) : (st.push s a p).queueTable t = st.queueTable t :=
  setSlot_of_ne _ _ h

theorem push_slot (st : MqState) (s a : Nat) (p : Mqpersonal) :
    (st.push s a p).queueTable s = { st.queueTable s with mqPersonal := some a } := setSlot_self ..

/-- The node of a queue that was just opened. -/
def Fresh (st : MqState) (s : Nat) (p : Mqpersonal) : Prop :=
  p.mqPosixdes = s ∧ p.mqNext = (st.queueTable s).mqPersonal ∧ p.mqStatus = MQ_USE_MAGIC ∧ p.mqRefcount = 0

/-- The state when descriptor i is given to the node. -/
def MqState.giveFd (st : MqState) (i a : Nat) : MqState :=
  { st with fdSet := Function.update st.fdSet i true, mqPrivBuf := Function.update st.mqPrivBuf i (some a) }

/-- A queue gets a descriptor. -/
theorem MqInv.push {p : Mqpersonal} (hx : MqInv x) (hused : (x.st.allQueue s).inUsed = true) (ha : x.st.heap a = none)
    (hp : Fresh x.st s p) (hi : x.st.mqPrivBuf i = none) (hlt : i < MAX_MQ_FD) (hcore : SameCore (x.st.push s a p) st') :
    MqInv { x with st := st'.giveFd i a, desc := Function.update x.desc i (some ⟨x.born s,0⟩) } := by
  have hslot := push_slot x.st s a p
  have hpool : PoolInv (x.st.push s a p) := by
    refine hx.pool.congr rfl rfl (fun t => ?_) fun t ht => ?_
    · by_cases hts : t = s
      · rw [hts, hslot]
        exact ⟨rfl,rfl,rfl,rfl⟩
      · rw [push_other x.st hts]
        exact ⟨rfl,rfl,rfl,rfl⟩
    · rw [push_other]
      rintro rfl
      exact absurd (ht.symm.trans hused) (by decide)
  have hlife : LifeInv { x with st := x.st.push s a p } := by
    refine hx.life.congr rfl rfl rfl rfl rfl (fun t => ?_) fun t _ hne => ?_
    · by_cases hts : t = s
      · rw [hts]
        simp only
        rw [hslot]
        exact ⟨rfl,rfl⟩
      · simp only
        rw [push_other x.st hts]
        exact ⟨rfl,rfl⟩
    · simp only
      by_cases hts : t = s
      · rw [hts, hslot]
        exact nofun
      · rw [push_other x.st hts]
        exact hne
  obtain ⟨h1,h2,h3,h4,h5⟩ := hcore.rest
  have hpers : ∀ t, ((st'.giveFd i a).queueTable t).mqPersonal = ((x.st.push s a p).queueTable t).mqPersonal := fun t =>
    (hcore.table t).2.2.2.2.2
  refine ⟨?_,?_,?_,hx.opens⟩
  · refine hpool.congr h1 h2 (fun t => ?_) fun t _ => hpers t
    obtain ⟨c1,c2,c3,c4,-⟩ := hcore.table t
    exact ⟨c1,c2,c3,c4⟩
  · refine hlife.congr h1 rfl rfl rfl rfl (fun t => ?_) fun t _ hne => ?_
    · obtain ⟨-,c2,-,-,c5,-⟩ := hcore.table t
      exact ⟨c2,c5⟩
    · simp only
      rw [hpers]
      exact hne
  · refine hx.descs.push ha hi hlt hp h3 ?_ ?_ rfl ?_ (fun t hts => ?_) rfl
    · exact congrArg (Function.update · i (some a)) h5
    · exact congrArg (Function.update · i true) h4
    · simp only
      rw [hpers, hslot]
    · simp only
      rw [hpers, push_other x.st hts]

/-- The first node of a queue that is linked is closed. -/
theorem doMqueueClose_head {p : Mqpersonal} (hnode : st.node a = p) (hpos : p.mqPosixdes = s)
    (hpers : (st.queueTable s).mqPersonal = some a) (hflag : (st.queueTable s).unlinkflag = false) (inUse : Bool) :
    doMqueueClose st a inUse = ((st.setSlot s { st.queueTable s with mqPersonal := p.mqNext }).setNode a none,⟨0,none⟩) := by
  have hlast : lastReference st p = false := by
    rw [lastReference, hpos, hflag]
    rfl
  rw [doMqueueClose, hnode, hpos, if_neg (by rw [hpers]; nofun), if_neg (by rw [hlast]; exact Bool.false_ne_true), mqpersonalRemove, hnode,
    hpos]
  exact if_pos hpers

/-- A queue that was just opened and gets no descriptor is closed at once. -/
theorem doMqueueClose_push {p : Mqpersonal} (ha : st.heap a = none) (hp : Fresh st s p) (hflag : (st.queueTable s).unlinkflag = false)
    (hcore : SameCore (st.push s a p) st') : SameCore st (doMqueueClose st' a false).1 := by
  obtain ⟨hpos,hnext,-,-⟩ := hp
  obtain ⟨h1,h2,h3,h4,h5⟩ := hcore.rest
  have hslot := push_slot st s a p
  have hnode : st'.node a = p := by
    refine node_eq ?_
    rw [h3]
    exact Function.update_self ..
  have hpers : (st'.queueTable s).mqPersonal = some a := by rw [(hcore.table s).2.2.2.2.2, hslot]
  have hflag' : (st'.queueTable s).unlinkflag = false := by
    rw [(hcore.table s).2.2.2.2.1, hslot]
    exact hflag
  rw [doMqueueClose_head hnode hpos hpers hflag']
  refine ⟨⟨h1,h2,?_,h4,h5⟩,fun t => ?_⟩
  · change Function.update st'.heap a none = st.heap
    rw [h3]
    change Function.update (Function.update st.heap a (some p)) a none = st.heap
    rw [Function.update_idem, ← ha, Function.update_eq_self]
  · by_cases hts : t = s
    · subst hts
      obtain ⟨c1,c2,c3,c4,c5,-⟩ := hcore.table t
      rw [hslot] at c1 c2 c3 c4 c5
      change ((st'.setSlot t _).queueTable t).mqcb = _ ∧ ((st'.setSlot t _).queueTable t).mqName = _ ∧
        ((st'.setSlot t _).queueTable t).mqId = _ ∧ ((st'.setSlot t _).queueTable t).unlinkRef = _ ∧
        ((st'.setSlot t _).queueTable t).unlinkflag = _ ∧ ((st'.setSlot t _).queueTable t).mqPersonal = _
      rw [setSlot_self]
      exact ⟨c1,c2,c3,c4,c5,hnext⟩
    · have hcoret := hcore.table t
      rw [push_other st hts] at hcoret
      change ((st'.setSlot s _).queueTable t).mqcb = _ ∧ ((st'.setSlot s _).queueTable t).mqName = _ ∧
        ((st'.setSlot s _).queueTable t).mqId = _ ∧ ((st'.setSlot s _).queueTable t).unlinkRef = _ ∧
        ((st'.setSlot s _).queueTable t).unlinkflag = _ ∧ ((st'.setSlot s _).queueTable t).mqPersonal = _
      rw [setSlot_of_ne _ _ hts]
      exact hcoret

theorem allocSysFdLoop_eq (hb : ∀ i, st.fdSet i = false → st.mqPrivBuf i = none) (a n i : Nat) :
    (allocSysFdLoop st a n i = (st,none) ∧ ∀ j, i ≤ j → j < i + n → st.fdSet j = true) ∨
    ∃ j, j < i + n ∧ st.fdSet j = false ∧ allocSysFdLoop st a n i = (st.giveFd j a,some j) := by
  induction n generalizing i with
  | zero => exact .inl ⟨rfl,fun j hle hlt => by omega⟩
  | succ n ih =>
    rw [allocSysFdLoop]
    cases hf : st.fdSet i with
    | true =>
      rw [if_pos rfl]
      rcases ih (i + 1) with ⟨h,hall⟩ | ⟨j,hlt,hj,h⟩
      · refine .inl ⟨h,fun j hle hlt => ?_⟩
        rcases Nat.eq_or_lt_of_le hle with rfl | hgt
        · exact hf
        · exact hall j hgt (by omega)
      · exact .inr ⟨j,by omega,hj,h⟩
    | false =>
      rw [if_neg Bool.false_ne_true]
      exact .inr ⟨i,by omega,hf,if_pos (hb i hf)⟩

theorem DescInv.allocSysFd (hx : DescInv x) (hf : st'.fdSet = x.st.fdSet) (hb : st'.mqPrivBuf = x.st.mqPrivBuf) (a : Nat) :
    mqAllocSysFd st' MAX_MQ_FD a = (st',none) ∨
    ∃ i, i < MAX_MQ_FD ∧ x.st.mqPrivBuf i = none ∧ mqAllocSysFd st' MAX_MQ_FD a = (st'.giveFd i a,some i) := by
  have hfree : ∀ i, st'.fdSet i = false → st'.mqPrivBuf i = none := by
    intro i hi
    rw [hf] at hi
    rw [hb]
    cases hbuf : x.st.mqPrivBuf i with
    | none => rfl
    | some b =>
      obtain ⟨p,-,-,-,hset,-⟩ := hx.desc i b hbuf
      exact absurd (hi.symm.trans hset) (by decide)
  rcases allocSysFdLoop_eq hfree a MAX_MQ_FD 0 with ⟨h,-⟩ | ⟨i,hlt,hi,h⟩
  · exact .inl h
  · have hbuf := hfree i hi
    rw [hb] at hbuf
    exact .inr ⟨i,by omega,hbuf,h⟩

/-- The state when the first free kernel queue and its control block are taken for a name. -/
def MqState.create (st : MqState) (s : Nat) (freeQueueList : List Nat) (name : Name) : MqState :=
  { st.setSlot s { st.queueTable s with
      mqId := (st.allQueue s).queueID, mqName := some name, mqcb := some s, unlinkflag := false, unlinkRef := 0 } with
    allQueue := Function.update st.allQueue s ⟨(st.allQueue s).queueID,true⟩
    freeQueueList := freeQueueList }

theorem create_slot (st : MqState) (s : Nat) (freeQueueList : List Nat) (name : Name) :
    (st.create s freeQueueList name).queueTable s = { st.queueTable s with
      mqId := (st.allQueue s).queueID, mqName := some name, mqcb := some s, unlinkflag := false, unlinkRef := 0 } := setSlot_self ..

theorem create_other {t : Nat} (st : MqState) (freeQueueList : List Nat) (name : Name) (h : t ≠ s) :
    (st.create s freeQueueList name).queueTable t = st.queueTable t := setSlot_of_ne _ _ h

theorem create_queue (st : MqState) (s : Nat) (freeQueueList : List Nat) (name : Name) :
    (st.create s freeQueueList name).allQueue s = ⟨(st.allQueue s).queueID,true⟩ := Function.update_self ..

private theorem create_queue_other {t : Nat} (st : MqState) (freeQueueList : List Nat) (name : Name) (h : t ≠ s) :
    (st.create s freeQueueList name).allQueue t = st.allQueue t := Function.update_of_ne h ..

theorem PoolInv.create {freeQueueList : List Nat} (hp : PoolInv st) (hfree : st.freeQueueList = s :: freeQueueList) (name : Name) :
    PoolInv (st.create s freeQueueList name) := by
  have hnd := hp.nodup
  rw [hfree] at hnd
  obtain ⟨hs,hnd⟩ := List.nodup_cons.mp hnd
  have hmem : ∀ i, i ∈ freeQueueList → i ∈ st.freeQueueList := fun i hi => hfree ▸ List.mem_cons_of_mem s hi
  refine ⟨hnd,fun i hi => ?_,fun i hi => ?_,fun t h => ?_,fun t h => ?_⟩
  · rw [create_queue_other st _ _ fun he : i = s => hs (he ▸ hi)]
    exact hp.free i (hmem i hi)
  · by_cases his : i = s
    · rw [his, create_queue]
      exact his ▸ hp.index i hi
    · rw [create_queue_other st _ _ his]
      exact hp.index i hi
  · by_cases hts : t = s
    · rw [hts, create_queue, create_slot]
      exact ⟨(hp.free s (hfree ▸ List.mem_cons_self)).1,nofun,rfl,rfl⟩
    · rw [create_queue_other st _ _ hts] at h ⊢
      rw [create_other st _ _ hts]
      exact hp.used t h
  · by_cases hts : t = s
    · rw [hts, create_queue] at h
      exact absurd h nofun
    · rw [create_queue_other st _ _ hts] at h
      rw [create_other st _ _ hts]
      exact hp.unused t h

private theorem link_linked (x : MqHist) (name : Name) (s : Nat) (n : Name) :
    (x.link name none (some s)).linked n = if n = name then some (x.created + 1) else x.linked n :=
  Function.update_apply x.linked name _ n

private theorem link_born (x : MqHist) (name : Name) (s t : Nat) :
    (x.link name none (some s)).born t = if t = s then x.created + 1 else x.born t := Function.update_apply x.born s _ t

/-- The queues that are there after a creation. -/
private theorem exists_create {freeQueueList : List Nat} {name : Name} (hne : ∀ t, (x.st.allQueue t).inUsed = true → t ≠ s) (q : Nat) :
    MqHist.Exists { x.link name none (some s) with st := x.st.create s freeQueueList name } q ↔ x.Exists q ∨ q = x.created + 1 := by
  constructor
  · rintro ⟨t,h,hb⟩
    simp only at h hb
    rw [link_born] at hb
    split_ifs at hb with hts
    · exact .inr hb.symm
    · rw [create_queue_other x.st _ _ hts] at h
      exact .inl ⟨t,h,hb⟩
  · rintro (⟨t,h,hb⟩ | rfl)
    · refine ⟨t,?_,?_⟩
      · simp only
        rw [create_queue_other x.st _ _ (hne t h)]
        exact h
      · simp only
        rw [link_born, if_neg (hne t h)]
        exact hb
    · refine ⟨s,?_,?_⟩
      · simp only
        rw [create_queue]
      · simp only
        rw [link_born, if_pos rfl]

/-- The new queue has a number and a name of its own. -/
theorem LifeInv.create {freeQueueList : List Nat} {name : Name} (h : LifeInv x) (hne : ∀ t, (x.st.allQueue t).inUsed = true → t ≠ s)
    (hnew : ∀ t, (x.st.queueTable t).mqName ≠ some name) :
    LifeInv { x.link name none (some s) with st := x.st.create s freeQueueList name } := by
  refine ⟨fun t hu hf => ?_,fun t hu hf => ?_,fun n q hq => ?_,fun t u n ht hu => ?_,fun t hu => ?_,
    fun t u ht hu he => ?_,h.nodup,fun q hq => ?_,fun q hpos hle hq => ?_⟩
  · simp only at hu hf ⊢
    rw [link_born]
    by_cases hts : t = s
    · rw [if_pos hts, hts, create_slot]
      exact ⟨name,rfl,by rw [link_linked, if_pos rfl]⟩
    · rw [create_queue_other x.st _ _ hts] at hu
      rw [create_other x.st _ _ hts] at hf ⊢
      rw [if_neg hts]
      obtain ⟨n,hn,hl⟩ := h.name t hu hf
      refine ⟨n,hn,?_⟩
      rw [link_linked, if_neg, hl]
      rintro rfl
      exact hnew t hn
  · simp only at hu hf ⊢
    by_cases hts : t = s
    · rw [hts, create_slot] at hf
      exact absurd hf nofun
    · rw [create_queue_other x.st _ _ hts] at hu
      rw [create_other x.st _ _ hts] at hf ⊢
      exact h.unlinked t hu hf
  · simp only at hq
    rw [link_linked] at hq
    split_ifs at hq with hn
    · refine ⟨s,?_⟩
      simp only
      rw [create_queue, create_slot, link_born, if_pos rfl]
      exact ⟨rfl,rfl,by rw [hn],Option.some.inj hq⟩
    · obtain ⟨t,hu,hf,hnt,hb⟩ := h.linked n q hq
      refine ⟨t,?_⟩
      simp only
      rw [create_queue_other x.st _ _ (hne t hu), create_other x.st _ _ (hne t hu), link_born, if_neg (hne t hu)]
      exact ⟨hu,hf,hnt,hb⟩
  · simp only at ht hu
    by_cases hts : t = s <;> by_cases hus : u = s
    · rw [hts, hus]
    · rw [hts, create_slot] at ht
      rw [create_other x.st _ _ hus] at hu
      exact absurd (Option.some.inj ht ▸ hu) (hnew u)
    · rw [create_other x.st _ _ hts] at ht
      rw [hus, create_slot] at hu
      exact absurd (Option.some.inj hu ▸ ht) (hnew t)
    · rw [create_other x.st _ _ hts] at ht
      rw [create_other x.st _ _ hus] at hu
      exact h.unique t u n ht hu
  · simp only at hu ⊢
    rw [link_born]
    by_cases hts : t = s
    · rw [if_pos hts]
      exact ⟨Nat.succ_pos _,Nat.le_refl _⟩
    · rw [create_queue_other x.st _ _ hts] at hu
      rw [if_neg hts]
      exact ⟨(h.born t hu).1,Nat.le_succ_of_le (h.born t hu).2⟩
  · simp only at ht hu he
    rw [link_born, link_born] at he
    by_cases hts : t = s <;> by_cases hus : u = s
    · rw [hts, hus]
    · rw [create_queue_other x.st _ _ hus] at hu
      rw [if_pos hts, if_neg hus] at he
      have := (h.born u hu).2
      omega
    · rw [create_queue_other x.st _ _ hts] at ht
      rw [if_neg hts, if_pos hus] at he
      have := (h.born t ht).2
      omega
    · rw [create_queue_other x.st _ _ hts] at ht
      rw [create_queue_other x.st _ _ hus] at hu
      rw [if_neg hts, if_neg hus] at he
      exact h.inj t u ht hu he
  · obtain ⟨hle,hg⟩ := h.gone q hq
    refine ⟨Nat.le_succ_of_le hle,fun hex => ?_⟩
    rcases (exists_create hne q).mp hex with hex | hex
    · exact hg hex
    · omega
  · refine (exists_create hne q).mpr ?_
    change q ≤ x.created + 1 at hle
    by_cases hq' : q = x.created + 1
    · exact .inr hq'
    · exact .inl (h.remains q hpos (by omega) hq)

/-- A queue is created under a name that no other has. -/
theorem MqInv.create {freeQueueList : List Nat} {name : Name} (hx : MqInv x) (hfree : x.st.freeQueueList = s :: freeQueueList)
    (hname : getMqueueCBByName x.st name = none) :
    MqInv { x.link name none (some s) with st := x.st.create s freeQueueList name } := by
  have hun : (x.st.allQueue s).inUsed = false := (hx.pool.free s (hfree ▸ List.mem_cons_self)).2
  obtain ⟨hcb,hnone,hpers⟩ := hx.pool.unused s hun
  have hne : ∀ t, (x.st.allQueue t).inUsed = true → t ≠ s := by
    rintro t h rfl
    exact absurd (hun.symm.trans h) (by decide)
  refine ⟨hx.pool.create hfree name,hx.life.create hne (hx.pool.byName_none hname),?_,hx.opens⟩
  refine hx.descs.congr rfl rfl rfl rfl (fun t => ?_) fun t ht => ?_
  · simp only
    by_cases hts : t = s
    · rw [hts, create_slot]
    · rw [create_other x.st _ _ hts]
  · simp only
    rw [link_born, if_neg]
    rintro rfl
    exact ht hpers

end LiteOsKernel.Posix.Mqueue
