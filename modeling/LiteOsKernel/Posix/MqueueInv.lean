import LiteOsKernel.Posix.MqueueHist
import Mathlib.Data.List.Perm.Subperm

/-! What holds of the message queues between two calls: the free kernel queues, the names, the lists of the queues and the descriptors. -/
namespace LiteOsKernel.Posix.Mqueue

variable {st st' : MqState} {x : MqHist} {n : Name} {s a i : Nat}

theorem getQueueIndex_set {index : Nat} (h : index < LOSCFG_BASE_IPC_QUEUE_LIMIT) (count : Nat) :
    getQueueIndex (setQueueId count index) = index := by
  have hlt : index < 2^16 := Nat.lt_trans h (by decide)
  rw [getQueueIndex, setQueueId, QUEUE_SPLIT_BIT, Nat.or_mod_two_pow, Nat.mod_mod_of_dvd _ (by decide), Nat.shiftLeft_eq,
    Nat.mul_mod_left, Nat.zero_or, Nat.mod_eq_of_lt hlt]

theorem byName_some (h : getMqueueCBByName st n = some s) : s < LOSCFG_BASE_IPC_QUEUE_LIMIT ∧ (st.queueTable s).mqName = some n := by
  rw [getMqueueCBByName] at h
  have hmem := List.mem_range.mp (List.mem_of_find?_eq_some h)
  have hname := List.find?_some h
  exact ⟨hmem,of_decide_eq_true hname⟩

theorem PoolInv.inUsed_of_name (hp : PoolInv st) (h : (st.queueTable s).mqName = some n) : (st.allQueue s).inUsed = true := by
  by_contra hu
  rw [(hp.unused s (Bool.of_not_eq_true hu)).2.1] at h
  exact absurd h nofun

theorem PoolInv.byName_none (hp : PoolInv st) (h : getMqueueCBByName st n = none) (s : Nat) : (st.queueTable s).mqName ≠ some n := by
  intro hs
  have hlt := (hp.used s (hp.inUsed_of_name hs)).1
  rw [getMqueueCBByName] at h
  have hfind := List.find?_eq_none.mp h s (List.mem_range.mpr hlt)
  exact hfind (decide_eq_true hs)

/-- Under names that are all different, a name finds its control block. -/
theorem PoolInv.byName_eq (hp : PoolInv st)
    (hu : ∀ s t n, (st.queueTable s).mqName = some n → (st.queueTable t).mqName = some n → s = t)
    (hs : (st.queueTable s).mqName = some n) : getMqueueCBByName st n = some s := by
  cases hf : getMqueueCBByName st n with
  | none => exact absurd hs (hp.byName_none hf s)
  | some t => rw [hu s t n hs (byName_some hf).2]

theorem PoolInv.congr (hp : PoolInv st) (ha : st'.allQueue = st.allQueue) (hf : st'.freeQueueList = st.freeQueueList)
    (hs : ∀ s, (st'.queueTable s).mqcb = (st.queueTable s).mqcb ∧ (st'.queueTable s).mqName = (st.queueTable s).mqName ∧
      (st'.queueTable s).mqId = (st.queueTable s).mqId ∧ (st'.queueTable s).unlinkRef = (st.queueTable s).unlinkRef)
    (hm : ∀ s, (st.allQueue s).inUsed = false → (st'.queueTable s).mqPersonal = (st.queueTable s).mqPersonal) : PoolInv st' := by
  refine ⟨hf ▸ hp.nodup,?_,?_,fun s h => ?_,fun s h => ?_⟩
  · rw [hf, ha]
    exact hp.free
  · rw [ha]
    exact hp.index
  · obtain ⟨hcb,-,hid,href⟩ := hs s
    rw [hcb, hid, href, ha]
    exact hp.used s (ha ▸ h)
  · obtain ⟨hcb,hname,-,-⟩ := hs s
    rw [ha] at h
    rw [hcb, hname, hm s h]
    exact hp.unused s h

/-- Slots whose lists are as they were keep their nodes. -/
theorem MqState.Lists.congr (h : st.Lists s) (hm : (st'.queueTable s).mqPersonal = (st.queueTable s).mqPersonal)
    (hn : ∀ a i, st.mqPrivBuf i = some a → (st.node a).mqPosixdes = s → st'.next a = st.next a)
    (hb : ∀ a, (∃ i, st'.mqPrivBuf i = some a ∧ (st'.node a).mqPosixdes = s) ↔
      ∃ i, st.mqPrivBuf i = some a ∧ (st.node a).mqPosixdes = s) : st'.Lists s := by
  obtain ⟨l,hc,hd,hl⟩ := h
  refine ⟨l,?_,hd,fun a => (hl a).trans (hb a).symm⟩
  rw [hm]
  refine hc.congr fun a ha => ?_
  obtain ⟨i,hi,hp⟩ := (hl a).mp ha
  exact hn a i hi hp

theorem node_eq {p : Mqpersonal} (h : st.heap a = some p) : st.node a = p := by
  rw [MqState.node, h]
  rfl

/-- An empty list has no descriptors. -/
theorem DescInv.empty (hx : DescInv x) (hs : (x.st.queueTable s).mqPersonal = none) (hi : x.st.mqPrivBuf i = some a) :
    (x.st.node a).mqPosixdes ≠ s := by
  intro hp
  obtain ⟨l,hc,-,hl⟩ := hx.lists s
  rw [hs] at hc
  have hmem := (hl a).mpr ⟨i,hi,hp⟩
  cases l with
  | nil => exact List.not_mem_nil hmem
  | cons => exact hc

theorem DescInv.nonempty (hx : DescInv x) (hi : x.st.mqPrivBuf i = some a) :
    (x.st.queueTable (x.st.node a).mqPosixdes).mqPersonal ≠ none := fun h => hx.empty h hi rfl

theorem MqInv.desc_inUsed (hx : MqInv x) (hi : x.st.mqPrivBuf i = some a) : (x.st.allQueue (x.st.node a).mqPosixdes).inUsed = true := by
  by_contra hu
  exact hx.descs.nonempty hi (hx.pool.unused _ (Bool.of_not_eq_true hu)).2.2

theorem MqInv.law (hx : MqInv x) : MqLaw x := by
  have hdesc : ∀ i d, x.desc i = some d → ∃ a p, x.st.mqPrivBuf i = some a ∧ x.st.heap a = some p ∧
      (x.st.allQueue p.mqPosixdes).inUsed = true ∧ d = ⟨x.born p.mqPosixdes,p.mqRefcount⟩ := by
    intro i d hd
    cases hi : x.st.mqPrivBuf i with
    | none => exact absurd (hd.symm.trans (hx.descs.closed i hi).2) nofun
    | some a =>
      obtain ⟨p,hp,-,-,-,hdi⟩ := hx.descs.desc i a hi
      refine ⟨a,p,rfl,hp,?_,Option.some.inj (hd.symm.trans hdi)⟩
      have := hx.desc_inUsed hi
      rwa [node_eq hp] at this
  refine ⟨fun q => ⟨fun h => ?_,fun h => ?_⟩,fun q hpos hle => ⟨fun h => ?_,fun h => ?_⟩,fun s => ?_,hdesc,fun i => ?_,hx.descs.lists,
    hx.descs.distinct,hx.opens⟩
  · obtain ⟨s,hs,rfl⟩ := h
    cases hf : (x.st.queueTable s).unlinkflag with
    | false =>
      obtain ⟨n,-,hn⟩ := hx.life.name s hs hf
      exact .inl ⟨n,hn⟩
    | true =>
      -- an unlinked queue has a node, which is that of a descriptor
      obtain ⟨l,hc,-,hl⟩ := hx.descs.lists s
      have hne := hx.life.unlinked s hs hf
      cases l with
      | nil => exact absurd hc.head_eq hne
      | cons a l =>
        obtain ⟨i,hi,hp⟩ := (hl a).mp List.mem_cons_self
        obtain ⟨p,hh,-,-,-,hd⟩ := hx.descs.desc i a hi
        rw [node_eq hh] at hp
        exact .inr ⟨i,_,hd,by rw [hp]⟩
  · rcases h with ⟨n,hn⟩ | ⟨i,d,hd,rfl⟩
    · obtain ⟨s,hs,-,-,hb⟩ := hx.life.linked n q hn
      exact ⟨s,hs,hb⟩
    · obtain ⟨a,p,-,-,hu,rfl⟩ := hdesc i d hd
      exact ⟨p.mqPosixdes,hu,rfl⟩
  · exact List.count_eq_zero.mpr fun hmem => (hx.life.gone q hmem).2 h
  · by_contra hne
    refine h (hx.life.remains q hpos hle fun hmem => hne ?_)
    exact List.count_eq_one_of_mem hx.life.nodup hmem
  · constructor
    · intro h
      by_contra hu
      exact h (hx.pool.unused s (Bool.of_not_eq_true hu)).1
    · exact fun h => (hx.pool.used s h).2.1
  · cases hi : x.st.mqPrivBuf i with
    | none =>
      obtain ⟨hf,hd⟩ := hx.descs.closed i hi
      rw [hf, hd]
      exact ⟨⟨nofun,fun h => absurd rfl h⟩,fun h => absurd rfl h,fun h => absurd rfl h⟩
    | some a =>
      obtain ⟨p,-,-,-,hf,hd⟩ := hx.descs.desc i a hi
      rw [hf, hd]
      exact ⟨⟨fun _ => nofun,fun _ => rfl⟩,fun _ => nofun,fun _ => nofun⟩

/-- A queue in use is deleted. -/
theorem PoolInv.delete {queueID : Nat} (hp : PoolInv st) (hs : (st.allQueue s).inUsed = true) (hid : getQueueIndex queueID = s)
    (ha : st'.allQueue = Function.update st.allQueue s ⟨queueID,false⟩) (hf : st'.freeQueueList = st.freeQueueList ++ [s])
    (ht : ∀ t, t ≠ s → st'.queueTable t = st.queueTable t)
    (hd : (st'.queueTable s).mqcb = none ∧ (st'.queueTable s).mqName = none ∧ (st'.queueTable s).mqPersonal = none) : PoolInv st' := by
  have hself : st'.allQueue s = ⟨queueID,false⟩ := by rw [ha, Function.update_self]
  have hother : ∀ t, t ≠ s → st'.allQueue t = st.allQueue t := fun t hne => by rw [ha, Function.update_of_ne hne]
  refine ⟨?_,fun i hi => ?_,fun i hi => ?_,fun t h => ?_,fun t h => ?_⟩
  · rw [hf]
    refine List.nodup_append.mpr ⟨hp.nodup,List.nodup_singleton s,fun b hb c hc he => ?_⟩
    rw [he, List.mem_singleton.mp hc] at hb
    exact absurd (hs.symm.trans (hp.free s hb).2) (by decide)
  · by_cases hne : i = s
    · rw [hne, hself]
      exact ⟨(hp.used s hs).1,rfl⟩
    · rw [hf] at hi
      rw [hother i hne]
      exact hp.free i ((List.mem_append.mp hi).resolve_right fun h => hne (List.mem_singleton.mp h))
  · by_cases hne : i = s
    · rw [hne, hself]
      exact hid
    · rw [hother i hne]
      exact hp.index i hi
  · by_cases hne : t = s
    · rw [hne, hself] at h
      exact absurd h Bool.false_ne_true
    · rw [hother t hne] at h ⊢
      rw [ht t hne]
      exact hp.used t h
  · by_cases hne : t = s
    · rw [hne]
      exact hd
    · rw [hother t hne] at h
      rw [ht t hne]
      exact hp.unused t h

theorem PoolInv.queueDelete_eq {queueID : Nat} (hp : PoolInv st) (hs : (st.allQueue s).inUsed = true)
    (hid : queueID = (st.allQueue s).queueID) (ha : st'.allQueue = st.allQueue) : losQueueDelete st' queueID false =
      ({ st' with
        allQueue := Function.update st'.allQueue s ⟨setQueueId (getQueueCount queueID + 1) s,false⟩
        freeQueueList := st'.freeQueueList ++ [s] },.ok) := by
  have hlt := (hp.used s hs).1
  have hidx : getQueueIndex queueID = s := hid ▸ hp.index s hlt
  rw [losQueueDelete, hidx, if_neg (Nat.not_le.mpr hlt), ha]
  exact (if_neg (by rw [hs, hid]; exact fun h => h.elim (fun h => h rfl) nofun)).trans (if_neg Bool.false_ne_true)

/-- The state after DoMqueueDelete has deleted the queue. -/
def MqState.deleted (st : MqState) (s : Nat) : MqState :=
  { st.setSlot s { st.queueTable s with mqName := none, mqcb := none, modeData := 0, euid := NO_ID, egid := NO_ID } with
    allQueue := Function.update st.allQueue s ⟨setQueueId (getQueueCount (st.queueTable s).mqId + 1) s,false⟩
    freeQueueList := st.freeQueueList ++ [s] }

theorem PoolInv.doMqueueDelete_eq (hp : PoolInv st) (hs : (st.allQueue s).inUsed = true) :
    doMqueueDelete st s false = (st.deleted s,⟨0,none⟩) := by
  obtain ⟨-,-,hid,-⟩ := hp.used s hs
  have ha : ∀ q, (st.setSlot s q).allQueue = st.allQueue := fun q => rfl
  rw [doMqueueDelete, hp.queueDelete_eq hs hid (ha _)]
  rfl

theorem setSlot_self (st : MqState) (s : Nat) (q : Mqarray) : (st.setSlot s q).queueTable s = q := Function.update_self ..

theorem setSlot_of_ne {t : Nat} (st : MqState) (q : Mqarray) (h : t ≠ s) : (st.setSlot s q).queueTable t = st.queueTable t :=
  Function.update_of_ne h ..

theorem LifeInv.unlinked_name (hx : LifeInv x) (hf : (x.st.queueTable s).unlinkflag = true) (hn : (x.st.queueTable s).mqName = some n) :
    x.linked n = none := by
  cases hl : x.linked n with
  | none => rfl
  | some q =>
    obtain ⟨t,-,hft,hnt,-⟩ := hx.linked n q hl
    rw [hx.unique t s n hnt hn, hf] at hft
    exact absurd hft (by decide)

/-- A queue is deleted, whose name is not linked any more. -/
theorem LifeInv.delete (hx : LifeInv x) (linked : Name → Option Nat) (hs : (x.st.allQueue s).inUsed = true)
    (ha : (st'.allQueue s).inUsed = false) (hat : ∀ t, t ≠ s → st'.allQueue t = x.st.allQueue t)
    (ht : ∀ t, t ≠ s → st'.queueTable t = x.st.queueTable t) (hn : (st'.queueTable s).mqName = none)
    (hl : ∀ n, linked n = if (x.st.queueTable s).mqName = some n then none else x.linked n) :
    LifeInv { x with st := st', linked := linked, deletes := x.deletes ++ [x.born s] } := by
  have hne : ∀ t, (st'.allQueue t).inUsed = true → t ≠ s := by
    rintro t h rfl
    exact absurd (ha.symm.trans h) (by decide)
  have hname : ∀ t, t ≠ s → ∀ n, (x.st.queueTable t).mqName = some n → linked n = x.linked n := by
    intro t hts n hnt
    rw [hl, if_neg fun hns => hts (hx.unique t s n hnt hns)]
  have hexists : ∀ q, (∃ t, (st'.allQueue t).inUsed = true ∧ x.born t = q) ↔ x.Exists q ∧ q ≠ x.born s := by
    intro q
    constructor
    · rintro ⟨t,h,rfl⟩
      have hts := hne t h
      rw [hat t hts] at h
      exact ⟨⟨t,h,rfl⟩,fun he => hts (hx.inj t s h hs he)⟩
    · rintro ⟨⟨t,h,rfl⟩,hq⟩
      have hts : t ≠ s := fun he => hq (he ▸ rfl)
      exact ⟨t,(hat t hts).symm ▸ h,rfl⟩
  refine ⟨fun t h hf => ?_,fun t h hf => ?_,fun n q hq => ?_,fun t u n h h' => ?_,fun t h => ?_,fun t u h h' => ?_,?_,fun q hq => ?_,
    fun q hpos hle hq => ?_⟩
  · have hts := hne t h
    simp only at hf
    rw [hat t hts] at h
    rw [ht t hts] at hf
    obtain ⟨n,hn,hln⟩ := hx.name t h hf
    refine ⟨n,?_,(hname t hts n hn).trans hln⟩
    simp only
    rw [ht t hts]
    exact hn
  · have hts := hne t h
    simp only at hf ⊢
    rw [hat t hts] at h
    rw [ht t hts] at hf ⊢
    exact hx.unlinked t h hf
  · simp only at hq
    rw [hl] at hq
    split_ifs at hq with hns
    obtain ⟨t,h,hf,hnt,hb⟩ := hx.linked n q hq
    have hts : t ≠ s := by
      rintro rfl
      exact hns hnt
    refine ⟨t,?_⟩
    simp only
    rw [hat t hts, ht t hts]
    exact ⟨h,hf,hnt,hb⟩
  · simp only at h h'
    have hts : t ≠ s := by
      rintro rfl
      rw [hn] at h
      exact absurd h nofun
    have hus : u ≠ s := by
      rintro rfl
      rw [hn] at h'
      exact absurd h' nofun
    rw [ht t hts] at h
    rw [ht u hus] at h'
    exact hx.unique t u n h h'
  · exact hx.born t (hat t (hne t h) ▸ h)
  · exact hx.inj t u (hat t (hne t h) ▸ h) (hat u (hne u h') ▸ h')
  · refine List.nodup_append.mpr ⟨hx.nodup,List.nodup_singleton _,fun b hb c hc he => ?_⟩
    rw [he, List.mem_singleton.mp hc] at hb
    exact (hx.gone _ hb).2 ⟨s,hs,rfl⟩
  · rcases List.mem_append.mp hq with hq | hq
    · obtain ⟨hle,hg⟩ := hx.gone q hq
      exact ⟨hle,fun h => hg ((hexists q).mp h).1⟩
    · rw [List.mem_singleton.mp hq]
      exact ⟨(hx.born s hs).2,fun h => ((hexists _).mp h).2 rfl⟩
  · simp only [List.mem_append, List.mem_singleton, not_or] at hq
    exact (hexists q).mpr ⟨hx.remains q hpos hle hq.1,hq.2⟩

/-- What leaves the queues in use, their names and the links as they are. -/
theorem LifeInv.frame {y : MqHist} (hx : LifeInv x) (ha : ∀ s, (y.st.allQueue s).inUsed = (x.st.allQueue s).inUsed)
    (hb : y.born = x.born) (hl : y.linked = x.linked) (hc : y.created = x.created) (hd : y.deletes = x.deletes)
    (ht : ∀ s, (y.st.queueTable s).mqName = (x.st.queueTable s).mqName ∧
      ((x.st.allQueue s).inUsed = true → (y.st.queueTable s).unlinkflag = (x.st.queueTable s).unlinkflag))
    (hm : ∀ s, (x.st.queueTable s).unlinkflag = true → (x.st.queueTable s).mqPersonal ≠ none → (y.st.queueTable s).mqPersonal ≠ none) :
    LifeInv y := by
  have hexists : ∀ q, y.Exists q ↔ x.Exists q := by
    intro q
    rw [MqHist.Exists, MqHist.Exists, hb]
    exact exists_congr fun s => by rw [ha]
  refine ⟨?_,?_,?_,?_,?_,?_,hd ▸ hx.nodup,?_,?_⟩
  · intro s h hf
    rw [ha] at h
    rw [(ht s).2 h] at hf
    rw [(ht s).1, hl, hb]
    exact hx.name s h hf
  · intro s h hf
    rw [ha] at h
    rw [(ht s).2 h] at hf
    exact hm s hf (hx.unlinked s h hf)
  · intro n q hq
    rw [hl] at hq
    obtain ⟨s,h⟩ := hx.linked n q hq
    refine ⟨s,?_⟩
    rw [ha, hb, (ht s).1, (ht s).2 h.1]
    exact h
  · intro s t n h h'
    rw [(ht s).1] at h
    rw [(ht t).1] at h'
    exact hx.unique s t n h h'
  · intro s h
    rw [ha] at h
    rw [hb, hc]
    exact hx.born s h
  · intro s t h h'
    rw [ha] at h h'
    rw [hb]
    exact hx.inj s t h h'
  · intro q hq
    rw [hd] at hq
    rw [hc, hexists]
    exact hx.gone q hq
  · intro q hpos hle hq
    rw [hd] at hq
    rw [hc] at hle
    exact (hexists q).mpr (hx.remains q hpos hle hq)

theorem LifeInv.congr {y : MqHist} (hx : LifeInv x) (ha : y.st.allQueue = x.st.allQueue) (hb : y.born = x.born) (hl : y.linked = x.linked)
    (hc : y.created = x.created) (hd : y.deletes = x.deletes)
    (ht : ∀ s, (y.st.queueTable s).mqName = (x.st.queueTable s).mqName ∧
      (y.st.queueTable s).unlinkflag = (x.st.queueTable s).unlinkflag)
    (hm : ∀ s, (x.st.queueTable s).unlinkflag = true → (x.st.queueTable s).mqPersonal ≠ none → (y.st.queueTable s).mqPersonal ≠ none) :
    LifeInv y :=
  hx.frame (fun s => by rw [ha]) hb hl hc hd (fun s => ⟨(ht s).1,fun _ => (ht s).2⟩) hm

section
variable {y : MqHist} {p : Mqpersonal}

/-- What leaves the nodes and the descriptors as they are. -/
theorem DescInv.congr (hx : DescInv x) (hh : y.st.heap = x.st.heap) (hp : y.st.mqPrivBuf = x.st.mqPrivBuf) (hf : y.st.fdSet = x.st.fdSet)
    (hd : y.desc = x.desc) (hm : ∀ s, (y.st.queueTable s).mqPersonal = (x.st.queueTable s).mqPersonal)
    (hb : ∀ s, (x.st.queueTable s).mqPersonal ≠ none → y.born s = x.born s) : DescInv y := by
  have hnode : ∀ a, y.st.node a = x.st.node a := fun a => by rw [MqState.node, MqState.node, hh]
  refine ⟨fun s => ?_,fun i a hi => ?_,fun i hi => ?_,?_⟩
  · refine (hx.lists s).congr (hm s) (fun a _ _ _ => ?_) fun a => ?_
    · rw [MqState.next, MqState.next, hnode]
    · rw [hp, hnode]
  · rw [hp] at hi
    obtain ⟨q,hq,hs,hlt,hset,hdi⟩ := hx.desc i a hi
    have hne := hx.nonempty hi
    rw [node_eq hq] at hne
    refine ⟨q,hh ▸ hq,hs,hlt,hf ▸ hset,?_⟩
    rw [hd, hb _ hne]
    exact hdi
  · rw [hp] at hi
    rw [hf, hd]
    exact hx.closed i hi
  · rw [hp]
    exact hx.distinct

theorem node_update (st : MqState) (a b : Nat) (q : Option Mqpersonal) :
    (st.setNode a q).node b = if b = a then q.getD default else st.node b := by
  rw [MqState.node, MqState.setNode]
  simp only [Function.update_apply]
  split_ifs <;> rfl

/-- A new node in front of a list, with a descriptor of its own. -/
theorem DescInv.push (hx : DescInv x) (ha : x.st.heap a = none) (hi : x.st.mqPrivBuf i = none) (hlt : i < MAX_MQ_FD)
    (hp : p.mqPosixdes = s ∧ p.mqNext = (x.st.queueTable s).mqPersonal ∧ p.mqStatus = MQ_USE_MAGIC ∧ p.mqRefcount = 0)
    (hh : y.st.heap = Function.update x.st.heap a (some p)) (hb : y.st.mqPrivBuf = Function.update x.st.mqPrivBuf i (some a))
    (hf : y.st.fdSet = Function.update x.st.fdSet i true) (hd : y.desc = Function.update x.desc i (some ⟨x.born s,0⟩))
    (hs : (y.st.queueTable s).mqPersonal = some a)
    (ht : ∀ t, t ≠ s → (y.st.queueTable t).mqPersonal = (x.st.queueTable t).mqPersonal) (hborn : y.born = x.born) : DescInv y := by
  obtain ⟨hpos,hnext,hstatus,href⟩ := hp
  have hnode : ∀ b, y.st.node b = if b = a then p else x.st.node b := fun b => by
    rw [MqState.node, hh, Function.update_apply]
    split_ifs <;> rfl
  have hfresh : ∀ j b, x.st.mqPrivBuf j = some b → b ≠ a := by
    rintro j b hj rfl
    obtain ⟨q,hq,-⟩ := hx.desc j b hj
    exact absurd (ha.symm.trans hq) nofun
  have hne : ∀ j b, x.st.mqPrivBuf j = some b → j ≠ i := by
    rintro j b hj rfl
    exact absurd (hi.symm.trans hj) nofun
  have hbuf : ∀ j b, y.st.mqPrivBuf j = some b ↔ (j = i ∧ b = a) ∨ x.st.mqPrivBuf j = some b := by
    intro j b
    rw [hb]
    by_cases hj : j = i
    · rw [hj, Function.update_self, hi]
      exact ⟨fun h => .inl ⟨rfl,(Option.some.inj h).symm⟩,fun h => h.elim (fun h => h.2 ▸ rfl) nofun⟩
    · rw [Function.update_of_ne hj]
      exact ⟨.inr,fun h => h.resolve_left fun h => hj h.1⟩
  have hold : ∀ t b, (∃ j, x.st.mqPrivBuf j = some b ∧ (y.st.node b).mqPosixdes = t) ↔
      ∃ j, x.st.mqPrivBuf j = some b ∧ (x.st.node b).mqPosixdes = t := by
    intro t b
    refine exists_congr fun j => and_congr_right fun hj => ?_
    rw [hnode, if_neg (hfresh j b hj)]
  refine ⟨fun t => ?_,fun j b hj => ?_,fun j hj => ?_,fun j k b hj hk => ?_⟩
  · by_cases hts : t = s
    · subst hts
      obtain ⟨l,hc,hnd,hl⟩ := hx.lists t
      have hmem : a ∉ l := fun h => by
        obtain ⟨j,hj,-⟩ := (hl a).mp h
        exact hfresh j a hj rfl
      refine ⟨a :: l,?_,List.nodup_cons.mpr ⟨hmem,hnd⟩,fun b => ?_⟩
      · rw [hs]
        refine ⟨rfl,?_⟩
        rw [MqState.next, hnode, if_pos rfl, hnext]
        refine hc.congr fun b hb => ?_
        rw [MqState.next, MqState.next, hnode, if_neg fun he : b = a => hmem (he ▸ hb)]
      · rw [List.mem_cons, hl b, ← hold]
        constructor
        · rintro (rfl | ⟨j,hj,hp⟩)
          · exact ⟨i,(hbuf i b).mpr (.inl ⟨rfl,rfl⟩),by rw [hnode, if_pos rfl, hpos]⟩
          · exact ⟨j,(hbuf j b).mpr (.inr hj),hp⟩
        · rintro ⟨j,hj,hp⟩
          rcases (hbuf j b).mp hj with ⟨-,rfl⟩ | hj
          · exact .inl rfl
          · exact .inr ⟨j,hj,hp⟩
    · refine (hx.lists t).congr (ht t hts) (fun b j hj _ => ?_) fun b => ?_
      · rw [MqState.next, MqState.next, hnode, if_neg (hfresh j b hj)]
      · rw [← hold]
        refine exists_congr fun j => ⟨fun h => ⟨((hbuf j b).mp h.1).resolve_left fun h' => hts ?_,h.2⟩,
          fun h => ⟨(hbuf j b).mpr (.inr h.1),h.2⟩⟩
        have hpt := h.2
        rw [h'.2, hnode, if_pos rfl, hpos] at hpt
        exact hpt.symm
  · rcases (hbuf j b).mp hj with ⟨rfl,rfl⟩ | hj
    · refine ⟨p,by rw [hh, Function.update_self],hstatus,hlt,by rw [hf, Function.update_self],?_⟩
      rw [hd, Function.update_self, hborn, hpos, href]
    · obtain ⟨q,hq,hst,hjlt,hset,hdj⟩ := hx.desc j b hj
      refine ⟨q,by rw [hh, Function.update_of_ne (hfresh j b hj), hq],hst,hjlt,?_,?_⟩
      · rw [hf, Function.update_of_ne (hne j b hj), hset]
      · rw [hd, Function.update_of_ne (hne j b hj), hborn, hdj]
  · rw [hb] at hj
    have hji : j ≠ i := by
      rintro rfl
      rw [Function.update_self] at hj
      exact absurd hj nofun
    rw [Function.update_of_ne hji] at hj
    rw [hf, hd, Function.update_of_ne hji, Function.update_of_ne hji]
    exact hx.closed j hj
  · rcases (hbuf j b).mp hj with ⟨rfl,rfl⟩ | hj <;> rcases (hbuf k b).mp hk with ⟨rfl,hba⟩ | hk
    · rfl
    · exact absurd rfl (hfresh k b hk)
    · exact absurd hba (hfresh j b hj)
    · exact hx.distinct j k b hj hk

/-- One more reference, or one less. -/
theorem DescInv.refcount (hx : DescInv x) (hi : x.st.mqPrivBuf i = some a) (refs : Nat)
    (hst : y.st = x.st.setNode a (some { x.st.node a with mqRefcount := refs }))
    (hd : y.desc = Function.update x.desc i (some ⟨x.born (x.st.node a).mqPosixdes,refs⟩)) (hborn : y.born = x.born) : DescInv y := by
  have hnode : ∀ b, (y.st.node b).mqPosixdes = (x.st.node b).mqPosixdes ∧ y.st.next b = x.st.next b := by
    intro b
    rw [MqState.next, MqState.next, hst, node_update]
    split_ifs with hb
    · rw [hb]
      exact ⟨rfl,rfl⟩
    · exact ⟨rfl,rfl⟩
  have hbuf : y.st.mqPrivBuf = x.st.mqPrivBuf := by rw [hst]; rfl
  refine ⟨fun s => ?_,fun j b hj => ?_,fun j hj => ?_,?_⟩
  · refine (hx.lists s).congr (by rw [hst]; rfl) (fun b _ _ _ => (hnode b).2) fun b => ?_
    rw [hbuf, (hnode b).1]
  · rw [hbuf] at hj
    obtain ⟨q,hq,hs,hlt,hset,hdj⟩ := hx.desc j b hj
    by_cases hba : b = a
    · have hji := hx.distinct j i a (hba ▸ hj) hi
      subst hji
      subst hba
      have hnq := node_eq hq
      refine ⟨_,by rw [hst]; exact Function.update_self ..,by rw [hnq]; exact hs,hlt,by rw [hst]; exact hset,?_⟩
      rw [hd, Function.update_self, hborn]
    · have hji : j ≠ i := by
        rintro rfl
        exact hba (Option.some.inj (hj.symm.trans hi))
      refine ⟨q,by rw [hst]; exact (Function.update_of_ne hba ..).trans hq,hs,hlt,by rw [hst]; exact hset,?_⟩
      rw [hd, Function.update_of_ne hji, hborn, hdj]
  · rw [hbuf] at hj
    obtain ⟨hf,hn⟩ := hx.closed j hj
    have hji : j ≠ i := by
      rintro rfl
      exact absurd (hj.symm.trans hi) nofun
    refine ⟨by rw [hst]; exact hf,?_⟩
    rw [hd, Function.update_of_ne hji, hn]
  · rw [hbuf]
    exact hx.distinct

end

end LiteOsKernel.Posix.Mqueue
