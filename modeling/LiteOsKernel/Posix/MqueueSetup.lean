import LiteOsKernel.Posix.MqueueCreate
import LiteOsKernel.Posix.MqueueClose

/-! How an mq_open ends, and that each end keeps what holds of the message queues between two calls. -/
namespace LiteOsKernel.Posix.Mqueue

variable {st st' : MqState} {x : MqHist} {n : Name} {s a i : Nat}

/-- What an mq_open without a descriptor is recorded as. -/
def failedOpen (x : MqHist) (name : Name) (args : OpenArgs) (e : Errno) : Opened :=
  ⟨x.linked name,args.openFlag &&& O_CREAT ≠ 0,args.openFlag &&& O_EXCL ≠ 0,args.attr.valid,.failed (some e)⟩

/-- mq_open up to the node: it fails, or the queue found under the name, or created for it, has a new node. y is what there is then. -/
inductive Personal (x : MqHist) (name : Name) (args : OpenArgs) : MqState × Except Errno Nat → Prop
  | failed {st' : MqState} {e : Errno} (hx : MqInv { x with st := st' })
      (hn : ∀ s, (st'.queueTable s).mqName = (x.st.queueTable s).mqName) (he : (failedOpen x name args e).AsIfGone) :
      Personal x name args (st',.error e)
  | opened {st' : MqState} {s a : Nat} {p : Mqpersonal} (hn : (x.st.queueTable s).mqName = some name)
      (hflag : (x.st.queueTable s).unlinkflag = false) (hexcl : args.openFlag &&& O_CREAT ≠ 0 → args.openFlag &&& O_EXCL = 0)
      (ha : x.st.heap a = none) (hp : Fresh x.st s p) (hcore : SameCore (x.st.push s a p) st') :
      Personal x name args (st',.ok a)
  | created {st' : MqState} {s a : Nat} {p : Mqpersonal} {freeQueueList : List Nat} (hname : getMqueueCBByName x.st name = none)
      (hcreat : args.openFlag &&& O_CREAT ≠ 0) (hfree : x.st.freeQueueList = s :: freeQueueList)
      (ha : x.st.heap a = none) (hp : Fresh (x.st.create s freeQueueList name) s p)
      (hcore : SameCore ((x.st.create s freeQueueList name).push s a p) st') : Personal x name args (st',.ok a)

private theorem LifeInv.linked_none {name : Name} (hx : MqInv x) (h : getMqueueCBByName x.st name = none) : x.linked name = none := by
  cases hl : x.linked name with
  | none => rfl
  | some q =>
    obtain ⟨s,-,-,hn,-⟩ := hx.life.linked name q hl
    exact absurd hn (hx.pool.byName_none h s)

private theorem LifeInv.linked_some {name : Name} (hx : MqInv x) (hn : (x.st.queueTable s).mqName = some name)
    (hf : (x.st.queueTable s).unlinkflag = false) : x.linked name = some (x.born s) := by
  obtain ⟨n,hn',hl⟩ := hx.life.name s (hx.pool.inUsed_of_name hn) hf
  rw [← Option.some.inj (hn'.symm.trans hn)]
  exact hl

/-- Errors that say nothing about the name. -/
private theorem asIfGone_other {e : Errno} (args : OpenArgs) (name : Name) (h1 : e ≠ .ENOENT) (h2 : e ≠ .EEXIST) (h3 : e ≠ .EINVAL)
    (hl : x.linked name = none → args.openFlag &&& O_CREAT ≠ 0)
    (hx : x.linked name ≠ none → args.openFlag &&& O_CREAT ≠ 0 → args.openFlag &&& O_EXCL = 0) :
    (failedOpen x name args e).AsIfGone := by
  refine ⟨⟨fun h => absurd (Option.some.inj h) h1,fun h => ?_⟩,⟨fun h => absurd (Option.some.inj h) h2,fun h => ?_⟩,
    fun h => absurd (Option.some.inj h) h3⟩
  · exact absurd (hl h.1) (of_decide_eq_false h.2)
  · exact absurd (hx h.1 (of_decide_eq_true h.2.1)) (of_decide_eq_true h.2.2)

private theorem asIfGone_invalid (args : OpenArgs) (name : Name) (hl : x.linked name = none) (hc : args.openFlag &&& O_CREAT ≠ 0)
    (hv : args.attr.valid = false) : (failedOpen x name args .EINVAL).AsIfGone := by
  refine ⟨⟨nofun,fun h => ?_⟩,⟨nofun,fun h => ?_⟩,fun _ => ⟨hl,decide_eq_true hc,hv⟩⟩
  · exact absurd hc (of_decide_eq_false h.2)
  · exact absurd hl h.1

private theorem doMqueueOpen_cases {name : Name} {args : OpenArgs} (hx : MqInv x) (hn : (x.st.queueTable s).mqName = some name)
    (hflag : (x.st.queueTable s).unlinkflag = false) (hexcl : args.openFlag &&& O_CREAT ≠ 0 → args.openFlag &&& O_EXCL = 0)
    (hfresh : ∀ a, args.personal = some a → x.st.heap a = none) :
    (∃ e, doMqueueOpen x.st s args = (x.st,.error e) ∧ (failedOpen x name args e).AsIfGone) ∨
    ∃ a p, doMqueueOpen x.st s args = (x.st.push s a p,.ok a) ∧ x.st.heap a = none ∧ Fresh x.st s p := by
  have hl := LifeInv.linked_some hx hn hflag
  rw [doMqueueOpen, if_neg (by rw [hflag]; exact Bool.false_ne_true)]
  cases ha : args.personal with
  | none =>
    refine .inl ⟨_,rfl,asIfGone_other args name nofun nofun nofun (fun h => absurd (hl.symm.trans h) nofun) fun _ => hexcl⟩
  | some a => exact .inr ⟨a,_,rfl,hfresh a ha,rfl,rfl,rfl,rfl⟩

theorem losQueueCreate_cases (st : MqState) (len maxMsgSize : Nat) (queue : Bool) :
    (∃ e, losQueueCreate st len maxMsgSize queue = (st,.error e) ∧
      (e = .ENOSPC ∨ e = .ENFILE ∨ e = .EINVAL ∧ (len = 0 ∨ maxMsgSize = 0 ∨ OS_NULL_SHORT - 4 < maxMsgSize))) ∨
    ∃ s freeQueueList, st.freeQueueList = s :: freeQueueList ∧ losQueueCreate st len maxMsgSize queue =
      ({ st with
        freeQueueList := freeQueueList
        allQueue := Function.update st.allQueue s ⟨(st.allQueue s).queueID,true⟩ },.ok (st.allQueue s).queueID) := by
  rw [losQueueCreate]
  split_ifs with h1 h2 h3
  · exact .inl ⟨_,rfl,.inr (.inr ⟨rfl,.inr (.inr h1)⟩)⟩
  · exact .inl ⟨_,rfl,.inr (.inr ⟨rfl,h2.elim .inl fun h => .inr (.inl h)⟩)⟩
  · exact .inl ⟨_,rfl,.inl rfl⟩
  · cases hf : st.freeQueueList with
    | nil => exact .inl ⟨_,rfl,.inr (.inl rfl)⟩
    | cons s freeQueueList => exact .inr ⟨s,freeQueueList,rfl,rfl⟩

/-- What passes GetMqueueAttr and is refused by LOS_QueueCreate was not valid. -/
private theorem attr_invalid {arg : AttrArg} {attr : MqAttr} (h : getMqueueAttr arg = .ok attr)
    (hz : attr.mqMaxmsg.toNat = 0 ∨ attr.mqMsgsize.toNat = 0 ∨ OS_NULL_SHORT - 4 < attr.mqMsgsize.toNat) : arg.valid = false := by
  cases arg with
  | null =>
    obtain rfl := Except.ok.inj h
    exact absurd hz (by decide)
  | fault => exact absurd h nofun
  | given a =>
    rw [getMqueueAttr] at h
    split_ifs at h with hr
    obtain rfl := Except.ok.inj h
    refine decide_eq_false fun hv => ?_
    have hshort : OS_NULL_SHORT = 0xFFFF := rfl
    omega

/-- The kernel queue is created and deleted again, for want of a node. -/
private theorem MqInv.rotate {freeQueueList : List Nat} {queueID : Nat} (hx : MqInv x) (hfree : x.st.freeQueueList = s :: freeQueueList)
    (hid : getQueueIndex queueID = s) (ha : st'.allQueue = Function.update x.st.allQueue s ⟨queueID,false⟩)
    (hf : st'.freeQueueList = freeQueueList ++ [s]) (hh : st'.heap = x.st.heap) (hfd : st'.fdSet = x.st.fdSet)
    (hb : st'.mqPrivBuf = x.st.mqPrivBuf) (ht : ∀ t, t ≠ s → st'.queueTable t = x.st.queueTable t)
    (hd : (st'.queueTable s).mqcb = none ∧ (st'.queueTable s).mqName = none ∧ (st'.queueTable s).mqPersonal = none) :
    MqInv { x with st := st' } ∧ ∀ t, (st'.queueTable t).mqName = (x.st.queueTable t).mqName := by
  have hun : (x.st.allQueue s).inUsed = false := (hx.pool.free s (hfree ▸ List.mem_cons_self)).2
  obtain ⟨-,hname,hpers⟩ := hx.pool.unused s hun
  obtain ⟨hd1,hd2,hd3⟩ := hd
  have hnames : ∀ t, (st'.queueTable t).mqName = (x.st.queueTable t).mqName := by
    intro t
    by_cases hts : t = s
    · rw [hts, hd2, hname]
    · rw [ht t hts]
  have hperss : ∀ t, (st'.queueTable t).mqPersonal = (x.st.queueTable t).mqPersonal := by
    intro t
    by_cases hts : t = s
    · rw [hts, hd3, hpers]
    · rw [ht t hts]
  refine ⟨⟨?_,?_,?_,hx.opens⟩,hnames⟩
  · have hcreate := hx.pool.create hfree []
    refine hcreate.delete (by rw [create_queue]) hid ?_ hf (fun t hts => ?_) ⟨hd1,hd2,hd3⟩
    · rw [ha]
      exact (Function.update_idem ..).symm
    · rw [ht t hts, create_other x.st _ _ hts]
  · refine hx.life.frame (fun t => ?_) rfl rfl rfl rfl (fun t => ⟨hnames t,fun h => ?_⟩) fun t _ hne => ?_
    · simp only
      by_cases hts : t = s
      · rw [hts, ha, Function.update_self, hun]
      · rw [ha, Function.update_of_ne hts]
    · simp only
      rw [ht t]
      rintro rfl
      exact absurd (hun.symm.trans h) (by decide)
    · simp only
      rw [hperss]
      exact hne
  · exact hx.descs.congr hh hb hfd rfl hperss fun _ _ => rfl

/-- The rest of DoMqueueCreate, on the kernel queue and the control block that were taken. -/
private theorem mqueueCBSetup_cases {name : Name} {args : OpenArgs} {attr : MqAttr} {freeQueueList : List Nat} (hx : MqInv x)
    (hfree : x.st.freeQueueList = s :: freeQueueList) (hun : (x.st.allQueue s).inUsed = false) (hmem : args.nameMem = true)
    (hfresh : ∀ a, args.personal = some a → x.st.heap a = none)
    (hother : ∀ e, e ≠ .ENOENT → e ≠ .EEXIST → e ≠ .EINVAL → (failedOpen x name args e).AsIfGone)
    (hst : st.allQueue = (x.st.create s freeQueueList name).allQueue ∧ st.freeQueueList = freeQueueList ∧ st.heap = x.st.heap ∧
      st.fdSet = x.st.fdSet ∧ st.mqPrivBuf = x.st.mqPrivBuf)
    (hslot : st.queueTable s = { x.st.queueTable s with mqId := (x.st.allQueue s).queueID })
    (hrest : ∀ t, t ≠ s → st.queueTable t = x.st.queueTable t) :
    (∃ st' e, mqueueCBSetup st s attr name args = (st',.error e) ∧ MqInv { x with st := st' } ∧
      (∀ t, (st'.queueTable t).mqName = (x.st.queueTable t).mqName) ∧ (failedOpen x name args e).AsIfGone) ∨
    ∃ st' a p, mqueueCBSetup st s attr name args = (st',.ok a) ∧ x.st.heap a = none ∧
      Fresh (x.st.create s freeQueueList name) s p ∧ SameCore ((x.st.create s freeQueueList name).push s a p) st' := by
  obtain ⟨hall,hf,hh,hfd,hb⟩ := hst
  obtain ⟨-,-,hpers⟩ := hx.pool.unused s hun
  obtain ⟨hs,-⟩ := hx.pool.free s (hfree ▸ List.mem_cons_self)
  have hid : (st.queueTable s).mqId = (x.st.allQueue s).queueID := by rw [hslot]
  have hbyid : getMqueueCBByID st (x.st.allQueue s).queueID = some s := by
    rw [getMqueueCBByID, hx.pool.index s hs, hall, create_queue]
    exact if_neg fun h => h.elim (Nat.not_le.mpr hs) fun h => h rfl
  rw [mqueueCBSetup, if_neg (by rw [hmem]; exact nofun), hid, hbyid]
  simp only
  cases ha : args.personal with
  | none =>
    left
    have hcreate := hx.pool.create hfree name
    have hdel := fun q => hcreate.queueDelete_eq (by rw [create_queue])
      (show (x.st.allQueue s).queueID = _ by rw [create_queue]) (show (st.setSlot s q).allQueue = _ from hall)
    simp only
    rw [hdel]
    refine ⟨_,_,rfl,?_⟩
    rw [← and_assoc]
    refine ⟨hx.rotate hfree (getQueueIndex_set hs (getQueueCount (x.st.allQueue s).queueID + 1)) ?_ ?_ hh hfd hb
      (fun t hts => (setSlot_of_ne st _ hts).trans (hrest t hts)) ?_,hother _ nofun nofun nofun⟩
    · change Function.update st.allQueue s _ = _
      rw [hall]
      exact Function.update_idem ..
    · change st.freeQueueList ++ [s] = _
      rw [hf]
    · have hself : ∀ q, (st.setSlot s q).queueTable s = q := setSlot_self st s
      simp only
      rw [hself]
      exact ⟨rfl,rfl,rfl⟩
  | some a =>
    right
    let p : Mqpersonal := ⟨s,none,args.openFlag ||| (attr.mqFlags &&& FNONBLOCK),args.mode,MQ_USE_MAGIC,0⟩
    refine ⟨_,a,p,rfl,hfresh a ha,⟨rfl,?_,rfl,rfl⟩,⟨hall,hf,?_,hfd,hb⟩,fun t => ?_⟩
    · rw [create_slot]
      exact hpers.symm
    · change Function.update st.heap a _ = Function.update x.st.heap a _
      rw [hh]
    · by_cases hts : t = s
      · rw [hts, push_slot, create_slot, mqueueCBInit]
        have hself : ∀ q q', (((st.setSlot s q).setSlot s q').setNode a (some p)).queueTable s = q' := fun q q' => setSlot_self ..
        rw [hself, setSlot_self]
        exact ⟨rfl,rfl,rfl,rfl,rfl,rfl⟩
      · rw [push_other _ hts, create_other _ _ _ hts, ← hrest t hts]
        have hne : ∀ q q', ((st.setSlot s q).setSlot s q').queueTable t = st.queueTable t := fun q q' =>
          (setSlot_of_ne _ _ hts).trans (setSlot_of_ne _ _ hts)
        exact ⟨congrArg _ (hne ..),congrArg _ (hne ..),congrArg _ (hne ..),congrArg _ (hne ..),congrArg _ (hne ..),congrArg _ (hne ..)⟩

private theorem doMqueueCreate_cases {name : Name} {args : OpenArgs} {attr : MqAttr} (hx : MqInv x) (hname : getMqueueCBByName x.st name = none)
    (hcreat : args.openFlag &&& O_CREAT ≠ 0) (hattr : getMqueueAttr args.attr = .ok attr)
    (hok : ∀ st mqueueID, losQueueCreate x.st attr.mqMaxmsg.toNat attr.mqMsgsize.toNat args.queueMem = (st,.ok mqueueID) →
      args.nameMem = true ∧ mqueueID < 2^31)
    (hfresh : ∀ a, args.personal = some a → x.st.heap a = none) :
    (∃ st' e, doMqueueCreate x.st attr name args = (st',.error e) ∧ MqInv { x with st := st' } ∧
      (∀ t, (st'.queueTable t).mqName = (x.st.queueTable t).mqName) ∧ (failedOpen x name args e).AsIfGone) ∨
    ∃ st' s a p freeQueueList, doMqueueCreate x.st attr name args = (st',.ok a) ∧ x.st.freeQueueList = s :: freeQueueList ∧
      x.st.heap a = none ∧ Fresh (x.st.create s freeQueueList name) s p ∧ SameCore ((x.st.create s freeQueueList name).push s a p) st' := by
  have hl := LifeInv.linked_none hx hname
  have hother : ∀ e, e ≠ .ENOENT → e ≠ .EEXIST → e ≠ .EINVAL → (failedOpen x name args e).AsIfGone := fun e h1 h2 h3 =>
    asIfGone_other args name h1 h2 h3 (fun _ => hcreat) fun h => absurd hl h
  rcases losQueueCreate_cases x.st attr.mqMaxmsg.toNat attr.mqMsgsize.toNat args.queueMem with ⟨e,hq,he⟩ | ⟨s,freeQueueList,hfree,hq⟩
  · refine .inl ⟨x.st,e,by rw [doMqueueCreate, hq],hx,fun _ => rfl,?_⟩
    rcases he with rfl | rfl | ⟨rfl,hz⟩
    · exact hother _ nofun nofun nofun
    · exact hother _ nofun nofun nofun
    · exact asIfGone_invalid args name hl hcreat (attr_invalid hattr hz)
  · obtain ⟨hmem,hlt⟩ := hok _ _ hq
    obtain ⟨hs,hun⟩ := hx.pool.free s (hfree ▸ List.mem_cons_self)
    obtain ⟨hcb,hnone,hpers⟩ := hx.pool.unused s hun
    have hidx := hx.pool.index s hs
    have hmod : (x.st.allQueue s).queueID % 2^31 = (x.st.allQueue s).queueID := Nat.mod_eq_of_lt hlt
    rw [doMqueueCreate, hq]
    simp only
    rw [hidx, if_neg fun h => h hcb, hmod]
    refine (mqueueCBSetup_cases hx hfree hun hmem hfresh hother ?_ ?_ fun t hts => ?_).imp_right ?_
    · exact ⟨rfl,rfl,rfl,rfl,rfl⟩
    · exact setSlot_self ..
    · exact setSlot_of_ne _ _ hts
    · rintro ⟨st',a,p,h,ha,hp,hcore⟩
      exact ⟨st',s,a,p,freeQueueList,h,hfree,ha,hp,hcore⟩

theorem permission_some {user : User} {before : Option Nat} (h : getPermissionOfVisitor st user before = .ok s) : before = some s := by
  cases before with
  | none => exact absurd h nofun
  | some t =>
    rw [getPermissionOfVisitor] at h
    split_ifs at h
    all_goals exact congrArg some (Except.ok.inj h)

private theorem permission_error {user : User} {before : Option Nat} {e : Errno} (h : getPermissionOfVisitor st user before = .error e) :
    (before = none ∧ e = .ENOENT) ∨ (before ≠ none ∧ e = .EACCES) := by
  cases before with
  | none => exact .inl ⟨rfl,(Except.error.inj h).symm⟩
  | some t =>
    rw [getPermissionOfVisitor] at h
    split_ifs at h
    all_goals exact .inr ⟨nofun,(Except.error.inj h).symm⟩

private theorem mqOpenPersonal_cases {name : Name} {args : OpenArgs} (hx : MqInv x)
    (hfresh : ∀ a, args.personal = some a → x.st.heap a = none)
    (hflag : ∀ s, getMqueueCBByName x.st name = some s → (x.st.queueTable s).unlinkflag = false)
    (hok : args.openFlag &&& O_CREAT ≠ 0 → getMqueueCBByName x.st name = none → ∀ attr, getMqueueAttr args.attr = .ok attr →
      ∀ st mqueueID, losQueueCreate x.st attr.mqMaxmsg.toNat attr.mqMsgsize.toNat args.queueMem = (st,.ok mqueueID) →
        args.nameMem = true ∧ mqueueID < 2^31) : Personal x name args (mqOpenPersonal x.st name args) := by
  rw [mqOpenPersonal]
  by_cases hcreat : args.openFlag &&& O_CREAT ≠ 0
  · rw [if_pos hcreat]
    cases hf : getMqueueCBByName x.st name with
    | some s =>
      have hn := (byName_some hf).2
      have hl := LifeInv.linked_some hx hn (hflag s hf)
      simp only
      by_cases hexcl : args.openFlag &&& O_EXCL ≠ 0
      · rw [if_pos hexcl]
        refine .failed hx (fun _ => rfl) ⟨⟨nofun,fun h => ?_⟩,⟨fun _ => ⟨?_,decide_eq_true hcreat,decide_eq_true hexcl⟩,fun _ => rfl⟩,nofun⟩
        · exact absurd (hl.symm.trans h.1) nofun
        · exact fun h => absurd (hl.symm.trans h) nofun
      · rw [if_neg hexcl]
        have hexcl' : args.openFlag &&& O_CREAT ≠ 0 → args.openFlag &&& O_EXCL = 0 := fun _ => not_not.mp hexcl
        rcases doMqueueOpen_cases hx hn (hflag s hf) hexcl' hfresh with ⟨e,h,he⟩ | ⟨a,p,h,ha,hp⟩
        · rw [h]
          exact .failed hx (fun _ => rfl) he
        · rw [h]
          exact .opened hn (hflag s hf) hexcl' ha hp (sameCore_mode _ _ _)
    | none =>
      have hl := LifeInv.linked_none hx hf
      simp only
      cases hattr : getMqueueAttr args.attr with
      | error e =>
        refine .failed hx (fun _ => rfl) ?_
        cases harg : args.attr with
        | null => rw [harg] at hattr; exact absurd hattr nofun
        | fault =>
          rw [harg] at hattr
          obtain rfl := Except.error.inj hattr
          exact asIfGone_other args name nofun nofun nofun (fun _ => hcreat) fun h => absurd hl h
        | given attr =>
          rw [harg, getMqueueAttr] at hattr
          split_ifs at hattr with hr
          obtain rfl := Except.error.inj hattr
          refine asIfGone_invalid args name hl hcreat ?_
          rw [harg]
          refine decide_eq_false fun hv => ?_
          omega
      | ok attr =>
        rcases doMqueueCreate_cases hx hf hcreat hattr (hok hcreat hf attr hattr) hfresh with ⟨st',e,h,hinv,hn,he⟩ |
          ⟨st',s,a,p,freeQueueList,h,hfree,ha,hp,hcore⟩
        · simp only
          rw [h]
          exact .failed hinv hn he
        · simp only
          rw [h]
          exact .created hf hcreat hfree ha hp (hcore.trans (sameCore_mode _ _ _))
  · rw [if_neg hcreat]
    have hcreat' : args.openFlag &&& O_CREAT ≠ 0 → args.openFlag &&& O_EXCL = 0 := fun h => absurd h hcreat
    cases hperm : getPermissionOfVisitor x.st args.user (getMqueueCBByName x.st name) with
    | error e =>
      refine .failed hx (fun _ => rfl) ?_
      rcases permission_error hperm with ⟨hf,rfl⟩ | ⟨hf,rfl⟩
      · have hl := LifeInv.linked_none hx hf
        exact ⟨⟨fun _ => ⟨hl,decide_eq_false hcreat⟩,fun _ => rfl⟩,⟨nofun,fun h => absurd hl h.1⟩,nofun⟩
      · refine asIfGone_other args name nofun nofun nofun (fun h => ?_) fun _ => hcreat'
        obtain ⟨s,hs⟩ := Option.ne_none_iff_exists'.mp hf
        exact absurd ((LifeInv.linked_some hx (byName_some hs).2 (hflag s hs)).symm.trans h) nofun
    | ok s =>
      have hf := permission_some hperm
      have hn := (byName_some hf).2
      rcases doMqueueOpen_cases hx hn (hflag s hf) hcreat' hfresh with ⟨e,h,he⟩ | ⟨a,p,h,ha,hp⟩
      · simp only
        rw [h]
        exact .failed hx (fun _ => rfl) he
      · simp only
        rw [h]
        exact .opened hn (hflag s hf) hcreat' ha hp (SameCore.refl _)

theorem byName_congr (h : ∀ s, (st'.queueTable s).mqName = (st.queueTable s).mqName) (n : Name) :
    getMqueueCBByName st' n = getMqueueCBByName st n := by
  rw [getMqueueCBByName, getMqueueCBByName]
  simp only [h]

private theorem MqInv.logOpen {r : Opened} (hx : MqInv x) (hr : r.AsIfGone) : MqInv { x with opens := x.opens ++ [r] } := by
  refine ⟨hx.pool,hx.life.congr rfl rfl rfl rfl rfl (fun _ => ⟨rfl,rfl⟩) fun _ _ h => h,
    hx.descs.congr rfl rfl rfl rfl (fun _ => rfl) fun _ _ => rfl,fun q hq => ?_⟩
  rcases List.mem_append.mp hq with hq | hq
  · exact hx.opens q hq
  · rw [List.mem_singleton.mp hq]
    exact hr

/-- An mq_open that fails and leaves the names as they are. -/
private theorem openAt_failed {name : Name} {args : OpenArgs} {e : Errno} (hn : ∀ s, (st'.queueTable s).mqName = (x.st.queueTable s).mqName) :
    x.openAt name args st' ⟨-1,some e⟩ = { x with st := st', opens := x.opens ++ [failedOpen x name args e] } := by
  rw [MqHist.openAt, byName_congr hn]
  cases getMqueueCBByName x.st name <;> rfl

private theorem fd_toNat (i : Nat) : ((i : Int) + MQUEUE_FD_OFFSET - MQUEUE_FD_OFFSET).toNat = i := by omega

theorem fd_ne (i : Nat) : (i : Int) + MQUEUE_FD_OFFSET ≠ -1 := by
  have : MQUEUE_FD_OFFSET = 512 := rfl
  omega

section
variable {st₂ : MqState} {name : Name} {args : OpenArgs}

theorem mqOpen_error {e : Errno} (hcheck : mqNameCheck (some name) = none) (h : mqOpenPersonal st name args = (st',.error e)) :
    mqOpen st (some name) args = (st',⟨-1,some e⟩) := by
  rw [mqOpen, hcheck]
  simp only [Option.getD_some]
  rw [h]

theorem mqOpen_ok (hcheck : mqNameCheck (some name) = none) (h : mqOpenPersonal st name args = (st',.ok a))
    (halloc : mqAllocSysFd st' MAX_MQ_FD a = (st₂,some i)) : mqOpen st (some name) args = (st₂,⟨i + MQUEUE_FD_OFFSET,none⟩) := by
  rw [mqOpen, hcheck]
  simp only [Option.getD_some]
  rw [h]
  simp only
  rw [halloc]

theorem mqOpen_enfile (hcheck : mqNameCheck (some name) = none) (h : mqOpenPersonal st name args = (st',.ok a))
    (halloc : mqAllocSysFd st' MAX_MQ_FD a = (st',none)) :
    mqOpen st (some name) args = ((doMqueueClose st' a false).1,⟨-1,some .ENFILE⟩) := by
  rw [mqOpen, hcheck]
  simp only [Option.getD_some]
  rw [h]
  simp only
  rw [halloc]

/-- An mq_open that returns the descriptor i. -/
private theorem openAt_ok {before : Option Nat} (hb : getMqueueCBByName x.st name = before) (ha : getMqueueCBByName st' name = some s) :
    x.openAt name args st' ⟨i + MQUEUE_FD_OFFSET,none⟩ =
      { x.link name before (some s) with
        st := st'
        desc := Function.update x.desc i (some ⟨(x.link name before (some s)).born s,0⟩)
        opens := x.opens ++ [⟨x.linked name,args.openFlag &&& O_CREAT ≠ 0,args.openFlag &&& O_EXCL ≠ 0,args.attr.valid,
          if before = none then .created ((x.link name before (some s)).born s) else .opened ((x.link name before (some s)).born s)⟩] } := by
  rw [MqHist.openAt, hb, ha]
  simp only [MqHist.answer, fd_toNat]
  rw [if_neg (fd_ne i)]
  cases before <;> rfl

theorem MqInv.openAt (hx : MqInv x) {r : MqState × Except Errno Nat} (hr : Personal x name args r)
    (hcheck : mqNameCheck (some name) = none) (hopen : mqOpenPersonal x.st name args = r) :
    MqInv (x.openAt name args (mqOpen x.st (some name) args).1 (mqOpen x.st (some name) args).2) := by
  cases hr with
  | @failed st' e hinv hn he =>
    rw [mqOpen_error hcheck hopen, openAt_failed hn]
    exact hinv.logOpen he
  | @opened st' s a p hn hflag hexcl ha hp hcore =>
    obtain ⟨-,-,-,h4,h5⟩ := hcore.rest
    have hl := LifeInv.linked_some hx hn hflag
    have hused := hx.pool.inUsed_of_name hn
    rcases hx.descs.allocSysFd h4 h5 a with halloc | ⟨i,hlt,hi,halloc⟩
    · have hclose := doMqueueClose_push ha hp hflag hcore
      rw [mqOpen_enfile hcheck hopen halloc, openAt_failed fun t => (hclose.table t).2.1]
      exact (hx.core hclose).logOpen (asIfGone_other args name nofun nofun nofun (fun h => absurd (hl.symm.trans h) nofun) fun _ => hexcl)
    · have hinv := hx.push hused ha hp hi hlt hcore
      have hname : ((st'.giveFd i a).queueTable s).mqName = some name := by
        refine (hcore.table s).2.1.trans ?_
        rw [push_slot]
        exact hn
      have hfound := hx.pool.byName_eq hx.life.unique hn
      rw [mqOpen_ok hcheck hopen halloc, openAt_ok hfound (hinv.pool.byName_eq hinv.life.unique hname)]
      exact hinv.logOpen ⟨hl,fun h => decide_eq_false (not_not.mpr (hexcl (of_decide_eq_true h)))⟩
  | @created st' s a p freeQueueList hname hcreat hfree ha hp hcore =>
    have hx₁ := hx.create hfree hname
    have hused : ((x.st.create s freeQueueList name).allQueue s).inUsed = true := by rw [create_queue]
    have hl := LifeInv.linked_none hx hname
    obtain ⟨-,-,-,h4,h5⟩ := hcore.rest
    rcases hx₁.descs.allocSysFd h4 h5 a with halloc | ⟨i,hlt,hi,halloc⟩
    · have hclose : SameCore (x.st.create s freeQueueList name) (doMqueueClose st' a false).1 :=
        doMqueueClose_push ha hp (by rw [create_slot]) hcore
      have hinv := hx₁.core hclose
      have hnew : ((doMqueueClose st' a false).1.queueTable s).mqName = some name := by
        rw [(hclose.table s).2.1, create_slot]
      rw [mqOpen_enfile hcheck hopen halloc, MqHist.openAt, hname, hinv.pool.byName_eq hinv.life.unique hnew]
      exact hinv.logOpen (asIfGone_other args name nofun nofun nofun (fun _ => hcreat) fun h => absurd hl h)
    · have hinv := hx₁.push hused ha hp hi hlt hcore
      have hnew : ((st'.giveFd i a).queueTable s).mqName = some name := by
        refine (hcore.table s).2.1.trans ?_
        rw [push_slot, create_slot]
      rw [mqOpen_ok hcheck hopen halloc, openAt_ok hname (hinv.pool.byName_eq hinv.life.unique hnew)]
      exact hinv.logOpen ⟨hl,decide_eq_true hcreat⟩

end

theorem MqInv.openQueue (hx : MqInv x) (mqName : Option Name) (args : OpenArgs) (hp : (MqCall.openQueue mqName args).Pre x)
    (hok : (MqCall.openQueue mqName args).Ok x) : MqInv ((MqCall.openQueue mqName args).run x) := by
  cases hname : mqNameCheck mqName with
  | some e =>
    rw [MqCall.run, mqOpen, hname]
    exact hx
  | none => cases mqName with
    | none => exact absurd hname (Option.some_ne_none _)
    | some name =>
      obtain ⟨hflag,hcreate⟩ := hok hname
      have hcases := mqOpenPersonal_cases hx hp hflag hcreate
      have hrun : (MqCall.openQueue (some name) args).run x =
          x.openAt name args (mqOpen x.st (some name) args).1 (mqOpen x.st (some name) args).2 := if_pos hname
      rw [hrun]
      exact hx.openAt hcases hname rfl

end LiteOsKernel.Posix.Mqueue
