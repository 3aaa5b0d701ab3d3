import Mathlib.Data.Fintype.Basic
import LiteOsKernel.Drivers.MtdPartition
import LiteOsKernel.Lib.Run

/-! The partition tables along any run of additions and deletions: the partitions of a type are apart and inside the device, and a
call that fails changes nothing. -/
namespace LiteOsKernel.Drivers

/-- The partitions of a type. -/
def parts (s : MtdState) (f : FlashType) : List MtdPartition :=
  match s.param f with
  | none => []
  | some p => p.partitionHead.getD []

inductive MtdCall where
  | add (type : Option String) (startAddr length partitionNum : Nat) (a : AddAnswers)
  | delete (partitionNum : Nat) (type : Option String) (a : DeleteAnswers)
  | mount (f : FlashType) (i : Nat) (name : Option (List Char))

structure MtdEvent where
  before : MtdState
  call : MtdCall
  ret : Int
  after : MtdState

/-- The tables with what every call so far has answered and done. -/
structure MtdHist where
  st : MtdState
  done : List MtdEvent

def RegisterAnswers.Granted (a : RegisterAnswers) : Prop := a.malloc = true ∧ a.ret = 0

instance (a : RegisterAnswers) : Decidable a.Granted := inferInstanceAs (Decidable (_ ∧ _))

/-- The node and the drivers that are wanted are had. -/
def AddAnswers.Granted (cfg : MtdConfig) (f : FlashType) (a : AddAnswers) : Prop :=
  a.node = true ∧ (cfg.blkName f ≠ none → a.block.Granted) ∧ (cfg.chrName f ≠ none → a.char.Granted)

instance (cfg : MtdConfig) (f : FlashType) (a : AddAnswers) : Decidable (a.Granted cfg f) :=
  inferInstanceAs (Decidable (_ ∧ _ ∧ _))

/-- The condition on an addition. -/
structure AddOk (cfg : MtdConfig) (s : MtdState) (f : FlashType) (startAddr length partitionNum : Nat) (a : AddAnswers) : Prop where
  blockSize : ∃ k < 32, (cfg.mtd f).eraseSize = 2^k
  device : a.init.mtd = true ∨ parts s f = []
  zero : (s.param f).bind (addParamCheck startAddr · partitionNum length) = some ENOERR → a.Granted cfg f →
    ∀ q ∈ parts s f, q.startBlock = 0 → q.patitionnum ≠ partitionNum
  rollback : cfg.blkName f ≠ none → a.block.Granted → cfg.chrName f ≠ none → ¬ a.char.Granted → a.rollback = 0

/-- The condition on a deletion. -/
structure DeleteOk (s : MtdState) (f : FlashType) (partitionNum : Nat) (a : DeleteAnswers) : Prop where
  zero : partitionNum = 0 → s.param f ≠ none → ∃ q ∈ parts s f, q.patitionnum = 0
  busy : ∀ q ∈ parts s f, q.patitionnum = partitionNum → q.mountpointName = none → q.blockdriverName ≠ none →
    q.chardriverName ≠ none → a.block ≠ -EBUSY → a.char ≠ -EBUSY

instance (cfg : MtdConfig) (s : MtdState) (f : FlashType) (startAddr length partitionNum : Nat) (a : AddAnswers) :
    Decidable (AddOk cfg s f startAddr length partitionNum a) :=
  decidable_of_iff (_ ∧ _ ∧ _ ∧ _) ⟨fun h => ⟨h.1,h.2.1,h.2.2.1,h.2.2.2⟩,fun h => ⟨h.blockSize,h.device,h.zero,h.rollback⟩⟩

instance (s : MtdState) (f : FlashType) (partitionNum : Nat) (a : DeleteAnswers) : Decidable (DeleteOk s f partitionNum a) :=
  decidable_of_iff (_ ∧ _) ⟨fun h => ⟨h.1,h.2⟩,fun h => ⟨h.zero,h.busy⟩⟩

namespace MtdCall

def exec (cfg : MtdConfig) (s : MtdState) : MtdCall → Option (Int × MtdState)
  | add type startAddr length partitionNum a => addMtdPartition cfg s type startAddr length partitionNum a
  | delete partitionNum type a => deleteMtdPartition s partitionNum type a
  | mount f i name => some (ENOERR,setMountpoint s f i name)

def run (cfg : MtdConfig) (x : MtdHist) (c : MtdCall) : MtdHist :=
  match c.exec cfg x.st with
  | none => x
  | some (ret,st) => { st := st, done := x.done ++ [⟨x.st,c,ret,st⟩] }

/-- The arguments are words. -/
def Pre : MtdCall → Prop
  | add _ startAddr length partitionNum _ => startAddr < 2^32 ∧ length < 2^32 ∧ partitionNum < 2^32
  | delete partitionNum .. => partitionNum < 2^32
  | mount .. => True

/-- The condition: on an addition, the block size is a power of two, the device is there as long as it has partitions, the number is
not that of a partition at block 0, and the block driver can be taken back when the character driver fails. On a deletion, number 0
is only asked for where there is a partition with that number, and the character driver is not busy where the block driver was
not. -/
def Ok (cfg : MtdConfig) (x : MtdHist) : MtdCall → Prop
  | add type startAddr length partitionNum a =>
    ∀ f, type.bind flashType = some f → partitionNum < CONFIG_MTD_PATTITION_NUM →
      AddOk cfg x.st f startAddr length partitionNum a
  | delete partitionNum type a => ∀ f, type.bind flashType = some f → DeleteOk x.st f partitionNum a
  | mount .. => True

instance : (c : MtdCall) → Decidable c.Pre
  | add .. => inferInstanceAs (Decidable (_ ∧ _ ∧ _))
  | delete .. => inferInstanceAs (Decidable (_ < _))
  | mount .. => inferInstanceAs (Decidable True)

end MtdCall

@[reducible] def mtdSystem (cfg : MtdConfig) : Run.System MtdHist MtdCall where
  init x := x = ⟨⟨none,none,[],[]⟩,[]⟩
  pre _ c := c.Pre
  run x c := c.run cfg x

/-- The partitions and the drivers are as they were. -/
structure Unchanged (s s' : MtdState) : Prop where
  parts : ∀ f, parts s' f = parts s f
  blockDrivers : s'.blockDrivers = s.blockDrivers
  charDrivers : s'.charDrivers = s.charDrivers

/-- What the answer 0 of a call means. -/
def Done (s s' : MtdState) : MtdCall → Prop
  | .add type _ _ partitionNum _ => ∃ f p, type.bind flashType = some f ∧ p.patitionnum = partitionNum ∧
      parts s' f = parts s f ++ [p] ∧ ∀ g ≠ f, parts s' g = parts s g
  | .delete partitionNum type _ => ∃ f l p r, type.bind flashType = some f ∧ p.patitionnum = partitionNum ∧
      p.mountpointName = none ∧ parts s f = l ++ p :: r ∧ parts s' f = l ++ r ∧ ∀ g ≠ f, parts s' g = parts s g
  | .mount .. => True

/-- The partitions of a device are apart from each other and inside it, and no two have one number. -/
structure Table (dev : MtdDev) (ps : List MtdPartition) : Prop where
  apart : ps.Pairwise fun p q => p.endBlock < q.startBlock ∨ q.endBlock < p.startBlock
  nums : ps.Pairwise fun p q => p.patitionnum ≠ q.patitionnum
  inside : ∀ p ∈ ps, p.startBlock ≤ p.endBlock ∧ (p.endBlock + 1)*dev.eraseSize ≤ dev.size

structure MtdLaw (cfg : MtdConfig) (x : MtdHist) : Prop where
  table : ∀ f, Table (cfg.mtd f) (parts x.st f)
  done : ∀ e ∈ x.done, e.ret = ENOERR → Done e.before e.after e.call
  failed : ∀ e ∈ x.done, e.ret ≠ ENOERR → Unchanged e.before e.after
  returns : ∀ c : MtdCall, c.exec cfg x.st ≠ none

/-- The record of a type is that of its device, and its list has not been freed. -/
structure ParamOk (cfg : MtdConfig) (f : FlashType) (p : PartitionParam) (ps : List MtdPartition) : Prop where
  list : p.partitionHead = some ps
  dev : p.flashMtd = cfg.mtd f
  blockname : p.blockname = cfg.blkName f
  charname : p.charname = cfg.chrName f
  blockSize : p.blockSize = (cfg.mtd f).eraseSize
  table : Table (cfg.mtd f) ps

def StOk (cfg : MtdConfig) (s : MtdState) : Prop := ∀ f p, s.param f = some p → ∃ ps, ParamOk cfg f p ps

section
variable {cfg : MtdConfig} {s s' : MtdState} {f g : FlashType} {p : PartitionParam} {q : MtdPartition} {ps : List MtdPartition}
  {dev : MtdDev} {a : AddAnswers} {d : DeleteAnswers} {startAddr length num k : Nat} {ret : Int}

@[simp] theorem param_setParam (s : MtdState) (o : Option PartitionParam) (f g : FlashType) :
    (s.setParam o f).param g = if g = f then o else s.param g := by
  cases f <;> cases g <;> rfl

@[simp] theorem blockDrivers_setParam (s : MtdState) (o : Option PartitionParam) (f : FlashType) :
    (s.setParam o f).blockDrivers = s.blockDrivers := by
  cases f <;> rfl

@[simp] theorem charDrivers_setParam (s : MtdState) (o : Option PartitionParam) (f : FlashType) :
    (s.setParam o f).charDrivers = s.charDrivers := by
  cases f <;> rfl

@[simp] theorem param_drivers (s : MtdState) (b c : List (List Char)) (f : FlashType) :
    ({ s with blockDrivers := b, charDrivers := c } : MtdState).param f = s.param f := by
  cases f <;> rfl

private theorem parts_of_none (h : s.param f = none) : parts s f = [] := by rw [parts, h]

private theorem parts_of_some (h : s.param f = some p) : parts s f = p.partitionHead.getD [] := by rw [parts, h]

private theorem parts_congr (h : s'.param f = s.param f) : parts s' f = parts s f := by rw [parts, parts, h]

private theorem table_nil (dev : MtdDev) : Table dev [] := ⟨.nil,.nil,nofun⟩

theorem StOk.table (h : StOk cfg s) (f : FlashType) : Table (cfg.mtd f) (parts s f) := by
  cases hp : s.param f with
  | none => exact parts_of_none hp ▸ table_nil _
  | some p =>
    obtain ⟨ps,h⟩ := h f p hp
    rw [parts_of_some hp, h.list]
    exact h.table

theorem StOk.setParam (h : StOk cfg s) (f : FlashType) {o : Option PartitionParam} (ho : ∀ p, o = some p → ∃ ps, ParamOk cfg f p ps) :
    StOk cfg (s.setParam o f) := by
  intro g p hp
  rw [param_setParam] at hp
  split_ifs at hp with hg
  · exact hg ▸ ho p hp
  · exact h g p hp

private theorem addListCheck_ok {sb eb : Nat} (h : addListCheck sb eb num ps = ENOERR) :
    ∀ q ∈ ps, (q.startBlock ≠ 0 → q.patitionnum ≠ num) ∧ (q.endBlock < sb ∨ eb < q.startBlock) := by
  induction ps with
  | nil => nofun
  | cons q ps ih =>
    rw [addListCheck] at h
    split_ifs at h with h1 h2
    · exact absurd h (by decide)
    · exact List.forall_mem_cons.mpr ⟨⟨fun h0 he => h1 ⟨h0,he⟩,h2⟩,ih h⟩
    · exact absurd h (by decide)

private theorem addParamCheck_returns (startAddr num length : Nat) (hp : ParamOk cfg f p ps) :
    ∃ ret, addParamCheck startAddr p num length = some ret := by
  simp only [addParamCheck, hp.list, Option.map_some]
  split_ifs <;> exact ⟨_,rfl⟩

/-- What is stored of a range that AddParamCheck accepts lies in the blocks that it has looked at, and in the device. -/
private theorem addParamCheck_ok (h : addParamCheck startAddr p num length = some ENOERR) (hp : ParamOk cfg f p ps)
    (hk : ∃ k < 32, (cfg.mtd f).eraseSize = 2^k) (hs : startAddr < 2^32) (hl : length < 2^32) :
    let node := parAssignment length startAddr num p.blockSize
    node.startBlock ≤ node.endBlock ∧ (node.endBlock + 1)*(cfg.mtd f).eraseSize ≤ (cfg.mtd f).size ∧
      ∀ q ∈ ps, (q.startBlock ≠ 0 → q.patitionnum ≠ num) ∧ (q.endBlock < node.startBlock ∨ node.endBlock < q.startBlock) := by
  obtain ⟨k,hk,hb⟩ := hk
  simp only [addParamCheck, hp.list, hp.dev, hp.blockSize, Option.map_some] at h
  split_ifs at h with h1 h2 h3
  · exact absurd h (by decide)
  · exact absurd h (by decide)
  · exact absurd h (by decide)
  have hwalk := addListCheck_ok (Option.some_inj.mp h)
  rw [hp.blockSize]
  generalize (cfg.mtd f).eraseSize = B at *
  generalize (cfg.mtd f).size = size at *
  have hpos : 0 < B := hb ▸ Nat.two_pow_pos k
  have hround (x : Nat) (hx : x < 2^32) : (x &&& Word.not (Word.sub B 1))/B = x/B := by
    rw [Word.sub_eq hpos, hb, Word.and_not_low hx (by omega), Nat.mul_div_cancel _ (hb ▸ hpos)]
  have hstart : alignStartBlk startAddr B = startAddr/B := hround startAddr hs
  have hlen : roundup length B/B = (length + (B - 1)) % 2^32/B := by
    rw [roundup, Word.add, hround _ (Nat.mod_lt _ (by norm_num)), Word.sub_eq hpos]
  rw [alignEndBlk, hstart, hlen] at h3 hwalk
  have hL : 1 ≤ length/B := (Nat.one_le_div_iff hpos).mpr (by omega)
  have hSB := Nat.div_mul_le_self startAddr B
  have hLB := Nat.div_mul_le_self length B
  have hL32 := Nat.div_le_self length B
  -- the rounded length is zero where it does not fit a word
  have hC : (length + (B - 1)) % 2^32/B = 0 ∨ length/B ≤ (length + (B - 1)) % 2^32/B ∧ (length + (B - 1)) % 2^32/B < 2^32 := by
    by_cases hw : length + (B - 1) < 2^32
    · rw [Nat.mod_eq_of_lt hw]
      exact .inr ⟨Nat.div_le_div_right (by omega),(Nat.div_le_self _ _).trans_lt hw⟩
    · have hB : B < 2^32 := hb ▸ Nat.pow_lt_pow_right (by norm_num) hk
      exact .inl (Nat.div_eq_of_lt (by omega))
  simp only [parAssignment]
  generalize (length + (B - 1)) % 2^32/B = C at *
  generalize startAddr/B = S at *
  generalize length/B = L at *
  have hend : L + S - 1 ≤ Word.add C (Word.sub S 1) ∧ Word.add L (Word.sub S 1) = L + S - 1 := by
    simp only [Word.add, Word.sub] at *
    split_ifs at * <;> omega
  rw [hend.2]
  refine ⟨by omega,?_,fun q hq => ⟨(hwalk q hq).1,?_⟩⟩
  · calc (L + S - 1 + 1)*B = S*B + L*B := by rw [show L + S - 1 + 1 = S + L by omega, Nat.add_mul]
      _ ≤ size := by omega
  · have := (hwalk q hq).2
    omega

private theorem driverName_ne_none (base : List Char) (h : num < CONFIG_MTD_PATTITION_NUM) : driverName base num ≠ none := by
  have hlen : (Nat.toDigits 10 num).length ≤ 2 := by
    revert num
    decide
  rw [driverName]
  simp [DRIVER_NAME_ADD_SIZE, hlen]

/-- A driver is registered where it is wanted and can be taken back, or nothing is changed. -/
private theorem driverRegisterOperate_cases (base : Option (List Char)) (h : num < CONFIG_MTD_PATTITION_NUM) (a : RegisterAnswers)
    (drivers : List (List Char)) :
    (∃ name drivers', driverRegisterOperate base num a drivers = (ENOERR,name,drivers') ∧ (base ≠ none → a.Granted) ∧
      ∀ ret, (base ≠ none → ret = 0) → (driverUnregister name ret drivers').2.2 = drivers) ∨
      (base ≠ none ∧ ¬ a.Granted ∧ ∃ ret ≠ 0, driverRegisterOperate base num a drivers = (ret,none,drivers)) := by
  cases base with
  | none => exact .inl ⟨_,_,rfl,nofun,fun _ _ => rfl⟩
  | some base =>
    obtain ⟨name,hname⟩ := Option.ne_none_iff_exists'.mp (driverName_ne_none base h)
    simp only [driverRegisterOperate, hname]
    split_ifs with hm hr
    · exact .inr ⟨nofun,fun hg => hr hg.2,a.ret,hr,rfl⟩
    · refine .inl ⟨_,_,rfl,fun _ => ⟨hm,not_not.mp hr⟩,fun ret h0 => ?_⟩
      rw [h0 nofun]
      exact List.erase_cons_head name drivers
    · exact .inr ⟨nofun,fun hg => hm hg.1,-ENOMEM,by decide,rfl⟩

theorem Unchanged.refl (s : MtdState) : Unchanged s s := ⟨fun _ => rfl,rfl,rfl⟩

/-- Setting the record of a type leaves the partitions when it holds those that were there. -/
private theorem unchanged_setParam {o : Option PartitionParam} (h : parts (s.setParam o f) f = parts s f) : Unchanged s (s.setParam o f) := by
  refine ⟨fun g => ?_,by simp,by simp⟩
  by_cases hg : g = f
  · rw [hg, h]
  · exact parts_congr (by simp [hg])

private theorem paramOk_assign (cfg : MtdConfig) (f : FlashType) : ParamOk cfg f (mtdParamAssign cfg f) [] :=
  ⟨rfl,rfl,rfl,rfl,rfl,table_nil _⟩

/-- The record that is found or made has the partitions that were there. -/
private theorem mtdInitParam_some {lock : Bool} (hi : StOk cfg s) (h : mtdInitParam cfg f lock a.init (s.param f) = some p) :
    ParamOk cfg f p (parts s f) ∧ (s.param f = some p ∨ parts s f = []) := by
  cases hq : s.param f with
  | none =>
    simp only [mtdInitParam, hq] at h
    split_ifs at h
    cases h
    rw [parts_of_none hq]
    exact ⟨paramOk_assign cfg f,.inr rfl⟩
  | some p' =>
    simp only [mtdInitParam, hq] at h
    split_ifs at h
    cases h
    obtain ⟨ps,h⟩ := hi f p hq
    have hps : parts s f = ps := by rw [parts_of_some hq, h.list, Option.getD_some]
    exact ⟨hps ▸ h,.inl rfl⟩

private theorem mtdInitParam_none {lock : Bool} (hd : a.init.mtd = true ∨ parts s f = [])
    (h : mtdInitParam cfg f lock a.init (s.param f) = none) : parts s f = [] := by
  rcases hd with hd | hd
  · cases hq : s.param f with
    | none => exact parts_of_none hq
    | some p' => simp [mtdInitParam, hd, hq] at h
  · exact hd

private theorem mtdInitFsparParam_eq {type : String} (cfg : MtdConfig) (s : MtdState) (a : InitAnswers) (hf : flashType type = some f) :
    ∃ lock ret, mtdInitFsparParam cfg s type a =
      (ret,s.setParam (mtdInitParam cfg f lock a (s.param f)) f,mtdInitParam cfg f lock a (s.param f)) ∧
      (mtdInitParam cfg f lock a (s.param f) = none → ret ≠ ENOERR) := by
  rw [mtdInitFsparParam, hf]
  cases f with
  | nand => exact ⟨true,_,rfl,fun h => by rw [mtdInitNandParam, MtdState.param] at *; simp [h, ENODEV, ENOERR]⟩
  | spinor => exact ⟨a.lock,_,rfl,fun h => by rw [mtdInitSpinorParam, MtdState.param] at *; simp [h, ENODEV, ENOERR]⟩

private theorem mtdInitFsparParam_spec {type : String} (hf : flashType type = some f) (hi : StOk cfg s)
    (hd : a.init.mtd = true ∨ parts s f = []) :
    ∃ ret o, mtdInitFsparParam cfg s type a.init = (ret,s.setParam o f,o) ∧ Unchanged s (s.setParam o f) ∧ (o = none → ret ≠ ENOERR) ∧
      ∀ p, o = some p → ParamOk cfg f p (parts s f) ∧ (s.param f = some p ∨ parts s f = []) := by
  obtain ⟨lock,ret,h,hret⟩ := mtdInitFsparParam_eq cfg s a.init hf
  refine ⟨ret,_,h,unchanged_setParam ?_,hret,fun p hp => mtdInitParam_some hi hp⟩
  cases ho : mtdInitParam cfg f lock a.init (s.param f) with
  | none => rw [mtdInitParam_none hd ho, parts_of_none (by simp)]
  | some p =>
    rw [parts_of_some (show (s.setParam (some p) f).param f = some p by simp), (mtdInitParam_some hi ho).1.list, Option.getD_some]

theorem Table.snoc (h : Table dev ps) (hr : q.startBlock ≤ q.endBlock) (hin : (q.endBlock + 1)*dev.eraseSize ≤ dev.size)
    (hap : ∀ p ∈ ps, p.endBlock < q.startBlock ∨ q.endBlock < p.startBlock) (hn : ∀ p ∈ ps, p.patitionnum ≠ q.patitionnum) :
    Table dev (ps ++ [q]) := by
  refine ⟨List.pairwise_append.mpr ⟨h.apart,List.pairwise_singleton _ _,?_⟩,
    List.pairwise_append.mpr ⟨h.nums,List.pairwise_singleton _ _,?_⟩,?_⟩
  · intro p hp x hx
    rw [List.mem_singleton.mp hx]
    exact hap p hp
  · intro p hp x hx
    rw [List.mem_singleton.mp hx]
    exact hn p hp
  · intro p hp
    rcases List.mem_append.mp hp with hp | hp
    · exact h.inside p hp
    · rw [List.mem_singleton.mp hp]
      exact ⟨hr,hin⟩

/-- The answer of a call that leaves the partitions as they were. -/
def Refused (s s' : MtdState) (ret : Int) : Prop := ret ≠ ENOERR ∧ Unchanged s s'

theorem StOk.drivers (h : StOk cfg s) (b c : List (List Char)) : StOk cfg { s with blockDrivers := b, charDrivers := c } := by
  intro f p hp
  exact h f p (by rwa [param_drivers] at hp)

/-- An addition answers an error and changes nothing, or puts one partition at the end of the list. -/
private theorem addMtdPartition_spec {type : Option String} (hi : StOk cfg s) (hs : startAddr < 2^32) (hl : length < 2^32)
    (ok : ∀ f, type.bind flashType = some f → num < CONFIG_MTD_PATTITION_NUM → AddOk cfg s f startAddr length num a) :
    ∃ ret s', addMtdPartition cfg s type startAddr length num a = some (ret,s') ∧ StOk cfg s' ∧
      (Refused s s' ret ∨ ret = ENOERR ∧ Done s s' (.add type startAddr length num a)) := by
  cases type with
  | none => exact ⟨_,_,rfl,hi,.inl ⟨by decide,.refl s⟩⟩
  | some type =>
  by_cases hn : num ≥ CONFIG_MTD_PATTITION_NUM
  · exact ⟨-EINVAL,s,by simp [addMtdPartition, hn],hi,.inl ⟨by decide,.refl s⟩⟩
  cases hf : flashType type with
  | none => exact ⟨-EINVAL,s,by simp [addMtdPartition, hn, mtdInitFsparParam, hf],hi,.inl ⟨by decide,.refl s⟩⟩
  | some f =>
  have ok := ok f hf (by omega)
  obtain ⟨ret,o,hinit,hun,hret,ho⟩ := mtdInitFsparParam_spec hf hi ok.device
  have hi' : StOk cfg (s.setParam o f) := hi.setParam f fun p hp => ⟨_,(ho p hp).1⟩
  cases o with
  | none => exact ⟨ret,_,by simp [addMtdPartition, hn, hinit],hi',.inl ⟨hret rfl,hun⟩⟩
  | some p =>
  obtain ⟨hp,hfound⟩ := ho p rfl
  obtain ⟨ret,hcheck⟩ := addParamCheck_returns startAddr num length hp
  by_cases hr : ret = ENOERR
  swap
  · exact ⟨ret,_,by simp [addMtdPartition, hn, hinit, hcheck, hr],hi',.inl ⟨hr,hun⟩⟩
  subst hr
  cases hnode : a.node with
  | false => exact ⟨-ENOMEM,_,by simp [addMtdPartition, hn, hinit, hcheck, hnode],hi',.inl ⟨by decide,hun⟩⟩
  | true =>
  obtain ⟨hrange,hin,hwalk⟩ := addParamCheck_ok hcheck hp ok.blockSize hs hl
  have hparam : (s.setParam (some p) f).param f = some p := by simp
  generalize s.setParam (some p) f = s₁ at *
  rcases driverRegisterOperate_cases p.blockname (not_le.mp hn) a.block s₁.blockDrivers with
    ⟨bname,bdrivers,hb,hbok,hback⟩ | ⟨-,-,ret,hr,hb⟩
  swap
  · exact ⟨ret,s₁,by simp [addMtdPartition, hn, hinit, hcheck, hnode, blockDriverRegisterOperate, hb, hr],hi',.inl ⟨hr,hun⟩⟩
  rcases driverRegisterOperate_cases p.charname (not_le.mp hn) a.char s₁.charDrivers with
    ⟨cname,cdrivers,hc,hcok,-⟩ | ⟨hc0,hcno,ret,hr,hc⟩
  swap
  · -- the block driver is taken back
    have hback := hback a.rollback fun h0 => ok.rollback (hp.blockname ▸ h0) (hbok h0) (hp.charname ▸ hc0) hcno
    refine ⟨ret,s₁,?_,hi',.inl ⟨hr,hun⟩⟩
    simp [addMtdPartition, hn, hinit, hcheck, hnode, blockDriverRegisterOperate, charDriverRegisterOperate, blockDriverUnregister, hb,
      hc, hr, hback, ENOERR]
  · have hnum : ∀ q ∈ parts s f, q.patitionnum ≠ num := by
      intro q hq
      by_cases h0 : q.startBlock = 0
      · have hparam : s.param f = some p := hfound.resolve_right fun h => by rw [h] at hq; exact absurd hq nofun
        exact ok.zero (by rw [hparam]; exact hcheck) ⟨hnode,hp.blockname ▸ hbok,hp.charname ▸ hcok⟩ q hq h0
      · exact (hwalk q hq).1 h0
    let q : MtdPartition :=
      { parAssignment length startAddr num p.blockSize with blockdriverName := bname, chardriverName := cname }
    let p' : PartitionParam := { p with partitionHead := some (parts s f ++ [q]) }
    refine ⟨ENOERR,({ s₁ with blockDrivers := bdrivers, charDrivers := cdrivers } : MtdState).setParam (some p') f,?_,?_,
      .inr ⟨rfl,f,q,hf,rfl,?_,fun g hg => ?_⟩⟩
    · simp [addMtdPartition, hn, hinit, hcheck, hnode, blockDriverRegisterOperate, charDriverRegisterOperate, hb, hc, ENOERR, hf,
        hp.list, p', q]
    · refine (hi'.drivers _ _).setParam f fun p'' h => ?_
      cases h
      exact ⟨_,rfl,hp.dev,hp.blockname,hp.charname,hp.blockSize,hp.table.snoc hrange hin (fun r hr => (hwalk r hr).2) hnum⟩
    · exact parts_of_some (p := p') (by simp)
    · rw [← hun.parts g]
      exact parts_congr (by simp [hg])

private theorem driverUnregister_cases (name : Option (List Char)) (ret : Int) (drivers : List (List Char)) :
    (name ≠ none ∧ ret = -EBUSY ∧ driverUnregister name ret drivers = (-EBUSY,name,drivers)) ∨
      (∃ drivers', (name = none → drivers' = drivers) ∧ (name ≠ none → ret ≠ -EBUSY) ∧
        driverUnregister name ret drivers = (ENOERR,none,drivers')) := by
  cases name with
  | none => exact .inr ⟨drivers,fun _ => rfl,fun h => absurd rfl h,rfl⟩
  | some name =>
    by_cases hr : ret = -EBUSY
    · exact .inl ⟨nofun,hr,by rw [driverUnregister, if_pos hr, hr]⟩
    · exact .inr ⟨_,nofun,fun _ => hr,by rw [driverUnregister, if_neg hr]⟩

/-- The drivers of a partition are taken off, or nothing is changed. -/
private theorem deletePartitionUnregister_cases (s : MtdState) (q : MtdPartition) (d : DeleteAnswers)
    (hb : q.blockdriverName ≠ none → q.chardriverName ≠ none → d.block ≠ -EBUSY → d.char ≠ -EBUSY) :
    (∃ b c q', deletePartitionUnregister s q d = (ENOERR,{ s with blockDrivers := b, charDrivers := c },q')) ∨
      deletePartitionUnregister s q d = (-EBUSY,s,q) := by
  have hne : ENOERR ≠ -EBUSY := by decide
  simp only [deletePartitionUnregister, blockDriverUnregister, charDriverUnregister]
  rcases driverUnregister_cases q.blockdriverName d.block s.blockDrivers with ⟨-,-,h1⟩ | ⟨bs,hbs,hbn,h1⟩
  · exact .inr (by simp only [h1, if_true])
  · rcases driverUnregister_cases q.chardriverName d.char s.charDrivers with ⟨hc,hcb,h2⟩ | ⟨cs,-,-,h2⟩
    · have hq : q.blockdriverName = none := by
        by_contra h
        exact hb h hc (hbn h) hcb
      exact .inr (by simp only [h1, h2, if_neg hne, if_true, hbs hq, ← hq])
    · refine .inl ⟨bs,cs,{ q with blockdriverName := none, chardriverName := none },?_⟩
      simp only [h1, h2, if_neg hne]

theorem Table.sublist {qs : List MtdPartition} (h : Table dev ps) (hq : qs.Sublist ps) : Table dev qs :=
  ⟨h.apart.sublist hq,h.nums.sublist hq,fun p hp => h.inside p (hq.subset hp)⟩

/-- The cursor that is not refused is at a partition with the number that is not mounted. -/
private theorem osNodeGet_ok (h : (osNodeGet num ps).1 = ENOERR) (h0 : num = 0 → ∃ q ∈ ps, q.patitionnum = 0) :
    ∃ i, ∃ hi : i < ps.length, osNodeGet num ps = (ENOERR,some i,ps[i]) ∧ ps[i].patitionnum = num ∧ ps[i].mountpointName = none := by
  rw [osNodeGet] at *
  cases hc : ps.findIdx? (·.patitionnum = num) with
  | none =>
    simp only [hc] at h
    split_ifs at h with hm
    · exact absurd h (by decide)
    · have hnum : num = 0 := by by_contra hne; exact hm (.inl (Ne.symm hne))
      obtain ⟨q,hq,hqn⟩ := h0 hnum
      have := List.findIdx?_eq_none_iff.mp hc q hq
      simp [hqn, hnum] at this
  | some i =>
    obtain ⟨hi,hn,-⟩ := List.findIdx?_eq_some_iff_getElem.mp hc
    simp only [hc, List.getD_eq_getElem _ _ hi] at h ⊢
    split_ifs at h with hm
    · exact absurd h (by decide)
    · rw [not_or, not_not, not_not] at hm
      exact ⟨i,hi,by rw [if_neg (by simp [hm])],hm.1,hm.2⟩

/-- A deletion answers an error and changes nothing, or takes one partition out of the list. -/
private theorem deleteMtdPartition_spec {type : Option String} (hi : StOk cfg s)
    (ok : ∀ f, type.bind flashType = some f → DeleteOk s f num d) :
    ∃ ret s', deleteMtdPartition s num type d = some (ret,s') ∧ StOk cfg s' ∧
      (Refused s s' ret ∨ ret = ENOERR ∧ Done s s' (.delete num type d)) := by
  cases type with
  | none => exact ⟨_,_,rfl,hi,.inl ⟨by decide,.refl s⟩⟩
  | some type =>
  cases hf : flashType type with
  | none => exact ⟨-EINVAL,s,by simp [deleteMtdPartition, hf],hi,.inl ⟨by decide,.refl s⟩⟩
  | some f =>
  have ok := ok f hf
  cases hp : s.param f with
  | none => exact ⟨-EINVAL,s,by simp [deleteMtdPartition, hf, hp],hi,.inl ⟨by decide,.refl s⟩⟩
  | some p =>
  by_cases hn : num ≥ CONFIG_MTD_PATTITION_NUM
  · exact ⟨-EINVAL,s,by simp [deleteMtdPartition, hf, hp, hn],hi,.inl ⟨by decide,.refl s⟩⟩
  obtain ⟨ps,h⟩ := hi f p hp
  have hps : parts s f = ps := by rw [parts_of_some hp, h.list, Option.getD_some]
  by_cases hr : (osNodeGet num ps).1 = ENOERR
  swap
  · exact ⟨_,s,by simp [deleteMtdPartition, hf, hp, hn, h.list, show ¬ (osNodeGet num ps).1 = 0 from hr],hi,.inl ⟨hr,.refl s⟩⟩
  obtain ⟨i,hlt,hget,hnum,hmount⟩ := osNodeGet_ok hr fun h0 => hps ▸ ok.zero h0 (hp ▸ nofun)
  rcases deletePartitionUnregister_cases s ps[i] d fun hb hc => ok.busy _ (hps ▸ List.getElem_mem hlt) hnum hmount hb hc with
    ⟨b,c,q',hdel⟩ | hdel
  swap
  · have hself : { p with partitionHead := some ps } = p := by rw [← h.list]
    have hst : StOk cfg (s.setParam (some p) f) := hi.setParam f fun p' h' => ⟨ps,Option.some_inj.mp h' ▸ h⟩
    refine ⟨-EBUSY,s.setParam (some p) f,?_,hst,.inl ⟨by decide,unchanged_setParam (parts_congr (by simp [hp]))⟩⟩
    simp [deleteMtdPartition, hf, hp, hn, h.list, hget, hdel, ENOERR, EBUSY, hself]
  · have hsplit : ps = ps.take i ++ ps[i] :: ps.drop (i + 1) := by rw [← List.drop_eq_getElem_cons hlt, List.take_append_drop]
    have herase : ps.eraseIdx i = ps.take i ++ ps.drop (i + 1) := List.eraseIdx_eq_take_drop_succ ps i
    let s₁ : MtdState := { s with blockDrivers := b, charDrivers := c }
    have hother (o : Option PartitionParam) : ∀ g ≠ f, parts (s₁.setParam o f) g = parts s g := by
      intro g hg
      exact parts_congr (by simp [hg, s₁])
    have hexec : deleteMtdPartition s num (some type) d = some (osResourceRelease s₁ (some i) (ps.set i q') type f p) := by
      simp [deleteMtdPartition, hf, hp, hn, h.list, hget, hdel, ENOERR, s₁]
    have he : (ps.set i q').eraseIdx i = ps.eraseIdx i := List.eraseIdx_set_eq
    rw [hexec, osResourceRelease, he]
    by_cases hnil : ps.eraseIdx i = []
    · refine ⟨ENOERR,s₁.setParam none f,by rw [if_pos hnil, mtdDeinitFsparParam, hf],?_,
        .inr ⟨rfl,f,_,_,_,hf,hnum,hmount,hps.trans hsplit,?_,hother _⟩⟩
      · exact (hi.drivers b c).setParam f nofun
      · rw [← herase, hnil]
        exact parts_of_none (by simp)
    · let p' : PartitionParam := { p with partitionHead := some (ps.eraseIdx i) }
      refine ⟨ENOERR,s₁.setParam (some p') f,by rw [if_neg hnil],?_,
        .inr ⟨rfl,f,_,_,_,hf,hnum,hmount,hps.trans hsplit,?_,hother _⟩⟩
      · refine (hi.drivers b c).setParam f fun p'' h' => ?_
        cases h'
        exact ⟨_,rfl,h.dev,h.blockname,h.charname,h.blockSize,h.table.sublist (List.eraseIdx_sublist ..)⟩
      · rw [← herase]
        exact parts_of_some (p := p') (by simp)

/-- Every call returns as long as no list has been freed. -/
private theorem exec_ne_none (hi : StOk cfg s) (c : MtdCall) : c.exec cfg s ≠ none := by
  cases c with
  | mount => nofun
  | delete num type d =>
    cases type with
    | none => nofun
    | some type =>
    cases hf : flashType type with
    | none => simp [MtdCall.exec, deleteMtdPartition, hf]
    | some f =>
    cases hp : s.param f with
    | none => simp [MtdCall.exec, deleteMtdPartition, hf, hp]
    | some p =>
    obtain ⟨ps,h⟩ := hi f p hp
    simp only [MtdCall.exec, deleteMtdPartition, hf, hp, h.list]
    split_ifs <;> nofun
  | add type startAddr length num a =>
    cases type with
    | none => nofun
    | some type =>
    cases hf : flashType type with
    | none =>
      simp only [MtdCall.exec, addMtdPartition, mtdInitFsparParam, hf]
      split_ifs <;> nofun
    | some f =>
    obtain ⟨lock,ret,h,-⟩ := mtdInitFsparParam_eq cfg s a.init hf
    simp only [MtdCall.exec, addMtdPartition, h]
    cases ho : mtdInitParam cfg f lock a.init (s.param f) with
    | none => split_ifs <;> nofun
    | some p =>
      obtain ⟨ret',hcheck⟩ := addParamCheck_returns startAddr num length (mtdInitParam_some hi ho).1
      simp only [hcheck]
      split_ifs <;> nofun

/-- A table depends on the ranges and numbers only. -/
theorem Table.congr {qs : List MtdPartition} (h : Table dev ps)
    (hq : qs.map (fun p => (p.startBlock,p.endBlock,p.patitionnum)) = ps.map fun p => (p.startBlock,p.endBlock,p.patitionnum)) :
    Table dev qs := by
  have hapart : (ps.map fun p => (p.startBlock,p.endBlock,p.patitionnum)).Pairwise fun x y => x.2.1 < y.1 ∨ y.2.1 < x.1 :=
    List.pairwise_map.mpr h.apart
  have hnums : (ps.map fun p => (p.startBlock,p.endBlock,p.patitionnum)).Pairwise fun x y => x.2.2 ≠ y.2.2 :=
    List.pairwise_map.mpr h.nums
  have hinside : ∀ x ∈ ps.map fun p => (p.startBlock,p.endBlock,p.patitionnum), x.1 ≤ x.2.1 ∧ (x.2.1 + 1)*dev.eraseSize ≤ dev.size :=
    List.forall_mem_map.mpr h.inside
  rw [← hq] at hapart hnums hinside
  exact ⟨List.pairwise_map.mp hapart,(List.pairwise_map (R := fun x y : Nat × Nat × Nat => x.2.2 ≠ y.2.2)).mp hnums,
    List.forall_mem_map.mp hinside⟩

private theorem setMountpoint_spec (hi : StOk cfg s) (f : FlashType) (i : Nat) (name : Option (List Char)) :
    StOk cfg (setMountpoint s f i name) := by
  cases hp : s.param f with
  | none => rwa [setMountpoint, hp]
  | some p =>
    obtain ⟨ps,h⟩ := hi f p hp
    simp only [setMountpoint, hp, h.list, Option.map_some]
    refine hi.setParam f fun p' h' => ?_
    cases h'
    refine ⟨_,rfl,h.dev,h.blockname,h.charname,h.blockSize,h.table.congr ?_⟩
    rw [List.map_set]
    by_cases hlt : i < ps.length
    · rw [List.getD_eq_getElem _ _ hlt]
      refine Eq.trans ?_ (List.set_getElem_self (show i < (ps.map _).length by simpa using hlt))
      rw [List.getElem_map]
    · exact List.set_eq_of_length_le (by simpa using hlt)

structure MtdInv (cfg : MtdConfig) (x : MtdHist) : Prop where
  st : StOk cfg x.st
  done : ∀ e ∈ x.done, Refused e.before e.after e.ret ∨ e.ret = ENOERR ∧ Done e.before e.after e.call

private theorem mtdInv_run {x : MtdHist} (hi : MtdInv cfg x) (c : MtdCall) (hp : c.Pre) (ok : c.Ok cfg x) : MtdInv cfg (c.run cfg x) := by
  have hspec : ∃ ret s', c.exec cfg x.st = some (ret,s') ∧ StOk cfg s' ∧ (Refused x.st s' ret ∨ ret = ENOERR ∧ Done x.st s' c) := by
    cases c with
    | add => exact addMtdPartition_spec hi.st hp.1 hp.2.1 ok
    | delete => exact deleteMtdPartition_spec hi.st ok
    | mount f i name => exact ⟨_,_,rfl,setMountpoint_spec hi.st f i name,.inr ⟨rfl,trivial⟩⟩
  obtain ⟨ret,s',hexec,hst,hdone⟩ := hspec
  rw [MtdCall.run, hexec]
  refine ⟨hst,fun e he => ?_⟩
  rcases List.mem_append.mp he with he | he
  · exact hi.done e he
  · rw [List.mem_singleton.mp he]
    exact hdone

/-- Along every run that meets the condition, the partitions are apart, inside the device and differently numbered, a deletion takes
out the partition that it names, and a call that fails changes nothing. -/
theorem mtdLaw_of_reachable (cfg : MtdConfig) {x : MtdHist} (h : Run.Reachable (mtdSystem cfg) (MtdCall.Ok cfg) x) : MtdLaw cfg x := by
  have hinv : MtdInv cfg x := by
    refine h.invariant (fun y hy => ?_) fun y c hi hp ok => mtdInv_run hi c hp ok
    rw [show y = ⟨⟨none,none,[],[]⟩,[]⟩ from hy]
    refine ⟨fun f p hp => ?_,fun _ he => nomatch he⟩
    cases f <;> cases hp
  refine ⟨hinv.st.table,fun e he hr => ?_,fun e he hr => ?_,exec_ne_none hinv.st⟩
  · exact ((hinv.done e he).resolve_left fun h => h.1 hr).2
  · exact ((hinv.done e he).resolve_right fun h => hr h.1).2

/-- A flash of 128 blocks of 64 KiB of each type. -/
def flash8M : MtdConfig where
  mtd _ := ⟨0x800000,0x10000⟩
  blkName
    | .nand => some "/dev/nandblk".toList
    | .spinor => some "/dev/spinorblk".toList
  chrName
    | .nand => some "/dev/nandchr".toList
    | .spinor => some "/dev/spinorchr".toList

/-- Everything that an addition asks for is granted. -/
def granted : AddAnswers := ⟨⟨true,true,true,true⟩,true,⟨true,0⟩,⟨true,0⟩,0⟩

private theorem ok_of_type {type : Option String} {P : FlashType → Prop} (ht : type.bind flashType = some f) (h : P f) :
    ∀ g, type.bind flashType = some g → P g := by
  intro g hg
  exact Option.some_inj.mp (ht.symm.trans hg) ▸ h

/-- Partitions 0 and 1 are added, 0 is mounted and cannot be deleted, 1 can. -/
theorem mtdLaw_mounted : ∃ x, Run.Reachable (mtdSystem flash8M) (MtdCall.Ok flash8M) x ∧
    (parts x.st .spinor).map (·.patitionnum) = [0] ∧ x.done.map (·.ret) = [0,0,0,-EINVAL,0] ∧ MtdLaw flash8M x := by
  have h0 : Run.Reachable (mtdSystem flash8M) (MtdCall.Ok flash8M) ⟨⟨none,none,[],[]⟩,[]⟩ := .init rfl
  have h1 : Run.Reachable (mtdSystem flash8M) (MtdCall.Ok flash8M) _ := .call h0 (.add (some "spinor") 0 0x100000 0 granted)
    (by decide) (ok_of_type (f := .spinor) (by decide) fun _ => by decide +kernel)
  have h2 : Run.Reachable (mtdSystem flash8M) (MtdCall.Ok flash8M) _ := .call h1 (.add (some "spinor") 0x100000 0x200000 1 granted)
    (by decide) (ok_of_type (f := .spinor) (by decide) fun _ => by decide +kernel)
  have h3 : Run.Reachable (mtdSystem flash8M) (MtdCall.Ok flash8M) _ := .call h2 (.mount .spinor 0 (some "/jffs0".toList)) trivial trivial
  have h4 : Run.Reachable (mtdSystem flash8M) (MtdCall.Ok flash8M) _ := .call h3 (.delete 0 (some "spinor") ⟨0,0⟩)
    (by decide) (ok_of_type (f := .spinor) (by decide) (by decide +kernel))
  have h5 : Run.Reachable (mtdSystem flash8M) (MtdCall.Ok flash8M) _ := .call h4 (.delete 1 (some "spinor") ⟨0,0⟩)
    (by decide) (ok_of_type (f := .spinor) (by decide) (by decide +kernel))
  exact ⟨_,h5,by decide +kernel,by decide +kernel,mtdLaw_of_reachable flash8M h5⟩

/-- A call that ends is noted. -/
private theorem mem_done {c : MtdCall} {ret : Int} {s' : MtdState} {x : MtdHist} (h : c.exec cfg x.st = some (ret,s')) :
    ⟨x.st,c,ret,s'⟩ ∈ (c.run cfg x).done := by
  rw [MtdCall.run, h]
  exact List.mem_append_right _ List.mem_cons_self

/-- There is only a partition 1, and partition 0 is deleted: the call succeeds. -/
theorem mtdLaw_fails_delete_absent : ¬ ∀ x, Run.Reachable (mtdSystem flash8M) (fun _ _ => True) x → MtdLaw flash8M x := by
  intro hall
  have h0 : Run.Reachable (mtdSystem flash8M) (fun _ _ => True) ⟨⟨none,none,[],[]⟩,[]⟩ := .init rfl
  have h1 : Run.Reachable (mtdSystem flash8M) (fun _ _ => True) ((MtdCall.add (some "spinor") 0x100000 0x200000 1 granted).run flash8M _) :=
    .call h0 _ (by decide) trivial
  generalize hx : MtdCall.run flash8M _ _ = x at h1
  have hexec : ((MtdCall.delete 0 (some "spinor") ⟨0,0⟩).exec flash8M x.st).map Prod.fst = some ENOERR := by
    rw [← hx]
    decide +kernel
  obtain ⟨⟨ret,s'⟩,hs',rfl⟩ := Option.map_eq_some_iff.mp hexec
  have h2 := h1.call (.delete 0 (some "spinor") ⟨0,0⟩) (by decide : 0 < 2^32) trivial
  obtain ⟨f,l,p,r,hf,hp,-,hparts,-⟩ := (hall _ h2).done _ (mem_done hs') rfl
  obtain rfl : FlashType.spinor = f := Option.some.inj ((by decide : (some "spinor").bind flashType = some .spinor).symm.trans hf)
  have hnums : (parts x.st .spinor).map (·.patitionnum) = [1] := by
    rw [← hx]
    decide +kernel
  rw [hparts, List.map_append, List.map_cons, hp] at hnums
  exact absurd (hnums ▸ List.mem_append_right _ List.mem_cons_self : 0 ∈ [1]) (by decide)

end

end LiteOsKernel.Drivers
