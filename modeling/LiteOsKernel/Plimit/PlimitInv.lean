import LiteOsKernel.Plimit.Plimits
import Mathlib.Data.List.Nodup

/-! Limiter sets between two calls: each limited process is in one set, whose counters are those of its processes. -/
namespace LiteOsKernel.Plimit

/-- The state, the processes that have been put into a set and have not exited, and the bytes charged to each process. -/
structure LimitHist where
  s : PlimitState
  limited : Nat → Bool
  charged : Nat → Nat

inductive LimitCall where
  | addProcess (plimits : Option Nat) (p : Nat)
  | create (parent run : Nat) (new : Option Nat) (pidAlloc memAlloc : Bool)
  | addPid (plimits : Option Nat) (pid : Nat) (inactive : Bool)
  | exit (p : Nat)
  | free (curr : Option Nat)
  | memAdd (run : Nat) (size : UInt32)
  | memFree (run : Nat) (size : UInt32)
  | setPidLimit (plimits : Nat) (pidMax : UInt32)
  | setMemLimit (plimits : Nat) (value : UInt64)

/-- OsProcLimiterSetInit: the root at its address. -/
def osProcLimiterSetInit (root : Nat) (pcb : Nat → ProcessCB) : PlimitState :=
  ⟨root,Function.update (fun _ => none) root
    (some ⟨none,[],0,pidLimiterInit pidLimiterAlloc,osMemLimiterInit osMemLimiterAlloc⟩),pcb⟩

/-- No process has moved. -/
def SameSets (s s' : PlimitState) : Prop :=
  (∀ p, (s'.pcb p).plimits = (s.pcb p).plimits) ∧
    ∀ a, (s'.sets a).map ProcLimiterSet.processList = (s.sets a).map ProcLimiterSet.processList

structure LimitLaw (x : LimitHist) : Prop where
  one : ∀ p, x.limited p = true → ∃ a, (∃ set ∈ x.s.sets a, p ∈ set.processList) ∧
    ∀ b, ∀ set ∈ x.s.sets b, p ∈ set.processList → b = a
  nodup : ∀ a, ∀ set ∈ x.s.sets a, set.processList.Nodup
  count : ∀ a, ∀ set ∈ x.s.sets a, set.pidCount.toNat = set.processList.length ∧
    set.pids.pidCount.toNat = set.processList.length ∧ set.processList.length ≤ set.pids.pidLimit.toNat
  usage : ∀ a, ∀ set ∈ x.s.sets a, set.mem.usage.toNat = (set.processList.map fun p => (x.s.pcb p).memUsed.toNat).sum ∧
    set.mem.usage ≤ set.mem.limit
  charged : ∀ p, (x.s.pcb p).memUsed.toNat = x.charged p

namespace LimitCall

/-- The state after a call and whether it reports success. -/
def exec (s : PlimitState) : LimitCall → Option (PlimitState × Bool)
  | addProcess plimits p => (plimitsAddProcess s plimits p).map fun r => (r.1,decide (r.2 = LOS_OK))
  | create parent run new pidAlloc memAlloc => (osPLimitsCreate s parent run new pidAlloc memAlloc).map fun r => (r.1,r.2.isSome)
  | addPid plimits pid inactive => (osPLimitsAddPid s plimits pid inactive).map fun r => (r.1,decide (r.2 = LOS_OK))
  | exit p => (plimitsDeleteProcess s p).map fun s => (s,true)
  | free curr => (osPLimitsFree s curr).map fun r => (r.1,decide (r.2 = LOS_OK))
  | memAdd run size => (osMemLimitCheckAndMemAdd s run size).map fun r => (r.1,decide (r.2 = LOS_OK))
  | memFree run size => (osMemLimitMemFree s run size).map fun s => (s,true)
  | setPidLimit plimits pidMax => (pidLimitSetPidLimit s plimits pidMax).map fun r => (r.1,decide (r.2 = LOS_OK))
  | setMemLimit plimits value => (osMemLimitSetMemLimit s plimits value).map fun r => (r.1,decide (r.2 = LOS_OK))

/-- The bytes that are charged to a process in a set: as many as it added, less those that it freed. -/
def charge (x : LimitHist) (ok : Bool) : LimitCall → Nat → Nat
  | memAdd run size =>
    if ok = true ∧ (x.s.pcb run).plimits.isSome = true then Function.update x.charged run (x.charged run + size.toNat) else x.charged
  | memFree run size =>
    if size.toNat ≤ x.charged run ∧ (x.s.pcb run).plimits.isSome = true then
      Function.update x.charged run (x.charged run - size.toNat)
    else x.charged
  | _ => x.charged

/-- The process that exits. -/
def exits : LimitCall → Option Nat
  | exit p => some p
  | _ => none

def run (x : LimitHist) (c : LimitCall) : LimitHist :=
  match c.exec x.s with
  | some (s,ok) => ⟨s,fun p => decide (c.exits ≠ some p) && (x.limited p || (s.pcb p).plimits.isSome),c.charge x ok⟩
  | none => x

/-- Callers pass sets that are allocated, the root is not freed, and new memory is not that of another set. -/
def Pre (x : LimitHist) : LimitCall → Prop
  | addProcess plimits _ | addPid plimits .. => ∀ a ∈ plimits, x.s.sets a ≠ none
  | create parent _ new .. => x.s.sets parent ≠ none ∧ ∀ a ∈ new, x.s.sets a = none
  | free curr => ∀ a ∈ curr, x.s.sets a ≠ none ∧ a ≠ x.s.g_rootPLimite
  | setPidLimit a _ | setMemLimit a _ => x.s.sets a ≠ none
  | exit _ | memAdd .. | memFree .. => True

/-- A sum that passes its check does not wrap. -/
def NoWrap (usage size limit : UInt64) : Prop := usage + size ≤ limit → usage.toNat + size.toNat < 2^64

instance (usage size limit : UInt64) : Decidable (NoWrap usage size limit) := inferInstanceAs (Decidable (_ → _))

/-- The condition: the sums of bytes that are compared with a limit do not wrap; a new set for which memory is found either takes
the process that creates it, or has no memory for its second limiter when its parent is full; the parent of a set that is freed is
allocated; and a process does not free exactly all bytes that it has. -/
def Ok (x : LimitHist) : LimitCall → Prop
  | addProcess plimits p =>
    ∀ set ∈ x.s.sets (plimits.getD x.s.g_rootPLimite), NoWrap set.mem.usage (x.s.pcb p).memUsed set.mem.limit
  | addPid plimits pid _ => ∀ a ∈ plimits, ∀ set ∈ x.s.sets a, NoWrap set.mem.usage (x.s.pcb pid).memUsed set.mem.limit
  | create parent run new pidAlloc memAlloc => new ≠ none → pidAlloc = true → ∀ set ∈ x.s.sets parent,
    if memAlloc = true then x.limited run = true → (x.s.pcb run).memUsed ≤ set.mem.limit
    else set.pids.pidCount ≥ set.pids.pidLimit
  | free curr => ∀ a ∈ curr, ∀ set ∈ x.s.sets a, ∀ b ∈ set.parent, x.s.sets b ≠ none ∧
    ∀ parent ∈ x.s.sets b, NoWrap set.mem.usage parent.mem.usage parent.mem.limit
  | memAdd run size => ∀ a ∈ (x.s.pcb run).plimits, ∀ set ∈ x.s.sets a, NoWrap set.mem.usage size.toUInt64 set.mem.limit
  | memFree run size => (x.s.pcb run).plimits ≠ none → size ≠ 0 → (x.s.pcb run).memUsed ≠ size.toUInt64
  | exit _ | setPidLimit .. | setMemLimit .. => True

def Law (x : LimitHist) (c : LimitCall) : Prop :=
  ∃ r, c.exec x.s = some r ∧ LimitLaw (c.run x) ∧ (r.2 = false → SameSets x.s r.1)

end LimitCall

/-- The root set alone, and processes in no set. -/
@[reducible] def limitSystem : Run.System LimitHist LimitCall where
  init x := (∃ root, x.s = osProcLimiterSetInit root x.s.pcb) ∧ (∀ p, (x.s.pcb p).plimits = none) ∧ (∀ p, x.limited p = false) ∧
    ∀ p, (x.s.pcb p).memUsed.toNat = x.charged p
  pre x c := c.Pre x
  run x c := c.run x

/-- The processes of a set and its counters. -/
structure SetInv (pcb : Nat → ProcessCB) (a : Nat) (set : ProcLimiterSet) : Prop where
  nodup : set.processList.Nodup
  mem_iff : ∀ p, p ∈ set.processList ↔ (pcb p).plimits = some a
  pidCount : set.pidCount.toNat = set.processList.length
  pids : set.pids.pidCount.toNat = set.processList.length
  le : set.processList.length ≤ set.pids.pidLimit.toNat
  pos : 0 < set.pids.pidLimit.toNat
  max : set.pids.pidLimit.toNat ≤ 64
  usage : set.mem.usage.toNat = (set.processList.map fun p => (pcb p).memUsed.toNat).sum
  usage_le : set.mem.usage.toNat ≤ set.mem.limit.toNat

structure Consistent (s : PlimitState) : Prop where
  set : ∀ a, ∀ set ∈ s.sets a, SetInv s.pcb a set
  root : s.sets s.g_rootPLimite ≠ none
  live : ∀ p, ∀ a ∈ (s.pcb p).plimits, s.sets a ≠ none
  parent : ∀ a, ∀ set ∈ s.sets a, set.parent ≠ some a ∧ (a ≠ s.g_rootPLimite → set.parent ≠ none)

variable {x : LimitHist} {s s' : PlimitState} {a b p q : Nat} {set set' : ProcLimiterSet} {pcb pcb' : ProcessCB} {l : List Nat}

/-- The sum over a list in which one member's amount changes. -/
theorem sum_map_update {f g : Nat → Nat} (hd : l.Nodup) (hp : p ∈ l) (h : ∀ q ∈ l, q ≠ p → g q = f q) :
    (l.map g).sum + f p = (l.map f).sum + g p := by
  have hother : ((l.erase p).map g).sum = ((l.erase p).map f).sum := by
    refine congrArg List.sum (List.map_congr_left fun q hq => h q (List.mem_of_mem_erase hq) ?_)
    rintro rfl
    exact hd.not_mem_erase hq
  rw [← List.sum_map_erase f hp, ← List.sum_map_erase g hp, hother]
  omega

/-- What happens to other processes does not matter to a set. -/
theorem SetInv.frame {f g : Nat → ProcessCB} (h : SetInv f a set) (hp : ∀ p, (g p).plimits = some a ↔ (f p).plimits = some a)
    (hm : ∀ p ∈ set.processList, (g p).memUsed = (f p).memUsed) : SetInv g a set :=
  ⟨h.nodup,fun p => (h.mem_iff p).trans (hp p).symm,h.pidCount,h.pids,h.le,h.pos,h.max,
    h.usage.trans (congrArg List.sum (List.map_congr_left fun p hq => by rw [hm p hq])),h.usage_le⟩

/-- A set and a process that is in no other set change together. -/
theorem Consistent.edit (h : Consistent s) (ha : s.sets a = some set) (hset : SetInv (Function.update s.pcb p pcb) a set')
    (hparent : set'.parent = set.parent) (hp : ∀ b ∈ (s.pcb p).plimits, b = a) (hp' : ∀ b ∈ pcb.plimits, b = a) :
    Consistent ((s.setSet a set').setPcb p pcb) := by
  have hlive : ∀ b, s.sets b ≠ none → Function.update s.sets a (some set') b ≠ none := by
    intro b hb
    rw [Function.update_apply]
    split_ifs
    · exact Option.some_ne_none set'
    · exact hb
  refine ⟨fun b set₁ hb => ?_,hlive _ h.root,fun q b hq => ?_,fun b set₁ hb => ?_⟩
  · change Function.update s.sets a (some set') b = some set₁ at hb
    rw [Function.update_apply] at hb
    split_ifs at hb with hba
    · rw [hba, ← Option.some.inj hb]
      exact hset
    · refine (h.set b set₁ hb).frame (fun q => ?_) fun q hq => ?_
      · change (Function.update s.pcb p pcb q).plimits = some b ↔ _
        rw [Function.update_apply]
        split_ifs with hqp
        · subst hqp
          exact ⟨fun hc => absurd (hp' b hc) hba,fun hc => absurd (hp b hc) hba⟩
        · rfl
      · change (Function.update s.pcb p pcb q).memUsed = _
        rw [Function.update_of_ne]
        rintro rfl
        exact hba (hp b (((h.set b set₁ hb).mem_iff q).mp hq))
  · change (Function.update s.pcb p pcb q).plimits = some b at hq
    refine hlive b ?_
    rw [Function.update_apply] at hq
    split_ifs at hq
    · rw [hp' b hq, ha]
      exact Option.some_ne_none set
    · exact h.live q b hq
  · change Function.update s.sets a (some set') b = some set₁ at hb
    rw [Function.update_apply] at hb
    split_ifs at hb with hba
    · rw [hba, ← Option.some.inj hb, hparent]
      exact h.parent a set ha
    · exact h.parent b set₁ hb

theorem SetInv.mem (h : SetInv s.pcb a set) (hp : (s.pcb p).plimits = some a) : p ∈ set.processList := (h.mem_iff p).mpr hp

/-- One process has at most what the set has. -/
theorem SetInv.memUsed_le (h : SetInv s.pcb a set) (hp : (s.pcb p).plimits = some a) : (s.pcb p).memUsed.toNat ≤ set.mem.usage.toNat := by
  rw [h.usage, ← List.sum_map_erase _ (h.mem hp)]
  exact Nat.le_add_right _ _

private theorem toNat_pred {n : UInt32} (h : 0 < n.toNat) : (n - 1).toNat = n.toNat - 1 :=
  UInt32.toNat_sub_of_le n 1 (UInt32.le_iff_toNat_le.mpr h)

private theorem toNat_succ {n : UInt32} (h : n.toNat < 64) : (n + 1).toNat = n.toNat + 1 := by
  rw [UInt32.toNat_add]
  exact Nat.mod_eq_of_lt (show n.toNat + 1 < 2^32 by omega)

theorem toNat_sub {m n : UInt64} (h : n.toNat ≤ m.toNat) : (m - n).toNat = m.toNat - n.toNat :=
  UInt64.toNat_sub_of_le m n (UInt64.le_iff_toNat_le.mpr h)

theorem toNat_add {m n : UInt64} (h : m.toNat + n.toNat < 2^64) : (m + n).toNat = m.toNat + n.toNat := by
  rw [UInt64.toNat_add]
  exact Nat.mod_eq_of_lt h

theorem SetInv.delProcess (h : SetInv s.pcb a set) (hp : (s.pcb p).plimits = some a) :
    SetInv (Function.update s.pcb p { s.pcb p with plimits := none }) a (set.delProcess p (s.pcb p)) := by
  have hmem := h.mem hp
  have hpos : 0 < set.processList.length := List.length_pos_of_mem hmem
  have hlen : (set.processList.erase p).length = set.processList.length - 1 := List.length_erase_of_mem hmem
  refine ⟨h.nodup.erase p,fun q => ?_,?_,?_,?_,h.pos,h.max,?_,?_⟩
  · change q ∈ set.processList.erase p ↔ _
    rw [h.nodup.mem_erase_iff, h.mem_iff, Function.update_apply]
    split_ifs with hq
    · simp [hq]
    · simp [hq]
  · change (set.pidCount - 1).toNat = (set.processList.erase p).length
    rw [hlen, toNat_pred (h.pidCount ▸ hpos), h.pidCount]
  · change (set.pids.pidCount - 1).toNat = (set.processList.erase p).length
    rw [hlen, toNat_pred (h.pids ▸ hpos), h.pids]
  · change (set.processList.erase p).length ≤ _
    rw [hlen]
    exact (Nat.sub_le _ 1).trans h.le
  · change (set.mem.usage - (s.pcb p).memUsed).toNat = ((set.processList.erase p).map _).sum
    rw [toNat_sub (h.memUsed_le hp), h.usage, ← List.sum_map_erase _ hmem, Nat.add_sub_cancel_left]
    refine congrArg List.sum (List.map_congr_left fun q hq => ?_)
    have hne : q ≠ p := fun he => h.nodup.not_mem_erase (he ▸ hq)
    rw [Function.update_of_ne hne]
  · change (set.mem.usage - (s.pcb p).memUsed).toNat ≤ _
    rw [toNat_sub (h.memUsed_le hp)]
    exact (Nat.sub_le _ _).trans h.usage_le

/-- A process in no set fits into the set. -/
structure Room (set : ProcLimiterSet) (pcb : ProcessCB) : Prop where
  pids : set.processList.length < set.pids.pidLimit.toNat
  mem : set.mem.usage.toNat + pcb.memUsed.toNat ≤ set.mem.limit.toNat

theorem SetInv.addProcess (h : SetInv s.pcb a set) (hp : (s.pcb p).plimits = none) (hroom : Room set (s.pcb p)) :
    SetInv (Function.update s.pcb p { s.pcb p with plimits := some a }) a (set.addProcess p (s.pcb p)) := by
  have hmem : p ∉ set.processList := fun hm => Option.some_ne_none a (((h.mem_iff p).mp hm).symm.trans hp)
  have hlen : (set.processList ++ [p]).length = set.processList.length + 1 := by rw [List.length_append, List.length_singleton]
  have hlt : set.processList.length < 64 := hroom.pids.trans_le h.max
  have husage : (set.mem.usage + (s.pcb p).memUsed).toNat = set.mem.usage.toNat + (s.pcb p).memUsed.toNat :=
    toNat_add (hroom.mem.trans_lt set.mem.limit.toNat_lt)
  refine ⟨?_,fun q => ?_,?_,?_,?_,h.pos,h.max,?_,?_⟩
  · exact List.nodup_append.mpr ⟨h.nodup,List.nodup_singleton p,fun q hq r hr => by
      rw [List.mem_singleton.mp hr]
      exact ne_of_mem_of_not_mem hq hmem⟩
  · change q ∈ set.processList ++ [p] ↔ _
    rw [List.mem_append, List.mem_singleton, h.mem_iff, Function.update_apply]
    split_ifs with hq
    · simp [hq]
    · simp [hq]
  · change (set.pidCount + 1).toNat = (set.processList ++ [p]).length
    rw [hlen, toNat_succ (h.pidCount ▸ hlt), h.pidCount]
  · change (set.pids.pidCount + 1).toNat = (set.processList ++ [p]).length
    rw [hlen, toNat_succ (h.pids ▸ hlt), h.pids]
  · change (set.processList ++ [p]).length ≤ _
    rw [hlen]
    exact hroom.pids
  · change (set.mem.usage + (s.pcb p).memUsed).toNat = ((set.processList ++ [p]).map _).sum
    rw [husage, h.usage, List.map_append, List.sum_append, List.map_singleton, List.sum_singleton, Function.update_self]
    refine congrArg (· + _) (congrArg List.sum (List.map_congr_left fun q hq => ?_))
    rw [Function.update_of_ne (ne_of_mem_of_not_mem hq hmem)]
  · change (set.mem.usage + (s.pcb p).memUsed).toNat ≤ _
    rw [husage]
    exact hroom.mem

/-- What taking a process out of its set changes. -/
structure Removed (s : PlimitState) (p : Nat) (s' : PlimitState) : Prop where
  root : s'.g_rootPLimite = s.g_rootPLimite
  self : s'.pcb p = { s.pcb p with plimits := none }
  other : ∀ q, q ≠ p → s'.pcb q = s.pcb q
  sets : ∀ a, (s.pcb p).plimits ≠ some a → s'.sets a = s.sets a
  left : ∀ a ∈ (s.pcb p).plimits, ∀ set ∈ s.sets a, s'.sets a = some (set.delProcess p (s.pcb p))

theorem Consistent.delete (h : Consistent s) (p : Nat) :
    ∃ s', plimitsDeleteProcess s p = some s' ∧ Consistent s' ∧ Removed s p s' := by
  rw [plimitsDeleteProcess]
  cases hp : (s.pcb p).plimits with
  | none =>
    refine ⟨s,rfl,h,⟨rfl,?_,fun _ _ => rfl,fun _ _ => rfl,fun a ha => ?_⟩⟩
    · rw [← hp]
    · rw [hp] at ha
      cases ha
  | some a =>
    obtain ⟨set,ha⟩ := Option.ne_none_iff_exists'.mp (h.live p a hp)
    refine ⟨_,by dsimp only; rw [ha]; rfl,h.edit ha ((h.set a set ha).delProcess hp) rfl (fun b hb => ?_) (fun b hb => ?_),
      ⟨rfl,Function.update_self _ _ _,fun q hq => Function.update_of_ne hq _ _,fun b hb => ?_,fun b hb set₁ hset => ?_⟩⟩
    · exact (Option.some.inj (hp.symm.trans hb)).symm
    · cases hb
    · refine Function.update_of_ne ?_ _ _
      rintro rfl
      exact hb hp
    · obtain rfl : a = b := Option.some.inj (hp.symm.trans hb)
      obtain rfl : set = set₁ := Option.some.inj (ha.symm.trans hset)
      exact Function.update_self _ _ _

/-- What putting a process into a set changes. -/
structure Linked (s : PlimitState) (a p : Nat) (s' : PlimitState) : Prop where
  root : s'.g_rootPLimite = s.g_rootPLimite
  self : s'.pcb p = { s.pcb p with plimits := some a }
  other : ∀ q, q ≠ p → s'.pcb q = s.pcb q
  sets : ∀ b, b ≠ a → s'.sets b = s.sets b
  joined : ∀ set ∈ s.sets a, s'.sets a = some (set.addProcess p (s.pcb p))

theorem Consistent.link (h : Consistent s) (ha : s.sets a = some set) (hp : (s.pcb p).plimits = none) (hroom : Room set (s.pcb p)) :
    ∃ s', plimitsLinkProcess s a p = some s' ∧ Consistent s' ∧ Linked s a p s' := by
  refine ⟨_,by rw [plimitsLinkProcess, ha]; rfl,h.edit ha ((h.set a set ha).addProcess hp hroom) rfl (fun b hb => ?_) (fun b hb => ?_),
    ⟨rfl,Function.update_self _ _ _,fun q hq => Function.update_of_ne hq _ _,fun b hb => Function.update_of_ne hb _ _,
      fun set₁ hset => ?_⟩⟩
  · rw [hp] at hb
    cases hb
  · exact (Option.some.inj hb).symm
  · obtain rfl : set = set₁ := Option.some.inj (ha.symm.trans hset)
    exact Function.update_self _ _ _

/-- No process has lost its set, and the bytes of all processes are the same. -/
structure Kept (s s' : PlimitState) : Prop where
  memUsed : ∀ p, (s'.pcb p).memUsed = (s.pcb p).memUsed
  plimits : ∀ p, (s.pcb p).plimits ≠ none → (s'.pcb p).plimits ≠ none

theorem Kept.refl (s : PlimitState) : Kept s s := ⟨fun _ => rfl,fun _ => id⟩

theorem Kept.trans {s'' : PlimitState} (h : Kept s s') (h' : Kept s' s'') : Kept s s'' :=
  ⟨fun p => (h'.memUsed p).trans (h.memUsed p),fun p hp => h'.plimits p (h.plimits p hp)⟩

/-- A process that left its set and was put into another one. -/
theorem Kept.move {s₁ : PlimitState} (hr : Removed s p s₁) (hl : Linked s₁ a p s') : Kept s s' := by
  refine ⟨fun q => ?_,fun q hq => ?_⟩
  · by_cases hqp : q = p
    · rw [hqp, hl.self, hr.self]
    · rw [hl.other q hqp, hr.other q hqp]
  · by_cases hqp : q = p
    · rw [hqp, hl.self]
      exact Option.some_ne_none a
    · rwa [hl.other q hqp, hr.other q hqp]

theorem SameSets.refl (s : PlimitState) : SameSets s s := ⟨fun _ => rfl,fun _ => rfl⟩

/-- The checks of the limiters accept a process that fits. -/
private theorem Room.checks (h : SetInv s.pcb a set) (hroom : Room set pcb) :
    osPidLimitAddProcessCheck set.pids = true ∧ osMemLimitAddProcessCheck set.mem pcb = true := by
  have husage : (set.mem.usage + pcb.memUsed).toNat = set.mem.usage.toNat + pcb.memUsed.toNat :=
    toNat_add (hroom.mem.trans_lt set.mem.limit.toNat_lt)
  refine ⟨decide_eq_true fun hge => ?_,decide_eq_true fun hgt => ?_⟩
  · have := UInt32.le_iff_toNat_le.mp hge
    have := hroom.pids
    rw [← h.pids] at this
    omega
  · have := UInt64.lt_iff_toNat_lt.mp hgt
    rw [husage] at this
    exact absurd hroom.mem (Nat.not_le.mpr this)

/-- A process that the checks accept fits when its bytes do not wrap the sum. -/
theorem SetInv.room (h : SetInv s.pcb a set) (hw : LimitCall.NoWrap set.mem.usage pcb.memUsed set.mem.limit)
    (hpids : osPidLimitAddProcessCheck set.pids = true) (hmem : osMemLimitAddProcessCheck set.mem pcb = true) : Room set pcb := by
  have hlt : set.pids.pidCount < set.pids.pidLimit := UInt32.not_le.mp (of_decide_eq_true hpids)
  have hle : set.mem.usage + pcb.memUsed ≤ set.mem.limit := UInt64.not_lt.mp (of_decide_eq_true hmem)
  refine ⟨h.pids ▸ UInt32.lt_iff_toNat_lt.mp hlt,?_⟩
  rw [← toNat_add (hw hle)]
  exact UInt64.le_iff_toNat_le.mp hle

/-- A process in no set is put into one where it fits. -/
theorem plimitsAddProcess_room (h : Consistent s) (ha : s.sets a = some set) (hp : (s.pcb p).plimits = none) (hroom : Room set (s.pcb p)) :
    plimitsAddProcess s (some a) p = (plimitsLinkProcess s a p).map fun s => (s,LOS_OK) := by
  obtain ⟨hpids,hmem⟩ := hroom.checks (h.set a set ha)
  have hdelete : plimitsDeleteProcess s p = some s := by rw [plimitsDeleteProcess, hp]
  rw [plimitsAddProcess, Option.getD_some, hp, if_neg (Option.some_ne_none _).symm, if_neg (Option.some_ne_none _).symm, ha,
    Option.bind_some, if_neg (by simp [hpids, hmem]), hdelete, Option.bind_some]

end LiteOsKernel.Plimit
