import LiteOsKernel.Plimit.PlimitSteps

/-! Limiter sets along any run: each limited process is in one set, whose counters are those of its processes. -/
namespace LiteOsKernel.Plimit

variable {x : LimitHist} {s s' : PlimitState} {a b p q : Nat} {set set' : ProcLimiterSet} {pcb pcb' : ProcessCB} {l : List Nat}

/-- The sets are consistent, the limited processes are those in a set, and the bytes of each process are those charged to it. -/
structure LimitInv (x : LimitHist) : Prop where
  consistent : Consistent x.s
  limited : ∀ p, x.limited p = (x.s.pcb p).plimits.isSome
  charged : ∀ p, (x.s.pcb p).memUsed.toNat = x.charged p

namespace LimitInv

theorem law (h : LimitInv x) : LimitLaw x := by
  refine ⟨fun p hp => ?_,fun a set ha => (h.consistent.set a set ha).nodup,fun a set ha => ?_,fun a set ha => ?_,h.charged⟩
  · rw [h.limited, Option.isSome_iff_exists] at hp
    obtain ⟨a,hp⟩ := hp
    obtain ⟨set,ha⟩ := Option.ne_none_iff_exists'.mp (h.consistent.live p a hp)
    refine ⟨a,⟨set,ha,(h.consistent.set a set ha).mem hp⟩,fun b set' hb hmem => ?_⟩
    exact Option.some.inj ((((h.consistent.set b set' hb).mem_iff p).mp hmem).symm.trans hp)
  · have hset := h.consistent.set a set ha
    exact ⟨hset.pidCount,hset.pids,hset.le⟩
  · have hset := h.consistent.set a set ha
    exact ⟨hset.usage,UInt64.le_iff_toNat_le.mpr hset.usage_le⟩

/-- The state after a call that ends in s' and charges n to each process. -/
private theorem of_exec (h : LimitInv x) {c : LimitCall} {ok : Bool} (hexec : c.exec x.s = some (s',ok)) (hs : Consistent s')
    (hp : ∀ p, c.exits ≠ some p → (x.s.pcb p).plimits ≠ none → (s'.pcb p).plimits ≠ none)
    (he : ∀ p, c.exits = some p → (s'.pcb p).plimits = none) (hc : ∀ p, (s'.pcb p).memUsed.toNat = c.charge x ok p) :
    LimitInv (c.run x) := by
  rw [LimitCall.run, hexec]
  refine ⟨hs,fun p => ?_,hc⟩
  dsimp only
  rw [h.limited p]
  by_cases hexit : c.exits = some p
  · rw [he p hexit]
    simp [hexit]
  · have hkeep := hp p hexit
    cases hold : (x.s.pcb p).plimits <;> cases hnew : (s'.pcb p).plimits <;> simp_all

/-- A call that keeps the bytes of all processes and lets none leave its set. -/
theorem of_kept (h : LimitInv x) {c : LimitCall} {ok : Bool} (hexec : c.exec x.s = some (s',ok)) (hs : Consistent s') (hk : Kept x.s s')
    (hexit : c.exits = none) (hcharge : c.charge x ok = x.charged) : LimitInv (c.run x) := by
  refine h.of_exec hexec hs (fun p _ => hk.plimits p) (fun p hp => ?_) fun p => ?_
  · rw [hexit] at hp
    cases hp
  · rw [hcharge, hk.memUsed p, h.charged p]

/-- A call that changes the bytes of one process. -/
private theorem of_charged (h : LimitInv x) {c : LimitCall} {ok : Bool} {n : Nat} (hexec : c.exec x.s = some (s',ok)) (hs : Consistent s')
    (hk : Charged x.s p n s') (hexit : c.exits = none) (hself : c.charge x ok p = n) (hother : ∀ q, q ≠ p → c.charge x ok q = x.charged q) :
    LimitInv (c.run x) := by
  refine h.of_exec hexec hs (fun q _ hq => ?_) (fun q hq => ?_) fun q => ?_
  · rwa [hk.plimits q]
  · rw [hexit] at hq
    cases hq
  · by_cases hqp : q = p
    · rw [hqp, hk.self, hself]
    · rw [hother q hqp, hk.other q hqp, h.charged q]

/-- Each call that meets the condition keeps the invariant, and moves no process when it fails. -/
theorem step (h : LimitInv x) {c : LimitCall} (hp : c.Pre x) (hok : c.Ok x) :
    ∃ r, c.exec x.s = some r ∧ LimitInv (c.run x) ∧ (r.2 = false → SameSets x.s r.1) := by
  have hcons := h.consistent
  cases c with
  | addProcess plimits p =>
    have hlive : x.s.sets (plimits.getD x.s.g_rootPLimite) ≠ none := by
      cases plimits with
      | none => exact hcons.root
      | some a => exact hp a rfl
    obtain ⟨r,hadd,hs,hk,hsame⟩ := hcons.add plimits p hlive hok
    have hexec : (LimitCall.addProcess plimits p).exec x.s = some (r.1,decide (r.2 = LOS_OK)) := by rw [LimitCall.exec, hadd]; rfl
    exact ⟨_,hexec,h.of_kept hexec hs hk rfl rfl,fun hf => hsame (of_decide_eq_false hf) ▸ .refl x.s⟩
  | create parent run new pidAlloc memAlloc =>
    obtain ⟨r,hcreate,hs,hk,hsame⟩ := hcons.create parent run new pidAlloc memAlloc hp.1 hp.2 fun hnew hpid set hset => by
      have hcond := hok hnew hpid set hset
      split_ifs at hcond ⊢ with hmem
      · exact fun hrun => hcond (by rw [h.limited]; exact Option.isSome_iff_ne_none.mpr hrun)
      · exact hcond
    have hexec : (LimitCall.create parent run new pidAlloc memAlloc).exec x.s = some (r.1,r.2.isSome) := by
      rw [LimitCall.exec, hcreate]; rfl
    exact ⟨_,hexec,h.of_kept hexec hs hk rfl rfl,fun hf => hsame (Option.isSome_eq_false_iff.mp hf |> Option.isNone_iff_eq_none.mp) ▸ .refl x.s⟩
  | addPid plimits pid inactive =>
    have hadd : ∃ r, osPLimitsAddPid x.s plimits pid inactive = some r ∧ Consistent r.1 ∧ Kept x.s r.1 ∧ (r.2 ≠ LOS_OK → r.1 = x.s) := by
      rw [osPLimitsAddPid]
      split_ifs with harg hroot hinactive
      · exact ⟨_,rfl,hcons,.refl x.s,fun _ => rfl⟩
      · exact ⟨_,rfl,hcons,.refl x.s,fun _ => rfl⟩
      · exact ⟨_,rfl,hcons,.refl x.s,fun _ => rfl⟩
      · cases plimits with
        | none => exact absurd (.inl rfl) harg
        | some a => exact hcons.add (some a) pid (hp a rfl) (hok a rfl)
    obtain ⟨r,hadd,hs,hk,hsame⟩ := hadd
    have hexec : (LimitCall.addPid plimits pid inactive).exec x.s = some (r.1,decide (r.2 = LOS_OK)) := by rw [LimitCall.exec, hadd]; rfl
    exact ⟨_,hexec,h.of_kept hexec hs hk rfl rfl,fun hf => hsame (of_decide_eq_false hf) ▸ .refl x.s⟩
  | exit p =>
    obtain ⟨s',hdelete,hs,hr⟩ := hcons.delete p
    have hexec : (LimitCall.exit p).exec x.s = some (s',true) := by rw [LimitCall.exec, hdelete]; rfl
    refine ⟨_,hexec,h.of_exec hexec hs (fun q hq hin => ?_) (fun q hq => ?_) fun q => ?_,fun hf => absurd hf (show ¬ true = false by decide)⟩
    · rwa [hr.other q fun he => hq (he ▸ rfl)]
    · obtain rfl : p = q := Option.some.inj hq
      rw [hr.self]
    · by_cases hq : q = p
      · rw [hq, hr.self]
        exact h.charged p
      · rw [hr.other q hq]
        exact h.charged q
  | free curr =>
    obtain ⟨r,hfree,hs,hk,hsame⟩ := hcons.free curr hp hok
    have hexec : (LimitCall.free curr).exec x.s = some (r.1,decide (r.2 = LOS_OK)) := by rw [LimitCall.exec, hfree]; rfl
    exact ⟨_,hexec,h.of_kept hexec hs hk rfl rfl,fun hf => hsame (of_decide_eq_false hf) ▸ .refl x.s⟩
  | memAdd run size =>
    obtain ⟨r,hadd,hs,hsame,hk⟩ := hcons.memAdd run size hok
    have hexec : (LimitCall.memAdd run size).exec x.s = some (r.1,decide (r.2 = LOS_OK)) := by rw [LimitCall.exec, hadd]; rfl
    refine ⟨_,hexec,h.of_charged hexec hs hk rfl ?_ fun q hq => ?_,fun hf => hsame (of_decide_eq_false hf)⟩
    · by_cases hcond : r.2 = LOS_OK ∧ (x.s.pcb run).plimits.isSome = true
      · rw [LimitCall.charge, if_pos ⟨decide_eq_true hcond.1,hcond.2⟩, if_pos hcond, Function.update_self, h.charged run]
      · rw [LimitCall.charge, if_neg fun hc => hcond ⟨of_decide_eq_true hc.1,hc.2⟩, if_neg hcond, h.charged run, Nat.add_zero]
    · rw [LimitCall.charge]
      split_ifs
      · rw [Function.update_of_ne hq]
      · rfl
  | memFree run size =>
    obtain ⟨s',hfree,hs,hk⟩ := hcons.memFree run size
    have hexec : (LimitCall.memFree run size).exec x.s = some (s',true) := by rw [LimitCall.exec, hfree]; rfl
    refine ⟨_,hexec,h.of_charged hexec hs hk rfl ?_ fun q hq => ?_,fun hf => absurd hf (show ¬ true = false by decide)⟩
    · by_cases hin : (x.s.pcb run).plimits.isSome = true
      · -- a size that is charged in full is refused by the guard of the code, unless it is 0
        have hne : size.toNat = (x.s.pcb run).memUsed.toNat → size.toNat = 0 := by
          intro heq
          by_contra h0
          refine hok (Option.isSome_iff_ne_none.mp hin) (fun hz => h0 (hz ▸ rfl)) (UInt64.toNat_inj.mp ?_)
          rw [UInt32.toNat_toUInt64]
          exact heq.symm
        rw [LimitCall.charge, ← h.charged run]
        simp only [hin, and_true]
        split_ifs with h1 h2 h2
        · rw [Function.update_self]
        · rw [Function.update_self]
          omega
        · omega
        · exact (h.charged run).symm
      · rw [LimitCall.charge, if_neg fun hc => hin hc.2, if_neg fun hc => hin hc.2, h.charged run, Nat.sub_zero]
    · rw [LimitCall.charge]
      split_ifs
      · rw [Function.update_of_ne hq]
      · rfl
  | setPidLimit plimits pidMax =>
    obtain ⟨r,hset,hs,hpcb,hsame⟩ := hcons.setPidLimit hp pidMax
    have hexec : (LimitCall.setPidLimit plimits pidMax).exec x.s = some (r.1,decide (r.2 = LOS_OK)) := by rw [LimitCall.exec, hset]; rfl
    exact ⟨_,hexec,h.of_kept hexec hs ⟨fun p => by rw [hpcb],fun p => by rw [hpcb]; exact id⟩ rfl rfl,
      fun hf => hsame (of_decide_eq_false hf) ▸ .refl x.s⟩
  | setMemLimit plimits value =>
    obtain ⟨r,hset,hs,hpcb,hsame⟩ := hcons.setMemLimit hp value
    have hexec : (LimitCall.setMemLimit plimits value).exec x.s = some (r.1,decide (r.2 = LOS_OK)) := by rw [LimitCall.exec, hset]; rfl
    exact ⟨_,hexec,h.of_kept hexec hs ⟨fun p => by rw [hpcb],fun p => by rw [hpcb]; exact id⟩ rfl rfl,
      fun hf => hsame (of_decide_eq_false hf) ▸ .refl x.s⟩

end LimitInv

private theorem osProcLimiterSetInit_sets (root : Nat) (pcb : Nat → ProcessCB) (a : Nat) : (osProcLimiterSetInit root pcb).sets a =
    if a = root then some ⟨none,[],0,pidLimiterInit pidLimiterAlloc,osMemLimiterInit osMemLimiterAlloc⟩ else none := by
  simp only [osProcLimiterSetInit, Function.update_apply]

private theorem limitInv_of_reachable (h : Run.Reachable limitSystem (fun x c => c.Ok x) x) : LimitInv x := by
  refine h.invariant (fun x hx => ?_) fun x c hi hp hok => ?_
  · obtain ⟨⟨root,hs⟩,hout,hlimited,hcharged⟩ := hx
    have hsets : ∀ a, ∀ set ∈ x.s.sets a, a = root ∧
        set = ⟨none,[],0,pidLimiterInit pidLimiterAlloc,osMemLimiterInit osMemLimiterAlloc⟩ := by
      intro a set ha
      rw [hs, osProcLimiterSetInit_sets] at ha
      split_ifs at ha with hroot
      · exact ⟨hroot,(Option.some.inj ha).symm⟩
      · cases ha
    have hroot : x.s.g_rootPLimite = root := by rw [hs]; rfl
    refine ⟨⟨fun a set ha => ?_,?_,fun p a hp => ?_,fun a set ha => ?_⟩,fun p => by rw [hlimited, hout]; rfl,hcharged⟩
    · obtain ⟨-,rfl⟩ := hsets a set ha
      exact ⟨List.nodup_nil,fun p => ⟨fun hm => absurd hm List.not_mem_nil,fun hc => absurd ((hout p).symm.trans hc) (Option.some_ne_none a).symm⟩,
        rfl,rfl,Nat.zero_le _,by decide,by decide,rfl,Nat.zero_le _⟩
    · rw [hroot, hs, osProcLimiterSetInit_sets, if_pos rfl]
      exact Option.some_ne_none _
    · exact absurd ((hout p).symm.trans hp) (Option.some_ne_none a).symm
    · obtain ⟨rfl,rfl⟩ := hsets a set ha
      exact ⟨(Option.some_ne_none a).symm,fun hne => absurd hroot.symm hne⟩
  · obtain ⟨r,hexec,h',-⟩ := hi.step hp hok
    exact h'

/-- Along every run whose calls meet the condition the accounts are right, and each next call that meets it does what is claimed of
it: it ends, keeps the accounts right, and moves no process when it fails. -/
theorem limit_law_of_ok (h : Run.Reachable limitSystem (fun x c => c.Ok x) x) :
    LimitLaw x ∧ ∀ c : LimitCall, c.Pre x → c.Ok x → c.Law x := by
  have hi := limitInv_of_reachable h
  refine ⟨hi.law,fun c hp hok => ?_⟩
  obtain ⟨r,hexec,h',hsame⟩ := hi.step hp hok
  exact ⟨r,hexec,h'.law,hsame⟩

/-- The root at 0, and processes without memory. -/
def startLimit : LimitHist := ⟨osProcLimiterSetInit 0 fun _ => ⟨none,0⟩,fun _ => false,fun _ => 0⟩

private theorem startLimit_init : limitSystem.init startLimit := ⟨⟨0,rfl⟩,fun _ => rfl,fun _ => rfl,fun _ => rfl⟩

/-- Process 2 is put into the root and creates the set 1, is charged 100 bytes and frees 40 of them; it goes back to the root when
the set is freed. -/
theorem limit_law_free : ∃ x, Run.Reachable limitSystem (fun x c => c.Ok x) x ∧ (x.s.pcb 2).plimits = some 0 ∧
    x.charged 2 = 60 ∧ LimitLaw x := by
  have h0 : Run.Reachable limitSystem (fun x c => c.Ok x) startLimit := .init startLimit_init
  have h1 : Run.Reachable limitSystem (fun x c => c.Ok x) _ := .call h0 (.addProcess none 2) (fun a ha => by cases ha)
    (show ∀ set ∈ PlimitState.sets _ _, LimitCall.NoWrap _ _ _ by decide +kernel)
  have h2 : Run.Reachable limitSystem (fun x c => c.Ok x) _ := .call h1 (.create 0 2 (some 1) true true)
    (show PlimitState.sets _ _ ≠ none ∧ ∀ a ∈ some 1, PlimitState.sets _ a = none by decide +kernel)
    (fun _ _ => show ∀ set ∈ PlimitState.sets _ _, _ → _ ≤ ProcMemLimiter.limit _ by decide +kernel)
  have h3 : Run.Reachable limitSystem (fun x c => c.Ok x) _ := .call h2 (.memAdd 2 100) trivial
    (show ∀ a ∈ ProcessCB.plimits _, ∀ set ∈ PlimitState.sets _ a, LimitCall.NoWrap _ _ _ by decide +kernel)
  have h4 : Run.Reachable limitSystem (fun x c => c.Ok x) _ := .call h3 (.memFree 2 40) trivial
    (fun _ _ => by decide +kernel)
  have h5 : Run.Reachable limitSystem (fun x c => c.Ok x) _ := .call h4 (.free (some 1))
    (show ∀ a ∈ some 1, PlimitState.sets _ a ≠ none ∧ a ≠ _ by decide +kernel)
    (show ∀ a ∈ some 1, ∀ set ∈ PlimitState.sets _ a, ∀ b ∈ ProcLimiterSet.parent _, PlimitState.sets _ b ≠ none ∧
      ∀ parent ∈ PlimitState.sets _ b, LimitCall.NoWrap _ _ _ by decide +kernel)
  exact ⟨_,h5,by decide +kernel,by decide +kernel,(limit_law_of_ok h5).1⟩

/-- Process 2 frees exactly what it was charged, and both counts stay. -/
theorem limit_law_fails_free_all : ¬ ∀ x, Run.Reachable limitSystem (fun _ _ => True) x → LimitLaw x := by
  intro hall
  have h0 : Run.Reachable limitSystem (fun _ _ => True) startLimit := .init startLimit_init
  have h1 : Run.Reachable limitSystem (fun _ _ => True) _ := .call h0 (.addProcess none 2) (fun a ha => by cases ha) trivial
  have h2 : Run.Reachable limitSystem (fun _ _ => True) _ := .call h1 (.memAdd 2 4096) trivial trivial
  have h3 : Run.Reachable limitSystem (fun _ _ => True) _ := .call h2 (.memFree 2 4096) trivial trivial
  exact absurd ((hall _ h3).charged 2) (by decide +kernel)

end LiteOsKernel.Plimit
