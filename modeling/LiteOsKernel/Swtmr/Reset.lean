import LiteOsKernel.Swtmr.SwtmrRun

/-! The restart of the timers of a CPU when the time is reset. -/
namespace LiteOsKernel.Swtmr
open Sched.Timeout (SortLinkAttribute addNode2SortLink addNode2SortLink_perm)

namespace SwtmrState

/-- SwtmrRestart. -/
def swtmrRestart (s : SwtmrState) (cfg : SwtmrConfig) (startTime currTime index cpuid : Nat) : Option SwtmrState :=
  (s.setCb index { s.cb index with startTime := startTime }).swtmrToStart cfg currTime index cpuid

end SwtmrState

/-- pstNext of a node, none where it is the head of the list. -/
def pstNext (sortLink : List Nat) (node : Nat) : Option Nat := (sortLink.dropWhile (· ≠ node)).tail.head?

/-- The loop of OsSwtmrResponseTimeReset with the timers that it restarts in turn; currTime k is what the k-th SwtmrToStart reads.
none where it divides by zero or takes more rounds. -/
def resetLoop (cfg : SwtmrConfig) (startTime : Nat) (currTime : Nat → Nat) (cpuid : Nat) :
    Nat → Nat → Option Nat → SwtmrState → Option (SwtmrState × List Nat)
  | _,_,none,s => some (s,[])
  | 0,_,some _,_ => none
  | rounds + 1,k,some listNext,s =>
    ((s.osDeleteNodeSortLink cpuid listNext).swtmrRestart cfg startTime (currTime k) listNext cpuid).bind fun s =>
      (resetLoop cfg startTime currTime cpuid rounds (k + 1) (pstNext (s.runqueue cpuid).swtmrSortLink.sortLink listNext) s).map
        fun (s,restarted) => (s,listNext :: restarted)

/-- OsSwtmrResponseTimeReset on a CPU. -/
def osSwtmrResponseTimeReset (cfg : SwtmrConfig) (startTime : Nat) (currTime : Nat → Nat) (cpuid rounds : Nat) (s : SwtmrState) :
    Option (SwtmrState × List Nat) :=
  resetLoop cfg startTime currTime cpuid rounds 0 (s.runqueue cpuid).swtmrSortLink.sortLink.head? s

/-- The block that SwtmrRestart leaves, but for its CPU. -/
def restartedCb (cfg : SwtmrConfig) (startTime currTime : Nat) (swtmr : SwtmrCtrl) : Option SwtmrCtrl :=
  startResponse cfg currTime { swtmr with startTime := startTime }

/-- A sorted time list. -/
structure TimeList (s : SwtmrState) (cpuid : Nat) : Prop where
  nodup : (s.runqueue cpuid).swtmrSortLink.sortLink.Nodup
  sorted : (s.runqueue cpuid).swtmrSortLink.sortLink.Pairwise fun i j => (s.cb i).responseTime ≤ (s.cb j).responseTime
  nodeNum : (s.runqueue cpuid).swtmrSortLink.nodeNum = (s.runqueue cpuid).swtmrSortLink.sortLink.length

/-- The timers of the list are restarted once each, and the list is still a sorted one of the same timers. -/
structure ResetDone (cfg : SwtmrConfig) (s : SwtmrState) (startTime : Nat) (currTime : Nat → Nat) (cpuid : Nat) (s' : SwtmrState)
    (restarted : List Nat) : Prop where
  once : restarted.Perm (s.runqueue cpuid).swtmrSortLink.sortLink
  times : ∀ k i, restarted[k]? = some i → ∃ started, restartedCb cfg startTime (currTime k) (s.cb i) = some started ∧
    (s'.cb i).responseTime = started.responseTime
  list : TimeList s' cpuid
  perm : (s'.runqueue cpuid).swtmrSortLink.sortLink.Perm (s.runqueue cpuid).swtmrSortLink.sortLink
  num : (s'.runqueue cpuid).swtmrSortLink.nodeNum = (s.runqueue cpuid).swtmrSortLink.nodeNum

/-- The reset comes to its end, and has restarted each timer once. -/
def ResetLaw (cfg : SwtmrConfig) (s : SwtmrState) (startTime : Nat) (currTime : Nat → Nat) (cpuid : Nat) : Prop :=
  ∃ rounds s' restarted, osSwtmrResponseTimeReset cfg startTime currTime cpuid rounds s = some (s',restarted) ∧
    ResetDone cfg s startTime currTime cpuid s' restarted

/-- A timer with the new time r goes behind those already restarted, whose times are front, and in front of the timers to come. -/
structure Lands (front : List Nat) (r : Nat) (rest : List SwtmrCtrl) : Prop where
  behind : ∀ x ∈ front, x ≤ r
  ahead : ∀ swtmr ∈ rest.head?, r < swtmr.responseTime
  first : ∀ x ∈ front.head?, x = r → front.length = 1

/-- Each timer in its turn has a new time, with which it lands right in front of the next one. -/
def InOrder (cfg : SwtmrConfig) (startTime : Nat) (currTime : Nat → Nat) (front : List Nat) : List SwtmrCtrl → Prop
  | [] => True
  | swtmr :: rest => ∃ started, restartedCb cfg startTime (currTime front.length) swtmr = some started ∧
    Lands front started.responseTime rest ∧ InOrder cfg startTime currTime (front ++ [started.responseTime]) rest

/-- No timer comes earlier for the reset. -/
def Forward (cfg : SwtmrConfig) (startTime : Nat) (currTime : Nat → Nat) (swtmrs : List SwtmrCtrl) : Prop :=
  ∀ swtmr ∈ swtmrs, ∀ k started, restartedCb cfg startTime (currTime k) swtmr = some started → swtmr.responseTime ≤ started.responseTime

variable {cfg : SwtmrConfig} {s s' : SwtmrState} {startTime c i u k : Nat} {currTime : Nat → Nat} {l front rest before after : List Nat}

private theorem pstNext_eq (h : i ∉ before) : pstNext (before ++ i :: after) i = after.head? := by
  have hne (j : Nat) (hj : j ∈ before) : decide (j ≠ i) = true := by
    refine decide_eq_true ?_
    rintro rfl
    exact h hj
  rw [pstNext, List.dropWhile_append_of_pos hne]
  simp

/-- A round of the loop: the timer has its new time and is where AddNode2SortLink puts it. -/
private theorem resetRound_spec (h : TimeList s c) (hi : i ∈ (s.runqueue c).swtmrSortLink.sortLink) {t : Nat} {started : SwtmrCtrl}
    (hs : restartedCb cfg startTime t (s.cb i) = some started) :
    ∃ s', (s.osDeleteNodeSortLink c i).swtmrRestart cfg startTime t i c = some s' ∧ TimeList s' c ∧
      s'.cb i = { started with cpuid := c } ∧ (∀ j, j ≠ i → s'.cb j = s.cb j) ∧
        (s'.runqueue c).swtmrSortLink.sortLink =
          addNode2SortLink (fun j => some (s'.cb j).responseTime) ((s.runqueue c).swtmrSortLink.sortLink.erase i) i ∧
        (s'.runqueue c).swtmrSortLink.nodeNum = (s.runqueue c).swtmrSortLink.nodeNum := by
  have hcb : (s.osDeleteNodeSortLink c i).cb i = { s.cb i with responseTime := OS_SORT_LINK_INVALID_TIME } :=
    SwtmrState.osDeleteNodeSortLink_same
  generalize hy : (s.osDeleteNodeSortLink c i).setCb i { (s.osDeleteNodeSortLink c i).cb i with startTime := startTime } = y
  have hother {j : Nat} (hj : j ≠ i) : y.cb j = s.cb j := by
    rw [← hy, SwtmrState.setCb_other hj, SwtmrState.osDeleteNodeSortLink_other hj]
  have hrq : y.runqueue = (s.osDeleteNodeSortLink c i).runqueue := by rw [← hy, SwtmrState.setCb_runqueue]
  have hlink : (y.runqueue c).swtmrSortLink =
      ⟨(s.runqueue c).swtmrSortLink.sortLink.erase i,(s.runqueue c).swtmrSortLink.nodeNum - 1⟩ := by
    rw [hrq, SwtmrState.osDeleteNodeSortLink, SwtmrState.setSortLink_same]
  have hstart : startResponse cfg t (y.cb i) = some started := by
    rw [← hy, SwtmrState.setCb_same, hcb]
    exact hs
  have hpos : 0 < (s.runqueue c).swtmrSortLink.sortLink.length := List.length_pos_of_mem hi
  have hlen := List.length_erase_of_mem hi
  have hsorted : ((s.runqueue c).swtmrSortLink.sortLink.erase i).Pairwise fun j k =>
      ((y.setCb i { started with cpuid := c }).cb j).responseTime ≤ ((y.setCb i { started with cpuid := c }).cb k).responseTime := by
    refine (h.sorted.sublist List.erase_sublist).imp_of_mem fun {j k} hj hk hle => ?_
    have hji := ((h.nodup.mem_erase_iff).mp hj).1
    have hki := ((h.nodup.mem_erase_iff).mp hk).1
    rwa [SwtmrState.setCb_other hji, SwtmrState.setCb_other hki, hother hji, hother hki]
  have hs' : (y.addSwtmr2TimeList i started c).cb = (y.setCb i { started with cpuid := c }).cb := rfl
  have hlink' : ((y.addSwtmr2TimeList i started c).runqueue c).swtmrSortLink =
      ⟨addNode2SortLink (fun j => some ((y.addSwtmr2TimeList i started c).cb j).responseTime)
        ((s.runqueue c).swtmrSortLink.sortLink.erase i) i,(s.runqueue c).swtmrSortLink.nodeNum⟩ := by
    rw [SwtmrState.addSwtmr2TimeList, SwtmrState.setSortLink_same, SwtmrState.setCb_runqueue, hlink]
    refine congrArg (SortLinkAttribute.mk _) ?_
    have := h.nodeNum
    simp only
    omega
  have hperm := (addNode2SortLink_perm (fun j => some ((y.addSwtmr2TimeList i started c).cb j).responseTime)
    ((s.runqueue c).swtmrSortLink.sortLink.erase i) i).trans (List.perm_cons_erase hi).symm
  refine ⟨y.addSwtmr2TimeList i started c,?_,⟨?_,?_,?_⟩,?_,fun j hj => ?_,?_,?_⟩
  · rw [SwtmrState.swtmrRestart, hy, SwtmrState.swtmrToStart, hstart]
    rfl
  · rw [hlink']
    exact hperm.symm.nodup h.nodup
  · rw [hlink']
    exact addNode2SortLink_sorted hsorted i
  · rw [hlink']
    exact h.nodeNum.trans hperm.length_eq.symm
  · rw [hs', SwtmrState.setCb_same]
  · rw [hs', SwtmrState.setCb_other hj, hother hj]
  · rw [hlink']
  · rw [hlink']

/-- How AddNode2SortLink splits a list for a node. -/
structure Placed (r : Nat → Nat) (l : List Nat) (n : Nat) (before after : List Nat) : Prop where
  split : l = before ++ after
  le : ∀ j ∈ before, r j ≤ r n
  place : (∃ x rest, l = x :: rest ∧ r x = r n ∧ before = [x]) ∨ (∀ x rest, l = x :: rest → r x ≠ r n) ∧ ∀ j ∈ after, r n < r j

namespace Placed

variable {r : Nat → Nat} {n : Nat}

/-- A node that is not later, and not behind another of its time, stays in front. -/
private theorem mem_before (h : Placed r l n before after) (hu : u ∈ l) (hle : r u ≤ r n) (hfirst : ∀ x rest, l = x :: rest → x = u ∨ r x < r u) :
    u ∈ before := by
  rcases h.place with ⟨x,rest,hl,hx,hbefore⟩ | ⟨-,hlater⟩
  · rcases hfirst x rest hl with rfl | hlt
    · rw [hbefore]
      exact List.mem_singleton_self x
    · omega
  · rw [h.split] at hu
    rcases List.mem_append.mp hu with hu | hu
    · exact hu
    · exact absurd hle (not_le.mpr (hlater u hu))

/-- A node that lands between the two parts. -/
private theorem lands (h : Placed r (front ++ rest) n before after) (hbehind : ∀ j ∈ front, r j ≤ r n) (hahead : ∀ j ∈ rest, r n < r j)
    (hfirst : ∀ x ∈ front.head?, r x = r n → front.length = 1) : before = front ∧ after = rest := by
  rcases h.place with ⟨x,l,hl,hx,rfl⟩ | ⟨-,hlater⟩
  · cases front with
    | nil =>
      have hmem : x ∈ rest := by
        rw [List.nil_append] at hl
        rw [hl]
        exact List.mem_cons_self
      exact absurd (hahead x hmem) (by omega)
    | cons y front =>
      obtain ⟨rfl,-⟩ := List.cons.inj hl
      have hlen := hfirst y rfl hx
      have hnil : front = [] := List.eq_nil_of_length_eq_zero (Nat.succ.inj hlen)
      subst hnil
      exact ⟨rfl,(List.append_cancel_left h.split).symm⟩
  · rcases List.append_eq_append_iff.mp h.split with ⟨m,rfl,hm⟩ | ⟨m,rfl,hm⟩
    · cases m with
      | nil => exact ⟨by simp,by simpa using hm.symm⟩
      | cons y m =>
        have := hahead y (by simp [hm])
        have := h.le y (by simp)
        omega
    · cases m with
      | nil => exact ⟨by simp,by simpa using hm⟩
      | cons y m =>
        have := hbehind y (by simp)
        have := hlater y (by simp [hm])
        omega

/-- A node that does not land behind the front part has one of it next. -/
theorem next_mem (h : Placed r (front ++ rest) n before after)
    (hnot : (∃ j ∈ front, r n < r j) ∨ ∃ x ∈ front.head?, r x = r n ∧ front.length ≠ 1) : ∃ j ∈ front, after.head? = some j := by
  have hshort : before.length < front.length := by
    rcases hnot with ⟨j,hj,hlt⟩ | ⟨x,hx,heq,hlen⟩
    · rcases List.append_eq_append_iff.mp h.split with ⟨m,rfl,-⟩ | ⟨m,rfl,-⟩
      · exact absurd (h.le j (List.mem_append_left m hj)) (not_le.mpr hlt)
      · cases m with
        | nil => exact absurd (h.le j (by simpa using hj)) (not_le.mpr hlt)
        | cons y m => simp
    · cases front with
      | nil => exact absurd hx (by simp)
      | cons y front =>
        obtain rfl := Option.some.inj hx
        rcases h.place with ⟨x,l,-,-,rfl⟩ | ⟨hne,-⟩
        · simp only [List.length_cons, List.length_nil] at hlen ⊢
          omega
        · exact absurd heq (hne y (front ++ rest) rfl)
  rcases List.append_eq_append_iff.mp h.split with ⟨m,rfl,hm⟩ | ⟨m,rfl,hm⟩
  · rw [List.length_append] at hshort
    omega
  · cases m with
    | nil =>
      rw [List.append_nil] at hshort
      omega
    | cons y m => exact ⟨y,by simp,by simp [hm]⟩

end Placed

/-- A round of the loop at a timer between two parts of the list. -/
private theorem resetRound_placed (h : TimeList s c) (hlink : (s.runqueue c).swtmrSortLink.sortLink = front ++ i :: rest) {t : Nat}
    {started : SwtmrCtrl} (hs : restartedCb cfg startTime t (s.cb i) = some started) :
    ∃ s' before after, (s.osDeleteNodeSortLink c i).swtmrRestart cfg startTime t i c = some s' ∧ TimeList s' c ∧
      s'.cb i = { started with cpuid := c } ∧ (∀ j, j ≠ i → s'.cb j = s.cb j) ∧
        Placed (fun j => (s'.cb j).responseTime) (front ++ rest) i before after ∧
        (s'.runqueue c).swtmrSortLink.sortLink = before ++ i :: after ∧ i ∉ front ∧ i ∉ rest ∧
        (s'.runqueue c).swtmrSortLink.nodeNum = (s.runqueue c).swtmrSortLink.nodeNum := by
  have hmem : i ∈ (s.runqueue c).swtmrSortLink.sortLink := by rw [hlink]; simp
  obtain ⟨s',hrun,hlist,hcb,hother,hlink',hnum⟩ := resetRound_spec h hmem hs
  have hnodup := h.nodup
  rw [hlink] at hnodup
  have hnot := List.nodup_middle.mp hnodup
  rw [List.nodup_cons, List.mem_append, not_or] at hnot
  obtain ⟨⟨hfront,hrest⟩,-⟩ := hnot
  have herase : (front ++ i :: rest).erase i = front ++ rest := by
    rw [List.erase_append_right _ hfront, List.erase_cons_head]
  rw [hlink, herase] at hlink'
  have hsorted : (front ++ rest).Pairwise fun j k => (s'.cb j).responseTime ≤ (s'.cb k).responseTime := by
    have hsub := h.sorted
    rw [hlink] at hsub
    refine (hsub.sublist ((List.Sublist.refl front).append (List.sublist_cons_self i rest))).imp_of_mem fun {j k} hj hk hle => ?_
    have hne {j : Nat} (hj : j ∈ front ++ rest) : j ≠ i := by
      rintro rfl
      rcases List.mem_append.mp hj with hj | hj
      · exact hfront hj
      · exact hrest hj
    rwa [hother j (hne hj), hother k (hne hk)]
  obtain ⟨before,after,hsplit,hadd,hle,hplace⟩ := addNode2SortLink_split hsorted i
  exact ⟨s',before,after,hrun,hlist,hcb,hother,⟨hsplit,hle,hplace⟩,hlink'.trans hadd,hfront,hrest,hnum⟩

/-- Where the restart of a timer divides by zero the loop does not go on. -/
private theorem restart_none {t : Nat} (hs : restartedCb cfg startTime t (s.cb i) = none) :
    (s.osDeleteNodeSortLink c i).swtmrRestart cfg startTime t i c = none := by
  rw [SwtmrState.swtmrRestart, SwtmrState.swtmrToStart, SwtmrState.setCb_same, SwtmrState.osDeleteNodeSortLink_same]
  exact Option.map_eq_none_iff.mpr hs

/-- The loop from s, in which it has restarted the timers of front in their order and comes to rest, which are as in o. -/
structure Walk (cfg : SwtmrConfig) (startTime : Nat) (currTime : Nat → Nat) (c : Nat) (o s : SwtmrState) (front rest : List Nat) :
    Prop where
  list : TimeList s c
  link : (s.runqueue c).swtmrSortLink.sortLink = front ++ rest
  num : (s.runqueue c).swtmrSortLink.nodeNum = (o.runqueue c).swtmrSortLink.nodeNum
  done : ∀ k i, front[k]? = some i → ∃ started, restartedCb cfg startTime (currTime k) (o.cb i) = some started ∧
    (s.cb i).responseTime = started.responseTime
  todo : ∀ i ∈ rest, s.cb i = o.cb i
  apart : ∀ i ∈ front, ∀ j ∈ rest, (s.cb i).responseTime < (s.cb j).responseTime

/-- The times of the timers that have been restarted. -/
def times (s : SwtmrState) (front : List Nat) : List Nat := front.map fun j => (s.cb j).responseTime

variable {o : SwtmrState}

/-- A timer that lands in front of the next one leaves the loop on its way. -/
theorem Walk.step (h : Walk cfg startTime currTime c o s front (i :: rest)) {started : SwtmrCtrl}
    (hs : restartedCb cfg startTime (currTime front.length) (o.cb i) = some started)
    (hlands : Lands (times s front) started.responseTime (rest.map o.cb)) :
    ∃ s', (s.osDeleteNodeSortLink c i).swtmrRestart cfg startTime (currTime front.length) i c = some s' ∧
      pstNext (s'.runqueue c).swtmrSortLink.sortLink i = rest.head? ∧
        times s' (front ++ [i]) = times s front ++ [started.responseTime] ∧
          Walk cfg startTime currTime c o s' (front ++ [i]) rest := by
  rw [← h.todo i List.mem_cons_self] at hs
  obtain ⟨s',before,after,hrun,hlist,hcb,hother,hplaced,hlink,hfront,hrest,hnum⟩ := resetRound_placed h.list h.link hs
  have hkeep {j : Nat} (hj : j ∈ front) : s'.cb j = s.cb j := hother j fun he => hfront (he ▸ hj)
  have htodo {j : Nat} (hj : j ∈ rest) : s'.cb j = o.cb j :=
    (hother j fun he => hrest (he ▸ hj)).trans (h.todo j (List.mem_cons_of_mem i hj))
  have hnew : (s'.cb i).responseTime = started.responseTime := by rw [hcb]
  have hbehind (j : Nat) (hj : j ∈ front) : (s'.cb j).responseTime ≤ (s'.cb i).responseTime := by
    rw [hkeep hj, hnew]
    exact hlands.behind _ (List.mem_map_of_mem hj)
  have hsorted := h.list.sorted
  rw [h.link, List.pairwise_append, List.pairwise_cons] at hsorted
  have hahead (j : Nat) (hj : j ∈ rest) : (s'.cb i).responseTime < (s'.cb j).responseTime := by
    rw [hnew, htodo hj]
    cases rest with
    | nil => exact absurd hj List.not_mem_nil
    | cons t rest =>
      have hlt := hlands.ahead (o.cb t) rfl
      rcases List.mem_cons.mp hj with rfl | hj'
      · exact hlt
      · have hle := (List.pairwise_cons.mp hsorted.2.1.2).1 j hj'
        rw [h.todo t (by simp), h.todo j (List.mem_cons_of_mem i hj)] at hle
        exact hlt.trans_le hle
  obtain ⟨rfl,rfl⟩ := hplaced.lands hbehind hahead fun x hx he => by
    have hmem : x ∈ front := List.mem_of_mem_head? hx
    have hlen := hlands.first (s.cb x).responseTime (by rw [times, List.head?_map, hx]; rfl) (by rw [← hkeep hmem, he, hnew])
    rwa [times, List.length_map] at hlen
  refine ⟨s',hrun,by rw [hlink, pstNext_eq hfront],?_,⟨hlist,by simp [hlink],hnum.trans h.num,fun k j hk => ?_,fun j hj => htodo hj,
    fun j hj k hk => ?_⟩⟩
  · rw [times, List.map_append, List.map_singleton, hnew]
    congr 1
    exact List.map_congr_left fun j hj => congrArg SwtmrCtrl.responseTime (hkeep hj)
  · rcases Nat.lt_or_ge k before.length with hlt | hge
    · rw [List.getElem?_append_left hlt] at hk
      rw [hkeep (List.mem_of_getElem? hk)]
      exact h.done k j hk
    · rw [List.getElem?_append_right hge] at hk
      obtain ⟨hz,rfl⟩ : k - before.length = 0 ∧ i = j := by
        cases hsub : k - before.length with
        | zero =>
          rw [hsub] at hk
          exact ⟨rfl,Option.some.inj hk⟩
        | succ n =>
          rw [hsub] at hk
          exact absurd hk (by simp)
      obtain rfl : k = before.length := by omega
      rw [← h.todo i List.mem_cons_self]
      exact ⟨started,hs,hnew⟩
  · rcases List.mem_append.mp hj with hj | hj
    · rw [hkeep hj, hother k fun he => hrest (he ▸ hk)]
      exact h.apart j hj k (List.mem_cons_of_mem i hk)
    · rw [List.mem_singleton.mp hj]
      exact hahead k hk

/-- A loop in which each timer lands in front of the next one comes to its end. -/
theorem Walk.run (h : Walk cfg startTime currTime c o s front rest)
    (horder : InOrder cfg startTime currTime (times s front) (rest.map o.cb)) :
    ∃ s', resetLoop cfg startTime currTime c rest.length front.length rest.head? s = some (s',rest) ∧
      Walk cfg startTime currTime c o s' (front ++ rest) [] := by
  induction rest generalizing s front with
  | nil => exact ⟨s,rfl,by rwa [List.append_nil]⟩
  | cons i rest ih =>
    obtain ⟨started,hs,hlands,horder⟩ := horder
    rw [times, List.length_map] at hs
    obtain ⟨s1,hround,hnext,htimes,hwalk⟩ := h.step hs hlands
    rw [← htimes] at horder
    obtain ⟨s',hrun,hend⟩ := ih hwalk horder
    refine ⟨s',?_,by simpa using hend⟩
    rw [List.length_append, List.length_singleton] at hrun
    rw [List.head?_cons, List.length_cons, resetLoop, hround, Option.bind_some, hnext, hrun]
    rfl

/-- The loop is behind a timer that it has not restarted. -/
structure Skipped (c u : Nat) (o s : SwtmrState) (front : List Nat) (listNext : Option Nat) : Prop where
  list : TimeList s c
  mem : ∀ j ∈ (s.runqueue c).swtmrSortLink.sortLink, j ∈ (o.runqueue c).swtmrSortLink.sortLink
  todo : ∀ j ∈ (s.runqueue c).swtmrSortLink.sortLink, j ∉ front → s.cb j = o.cb j
  early : ∀ x l, (s.runqueue c).swtmrSortLink.sortLink = x :: l → x = u ∨ (s.cb x).responseTime < (s.cb u).responseTime
  behind : ∀ i ∈ listNext, ∃ before after, (s.runqueue c).swtmrSortLink.sortLink = before ++ i :: after ∧ u ∈ before

/-- A timer that is put in with the skipped one before it leaves the loop behind that one. -/
theorem Skipped.next (hlist : TimeList s c) (hlink : (s.runqueue c).swtmrSortLink.sortLink = before ++ i :: after)
    (hplaced : Placed (fun j => (s.cb j).responseTime) l i before after)
    (hmem : ∀ j ∈ i :: l, j ∈ (o.runqueue c).swtmrSortLink.sortLink) (htodo : ∀ j ∈ l, j ∉ front → s.cb j = o.cb j) (hu : u ∈ before)
    (hearly : ∀ x l', l = x :: l' → x = u ∨ (s.cb x).responseTime < (s.cb u).responseTime) :
    Skipped c u o s (front ++ [i]) after.head? := by
  have hback {j : Nat} (hj : j ∈ (s.runqueue c).swtmrSortLink.sortLink) : j ∈ i :: l := by
    rw [hlink, List.mem_append, List.mem_cons, or_left_comm, ← List.mem_append, ← hplaced.split] at hj
    exact List.mem_cons.mpr hj
  refine ⟨hlist,fun j hj => hmem j (hback hj),fun j hj hnot => ?_,fun x l' hl => ?_,fun n hn => ?_⟩
  · rw [List.mem_append, List.mem_singleton, not_or] at hnot
    exact htodo j ((List.mem_cons.mp (hback hj)).resolve_left hnot.2) hnot.1
  · cases before with
    | nil => exact absurd hu List.not_mem_nil
    | cons y before =>
      obtain ⟨rfl,-⟩ := List.cons.inj (hlink.symm.trans hl)
      exact hearly y (before ++ after) hplaced.split
  · obtain ⟨after,rfl⟩ : ∃ l, after = n :: l := by
      cases after with
      | nil => exact absurd hn (by simp)
      | cons y l => exact ⟨l,by rw [Option.some.inj hn]⟩
    exact ⟨before ++ [i],after,by simp [hlink],List.mem_append_left _ hu⟩

/-- A loop that puts no timer earlier does not come back to a timer that it has skipped. -/
theorem Skipped.run (hforward : Forward cfg startTime currTime ((o.runqueue c).swtmrSortLink.sortLink.map o.cb))
    {rounds : Nat} {listNext : Option Nat} {restarted : List Nat} (h : Skipped c u o s front listNext)
    (hrun : resetLoop cfg startTime currTime c rounds k listNext s = some (s',restarted))
    (hnodup : (front ++ restarted).Nodup) : u ∉ restarted := by
  induction rounds generalizing s front listNext k restarted with
  | zero =>
    cases listNext with
    | none =>
      obtain ⟨-,rfl⟩ := Prod.mk.inj (Option.some.inj hrun)
      exact List.not_mem_nil
    | some i => exact absurd hrun nofun
  | succ rounds ih =>
    cases listNext with
    | none =>
      obtain ⟨-,rfl⟩ := Prod.mk.inj (Option.some.inj hrun)
      exact List.not_mem_nil
    | some i =>
      obtain ⟨s1,hround,hrest⟩ := Option.bind_eq_some_iff.mp hrun
      obtain ⟨⟨s2,restarted'⟩,hloop,he⟩ := Option.map_eq_some_iff.mp hrest
      obtain ⟨rfl,rfl⟩ := Prod.mk.inj he
      have hi : i ∉ front := fun hm => (List.nodup_append.mp hnodup).2.2 i hm i List.mem_cons_self rfl
      obtain ⟨before,after,hlink,hu⟩ := h.behind i rfl
      cases hs : restartedCb cfg startTime (currTime k) (s.cb i) with
      | none => exact absurd (hround.symm.trans (restart_none hs)) nofun
      | some started =>
        obtain ⟨s3,before',after',hround',hlist,hcb,hother,hplaced,hlink',hfront,hafter,-⟩ := resetRound_placed h.list hlink hs
        obtain rfl := Option.some.inj (hround.symm.trans hround')
        have hui : u ≠ i := fun he => hfront (he ▸ hu)
        have hmemi : i ∈ (s.runqueue c).swtmrSortLink.sortLink := by rw [hlink]; simp
        -- the time of i does not get earlier, and was not earlier than that of u
        have hle : (s1.cb u).responseTime ≤ (s1.cb i).responseTime := by
          have hsorted := h.list.sorted
          rw [hlink, List.pairwise_append] at hsorted
          have hold := hsorted.2.2 u hu i List.mem_cons_self
          rw [h.todo i hmemi hi] at hs hold
          rw [hother u hui, hcb]
          exact hold.trans (hforward _ (List.mem_map_of_mem (h.mem i hmemi)) k started hs)
        have hearly (x : Nat) (l : List Nat) (hl : before ++ after = x :: l) : x = u ∨ (s1.cb x).responseTime < (s1.cb u).responseTime := by
          cases before with
          | nil => exact absurd hu List.not_mem_nil
          | cons y before =>
            obtain ⟨rfl,-⟩ := List.cons.inj hl
            rw [hother u hui, hother y fun he => hfront (he ▸ List.mem_cons_self)]
            exact h.early y _ hlink
        have hu' : u ∈ before' := hplaced.mem_before (List.mem_append_left after hu) hle hearly
        have hnotin : i ∉ before' := fun hm => by
          have hmem := List.mem_append_left after' hm
          rw [← hplaced.split] at hmem
          rcases List.mem_append.mp hmem with hm | hm
          · exact hfront hm
          · exact hafter hm
        rw [hlink', pstNext_eq hnotin] at hloop
        have hmem (j : Nat) (hj : j ∈ i :: (before ++ after)) : j ∈ (s.runqueue c).swtmrSortLink.sortLink := by
          rw [hlink, List.mem_append, List.mem_cons, or_left_comm, ← List.mem_append]
          exact List.mem_cons.mp hj
        have hskip : Skipped c u o s1 (front ++ [i]) after'.head? := by
          refine Skipped.next hlist hlink' hplaced (fun j hj => h.mem j (hmem j hj)) (fun j hj hnot => ?_) hu' hearly
          rw [hother j fun he => (List.mem_append.mp (he ▸ hj)).elim hfront hafter]
          exact h.todo j (hmem j (List.mem_cons_of_mem i hj)) hnot
        rw [List.mem_cons, not_or]
        exact ⟨hui,ih hskip hloop (by simpa using hnodup)⟩

/-- A loop that goes on at a timer that it has restarted restarts it again. -/
private theorem resetLoop_again {rounds : Nat} {restarted : List Nat} {listNext : Option Nat} (hnext : ∃ j ∈ front, listNext = some j)
    (hrun : resetLoop cfg startTime currTime c rounds k listNext s = some (s',restarted)) : ¬ (front ++ restarted).Nodup := by
  obtain ⟨j,hj,rfl⟩ := hnext
  cases rounds with
  | zero => exact absurd hrun nofun
  | succ rounds =>
    obtain ⟨s1,-,hrest⟩ := Option.bind_eq_some_iff.mp hrun
    obtain ⟨⟨s2,restarted'⟩,-,he⟩ := Option.map_eq_some_iff.mp hrest
    obtain ⟨-,rfl⟩ := Prod.mk.inj he
    intro hnodup
    exact (List.nodup_append.mp hnodup).2.2 j hj j List.mem_cons_self rfl

/-- A loop that puts no timer earlier and restarts each timer once puts the next one in front of the one after it. -/
private theorem Walk.lands (hforward : Forward cfg startTime currTime ((o.runqueue c).swtmrSortLink.sortLink.map o.cb))
    (ho : (o.runqueue c).swtmrSortLink.sortLink = front ++ i :: rest) {rounds : Nat} {restarted : List Nat}
    (h : Walk cfg startTime currTime c o s front (i :: rest)) {started : SwtmrCtrl}
    (hs : restartedCb cfg startTime (currTime front.length) (o.cb i) = some started) {s1 : SwtmrState}
    (hround : (s.osDeleteNodeSortLink c i).swtmrRestart cfg startTime (currTime front.length) i c = some s1)
    (hloop : resetLoop cfg startTime currTime c rounds (front.length + 1) (pstNext (s1.runqueue c).swtmrSortLink.sortLink i) s1 =
      some (s',restarted)) (hall : ∀ j ∈ rest, j ∈ restarted) (hnodup : (front ++ [i] ++ restarted).Nodup) :
    Lands (times s front) started.responseTime (rest.map o.cb) := by
  rw [← h.todo i List.mem_cons_self] at hs
  obtain ⟨s2,before,after,hround',hlist,hcb,hother,hplaced,hlink,hfront,hrest,-⟩ := resetRound_placed h.list h.link hs
  obtain rfl := Option.some.inj (hround.symm.trans hround')
  have hkeep {j : Nat} (hj : j ∈ front) : s1.cb j = s.cb j := hother j fun he => hfront (he ▸ hj)
  have hnew : (s1.cb i).responseTime = started.responseTime := by rw [hcb]
  have hnotin : i ∉ before := fun hm => by
    have hmem := List.mem_append_left after hm
    rw [← hplaced.split] at hmem
    rcases List.mem_append.mp hmem with hm | hm
    · exact hfront hm
    · exact hrest hm
  rw [hlink, pstNext_eq hnotin] at hloop
  have hagain (hnot : (∃ j ∈ front, (s1.cb i).responseTime < (s1.cb j).responseTime) ∨
      ∃ x ∈ front.head?, (s1.cb x).responseTime = (s1.cb i).responseTime ∧ front.length ≠ 1) : False := by
    obtain ⟨j,hj,hnext⟩ := hplaced.next_mem hnot
    exact resetLoop_again ⟨j,List.mem_append_left [i] hj,hnext⟩ hloop hnodup
  refine ⟨fun x hx => ?_,fun swtmr ht => ?_,fun x hx he => ?_⟩
  · obtain ⟨j,hj,rfl⟩ := List.mem_map.mp hx
    by_contra hlt
    refine hagain (.inl ⟨j,hj,?_⟩)
    rw [hnew, hkeep hj]
    exact not_le.mp hlt
  · cases rest with
    | nil => exact absurd ht (by simp)
    | cons t rest =>
      obtain rfl := Option.some.inj ht
      by_contra hlt
      have hti : t ≠ i := fun he => hrest (he ▸ List.mem_cons_self)
      have htodo : s.cb t = o.cb t := h.todo t (by simp)
      have hle : (s1.cb t).responseTime ≤ (s1.cb i).responseTime := by
        rw [hnew, hother t hti, htodo]
        exact not_lt.mp hlt
      have hearly (x : Nat) (l : List Nat) (hl : front ++ t :: rest = x :: l) :
          x = t ∨ (s1.cb x).responseTime < (s1.cb t).responseTime := by
        cases front with
        | nil => exact .inl (List.cons.inj hl).1.symm
        | cons y front =>
          obtain ⟨rfl,-⟩ := List.cons.inj hl
          rw [hother t hti, hkeep List.mem_cons_self]
          exact .inr (h.apart y List.mem_cons_self t (by simp))
      have hbefore : t ∈ before := hplaced.mem_before (by simp) hle hearly
      have hskip : Skipped c t o s1 (front ++ [i]) after.head? := by
        refine Skipped.next hlist hlink hplaced (fun j hj => ?_) (fun j hj hnot => ?_) hbefore hearly
        · rw [ho, List.mem_append, List.mem_cons, or_left_comm, ← List.mem_append]
          exact List.mem_cons.mp hj
        · rcases List.mem_append.mp hj with hj | hj
          · exact absurd hj hnot
          · rw [hother j fun he => hrest (he ▸ hj)]
            exact h.todo j (List.mem_cons_of_mem i hj)
      exact hskip.run hforward hloop hnodup (hall t List.mem_cons_self)
  · rw [times, List.length_map]
    by_contra hlen
    cases front with
    | nil => exact absurd hx (by simp [times])
    | cons y front =>
      obtain rfl := Option.some.inj hx
      refine hagain (.inr ⟨y,rfl,?_,hlen⟩)
      rw [hnew, hkeep List.mem_cons_self]
      exact he

/-- A loop that puts no timer earlier restarts each timer once only where each lands in front of the next one. -/
private theorem Walk.inOrder (hforward : Forward cfg startTime currTime ((o.runqueue c).swtmrSortLink.sortLink.map o.cb))
    (ho : (o.runqueue c).swtmrSortLink.sortLink = front ++ rest) {rounds : Nat} {restarted : List Nat}
    (h : Walk cfg startTime currTime c o s front rest) (hall : ∀ i ∈ rest, i ∈ restarted)
    (hrun : resetLoop cfg startTime currTime c rounds front.length rest.head? s = some (s',restarted))
    (hnodup : (front ++ restarted).Nodup) : InOrder cfg startTime currTime (times s front) (rest.map o.cb) := by
  induction rest generalizing s front rounds restarted with
  | nil => trivial
  | cons i rest ih =>
    cases rounds with
    | zero => exact absurd hrun nofun
    | succ rounds =>
      obtain ⟨s1,hround,hrest⟩ := Option.bind_eq_some_iff.mp hrun
      obtain ⟨⟨s2,restarted'⟩,hloop,he⟩ := Option.map_eq_some_iff.mp hrest
      obtain ⟨rfl,rfl⟩ := Prod.mk.inj he
      have hi := h.todo i List.mem_cons_self
      cases hs : restartedCb cfg startTime (currTime front.length) (o.cb i) with
      | none => exact absurd (hround.symm.trans (restart_none (hi ▸ hs))) nofun
      | some started =>
        have hfront : i ∉ front := fun hm => (List.nodup_append.mp hnodup).2.2 i hm i List.mem_cons_self rfl
        have hnotin : i ∉ rest := by
          have hn := h.list.nodup
          rw [h.link] at hn
          exact (List.nodup_cons.mp (List.nodup_append.mp hn).2.1).1
        have hrest' : ∀ j ∈ rest, j ∈ restarted' := fun j hj => by
          rcases List.mem_cons.mp (hall j (List.mem_cons_of_mem i hj)) with rfl | hm
          · exact absurd hj hnotin
          · exact hm
        have hnodup' : ((front ++ [i]) ++ restarted').Nodup := by simpa using hnodup
        have hlands := h.lands hforward ho hs hround hloop hrest' hnodup'
        refine ⟨started,by rwa [times, List.length_map],hlands,?_⟩
        obtain ⟨s3,hround',hnext,htimes,hwalk⟩ := h.step hs hlands
        obtain rfl := Option.some.inj (hround.symm.trans hround')
        rw [← htimes]
        rw [hnext] at hloop
        exact ih (by simp [ho]) hwalk hrest' (by simpa using hloop) hnodup'

theorem Walk.start (h : TimeList s c) : Walk cfg startTime currTime c s s [] (s.runqueue c).swtmrSortLink.sortLink :=
  ⟨h,rfl,rfl,nofun,fun _ _ => rfl,nofun⟩

/-- Each timer is restarted once where each lands in front of the next one, and, if none is put earlier, only there. -/
theorem resetLaw_inOrder (cfg : SwtmrConfig) (s : SwtmrState) (cpuid : Nat) (h : TimeList s cpuid) (startTime : Nat)
    (currTime : Nat → Nat) :
    (InOrder cfg startTime currTime [] ((s.runqueue cpuid).swtmrSortLink.sortLink.map s.cb) →
      ResetLaw cfg s startTime currTime cpuid) ∧
    (Forward cfg startTime currTime ((s.runqueue cpuid).swtmrSortLink.sortLink.map s.cb) →
      ResetLaw cfg s startTime currTime cpuid →
        InOrder cfg startTime currTime [] ((s.runqueue cpuid).swtmrSortLink.sortLink.map s.cb)) := by
  constructor
  · intro horder
    obtain ⟨s',hrun,hend⟩ := (Walk.start h).run horder
    have hlink := hend.link
    rw [List.append_nil, List.nil_append] at hlink
    exact ⟨_,s',_,hrun,List.Perm.refl _,hend.done,hend.list,hlink ▸ List.Perm.refl _,hend.num⟩
  · rintro hforward ⟨rounds,s',restarted,hrun,hdone⟩
    exact (Walk.start h).inOrder hforward rfl (fun i hi => hdone.once.mem_iff.mpr hi) hrun (hdone.once.symm.nodup h.nodup)

/-- Two timers, of one and of two ticks, that were started at 0. -/
def twoTimers : SwtmrState where
  cb index := if index = 0 then ⟨100,0,.ticking,.once,0,0,1,1,0,1,7,0⟩ else ⟨200,0,.ticking,.once,1,0,2,2,0,1,7,0⟩
  freeList := []
  runqueue _ := ⟨⟨[0,1],2⟩,[]⟩
  waking _ := none

private theorem twoTimers_list : TimeList twoTimers 0 := ⟨by decide,by decide,rfl⟩

/-- A reset to the time 50 restarts both. -/
theorem resetLaw_twoTimers : ResetLaw config twoTimers 50 (fun _ => 50) 0 :=
  (resetLaw_inOrder config twoTimers 0 twoTimers_list 50 fun _ => 50).1
    ⟨_,rfl,⟨by decide,by decide,by decide⟩,_,rfl,⟨by decide,by decide,by decide⟩,trivial⟩

/-- A reset to the time 100 puts the first timer behind the second one, and is done. -/
theorem resetLaw_fails_skip : ¬ ∀ s cpuid, TimeList s cpuid → ∀ startTime currTime, ResetLaw config s startTime currTime cpuid := by
  intro h
  obtain ⟨rounds,s',restarted,hrun,hdone⟩ := h twoTimers 0 twoTimers_list 100 fun _ => 100
  have hforward : Forward config 100 (fun _ => 100) ([0,1].map twoTimers.cb) := by
    intro swtmr hm k started hs
    rcases List.mem_cons.mp hm with rfl | hm
    · obtain rfl := Option.some.inj hs
      decide
    · obtain rfl := List.mem_singleton.mp hm
      obtain rfl := Option.some.inj hs
      decide
  obtain ⟨started,hs,hlands,-⟩ := (Walk.start twoTimers_list).inOrder hforward rfl (fun i hi => hdone.once.mem_iff.mpr hi) hrun
    (hdone.once.symm.nodup twoTimers_list.nodup)
  obtain rfl := Option.some.inj hs
  exact absurd (hlands.ahead (twoTimers.cb 1) rfl) (by decide)

end LiteOsKernel.Swtmr
