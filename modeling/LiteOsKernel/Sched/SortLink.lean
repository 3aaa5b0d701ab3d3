import LiteOsKernel.Lib.DlList
import LiteOsKernel.Lib.Run
import Mathlib.Algebra.Group.Nat.Defs
import Mathlib.Data.Fintype.Card
import Mathlib.Data.Multiset.Filter

/-! Sort links, after los_sortlink.c and los_sortlink_pri.h: nodes in a ring around the head of a SortLinkAttribute, in the order
of their response times. -/
namespace LiteOsKernel.SortLink
open DlList

/-- An address of the kernel. -/
abbrev Ptr := Fin (2^32)

/-- UINT64_MAX. -/
def OS_SORT_LINK_INVALID_TIME : UInt64 := 0xFFFFFFFFFFFFFFFF

def LOS_OK : UInt32 := 0
def LOS_NOK : UInt32 := 1

/-- The links of the head and of all nodes, the other fields of the nodes, and nodeNum of the attribute. -/
structure SortLinkMem where
  links : Links Ptr
  responseTime : Ptr → UInt64
  cpuid : Ptr → UInt32
  nodeNum : UInt32

/-- OsSortLinkInit. -/
def osSortLinkInit (m : SortLinkMem) (head : Ptr) : SortLinkMem :=
  { m with
    links := ⟨Function.update m.links.next head (some head),Function.update m.links.prev head (some head)⟩
    nodeNum := 0 }

/-- SET_SORTLIST_VALUE. -/
def setSortlistValue (m : SortLinkMem) (sortList : Ptr) (value : UInt64) : SortLinkMem :=
  { m with responseTime := Function.update m.responseTime sortList value }

/-- LOS_ListAdd, and the node is counted. none is a null link that is followed. -/
def listAdd (m : SortLinkMem) (list sortList : Ptr) : Option SortLinkMem :=
  (add m.links list sortList).map fun links => { m with links := links, nodeNum := m.nodeNum + 1 }

/-- The loop of AddNode2SortLink, from prevNode back over at most fuel nodes. -/
def scanBack (m : SortLinkMem) (sortList : Ptr) : Nat → Ptr → Option SortLinkMem
  | 0, _ => none
  | fuel + 1, prevNode =>
    if m.responseTime prevNode ≤ m.responseTime sortList then listAdd m prevNode sortList
    else (m.links.prev prevNode).bind (scanBack m sortList fuel)

/-- A scan of more than 2^32 nodes has passed one of them twice, and goes on forever. -/
def addNode2SortLink (m : SortLinkMem) (head sortList : Ptr) : Option SortLinkMem :=
  (m.links.next head).bind fun listSorted =>
    if listSorted = head then listAdd m head sortList
    else if m.responseTime listSorted > m.responseTime sortList then listAdd m head sortList
    else if m.responseTime listSorted = m.responseTime sortList then listAdd m listSorted sortList
    else (m.links.prev head).bind (scanBack m sortList (2^32))

def osAdd2SortLink (m : SortLinkMem) (head node : Ptr) (responseTime : UInt64) (idleCpu : UInt16) : Option SortLinkMem :=
  (addNode2SortLink (setSortlistValue m node responseTime) head node).map fun m =>
    { m with cpuid := Function.update m.cpuid node idleCpu.toUInt32 }

def osDeleteNodeSortLink (m : SortLinkMem) (sortList : Ptr) : Option SortLinkMem :=
  (delete m.links sortList).map fun links =>
    { setSortlistValue { m with links := links } sortList OS_SORT_LINK_INVALID_TIME with nodeNum := m.nodeNum - 1 }

def osDeleteFromSortLink (m : SortLinkMem) (node : Ptr) : Option SortLinkMem :=
  if m.responseTime node ≠ OS_SORT_LINK_INVALID_TIME then osDeleteNodeSortLink m node else some m

def osSortLinkAdjustNodeResponseTime (m : SortLinkMem) (head node : Ptr) (responseTime : UInt64) : Option (SortLinkMem × UInt32) :=
  if m.responseTime node ≠ OS_SORT_LINK_INVALID_TIME then
    (osDeleteNodeSortLink m node).bind fun m =>
      (addNode2SortLink (setSortlistValue m node responseTime) head node).map fun m => (m,LOS_OK)
  else some (m,LOS_NOK)

inductive SortCall where
  | add (node : Ptr) (responseTime : UInt64) (idleCpu : UInt16)
  | deleteFrom (node : Ptr)
  | deleteNode (node : Ptr)
  | adjust (node : Ptr) (responseTime : UInt64)

/-- The memory, and the nodes that the calls so far have put into the link, with their response times. -/
structure SortHist where
  m : SortLinkMem
  spec : Multiset (Ptr × UInt64)

namespace SortCall

def node : SortCall → Ptr
  | add node .. | deleteFrom node | deleteNode node | adjust node _ => node

/-- What a call makes of the memory; none when it faults or does not end. -/
def exec (head : Ptr) (m : SortLinkMem) : SortCall → Option SortLinkMem
  | add node responseTime idleCpu => osAdd2SortLink m head node responseTime idleCpu
  | deleteFrom node => osDeleteFromSortLink m node
  | deleteNode node => osDeleteNodeSortLink m node
  | adjust node responseTime => (osSortLinkAdjustNodeResponseTime m head node responseTime).map Prod.fst

/-- What a call prescribes. valid says of which response times a node can be deleted and adjusted. -/
def prescribes (valid : UInt64 → Bool) (spec : Multiset (Ptr × UInt64)) : SortCall → Multiset (Ptr × UInt64)
  | add node responseTime _ => (node,responseTime) ::ₘ spec
  | deleteFrom node => spec.filter fun e => ¬ (e.1 = node ∧ valid e.2 = true)
  | deleteNode node => spec.filter fun e => ¬ e.1 = node
  | adjust node responseTime => spec.map fun e => if e.1 = node ∧ valid e.2 = true then (node,responseTime) else e

/-- A node is not the head; only one that is not linked is added, and OsDeleteNodeSortLink is called for a linked one. -/
def Pre (head : Ptr) (x : SortHist) (c : SortCall) : Prop :=
  c.node ≠ head ∧ match c with
    | add node .. => ∀ e ∈ x.spec, e.1 ≠ node
    | deleteNode node => ∃ e ∈ x.spec, e.1 = node
    | deleteFrom _ | adjust .. => True

def run (valid : UInt64 → Bool) (head : Ptr) (x : SortHist) (c : SortCall) : SortHist :=
  match c.exec head x.m with
  | some m => ⟨m,c.prescribes valid x.spec⟩
  | none => x

end SortCall

/-- An empty link; the nodes have OS_SORT_LINK_INVALID_TIME. -/
@[reducible] def sortSystem (valid : UInt64 → Bool) (head : Ptr) : Run.System SortHist SortCall where
  init x := x.spec = 0 ∧ ∃ m, x.m = osSortLinkInit m head ∧ ∀ node, node ≠ head → m.responseTime node = OS_SORT_LINK_INVALID_TIME
  pre x c := c.Pre head x
  run x c := c.run valid head x

/-- The ring is sorted, counted in nodeNum, and holds exactly the nodes that were prescribed, and each call ends. -/
def SortLaw (head : Ptr) (x : SortHist) : Prop :=
  (∃ l, Ring x.m.links head l ∧ l.Pairwise (fun a b => x.m.responseTime a ≤ x.m.responseTime b) ∧ x.m.nodeNum.toNat = l.length ∧
    ((l.map fun node => (node,x.m.responseTime node) : List (Ptr × UInt64)) : Multiset (Ptr × UInt64)) = x.spec) ∧
  ∀ c : SortCall, c.Pre head x → c.exec head x.m ≠ none

/-- A response time that is not the one of nodes outside of the link. -/
def validTime (responseTime : UInt64) : Bool := responseTime ≠ OS_SORT_LINK_INVALID_TIME

variable {m m' : SortLinkMem} {head node : Ptr} {l l₁ l₂ : List Ptr} {spec : Multiset (Ptr × UInt64)} {t : UInt64}

def Sorted (responseTime : Ptr → UInt64) (l : List Ptr) : Prop := l.Pairwise fun a b => responseTime a ≤ responseTime b

/-- The ring holds l in order, with the response times of spec; other nodes have OS_SORT_LINK_INVALID_TIME. -/
structure SortInv (head : Ptr) (m : SortLinkMem) (spec : Multiset (Ptr × UInt64)) (l : List Ptr) : Prop where
  ring : Ring m.links head l
  sorted : Sorted m.responseTime l
  nodeNum : m.nodeNum.toNat = l.length
  spec : ((l.map fun node => (node,m.responseTime node) : List (Ptr × UInt64)) : Multiset (Ptr × UInt64)) = spec
  unlinked : ∀ node, node ≠ head → node ∉ l → m.responseTime node = OS_SORT_LINK_INVALID_TIME

theorem Sorted.congr {f g : Ptr → UInt64} (h : Sorted f l) (hfg : ∀ a ∈ l, g a = f a) : Sorted g l :=
  h.imp_of_mem fun ha hb hab => by rw [hfg _ ha, hfg _ hb]; exact hab

/-- A node between those that are not later and those that are not earlier. -/
theorem Sorted.insert {f : Ptr → UInt64} (h : Sorted f (l₁ ++ l₂)) (h1 : ∀ a ∈ l₁, f a ≤ f node) (h2 : ∀ b ∈ l₂, f node ≤ f b) :
    Sorted f (l₁ ++ node :: l₂) := by
  obtain ⟨hl1,hl2,hcross⟩ := List.pairwise_append.mp h
  refine List.pairwise_append.mpr ⟨hl1,List.pairwise_cons.mpr ⟨h2,hl2⟩,fun a ha b hb => ?_⟩
  rcases List.mem_cons.mp hb with rfl | hb
  · exact h1 a ha
  · exact hcross a ha b hb

theorem Sorted.remove {f : Ptr → UInt64} (h : Sorted f (l₁ ++ node :: l₂)) : Sorted f (l₁ ++ l₂) :=
  h.sublist ((List.sublist_cons_self node l₂).append_left l₁)

/-- What AddNode2SortLink does: the node is linked at a place where the order holds. -/
structure Inserted (m : SortLinkMem) (head node : Ptr) (l₁ l₂ : List Ptr) (m' : SortLinkMem) : Prop where
  ring : Ring m'.links head (l₁ ++ node :: l₂)
  sorted : Sorted m.responseTime (l₁ ++ node :: l₂)
  responseTime : m'.responseTime = m.responseTime
  nodeNum : m'.nodeNum = m.nodeNum + 1

private theorem listAdd_inserted (h : Ring m.links head (l₁ ++ l₂)) (hnode : node ∉ head :: (l₁ ++ l₂))
    (hs : Sorted m.responseTime (l₁ ++ node :: l₂)) : ∃ m', listAdd m (l₁.getLastD head) node = some m' ∧ Inserted m head node l₁ l₂ m' := by
  obtain ⟨links,hadd,hring⟩ := h.add hnode
  refine ⟨{ m with links := links, nodeNum := m.nodeNum + 1 },?_,⟨hring,hs,rfl,rfl⟩⟩
  rw [listAdd, hadd]
  rfl

/-- The scan ends at the last node that is not later: the nodes passed so far are later, and the first is not. -/
private theorem scanBack_inserted (h : Ring m.links head (l₁ ++ l₂)) (hnode : node ∉ head :: (l₁ ++ l₂)) (hs : Sorted m.responseTime (l₁ ++ l₂))
    (hlate : ∀ b ∈ l₂, m.responseTime node ≤ m.responseTime b) (hfirst : ∀ a ∈ l₁.head?, m.responseTime a ≤ m.responseTime node)
    (hne : l₁ ≠ []) (fuel : Nat) (hfuel : l₁.length ≤ fuel) :
    ∃ m' k₁ k₂, l₁ ++ l₂ = k₁ ++ k₂ ∧ scanBack m node fuel (l₁.getLastD head) = some m' ∧ Inserted m head node k₁ k₂ m' := by
  induction fuel generalizing l₁ l₂ with
  | zero => exact absurd (List.eq_nil_of_length_eq_zero (Nat.le_zero.mp hfuel)) hne
  | succ fuel ih =>
    obtain ⟨l₀,prevNode,rfl⟩ := (List.eq_nil_or_concat' l₁).resolve_left hne
    have hlast : (l₀ ++ [prevNode]).getLastD head = prevNode := List.getLastD_concat
    rw [hlast, scanBack]
    by_cases hle : m.responseTime prevNode ≤ m.responseTime node
    · rw [if_pos hle]
      have hearly : ∀ a ∈ l₀ ++ [prevNode], m.responseTime a ≤ m.responseTime node := by
        intro a ha
        rcases List.mem_append.mp ha with ha | ha
        · have hcross := (List.pairwise_append.mp (List.pairwise_append.mp hs).1).2.2
          exact UInt64.le_trans (hcross a ha prevNode List.mem_cons_self) hle
        · rw [List.mem_singleton.mp ha]
          exact hle
      obtain ⟨m',hadd,hins⟩ := listAdd_inserted h hnode (hs.insert hearly hlate)
      rw [hlast] at hadd
      exact ⟨m',_,_,rfl,hadd,hins⟩
    · rw [if_neg hle]
      rw [List.append_assoc, List.singleton_append] at h hnode hs ⊢
      have hprev : m.links.prev prevNode = some (l₀.getLastD head) := h.meet.2
      have hl₀ : l₀ ≠ [] := by
        rintro rfl
        exact hle (hfirst prevNode rfl)
      rw [hprev]
      refine ih h hnode hs (fun b hb => ?_) (fun a ha => hfirst a ?_) hl₀ ?_
      · rcases List.mem_cons.mp hb with rfl | hb
        · exact UInt64.le_of_lt (UInt64.not_le.mp hle)
        · exact hlate b hb
      · rw [List.head?_append_of_ne_nil l₀ hl₀]
        exact ha
      · rw [List.length_append, List.length_singleton] at hfuel
        omega

/-- The four cases of AddNode2SortLink. -/
private theorem addNode2SortLink_inserted (h : Ring m.links head l) (hnode : node ∉ head :: l) (hs : Sorted m.responseTime l) :
    ∃ m' l₁ l₂, l = l₁ ++ l₂ ∧ addNode2SortLink m head node = some m' ∧ Inserted m head node l₁ l₂ m' := by
  have hfront : Ring m.links head ([] ++ l) := h
  have hnext : m.links.next head = some (l.headD head) := hfront.meet.1
  rw [addNode2SortLink, hnext, Option.bind_some]
  cases l with
  | nil =>
    obtain ⟨m',hadd,hins⟩ := listAdd_inserted hfront hnode (List.pairwise_singleton _ node)
    rw [List.headD_nil, if_pos rfl]
    exact ⟨m',[],[],rfl,hadd,hins⟩
  | cons listSorted rest =>
    have hhead : listSorted ≠ head := fun he => (List.nodup_cons.mp h.nodup).1 (he ▸ List.mem_cons_self)
    obtain ⟨hfirst,-⟩ := List.pairwise_cons.mp hs
    rw [List.headD_cons, if_neg hhead]
    by_cases hgt : m.responseTime listSorted > m.responseTime node
    · rw [if_pos hgt]
      have hlate : ∀ b ∈ listSorted :: rest, m.responseTime node ≤ m.responseTime b := by
        intro b hb
        rcases List.mem_cons.mp hb with rfl | hb
        · exact UInt64.le_of_lt hgt
        · exact UInt64.le_trans (UInt64.le_of_lt hgt) (hfirst b hb)
      obtain ⟨m',hadd,hins⟩ := listAdd_inserted hfront hnode (List.pairwise_cons.mpr ⟨hlate,hs⟩)
      exact ⟨m',[],_,rfl,hadd,hins⟩
    · rw [if_neg hgt]
      by_cases heq : m.responseTime listSorted = m.responseTime node
      · rw [if_pos heq]
        have hring : Ring m.links head ([listSorted] ++ rest) := h
        have hsorted : Sorted m.responseTime ([listSorted] ++ rest) := hs
        have hearly : ∀ a ∈ [listSorted], m.responseTime a ≤ m.responseTime node := by
          intro a ha
          rw [List.mem_singleton.mp ha, heq]
          exact UInt64.le_refl _
        obtain ⟨m',hadd,hins⟩ := listAdd_inserted hring hnode (hsorted.insert hearly fun b hb => heq ▸ hfirst b hb)
        exact ⟨m',[listSorted],rest,rfl,hadd,hins⟩
      · rw [if_neg heq]
        have hring : Ring m.links head ((listSorted :: rest) ++ []) := by rwa [List.append_nil]
        have hprev : m.links.prev head = some ((listSorted :: rest).getLastD head) := hring.meet.2
        have hlen : (listSorted :: rest).length ≤ 2^32 := by
          have := (List.nodup_cons.mp h.nodup).2.length_le_card
          rwa [Fintype.card_fin] at this
        rw [hprev, Option.bind_some]
        obtain ⟨m',k₁,k₂,hk,hscan,hins⟩ := scanBack_inserted hring (by rwa [List.append_nil]) (by rwa [List.append_nil])
          (fun b hb => absurd hb List.not_mem_nil)
          (fun a ha => by cases ha; exact UInt64.not_lt.mp hgt) (List.cons_ne_nil _ _) (2^32) hlen
        rw [List.append_nil] at hk
        exact ⟨m',k₁,k₂,hk,hscan,hins⟩

private theorem length_le_of_ring {d : Links Ptr} (h : Ring d head l) : l.length + 1 ≤ 2^32 := by
  have := h.nodup.length_le_card
  rwa [Fintype.card_fin, List.length_cons] at this

namespace SortInv

/-- A node that is not linked is added, at a new response time. -/
theorem add (h : SortInv head m spec l) (hhead : node ≠ head) (hnode : node ∉ l) (t : UInt64) :
    ∃ m' l', addNode2SortLink (setSortlistValue m node t) head node = some m' ∧ SortInv head m' ((node,t) ::ₘ spec) l' := by
  have htime : ∀ a ∈ l, (setSortlistValue m node t).responseTime a = m.responseTime a := fun a ha =>
    Function.update_of_ne (ne_of_mem_of_not_mem ha hnode) _ _
  have hself : (setSortlistValue m node t).responseTime node = t := Function.update_self _ _ _
  have hmem : node ∉ head :: l := fun hm => (List.mem_cons.mp hm).elim hhead hnode
  obtain ⟨m',l₁,l₂,rfl,hadd,hins⟩ := addNode2SortLink_inserted (m := setSortlistValue m node t) h.ring hmem (h.sorted.congr htime)
  refine ⟨m',l₁ ++ node :: l₂,hadd,hins.ring,hins.responseTime ▸ hins.sorted,?_,?_,fun a ha hal => ?_⟩
  · have hlen := length_le_of_ring hins.ring
    have hnum : (setSortlistValue m node t).nodeNum.toNat = (l₁ ++ l₂).length := h.nodeNum
    rw [List.length_append, List.length_cons] at hlen
    rw [List.length_append] at hnum
    rw [hins.nodeNum, UInt32.toNat_add, hnum, List.length_append, List.length_cons]
    change (l₁.length + l₂.length + 1) % 2^32 = _
    rw [Nat.mod_eq_of_lt (by omega)]
    omega
  · rw [hins.responseTime]
    have hperm : (l₁ ++ node :: l₂).Perm (node :: (l₁ ++ l₂)) := List.perm_middle
    rw [Multiset.coe_eq_coe.mpr (hperm.map _), List.map_cons, hself, ← h.spec, ← Multiset.cons_coe]
    exact congrArg (fun l : List (Ptr × UInt64) => (node,t) ::ₘ (l : Multiset (Ptr × UInt64)))
      (List.map_congr_left fun a ha => by rw [htime a ha])
  · rw [hins.responseTime]
    have hne : a ≠ node := fun he => hal (he ▸ List.mem_append_right l₁ List.mem_cons_self)
    refine (Function.update_of_ne hne _ _).trans (h.unlinked a ha fun hmem => hal ?_)
    rcases List.mem_append.mp hmem with hm | hm
    · exact List.mem_append_left _ hm
    · exact List.mem_append_right l₁ (List.mem_cons_of_mem node hm)

/-- A linked node is deleted; the others stay. -/
theorem delete (h : SortInv head m spec (l₁ ++ node :: l₂)) : ∃ m', osDeleteNodeSortLink m node = some m' ∧
    ∃ rest, spec = (node,m.responseTime node) ::ₘ rest ∧ (∀ e ∈ rest, e.1 ≠ node) ∧ SortInv head m' rest (l₁ ++ l₂) := by
  obtain ⟨links,hdelete,hring⟩ := h.ring.delete
  have hnode : node ∉ l₁ ++ l₂ :=
    (List.nodup_cons.mp (List.nodup_middle.mp (List.nodup_cons.mp h.ring.nodup).2)).1
  have htime : ∀ a ∈ l₁ ++ l₂, Function.update m.responseTime node OS_SORT_LINK_INVALID_TIME a = m.responseTime a := fun a ha =>
    Function.update_of_ne (ne_of_mem_of_not_mem ha hnode) _ _
  refine ⟨_,by rw [osDeleteNodeSortLink, hdelete]; rfl,((l₁ ++ l₂).map fun a => (a,m.responseTime a) : List _),?_,fun e he => ?_,
    hring,h.sorted.remove.congr htime,?_,?_,fun a ha hal => ?_⟩
  · rw [← h.spec, Multiset.cons_coe]
    exact Multiset.coe_eq_coe.mpr (List.perm_middle.map fun a => (a,m.responseTime a))
  · obtain ⟨a,ha,rfl⟩ := List.mem_map.mp (Multiset.mem_coe.mp he)
    rintro rfl
    exact hnode ha
  · have hlen := length_le_of_ring h.ring
    have hnum := h.nodeNum
    rw [List.length_append, List.length_cons] at hlen hnum
    change (m.nodeNum - 1).toNat = _
    rw [UInt32.toNat_sub, hnum, List.length_append]
    change (2^32 - 1 + (l₁.length + (l₂.length + 1))) % 2^32 = _
    omega
  · exact congrArg (fun l : List (Ptr × UInt64) => (l : Multiset (Ptr × UInt64)))
      (List.map_congr_left fun a ha => congrArg (Prod.mk a) (htime a ha))
  · change Function.update m.responseTime node OS_SORT_LINK_INVALID_TIME a = OS_SORT_LINK_INVALID_TIME
    by_cases hne : a = node
    · rw [hne, Function.update_self]
    · rw [Function.update_of_ne hne]
      refine h.unlinked a ha fun hmem => hal ?_
      rcases List.mem_append.mp hmem with hm | hm
      · exact List.mem_append_left l₂ hm
      · exact List.mem_append_right l₁ ((List.mem_cons.mp hm).resolve_left hne)

/-- spec has the nodes of the ring. -/
theorem mem_iff (h : SortInv head m spec l) : node ∈ l ↔ ∃ e ∈ spec, e.1 = node := by
  rw [← h.spec]
  constructor
  · exact fun hn => ⟨(node,m.responseTime node),Multiset.mem_coe.mpr (List.mem_map_of_mem hn),rfl⟩
  · rintro ⟨e,he,rfl⟩
    obtain ⟨a,ha,rfl⟩ := List.mem_map.mp (Multiset.mem_coe.mp he)
    exact ha

/-- A node with another time than OS_SORT_LINK_INVALID_TIME is linked. -/
theorem linked (h : SortInv head m spec l) (hhead : node ≠ head) (ht : m.responseTime node ≠ OS_SORT_LINK_INVALID_TIME) : node ∈ l := by
  by_contra hn
  exact ht (h.unlinked node hhead hn)

/-- A node with OS_SORT_LINK_INVALID_TIME is not in spec with a valid time. -/
theorem invalid (h : SortInv head m spec l) (ht : m.responseTime node = OS_SORT_LINK_INVALID_TIME) :
    ∀ e ∈ spec, ¬ (e.1 = node ∧ validTime e.2 = true) := by
  rintro e he ⟨rfl,hvalid⟩
  rw [← h.spec] at he
  obtain ⟨a,-,rfl⟩ := List.mem_map.mp (Multiset.mem_coe.mp he)
  exact of_decide_eq_true hvalid ht

end SortInv

/-- What is prescribed when no node of the call can be deleted or adjusted. -/
private theorem prescribes_same (h : ∀ e ∈ spec, ¬ (e.1 = node ∧ validTime e.2 = true)) (t : UInt64) :
    (SortCall.deleteFrom node).prescribes validTime spec = spec ∧ (SortCall.adjust node t).prescribes validTime spec = spec := by
  refine ⟨Multiset.filter_eq_self.mpr h,?_⟩
  rw [SortCall.prescribes, Multiset.map_congr rfl fun e he => if_neg (h e he), Multiset.map_id']

/-- What is prescribed when it is linked with a valid time. -/
private theorem prescribes_valid {rest : Multiset (Ptr × UInt64)} {u : UInt64} (hspec : spec = (node,u) ::ₘ rest) (hrest : ∀ e ∈ rest, e.1 ≠ node)
    (hu : validTime u = true) (t : UInt64) :
    (SortCall.deleteFrom node).prescribes validTime spec = rest ∧
      (SortCall.adjust node t).prescribes validTime spec = (node,t) ::ₘ rest := by
  subst hspec
  have hother : ∀ e ∈ rest, ¬ (e.1 = node ∧ validTime e.2 = true) := fun e he hc => hrest e he hc.1
  constructor
  · exact (Multiset.filter_cons_of_neg rest fun hc => hc ⟨rfl,hu⟩).trans (Multiset.filter_eq_self.mpr hother)
  · rw [SortCall.prescribes, Multiset.map_cons, if_pos ⟨rfl,hu⟩, Multiset.map_congr rfl fun e he => if_neg (hother e he),
      Multiset.map_id']

/-- Each call ends without a fault and does what is prescribed. -/
theorem SortInv.step (h : SortInv head m spec l) {c : SortCall} (hp : c.Pre head ⟨m,spec⟩) :
    ∃ m' l', c.exec head m = some m' ∧ SortInv head m' (c.prescribes validTime spec) l' := by
  obtain ⟨hhead,hp⟩ := hp
  cases c with
  | add node t idleCpu =>
    change node ≠ head at hhead
    have hnode : node ∉ l := fun hn => by
      obtain ⟨e,he,hen⟩ := h.mem_iff.mp hn
      exact hp e he hen
    obtain ⟨m',l',hadd,h'⟩ := h.add hhead hnode t
    refine ⟨_,l',by rw [SortCall.exec, osAdd2SortLink, hadd]; rfl,?_⟩
    exact ⟨h'.ring,h'.sorted,h'.nodeNum,h'.spec,h'.unlinked⟩
  | deleteNode node =>
    obtain ⟨l₁,l₂,rfl⟩ := List.append_of_mem (h.mem_iff.mpr hp)
    obtain ⟨m',hdelete,rest,rfl,hrest,h'⟩ := h.delete
    refine ⟨m',l₁ ++ l₂,hdelete,?_⟩
    have hspec : (SortCall.deleteNode node).prescribes validTime ((node,m.responseTime node) ::ₘ rest) = rest :=
      (Multiset.filter_cons_of_neg rest fun hc => hc rfl).trans (Multiset.filter_eq_self.mpr hrest)
    rw [hspec]
    exact h'
  | deleteFrom node =>
    change node ≠ head at hhead
    rw [SortCall.exec, osDeleteFromSortLink]
    by_cases ht : m.responseTime node = OS_SORT_LINK_INVALID_TIME
    · rw [if_neg (not_not.mpr ht), (prescribes_same (h.invalid ht) 0).1]
      exact ⟨m,l,rfl,h⟩
    · obtain ⟨l₁,l₂,rfl⟩ := List.append_of_mem (h.linked hhead ht)
      obtain ⟨m',hdelete,rest,hspec,hrest,h'⟩ := h.delete
      rw [if_pos ht, hdelete, (prescribes_valid hspec hrest (decide_eq_true ht) 0).1]
      exact ⟨m',_,rfl,h'⟩
  | adjust node t =>
    change node ≠ head at hhead
    rw [SortCall.exec, osSortLinkAdjustNodeResponseTime]
    by_cases ht : m.responseTime node = OS_SORT_LINK_INVALID_TIME
    · rw [if_neg (not_not.mpr ht), (prescribes_same (h.invalid ht) t).2]
      exact ⟨m,l,rfl,h⟩
    · obtain ⟨l₁,l₂,rfl⟩ := List.append_of_mem (h.linked hhead ht)
      have hnode : node ∉ l₁ ++ l₂ :=
        (List.nodup_cons.mp (List.nodup_middle.mp (List.nodup_cons.mp h.ring.nodup).2)).1
      obtain ⟨m',hdelete,rest,hspec,hrest,h'⟩ := h.delete
      obtain ⟨m'',l',hadd,h''⟩ := h'.add hhead hnode t
      rw [if_pos ht, hdelete, Option.bind_some, hadd, (prescribes_valid hspec hrest (decide_eq_true ht) t).2]
      exact ⟨m'',l',rfl,h''⟩

private theorem sortInv_of_reachable {x : SortHist} (h : Run.Reachable (sortSystem validTime head) (fun _ _ => True) x) :
    ∃ l, SortInv head x.m x.spec l := by
  refine h.invariant (I := fun x => ∃ l, SortInv head x.m x.spec l) (fun x hx => ?_) fun x c hi hp _ => ?_
  · obtain ⟨hspec,m,hm,hinvalid⟩ := hx
    rw [hm, hspec]
    exact ⟨[],⟨⟨List.nodup_singleton head,Function.update_self _ _ _,Function.update_self _ _ _,trivial⟩,List.Pairwise.nil,rfl,rfl,
      fun node hne _ => hinvalid node hne⟩⟩
  · obtain ⟨l,hi⟩ := hi
    obtain ⟨m',l',hexec,h'⟩ := hi.step hp
    refine ⟨l',?_⟩
    change SortInv head (c.run validTime head x).m (c.run validTime head x).spec l'
    rw [SortCall.run, hexec]
    exact h'

/-- After every run of calls the link is sorted and counted, it has exactly the nodes that the calls prescribe, and the next call
ends. -/
theorem sortLaw_of_reachable {x : SortHist} (h : Run.Reachable (sortSystem validTime head) (fun _ _ => True) x) : SortLaw head x := by
  obtain ⟨l,hi⟩ := sortInv_of_reachable h
  refine ⟨⟨l,hi.ring,hi.sorted,hi.nodeNum,hi.spec⟩,fun c hp hnone => ?_⟩
  obtain ⟨m',l',hexec,-⟩ := hi.step hp
  exact absurd (hexec.symm.trans hnone) (Option.some_ne_none m')

/-- The empty link of the head at 0. -/
def startSort : SortHist :=
  ⟨osSortLinkInit ⟨⟨fun _ => none,fun _ => none⟩,fun _ => OS_SORT_LINK_INVALID_TIME,fun _ => 0,0⟩ 0,0⟩

private theorem startSort_init (valid : UInt64 → Bool) : (sortSystem valid 0).init startSort := ⟨rfl,_,rfl,fun _ _ => rfl⟩

/-- A node can be added when it is not among the first parts of spec. -/
private theorem fresh_of_not_mem (h : node ∉ spec.map Prod.fst) : ∀ e ∈ spec, e.1 ≠ node :=
  fun _ he hen => h (hen ▸ Multiset.mem_map_of_mem Prod.fst he)

/-- Three nodes are added, the last one by a scan over two, and the first is moved to the end. -/
theorem sortLaw_three : ∃ x, Run.Reachable (sortSystem validTime 0) (fun _ _ => True) x ∧ x.m.nodeNum = 3 ∧
    x.m.links.prev 0 = some 1 ∧ x.m.responseTime 1 = 9 ∧ SortLaw 0 x := by
  have h0 : Run.Reachable (sortSystem validTime 0) (fun _ _ => True) startSort := .init (startSort_init validTime)
  have h1 : Run.Reachable (sortSystem validTime 0) (fun _ _ => True) _ := .call h0 (.add 1 5 0)
    ⟨by decide +kernel,fresh_of_not_mem (by decide +kernel)⟩ trivial
  have h2 : Run.Reachable (sortSystem validTime 0) (fun _ _ => True) _ := .call h1 (.add 2 8 0)
    ⟨by decide +kernel,fresh_of_not_mem (by decide +kernel)⟩ trivial
  have h3 : Run.Reachable (sortSystem validTime 0) (fun _ _ => True) _ := .call h2 (.add 3 6 0)
    ⟨by decide +kernel,fresh_of_not_mem (by decide +kernel)⟩ trivial
  have h4 : Run.Reachable (sortSystem validTime 0) (fun _ _ => True) _ := .call h3 (.adjust 1 9) ⟨by decide +kernel,trivial⟩ trivial
  exact ⟨_,h4,by decide +kernel,by decide +kernel,by decide +kernel,sortLaw_of_reachable h4⟩

/-- OsDeleteFromSortLink leaves a node with OS_SORT_LINK_INVALID_TIME in the link. -/
theorem sortLaw_fails_invalid_time : ¬ ∀ x, Run.Reachable (sortSystem (fun _ => true) 0) (fun _ _ => True) x → SortLaw 0 x := by
  intro hall
  have h0 : Run.Reachable (sortSystem (fun _ => true) 0) (fun _ _ => True) startSort := .init (startSort_init _)
  have h1 : Run.Reachable (sortSystem (fun _ => true) 0) (fun _ _ => True) _ := .call h0 (.add 1 OS_SORT_LINK_INVALID_TIME 0)
    ⟨by decide +kernel,fresh_of_not_mem (by decide +kernel)⟩ trivial
  have h2 : Run.Reachable (sortSystem (fun _ => true) 0) (fun _ _ => True) _ := .call h1 (.deleteFrom 1)
    ⟨by decide +kernel,trivial⟩ trivial
  obtain ⟨⟨l,-,-,hnum,hspec⟩,-⟩ := hall _ h2
  have hempty : SortHist.spec ((SortCall.deleteFrom 1).run (fun _ => true) 0
      ((SortCall.add 1 OS_SORT_LINK_INVALID_TIME 0).run (fun _ => true) 0 startSort)) = 0 := by decide +kernel
  obtain rfl : l = [] := List.map_eq_nil_iff.mp ((Multiset.coe_eq_zero _).mp (hspec.trans hempty))
  exact absurd hnum (by decide +kernel)

end LiteOsKernel.SortLink
