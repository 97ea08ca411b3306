import Multi64.GoldenEyeTables
import Multi64.Lib.LinkedRing

/-! Bond's inventory as a circle of nodes, and what an update of the pickups
takes out of it. -/

namespace Multi64

namespace GoldenEye

section Ring

variable (m : Store) (bond : Nat) (nodes gone : List Nat)

def nextOf (node : Nat) : Nat := toRdram (m.read32 (node + offNext))

def prevOf (node : Nat) : Nat := toRdram (m.read32 (node + offPrev))

/-- The nodes in order, from the one the head is. -/
structure Ring : Prop where
  head : toRdram (m.read32 (bond + offInvHead)) = nodes.headD 0
  circle : Circle (nextOf m) (prevOf m) nodes

/-- Distinct nodes in memory, apart from each other and from the head. -/
structure Nodes : Prop where
  nodup : nodes.Nodup
  room : nodes.length ≤ maxInv
  pointer : ∀ n ∈ nodes, 0 < n ∧ n < 0x800000
  apart : ∀ n ∈ nodes, ∀ x ∈ nodes, n ≠ x → RunsApart n invItemSize x invItemSize
  head : ∀ n ∈ nodes, RunsApart n invItemSize (bond + offInvHead) 4

def Cleared (node : Nat) : Prop := m.read32 node = invItemNone ∧ ∀ off ∈ [4, 8, 12, 16], m.read32 (node + off) = 0

/-- A write that reaches neither a node nor the head. -/
structure Outside (a n : Nat) : Prop where
  nodes : ∀ x ∈ nodes, RunsApart a n x invItemSize
  head : RunsApart a n (bond + offInvHead) 4

/-- What is left once some of the nodes are gone. -/
structure Left (m' : Store) : Prop where
  ring : Ring m' bond (nodes.filter (· ∉ gone))
  cleared : ∀ n ∈ nodes, n ∈ gone → Cleared m' n
  kept : ∀ n ∈ nodes, n ∉ gone → m'.read32 n = m.read32 n ∧ m'.read32 (n + 4) = m.read32 (n + 4)

end Ring

section Unlink

variable {m m' m₀ : Store} {bond node a x : Nat} {nodes gone : List Nat} {v : UInt32} {b : Bytes}

theorem toRdram_kseg0 {a : Nat} (h : a < 0x800000) : toRdram (kseg0 a) = a := by
  have hval : (kseg0 a).toNat = 0x80000000 + a := by
    rw [kseg0, UInt32.toNat_ofNat', Nat.mod_eq_of_lt (by omega)]
  have hnull : kseg0 a ≠ 0 := by
    intro heq
    rw [heq] at hval
    simp at hval
    omega
  rw [toRdram, if_neg hnull, hval, if_neg (by omega), if_pos (by omega), Nat.add_sub_cancel_left]

@[simp] theorem toRdram_zero : toRdram 0 = 0 := rfl

theorem clearEntry_frame (h : RunsApart node invItemSize a 4) : (clearEntry m node).read32 a = m.read32 a := by
  simp only [invItemSize] at h
  simp only [clearEntry, List.foldl_cons, List.foldl_nil]
  rw [Store.read32_write32_apart _ (by omega), Store.read32_write32_apart _ (by omega), Store.read32_write32_apart _ (by omega),
    Store.read32_write32_apart _ (by omega), Store.read32_write32_apart _ (by omega)]

theorem clearEntry_cleared (m : Store) (node : Nat) : Cleared (clearEntry m node) node := by
  simp only [Cleared, clearEntry, List.foldl_cons, List.foldl_nil, List.forall_mem_cons]
  refine ⟨?_, ?_, ?_, ?_, Store.read32_write32 .., fun _ hmem => nomatch hmem⟩
  · rw [Store.read32_write32_apart _ (by omega), Store.read32_write32_apart _ (by omega),
      Store.read32_write32_apart _ (by omega), Store.read32_write32_apart _ (by omega), Store.read32_write32]
  · rw [Store.read32_write32_apart _ (by omega), Store.read32_write32_apart _ (by omega),
      Store.read32_write32_apart _ (by omega), Store.read32_write32]
  · rw [Store.read32_write32_apart _ (by omega), Store.read32_write32_apart _ (by omega), Store.read32_write32]
  · rw [Store.read32_write32_apart _ (by omega), Store.read32_write32]

/-- A node that is taken out is never taken out again. -/
theorem unlink_cleared (h : Cleared m node) : unlinkInventoryEntry m bond node = m := by
  have hnext : m.read32 (node + offNext) = 0 := h.2 12 (by simp)
  rw [unlinkInventoryEntry, hnext]
  exact if_pos (.inl rfl)

/-- A node alone: the head is none. -/
theorem unlink_alone (hpos : 0 < node) (hnext : nextOf m node = node) (hprev : prevOf m node = node) :
    unlinkInventoryEntry m bond node = clearEntry (m.write32 (bond + offInvHead) 0) node := by
  simp only [nextOf, prevOf] at hnext hprev
  rw [unlinkInventoryEntry]
  simp only [hnext, hprev]
  rw [if_neg (by omega), if_pos (by simp)]

/-- The words of the two nodes beside the one that is taken out. -/
def join (m : Store) (node : Nat) : Store :=
  (m.write32 (prevOf m node + offNext) (kseg0 (nextOf m node))).write32 (nextOf m node + offPrev) (kseg0 (prevOf m node))

theorem unlink_between (hn : nextOf m node ≠ 0) (hp : prevOf m node ≠ 0) (hne : nextOf m node ≠ node) :
    unlinkInventoryEntry m bond node = clearEntry
      (if toRdram (m.read32 (bond + offInvHead)) = node then (join m node).write32 (bond + offInvHead) (kseg0 (nextOf m node))
        else join m node) node := by
  simp only [nextOf, prevOf] at hn hp hne
  rw [unlinkInventoryEntry]
  simp only [join, nextOf, prevOf]
  rw [if_neg (not_or.mpr ⟨hn, hp⟩), if_neg fun h => hne h.1]

theorem unlink_clears (hn : nextOf m node ≠ 0) (hp : prevOf m node ≠ 0) : Cleared (unlinkInventoryEntry m bond node) node := by
  simp only [nextOf, prevOf] at hn hp
  simp only [unlinkInventoryEntry]
  rw [if_neg (not_or.mpr ⟨hn, hp⟩)]
  exact clearEntry_cleared ..

/-- What taking a node out leaves: its neighbours' links, the head and the node itself. -/
theorem unlink_frame (hapart : RunsApart node invItemSize a 4) (hhead : RunsApart (bond + offInvHead) 4 a 4)
    (hprev : RunsApart (prevOf m node + offNext) 4 a 4) (hnext : RunsApart (nextOf m node + offPrev) 4 a 4) :
    (unlinkInventoryEntry m bond node).read32 a = m.read32 a := by
  have hjoin : (join m node).read32 a = m.read32 a := by
    rw [join, Store.read32_write32_apart _ hnext, Store.read32_write32_apart _ hprev]
  simp only [unlinkInventoryEntry]
  split
  · rfl
  · rw [clearEntry_frame hapart]
    split
    · rw [Store.read32_write32_apart _ hhead]
    · split
      · rw [Store.read32_write32_apart _ hhead]
        exact hjoin
      · exact hjoin

theorem Nodes.words (h : Nodes bond nodes) {n : Nat} (hn : n ∈ nodes) (hx : x ∈ nodes) (hne : n ≠ x) {i j : Nat} (hi : i ≤ 16)
    (hj : j ≤ 16) : RunsApart (n + i) 4 (x + j) 4 := by
  have hapart := h.apart n hn x hx hne
  simp only [invItemSize] at hapart
  omega

theorem Nodes.head_word (h : Nodes bond nodes) (hx : x ∈ nodes) {i : Nat} (hi : i ≤ 16) :
    RunsApart (x + i) 4 (bond + offInvHead) 4 := by
  have hapart := h.head x hx
  simp only [invItemSize] at hapart
  omega

section Step

variable (hnodes : Nodes bond nodes) (hx : x ∈ nodes) (hp : prevOf m x ∈ nodes) (hn : nextOf m x ∈ nodes)

include hnodes hx hp hn

/-- A word of another node, unless it is the link that changes. -/
theorem unlink_other {n i : Nat} (hmem : n ∈ nodes) (hne : n ≠ x) (hi : i ∈ [0, 4, 8, 12, 16])
    (hprev : i = offNext → n ≠ prevOf m x) (hnext : i = offPrev → n ≠ nextOf m x) :
    (unlinkInventoryEntry m bond x).read32 (n + i) = m.read32 (n + i) := by
  simp only [List.mem_cons, List.not_mem_nil, or_false] at hi
  simp only [offNext, offPrev] at hprev hnext
  have hnode := hnodes.apart x hx n hmem hne.symm
  simp only [invItemSize] at hnode
  refine unlink_frame (by simp only [invItemSize]; omega) (hnodes.head_word hmem (by omega)).symm ?_ ?_
  · by_cases heq : prevOf m x = n
    · rw [heq]
      simp only [offNext]
      omega
    · exact hnodes.words hp hmem heq (by simp [offNext]) (by omega)
  · by_cases heq : nextOf m x = n
    · rw [heq]
      simp only [offPrev]
      omega
    · exact hnodes.words hn hmem heq (by simp [offPrev]) (by omega)

section Between

variable (hself : nextOf m x ≠ x)

include hself

omit hx in
theorem unlink_ring_eq : unlinkInventoryEntry m bond x = clearEntry
    (if toRdram (m.read32 (bond + offInvHead)) = x then (join m x).write32 (bond + offInvHead) (kseg0 (nextOf m x))
      else join m x) x :=
  unlink_between (Nat.pos_iff_ne_zero.mp (hnodes.pointer _ hn).1) (Nat.pos_iff_ne_zero.mp (hnodes.pointer _ hp).1) hself

/-- A word of a node beside the one taken out, as the join left it. -/
theorem unlink_joined {n i : Nat} (hmem : n ∈ nodes) (hne : n ≠ x) (hi : i ≤ 16) :
    (unlinkInventoryEntry m bond x).read32 (n + i) = (join m x).read32 (n + i) := by
  have hnode := hnodes.apart x hx n hmem hne.symm
  simp only [invItemSize] at hnode
  rw [unlink_ring_eq hnodes hp hn hself, clearEntry_frame (by simp only [invItemSize]; omega)]
  split
  · exact Store.read32_write32_apart _ (hnodes.head_word hmem hi).symm
  · rfl

/-- The node before it is linked to the one behind. -/
theorem unlink_next (hback : prevOf m x ≠ x) {n : Nat} (hmem : n ∈ nodes) (hne : n ≠ x) :
    nextOf (unlinkInventoryEntry m bond x) n = if n = prevOf m x then nextOf m x else nextOf m n := by
  by_cases heq : n = prevOf m x
  · have hapart : RunsApart (nextOf m x + offPrev) 4 (prevOf m x + offNext) 4 := by
      by_cases hboth : nextOf m x = prevOf m x
      · rw [hboth]
        simp only [offPrev, offNext]
        omega
      · exact hnodes.words hn hp hboth (by simp [offPrev]) (by simp [offNext])
    rw [if_pos heq, heq, nextOf, unlink_joined hnodes hx hp hn hself hp hback (by simp [offNext]), join,
      Store.read32_write32_apart _ hapart, Store.read32_write32, toRdram_kseg0 (hnodes.pointer _ hn).2]
  · rw [if_neg heq, nextOf,
      unlink_other hnodes hx hp hn hmem hne (by simp [offNext]) (fun _ => heq) fun h => absurd h (by simp [offNext, offPrev]), nextOf]

/-- The node behind it is linked to the one before. -/
theorem unlink_prev {n : Nat} (hmem : n ∈ nodes) (hne : n ≠ x) :
    prevOf (unlinkInventoryEntry m bond x) n = if n = nextOf m x then prevOf m x else prevOf m n := by
  by_cases heq : n = nextOf m x
  · rw [if_pos heq, heq, prevOf, unlink_joined hnodes hx hp hn hself hn hself (by simp [offPrev]), join, Store.read32_write32,
      toRdram_kseg0 (hnodes.pointer _ hp).2]
  · rw [if_neg heq, prevOf,
      unlink_other hnodes hx hp hn hmem hne (by simp [offPrev]) (fun h => absurd h (by simp [offNext, offPrev])) fun _ => heq, prevOf]

/-- The head is never left on the node that is taken out. -/
theorem unlink_head : toRdram ((unlinkInventoryEntry m bond x).read32 (bond + offInvHead)) =
    if toRdram (m.read32 (bond + offInvHead)) = x then nextOf m x else toRdram (m.read32 (bond + offInvHead)) := by
  rw [unlink_ring_eq hnodes hp hn hself, clearEntry_frame (hnodes.head x hx)]
  split
  · rw [Store.read32_write32, toRdram_kseg0 (hnodes.pointer _ hn).2]
  · rw [join, Store.read32_write32_apart _ (hnodes.head_word hn (by simp [offPrev])),
      Store.read32_write32_apart _ (hnodes.head_word hp (by simp [offNext]))]

end Between

end Step

theorem filter_gone (hnodup : nodes.Nodup) :
    nodes.filter (· ∉ gone ++ [x]) = (nodes.filter (· ∉ gone)).erase x := by
  rw [(hnodup.filter _).erase_eq_filter, List.filter_filter]
  refine List.filter_congr fun n _ => ?_
  by_cases hn : n = x <;> by_cases hin : n ∈ gone <;> simp [hn, hin]

theorem Left.congr {gone' : List Nat} (h : Left m₀ bond nodes gone m) (hsame : ∀ n, n ∈ gone' ↔ n ∈ gone) :
    Left m₀ bond nodes gone' m := by
  refine ⟨?_, fun n hn hin => h.cleared n hn ((hsame n).mp hin), fun n hn hout => h.kept n hn fun hin => hout ((hsame n).mpr hin)⟩
  have hfilter : nodes.filter (· ∉ gone') = nodes.filter (· ∉ gone) := List.filter_congr fun n _ => by simp [hsame n]
  rw [hfilter]
  exact h.ring

/-- A node that stands is taken out of the circle. -/
theorem Ring.unlink {l : List Nat} (h : Ring m bond l) (hnodes : Nodes bond nodes) (hl : ∀ n ∈ l, n ∈ nodes) (hnodup : l.Nodup)
    (hin : x ∈ l) : Ring (unlinkInventoryEntry m bond x) bond (l.erase x) := by
  have hx := hl x hin
  obtain ⟨hmem, hmem'⟩ := h.circle.mem hin
  have hn := hl _ hmem
  have hp := hl _ hmem'
  by_cases hself : nextOf m x = x
  · obtain rfl : l = [x] := h.circle.alone hnodup hin hself
    rw [unlink_alone (hnodes.pointer x hx).1 hself h.circle.single.2, List.erase_cons_head]
    refine ⟨?_, trivial⟩
    rw [clearEntry_frame (hnodes.head x hx), Store.read32_write32]
    rfl
  · have hback : prevOf m x ≠ x := by
      intro heq
      have hlink := (h.circle.inverse hin).2
      rw [heq] at hlink
      exact hself hlink
    refine ⟨?_, h.circle.remove hnodup hin (fun n hmem => ?_) fun n hmem => ?_⟩
    · cases l with
      | nil => exact absurd hin List.not_mem_nil
      | cons first l =>
        rw [unlink_head hnodes hx hp hn hself, h.head, h.circle.headD_erase hin hself]
        rfl
    · exact unlink_next hnodes hx hp hn hself hback (hl n (List.mem_of_mem_erase hmem)) (hnodup.mem_erase_iff.mp hmem).1
    · exact unlink_prev hnodes hx hp hn hself (hl n (List.mem_of_mem_erase hmem)) (hnodup.mem_erase_iff.mp hmem).1

/-- One node is taken out, whether or not it was before. -/
theorem Left.unlink (h : Left m₀ bond nodes gone m) (hnodes : Nodes bond nodes) (hx : x ∈ nodes) :
    Left m₀ bond nodes (gone ++ [x]) (unlinkInventoryEntry m bond x) := by
  by_cases hgone : x ∈ gone
  · rw [unlink_cleared (h.cleared x hx hgone)]
    refine h.congr fun n => ?_
    simp only [List.mem_append, List.mem_singleton, or_iff_left_iff_imp]
    rintro rfl
    exact hgone
  · have hin : x ∈ nodes.filter (· ∉ gone) := by simp [hx, hgone]
    have hsub : ∀ n ∈ nodes.filter (· ∉ gone), n ∈ nodes ∧ n ∉ gone := fun n hn => by simpa using hn
    obtain ⟨hn, hp⟩ := h.ring.circle.mem hin
    have hword := fun n i => @unlink_other m bond x nodes hnodes hx (hsub _ hp).1 (hsub _ hn).1 n i
    refine ⟨?_, fun n hmem hold => ?_, fun n hmem hleft => ?_⟩
    · rw [filter_gone hnodes.nodup]
      exact h.ring.unlink hnodes (fun n hn => (hsub n hn).1) (hnodes.nodup.filter _) hin
    · by_cases hne : n = x
      · rw [hne]
        have hnext := (hnodes.pointer _ (hsub _ hn).1).1
        have hprev := (hnodes.pointer _ (hsub _ hp).1).1
        exact unlink_clears (Nat.pos_iff_ne_zero.mp hnext) (Nat.pos_iff_ne_zero.mp hprev)
      · -- neither link of the node taken out leads to one that is gone
        have hbefore : n ∈ gone := by simpa [hne] using hold
        have hnp : n ≠ prevOf m x := fun heq => (hsub _ hp).2 (heq ▸ hbefore)
        have hnn : n ≠ nextOf m x := fun heq => (hsub _ hn).2 (heq ▸ hbefore)
        have hsame := fun i hi => hword n i hmem hne hi (fun _ => hnp) fun _ => hnn
        obtain ⟨hfirst, hrest⟩ := h.cleared n hmem hbefore
        refine ⟨(hsame 0 (by simp)).trans hfirst, fun off hoff => ?_⟩
        rw [hsame off (List.mem_cons_of_mem 0 hoff)]
        exact hrest off hoff
    · have hne : n ≠ x := fun heq => hleft (by simp [heq])
      have hbefore : n ∉ gone := fun hin => hleft (List.mem_append_left _ hin)
      obtain ⟨htype, hvalue⟩ := h.kept n hmem hbefore
      refine ⟨(hword n 0 hmem hne (by simp) (fun h => ?_) fun h => ?_).trans htype,
        (hword n 4 hmem hne (by simp) (fun h => ?_) fun h => ?_).trans hvalue⟩
      all_goals exact absurd h (by simp [offNext, offPrev])

/-- A write that reaches no node and not the head. -/
theorem Left.write (h : Left m₀ bond nodes gone m) (hout : Outside bond nodes a b.length) :
    Left m₀ bond nodes gone (m.write a b) := by
  have hword : ∀ n ∈ nodes, ∀ i ≤ 16, (m.write a b).read32 (n + i) = m.read32 (n + i) := by
    intro n hn i hi
    have hapart := hout.nodes n hn
    simp only [invItemSize] at hapart
    exact m.read32_write (by omega)
  have hcircle : ∀ n ∈ nodes, nextOf (m.write a b) n = nextOf m n ∧ prevOf (m.write a b) n = prevOf m n := by
    intro n hn
    rw [nextOf, prevOf, hword n hn _ (by simp [offNext]), hword n hn _ (by simp [offPrev])]
    exact ⟨rfl, rfl⟩
  refine ⟨⟨?_, ?_⟩, fun n hn hin => ?_, fun n hn hout' => ?_⟩
  · rw [m.read32_write hout.head]
    exact h.ring.head
  · exact h.ring.circle.congr fun n hn => hcircle n (List.mem_of_mem_filter hn)
  · obtain ⟨hfirst, hrest⟩ := h.cleared n hn hin
    refine ⟨(hword n hn 0 (by omega)).trans hfirst, fun off hoff => ?_⟩
    rw [hword n hn off (by simp at hoff; omega)]
    exact hrest off hoff
  · obtain ⟨htype, hvalue⟩ := h.kept n hn hout'
    exact ⟨(hword n hn 0 (by omega)).trans htype, (hword n hn 4 (by omega)).trans hvalue⟩

end Unlink

section Snapshot

variable {m : Store} {bond c : Nat} {nodes seen rest : List Nat}

def entryOf (m : Store) (node : Nat) : InvEntry := ⟨node, m.read32 node, m.read32 (node + 4)⟩

theorem any_entryOf : (seen.map (entryOf m)).any (·.ptr = c) = true ↔ c ∈ seen := by
  rw [List.any_map, List.any_eq_true]
  refine ⟨fun ⟨n, hn, heq⟩ => ?_, fun hc => ⟨c, hc, by simp [entryOf]⟩⟩
  have hsame : n = c := of_decide_eq_true heq
  rwa [← hsame]

/-- The walk takes every node of the circle, and stops where it began. -/
theorem inventoryLoop_ring (hcircle : Circle (nextOf m) (prevOf m) nodes) (hnodes : Nodes bond nodes)
    (h : nodes = seen ++ c :: rest) {room : Nat} (hroom : room + seen.length = maxInv) :
    inventoryLoop m room c (seen.map (entryOf m)) = some (nodes.map (entryOf m)) := by
  induction rest generalizing seen c room with
  | nil =>
    have hlen : nodes.length = seen.length + 1 := by simp [h]
    have hmax := hnodes.room
    have hc : c ∈ nodes := by simp [h]
    obtain ⟨room, rfl⟩ : ∃ k, room = k + 1 := ⟨room - 1, by omega⟩
    have hnew : c ∉ seen := fun hin => (List.disjoint_of_nodup_append (h ▸ hnodes.nodup)) hin List.mem_cons_self
    have hback := (hcircle.mem hc).1
    rw [inventoryLoop, if_neg (Nat.pos_iff_ne_zero.mp (hnodes.pointer c hc).1), if_neg fun hin => hnew (any_entryOf.mp hin),
      push_of_lt (by rw [List.length_map]; omega)]
    have hall : seen.map (entryOf m) ++ [entryOf m c] = nodes.map (entryOf m) := by simp [h]
    change inventoryLoop m room (nextOf m c) (seen.map (entryOf m) ++ [entryOf m c]) = _
    rw [hall]
    cases room with
    | zero => rfl
    | succ room =>
      rw [inventoryLoop, if_neg (Nat.pos_iff_ne_zero.mp (hnodes.pointer _ hback).1), if_pos (any_entryOf.mpr hback)]
  | cons d rest ih =>
    have hlen : nodes.length = seen.length + (rest.length + 2) := by simp [h]
    have hmax := hnodes.room
    have hc : c ∈ nodes := by simp [h]
    obtain ⟨room, rfl⟩ : ∃ k, room = k + 1 := ⟨room - 1, by omega⟩
    have hnew : c ∉ seen := fun hin => (List.disjoint_of_nodup_append (h ▸ hnodes.nodup)) hin List.mem_cons_self
    have hlink : nextOf m c = d := by
      rw [h] at hcircle
      have hfront : Circle (nextOf m) (prevOf m) (c :: d :: (rest ++ seen)) := by simpa using hcircle.rotate
      exact hfront.first.1
    rw [inventoryLoop, if_neg (Nat.pos_iff_ne_zero.mp (hnodes.pointer c hc).1), if_neg fun hin => hnew (any_entryOf.mp hin),
      push_of_lt (by rw [List.length_map]; omega)]
    have hnext := @ih d (seen ++ [c]) (by simp [h]) room (by simp; omega)
    rw [List.map_append] at hnext
    rw [← hlink] at hnext
    exact hnext

/-- What an update finds in the inventory. -/
def listed (m : Store) (bond : Nat) (nodes : List Nat) : List InvEntry :=
  if toRdram (m.read32 (bond + offInvPool)) = 0 ∨ m.read32 (bond + offInvMax) = 0 ∨ 128 < (m.read32 (bond + offInvMax)).toNat then []
  else nodes.map (entryOf m)

theorem inventoryEntries_ring (hring : Ring m bond nodes) (hnodes : Nodes bond nodes) :
    inventoryEntries m bond = some (listed m bond nodes) := by
  rw [inventoryEntries, listed]
  simp only [hring.head]
  cases nodes with
  | nil =>
    rw [if_pos (.inl rfl), List.map_nil, ite_self]
  | cons n nodes =>
    have hhead : n ≠ 0 := Nat.pos_iff_ne_zero.mp (hnodes.pointer n List.mem_cons_self).1
    rw [List.headD_cons]
    split
    · rename_i hwalk
      rw [if_pos (hwalk.resolve_left hhead)]
    · rename_i hwalk
      rw [if_neg fun h => hwalk (.inr h)]
      exact @inventoryLoop_ring m bond n (n :: nodes) [] nodes hring.circle hnodes rfl maxInv rfl

theorem listed_mem {e : InvEntry} (he : e ∈ listed m bond nodes) : e.ptr ∈ nodes := by
  rw [listed] at he
  split at he
  · cases he
  · obtain ⟨n, hn, rfl⟩ := List.mem_map.mp he
    exact hn

end Snapshot

end GoldenEye

end Multi64
