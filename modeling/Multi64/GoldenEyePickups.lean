import Multi64.GoldenEyeInventory

/-! One update of the pickups, over every target and object: which nodes it takes
out of the inventory, and that the rest stays a circle. -/

namespace Multi64

namespace GoldenEye

/-- The nodes of an object's prop, taken when its target is one for props. -/
def propNodes (inv : List InvEntry) (t : Target) (o : Tracked) : List Nat :=
  if o.obj ≠ 0 ∧ t.kind = 2 ∧ 0 < o.prop ∧ ¬o.collected then (inv.filter (isPropOf o.prop)).map (·.ptr) else []

/-- The nodes an update takes: those of the props, and the last token's. -/
def consumed (inv : List InvEntry) (targets : List Target) : List Nat :=
  targets.flatMap (fun t => t.objects.flatMap (propNodes inv t)) ++ ((inv.filter isToken).map (·.ptr)).getLast?.toList

/-- What the update writes, apart from the inventory. -/
structure Spared (bond : Nat) (nodes : List Nat) (targets : List Target) : Prop where
  mailbox : Outside bond nodes resultMailboxAddr 4
  objects : ∀ t ∈ targets, ∀ o ∈ t.objects, o.obj ≠ 0 →
    Outside bond nodes (o.obj + wepOffWeaponnum) 1 ∧ Outside bond nodes (o.obj + objOffFlags) 4
  hand : ∀ w ∈ tokenHandWords, ∀ x ∈ nodes, RunsApart (bond + w.1) 4 x invItemSize

section Pass

variable {m₀ m : Store} {bond : Nat} {nodes gone : List Nat} {inv : List InvEntry} {t : Target} {o : Tracked}
variable {targets : List Target} {token : Bool}

theorem Left.setResultBit (h : Left m₀ bond nodes gone m) (hmail : Outside bond nodes resultMailboxAddr 4) (index : Nat) :
    Left m₀ bond nodes gone (setResultBit m index) := by
  simp only [GoldenEye.setResultBit]
  split
  · exact h.write hmail
  · exact h

theorem Left.showToken (h : Left m₀ bond nodes gone m) (liveProp : Nat)
    (hobj : Outside bond nodes (o.obj + wepOffWeaponnum) 1 ∧ Outside bond nodes (o.obj + objOffFlags) 4) :
    Left m₀ bond nodes gone (showToken t liveProp o m).2 := by
  rw [GoldenEye.showToken]
  split
  · exact (h.write hobj.1).write hobj.2
  · exact h

theorem showToken_same (liveProp : Nat) : (showToken t liveProp o m).1.prop = o.prop ∧
    (showToken t liveProp o m).1.collected = o.collected := by
  rw [GoldenEye.showToken]
  split <;> exact ⟨rfl, rfl⟩

theorem takeProp_prop (r : Tracked × Store) (e : InvEntry) : (takeProp bond t r e).1.prop = r.1.prop := by
  rw [takeProp]
  split <;> rfl

/-- The loop over the snapshot, on which a node may be met that is gone. -/
theorem Left.foldl_takeProp (h : Left m₀ bond nodes gone m) (hnodes : Nodes bond nodes)
    (hmail : Outside bond nodes resultMailboxAddr 4) (hinv : ∀ e ∈ inv, e.ptr ∈ nodes) :
    Left m₀ bond nodes (gone ++ (inv.filter (isPropOf o.prop)).map (·.ptr)) (inv.foldl (takeProp bond t) (o, m)).2 := by
  induction inv generalizing o m gone with
  | nil => simpa using h
  | cons e inv ih =>
    obtain ⟨he, hrest⟩ := List.forall_mem_cons.mp hinv
    rw [List.foldl_cons, takeProp]
    by_cases hprop : isPropOf o.prop e = true
    · have hstep := (h.setResultBit hmail t.index).unlink hnodes he
      have hrun := @ih _ _ { o with collected := true } hstep hrest
      rw [if_pos hprop, List.filter_cons_of_pos hprop, List.map_cons]
      simpa using hrun
    · rw [if_neg hprop, List.filter_cons_of_neg hprop]
      exact ih h hrest

theorem Left.collectProp (h : Left m₀ bond nodes gone m) (hnodes : Nodes bond nodes)
    (hmail : Outside bond nodes resultMailboxAddr 4) (hinv : ∀ e ∈ inv, e.ptr ∈ nodes) :
    Left m₀ bond nodes (gone ++ (inv.filter (isPropOf o.prop)).map (·.ptr)) (collectProp bond inv t o m).2 := by
  have htaken := @Left.foldl_takeProp m₀ m bond nodes gone inv t o h hnodes hmail hinv
  simp only [GoldenEye.collectProp]
  split
  · exact htaken.setResultBit hmail t.index
  · exact htaken

theorem Left.visit (h : Left m₀ bond nodes gone m) (hnodes : Nodes bond nodes) (hmail : Outside bond nodes resultMailboxAddr 4)
    (hinv : ∀ e ∈ inv, e.ptr ∈ nodes)
    (hobj : o.obj ≠ 0 → Outside bond nodes (o.obj + wepOffWeaponnum) 1 ∧ Outside bond nodes (o.obj + objOffFlags) 4) :
    Left m₀ bond nodes (gone ++ propNodes inv t o) (visit bond inv token t o m).2 := by
  simp only [GoldenEye.visit]
  by_cases hnone : o.obj = 0
  · rw [if_pos hnone, propNodes, if_neg fun h => h.1 hnone, List.append_nil]
    exact h
  · rw [if_neg hnone]
    have hshown := @Left.showToken m₀ m bond nodes gone t o h (toRdram (m.read32 (o.obj + objOffProp))) (hobj hnone)
    by_cases htake : t.kind = 2 ∧ 0 < o.prop ∧ ¬o.collected
    · rw [if_pos htake, propNodes, if_pos ⟨hnone, htake⟩]
      have hrun := @Left.collectProp m₀ _ bond nodes gone inv t
        (GoldenEye.showToken t (toRdram (m.read32 (o.obj + objOffProp))) o m).1 hshown hnodes hmail hinv
      rw [(showToken_same _).1] at hrun
      exact hrun
    · rw [if_neg htake, propNodes, if_neg fun h => htake h.2, List.append_nil]
      split
      · exact hshown.setResultBit hmail t.index
      · exact hshown

theorem Left.visitObjects {objects : List Tracked} (h : Left m₀ bond nodes gone m) (hnodes : Nodes bond nodes)
    (hmail : Outside bond nodes resultMailboxAddr 4) (hinv : ∀ e ∈ inv, e.ptr ∈ nodes)
    (hobj : ∀ o ∈ objects, o.obj ≠ 0 →
      Outside bond nodes (o.obj + wepOffWeaponnum) 1 ∧ Outside bond nodes (o.obj + objOffFlags) 4) :
    Left m₀ bond nodes (gone ++ objects.flatMap (propNodes inv t)) (visitObjects bond inv token t objects m).2 := by
  induction objects generalizing m gone with
  | nil =>
    rw [List.flatMap_nil, List.append_nil]
    exact h
  | cons o objects ih =>
    obtain ⟨ho, hrest⟩ := List.forall_mem_cons.mp hobj
    have hfirst : Left m₀ bond nodes (gone ++ propNodes inv t o) (GoldenEye.visit bond inv token t o m).2 :=
      h.visit hnodes hmail hinv ho
    have hrun := ih hfirst hrest
    rw [List.flatMap_cons, ← List.append_assoc]
    exact hrun

theorem Left.visitTargets (h : Left m₀ bond nodes gone m) (hnodes : Nodes bond nodes) (hspared : Spared bond nodes targets)
    (hinv : ∀ e ∈ inv, e.ptr ∈ nodes) :
    Left m₀ bond nodes (gone ++ targets.flatMap fun t => t.objects.flatMap (propNodes inv t))
      (visitTargets bond inv token targets m).2 := by
  induction targets generalizing m gone with
  | nil =>
    rw [List.flatMap_nil, List.append_nil]
    exact h
  | cons t targets ih =>
    obtain ⟨ht, hrest⟩ := List.forall_mem_cons.mp hspared.objects
    have hfirst : Left m₀ bond nodes (gone ++ t.objects.flatMap (propNodes inv t))
        (GoldenEye.visitObjects bond inv token t t.objects m).2 := h.visitObjects hnodes hspared.mailbox hinv ht
    have hrun := ih hfirst ⟨hspared.mailbox, hrest, hspared.hand⟩
    rw [List.flatMap_cons, ← List.append_assoc]
    exact hrun

theorem foldl_last (p : InvEntry → Bool) (last : Nat) : inv.foldl (fun last e => if p e then e.ptr else last) last =
    ((inv.filter p).map (·.ptr)).getLast?.getD last := by
  induction inv generalizing last with
  | nil => rfl
  | cons e inv ih =>
    rw [List.foldl_cons, ih]
    by_cases hp : p e = true
    · rw [if_pos hp, List.filter_cons_of_pos hp, List.map_cons, List.getLast?_cons, Option.getD_some]
    · rw [if_neg hp, List.filter_cons_of_neg hp]

theorem tokenEntry_eq (inv : List InvEntry) : tokenEntry inv = ((inv.filter isToken).map (·.ptr)).getLast?.getD 0 :=
  foldl_last isToken 0

/-- The words of a hand are neither in a node nor the head. -/
theorem Left.clearTokenHand (h : Left m₀ bond nodes gone m)
    (hhand : ∀ w ∈ tokenHandWords, ∀ x ∈ nodes, RunsApart (bond + w.1) 4 x invItemSize) :
    Left m₀ bond nodes gone (clearTokenHand m bond) := by
  have hhead : ∀ w ∈ tokenHandWords, RunsApart (bond + w.1) 4 (bond + offInvHead) 4 := by
    intro w hw
    simp only [tokenHandWords, offHandsBase, offEquipCur, List.mem_cons, List.not_mem_nil, or_false] at hw
    simp only [offInvHead]
    rcases hw with rfl | rfl | rfl | rfl | rfl | rfl | rfl | rfl | rfl | rfl | rfl <;> omega
  rw [GoldenEye.clearTokenHand]
  generalize tokenHandWords = words at hhand hhead
  induction words generalizing m with
  | nil => exact h
  | cons w words ih =>
    obtain ⟨hw, hrest⟩ := List.forall_mem_cons.mp hhand
    obtain ⟨hw', hrest'⟩ := List.forall_mem_cons.mp hhead
    exact ih (h.write ⟨hw, hw'⟩) hrest hrest'

theorem getLast_mem {l : List InvEntry} {x : Nat} (h : (l.map (·.ptr)).getLast? = some x) : ∃ e ∈ l, e.ptr = x :=
  List.mem_map.mp (List.mem_of_getLast? h)

theorem Left.start (hring : Ring m bond nodes) : Left m bond nodes [] m := by
  refine ⟨?_, fun n _ hin => absurd hin List.not_mem_nil, fun n _ _ => ⟨rfl, rfl⟩⟩
  simpa using hring

/-- The update takes the nodes of the props and of the last token, and leaves the rest a circle. -/
theorem update_left {s rebuilt ready : Tables} (hring : Ring m bond nodes) (hnodes : Nodes bond nodes)
    (hupdated : Updated bond s m rebuilt ready inv) (hspared : Spared bond nodes ready.targets) :
    ∃ s' m', updateFreestandingPickups bond s m = some (s', m') ∧ Left m bond nodes (consumed inv ready.targets) m' := by
  have hlisted := (inventoryEntries_ring hring hnodes).symm.trans hupdated.listed
  have hinv : ∀ e ∈ inv, e.ptr ∈ nodes := by
    intro e he
    rw [← Option.some.inj hlisted] at he
    exact listed_mem he
  refine ⟨_, _, hupdated.result, ?_⟩
  have hvisited : ∀ token, Left m bond nodes (ready.targets.flatMap fun t => t.objects.flatMap (propNodes inv t))
      (visitTargets bond inv token ready.targets m).2 := fun token => (Left.start hring).visitTargets hnodes hspared hinv
  have hunlinked : ∀ m', Left m bond nodes (ready.targets.flatMap fun t => t.objects.flatMap (propNodes inv t)) m' →
      Left m bond nodes (consumed inv ready.targets)
        (if tokenEntry inv ≠ 0 then unlinkInventoryEntry m' bond (tokenEntry inv) else m') := by
    intro m' hleft
    rw [consumed, tokenEntry_eq]
    cases hlast : ((inv.filter isToken).map (·.ptr)).getLast? with
    | none =>
      rw [Option.getD_none, if_neg (fun h => h rfl), Option.toList_none, List.append_nil]
      exact hleft
    | some x =>
      obtain ⟨e, he, rfl⟩ := getLast_mem hlast
      have hmem := hinv e (List.mem_of_mem_filter he)
      rw [Option.getD_some, if_pos (Nat.pos_iff_ne_zero.mp (hnodes.pointer _ hmem).1), Option.toList_some]
      exact hleft.unlink hnodes hmem
  split
  · exact (hunlinked _ (hvisited _)).clearTokenHand hspared.hand
  · exact hunlinked _ (hvisited _)

/-- Whatever memory holds, an update ends with every table within its bounds; and where
the inventory is a circle, it stays one, made of the nodes that were not taken. -/
theorem pickups_sound (bond : Nat) (s : Tables) (m : Store) (hs : s.Bounded) :
    ∃ ready s' m', (rebuildFreestandingTargets m s).bind (bindPreplacedFreestandingObjects m) = some ready ∧
      updateFreestandingPickups bond s m = some (s', m') ∧ s'.Bounded ∧
      ∀ nodes, Ring m bond nodes → Nodes bond nodes → Spared bond nodes ready.targets →
        Left m bond nodes (consumed (listed m bond nodes) ready.targets) m' := by
  obtain ⟨rebuilt, ready, inv, s', m', hupdated, hresult, hbounded⟩ := update_bounded bond m hs
  refine ⟨ready, s', m', ?_, hresult, hbounded, fun nodes hring hnodes hspared => ?_⟩
  · rw [hupdated.published]
    exact hupdated.bound
  · obtain ⟨s'', m'', hresult', hleft⟩ := update_left hring hnodes hupdated hspared
    have hinv := Option.some.inj ((inventoryEntries_ring hring hnodes).symm.trans hupdated.listed)
    obtain ⟨rfl, rfl⟩ := Prod.mk.inj (Option.some.inj (hresult.symm.trans hresult'))
    rw [hinv]
    exact hleft

end Pass

section Example

/-- Three nodes: a prop that is tracked, the token, and a weapon. -/
def pickupWords : List (Nat × UInt32) :=
  [(0x111E0, 0x80020000), (0x111E4, 0x80020000), (0x111E8, 30), (targetCountAddr, 1), (0x20000, 2), (0x20004, 0x80030000),
    (0x2000C, 0x80020014), (0x20010, 0x80020028), (0x20014, 1), (0x20018, 88), (0x20020, 0x80020028), (0x20024, 0x80020000),
    (0x20028, 1), (0x2002C, 5), (0x20034, 0x80020000), (0x20038, 0x80020014)]

def pickupMemory : Store := pickupWords.foldl (fun m w => m.write32 w.1 w.2) fun _ => 0

def pickupTables : Tables :=
  ⟨[⟨0, 2, false, true, 0, 0, [⟨0x40000, 0x30000, false, false⟩]⟩], some (1, [0, 0, 0, 0]), []⟩

theorem pickups_sound_three : ∃ s' m', updateFreestandingPickups 0x10000 pickupTables pickupMemory = some (s', m') ∧
    Left pickupMemory 0x10000 [0x20000, 0x20014, 0x20028] [0x20000, 0x20014] m' := by
  have hbounded : pickupTables.Bounded := ⟨by decide, by decide, by decide⟩
  obtain ⟨ready, s', m', hready, hresult, -, hleft⟩ := pickups_sound 0x10000 pickupTables pickupMemory hbounded
  have hsame : (rebuildFreestandingTargets pickupMemory pickupTables).bind (bindPreplacedFreestandingObjects pickupMemory) =
      some pickupTables := by decide +kernel
  obtain rfl : pickupTables = ready := Option.some.inj (hsame.symm.trans hready)
  have hring : Ring pickupMemory 0x10000 [0x20000, 0x20014, 0x20028] := by
    refine ⟨by decide +kernel, ?_⟩
    simp only [Circle, List.cons_append, List.nil_append, List.isChain_cons_cons, List.isChain_singleton, Neighbours, and_true]
    decide +kernel
  have hnodes : Nodes 0x10000 [0x20000, 0x20014, 0x20028] := ⟨by decide, by decide, by decide, by decide, by decide⟩
  have hspared : Spared 0x10000 [0x20000, 0x20014, 0x20028] pickupTables.targets :=
    ⟨⟨by decide, by decide⟩, by
      simp only [pickupTables, List.forall_mem_singleton]
      exact fun _ => ⟨⟨by decide, by decide⟩, by decide, by decide⟩, by decide⟩
  have htaken : consumed (listed pickupMemory 0x10000 [0x20000, 0x20014, 0x20028]) pickupTables.targets = [0x20000, 0x20014] := by
    decide +kernel
  exact ⟨s', m', hresult, htaken ▸ hleft _ hring hnodes hspared⟩

end Example

end GoldenEye

end Multi64
