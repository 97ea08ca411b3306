import Mathlib
import Multi64.GoldenEye

/-! No table of the game logic is left, whatever memory holds. -/

namespace Multi64

namespace GoldenEye

section Fold

variable {α : Type} {limit : Nat} {l : List α} {is : List Nat}

theorem push_of_lt (h : l.length < limit) (x : α) : push limit l x = some (l ++ [x]) := if_pos h

/-- A table that is pushed to once for each of some indices. -/
theorem foldlM_push {P : α → Prop} {g : List α → Nat → Option (List α)}
    (hg : ∀ l : List α, ∀ i ∈ is, l.length < limit → ∃ x, P x ∧ g l i = some (l ++ [x])) (hlen : l.length + is.length ≤ limit)
    (hl : ∀ x ∈ l, P x) : ∃ l', is.foldlM g l = some l' ∧ l'.length = l.length + is.length ∧ ∀ x ∈ l', P x := by
  induction is generalizing l with
  | nil => exact ⟨l, rfl, rfl, hl⟩
  | cons i is ih =>
    rw [List.length_cons] at hlen
    obtain ⟨x, hp, hx⟩ := hg l i List.mem_cons_self (by omega)
    have hall : ∀ y ∈ l ++ [x], P y := List.forall_mem_append.mpr ⟨hl, List.forall_mem_singleton.mpr hp⟩
    obtain ⟨l', hrest, hl', hall'⟩ := @ih (l ++ [x]) (fun l j hj => hg l j (List.mem_cons_of_mem i hj)) (by simp; omega) hall
    refine ⟨l', ?_, ?_, hall'⟩
    · rw [List.foldlM_cons, hx]
      exact hrest
    · simp only [List.length_append, List.length_singleton] at hl'
      rw [hl', List.length_cons]
      omega

theorem foldlM_some {β : Type} {P : β → Prop} {g : β → Nat → Option β} (hg : ∀ b, P b → ∀ i ∈ is, ∃ b', g b i = some b' ∧ P b')
    {b : β} (hb : P b) : ∃ b', is.foldlM g b = some b' ∧ P b' := by
  induction is generalizing b with
  | nil => exact ⟨b, rfl, hb⟩
  | cons i is ih =>
    obtain ⟨b', hb', hp⟩ := hg b hb i List.mem_cons_self
    rw [List.foldlM_cons, hb']
    exact ih (fun b hb j hj => hg b hb j (List.mem_cons_of_mem i hj)) hp

end Fold

/-- Every table is within its bounds. -/
structure Tables.Bounded (s : Tables) : Prop where
  targets : s.targets.length ≤ maxTargets
  objects : ∀ t ∈ s.targets, t.objects.length ≤ maxObjects
  inv : s.inv.length ≤ maxInv

section Bounds

variable {m : Store} {s s' : Tables} {bond : Nat} {t : Target} {targets : List Target} {inv : List InvEntry}

theorem descriptor_some {packed : Bytes} {count i : Nat} (hlen : packed.length = (count * targetBits + 7) / 8) (hi : i < count) :
    ∃ d, descriptor packed i = some d := by
  have hbits : ∀ bit < targetBits, (i * targetBits + bit) / 8 < packed.length := by
    intro bit hbit
    rw [hlen]
    have hle : (i + 1) * targetBits ≤ count * targetBits := Nat.mul_le_mul_right _ hi
    simp only [targetBits] at hbit hle ⊢
    omega
  have hstep : ∀ d, True → ∀ bit ∈ List.range targetBits, ∃ d', (do
      let byte ← packed[(i * targetBits + bit) / 8]?
      return d ||| (byte.toNat >>> ((i * targetBits + bit) % 8) &&& 1) <<< bit : Option Nat) = some d' ∧ True := by
    intro d _ bit hbit
    rw [List.getElem?_eq_getElem (hbits bit (List.mem_range.mp hbit))]
    exact ⟨_, rfl, trivial⟩
  obtain ⟨d, hd, -⟩ := foldlM_some hstep trivial
  exact ⟨d, hd⟩

/-- The published list fits where it is copied to, and every bit of it is there. -/
theorem rebuild_bounded (h : s.Bounded) : ∃ s', rebuildFreestandingTargets m s = some s' ∧ s'.Bounded := by
  obtain ⟨count, hcount⟩ : ∃ count, (if maxTargets < (m.read32 targetCountAddr).toNat then 0 else (m.read32 targetCountAddr).toNat) = count :=
    ⟨_, rfl⟩
  have hmax : count ≤ maxTargets := by
    rw [← hcount]
    split <;> omega
  have hbytes : (count * targetBits + 7) / 8 ≤ maxPacked := by
    have hle := Nat.mul_le_mul_right targetBits hmax
    simp only [maxPacked]
    omega
  obtain ⟨packed, hpacked, hlen, -⟩ := @foldlM_push UInt8 maxPacked [] (List.range ((count * targetBits + 7) / 8)) (fun _ => True)
    (fun l i => push maxPacked l (m (targetListAddr + i))) (fun l i _ hl => ⟨_, trivial, push_of_lt hl _⟩)
    (by simpa using hbytes) (by simp)
  rw [List.length_range, List.length_nil, Nat.zero_add] at hlen
  rw [rebuildFreestandingTargets]
  simp only [hcount, hpacked, Option.bind_eq_bind, Option.bind_some]
  by_cases hsame : s.signature = some (count, packed)
  · rw [if_pos hsame]
    exact ⟨s, rfl, h⟩
  · rw [if_neg hsame]
    obtain ⟨targets, htargets, hcount', hempty⟩ := @foldlM_push Target maxTargets [] (List.range count) (fun t => t.objects = [])
      (fun l i => (descriptor packed i).bind fun d => push maxTargets l (decodeTarget i d))
      (fun l i hi hl => by
        obtain ⟨d, hd⟩ := descriptor_some hlen (List.mem_range.mp hi)
        exact ⟨decodeTarget i d, rfl, by rw [hd, Option.bind_some, push_of_lt hl]⟩) (by simpa using hmax) (by simp)
    rw [htargets]
    refine ⟨_, rfl, ?_, fun t ht => ?_, h.inv⟩
    · simpa [hcount'] using hmax
    · simp [hempty t ht]

theorem mapM_bounded {f : Target → Option Target}
    (hf : ∀ t : Target, t.objects.length ≤ maxObjects → ∃ t', f t = some t' ∧ t'.objects.length ≤ maxObjects)
    (h : ∀ t ∈ targets, t.objects.length ≤ maxObjects) :
    ∃ targets', targets.mapM f = some targets' ∧ targets'.length = targets.length ∧
      ∀ t ∈ targets', t.objects.length ≤ maxObjects := by
  induction targets with
  | nil => exact ⟨[], rfl, rfl, by simp⟩
  | cons t targets ih =>
    have hall := List.forall_mem_cons.mp h
    obtain ⟨t', ht', hlen⟩ := hf t hall.1
    obtain ⟨rest, hrest, hcount, hrests⟩ := ih hall.2
    refine ⟨t' :: rest, ?_, by simp [hcount], List.forall_mem_cons.mpr ⟨hlen, hrests⟩⟩
    rw [List.mapM_cons, ht', hrest]
    rfl

theorem bindTarget_bounded (c : Candidate) (t : Target) (h : t.objects.length ≤ maxObjects) :
    ∃ t', bindTarget c t = some t' ∧ t'.objects.length ≤ maxObjects := by
  rw [bindTarget]
  by_cases hfits : ¬t.bound ∧ c.model = t.model ∧ c.pad = t.pad ∧ c.guardGun = t.npcWeapon ∧ t.objects.length < maxObjects
  · rw [if_pos hfits, push_of_lt hfits.2.2.2.2]
    refine ⟨_, rfl, ?_⟩
    rw [List.length_append, List.length_singleton]
    exact hfits.2.2.2.2
  · rw [if_neg hfits]
    exact ⟨t, rfl, h⟩

theorem bindProp_bounded (i : Nat) (h : targets.length ≤ maxTargets ∧ ∀ t ∈ targets, t.objects.length ≤ maxObjects) :
    ∃ targets', bindProp m targets i = some targets' ∧ targets'.length ≤ maxTargets ∧
      ∀ t ∈ targets', t.objects.length ≤ maxObjects := by
  rw [bindProp]
  cases candidate m i with
  | none => exact ⟨targets, rfl, h⟩
  | some c =>
    obtain ⟨targets', hmap, hlen, hobjects⟩ := mapM_bounded (bindTarget_bounded c) h.2
    exact ⟨targets', hmap, hlen ▸ h.1, hobjects⟩

@[simp] theorem bindMatched_objects (t : Target) : (bindMatched t).objects = t.objects := by
  rw [bindMatched]
  split <;> rfl

theorem bind_bounded (h : s.Bounded) : ∃ s', bindPreplacedFreestandingObjects m s = some s' ∧ s'.Bounded := by
  rw [bindPreplacedFreestandingObjects]
  by_cases hall : s.targets.all (·.bound) = true
  · rw [if_pos hall]
    exact ⟨s, rfl, h⟩
  · obtain ⟨targets, htargets, hlen, hobjects⟩ :=
      @foldlM_some (List.range propMax) (List Target) (fun l => l.length ≤ maxTargets ∧ ∀ t ∈ l, t.objects.length ≤ maxObjects)
        (bindProp m) (fun targets h i _ => bindProp_bounded i h) s.targets ⟨h.targets, h.objects⟩
    rw [if_neg hall, htargets, Option.map_some]
    refine ⟨_, rfl, ?_, fun t ht => ?_, h.inv⟩
    · simpa using hlen
    · obtain ⟨t', ht', rfl⟩ := List.mem_map.mp ht
      simpa using hobjects t' ht'

theorem inventoryLoop_bounded {room current : Nat} (h : inv.length + room ≤ maxInv) :
    ∃ inv', inventoryLoop m room current inv = some inv' ∧ inv'.length ≤ maxInv := by
  induction room generalizing current inv with
  | zero => exact ⟨inv, rfl, h⟩
  | succ room ih =>
    rw [inventoryLoop]
    by_cases hnull : current = 0
    · rw [if_pos hnull]
      exact ⟨inv, rfl, by omega⟩
    · rw [if_neg hnull]
      by_cases hseen : inv.any (·.ptr = current) = true
      · rw [if_pos hseen]
        exact ⟨inv, rfl, by omega⟩
      · rw [if_neg hseen, push_of_lt (by omega)]
        exact ih (by simp; omega)

theorem inventoryEntries_bounded (m : Store) (bond : Nat) : ∃ inv, inventoryEntries m bond = some inv ∧ inv.length ≤ maxInv := by
  rw [inventoryEntries]
  split
  · exact ⟨[], rfl, Nat.zero_le _⟩
  · exact inventoryLoop_bounded (by simp)

theorem visitObjects_length {token : Bool} (objects : List Tracked) (m : Store) :
    (visitObjects bond inv token t objects m).1.length = objects.length := by
  induction objects generalizing m with
  | nil => rfl
  | cons o objects ih => simp [visitObjects, ih]

theorem visitTargets_bounded {token : Bool} (m : Store) (h : ∀ t ∈ targets, t.objects.length ≤ maxObjects) :
    (visitTargets bond inv token targets m).1.length = targets.length ∧
      ∀ t ∈ (visitTargets bond inv token targets m).1, t.objects.length ≤ maxObjects := by
  induction targets generalizing m with
  | nil => simp [visitTargets]
  | cons t targets ih =>
    have hall := List.forall_mem_cons.mp h
    obtain ⟨hlen, hrest⟩ := ih (visitObjects bond inv token t t.objects m).2 hall.2
    refine ⟨by simp [visitTargets, hlen], ?_⟩
    rw [visitTargets, List.forall_mem_cons]
    exact ⟨by simpa [visitObjects_length] using hall.1, hrest⟩

/-- The steps of an update that ends. -/
structure Updated (bond : Nat) (s : Tables) (m : Store) (rebuilt ready : Tables) (inv : List InvEntry) : Prop where
  published : rebuildFreestandingTargets m s = some rebuilt
  bound : bindPreplacedFreestandingObjects m rebuilt = some ready
  listed : inventoryEntries m bond = some inv

/-- The rest of an update, once the tables are ready. -/
theorem Updated.result {rebuilt ready : Tables} (h : Updated bond s m rebuilt ready inv) :
    updateFreestandingPickups bond s m = some (
      let token := tokenEntry inv
      let tokenInHand := m.read32 (bond + offHandsBase) = .ofNat itemToken ∨ m.read32 (bond + offEquipCur) = .ofNat itemToken
      let visited := visitTargets bond inv (token ≠ 0 ∨ tokenInHand) ready.targets m
      let unlinked := if token ≠ 0 then unlinkInventoryEntry visited.2 bond token else visited.2
      ({ ready with targets := visited.1, inv := inv }, if tokenInHand then clearTokenHand unlinked bond else unlinked)) := by
  rw [updateFreestandingPickups, h.published]
  simp only [Option.bind_eq_bind, Option.bind_some, h.bound, h.listed]
  rfl

/-- Whatever memory holds, an update ends, with every table within its bounds. -/
theorem update_bounded (bond : Nat) (m : Store) (h : s.Bounded) : ∃ rebuilt ready inv s' m',
    Updated bond s m rebuilt ready inv ∧ updateFreestandingPickups bond s m = some (s', m') ∧ s'.Bounded := by
  obtain ⟨rebuilt, hrebuilt, hb⟩ := @rebuild_bounded m s h
  obtain ⟨ready, hready, hb'⟩ := @bind_bounded m rebuilt hb
  obtain ⟨inv, hinv, hlen⟩ := inventoryEntries_bounded m bond
  have hupdated : Updated bond s m rebuilt ready inv := ⟨hrebuilt, hready, hinv⟩
  refine ⟨rebuilt, ready, inv, _, _, hupdated, hupdated.result, ?_⟩
  obtain ⟨hcount, hobjects⟩ := visitTargets_bounded m hb'.objects
  exact ⟨hcount ▸ hb'.targets, hobjects, hlen⟩

end Bounds

end GoldenEye

end Multi64
