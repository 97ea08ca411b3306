import Mathlib
import Multi64.ExfatDirSlots

/-! The clusters of a directory, `ExfatDirSlots::load_with`: the FAT is followed
from the first cluster, over whatever it holds. -/

namespace Multi64

namespace Exfat

/-- `ExFatInfo`, as the walk uses it. What is a data cluster and where it stands
are for the file system to tell. -/
structure ExFatInfo where
  bytesPerCluster : Nat
  clusterCount : Nat
  fatOffset : Nat
  isValidCluster : Nat → Bool
  clusterToOffset : Nat → Nat

/-- The data clusters are numbered from 2. -/
def ExFatInfo.Numbered (info : ExFatInfo) : Prop :=
  ∀ c, info.isValidCluster c = true ↔ 2 ≤ c ∧ c < info.clusterCount + 2

section Load

variable (readAt : Nat → Nat → Except PathError Bytes) (info : ExFatInfo)

/-- `exfat_read_fat_entry_with`. -/
def readFatEntry (cluster : Nat) : Except PathError Nat :=
  (readAt (info.fatOffset + cluster * 4) 4).map fun buf => readLe buf 0 4

def sizeClusters (size : Nat) : Nat := word (size + info.bytesPerCluster - 1) / info.bytesPerCluster

/-- A cluster of a contiguous directory, `i` behind its first. -/
def heapCluster (firstCluster i : Nat) : Except PathError Nat :=
  if i < 2 ^ 32 ∧ firstCluster + i < 2 ^ 32 ∧ info.isValidCluster (firstCluster + i) then .ok (firstCluster + i)
  else .error (.invalidData "exFAT directory runs past the cluster heap")

/-- The walk goes on at so many clusters. -/
def More (size n : Nat) : Prop := size = 0 ∨ n < sizeClusters info size

instance (size n : Nat) : Decidable (More info size n) := inferInstanceAs (Decidable (_ ∨ _))

def loopError : PathError := .invalidData "exFAT directory cluster chain loops"

/-- The `while` over a chain: the clusters whose FAT entry it reads, and what it
has found or why it gives up. -/
def follow (size : Nat) (clusters : List Nat) (c : Nat) : List Nat × Except PathError (List Nat) :=
  if More info size clusters.length then
    match readFatEntry readAt info c with
    | .error e => ([c], .error e)
    | .ok next =>
      if info.isValidCluster next then
        if info.clusterCount ≤ clusters.length then ([c], .error loopError)
        else ((c :: (follow size (clusters ++ [next]) next).1), (follow size (clusters ++ [next]) next).2)
      else ([c], .ok clusters)
  else ([], .ok clusters)
termination_by info.clusterCount - clusters.length
decreasing_by all_goals simp only [List.length_append, List.length_singleton]; omega

/-- The clusters whose FAT entry is read, and the slots of the directory. -/
def loadWith (firstCluster : Nat) (isContiguous : Bool) (size : Nat) : List Nat × Except PathError ExfatDirSlots :=
  if info.bytesPerCluster < slotBytes ∨ ¬info.isValidCluster firstCluster then
    ([], .error (.invalidData "exFAT directory has no valid first cluster"))
  else
    let walk :=
      if isContiguous then
        ([], ((List.range' 1 (max (sizeClusters info size) 1 - 1)).mapM (heapCluster info firstCluster)).map (firstCluster :: ·))
      else follow readAt info size [firstCluster] firstCluster
    (walk.1, walk.2.map fun clusters => ⟨clusters.map info.clusterToOffset, info.bytesPerCluster / slotBytes⟩)

/-- Data clusters, each the FAT's next of the one before. -/
structure Chain (clusters : List Nat) (first last : Nat) : Prop where
  first : clusters.head? = some first
  last : clusters.getLast? = some last
  links : clusters.IsChain fun a b => readFatEntry readAt info a = .ok b
  valid : ∀ c ∈ clusters, info.isValidCluster c = true

/-- The chain never comes to an end. -/
def Loops (first : Nat) : Prop :=
  ∀ clusters last, Chain readAt info clusters first last →
    ∃ next, readFatEntry readAt info last = .ok next ∧ info.isValidCluster next = true

/-- What is listed of a chain: all its size asks for, or all up to where it ends. -/
structure Listed (first size : Nat) (clusters : List Nat) : Prop where
  bound : clusters.length ≤ info.clusterCount
  chain : ∃ last, Chain readAt info clusters first last ∧
    (size ≠ 0 ∧ clusters.length = max (sizeClusters info size) 1 ∨
      More info size clusters.length ∧ ∃ next, readFatEntry readAt info last = .ok next ∧ ¬info.isValidCluster next = true)

/-- Why a chain is not listed: a read fails, or more is asked for than the volume has. -/
structure Refused (first size : Nat) (e : PathError) (clusters : List Nat) : Prop where
  bound : clusters.length ≤ info.clusterCount
  more : More info size clusters.length
  chain : ∃ last, Chain readAt info clusters first last ∧
    (readFatEntry readAt info last = .error e ∨
      e = loopError ∧ clusters.length = info.clusterCount ∧ ∃ next, readFatEntry readAt info last = .ok next ∧
        info.isValidCluster next = true ∧ ¬(clusters ++ [next]).Nodup)

end Load

section Lemmas

variable {readAt : Nat → Nat → Except PathError Bytes} {info : ExFatInfo} {clusters : List Nat} {first last next c size : Nat}

theorem Chain.single (h : info.isValidCluster c = true) : Chain readAt info [c] c c :=
  ⟨rfl, rfl, .singleton c, by simpa using h⟩

theorem Chain.push (h : Chain readAt info clusters first last) (hread : readFatEntry readAt info last = .ok next)
    (hvalid : info.isValidCluster next = true) : Chain readAt info (clusters ++ [next]) first next := by
  obtain ⟨rest, rfl⟩ := List.getLast?_eq_some_iff.mp h.last
  constructor
  · have hfirst := h.first
    cases rest with
    | nil => simpa using hfirst
    | cons x rest => simpa using hfirst
  · simp
  · refine h.links.append (.singleton next) fun x hx y hy => ?_
    simp only [List.getLast?_append, List.getLast?_singleton, Option.some_or, Option.mem_def, Option.some.injEq] at hx
    simp only [List.head?_cons, Option.mem_def, Option.some.injEq] at hy
    simpa [← hx, ← hy] using hread
  · intro x hx
    rcases List.mem_append.mp hx with hx | hx
    · exact h.valid x hx
    · simpa [List.mem_singleton.mp hx] using hvalid

theorem Chain.ne_nil (h : Chain readAt info clusters first last) : clusters ≠ [] := by
  intro hnil
  have hfirst := h.first
  simp [hnil] at hfirst

/-- No more data clusters than the volume has, unless one comes twice. -/
theorem ExFatInfo.Numbered.revisits (hinfo : info.Numbered) (hvalid : ∀ c ∈ clusters, info.isValidCluster c = true)
    (hlen : info.clusterCount < clusters.length) : ¬clusters.Nodup := by
  intro hnodup
  have hsub : clusters ⊆ List.range' 2 info.clusterCount := by
    intro c hc
    have hrange := (hinfo c).mp (hvalid c hc)
    rw [List.mem_range'_1]
    omega
  have hle := (List.Nodup.subperm hnodup hsub).length_le
  rw [List.length_range'] at hle
  omega

theorem follow_reads (h : clusters.length ≤ info.clusterCount) :
    (follow readAt info size clusters c).1.length + clusters.length ≤ info.clusterCount + 1 := by
  fun_induction follow readAt info size clusters c with
  | case1 clusters c hmore e hread => simpa using by omega
  | case2 clusters c hmore next hread hvalid hfull => simpa using by omega
  | case3 clusters c hmore next hread hvalid hroom ih =>
    have hrest := ih (by simp; omega)
    simp only [List.length_append, List.length_singleton] at hrest
    simpa using by omega
  | case4 clusters c hmore next hread hvalid => simpa using by omega
  | case5 clusters c hmore => simpa using by omega

/-- What the walk over a chain ends with. -/
theorem follow_chain (hinfo : info.Numbered) (hchain : Chain readAt info clusters first c)
    (hlen : clusters.length ≤ info.clusterCount) (hsize : size ≠ 0 → clusters.length ≤ max (sizeClusters info size) 1) :
    match (follow readAt info size clusters c).2 with
    | .ok out => Listed readAt info first size out
    | .error e => ∃ out, Refused readAt info first size e out := by
  fun_induction follow readAt info size clusters c with
  | case1 clusters c hmore e hread => exact ⟨clusters, hlen, hmore, c, hchain, .inl hread⟩
  | case2 clusters c hmore next hread hvalid hfull =>
    have hall : clusters.length = info.clusterCount := by omega
    have htwice := hinfo.revisits (hchain.push hread hvalid).valid (by simp; omega)
    exact ⟨clusters, hlen, hmore, c, hchain, .inr ⟨rfl, hall, next, hread, hvalid, htwice⟩⟩
  | case3 clusters c hmore next hread hvalid hroom ih =>
    refine ih (hchain.push hread hvalid) ?_ fun hne => ?_
    · simp only [List.length_append, List.length_singleton]
      omega
    · have hlt := hmore.resolve_left hne
      simp only [List.length_append, List.length_singleton]
      omega
  | case4 clusters c hmore next hread hvalid => exact ⟨hlen, c, hchain, .inr ⟨hmore, next, hread, hvalid⟩⟩
  | case5 clusters c hmore =>
    have hne : size ≠ 0 := fun hzero => hmore (.inl hzero)
    have hfull : ¬clusters.length < sizeClusters info size := fun hlt => hmore (.inr hlt)
    have hpos := List.length_pos_of_ne_nil hchain.ne_nil
    have hmax := hsize hne
    exact ⟨hlen, c, hchain, .inl ⟨hne, by omega⟩⟩

/-- The clusters of a contiguous directory stand behind one another. -/
theorem heapClusters (i n : Nat) :
    (List.range' i n).mapM (heapCluster info first) =
      if ∀ k ∈ List.range' i n, k < 2 ^ 32 ∧ first + k < 2 ^ 32 ∧ info.isValidCluster (first + k) then
        .ok (List.range' (first + i) n)
      else .error (.invalidData "exFAT directory runs past the cluster heap") := by
  induction n generalizing i with
  | zero =>
    simp
    rfl
  | succ n ih =>
    rw [List.range'_succ, List.mapM_cons, ih]
    by_cases hhead : i < 2 ^ 32 ∧ first + i < 2 ^ 32 ∧ info.isValidCluster (first + i)
    · rw [heapCluster, if_pos hhead]
      by_cases hrest : ∀ k ∈ List.range' (i + 1) n, k < 2 ^ 32 ∧ first + k < 2 ^ 32 ∧ info.isValidCluster (first + k)
      · have hall : ∀ k ∈ i :: List.range' (i + 1) n, k < 2 ^ 32 ∧ first + k < 2 ^ 32 ∧ info.isValidCluster (first + k) :=
          List.forall_mem_cons.mpr ⟨hhead, hrest⟩
        rw [if_pos hrest, if_pos hall, List.range'_succ]
        rfl
      · have hall : ¬∀ k ∈ i :: List.range' (i + 1) n, k < 2 ^ 32 ∧ first + k < 2 ^ 32 ∧ info.isValidCluster (first + k) :=
          fun h => hrest (List.forall_mem_cons.mp h).2
        rw [if_neg hrest, if_neg hall]
        rfl
    · have hall : ¬∀ k ∈ i :: List.range' (i + 1) n, k < 2 ^ 32 ∧ first + k < 2 ^ 32 ∧ info.isValidCluster (first + k) :=
        fun h => hhead (List.forall_mem_cons.mp h).1
      rw [heapCluster, if_neg hhead, if_neg hall]
      rfl

/-- What is listed, or why nothing is. -/
def Outcome (readAt : Nat → Nat → Except PathError Bytes) (info : ExFatInfo) (first : Nat) (isContiguous : Bool) (size : Nat) :
    Except PathError ExfatDirSlots → Prop
  | .ok dir => ∃ clusters, dir = ⟨clusters.map info.clusterToOffset, info.bytesPerCluster / slotBytes⟩ ∧
      clusters.length ≤ info.clusterCount ∧ (∀ c ∈ clusters, info.isValidCluster c = true) ∧
      if isContiguous then clusters = List.range' first (max (sizeClusters info size) 1) else Listed readAt info first size clusters
  | .error e => info.bytesPerCluster < slotBytes ∨ info.isValidCluster first = false ∨
      if isContiguous then ∃ i < max (sizeClusters info size) 1, ¬(i < 2 ^ 32 ∧ first + i < 2 ^ 32 ∧ info.isValidCluster (first + i))
      else ∃ clusters, Refused readAt info first size e clusters

theorem loadWith_outcome (readAt : Nat → Nat → Except PathError Bytes) (first size : Nat)
    (hinfo : info.Numbered) (isContiguous : Bool) :
    Outcome readAt info first isContiguous size (loadWith readAt info first isContiguous size).2 := by
  rw [loadWith]
  by_cases hstart : info.bytesPerCluster < slotBytes ∨ ¬info.isValidCluster first
  · rw [if_pos hstart]
    rcases hstart with hsmall | hfirst
    · exact .inl hsmall
    · exact .inr (.inl (by simpa using hfirst))
  · rw [if_neg hstart]
    obtain ⟨-, hfirst⟩ := not_or.mp hstart
    have hfirst : info.isValidCluster first = true := by simpa using hfirst
    have hcount := (hinfo first).mp hfirst
    cases isContiguous with
    | true =>
      simp only [if_true]
      rw [heapClusters]
      by_cases hall : ∀ k ∈ List.range' 1 (max (sizeClusters info size) 1 - 1),
          k < 2 ^ 32 ∧ first + k < 2 ^ 32 ∧ info.isValidCluster (first + k)
      · rw [if_pos hall]
        have hrange : first :: List.range' (first + 1) (max (sizeClusters info size) 1 - 1) =
            List.range' first (max (sizeClusters info size) 1) := by
          rw [← List.range'_succ]
          congr 1
          omega
        have hvalid : ∀ c ∈ List.range' first (max (sizeClusters info size) 1), info.isValidCluster c = true := by
          intro c hc
          rw [List.mem_range'_1] at hc
          by_cases hc0 : c = first
          · rw [hc0]
            exact hfirst
          · have hk := hall (c - first) (by rw [List.mem_range'_1]; omega)
            rw [Nat.add_sub_cancel' hc.1] at hk
            exact hk.2.2
        refine ⟨List.range' first (max (sizeClusters info size) 1), ?_, ?_, hvalid, by simp⟩
        · rw [← hrange]
        · by_contra hlong
          exact hinfo.revisits hvalid (Nat.lt_of_not_ge hlong) List.nodup_range'
      · rw [if_neg hall]
        push Not at hall
        obtain ⟨k, hk, hbad⟩ := hall
        rw [List.mem_range'_1] at hk
        refine .inr (.inr ⟨k, by omega, fun h => ?_⟩)
        exact hbad h.1 h.2.1 h.2.2
    | false =>
      have hsingle : Chain readAt info [first] first first := .single hfirst
      have hwalk := @follow_chain readAt info [first] first first size hinfo hsingle (by simp; omega) (by simp)
      simp only [Bool.false_eq_true, if_false]
      cases hout : (follow readAt info size [first] first).2 with
      | error e =>
        rw [hout] at hwalk
        exact .inr (.inr hwalk)
      | ok clusters =>
        rw [hout] at hwalk
        obtain ⟨last, hchain, -⟩ := hwalk.chain
        exact ⟨clusters, rfl, hwalk.bound, hchain.valid, hwalk⟩

theorem loadWith_reads (readAt : Nat → Nat → Except PathError Bytes) (first size : Nat)
    (hinfo : info.Numbered) (isContiguous : Bool) :
    (loadWith readAt info first isContiguous size).1.length ≤ info.clusterCount := by
  rw [loadWith]
  by_cases hstart : info.bytesPerCluster < slotBytes ∨ ¬info.isValidCluster first
  · rw [if_pos hstart]
    exact Nat.zero_le _
  · rw [if_neg hstart]
    obtain ⟨-, hfirst⟩ := not_or.mp hstart
    have hcount := (hinfo first).mp (by simpa using hfirst)
    cases isContiguous with
    | true => exact Nat.zero_le _
    | false =>
      have hreads := @follow_reads readAt info [first] first size (by simp; omega)
      simp only [List.length_singleton] at hreads
      simp only [Bool.false_eq_true, if_false]
      omega

theorem loadWith_outcome_loops (hinfo : info.Numbered) (hloops : Loops readAt info first) (hbig : slotBytes ≤ info.bytesPerCluster)
    (hfirst : info.isValidCluster first = true) :
    if size = 0 ∨ info.clusterCount < sizeClusters info size then (loadWith readAt info first false size).2 = .error loopError
    else ∃ dir, (loadWith readAt info first false size).2 = .ok dir ∧ dir.clusterOffsets.length = max (sizeClusters info size) 1 := by
  have hout := loadWith_outcome readAt first size hinfo false
  cases hload : (loadWith readAt info first false size).2 with
  | error e =>
    rw [hload] at hout
    rcases hout with hsmall | hbad | hrefused
    · omega
    · simp [hfirst] at hbad
    · obtain ⟨clusters, hlen, hmore, last, hchain, hread | ⟨rfl, hall, -⟩⟩ : ∃ clusters, Refused readAt info first size e clusters := by
        simpa using hrefused
      · obtain ⟨next, hnext, -⟩ := hloops clusters last hchain
        simp [hread] at hnext
      · rw [if_pos (by rcases hmore with h | h <;> omega)]
  | ok dir =>
    rw [hload] at hout
    obtain ⟨clusters, rfl, hlen, -, hlisted⟩ := hout
    obtain ⟨-, last, hchain, ⟨hne, hfull⟩ | ⟨-, next, hread, hend⟩⟩ : Listed readAt info first size clusters := by
      simpa using hlisted
    · rw [if_neg (by omega)]
      exact ⟨_, rfl, by simpa using hfull⟩
    · obtain ⟨next', hnext, hvalid⟩ := hloops clusters last hchain
      rw [hread] at hnext
      cases hnext
      exact absurd hvalid hend

/-- Whatever the FAT holds, the walk ends within a read for each cluster. A chain
that does not end is never listed short: it is listed to its size, or refused
where the size is none or more than the volume has. -/
theorem loadWith_bounded (readAt : Nat → Nat → Except PathError Bytes) (first size : Nat)
    (hinfo : info.Numbered) (isContiguous : Bool) :
    (loadWith readAt info first isContiguous size).1.length ≤ info.clusterCount ∧
      Outcome readAt info first isContiguous size (loadWith readAt info first isContiguous size).2 ∧
        (Loops readAt info first → slotBytes ≤ info.bytesPerCluster → info.isValidCluster first = true →
          if size = 0 ∨ info.clusterCount < sizeClusters info size then
            (loadWith readAt info first false size).2 = .error loopError
          else ∃ dir, (loadWith readAt info first false size).2 = .ok dir ∧
            dir.clusterOffsets.length = max (sizeClusters info size) 1) :=
  ⟨loadWith_reads readAt first size hinfo isContiguous, loadWith_outcome readAt first size hinfo isContiguous,
    fun hloops hbig hfirst => loadWith_outcome_loops hinfo hloops hbig hfirst⟩

/-- Four clusters of 512 bytes, the FAT at 0. -/
def smallHeap : ExFatInfo := ⟨512, 4, 0, fun c => decide (2 ≤ c ∧ c < 6), fun c => 4096 + (c - 2) * 512⟩

/-- A FAT that holds the same in every entry. -/
def flatFat (next : Nat) : Nat → Nat → Except PathError Bytes := fun _ n => .ok (putLe next n)

theorem smallHeap_numbered : smallHeap.Numbered := by
  intro c
  simp [smallHeap]

theorem loadWith_bounded_small : (loadWith (flatFat 2) smallHeap 2 false 0).1.length ≤ 4 ∧
    (loadWith (flatFat 2) smallHeap 2 false 0).2 = .error loopError := by
  obtain ⟨hreads, -, hloops⟩ := loadWith_bounded (flatFat 2) 2 0 smallHeap_numbered false
  exact ⟨hreads, by simpa using hloops (fun _ _ _ => ⟨2, rfl, rfl⟩) (by decide) rfl⟩

/-- A chain that ends before its size is listed as far as it goes, and one that
comes back to its first cluster is listed over and over, up to its size. -/
theorem short_chain_listed :
    Chain (flatFat 0xFFFFFFFF) smallHeap [2] 2 2 ∧ readFatEntry (flatFat 0xFFFFFFFF) smallHeap 2 = .ok 0xFFFFFFFF ∧
      smallHeap.isValidCluster 0xFFFFFFFF = false ∧ 1 < sizeClusters smallHeap 1024 ∧
      (loadWith (flatFat 0xFFFFFFFF) smallHeap 2 false 1024).2 = .ok ⟨[4096], 16⟩ ∧
      readFatEntry (flatFat 2) smallHeap 2 = .ok 2 ∧ (loadWith (flatFat 2) smallHeap 2 false 1024).2 = .ok ⟨[4096, 4096], 16⟩ := by
  have hend : readFatEntry (flatFat 0xFFFFFFFF) smallHeap 2 = .ok 0xFFFFFFFF := rfl
  have hself : readFatEntry (flatFat 2) smallHeap 2 = .ok 2 := rfl
  have hlast : smallHeap.isValidCluster 0xFFFFFFFF = false := rfl
  have hfirst : smallHeap.isValidCluster 2 = true := rfl
  have hsize : sizeClusters smallHeap 1024 = 2 := rfl
  have hstart : ¬(smallHeap.bytesPerCluster < slotBytes ∨ ¬smallHeap.isValidCluster 2) := by decide
  have hcount : ¬smallHeap.clusterCount ≤ [2].length := by decide
  refine ⟨.single hfirst, hend, hlast, by decide, ?_, hself, ?_⟩
  · rw [loadWith, if_neg hstart, follow]
    simp [hend, More, hsize, hlast]
    rfl
  · have hnext : follow (flatFat 2) smallHeap 1024 ([2] ++ [2]) 2 = ([], .ok [2, 2]) := by
      rw [follow]
      simp [More, hsize]
    rw [loadWith, if_neg hstart, follow]
    simp only [hself, More, hsize, hfirst, hcount, hnext]
    rfl

end Lemmas

end Exfat

end Multi64
