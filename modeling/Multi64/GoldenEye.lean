import Multi64.Lib.WordStore

/-! The game logic of GoldenEye's world, `goldeneye/game.c`, run on the console
once per frame. Memory is RDRAM by physical address. A table of the code is a list
that is pushed to; a push past its end gives `none`. -/

namespace Multi64

namespace GoldenEye

/-- The next cell of a table with so many. -/
def push {α : Type} (limit : Nat) (l : List α) (x : α) : Option (List α) := if l.length < limit then some (l ++ [x]) else none

def bonddataPtrAddr : Nat := 0x07A0B0
def resultMailboxAddr : Nat := 0x7F1C0
def targetCountAddr : Nat := 0x7F1C4
def targetListAddr : Nat := 0x7F150
def targetBits : Nat := 28
def itemToken : Nat := 88
def invItemNone : UInt32 := 0xFFFFFFFF
def invItemWeapon : UInt32 := 1
def invItemProp : UInt32 := 2
def invItemSize : Nat := 0x14

def offHandsBase : Nat := 0x870
def offEquipCur : Nat := 0x11F0
def offPlayerProp : Nat := 0xA8
def offInvHead : Nat := 0x11E0
def offInvPool : Nat := 0x11E4
def offInvMax : Nat := 0x11E8
def offNext : Nat := 0x0C
def offPrev : Nat := 0x10

def onscreenPropList : Nat := 0x071620
def onscreenPropCount : Nat := 0x071DF4
def propPool : Nat := 0x069C38
def propSize : Nat := 0x34
def propMax : Nat := 600
def propOffObj : Nat := 0x04
def propOffParent : Nat := 0x1C
def objOffType : Nat := 0x03
def objOffModelPad : Nat := 0x04
def objOffFlags : Nat := 0x08
def objOffProp : Nat := 0x10
def wepOffWeaponnum : Nat := 0x80

def maxTargets : Nat := 32
def maxObjects : Nat := 12
def maxPacked : Nat := (maxTargets * targetBits + 7) / 8
def maxInv : Nat := 128

/-- A pointer the game stored, as a physical address; 0 when it is not one. -/
def toRdram (v : UInt32) : Nat :=
  if v = 0 then 0
  else if v.toNat < 0x800000 then v.toNat
  else if 0x80000000 ≤ v.toNat ∧ v.toNat < 0x80800000 then v.toNat - 0x80000000
  else 0

/-- The pointer the code stores for a physical address. -/
def kseg0 (a : Nat) : UInt32 := .ofNat (0x80000000 + a)

structure Tracked where
  obj : Nat
  prop : Nat
  wasLive : Bool
  collected : Bool
  deriving DecidableEq

structure Target where
  index : Nat
  kind : Nat
  npcWeapon : Bool
  bound : Bool
  model : Nat
  pad : Nat
  objects : List Tracked
  deriving DecidableEq

structure InvEntry where
  ptr : Nat
  type : UInt32
  value : UInt32
  deriving DecidableEq

/-- What `s_targets`, the signature of the published list and `s_inv` hold. -/
structure Tables where
  targets : List Target
  signature : Option (Nat × Bytes)
  inv : List InvEntry
  deriving DecidableEq

section Inventory

variable (m : Store) (bond : Nat)

def setResultBit (index : Nat) : Store :=
  let result := m.read32 resultMailboxAddr
  if result >>> .ofNat index &&& 1 = 0 then m.write32 resultMailboxAddr (result ||| (1 : UInt32) <<< UInt32.ofNat index) else m

/-- The words of a node that is taken out. -/
def clearEntry (entry : Nat) : Store :=
  [4, 8, 12, 16].foldl (fun m off => m.write32 (entry + off) 0) (m.write32 entry invItemNone)

def unlinkInventoryEntry (entry : Nat) : Store :=
  let next := toRdram (m.read32 (entry + offNext))
  let prev := toRdram (m.read32 (entry + offPrev))
  let head := toRdram (m.read32 (bond + offInvHead))
  if next = 0 ∨ prev = 0 then m
  else
    let linked :=
      if next = entry ∧ prev = entry then m.write32 (bond + offInvHead) 0
      else
        let joined := (m.write32 (prev + offNext) (kseg0 next)).write32 (next + offPrev) (kseg0 prev)
        if head = entry then joined.write32 (bond + offInvHead) (kseg0 next) else joined
    clearEntry linked entry

/-- The `while` over Bond's inventory; the count is the room left in the table. -/
def inventoryLoop : Nat → Nat → List InvEntry → Option (List InvEntry)
  | 0, _, inv => some inv
  | room + 1, current, inv =>
    if current = 0 then some inv
    else if inv.any (·.ptr = current) then some inv
    else do
      let inv ← push maxInv inv ⟨current, m.read32 current, m.read32 (current + 4)⟩
      inventoryLoop room (toRdram (m.read32 (current + offNext))) inv

def inventoryEntries : Option (List InvEntry) :=
  let head := toRdram (m.read32 (bond + offInvHead))
  let pool := toRdram (m.read32 (bond + offInvPool))
  let maxItems := m.read32 (bond + offInvMax)
  if head = 0 ∨ pool = 0 ∨ maxItems = 0 ∨ 128 < maxItems.toNat then some [] else inventoryLoop m maxInv head []

def propIsOnscreen (prop : Nat) : Bool :=
  let count := (m.read32 onscreenPropCount).toNat
  if 512 < count then false else (List.range count).any fun i => toRdram (m.read32 (onscreenPropList + i * 4)) = prop

def enableProxyCollection (obj : Nat) : Store :=
  let flags := m.read32 (obj + objOffFlags)
  m.write32 (obj + objOffFlags) (flags &&& ~~~0x00080000 &&& ~~~0x00100000 &&& ~~~0x02000000)

/-- The words of the hand that held the token, and what they become. -/
def tokenHandWords : List (Nat × UInt32) :=
  [(offHandsBase, 0), (offHandsBase + 0x04, 0xFFFFFFFF), (offHandsBase + 0x2C, 0), (offHandsBase + 0x30, 0),
    (offHandsBase + 0x40, 0), (offHandsBase + 0x48, 0), (0x7F8, 0), (0x800, 0), (0x2A44, invItemNone), (0x2A4C, 0),
    (offEquipCur, 0)]

def clearTokenHand : Store := tokenHandWords.foldl (fun m w => m.write32 (bond + w.1) w.2) m

end Inventory

section Targets

variable (m : Store)

/-- A published descriptor, its bits packed little end first. -/
def descriptor (packed : Bytes) (i : Nat) : Option Nat :=
  (List.range targetBits).foldlM (fun d bit => do
    let byte ← packed[(i * targetBits + bit) / 8]?
    return d ||| (byte.toNat >>> ((i * targetBits + bit) % 8) &&& 1) <<< bit) 0

def decodeTarget (i d : Nat) : Target :=
  ⟨i, (d >>> 26 &&& 3) + 1, d >>> 25 &&& 1 = 1, false, d >>> 16 &&& 0x1FF, d &&& 0xFFFF, []⟩

def rebuildFreestandingTargets (s : Tables) : Option Tables := do
  let published := (m.read32 targetCountAddr).toNat
  let count := if maxTargets < published then 0 else published
  let packed ← (List.range ((count * targetBits + 7) / 8)).foldlM (fun l i => push maxPacked l (m (targetListAddr + i))) []
  if s.signature = some (count, packed) then return s
  let targets ← (List.range count).foldlM (fun l i => do push maxTargets l (decodeTarget i (← descriptor packed i))) []
  return { s with targets := targets, signature := some (count, packed) }

/-- What a prop's object is matched by, if it is one to match. -/
structure Candidate where
  obj : Nat
  prop : Nat
  model : Nat
  pad : Nat
  guardGun : Bool

def candidate (i : Nat) : Option Candidate :=
  let prop := propPool + i * propSize
  let obj := toRdram (m.read32 (prop + propOffObj))
  let propType := m prop
  if obj = 0 ∨ (propType ≠ 1 ∧ propType ≠ 4) ∨ toRdram (m.read32 (obj + objOffProp)) ≠ prop then none
  else
    let modelPad := (m.read32 (obj + objOffModelPad)).toNat
    let weaponNumber := (m (obj + wepOffWeaponnum)).toNat
    some ⟨obj, prop, modelPad >>> 16 &&& 0xFFFF, modelPad &&& 0xFFFF,
      m (obj + objOffType) = 8 ∧ (weaponNumber < 33 ∨ weaponNumber = itemToken) ∧ m.read32 (obj + objOffFlags) &&& 0x4000 ≠ 0⟩

def bindTarget (c : Candidate) (t : Target) : Option Target :=
  if ¬t.bound ∧ c.model = t.model ∧ c.pad = t.pad ∧ c.guardGun = t.npcWeapon ∧ t.objects.length < maxObjects then do
    let objects ← push maxObjects t.objects ⟨c.obj, c.prop, false, false⟩
    return { t with objects := objects }
  else some t

def bindProp (targets : List Target) (i : Nat) : Option (List Target) :=
  (candidate m i).elim (some targets) fun c => targets.mapM (bindTarget c)

/-- A target any prop matched, once the scan is over. -/
def bindMatched (t : Target) : Target := if t.objects ≠ [] then { t with bound := true } else t

def bindPreplacedFreestandingObjects (s : Tables) : Option Tables :=
  if s.targets.all (·.bound) then some s
  else ((List.range propMax).foldlM (bindProp m) s.targets).map fun targets => { s with targets := targets.map bindMatched }

end Targets

section Pickups

variable (bond : Nat) (inv : List InvEntry) (token : Bool) (t : Target)

/-- A weapon of the world on screen is given the token. -/
def showToken (liveProp : Nat) (o : Tracked) (m : Store) : Tracked × Store :=
  if 0 < liveProp ∧ m (o.obj + objOffType) = 8 ∧ propIsOnscreen m liveProp ∧
      (¬t.npcWeapon ∨ m.read32 (liveProp + propOffParent) = 0) then
    ({ o with wasLive := true }, enableProxyCollection (m.write (o.obj + wepOffWeaponnum) [.ofNat itemToken]) o.obj)
  else (o, m)

def isPropOf (prop : Nat) (e : InvEntry) : Bool := e.type = invItemProp ∧ toRdram e.value = prop

/-- The nodes of a prop are taken out of the inventory. -/
def takeProp (r : Tracked × Store) (e : InvEntry) : Tracked × Store :=
  if isPropOf r.1.prop e then
    ({ r.1 with collected := true }, unlinkInventoryEntry (setResultBit r.2 t.index) bond e.ptr)
  else r

def collectProp (o : Tracked) (m : Store) : Tracked × Store :=
  let playerProp := toRdram (m.read32 (bond + offPlayerProp))
  let parentProp := toRdram (m.read32 (o.prop + propOffParent))
  let taken := inv.foldl (takeProp bond t) (o, m)
  if ¬taken.1.collected ∧ 0 < playerProp ∧ parentProp = playerProp then
    ({ taken.1 with collected := true }, setResultBit taken.2 t.index)
  else taken

/-- One round of the loop over a target's objects. -/
def visit (o : Tracked) (m : Store) : Tracked × Store :=
  let liveProp := toRdram (m.read32 (o.obj + objOffProp))
  if o.obj = 0 then (o, m)
  else
    let shown := showToken t liveProp o m
    if t.kind = 2 ∧ 0 < o.prop ∧ ¬o.collected then collectProp bond inv t shown.1 shown.2
    else if shown.1.wasLive ∧ liveProp = 0 ∧ token then ({ shown.1 with wasLive := false }, setResultBit shown.2 t.index)
    else shown

def visitObjects : List Tracked → Store → List Tracked × Store
  | [], m => ([], m)
  | o :: objects, m =>
    let first := visit bond inv token t o m
    let rest := visitObjects objects first.2
    (first.1 :: rest.1, rest.2)

def visitTargets : List Target → Store → List Target × Store
  | [], m => ([], m)
  | t :: targets, m =>
    let first := visitObjects bond inv token t t.objects m
    let rest := visitTargets targets first.2
    ({ t with objects := first.1 } :: rest.1, rest.2)

def isToken (e : InvEntry) : Bool := e.type = invItemWeapon ∧ e.value = .ofNat itemToken

/-- The last token node, as the loop leaves it. -/
def tokenEntry : Nat := inv.foldl (fun last e => if isToken e then e.ptr else last) 0

def updateFreestandingPickups (s : Tables) (m : Store) : Option (Tables × Store) := do
  let s ← rebuildFreestandingTargets m s
  let s ← bindPreplacedFreestandingObjects m s
  let inv ← inventoryEntries m bond
  let token := tokenEntry inv
  let tokenInHand := m.read32 (bond + offHandsBase) = .ofNat itemToken ∨ m.read32 (bond + offEquipCur) = .ofNat itemToken
  let visited := visitTargets bond inv (token ≠ 0 ∨ tokenInHand) s.targets m
  let unlinked := if token ≠ 0 then unlinkInventoryEntry visited.2 bond token else visited.2
  let cleared := if tokenInHand then clearTokenHand unlinked bond else unlinked
  return ({ s with targets := visited.1, inv := inv }, cleared)

end Pickups

end GoldenEye

end Multi64
