import Mathlib
import Multi64.Connector

/-! The Ocarina of Time connector: `cartmem.lua`, which serves reads from pages
of RDRAM and collects writes to be sent together, and what `connector.lua` does
with a line over it. -/

namespace Multi64

namespace Connector

namespace Oot

/-- The tables of `cartmem.lua`. -/
structure Cartmem where
  pages : Int → Option Bytes
  touched : List Int
  overlay : Int → Option UInt8
  pending : List Write

/-- `cartmem.lua`, and the globals of `connector.lua`. -/
structure State where
  mem : Cartmem
  randoContext : Int
  coopContext : Int
  masterQuestTable : Int
  firstConnect : Bool
  gameComplete : Bool
  collectibleOverrides : Option Int
  collectibleOffsets : Option Int

def page : Int := 1024

def State.fresh : State where
  mem := ⟨fun _ => none, [], fun _ => none, []⟩
  randoContext := 0
  coopContext := 0
  masterQuestTable := 0
  firstConnect := true
  gameComplete := false
  collectibleOverrides := none
  collectibleOffsets := none

section Cartmem

variable {σ : Type} (c : Cart σ)

def mem : Lua σ State Cartmem := do return (← script).mem

def updateMem (f : Cartmem → Cartmem) : Lua σ State Unit := update fun s => { s with mem := f s.mem }

def fetch (list : List Int) : Lua σ State Unit := do
  let blocks ← readMany c (list.map fun p => (p * page, page.toNat))
  updateMem fun m => { m with pages := (list.zip blocks).foldl (fun pages e => Function.update pages e.1 (some e.2)) m.pages }

/-- Forget the last poll's bytes and fetch what it touched. -/
def beginPoll : Lua σ State Unit := do
  updateMem fun m => { m with pages := fun _ => none, overlay := fun _ => none }
  let want := ((← mem).touched.insertionSort (· ≤ ·)).dedup
  updateMem fun m => { m with touched := [] }
  if want ≠ [] then fetch c want

def byteOf (pages : Int → Option Bytes) (a : Int) : Lua σ State UInt8 :=
  match pages (a / page) with
  | some data => match data[(a % page).toNat]? with
    | some b => pure b
    | none => Eff.fail "attempt to perform bitwise operation on a nil value"
  | none => Eff.fail "bad argument #1 to 'byte' (string expected, got nil)"

def needPage (p : Int) : Lua σ State Unit := do
  updateMem fun m => { m with touched := m.touched ++ [p] }
  if (← mem).pages p = none then fetch c [p]

def byteAt (a : Int) : Lua σ State UInt8 := do
  match (← mem).overlay a with
  | some b => return b
  | none =>
    needPage c (a / page)
    byteOf (← mem).pages a

/-- `n` bytes from `a`, big-endian. -/
def readBe : Nat → Int → Lua σ State Nat
  | 0, _ => pure 0
  | n + 1, a => do
    let high ← readBe n a
    let low ← byteAt c (a + n)
    return high * 256 + low.toNat

def setByte (a : Int) (b : UInt8) (m : Cartmem) : Cartmem :=
  { m with
    overlay := Function.update m.overlay a (some b)
    pages := match m.pages (a / page) with
      | some data => Function.update m.pages (a / page) (some (data.set (a % page).toNat b))
      | none => m.pages }

/-- The `n` low bytes of an integer of Lua, high ones first. -/
def beBytes (n : Nat) (v : Int) : Bytes :=
  (List.range n).map fun i => UInt8.ofNat (v / 256 ^ (n - 1 - i) % 256).toNat

def writeBe (a : Int) (n : Nat) (v : Int) : Lua σ State Unit := do
  let bytes := beBytes n v
  note (a, bytes)
  updateMem fun m =>
    (List.range n).foldl (fun m (i : Nat) => setByte (a + i) (bytes.getD i 0) m) { m with pending := m.pending ++ [(a, bytes)] }

/-- Read these regions together and serve them from now on. -/
def refresh (regions : List (Int × Nat)) : Lua σ State Unit := do
  let blocks ← readMany c regions
  if regions.length ≤ blocks.length then
    updateMem fun m => { m with
      overlay := (regions.zip blocks).foldl (fun overlay e =>
        (List.range e.1.2).foldl (fun overlay (i : Nat) => Function.update overlay (e.1.1 + i) e.2[i]?) overlay) m.overlay }
  else Eff.fail "bad argument #1 to 'byte' (string expected, got nil)"

def flush : Lua σ State Unit := flushQueue c (·.mem.pending) fun s => { s with mem := { s.mem with pending := [] } }

end Cartmem

/-- A line as decoded. A field that is not there raises where it is used. -/
structure Block where
  playerNames : Option (List Bytes)
  triggerDeath : Bool
  items : Option (List Int)
  collectibleOverrides : Option Int
  collectibleOffsets : Option Int

/-- Reads of the game, one after the other, that may raise: what finds the
locations and the collectibles. -/
inductive Scan (α : Type) where
  | done (a : α)
  | raise (why : String)
  | read (a : Int) (k : UInt8 → Scan α)
  | watched (k : Option Bytes → Scan α)

/-- What `json.decode` makes of a line, and what the scans of the poll read. -/
structure Line where
  block : Except String (Option Block)
  locations : State → Scan (List (String × Bool))
  collectibles : State → Scan (List (String × Bool))

structure Reply where
  playerName : Bytes
  scriptVersion : Nat
  deathlinkActive : Bool
  safe : Option (List (String × Bool) × List (String × Bool) × Bool × Bool)

section Game

variable {σ : Type} (c : Cart σ)

def Scan.run {α : Type} : Scan α → Lua σ State α
  | .done a => pure a
  | .raise why => Eff.fail why
  | .read a k => do (k (← byteAt c a)).run
  | .watched k => do (k (← takeWatched c)).run

/-- Where the ROM has its context, the block of the co-op in it, and the table of
the dungeons with a master quest. -/
def contextTables : Lua σ State (Int × Int × Int) := do
  let rando : Int := (← readBe c 4 (0x1C6E90 + 0x15D4)) - 0x80000000
  let coop : Int := (← readBe c 4 rando) - 0x80000000
  let quest : Int := (← readBe c 4 (rando + 0x0E9F)) - 0x03480000
  let _ ← readBe c 1 (rando + 0x0EAD)
  return (rando, coop, rando + quest)

def loadScript : Lua σ State Unit := do
  let tables ← contextTables c
  update fun s =>
    { s with randoContext := tables.1, coopContext := tables.2.1, masterQuestTable := tables.2.2 }

structure GameMode where
  name : String
  loaded : Bool

def gameModes : Int → GameMode
  | 0 => ⟨"N64 Logo", false⟩
  | 1 => ⟨"Title Screen", false⟩
  | 2 => ⟨"File Select", false⟩
  | 3 => ⟨"Normal Gameplay", true⟩
  | 4 => ⟨"Cutscene", true⟩
  | 5 => ⟨"Paused", true⟩
  | 6 => ⟨"Dying", true⟩
  | 7 => ⟨"Dying Menu Start", false⟩
  | 8 => ⟨"Dead", false⟩
  | _ => ⟨"Unknown", false⟩

/-- The mode while no menu is open. -/
def playMode : Lua σ State Int := do
  if (← byteAt c (0x1DB09C + 3)) &&& 0x80 ≠ 0 then return 6
  else if (← readBe c 2 (0x11A5D0 + 0x30)) ≤ 0 then return 6
  else if (← readBe c 1 0x11B933) = 4 then return 4
  else return 3

def menuMode (menu : Nat) : Int :=
  if 0 < menu ∧ menu < 9 ∨ menu = 13 then 5 else if menu = 9 ∨ menu = 0xB then 7 else 8

def getCurrentGameMode : Lua σ State Int := do
  let logo ← readBe c 4 0x11F200
  if logo = 0x802C5880 ∨ logo = 0 then return 0
  else if (← readBe c 1 0x11B92F) = 1 then return 1
  else if (← readBe c 1 0x11B92F) = 2 then return 2
  else
    let menu ← readBe c 1 0x1D8DD5
    if menu = 0 then playMode c else return menuMode menu

def inSafeState : Lua σ State Bool := do return (gameModes (← getCurrentGameMode c)).loaded

def internalCountAddr : Int := 0x11A5D0 + 0x90

def curScene : Lua σ State Nat := readBe c 2 (0x1C84A0 + 0xA4)

def shopScenes : List Nat := [0x2C, 0x2D, 0x2E, 0x2F, 0x30, 0x31, 0x32, 0x33, 0x42, 0x4B]

def itemReceivable : Lua σ State Bool := do
  let details := gameModes (← getCurrentGameMode c)
  let scene ← curScene c
  let coop := (← script).coopContext
  let playerQueued ← readBe c 2 (coop + 6)
  let itemQueued ← readBe c 2 (coop + 8)
  return details.name = "Normal Gameplay" ∧ scene ∉ shopScenes ∧ playerQueued = 0 ∧ itemQueued = 0

/-- A character of a name in the game's font. -/
def fontByte (b : UInt8) : Option Nat :=
  let n := b.toNat
  if 0x30 ≤ n ∧ n ≤ 0x39 then some (n - 0x30)
  else if 0x41 ≤ n ∧ n ≤ 0x5A then some (n + 0x6A)
  else if 0x61 ≤ n ∧ n ≤ 0x7A then some (n + 0x64)
  else if n = 0x2E then some 0xEA
  else if n = 0x2D then some 0xE4
  else if n = 0x20 then some 0xDF
  else none

/-- The eight bytes a name is stored as. -/
def storedName (name : Bytes) : List Nat :=
  let shown := ((name.take 100).filterMap fontByte).take 8
  shown ++ List.replicate (8 - shown.length) 0xDF

def setPlayerName (id : Nat) (name : Bytes) : Lua σ State Unit := do
  let at_ := (← script).coopContext + 20 + id * 8
  ((storedName name).zipIdx).forM fun e => writeBe (at_ + e.2) 1 e.1

def setPlayerNames (names : List Bytes) : Lua σ State Unit := do
  ((names.take 254).zipIdx 1).forM fun e => setPlayerName e.2 e.1
  setPlayerName 255 ("APPlayer".toList.map fun ch => UInt8.ofNat ch.toNat)

def killLink : Lua σ State Unit := do
  let scene ← curScene c
  if scene ∈ [27, 28, 29, 35, 36, 37] then return ()
  writeBe 0x11A600 2 0

/-- The count and the mailbox are from one instant. -/
def queueItem (items : Option (List Int)) : Lua σ State Unit := do
  let coop := (← script).coopContext
  refresh c [(internalCountAddr, 2), (coop + 6, 4)]
  let receivedItemsCount ← readBe c 2 internalCountAddr
  match items with
  | none => Eff.fail "attempt to get length of a nil value (global 'item_queue')"
  | some items =>
    if receivedItemsCount < items.length then
      if (← itemReceivable c) then
        writeBe (coop + 6) 2 0
        writeBe (coop + 8) 2 (items.getD receivedItemsCount 0)

def writeNames (names : Option (List Bytes)) : Lua σ State Unit := do
  let mode ← getCurrentGameMode c
  if (← script).firstConnect ∨ mode = 0 ∨ mode = 1 ∨ mode = 2 then
    match names with
    | none => Eff.fail "attempt to get length of a nil value (field 'playerNames')"
    | some names =>
      if names ≠ [] then
        update fun s => { s with firstConnect := false }
        setPlayerNames names

def recordOverrides (block : Block) : Lua σ State Unit := do
  if (← script).collectibleOverrides = none ∧ block.collectibleOverrides ≠ some 0 then
    match block.collectibleOverrides with
    | none => Eff.fail "attempt to perform arithmetic on a nil value (field 'collectibleOverrides')"
    | some at_ =>
      let overrides ← readBe c 4 ((← script).randoContext + at_)
      update fun s => { s with collectibleOverrides := some (overrides - 0x80000000) }

def recordCollectibles (block : Block) : Lua σ State Unit := do
  recordOverrides c block
  update fun s => { s with collectibleOffsets := block.collectibleOffsets }

def processBlock (block : Option Block) : Lua σ State Unit := do
  match block with
  | none => return ()
  | some block =>
    writeNames c block.playerNames
    if block.triggerDeath then killLink c
    queueItem c block.items
    recordCollectibles c block

/-- The bytes from `a` up to a zero, `n` at most. -/
def readString (n : Nat) (a : Int) : Lua σ State Bytes := do
  let bytes ← (List.range n).mapM' fun (i : Nat) => byteAt c (a + i)
  return bytes.takeWhile (· ≠ 0)

def checkAllLocations (line : Line) : Lua σ State (List (String × Bool)) := do
  let checks ← (line.locations (← script)).run c
  writeBe 0x40002C 4 0
  writeBe 0x400030 4 0
  return checks

def getDeathState : Lua σ State Bool := do
  let _ ← getCurrentGameMode c
  return (← readBe c 2 0x11A600) = 0

def isGameComplete : Lua σ State Bool := do
  if (← script).gameComplete then return true
  let scenePointer ← readBe c 4 0x1CA208
  if scenePointer = 0x80383C10 ∨ scenePointer = 0x80382720 then
    update fun s => { s with gameComplete := true }
    return true
  return false

def checkState (line : Line) : Lua σ State (List (String × Bool) × List (String × Bool) × Bool × Bool) := do
  let locations ← checkAllLocations c line
  let collectibles ← (line.collectibles (← script)).run c
  let isDead ← getDeathState c
  return (locations, collectibles, isDead, ← isGameComplete c)

def reply (line : Line) : Lua σ State Reply := do
  let playerName ← readString c 16 ((← script).coopContext + 20 + 0x800 + 0x5)
  let deathlink ← byteAt c ((← script).coopContext + 0xB)
  let reply : Reply := ⟨playerName, 3, deathlink.toNat > 0, none⟩
  if (← inSafeState c) then return { reply with safe := some (← checkState c line) }
  return reply

/-- All that comes before the writes are sent. -/
def body (line : Line) : Lua σ State Reply := do
  beginPoll c
  match line.block with
  | .error why => Eff.fail why
  | .ok block => processBlock c block
  reply c line

def handle (encode : Reply → Except String String) (line : Line) : Lua σ State String := do
  let reply ← body c line
  flush c
  match encode reply with
  | .ok text => return text
  | .error why => Eff.fail why

def oot (encode : Reply → Except String String) : Script σ State Line String where
  id := "oot"
  fresh := .fresh
  load := loadScript c
  handle := handle c encode
  pending s := s.mem.pending

end Game

end Oot

end Connector

end Multi64
