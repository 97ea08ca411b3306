import Multi64.PartitionDisk
import Multi64.SdReadCache

/-! The SC64's command exchange, `link.rs`, with a cart that carries commands
out in the order they came and replies that arrive in any order, late or
never. -/

namespace Multi64

namespace cmd

def memoryRead : UInt8 := 0x6D

def memoryWrite : UInt8 := 0x4D

def sdCardOp : UInt8 := 0x69

def sdRead : UInt8 := 0x73

def sdWrite : UInt8 := 0x53

end cmd

structure CmdPacket where
  id : UInt8
  arg0 : UInt32
  arg1 : UInt32
  data : Bytes

structure CmpResponse where
  ok : Bool
  cmdId : UInt8
  data : Bytes
  deriving DecidableEq

inductive Sc64Error where
  | other (text : String)
  | timedOut (text : String)
  | port
  deriving DecidableEq, Repr

def sdCardBufferAddr : UInt32 := 0x03FE0000

/-- How a command ends. One that fails may have `stored` some of its bytes. -/
structure CartOutcome where
  ok : Bool
  stored : Nat → Bool
  data : Bytes

/-- What of a store comes of a command. -/
def CartOutcome.apply (o : CartOutcome) (before after : Store) : Store :=
  if o.ok then after else fun a => if o.stored a then after a else before a

structure Sc64Cart where
  mem : Store
  card : Store

namespace Sc64Cart

variable (c : Sc64Cart) (p : CmdPacket) (o : CartOutcome)

def exec : CmpResponse × Sc64Cart :=
  let addr := p.arg0.toNat
  let len := p.arg1.toNat
  let sector := (readBe32 p.data 0).toNat
  if p.id = cmd.memoryRead then (⟨o.ok, p.id, if o.ok then c.mem.read addr len else o.data⟩, c)
  else
    (⟨o.ok, p.id, o.data⟩,
      if p.id = cmd.memoryWrite then { c with mem := o.apply c.mem (c.mem.write addr p.data) }
      else if p.id = cmd.sdRead then
        { c with mem := o.apply c.mem (c.mem.write addr (c.card.read (sector * sectorBytes) (len * sectorBytes))) }
      else if p.id = cmd.sdWrite then
        { c with card := o.apply c.card (c.card.write (sector * sectorBytes) (c.mem.read addr (len * sectorBytes))) }
      else c)

end Sc64Cart

/-- What may come next: the cart carries out a command, a reply is read from the
port or lost, a turn of the wait loop looks for its reply, the wait ends, the
port fails, or it refuses a command, which may have reached the cart. -/
inductive LinkEvent where
  | cart (o : CartOutcome)
  | arrive (i : Nat)
  | lose (i : Nat)
  | poll
  | expire
  | fail
  | refuse (reached : Bool)

/-- An `Sc64Link` and what it talks to. `crossed` records whether a command was
ever sent while one with its letter had a reply outstanding. -/
structure Sc64World where
  cart : Sc64Cart
  toCart : List CmdPacket
  replies : List CmpResponse
  rb : List CmpResponse
  readCache : SdReadCache
  schedule : List LinkEvent
  crossed : Bool

namespace Sc64World

def start (cart : Sc64Cart) (schedule : List LinkEvent) : Sc64World := ⟨cart, [], [], [], .new, schedule, false⟩

variable (w : Sc64World)

/-- The letters of the replies that are outstanding. -/
def owed : List UInt8 := w.toCart.map (·.id) ++ (w.replies ++ w.rb).map (·.cmdId)

def happen : LinkEvent → Sc64World
  | .cart o =>
    match w.toCart with
    | [] => w
    | p :: rest =>
      let r := w.cart.exec p o
      { w with cart := r.2, toCart := rest, replies := w.replies ++ [r.1] }
  | .arrive i =>
    match w.replies[i]? with
    | none => w
    | some r => { w with replies := w.replies.eraseIdx i, rb := w.rb ++ [r] }
  | .lose i => { w with replies := w.replies.eraseIdx i }
  | .poll | .expire | .fail | .refuse _ => w

def send (p : CmdPacket) : Sc64World :=
  { w with toCart := w.toCart ++ [p], crossed := w.crossed || decide (p.id ∈ w.owed) }

end Sc64World

/-- The next reply with the letter `expect`. Those before it are dropped. -/
def takeCmp (expect : UInt8) : List CmpResponse → Option CmpResponse × List CmpResponse
  | [] => (none, [])
  | r :: rest => if r.cmdId = expect then (some r, rest) else takeCmp expect rest

namespace Sc64Link

abbrev Link := Eff Sc64Error Sc64World

def timedOut : Sc64Error :=
  .timedOut "The SummerCart64 did not respond in time. Check the USB cable and serial port, then try again."

/-- The loop of `send_cmp_raw`. A schedule that ends lets it time out. -/
def wait (expect : UInt8) : List LinkEvent → Link CmpResponse
  | [], w => (.error timedOut, { w with schedule := [] })
  | .expire :: rest, w => (.error timedOut, { w with schedule := rest })
  | .fail :: rest, w => (.error .port, { w with schedule := rest })
  | .poll :: rest, w =>
    match takeCmp expect w.rb with
    | (some r, rb) => (.ok r, { w with rb := rb, schedule := rest })
    | (none, rb) => wait expect rest { w with rb := rb }
  | e :: rest, w => wait expect rest (w.happen e)

def sendCmpRaw (p : CmdPacket) (expect : UInt8) : Link CmpResponse := fun w =>
  match w.schedule with
  | .refuse reached :: rest => (.error .port, { (if reached then w.send p else w) with schedule := rest })
  | es => wait expect es (w.send p)

def sdCardOpUserMessage (code : UInt32) : String :=
  if code = 1 then "No microSD card detected. Insert a card fully into the SummerCart64's SD slot, then try again."
  else if code = 2 then "The SD card is not ready yet. Wait a moment, or remove and reinsert the card."
  else if code = 3 then "The cartridge could not complete that SD request. Try again or reconnect USB."
  else if code = 4 then
    "SD access went out of range. The card may be damaged or use a layout this app cannot read."
  else if code = 5 then
    "That SD operation is not allowed right now. Wait for other activity to finish and try again."
  else if code = 30 then
    "The SD card is locked because the N64 may still be using it. Turn the N64 power all the way off " ++
      "(not only reset), then try again. Powering only the cart from USB can leave the slot locked until the " ++
        "console is fully off."
  else "The SD card reported an error. Try reinserting the card, or power-cycle the N64 and PC."

def cmpErrFallback (cmdId : UInt8) : String :=
  if cmdId = 0x76 then
    "This serial port did not respond like a SummerCart64. Check the USB cable and the serial port you chose."
  else if cmdId = cmd.sdCardOp then
    "The SD card slot returned an unexpected response. Try reinserting the microSD card or reconnecting USB."
  else if cmdId = cmd.sdRead then
    "Reading from the SD card failed. The card may be loose, busy, or still locked by the console."
  else if cmdId = cmd.sdWrite then
    "Writing to the SD card failed. The card may be write-protected, full, or busy."
  else if cmdId = cmd.memoryRead then "Reading from cartridge memory failed. Try again or reconnect USB."
  else if cmdId = cmd.memoryWrite then "Writing to cartridge memory failed. Try again or reconnect USB."
  else "Communication with the device failed. Try reconnecting USB or choosing another serial port."

def cmpErr (cmdId : UInt8) (r : CmpResponse) : Sc64Error :=
  .other (if cmdId = cmd.sdCardOp ∧ 4 ≤ r.data.length then sdCardOpUserMessage (readBe32 r.data 0)
    else cmpErrFallback cmdId)

def memoryRead (addr : UInt32) (len : Nat) : Link Bytes := do
  let r ← sendCmpRaw ⟨cmd.memoryRead, addr, .ofNat len, []⟩ cmd.memoryRead
  if r.ok = false then Eff.fail (cmpErr cmd.memoryRead r)
  else if r.data.length ≠ len then
    Eff.fail (.other s!"MEMORY_READ expected {len} bytes, got {r.data.length}")
  else pure r.data

def memoryWrite (addr : UInt32) (data : Bytes) : Link Unit :=
  if 2 ^ 32 ≤ data.length then Eff.fail (.other "MEMORY_WRITE payload too large")
  else do
    let r ← sendCmpRaw ⟨cmd.memoryWrite, addr, .ofNat data.length, data⟩ cmd.memoryWrite
    if r.ok = false then Eff.fail (cmpErr cmd.memoryWrite r) else pure ()

def sdReadUncached (startLba len : Nat) : Link Bytes := do
  let count := UInt32.ofNat (len / sectorBytes)
  let sec := UInt32.ofNat startLba
  let r ← sendCmpRaw ⟨cmd.sdRead, sdCardBufferAddr, count, putBe32 sec⟩ cmd.sdRead
  if r.ok = false then Eff.fail (cmpErr cmd.sdRead r)
  else do
    let mem ← memoryRead sdCardBufferAddr len
    if mem.length ≠ len then Eff.fail (.other "MEMORY_READ length mismatch") else pure mem

def sdWriteUncached (startLba : Nat) (buf : Bytes) : Link Unit := do
  let count := UInt32.ofNat (buf.length / sectorBytes)
  memoryWrite sdCardBufferAddr buf
  let sec := UInt32.ofNat startLba
  let r ← sendCmpRaw ⟨cmd.sdWrite, sdCardBufferAddr, count, putBe32 sec⟩ cmd.sdWrite
  if r.ok = false then Eff.fail (cmpErr cmd.sdWrite r) else pure ()

/-- The cache is out of the link while the link fetches. -/
def readCached (startLba len : Nat) : Link Bytes := fun w =>
  let r := w.readCache.readThrough startLba len sdReadUncached { w with readCache := .new }
  (r.1.1, { r.2 with readCache := r.1.2 })

def writeCached (startLba : Nat) (buf : Bytes) : Link Unit := fun w =>
  let r := w.readCache.writeThrough startLba buf sdWriteUncached { w with readCache := .new }
  (r.1.1, { r.2 with readCache := r.1.2 })

def readSdSectors (startLba len : Nat) : Link Bytes :=
  if ¬sectorBytes ∣ len then Eff.fail (.other "SD read length must be a multiple of 512")
  else if len = 0 then pure []
  else if sdCardBufferMaxBytes < len then
    Eff.fail (.other s!"SD read length {len} exceeds max batch {sdCardBufferMaxBytes}")
  else if 2 ^ 32 ≤ startLba then Eff.fail (.other "sector LBA out of range")
  else readCached startLba len

def writeSdSectors (startLba : Nat) (buf : Bytes) : Link Unit :=
  if buf.length = 0 ∨ ¬sectorBytes ∣ buf.length then
    Eff.fail (.other "SD write length must be a non-zero multiple of 512")
  else if sdCardBufferMaxBytes < buf.length then
    Eff.fail (.other s!"SD write length {buf.length} exceeds max batch {sdCardBufferMaxBytes}")
  else if 2 ^ 32 ≤ startLba then Eff.fail (.other "sector LBA out of range")
  else writeCached startLba buf

end Sc64Link

/-- A call, or an event outside any. -/
inductive Sc64Op where
  | read (lba len : Nat)
  | write (lba : Nat) (buf : Bytes)
  | pass

namespace Sc64World

variable (w : Sc64World)

def pass : Sc64World :=
  match w.schedule with
  | [] => w
  | e :: rest => happen { w with schedule := rest } e

/-- A write hands out no bytes. -/
def step : Sc64Op → Except Sc64Error Bytes × Sc64World
  | .read lba len => Sc64Link.readSdSectors lba len w
  | .write lba buf => ((Sc64Link.writeSdSectors lba buf w).1.map fun _ => [], (Sc64Link.writeSdSectors lba buf w).2)
  | .pass => (.ok [], w.pass)

def run (ops : List Sc64Op) : Sc64World := ops.foldl (fun w op => (w.step op).2) w

end Sc64World

/-- What a result may say: a read that succeeds has the bytes its sectors hold,
a write that succeeds has put its bytes into its sectors. -/
def Sc64Op.Right (r : Except Sc64Error Bytes × Sc64World) : Sc64Op → Prop
  | .read lba len => ∀ bytes, r.1 = .ok bytes → bytes = r.2.cart.card.read (lba * sectorBytes) len
  | .write lba buf => (∃ bytes, r.1 = .ok bytes) → r.2.cart.card.read (lba * sectorBytes) buf.length = buf
  | .pass => True

end Multi64
