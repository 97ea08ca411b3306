import Multi64.Lib.Bytes
import Multi64.Lib.Effect

/-! The EverDrive-64 PRO's commands, `device.rs`, with a cart that carries them
out in the order they came and whose replies, which carry no number, may come
after the read that waited for them. -/

namespace Multi64

namespace ProLink

def statusKey : UInt8 := 0x5A

def protocolId : UInt8 := 0x07

def deviceIdEd64Pro : UInt8 := 0x27

def ackBlock : Nat := 1024

def maxPathLen : Nat := 65535

inductive Endpoint where
  | file | memory
  deriving DecidableEq

/-- What the cart carries out: its file system's commands, and transfers. -/
inductive Act where
  | fsInit
  | fileOpen (mode : UInt8) (path : Bytes)
  | fileClose
  | available
  | fileSeek (position : UInt32)
  | fileInfo (path : Bytes)
  | dirLoad (options : UInt8) (path : Bytes)
  | dirSize
  | dirGet (index : Nat)
  | dirMake (path : Bytes)
  | delete (path : Bytes)
  | dirTest (path : Bytes)
  | fileTest (path : Bytes)
  | read (src : Endpoint) (addr : UInt32) (len : Nat)
  | fileWrite (data : Bytes)
  | memWrite (addr : UInt32) (data : Bytes)
  deriving DecidableEq

/-- What the host sends. A file is written by a header and then blocks. -/
inductive Request where
  | status
  | nresp (status : UInt8)
  | act (a : Act)
  | writeFile (len : Nat)
  | block (data : Bytes)

/-- What comes of one request: the command's result, the data it answers with,
a single byte where the protocol has one, and what a cart that takes the request
for something else sends. -/
structure Outcome where
  status : UInt8
  data : Bytes
  name : Bytes
  byte : UInt8
  stray : Bytes

/-- A command the cart carried out, by the number of the request that ended it. -/
structure Entry where
  id : Nat
  act : Act
  status : UInt8
  reply : Bytes

/-- `writing` is a file's transfer under way: what is still to come, and what
has. -/
structure ProCart where
  last : UInt8
  writing : Option (Nat × Bytes)
  log : List Entry

section Cart

def fit (n : Nat) (b : Bytes) : Bytes := (b ++ List.replicate n 0).take n

/-- A result byte, then (on 0) the 9-byte head and a length-prefixed name. -/
def record (o : Outcome) : Bytes :=
  let name := o.name.take 0xFFFF
  if o.status = 0 then 0 :: fit 9 o.data ++ putBe16 (UInt16.ofNat name.length) ++ name else [o.status]

def Act.reply (o : Outcome) : Act → Bytes
  | .available => fit 8 o.data
  | .dirSize => fit 2 o.data
  | .dirGet _ | .fileInfo _ => record o
  | .read _ _ len => fit len o.data
  | _ => []

variable (c : ProCart)

def ProCart.carryOut (id : Nat) (a : Act) (o : Outcome) : Bytes × ProCart :=
  (a.reply o, { c with last := o.status, log := c.log ++ [⟨id, a, o.status, a.reply o⟩] })

def ProCart.exec (id : Nat) (r : Request) (o : Outcome) : Bytes × ProCart :=
  match c.writing, r with
  | some (left, got), .block data =>
    if data.length < left then ([o.byte], { c with writing := some (left - data.length, got ++ data) })
    else { c with writing := none }.carryOut id (.fileWrite (got ++ data)) o
  | some _, _ => (o.stray, c)
  | none, .status => ([statusKey, protocolId, deviceIdEd64Pro, c.last], c)
  | none, .nresp _ => ([o.byte], c)
  | none, .act a => c.carryOut id a o
  | none, .writeFile len => ([o.byte], { c with writing := some (len, []) })
  | none, .block _ => (o.stray, c)

end Cart

/-- What a read meets: requests the cart carries out before it ends, and, where
it times out, how many bytes it had taken. -/
structure Wait where
  turns : List Outcome
  late : Option Nat

/-- An `Ed64Pro` and the cart it talks to. `next` numbers the requests. -/
structure ProWorld where
  cart : ProCart
  toCart : List (Nat × Request)
  wire : Bytes
  next : Nat
  schedule : List Wait

inductive ProError where
  | io
  | unexpectedStatusKey (key : UInt8)
  | wrongProtocol (id : UInt8)
  | operation (status : UInt8) (detail : Option UInt8)
  | badAck (ack : UInt8)
  | pathTooLong (len : Nat)
  | tooLong
  deriving DecidableEq

abbrev Link := Eff ProError ProWorld

section Transport

def ProWorld.turn (w : ProWorld) (o : Outcome) : ProWorld :=
  match w.toCart with
  | [] => w
  | (id, r) :: rest =>
    { w with cart := (w.cart.exec id r o).2, toCart := rest, wire := w.wire ++ (w.cart.exec id r o).1 }

def ProWorld.turns (w : ProWorld) (os : List Outcome) : ProWorld := os.foldl ProWorld.turn w

def send (r : Request) : Link Unit :=
  Eff.modify fun w => { w with toCart := w.toCart ++ [(w.next, r)], next := w.next + 1 }

/-- `read_exact`. A read that times out has taken what had come. -/
def readExact (n : Nat) : Link Bytes := fun w =>
  if n = 0 then (.ok [], w)
  else
    match w.schedule with
    | [] => (.error .io, w)
    | wait :: rest =>
      let w := { w with schedule := rest }.turns wait.turns
      match wait.late with
      | some k => (.error .io, { w with wire := w.wire.drop (min k (n - 1)) })
      | none =>
        if n ≤ w.wire.length then (.ok (w.wire.take n), { w with wire := w.wire.drop n })
        else (.error .io, { w with wire := [] })

end Transport

section Commands

structure Identity where
  protocolId : UInt8
  deviceId : UInt8
  status : UInt8

structure FileInfo where
  size : UInt32
  date : UInt16
  time : UInt16
  attributes : UInt8
  name : Bytes
  deriving DecidableEq

def identity : Link Identity := do
  send .status
  let id ← readExact 4
  if byteAt id 0 ≠ statusKey then Eff.fail (.unexpectedStatusKey (byteAt id 0))
  else if byteAt id 1 ≠ protocolId then Eff.fail (.wrongProtocol (byteAt id 1))
  else pure ⟨byteAt id 1, byteAt id 2, byteAt id 3⟩

/-- A status other than 0 is an error, with its detail fetched. -/
def checkStatus : Link Unit := do
  let id ← identity
  if id.status = 0 then pure ()
  else do
    send (.nresp id.status)
    let detail ← readExact 1
    Eff.fail (.operation id.status (some (byteAt detail 0)))

/-- One request, and then its status. -/
def checked (a : Act) : Link Unit := do
  send (.act a)
  checkStatus

def pathField (path : Bytes) : Link Unit :=
  if maxPathLen < path.length then Eff.fail (.pathTooLong path.length) else pure ()

def checkedPath (a : Bytes → Act) (path : Bytes) : Link Unit := do
  pathField path
  checked (a path)

def fsInit : Link Unit := checked .fsInit

def fileOpen (path : Bytes) (mode : UInt8) : Link Unit := checkedPath (.fileOpen mode) path

def fileClose : Link Unit := checked .fileClose

def fileSeek (position : UInt32) : Link Unit := checked (.fileSeek position)

def dirMake (path : Bytes) : Link Unit := checkedPath .dirMake path

def delete (path : Bytes) : Link Unit := checkedPath .delete path

def fileAvailable : Link Nat := do
  send (.act .available)
  let b ← readExact 8
  pure ((readBe32 b 0).toNat + (readBe32 b 4).toNat * 2 ^ 32)

def transferLen (len : Nat) : Link Unit := if 2 ^ 32 ≤ len then Eff.fail .tooLong else pure ()

/-- `file_read` and `mem_read`. -/
def readFrom (src : Endpoint) (addr : UInt32) (len : Nat) : Link Bytes :=
  if len = 0 then pure []
  else do
    transferLen len
    send (.act (.read src addr len))
    let buf ← readExact len
    checkStatus
    pure buf

def fileRead (len : Nat) : Link Bytes := readFrom .file 0 len

def memRead (addr : UInt32) (len : Nat) : Link Bytes := readFrom .memory addr len

/-- Before each block of up to 1024 bytes the cart sends 0. `fuel` bounds the
blocks left. -/
def sendAcked : (fuel : Nat) → Bytes → Link Unit
  | 0, _ => pure ()
  | fuel + 1, data =>
    if data = [] then pure ()
    else do
      let ack ← readExact 1
      if byteAt ack 0 ≠ 0 then Eff.fail (.badAck (byteAt ack 0))
      else do
        send (.block (data.take ackBlock))
        sendAcked fuel (data.drop ackBlock)

def fileWrite (data : Bytes) : Link Unit :=
  if data = [] then pure ()
  else do
    transferLen data.length
    send (.writeFile data.length)
    sendAcked data.length data
    checkStatus

/-- Unacknowledged, with no status behind it. -/
def memWrite (addr : UInt32) (data : Bytes) : Link Unit :=
  if data = [] then pure ()
  else do
    transferLen data.length
    send (.act (.memWrite addr data))

def readRecord : Link FileInfo := do
  let resp ← readExact 1
  if byteAt resp 0 ≠ 0 then Eff.fail (.operation (byteAt resp 0) none)
  else do
    let head ← readExact 9
    let len ← readExact 2
    let name ← readExact (readBe16 len 0).toNat
    pure ⟨readBe32 head 0, readBe16 head 4, readBe16 head 6, byteAt head 8, name⟩

def fileInfo (path : Bytes) : Link FileInfo := do
  pathField path
  send (.act (.fileInfo path))
  readRecord

def dirGetAll : (count index : Nat) → Link (List FileInfo)
  | 0, _ => pure []
  | count + 1, index => do
    send (.act (.dirGet index))
    let entry ← readRecord
    return entry :: (← dirGetAll count (index + 1))

def dirList (path : Bytes) (options : UInt8) : Link (List FileInfo) := do
  checkedPath (.dirLoad options) path
  send (.act .dirSize)
  let size ← readExact 2
  dirGetAll (readBe16 size 0).toNat 0

/-- `file_exists` and `dir_exists`. -/
def tested (a : Bytes → Act) (path : Bytes) : Link Bool := do
  pathField path
  send (.act (a path))
  return (← identity).status = 0

def fileExists (path : Bytes) : Link Bool := tested .fileTest path

def dirExists (path : Bytes) : Link Bool := tested .dirTest path

end Commands

/-- A call on the device. -/
inductive Command where
  | fsInit
  | fileOpen (path : Bytes) (mode : UInt8)
  | fileClose
  | fileAvailable
  | fileSeek (position : UInt32)
  | fileRead (len : Nat)
  | fileWrite (data : Bytes)
  | fileInfo (path : Bytes)
  | dirList (path : Bytes) (options : UInt8)
  | dirMake (path : Bytes)
  | delete (path : Bytes)
  | fileExists (path : Bytes)
  | dirExists (path : Bytes)
  | memRead (addr : UInt32) (len : Nat)
  | memWrite (addr : UInt32) (data : Bytes)

inductive Value where
  | unit
  | count (n : Nat)
  | bytes (b : Bytes)
  | info (i : FileInfo)
  | infos (l : List FileInfo)
  | found (b : Bool)
  deriving DecidableEq

def Command.call : Command → Link Value
  | .fsInit => do ProLink.fsInit; pure .unit
  | .fileOpen path mode => do ProLink.fileOpen path mode; pure .unit
  | .fileClose => do ProLink.fileClose; pure .unit
  | .fileAvailable => do pure (.count (← ProLink.fileAvailable))
  | .fileSeek position => do ProLink.fileSeek position; pure .unit
  | .fileRead len => do pure (.bytes (← ProLink.fileRead len))
  | .fileWrite data => do ProLink.fileWrite data; pure .unit
  | .fileInfo path => do pure (.info (← ProLink.fileInfo path))
  | .dirList path options => do pure (.infos (← ProLink.dirList path options))
  | .dirMake path => do ProLink.dirMake path; pure .unit
  | .delete path => do ProLink.delete path; pure .unit
  | .fileExists path => do pure (.found (← ProLink.fileExists path))
  | .dirExists path => do pure (.found (← ProLink.dirExists path))
  | .memRead addr len => do pure (.bytes (← ProLink.memRead addr len))
  | .memWrite addr data => do ProLink.memWrite addr data; pure .unit

end ProLink

end Multi64
