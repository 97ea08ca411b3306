import Multi64.Lib.Bytes

/-! The constants of the M64P memory protocol, `mem_proto.h`. -/

namespace Multi64

def m64pMagic : Bytes := [0x4D, 0x36, 0x34, 0x50]

inductive M64pMsg where
  | hello | peekv | pokev | peekrom | watch
  | helloAck | peekvResp | pokeAck | peekromResp | watchAck
  | err
  deriving DecidableEq, Repr

def M64pMsg.code : M64pMsg → UInt8
  | .hello => 0x01
  | .peekv => 0x02
  | .pokev => 0x03
  | .peekrom => 0x04
  | .watch => 0x05
  | .helloAck => 0x81
  | .peekvResp => 0x82
  | .pokeAck => 0x83
  | .peekromResp => 0x84
  | .watchAck => 0x85
  | .err => 0xE0

inductive M64pErr where
  | malformed | tooMany | tooLarge | range | readonly | unsupported | busy
  deriving DecidableEq, Repr

def M64pErr.code : M64pErr → UInt8
  | .malformed => 0x01
  | .tooMany => 0x02
  | .tooLarge => 0x03
  | .range => 0x04
  | .readonly => 0x05
  | .unsupported => 0x06
  | .busy => 0x07

def m64pProtoVersion : UInt8 := 0

def m64pFlagWritable : UInt8 := 0x01

def m64pFlagCartRom : UInt8 := 0x02

def m64pFlagWatch : UInt8 := 0x04

def m64pFlagPokeOnce : UInt8 := 0x08

def m64pMaxRegions : Nat := 32

def m64pMaxRegionBytes : Nat := 4096

def m64pMaxTotalBytes : Nat := 7936

def m64pWatchSlots : Nat := 4

def m64pWatchMaxLen : Nat := 8

def m64pWatchMaxValues : Nat := 8

def m64pWatchQueue : Nat := 16

/-- The largest application payload the agent builds. -/
def m64pAppCap : Nat := 5 + 3 + m64pMaxRegions * 2 + m64pMaxTotalBytes

def appHeader (msg : M64pMsg) : Bytes := m64pMagic ++ [msg.code]

@[simp] theorem appHeader_length (msg : M64pMsg) : (appHeader msg).length = 5 := rfl

end Multi64
