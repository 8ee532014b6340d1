import ZeusLe.Library.LittleEndian

/-! The advertising data that the central sends to the nodes, `protocol.h`. -/

namespace ZeusLe.Protocol

open ZeusLe.Library.LittleEndian

def zeusTimeNominalFreq : UInt64 := 16000000

structure ZeusAdvSync where
  seq : UInt8
  prevTime : UInt32
  deriving DecidableEq, Repr

structure ZeusAdvHeader where
  sync : ZeusAdvSync
  seq : UInt16
  deriving DecidableEq, Repr

/-- `struct zeus_adv_cmd`: the id with the member of the union that it selects. -/
inductive ZeusAdvCmd where
  | none
  | start (time : UInt32)
  | stop
  deriving DecidableEq, Repr

structure ZeusAdvData where
  hdr : ZeusAdvHeader
  cmd : ZeusAdvCmd
  deriving DecidableEq, Repr

def ZeusAdvHeader.bytes (hdr : ZeusAdvHeader) : List UInt8 :=
  hdr.sync.seq :: putLe32 hdr.sync.prevTime ++ putLe16 hdr.seq

/-- The part of the command that is sent; no body stands for no command. -/
def ZeusAdvCmd.bytes : ZeusAdvCmd → List UInt8
  | .none => []
  | .start time => 1 :: putLe32 time
  | .stop => [2]

def ZeusAdvData.bytes (data : ZeusAdvData) : List UInt8 :=
  data.hdr.bytes ++ data.cmd.bytes

structure BtData where
  type : UInt8
  data : List UInt8
  deriving DecidableEq, Repr

def btDataUuid128Some : UInt8 := 6

def btDataUuid128All : UInt8 := 7

def btDataManufacturerData : UInt8 := 255

/-- `ZEUS_BT_UUID_VAL`, the UUID of the service of a central as it is sent. -/
def zeusBtUuidVal : List UInt8 :=
  [0x60, 0xba, 0x1f, 0x08, 0x98, 0xdd, 0x16, 0xae, 0x31, 0x41, 0xa6, 0x5e, 0x95, 0xe1, 0x45, 0x0d]

def advHeaderSize : Nat := 7

def advDataSize : Nat := 12

theorem length_bytes_le (data : ZeusAdvData) :
    advHeaderSize ≤ data.bytes.length ∧ data.bytes.length ≤ advDataSize := by
  rcases data with ⟨hdr, _ | time | _⟩ <;>
    simp [ZeusAdvData.bytes, ZeusAdvHeader.bytes, ZeusAdvCmd.bytes, putLe16, putLe32,
      advHeaderSize, advDataSize]

/-- What `BT_DATA` makes of the advertising data. -/
def ZeusAdvData.btData (data : ZeusAdvData) : BtData :=
  ⟨btDataManufacturerData, data.bytes⟩

/-- The header at the front of the bytes, and the body behind it. -/
def splitHeader : List UInt8 → Option (ZeusAdvHeader × List UInt8)
  | seq :: t0 :: t1 :: t2 :: t3 :: s0 :: s1 :: body =>
      some (⟨⟨seq, getLe32 t0 t1 t2 t3⟩, getLe16 s0 s1⟩, body)
  | _ => none

theorem splitHeader_bytes (hdr : ZeusAdvHeader) (body : List UInt8) :
    splitHeader (hdr.bytes ++ body) = some (hdr, body) := by
  rcases hdr with ⟨⟨seq, prevTime⟩, cmdSeq⟩
  simp only [ZeusAdvHeader.bytes, putLe32, putLe16, List.cons_append, List.nil_append,
    splitHeader, getLe32_putLe32, getLe16_putLe16]

end ZeusLe.Protocol
