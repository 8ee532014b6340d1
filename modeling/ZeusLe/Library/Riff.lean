import Mathlib.Data.List.Basic
import ZeusLe.Library.LittleEndian

/-! The canonical header of a RIFF/WAVE file with PCM samples: 44 bytes. -/

namespace ZeusLe.Library.Riff

open ZeusLe.Library.LittleEndian

structure Header where
  riffSize : UInt32
  channels : UInt16
  sampleRate : UInt32
  byteRate : UInt32
  blockAlign : UInt16
  bitsPerSample : UInt16
  dataSize : UInt32
  deriving DecidableEq, Repr

def riffTag : List UInt8 := [0x52, 0x49, 0x46, 0x46]

def waveTag : List UInt8 := [0x57, 0x41, 0x56, 0x45]

/-- The tag of the format chunk with the size of the chunk and the code of
PCM. -/
def formatTag : List UInt8 := [0x66, 0x6d, 0x74, 0x20, 16, 0, 0, 0, 1, 0]

def dataTag : List UInt8 := [0x64, 0x61, 0x74, 0x61]

def encode (hdr : Header) : List UInt8 :=
  riffTag ++ putLe32 hdr.riffSize ++ waveTag ++ formatTag ++ putLe16 hdr.channels ++
    putLe32 hdr.sampleRate ++ putLe32 hdr.byteRate ++ putLe16 hdr.blockAlign ++
    putLe16 hdr.bitsPerSample ++ dataTag ++ putLe32 hdr.dataSize

theorem length_encode (hdr : Header) : (encode hdr).length = 44 :=
  rfl

def skipTag (tag bytes : List UInt8) : Option (List UInt8) :=
  if bytes.take tag.length = tag then some (bytes.drop tag.length) else none

def takeLe16 : List UInt8 → Option (UInt16 × List UInt8)
  | b0 :: b1 :: rest => some (getLe16 b0 b1, rest)
  | _ => none

def takeLe32 : List UInt8 → Option (UInt32 × List UInt8)
  | b0 :: b1 :: b2 :: b3 :: rest => some (getLe32 b0 b1 b2 b3, rest)
  | _ => none

@[simp] theorem skipTag_append (tag rest : List UInt8) :
    skipTag tag (tag ++ rest) = some rest := by
  simp [skipTag]

@[simp] theorem takeLe16_append (v : UInt16) (rest : List UInt8) :
    takeLe16 (putLe16 v ++ rest) = some (v, rest) := by
  simp only [putLe16, List.cons_append, List.nil_append, takeLe16, getLe16_putLe16]

@[simp] theorem takeLe32_append (v : UInt32) (rest : List UInt8) :
    takeLe32 (putLe32 v ++ rest) = some (v, rest) := by
  simp only [putLe32, List.cons_append, List.nil_append, takeLe32, getLe32_putLe32]

/-- The header at the front of a file, and the bytes behind it. -/
def decodeHeader (bytes : List UInt8) : Option (Header × List UInt8) := do
  let bytes ← skipTag riffTag bytes
  let (riffSize, bytes) ← takeLe32 bytes
  let bytes ← skipTag waveTag bytes
  let bytes ← skipTag formatTag bytes
  let (channels, bytes) ← takeLe16 bytes
  let (sampleRate, bytes) ← takeLe32 bytes
  let (byteRate, bytes) ← takeLe32 bytes
  let (blockAlign, bytes) ← takeLe16 bytes
  let (bitsPerSample, bytes) ← takeLe16 bytes
  let bytes ← skipTag dataTag bytes
  let (dataSize, bytes) ← takeLe32 bytes
  return (⟨riffSize, channels, sampleRate, byteRate, blockAlign, bitsPerSample, dataSize⟩, bytes)

theorem decodeHeader_encode (hdr : Header) (data : List UInt8) :
    decodeHeader (encode hdr ++ data) = some (hdr, data) := by
  simp [decodeHeader, encode, List.append_assoc]

/-- What a reader takes from a file: as many of the bytes as the header says. -/
def decode (bytes : List UInt8) : Option (Header × List UInt8) := do
  let (hdr, bytes) ← decodeHeader bytes
  return (hdr, bytes.take hdr.dataSize.toNat)

/-- The header describes the samples behind it: its sizes count the whole frames
of the data, and the rates belong to the format. -/
structure Describes (hdr : Header) (data : List UInt8) : Prop where
  blockAlign : hdr.blockAlign.toNat = hdr.channels.toNat * (hdr.bitsPerSample.toNat / 8)
  byteRate : hdr.byteRate.toNat = hdr.sampleRate.toNat * hdr.blockAlign.toNat
  dataSize : hdr.dataSize.toNat = data.length / hdr.blockAlign.toNat * hdr.blockAlign.toNat
  riffSize : hdr.riffSize.toNat = 36 + hdr.dataSize.toNat

def wholeFrames (frame : Nat) (data : List UInt8) : List UInt8 :=
  data.take (data.length / frame * frame)

theorem Describes.decode_encode {hdr : Header} {data : List UInt8} (h : Describes hdr data) :
    decode (encode hdr ++ data) = some (hdr, wholeFrames hdr.blockAlign.toNat data) := by
  rw [decode, decodeHeader_encode, wholeFrames, ← h.dataSize]
  rfl

theorem length_wholeFrames (frame : Nat) (data : List UInt8) :
    (wholeFrames frame data).length = data.length - data.length % frame := by
  rw [wholeFrames, List.length_take, Nat.min_eq_left (Nat.div_mul_le_self _ _)]
  exact Nat.eq_sub_of_add_eq (Nat.div_add_mod' _ _)

end ZeusLe.Library.Riff
