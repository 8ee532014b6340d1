import Mathlib.Logic.Function.Basic
import ZeusLe.Errno
import ZeusLe.Library.Run

/-!
The sector cache in front of a disk, `disk_cache.c`. What a sector holds is left
open: the cache only copies it.
-/

namespace ZeusLe.DiskCache

open ZeusLe.Library.Run

universe u

variable {α : Type u}

structure DiskCacheEntry (α : Type u) where
  sector : UInt32
  data : α
  deriving DecidableEq, Repr

/-- The blocks of the memory slab, those of them that are free, and the others
from the least to the most recently used. -/
structure Cache (α : Type u) where
  entries : Nat → DiskCacheEntry α
  free : List Nat
  lruList : List Nat

def diskCacheFlush (c : Cache α) : Cache α where
  entries id := if id ∈ c.lruList then { c.entries id with sector := 0 } else c.entries id
  free := c.lruList.reverse ++ c.free
  lruList := []

def diskCacheLookup (sector : UInt32) (c : Cache α) : Option Nat :=
  c.lruList.find? fun id => (c.entries id).sector = sector

def diskCacheAdd (sector : UInt32) (data : α) (c : Cache α) : Cache α :=
  match c.free, c.lruList with
  | id :: free, lruList =>
      { entries := Function.update c.entries id ⟨sector, data⟩
        free := free
        lruList := lruList ++ [id] }
  | [], id :: lruList =>
      { entries := Function.update c.entries id ⟨sector, data⟩
        free := []
        lruList := lruList ++ [id] }
  -- a cache without any block, which the second assertion excludes
  | [], [] => c

def diskCacheBump (id : Nat) (c : Cache α) : Cache α :=
  { c with lruList := c.lruList.erase id ++ [id] }

/-- A buffer holds one sector at each position. `num` sectors from `start` on are
read to its positions from `offset` on. -/
def diskAccessRead (disk : UInt32 → α) (buff : Nat → α) (offset : Nat) (start num : UInt32) :
    Nat → α :=
  fun i => if offset ≤ i ∧ i < offset + num.toNat then disk (start + UInt32.ofNat (i - offset))
    else buff i

/-- The sectors at the positions `stored` are written. -/
def diskAccessWrite (disk : UInt32 → α) (stored : Nat → Bool) (data : Nat → α)
    (start num : UInt32) : UInt32 → α :=
  run (fun disk i =>
      if stored i then Function.update disk (start + UInt32.ofNat i) (data i) else disk) disk
    (List.range num.toNat)

/-- `ret` is what `disk_access_read` returns. -/
def diskCachePopulate (disk : UInt32 → α) (ret : Int) (buff : Nat → α) (offset : Nat)
    (start num : UInt32) (c : Cache α) : Int × (Nat → α) × Cache α :=
  if ret < 0 then (ret, buff, c)
  else
    let buff := diskAccessRead disk buff offset start num
    (0, buff,
      run (fun c i => diskCacheAdd (start + UInt32.ofNat i) (buff (offset + i)) c) c
        (List.range num.toNat))

/-- The variables of `disk_cache_access_read`. A negative `ret` has been returned. -/
structure ReadState (α : Type u) where
  ret : Int
  cacheMissStartSector : UInt32
  buff : Nat → α
  cache : Cache α

section Read

/-! `io` gives what `disk_access_read` returns for a start and a number of sectors. -/

variable (disk : UInt32 → α) (io : UInt32 → UInt32 → Int) (start : UInt32)

/-- The sectors missed so far are read, up to `sector`. -/
def populateMisses (sector : UInt32) (s : ReadState α) : ReadState α :=
  if s.cacheMissStartSector ≠ sector then
    let num := sector - s.cacheMissStartSector
    let (ret, buff, cache) :=
      diskCachePopulate disk (io s.cacheMissStartSector num) s.buff
        (s.cacheMissStartSector - start).toNat s.cacheMissStartSector num s.cache
    { s with ret := ret, buff := buff, cache := cache }
  else s

/-- The body of the loop. The entry is looked up before the misses are read, and
used after. -/
def readSector (s : ReadState α) (i : Nat) : ReadState α :=
  if s.ret < 0 then s
  else
    let sector := start + UInt32.ofNat i
    match diskCacheLookup sector s.cache with
    | none => s
    | some entry =>
        let s := populateMisses disk io start sector s
        if s.ret < 0 then s
        else
          { s with
            cacheMissStartSector := sector + 1
            buff := Function.update s.buff i (s.cache.entries entry).data
            cache := diskCacheBump entry s.cache }

def readBegin (buff : Nat → α) (c : Cache α) : ReadState α := ⟨0, start, buff, c⟩

def diskCacheAccessRead (buff : Nat → α) (num : UInt32) (c : Cache α) :
    Int × (Nat → α) × Cache α :=
  let s := run (readSector disk io start) (readBegin start buff c) (List.range num.toNat)
  let s := if s.ret < 0 then s else populateMisses disk io start (start + num) s
  (s.ret, s.buff, s.cache)

end Read

def writeSector (data : Nat → α) (start : UInt32) (c : Cache α) (i : Nat) : Cache α :=
  match diskCacheLookup (start + UInt32.ofNat i) c with
  | none => c
  | some id =>
      { c with entries := Function.update c.entries id { c.entries id with data := data i } }

/-- `ret` is what `disk_access_write` returns. When it fails it has written the
sectors at the positions `stored`. -/
def diskCacheAccessWrite (disk : UInt32 → α) (ret : Int) (stored : Nat → Bool) (data : Nat → α)
    (start num : UInt32) (c : Cache α) : Int × (UInt32 → α) × Cache α :=
  if ret < 0 then (ret, diskAccessWrite disk stored data start num, c)
  else
    (0, diskAccessWrite disk (fun _ => true) data start num,
      run (writeSector data start) c (List.range num.toNat))

inductive IoctlCmd where
  | ctrlInit
  | ctrlDeinit
  | other (cmd : UInt8)
  deriving DecidableEq, Repr

/-- `ret` and `size` are what the disk answers when asked for its sector size. -/
def diskCacheCheckConfig (sectorSize : UInt32) (ret : Int) (size : UInt32) : Int :=
  if ret < 0 then ret else if size ≠ sectorSize then -einval else 0

def diskCacheAccessIoctl (sectorSize : UInt32) (cmd : IoctlCmd) (ret sizeRet : Int)
    (size : UInt32) (c : Cache α) : Int × Cache α :=
  if ret < 0 then (ret, c)
  else
    match cmd with
    | .ctrlInit =>
        let ret := diskCacheCheckConfig sectorSize sizeRet size
        if ret < 0 then (ret, c) else (0, diskCacheFlush c)
    | .ctrlDeinit => (0, diskCacheFlush c)
    | .other _ => (0, c)

structure State (α : Type u) where
  disk : UInt32 → α
  cache : Cache α

/-- A call, with what the disk below returns to it. -/
inductive Call (α : Type u) where
  | read (io : UInt32 → UInt32 → Int) (buff : Nat → α) (start num : UInt32)
  | write (ret : Int) (stored : Nat → Bool) (data : Nat → α) (start num : UInt32)
  | ioctl (cmd : IoctlCmd) (ret sizeRet : Int) (size : UInt32)

def initial (capacity : Nat) (entries : Nat → DiskCacheEntry α) (disk : UInt32 → α) : State α :=
  ⟨disk, ⟨entries, List.range capacity, []⟩⟩

def step (sectorSize : UInt32) (s : State α) : Call α → State α
  | .read io buff start num =>
      { s with cache := (diskCacheAccessRead s.disk io start buff num s.cache).2.2 }
  | .write ret stored data start num =>
      let (_, disk, cache) := diskCacheAccessWrite s.disk ret stored data start num s.cache
      ⟨disk, cache⟩
  | .ioctl cmd ret sizeRet size =>
      { s with cache := (diskCacheAccessIoctl sectorSize cmd ret sizeRet size s.cache).2 }

end ZeusLe.DiskCache
