import ZeusLe.CentralSync
import ZeusLe.Mgr

/-!
The advertising data in the memory of the central and of a node: what
`sync_adv_update_data` sends of its struct, and what `mgr_parse_adv_data` makes of
the bytes that a node receives.
-/

namespace ZeusLe.AdvCodec

open ZeusLe.Library.LittleEndian
open ZeusLe.Protocol
open ZeusLe.CentralSync
open ZeusLe.Mgr

/-- The memory of a `struct zeus_adv_data`. -/
abbrev AdvMemory := Vector UInt8 advDataSize

def zeusAdvCmdNone : UInt8 := 0
def zeusAdvCmdStart : UInt8 := 1
def zeusAdvCmdStop : UInt8 := 2

def idSize : Nat := 1

def startSize : Nat := 4

def memcpy (mem : AdvMemory) (bytes : List UInt8) : AdvMemory :=
  Vector.ofFn fun i => bytes.getD i mem[i]

def advHdr (mem : AdvMemory) : ZeusAdvHeader :=
  ⟨⟨mem[0], getLe32 mem[1] mem[2] mem[3] mem[4]⟩, getLe16 mem[5] mem[6]⟩

def advCmdId (mem : AdvMemory) : UInt8 :=
  mem[7]

/-- The command with the member of the union that the id selects. -/
def advCmd (mem : AdvMemory) : ZeusAdvCmd :=
  if advCmdId mem = zeusAdvCmdStart then .start (getLe32 mem[8] mem[9] mem[10] mem[11])
  else if advCmdId mem = zeusAdvCmdStop then .stop
  else .none

/-- What `mgr_handle_adv_data` reads. -/
def advFields (mem : AdvMemory) : ZeusAdvData :=
  ⟨advHdr mem, advCmd mem⟩

/-- The end of `sync_adv_update_data`. -/
def syncAdvSend (mem : AdvMemory) : BtData :=
  let (id, cmdLen) :=
    if advCmdId mem = zeusAdvCmdStart then (zeusAdvCmdStart, startSize)
    else if advCmdId mem = zeusAdvCmdStop then (zeusAdvCmdStop, 0)
    else (zeusAdvCmdNone, 0)
  let mem : AdvMemory := mem.set 7 id
  let len := advHeaderSize + (if id = zeusAdvCmdNone then 0 else idSize + cmdLen)
  ⟨btDataManufacturerData, mem.toList.take len⟩

/-- `mgr_parse_adv_data` with the struct that it fills in, which is not
initialised before. The checks in front of the differences keep these from going
below zero. -/
def mgrParseAdvMemory (adv : BtData) (mem : AdvMemory) : Bool × AdvMemory :=
  if adv.type ≠ btDataManufacturerData then (false, mem)
  else
    let len := adv.data.length
    if len < advHeaderSize then (false, mem)
    else if len > advDataSize then (false, mem)
    else
      let mem := memcpy mem adv.data
      let bodyLen := len - advHeaderSize
      if bodyLen = 0 then
        (true, ((((mem.set 7 zeusAdvCmdNone).set 8 0).set 9 0).set 10 0).set 11 0)
      else
        let cmdLen := bodyLen - idSize
        if advCmdId mem = zeusAdvCmdNone ∨ advCmdId mem = zeusAdvCmdStop then (cmdLen = 0, mem)
        else if advCmdId mem = zeusAdvCmdStart then (cmdLen = startSize, mem)
        else (false, mem)

theorem exists_memory (mem : AdvMemory) :
    ∃ b0 b1 b2 b3 b4 b5 b6 b7 b8 b9 b10 b11,
      mem = #v[b0, b1, b2, b3, b4, b5, b6, b7, b8, b9, b10, b11] := by
  obtain ⟨⟨bytes⟩, hsize⟩ := mem
  match bytes, hsize with
  | [b0, b1, b2, b3, b4, b5, b6, b7, b8, b9, b10, b11], _ =>
      exact ⟨b0, b1, b2, b3, b4, b5, b6, b7, b8, b9, b10, b11, rfl⟩

section

variable (b0 b1 b2 b3 b4 b5 b6 id b8 b9 b10 b11 : UInt8)

theorem advFields_bytes :
    advFields #v[b0, b1, b2, b3, b4, b5, b6, id, b8, b9, b10, b11] =
      ⟨⟨⟨b0, getLe32 b1 b2 b3 b4⟩, getLe16 b5 b6⟩,
        if id = zeusAdvCmdStart then .start (getLe32 b8 b9 b10 b11)
        else if id = zeusAdvCmdStop then .stop else .none⟩ :=
  rfl

theorem bytes_hdr :
    ZeusAdvHeader.bytes ⟨⟨b0, getLe32 b1 b2 b3 b4⟩, getLe16 b5 b6⟩ =
      [b0, b1, b2, b3, b4, b5, b6] := by
  simp only [ZeusAdvHeader.bytes, putLe32_getLe32, putLe16_getLe16, List.cons_append,
    List.nil_append]

end

theorem syncAdvSend_eq (mem : AdvMemory) : syncAdvSend mem = (advFields mem).btData := by
  obtain ⟨b0, b1, b2, b3, b4, b5, b6, id, b8, b9, b10, b11, rfl⟩ := exists_memory mem
  have hid : advCmdId #v[b0, b1, b2, b3, b4, b5, b6, id, b8, b9, b10, b11] = id := rfl
  rw [advFields_bytes]
  simp only [syncAdvSend, ZeusAdvData.btData, ZeusAdvData.bytes, bytes_hdr, hid]
  rcases Classical.em (id = zeusAdvCmdStart) with rfl | hstart
  · simp only [if_true, ZeusAdvCmd.bytes, putLe32_getLe32]
    rfl
  · rcases Classical.em (id = zeusAdvCmdStop) with rfl | hstop
    · rfl
    · simp only [if_neg hstart, if_neg hstop, if_true, ZeusAdvCmd.bytes]
      rfl

theorem advFields_surjective (data : ZeusAdvData) : ∃ mem, advFields mem = data := by
  obtain ⟨⟨⟨seq, prevTime⟩, cmdSeq⟩, cmd⟩ := data
  have hfields := advFields_bytes seq prevTime.toUInt8 (prevTime >>> 8).toUInt8
    (prevTime >>> 16).toUInt8 (prevTime >>> 24).toUInt8 cmdSeq.toUInt8 (cmdSeq >>> 8).toUInt8
  simp only [getLe32_putLe32, getLe16_putLe16] at hfields
  cases cmd with
  | none => exact ⟨_, hfields zeusAdvCmdNone 0 0 0 0⟩
  | start time =>
      refine ⟨_, (hfields zeusAdvCmdStart time.toUInt8 (time >>> 8).toUInt8 (time >>> 16).toUInt8
        (time >>> 24).toUInt8).trans ?_⟩
      rw [if_pos rfl, getLe32_putLe32]
  | stop => exact ⟨_, hfields zeusAdvCmdStop 0 0 0 0⟩

theorem exists_body {bytes : List UInt8} (h : advHeaderSize ≤ bytes.length) :
    ∃ b0 b1 b2 b3 b4 b5 b6 body,
      bytes = b0 :: b1 :: b2 :: b3 :: b4 :: b5 :: b6 :: body := by
  match bytes, h with
  | b0 :: b1 :: b2 :: b3 :: b4 :: b5 :: b6 :: body, _ =>
      exact ⟨b0, b1, b2, b3, b4, b5, b6, body, rfl⟩

theorem memcpy_get (mem : AdvMemory) (bytes : List UInt8) {i : Nat} (hi : i < advDataSize) :
    (memcpy mem bytes)[i] = bytes.getD i mem[i] := by
  simp only [memcpy, Vector.getElem_ofFn, Fin.getElem_fin]

section

variable (mem : AdvMemory) (b0 b1 b2 b3 b4 b5 b6 id : UInt8) (body : List UInt8)

theorem advHdr_memcpy :
    advHdr (memcpy mem (b0 :: b1 :: b2 :: b3 :: b4 :: b5 :: b6 :: body)) =
      ⟨⟨b0, getLe32 b1 b2 b3 b4⟩, getLe16 b5 b6⟩ := by
  simp only [advHdr, memcpy_get]
  rfl

theorem advCmdId_memcpy :
    advCmdId (memcpy mem (b0 :: b1 :: b2 :: b3 :: b4 :: b5 :: b6 :: id :: body)) = id := by
  simp only [advCmdId, memcpy_get]
  rfl

theorem advFields_memcpy :
    advFields (memcpy mem (b0 :: b1 :: b2 :: b3 :: b4 :: b5 :: b6 :: id :: body)) =
      ⟨⟨⟨b0, getLe32 b1 b2 b3 b4⟩, getLe16 b5 b6⟩,
        if id = zeusAdvCmdStart then
          .start (getLe32 (body.getD 0 mem[8]) (body.getD 1 mem[9]) (body.getD 2 mem[10])
            (body.getD 3 mem[11]))
        else if id = zeusAdvCmdStop then .stop else .none⟩ := by
  simp only [advFields, advHdr_memcpy, advCmd, advCmdId_memcpy, memcpy_get]
  rfl

end

theorem advFields_clear (mem : AdvMemory) :
    advFields (((((mem.set 7 zeusAdvCmdNone).set 8 0).set 9 0).set 10 0).set 11 0) =
      ⟨advHdr mem, .none⟩ := by
  obtain ⟨b0, b1, b2, b3, b4, b5, b6, id, b8, b9, b10, b11, rfl⟩ := exists_memory mem
  rfl

theorem mgrParseAdvMemory_eq (adv : BtData) (mem : AdvMemory) :
    (if (mgrParseAdvMemory adv mem).1 then some (advFields (mgrParseAdvMemory adv mem).2)
      else none) = mgrParseAdvData adv := by
  simp only [mgrParseAdvMemory, mgrParseAdvData]
  split
  · rfl
  · split
    · rfl
    · rename_i hshort
      split
      · rfl
      · rename_i hlong
        obtain ⟨b0, b1, b2, b3, b4, b5, b6, body, hdata⟩ := exists_body (Nat.not_lt.mp hshort)
        have hlen : adv.data.length - advHeaderSize = body.length := by
          simp only [hdata, advHeaderSize, List.length_cons]
          omega
        rw [hlen, hdata]
        rcases body with _ | ⟨id, arg⟩
        · rw [if_pos List.length_nil]
          simp only [advFields_clear, advHdr_memcpy, if_true, splitHeader]
        · have hne : (id :: arg).length ≠ 0 := Nat.succ_ne_zero _
          have hcmdLen : (id :: arg).length - idSize = arg.length := rfl
          rw [if_neg hne, hcmdLen]
          simp only [advCmdId_memcpy, splitHeader]
          rcases Classical.em (id = zeusAdvCmdNone) with rfl | hnone
          · rw [if_pos (Or.inl rfl)]
            simp only [advFields_memcpy]
            rcases arg with _ | ⟨a0, arg⟩
            · rfl
            · rfl
          · rcases Classical.em (id = zeusAdvCmdStop) with rfl | hstop
            · rw [if_pos (Or.inr rfl)]
              simp only [advFields_memcpy]
              rcases arg with _ | ⟨a0, arg⟩
              · rfl
              · rfl
            · rcases Classical.em (id = zeusAdvCmdStart) with rfl | hstart
              · rw [if_neg (not_or.mpr ⟨hnone, hstop⟩), if_pos rfl]
                simp only [advFields_memcpy]
                rcases arg with _ | ⟨a0, _ | ⟨a1, _ | ⟨a2, _ | ⟨a3, _ | ⟨a4, arg⟩⟩⟩⟩⟩
                · rfl
                · rfl
                · rfl
                · rfl
                · rfl
                · have hlong : (a0 :: a1 :: a2 :: a3 :: a4 :: arg).length ≠ startSize := by
                    simp only [List.length_cons, startSize]
                    omega
                  simp only [hlong]
                  rfl
              · have hunknown : ¬ (id = zeusAdvCmdNone ∨ id = zeusAdvCmdStop) :=
                  not_or.mpr ⟨hnone, hstop⟩
                have hnone' : id ≠ 0 := hnone
                have hstop' : id ≠ 2 := hstop
                have hstart' : id ≠ 1 := hstart
                rw [if_neg hunknown, if_neg hstart, if_neg hnone', if_neg hstop', if_neg hstart']
                rfl

/-- The header with an explicit byte for no command, which the central never sends. -/
def explicitNone (hdr : ZeusAdvHeader) : BtData :=
  ⟨btDataManufacturerData, hdr.bytes ++ [zeusAdvCmdNone]⟩

theorem mgrParseAdvData_explicitNone (hdr : ZeusAdvHeader) :
    mgrParseAdvData (explicitNone hdr) = some ⟨hdr, .none⟩ := by
  simp only [mgrParseAdvData, explicitNone, splitHeader_bytes]
  rfl

theorem mgrParseAdvData_some {adv : BtData} {data : ZeusAdvData}
    (h : mgrParseAdvData adv = some data) :
    adv = data.btData ∨ (data.cmd = .none ∧ adv = explicitNone data.hdr) := by
  obtain ⟨type, bytes⟩ := adv
  simp only [mgrParseAdvData] at h
  split at h
  · cases h
  · rename_i htype
    obtain rfl := not_not.mp htype
    split at h
    · cases h
    · rename_i hshort
      split at h
      · cases h
      · obtain ⟨b0, b1, b2, b3, b4, b5, b6, body, rfl⟩ := exists_body (Nat.not_lt.mp hshort)
        have hhdr := bytes_hdr b0 b1 b2 b3 b4 b5 b6
        rcases body with _ | ⟨id, arg⟩
        · cases h
          refine Or.inl ?_
          rw [ZeusAdvData.btData, ZeusAdvData.bytes, hhdr]
          rfl
        · simp only [splitHeader] at h
          split at h
          · rename_i hid
            subst hid
            split at h
            · cases h
            · rename_i harg
              obtain rfl := List.length_eq_zero_iff.mp (not_not.mp harg)
              cases h
              refine Or.inr ⟨rfl, ?_⟩
              rw [explicitNone, hhdr]
              rfl
          · split at h
            · rename_i hid
              subst hid
              split at h
              · cases h
              · rename_i harg
                obtain rfl := List.length_eq_zero_iff.mp (not_not.mp harg)
                cases h
                refine Or.inl ?_
                rw [ZeusAdvData.btData, ZeusAdvData.bytes, hhdr]
                rfl
            · split at h
              · rename_i hid
                subst hid
                split at h
                · cases h
                  refine Or.inl ?_
                  rw [ZeusAdvData.btData, ZeusAdvData.bytes, hhdr, ZeusAdvCmd.bytes,
                    putLe32_getLe32]
                  rfl
                · cases h
              · cases h

theorem mgrParseAdvData_iff (adv : BtData) (data : ZeusAdvData) :
    mgrParseAdvData adv = some data ↔
      adv = data.btData ∨ (data.cmd = .none ∧ adv = explicitNone data.hdr) := by
  refine ⟨mgrParseAdvData_some, ?_⟩
  rintro (rfl | ⟨hnone, rfl⟩)
  · exact mgrParseAdvData_btData data
  · rw [mgrParseAdvData_explicitNone, ← hnone]

theorem mgrParseAdvMemory_some_iff (adv : BtData) (mem : AdvMemory) (data : ZeusAdvData) :
    mgrParseAdvData adv = some data ↔
      (mgrParseAdvMemory adv mem).1 = true ∧ advFields (mgrParseAdvMemory adv mem).2 = data := by
  rw [← mgrParseAdvMemory_eq adv mem]
  split
  · rename_i haccepted
    rw [Option.some.injEq, haccepted]
    exact ⟨fun h => ⟨rfl, h⟩, fun h => h.2⟩
  · rename_i hrefused
    constructor
    · intro h
      cases h
    · rintro ⟨haccepted, -⟩
      exact absurd haccepted hrefused

theorem mgrParseAdvMemory_update (s : SyncData) (mem : AdvMemory) :
    (mgrParseAdvMemory (syncAdvUpdateData s).1 mem).1 = true ∧
      advFields (mgrParseAdvMemory (syncAdvUpdateData s).1 mem).2 =
        (syncAdvUpdateData s).2.advData :=
  (mgrParseAdvMemory_some_iff _ mem _).mp (mgrParseAdvData_btData _)

/-- A node reads from what the central sends what the central's struct says. It
accepts nothing else but an explicit byte for no command, and reads only what it
has received. -/
theorem advCodec_correct :
    (∀ sent mem : AdvMemory, (mgrParseAdvMemory (syncAdvSend sent) mem).1 = true ∧
      advFields (mgrParseAdvMemory (syncAdvSend sent) mem).2 = advFields sent) ∧
    (∀ data, ∃ sent, advFields sent = data) ∧
    (∀ (adv : BtData) (mem : AdvMemory), (mgrParseAdvMemory adv mem).1 = true →
      (∃ sent, adv = syncAdvSend sent) ∨ ∃ hdr, adv = explicitNone hdr) ∧
    (∀ (adv : BtData) (mem mem' : AdvMemory), (mgrParseAdvMemory adv mem).1 = true →
      (mgrParseAdvMemory adv mem').1 = true ∧
        advFields (mgrParseAdvMemory adv mem').2 = advFields (mgrParseAdvMemory adv mem).2) := by
  refine ⟨?_, advFields_surjective, ?_, ?_⟩
  · intro sent mem
    apply (mgrParseAdvMemory_some_iff _ mem _).mp
    rw [syncAdvSend_eq]
    exact mgrParseAdvData_btData _
  · intro adv mem haccepted
    have hparsed := (mgrParseAdvMemory_some_iff adv mem _).mpr ⟨haccepted, rfl⟩
    rcases (mgrParseAdvData_iff adv _).mp hparsed with hadv | ⟨-, hadv⟩
    · exact Or.inl ⟨_, hadv.trans (syncAdvSend_eq _).symm⟩
    · exact Or.inr ⟨_, hadv⟩
  · intro adv mem mem' haccepted
    have hparsed := (mgrParseAdvMemory_some_iff adv mem _).mpr ⟨haccepted, rfl⟩
    exact (mgrParseAdvMemory_some_iff adv mem' _).mp hparsed

end ZeusLe.AdvCodec
