import ZeusLe.SyncTimer

/-! What a node does with the advertising data of the central, `mgr.cpp`. -/

namespace ZeusLe.Mgr

open ZeusLe.Library.LittleEndian
open ZeusLe.Protocol
open ZeusLe.SyncTimer

def mgrParseAdvData (adv : BtData) : Option ZeusAdvData :=
  if adv.type ≠ btDataManufacturerData then none
  else if adv.data.length < advHeaderSize then none
  else if adv.data.length > advDataSize then none
  else
    match splitHeader adv.data with
    | none => none
    | some (hdr, []) => some ⟨hdr, .none⟩
    | some (hdr, id :: arg) =>
        if id = 0 then if arg.length ≠ 0 then none else some ⟨hdr, .none⟩
        else if id = 2 then if arg.length ≠ 0 then none else some ⟨hdr, .stop⟩
        else if id = 1 then
          match arg with
          | [t0, t1, t2, t3] => some ⟨hdr, .start (getLe32 t0 t1 t2 t3)⟩
          | _ => none
        else none

theorem mgrParseAdvData_btData (data : ZeusAdvData) :
    mgrParseAdvData data.btData = some data := by
  obtain ⟨hlow, hhigh⟩ := length_bytes_le data
  have hshort := Nat.not_lt.mpr hlow
  have hlong := Nat.not_lt.mpr hhigh
  simp only [mgrParseAdvData, ZeusAdvData.btData, ne_eq, not_true_eq_false, if_false,
    hshort, hlong]
  simp only [ZeusAdvData.bytes, splitHeader_bytes]
  rcases data with ⟨hdr, _ | time | _⟩
  · rfl
  · simp only [ZeusAdvCmd.bytes, putLe32, getLe32_putLe32]
    rfl
  · rfl

inductive RecordCall where
  | start (time : UInt32)
  | stop
  deriving DecidableEq, Repr

structure MgrState where
  lastCmdSeq : UInt16
  timer : TimerState
  deriving DecidableEq, Repr

def mgrInitial : MgrState := ⟨0, timerInitial⟩

def ZeusAdvCmd.call : ZeusAdvCmd → Option RecordCall
  | .none => none
  | .start time => some (.start time)
  | .stop => some .stop

def mgrHandleAdvData (time : UInt32) (data : ZeusAdvData) (m : MgrState) :
    Option RecordCall × MgrState :=
  let m := { m with timer := syncTimerRecvAdv time data.hdr.sync m.timer }
  if data.hdr.seq = m.lastCmdSeq then (none, m)
  else (ZeusAdvCmd.call data.cmd, { m with lastCmdSeq := data.hdr.seq })

/-- A packet is received at the local time `time`; data that does not parse is
left out. -/
def mgrReceive (time : UInt32) (adv : BtData) (m : MgrState) : Option RecordCall × MgrState :=
  match mgrParseAdvData adv with
  | none => (none, m)
  | some data => mgrHandleAdvData time data m

/-- A structure of the advertising data, whose `data_len` has eight bits. -/
abbrev ScanData := { data : BtData // data.data.length < 256 }

def ScanData.dataLen (data : ScanData) : UInt8 :=
  UInt8.ofNat data.val.data.length

theorem index_mod {i : UInt8} (hi : i % 16 = 0) : (i + 16) % 16 = 0 := by
  rw [← UInt8.toNat_inj] at hi ⊢
  simp only [UInt8.toNat_mod, UInt8.toNat_add] at hi ⊢
  have h16 : (16 : UInt8).toNat = 16 := rfl
  have h0 : (0 : UInt8).toNat = 0 := rfl
  rw [h16, h0] at hi ⊢
  omega

theorem index_next {i n : UInt8} (hn : n % 16 = 0) (hi : i % 16 = 0) (h : i < n) :
    (i + 16).toNat = i.toNat + 16 ∧ i.toNat + 16 ≤ n.toNat := by
  rw [UInt8.lt_iff_toNat_lt] at h
  rw [← UInt8.toNat_inj] at hi hn
  have hbound := n.toNat_lt
  simp only [UInt8.toNat_mod, UInt8.toNat_add] at hi hn ⊢
  have h16 : (16 : UInt8).toNat = 16 := rfl
  have h0 : (0 : UInt8).toNat = 0 := rfl
  rw [h16, h0] at hi hn
  rw [h16]
  omega

/-- The loop of `match_central_uuid` over a structure, from its index `i` on.
Every round copies the UUID at the front of the data. -/
def matchLoop (data : List UInt8) (dataLen : UInt8) (hlen : dataLen % 16 = 0) (i : UInt8)
    (hi : i % 16 = 0) : Bool :=
  if _h : i < dataLen then
    if data.take 16 ≠ zeusBtUuidVal then
      matchLoop data dataLen hlen (i + 16) (index_mod hi)
    else true
  else false
termination_by dataLen.toNat - i.toNat
decreasing_by
  have hnext := index_next hlen hi _h
  omega

/-- The lambda `match_central_uuid`: whether parsing goes on, and `*matched`. -/
def matchCentralUuid (data : ScanData) (matched : Bool) : Bool × Bool :=
  if data.val.type = btDataUuid128Some ∨ data.val.type = btDataUuid128All then
    if hlen : data.dataLen % 16 = 0 then
      if matchLoop data.val.data data.dataLen hlen 0 rfl then (false, true) else (true, matched)
    else (true, matched)
  else (true, matched)

/-- `bt_data_parse` on the structures of a buffer: `func` is called for one after
the other until it returns false. -/
def btDataParse {α : Type} : List ScanData → (ScanData → α → Bool × α) → α → α
  | [], _, userData => userData
  | data :: rest, func, userData =>
      let (more, userData) := func data userData
      if more then btDataParse rest func userData else userData

/-- Whether `mgr_scan_for_central` ends with a report. -/
def acceptsCentral {Buf : Type} (parse : Buf → (ScanData → Bool → Bool × Bool) → Bool → Bool)
    (connectable : Bool) (buf : Buf) : Bool :=
  if !connectable then false else parse buf matchCentralUuid false

end ZeusLe.Mgr
