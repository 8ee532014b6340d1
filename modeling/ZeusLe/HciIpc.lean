import Mathlib.Data.Set.Subsingleton
import Mathlib.Logic.Function.Basic
import ZeusLe.Library.LittleEndian
import ZeusLe.Library.Log

/-!
The Bluetooth controller behind the other core, `hci_ipc.c`: messages of the host
become buffers for the controller, and buffers of the controller messages.
-/

namespace ZeusLe.HciIpc

open ZeusLe.Library.LittleEndian
open ZeusLe.Library.Log
open ZeusLe.Library.Run

inductive BtBufType where
  | cmd
  | evt
  | aclOut
  | aclIn
  | isoOut
  | isoIn
  | h4
  deriving DecidableEq, Repr

structure NetBuf where
  type : BtBufType
  data : List UInt8
  deriving DecidableEq, Repr

def hciIpcCmd : UInt8 := 0x01

def hciIpcAcl : UInt8 := 0x02

def hciIpcEvt : UInt8 := 0x04

def hciIpcIso : UInt8 := 0x05

/-- The buffers for the controller: how many of a type there are, and how many
bytes each takes. -/
structure Pools where
  count : BtBufType → Nat
  room : BtBufType → Nat

/-- What `rx_thread` does. -/
inductive RxThread where
  | waitBound
  | waitBuf
  | sending (buf : NetBuf) (retries : UInt8)
  deriving DecidableEq, Repr

/-- `controller` are the buffers that `bt_send` passed on, `given` what was in
them, `sent` the messages to the other core, and `released` how many of the
controller's own buffers went back to it. -/
structure Ipc where
  free : BtBufType → Nat
  txQueue : List NetBuf
  controller : List NetBuf
  given : List NetBuf
  bound : Bool
  rxQueue : List NetBuf
  rxThread : RxThread
  sent : List (List UInt8)
  released : Nat

def initial (pools : Pools) : Ipc :=
  ⟨pools.count, [], [], [], false, [], .waitBound, [], 0⟩

def netBufUnref (buf : NetBuf) (s : Ipc) : Ipc :=
  { s with free := Function.update s.free buf.type (s.free buf.type + 1) }

/-- With `K_NO_WAIT`: the header is in the buffer. -/
def btBufGetTx (pools : Pools) (type : BtBufType) (hdr : List UInt8) (s : Ipc) :
    Option NetBuf × Ipc :=
  if s.free type = 0 then (none, s)
  else if pools.room type < hdr.length then (none, s)
  else (some ⟨type, hdr⟩, { s with free := Function.update s.free type (s.free type - 1) })

/-- The common part of the functions below: `len` reads the length of the
payload from the header. -/
def recvPacket (pools : Pools) (type : BtBufType) (hdrLen : Nat) (len : List UInt8 → Nat)
    (data : List UInt8) (s : Ipc) : Option NetBuf × Ipc :=
  if data.length < hdrLen then (none, s)
  else
    let (buf, s) := btBufGetTx pools type (data.take hdrLen) s
    match buf with
    | none => (none, s)
    | some buf =>
        let remaining := data.length - hdrLen
        if remaining ≠ len (data.take hdrLen) then (none, netBufUnref buf s)
        else if remaining > pools.room type - buf.data.length then (none, netBufUnref buf s)
        else (some { buf with data := buf.data ++ data.drop hdrLen }, s)

/-- `param_len` of a command header. -/
def cmdLen (hdr : List UInt8) : Nat :=
  (hdr.getD 2 0).toNat

/-- `len` of an ACL header. -/
def aclLen (hdr : List UInt8) : Nat :=
  (getLe16 (hdr.getD 2 0) (hdr.getD 3 0)).toNat

/-- `bt_iso_hdr_len` of an ISO header. -/
def isoLen (hdr : List UInt8) : Nat :=
  (getLe16 (hdr.getD 2 0) (hdr.getD 3 0) &&& 0x3fff).toNat

section

variable (pools : Pools)

def hciIpcCmdRecv (data : List UInt8) (s : Ipc) : Option NetBuf × Ipc :=
  recvPacket pools .cmd 3 cmdLen data s

def hciIpcAclRecv (data : List UInt8) (s : Ipc) : Option NetBuf × Ipc :=
  recvPacket pools .aclOut 4 aclLen data s

def hciIpcIsoRecv (data : List UInt8) (s : Ipc) : Option NetBuf × Ipc :=
  recvPacket pools .isoOut 4 isoLen data s

def putReceived : Option NetBuf × Ipc → Ipc
  | (none, s) => s
  | (some buf, s) => { s with txQueue := s.txQueue ++ [buf] }

/-- A message has an indicator, whatever follows it. -/
def hciIpcRecv (pktIndicator : UInt8) (data : List UInt8) (s : Ipc) : Ipc :=
  if pktIndicator = hciIpcCmd then putReceived (hciIpcCmdRecv pools data s)
  else if pktIndicator = hciIpcAcl then putReceived (hciIpcAclRecv pools data s)
  else if pktIndicator = hciIpcIso then putReceived (hciIpcIsoRecv pools data s)
  else s

end

/-- The indicator of a buffer of the controller. -/
def indicator : BtBufType → Option UInt8
  | .aclIn => some hciIpcAcl
  | .evt => some hciIpcEvt
  | .isoIn => some hciIpcIso
  | _ => none

/-- `hci_ipc_send` up to its loop. -/
def startSend (buf : NetBuf) (s : Ipc) : Ipc :=
  match indicator buf.type with
  | some pktIndicator =>
      { s with rxThread := .sending { buf with data := pktIndicator :: buf.data } 0 }
  | none => { s with rxThread := .waitBuf, released := s.released + 1 }

/-- A round of the loop; `ret` is the result of `ipc_service_send`. -/
def sendAttempt (ret : Int) (buf : NetBuf) (retries : UInt8) (s : Ipc) : Ipc :=
  if ret < 0 then
    let retries := retries + 1
    { s with rxThread := .sending buf (if retries > 10 then 0 else retries) }
  else
    { s with
      rxThread := .waitBuf
      sent := s.sent ++ [buf.data]
      released := s.released + 1 }

/-- What `rx_thread` does next. -/
def rxThreadStep (ret : Int) (s : Ipc) : Ipc :=
  match s.rxThread with
  | .waitBound => if s.bound then { s with rxThread := .waitBuf } else s
  | .waitBuf =>
      match s.rxQueue with
      | [] => s
      | buf :: rxQueue => startSend buf { s with rxQueue := rxQueue }
  | .sending buf retries => sendAttempt ret buf retries s

/-- A round of `tx_thread`; `err` is the result of `bt_send`. -/
def txThreadRound (err : Int) (s : Ipc) : Ipc :=
  match s.txQueue with
  | [] => s
  | buf :: txQueue =>
      let s := { s with txQueue := txQueue }
      if err = 0 then
        { s with controller := s.controller ++ [buf], given := s.given ++ [buf] }
      else netBufUnref buf s

/-- A message, a step of a thread, the endpoint, and the controller: it puts a
buffer in the queue, and is done with the one at `index`. -/
inductive Event where
  | recv (pktIndicator : UInt8) (data : List UInt8)
  | txThread (err : Int)
  | bound
  | rxThread (ret : Int)
  | put (buf : NetBuf)
  | done (index : Nat)
  deriving DecidableEq, Repr

def step (pools : Pools) (s : Ipc) : Event → Ipc
  | .recv pktIndicator data => hciIpcRecv pools pktIndicator data s
  | .txThread err => txThreadRound err s
  | .bound => { s with bound := true }
  | .rxThread ret => rxThreadStep ret s
  | .put buf => { s with rxQueue := s.rxQueue ++ [buf] }
  | .done index =>
      match s.controller[index]? with
      | some buf => netBufUnref buf { s with controller := s.controller.eraseIdx index }
      | none => s

/-- A packet, with all of its data in it. -/
inductive Packet where
  | cmd (opcode : UInt16) (params : List UInt8) (h : params.length < 256)
  | acl (handle : UInt16) (payload : List UInt8) (h : payload.length < 65536)
  | iso (handle : UInt16) (flags : Fin 4) (payload : List UInt8) (h : payload.length < 16384)

def Packet.type : Packet → BtBufType
  | .cmd .. => .cmd
  | .acl .. => .aclOut
  | .iso .. => .isoOut

def Packet.indicator : Packet → UInt8
  | .cmd .. => hciIpcCmd
  | .acl .. => hciIpcAcl
  | .iso .. => hciIpcIso

/-- The bytes after the indicator. -/
def Packet.bytes : Packet → List UInt8
  | .cmd opcode params _ => putLe16 opcode ++ [UInt8.ofNat params.length] ++ params
  | .acl handle payload _ => putLe16 handle ++ putLe16 (UInt16.ofNat payload.length) ++ payload
  | .iso handle flags payload _ =>
      putLe16 handle ++ putLe16 (UInt16.ofNat (payload.length + 16384 * flags)) ++ payload

theorem unref_getTx {type : BtBufType} {s : Ipc} (hfree : s.free type ≠ 0) (data : List UInt8) :
    netBufUnref ⟨type, data⟩ { s with free := Function.update s.free type (s.free type - 1) } =
      s := by
  simp only [netBufUnref, Function.update_idem, Function.update_self, Nat.sub_one_add_one hfree,
    Function.update_eq_self]

theorem recvPacket_eq (pools : Pools) (type : BtBufType) (hdrLen : Nat) (len : List UInt8 → Nat)
    (data : List UInt8) (s : Ipc) :
    recvPacket pools type hdrLen len data s =
      if data.length = hdrLen + len (data.take hdrLen) ∧ 0 < s.free type ∧
          data.length ≤ pools.room type then
        (some ⟨type, data⟩, { s with free := Function.update s.free type (s.free type - 1) })
      else (none, s) := by
  rcases Nat.lt_or_ge data.length hdrLen with hshort | hlong
  · rw [recvPacket, if_pos hshort, if_neg (by omega)]
  have hhdr : (data.take hdrLen).length = hdrLen := by
    rw [List.length_take]
    omega
  rw [recvPacket, if_neg (Nat.not_lt.mpr hlong), btBufGetTx, hhdr]
  rcases Classical.em (s.free type = 0) with hfree | hfree
  · rw [if_pos hfree, if_neg (by omega)]
  rw [if_neg hfree]
  rcases Nat.lt_or_ge (pools.room type) hdrLen with hroom | hroom
  · rw [if_pos hroom, if_neg (by omega)]
  rw [if_neg (Nat.not_lt.mpr hroom)]
  simp only [hhdr, List.take_append_drop, unref_getTx hfree]
  split
  · rw [if_neg (by omega)]
  · split
    · rw [if_neg (by omega)]
    · rw [if_pos (by omega)]

/-- The buffer of a packet is taken from its pool and is the last one for the
controller. -/
def takePacket (p : Packet) (s : Ipc) : Ipc :=
  { s with
    free := Function.update s.free p.type (s.free p.type - 1)
    txQueue := s.txQueue ++ [⟨p.type, p.bytes⟩] }

def Accepts (pools : Pools) (s : Ipc) (p : Packet) : Prop :=
  0 < s.free p.type ∧ p.bytes.length ≤ pools.room p.type

theorem cmdLen_bytes (opcode : UInt16) (len : UInt8) (params : List UInt8) :
    cmdLen ((putLe16 opcode ++ [len] ++ params).take 3) = len.toNat :=
  rfl

theorem aclLen_bytes (handle len : UInt16) (payload : List UInt8) :
    aclLen ((putLe16 handle ++ putLe16 len ++ payload).take 4) = len.toNat :=
  congrArg UInt16.toNat (getLe16_putLe16 len)

theorem isoLen_bytes (handle len : UInt16) (payload : List UInt8) :
    isoLen ((putLe16 handle ++ putLe16 len ++ payload).take 4) = len.toNat % 16384 := by
  have hlen : isoLen ((putLe16 handle ++ putLe16 len ++ payload).take 4) =
      (len &&& 0x3fff).toNat :=
    congrArg (fun len : UInt16 => (len &&& 0x3fff).toNat) (getLe16_putLe16 len)
  rw [hlen, UInt16.toNat_and]
  exact Nat.and_two_pow_sub_one_eq_mod len.toNat 14

theorem exists_cmd_hdr {data : List UInt8} (h : 3 ≤ data.length) :
    ∃ opcode len params, data = putLe16 opcode ++ [len] ++ params := by
  match data, h with
  | b0 :: b1 :: len :: params, _ =>
      exact ⟨getLe16 b0 b1, len, params, by rw [putLe16_getLe16]; rfl⟩

theorem exists_data_hdr {data : List UInt8} (h : 4 ≤ data.length) :
    ∃ handle len payload, data = putLe16 handle ++ putLe16 len ++ payload := by
  match data, h with
  | b0 :: b1 :: b2 :: b3 :: payload, _ =>
      exact ⟨getLe16 b0 b1, getLe16 b2 b3, payload, by
        rw [putLe16_getLe16, putLe16_getLe16]; rfl⟩

theorem length_cmd_hdr (opcode : UInt16) (len : UInt8) (params : List UInt8) :
    (putLe16 opcode ++ [len] ++ params).length = 3 + params.length := by
  simp only [putLe16, List.length_append, List.length_cons, List.length_nil]

theorem length_data_hdr (handle len : UInt16) (payload : List UInt8) :
    (putLe16 handle ++ putLe16 len ++ payload).length = 4 + payload.length := by
  simp only [putLe16, List.length_append, List.length_cons, List.length_nil]

theorem cmdLen_iff (data : List UInt8) :
    data.length = 3 + cmdLen (data.take 3) ↔
      ∃ opcode params h, data = (Packet.cmd opcode params h).bytes := by
  constructor
  · intro h
    obtain ⟨opcode, len, params, rfl⟩ := exists_cmd_hdr (by omega : 3 ≤ data.length)
    rw [length_cmd_hdr, cmdLen_bytes, Nat.add_left_cancel_iff] at h
    refine ⟨opcode, params, h ▸ len.toNat_lt, ?_⟩
    rw [Packet.bytes, h, UInt8.ofNat_toNat]
  · rintro ⟨opcode, params, h, rfl⟩
    rw [Packet.bytes, length_cmd_hdr, cmdLen_bytes, UInt8.toNat_ofNat_of_lt' h]

theorem aclLen_iff (data : List UInt8) :
    data.length = 4 + aclLen (data.take 4) ↔
      ∃ handle payload h, data = (Packet.acl handle payload h).bytes := by
  constructor
  · intro h
    obtain ⟨handle, len, payload, rfl⟩ := exists_data_hdr (by omega : 4 ≤ data.length)
    rw [length_data_hdr, aclLen_bytes, Nat.add_left_cancel_iff] at h
    refine ⟨handle, payload, h ▸ len.toNat_lt, ?_⟩
    rw [Packet.bytes, h, UInt16.ofNat_toNat]
  · rintro ⟨handle, payload, h, rfl⟩
    rw [Packet.bytes, length_data_hdr, aclLen_bytes, UInt16.toNat_ofNat_of_lt' h]

theorem isoLen_iff (data : List UInt8) :
    data.length = 4 + isoLen (data.take 4) ↔
      ∃ handle flags payload h, data = (Packet.iso handle flags payload h).bytes := by
  constructor
  · intro h
    obtain ⟨handle, len, payload, rfl⟩ := exists_data_hdr (by omega : 4 ≤ data.length)
    rw [length_data_hdr, isoLen_bytes, Nat.add_left_cancel_iff] at h
    have hlen := len.toNat_lt
    refine ⟨handle, ⟨len.toNat / 16384, by omega⟩, payload, by omega, ?_⟩
    rw [Packet.bytes, h, Nat.mod_add_div, UInt16.ofNat_toNat]
  · rintro ⟨handle, flags, payload, h, rfl⟩
    have hflags := flags.isLt
    rw [Packet.bytes, length_data_hdr, isoLen_bytes,
      UInt16.toNat_ofNat_of_lt' (by change _ < 65536; omega), Nat.add_mul_mod_self_left,
      Nat.mod_eq_of_lt h]

/-- The packets of one type, behind the indicator of that type. -/
structure Decodes (pktIndicator : UInt8) (type : BtBufType) (hdrLen : Nat)
    (len : List UInt8 → Nat) : Prop where
  of_bytes : ∀ p : Packet, p.indicator = pktIndicator →
    p.type = type ∧ p.bytes.length = hdrLen + len (p.bytes.take hdrLen)
  exists_packet : ∀ data : List UInt8, data.length = hdrLen + len (data.take hdrLen) →
    ∃ p : Packet, p.indicator = pktIndicator ∧ p.type = type ∧ data = p.bytes

theorem decodes_cmd : Decodes hciIpcCmd .cmd 3 cmdLen where
  of_bytes p hp := by
    cases p with
    | cmd opcode params h => exact ⟨rfl, (cmdLen_iff _).mpr ⟨opcode, params, h, rfl⟩⟩
    | acl => cases hp
    | iso => cases hp
  exists_packet data h := by
    obtain ⟨opcode, params, hparams, rfl⟩ := (cmdLen_iff data).mp h
    exact ⟨.cmd opcode params hparams, rfl, rfl, rfl⟩

theorem decodes_acl : Decodes hciIpcAcl .aclOut 4 aclLen where
  of_bytes p hp := by
    cases p with
    | cmd => cases hp
    | acl handle payload h => exact ⟨rfl, (aclLen_iff _).mpr ⟨handle, payload, h, rfl⟩⟩
    | iso => cases hp
  exists_packet data h := by
    obtain ⟨handle, payload, hpayload, rfl⟩ := (aclLen_iff data).mp h
    exact ⟨.acl handle payload hpayload, rfl, rfl, rfl⟩

theorem decodes_iso : Decodes hciIpcIso .isoOut 4 isoLen where
  of_bytes p hp := by
    cases p with
    | cmd => cases hp
    | acl => cases hp
    | iso handle flags payload h =>
        exact ⟨rfl, (isoLen_iff _).mpr ⟨handle, flags, payload, h, rfl⟩⟩
  exists_packet data h := by
    obtain ⟨handle, flags, payload, hpayload, rfl⟩ := (isoLen_iff data).mp h
    exact ⟨.iso handle flags payload hpayload, rfl, rfl, rfl⟩

/-- What a call does with a message: it takes a packet that it has room for, and
nothing else. -/
def Takes (pools : Pools) (pktIndicator : UInt8) (data : List UInt8) (s s' : Ipc) : Prop :=
  (∃ p : Packet, p.indicator = pktIndicator ∧ data = p.bytes ∧ Accepts pools s p ∧
      s' = takePacket p s) ∨
    (s' = s ∧ ∀ p : Packet, p.indicator = pktIndicator → data = p.bytes → ¬ Accepts pools s p)

theorem takes_putReceived {pktIndicator : UInt8} {type : BtBufType} {hdrLen : Nat}
    {len : List UInt8 → Nat} (h : Decodes pktIndicator type hdrLen len) (pools : Pools)
    (data : List UInt8) (s : Ipc) :
    Takes pools pktIndicator data s
      (putReceived (recvPacket pools type hdrLen len data s)) := by
  rw [recvPacket_eq]
  split
  · rename_i htaken
    obtain ⟨hlen, hfree, hroom⟩ := htaken
    obtain ⟨p, hp, rfl, rfl⟩ := h.exists_packet data hlen
    exact Or.inl ⟨p, hp, rfl, ⟨hfree, hroom⟩, rfl⟩
  · rename_i hrefused
    refine Or.inr ⟨rfl, ?_⟩
    rintro p hp rfl haccepts
    obtain ⟨rfl, hlen⟩ := h.of_bytes p hp
    exact hrefused ⟨hlen, haccepts⟩

theorem packet_indicator (p : Packet) :
    p.indicator = hciIpcCmd ∨ p.indicator = hciIpcAcl ∨ p.indicator = hciIpcIso := by
  cases p with
  | cmd => exact Or.inl rfl
  | acl => exact Or.inr (Or.inl rfl)
  | iso => exact Or.inr (Or.inr rfl)

theorem hciIpcRecv_takes (pools : Pools) (pktIndicator : UInt8) (data : List UInt8) (s : Ipc) :
    Takes pools pktIndicator data s (hciIpcRecv pools pktIndicator data s) := by
  rw [hciIpcRecv]
  split
  · rename_i hcmd
    exact hcmd ▸ takes_putReceived decodes_cmd pools data s
  split
  · rename_i hacl
    exact hacl ▸ takes_putReceived decodes_acl pools data s
  split
  · rename_i hiso
    exact hiso ▸ takes_putReceived decodes_iso pools data s
  · rename_i hcmd hacl hiso
    refine Or.inr ⟨rfl, ?_⟩
    rintro p rfl
    rcases packet_indicator p with h | h | h
    · exact absurd h hcmd
    · exact absurd h hacl
    · exact absurd h hiso

theorem putLe16_inj {v w : UInt16} (h : putLe16 v = putLe16 w) : v = w := by
  rw [← getLe16_putLe16 v, ← getLe16_putLe16 w, (List.cons.inj h).1,
    (List.cons.inj (List.cons.inj h).2).1]

theorem data_hdr_inj {handle len handle' len' : UInt16} {payload payload' : List UInt8}
    (h : putLe16 handle ++ putLe16 len ++ payload = putLe16 handle' ++ putLe16 len' ++ payload') :
    handle = handle' ∧ len = len' ∧ payload = payload' := by
  obtain ⟨hhdr, hpayload⟩ := List.append_inj h rfl
  obtain ⟨hhandle, hlen⟩ := List.append_inj hhdr rfl
  exact ⟨putLe16_inj hhandle, putLe16_inj hlen, hpayload⟩

theorem Packet.eq_of_message {p q : Packet} (hindicator : p.indicator = q.indicator)
    (hbytes : p.bytes = q.bytes) : p = q := by
  cases p with
  | cmd opcode params h =>
      cases q with
      | cmd opcode' params' h' =>
          obtain ⟨hhdr, rfl⟩ := List.append_inj hbytes rfl
          obtain ⟨hopcode, -⟩ := List.append_inj hhdr rfl
          obtain rfl := putLe16_inj hopcode
          rfl
      | acl => cases hindicator
      | iso => cases hindicator
  | acl handle payload h =>
      cases q with
      | cmd => cases hindicator
      | acl handle' payload' h' =>
          obtain ⟨rfl, -, rfl⟩ := data_hdr_inj hbytes
          rfl
      | iso => cases hindicator
  | iso handle flags payload h =>
      cases q with
      | cmd => cases hindicator
      | acl => cases hindicator
      | iso handle' flags' payload' h' =>
          obtain ⟨rfl, hlen, rfl⟩ := data_hdr_inj hbytes
          have hlt := flags.isLt
          have hlt' := flags'.isLt
          have htoNat := congrArg UInt16.toNat hlen
          rw [UInt16.toNat_ofNat_of_lt' (by change _ < 65536; omega),
            UInt16.toNat_ofNat_of_lt' (by change _ < 65536; omega)] at htoNat
          have hflags : flags = flags' := by
            apply Fin.ext
            omega
          rw [hflags]

/-- Whatever the host sends, its message is taken exactly when it is a packet for
which its pool has a buffer, and the controller then gets the bytes of the one
packet that it is. -/
theorem message_decodes (pools : Pools) (pktIndicator : UInt8) (data : List UInt8) (s : Ipc) :
    Takes pools pktIndicator data s (hciIpcRecv pools pktIndicator data s) ∧
      Set.Subsingleton {p : Packet | p.indicator = pktIndicator ∧ data = p.bytes} := by
  refine ⟨hciIpcRecv_takes pools pktIndicator data s, ?_⟩
  rintro p ⟨hp, hpdata⟩ q ⟨hq, hqdata⟩
  exact Packet.eq_of_message (hp.trans hq.symm) (hpdata.symm.trans hqdata)

end ZeusLe.HciIpc
