import ZeusLe.Errno
import ZeusLe.Library.Segments

/-!
Reading a line of the control connection, `lftpd_inet.c`. The buffer is cleared
once; a line that does not fit is read over its own beginning.
-/

namespace ZeusLe.FtpLine

open ZeusLe.Library.Segments

abbrev Bytes := List UInt8

def cr : UInt8 := 13

def lf : UInt8 := 10

/-- `recv` into the buffer from `off` on. -/
def store (buffer : Bytes) (off : Nat) (bytes : Bytes) : Bytes :=
  buffer.take off ++ bytes ++ buffer.drop (off + bytes.length)

/-- `strstr(buffer, "\r\n")`. -/
def crlfIndex : Bytes → Option Nat
  | [] => none
  | b :: bytes =>
      if b = 0 then none
      else if b = cr ∧ bytes.head? = some lf then some 0
      else (crlfIndex bytes).map (· + 1)

structure LineRead where
  ret : Int
  buffer : Bytes
  /-- What has not been received. -/
  segs : List Bytes
  deriving DecidableEq, Repr

/-- The loop of `lftpd_inet_read_line`. Every round receives a byte or returns,
so that the fuel is never used up. -/
def readLoop (bufferLen : Nat) : Nat → Bytes → Nat → Bool → List Bytes → LineRead
  | 0, buffer, _, _, segs => ⟨-econnreset, buffer, segs⟩
  | fuel + 1, buffer, totalReadLen, overflow, segs =>
      let (bytes, segs) := recv (bufferLen - totalReadLen - 1) segs
      if bytes = [] then ⟨-econnreset, buffer, segs⟩
      else
        let buffer := store buffer totalReadLen bytes
        let totalReadLen := totalReadLen + bytes.length
        match crlfIndex buffer with
        | some p =>
            if overflow then ⟨-eoverflow, buffer, segs⟩
            else ⟨totalReadLen, buffer.set p 0, segs⟩
        | none =>
            if totalReadLen = bufferLen - 1 then
              if buffer.getD (totalReadLen - 1) 0 = cr then
                readLoop bufferLen fuel ((buffer.set 0 cr).set 1 0) 1 true segs
              else readLoop bufferLen fuel (buffer.set 0 0) 0 true segs
            else readLoop bufferLen fuel buffer totalReadLen overflow segs

def lftpdInetReadLine (buffer : Bytes) (segs : List Bytes) : LineRead :=
  if buffer.length < 2 then ⟨-einval, buffer, segs⟩
  else
    readLoop buffer.length (segs.flatten.length + 1) (List.replicate buffer.length 0) 0 false segs

theorem store_length {buffer bytes : Bytes} {off : Nat}
    (h : off + bytes.length ≤ buffer.length) : (store buffer off bytes).length = buffer.length := by
  simp only [store, List.length_append, List.length_take, List.length_drop]
  omega

theorem readLoop_length {bufferLen total : Nat} {buffer : Bytes} (hbuffer : buffer.length = bufferLen)
    (htotal : total < bufferLen) (fuel : Nat) (overflow : Bool) (segs : List Bytes) :
    (readLoop bufferLen fuel buffer total overflow segs).buffer.length = bufferLen := by
  induction fuel generalizing buffer total overflow segs with
  | zero => exact hbuffer
  | succ fuel ih =>
      simp only [readLoop]
      obtain ⟨bytes, rest, hrecv⟩ :
          ∃ bytes rest, recv (bufferLen - total - 1) segs = (bytes, rest) := ⟨_, _, rfl⟩
      have hle := recv_length_le (bufferLen - total - 1) segs
      simp only [hrecv] at hle ⊢
      have hstore : (store buffer total bytes).length = bufferLen := by
        rw [store_length (by omega), hbuffer]
      split
      · exact hbuffer
      · rename_i hne
        have hpos := List.length_pos_of_ne_nil hne
        split
        · split
          · exact hstore
          · rw [List.length_set, hstore]
        · split
          · split
            · refine ih ?_ ?_ _ _
              · rw [List.length_set, List.length_set, hstore]
              · omega
            · refine ih ?_ ?_ _ _
              · rw [List.length_set, hstore]
              · omega
          · refine ih hstore ?_ _ _
            omega

theorem lftpdInetReadLine_length (buffer : Bytes) (segs : List Bytes) :
    (lftpdInetReadLine buffer segs).buffer.length = buffer.length := by
  simp only [lftpdInetReadLine]
  split
  · rfl
  · rename_i hlen
    exact readLoop_length List.length_replicate (by omega) _ _ _

theorem store_last {buffer bytes : Bytes} {off : Nat}
    (h : off + bytes.length ≤ buffer.length - 1) (hlast : buffer[buffer.length - 1]? = some 0) :
    (store buffer off bytes)[buffer.length - 1]? = some 0 := by
  have hpos : 0 < buffer.length := by
    apply Nat.pos_of_ne_zero
    intro hzero
    rw [List.length_eq_zero_iff.mp hzero] at hlast
    cases hlast
  have hlen : (buffer.take off ++ bytes).length = off + bytes.length := by
    rw [List.length_append, List.length_take, Nat.min_eq_left (by omega)]
  rw [store, List.getElem?_append_right (by omega), hlen, List.getElem?_drop, ← hlast]
  congr 1
  omega

theorem set_zero_getElem? {buffer : Bytes} {i : Nat} (hi : buffer[i]? = some 0) (p : Nat) :
    (buffer.set p 0)[i]? = some 0 := by
  rcases Classical.em (p = i) with rfl | hne
  · obtain ⟨hlen, -⟩ := List.getElem?_eq_some_iff.mp hi
    exact List.getElem?_set_self hlen
  · rw [List.getElem?_set_ne hne, hi]

theorem readLoop_last {bufferLen total : Nat} {buffer : Bytes} (hbuffer : buffer.length = bufferLen)
    (hlen : 2 ≤ bufferLen) (htotal : total < bufferLen) (hlast : buffer[bufferLen - 1]? = some 0)
    (fuel : Nat) (overflow : Bool) (segs : List Bytes) :
    (readLoop bufferLen fuel buffer total overflow segs).buffer[bufferLen - 1]? = some 0 := by
  induction fuel generalizing buffer total overflow segs with
  | zero => exact hlast
  | succ fuel ih =>
      simp only [readLoop]
      obtain ⟨bytes, rest, hrecv⟩ :
          ∃ bytes rest, recv (bufferLen - total - 1) segs = (bytes, rest) := ⟨_, _, rfl⟩
      have hle := recv_length_le (bufferLen - total - 1) segs
      simp only [hrecv] at hle ⊢
      subst hbuffer
      have hstore : (store buffer total bytes)[buffer.length - 1]? = some 0 :=
        store_last (by omega) hlast
      have hlength : (store buffer total bytes).length = buffer.length := store_length (by omega)
      split
      · exact hlast
      · rename_i hne
        have hpos := List.length_pos_of_ne_nil hne
        split
        · split
          · exact hstore
          · exact set_zero_getElem? hstore _
        · split
          · split
            · refine ih ?_ ?_ ?_ _ _
              · rw [List.length_set, List.length_set, hlength]
              · omega
              · apply set_zero_getElem?
                rwa [List.getElem?_set_ne (by omega)]
            · refine ih ?_ ?_ (set_zero_getElem? hstore 0) _ _
              · rw [List.length_set, hlength]
              · omega
          · refine ih hlength ?_ hstore _ _
            omega

theorem lftpdInetReadLine_last {buffer : Bytes} (hlen : 2 ≤ buffer.length) (segs : List Bytes) :
    (lftpdInetReadLine buffer segs).buffer[buffer.length - 1]? = some 0 := by
  rw [lftpdInetReadLine, if_neg (Nat.not_lt.mpr hlen)]
  apply readLoop_last List.length_replicate hlen (by omega)
  rw [List.getElem?_replicate, if_pos (by omega)]

theorem readLoop_receives (bufferLen fuel : Nat) (buffer : Bytes)
    (total : Nat) (overflow : Bool) (segs : List Bytes) :
    (readLoop bufferLen fuel buffer total overflow segs).segs.flatten.length ≤
        segs.flatten.length ∧
      ((readLoop bufferLen fuel buffer total overflow segs).ret = -econnreset ∨
        (readLoop bufferLen fuel buffer total overflow segs).segs.flatten.length <
          segs.flatten.length) := by
  induction fuel generalizing buffer total overflow segs with
  | zero => exact ⟨Nat.le_refl _, Or.inl rfl⟩
  | succ fuel ih =>
      simp only [readLoop]
      obtain ⟨bytes, rest, hrecv⟩ :
          ∃ bytes rest, recv (bufferLen - total - 1) segs = (bytes, rest) := ⟨_, _, rfl⟩
      have hadd := recv_length_add (bufferLen - total - 1) segs
      simp only [hrecv] at hadd ⊢
      have hless : rest.flatten.length ≤ segs.flatten.length := by omega
      split
      · exact ⟨hless, Or.inl rfl⟩
      · rename_i hne
        have hpos := List.length_pos_of_ne_nil hne
        have hless : rest.flatten.length < segs.flatten.length := by omega
        have hmore : ∀ buffer total overflow,
            (readLoop bufferLen fuel buffer total overflow rest).segs.flatten.length <
              segs.flatten.length :=
          fun buffer total overflow => Nat.lt_of_le_of_lt (ih buffer total overflow rest).1 hless
        split
        · split
          · exact ⟨Nat.le_of_lt hless, Or.inr hless⟩
          · exact ⟨Nat.le_of_lt hless, Or.inr hless⟩
        · split
          · split
            · exact ⟨Nat.le_of_lt (hmore _ _ _), Or.inr (hmore _ _ _)⟩
            · exact ⟨Nat.le_of_lt (hmore _ _ _), Or.inr (hmore _ _ _)⟩
          · exact ⟨Nat.le_of_lt (hmore _ _ _), Or.inr (hmore _ _ _)⟩

theorem lftpdInetReadLine_congr {buffer buffer' : Bytes} (hsame : buffer'.length = buffer.length)
    (hlen : 2 ≤ buffer.length) (segs : List Bytes) :
    lftpdInetReadLine buffer' segs = lftpdInetReadLine buffer segs := by
  rw [lftpdInetReadLine, lftpdInetReadLine, hsame, if_neg (Nat.not_lt.mpr hlen),
    if_neg (Nat.not_lt.mpr hlen)]

/-- `sizeof(conn->cmd_buf)`: a command, a blank, a path, the line end and a
terminator. -/
def cmdBufLen (maxPathLen : Nat) : Nat :=
  4 + 1 + maxPathLen + 2 + 1

abbrev CmdBuf (maxPathLen : Nat) := { buf : Bytes // buf.length = cmdBufLen maxPathLen }

def clearCmdBuf (maxPathLen : Nat) : CmdBuf maxPathLen :=
  ⟨List.replicate (cmdBufLen maxPathLen) 0, List.length_replicate⟩

/-- A call on the command buffer. -/
def readCommand {maxPathLen : Nat} (buf : CmdBuf maxPathLen) (segs : List Bytes) :
    Int × CmdBuf maxPathLen × List Bytes :=
  let read := lftpdInetReadLine buf.val segs
  (read.ret, ⟨read.buffer, (lftpdInetReadLine_length buf.val segs).trans buf.property⟩, read.segs)

theorem readCommand_congr {maxPathLen : Nat} (buf buf' : CmdBuf maxPathLen) (segs : List Bytes) :
    readCommand buf' segs = readCommand buf segs := by
  have hsame : lftpdInetReadLine buf'.val segs = lftpdInetReadLine buf.val segs := by
    apply lftpdInetReadLine_congr (buf'.property.trans buf.property.symm)
    rw [buf.property, cmdBufLen]
    omega
  simp only [readCommand, hsame]

theorem readCommand_receives {maxPathLen : Nat} (buf : CmdBuf maxPathLen) (segs : List Bytes) :
    (readCommand buf segs).1 = -econnreset ∨
      (readCommand buf segs).2.2.flatten.length < segs.flatten.length := by
  have hlen : ¬ buf.val.length < 2 := by
    rw [buf.property, cmdBufLen]
    omega
  simp only [readCommand, lftpdInetReadLine, if_neg hlen]
  exact (readLoop_receives _ _ _ _ _ _).2

end ZeusLe.FtpLine
