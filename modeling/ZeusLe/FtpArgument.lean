import ZeusLe.FtpPathBuffer
import ZeusLe.FtpServer

/-!
Where the argument of a command stands when `handle_control_channel` calls its
handler, and which bytes of the command buffer are written when a path is joined
there.
-/

namespace ZeusLe.FtpArgument

open ZeusLe.Library.Overwrite
open ZeusLe.FtpLine
open ZeusLe.FtpPath (cString isspace leadingSpaces lftpdStringTrim slash)
open ZeusLe.FtpServer (upperCommand splitCommand)
open ZeusLe.FtpPathBuffer
open ZeusLe.Ftp

/-- `arg` is an index in the command buffer. -/
structure Command where
  command : Bytes
  arg : Nat
  string : Bytes
  argBufLen : Nat
deriving DecidableEq, Repr

/-- `splitCommand`, with the place of the argument. The memory begins with the
command buffer. -/
def locateCommand (memory : Bytes) (cmdBufSize : Nat) : Option Command :=
  let line := cString memory
  let splitIndex := line.findIdx (· = 32)
  if 5 ≤ splitIndex then none
  else
    let rest := memory.drop (splitIndex + 1)
    some
      { command := upperCommand (line.take splitIndex)
        arg := splitIndex + 1 + leadingSpaces rest (cString rest).length 0
        string := lftpdStringTrim rest
        argBufLen := cmdBufSize - splitIndex - 1 }

theorem splitCommand_eq (buf : Bytes) :
    splitCommand buf = (locateCommand buf buf.length).map fun c =>
      (c.command, if c.string = [] then none else some c.string, c.argBufLen) := by
  simp only [splitCommand, locateCommand]
  split
  · rfl
  · rfl

/-- The memory from the argument on. The blanks at its end are overwritten. -/
def argMemory (memory : Bytes) (c : Command) : Bytes :=
  let behind := memory.drop c.arg
  c.string ++ List.replicate ((cString behind).length - c.string.length) 0 ++
    behind.drop (cString behind).length

def commandNames : List Bytes :=
  [text "CWD", text "DELE", text "EPSV", text "FEAT", text "LIST", text "MKD", text "NLST",
    text "NOOP", text "PASS", text "PASV", text "PWD", text "QUIT", text "RETR", text "RMD",
    text "SIZE", text "STOR", text "SYST", text "TYPE", text "USER"]

theorem commands_names (fs : FtpFiles.FileSystem) (baseDir : Bytes) :
    (@commands fs baseDir).map Prod.fst = commandNames := rfl

/-- The command buffer after a line was received: its last byte ends every string in it. -/
structure Line (maxPathLen : Nat) where
  buf : CmdBuf maxPathLen
  last : buf.val[cmdBufLen maxPathLen - 1]? = some 0

theorem readCommand_last {maxPathLen : Nat} (buf : CmdBuf maxPathLen) (segs : List Bytes) :
    (readCommand buf segs).2.1.val[cmdBufLen maxPathLen - 1]? = some 0 := by
  have hlen : 2 ≤ buf.val.length := by
    rw [buf.property, cmdBufLen]
    omega
  have hlast := lftpdInetReadLine_last hlen segs
  rwa [buf.property] at hlast

def receiveLine {maxPathLen : Nat} (buf : CmdBuf maxPathLen) (segs : List Bytes) :
    Line maxPathLen :=
  ⟨(readCommand buf segs).2.1, readCommand_last buf segs⟩

section

variable {maxPathLen : Nat} (line : Line maxPathLen) (behind : Bytes)

/-- The connection from the command buffer on. -/
def Line.memory : Bytes :=
  line.buf.val ++ behind

/-- A handler is called with an argument. -/
def Hands (c : Command) : Prop :=
  locateCommand (line.memory behind) (cmdBufLen maxPathLen) = some c ∧
    c.command ∈ commandNames ∧ c.string ≠ []

/-- The buffer of the argument, and what is written when its path is resolved, lie in
the command buffer. -/
def ArgumentInside : Prop :=
  ∀ c, Hands line behind c → c.arg + c.argBufLen ≤ cmdBufLen maxPathLen ∧
    ∀ baseDir workingDir : CString, workingDir.val.length ≤ maxPathLen →
      ∀ i ∈ (lftpdPathResolve baseDir.val workingDir.val
        (.fresh (argMemory (line.memory behind) c)) c.argBufLen).2.written,
        c.arg + i < cmdBufLen maxPathLen

/-- The byte behind the first blank is white space too. -/
def secondBlank (memory : Bytes) : Bool :=
  isspace (memory.getD ((cString memory).findIdx (· = 32) + 1) 0)

end

theorem leadingSpaces_le (memory : Bytes) (len i : Nat) : i ≤ leadingSpaces memory len i := by
  induction len generalizing i with
  | zero => exact le_rfl
  | succ len ih =>
      rw [leadingSpaces]
      split
      · exact (Nat.le_succ i).trans (ih (i + 1))
      · exact le_rfl

theorem leadingSpaces_zero {memory : Bytes} (h : isspace (memory.getD 0 0) = false) (len : Nat) :
    leadingSpaces memory len 0 = 0 := by
  cases len with
  | zero => rfl
  | succ len =>
      rw [leadingSpaces, Nat.mul_zero, h]
      rfl

theorem leadingSpaces_pos {memory : Bytes} (h : isspace (memory.getD 0 0) = true) :
    0 < leadingSpaces memory (cString memory).length 0 := by
  cases memory with
  | nil => cases h
  | cons b memory =>
      have hb : b ≠ 0 := by
        rintro rfl
        cases h
      have hstring : cString (b :: memory) = b :: cString memory :=
        List.takeWhile_cons_of_pos (decide_eq_true hb)
      rw [hstring, List.length_cons, leadingSpaces, Nat.mul_zero, if_pos h]
      exact leadingSpaces_le _ _ 1

theorem argMemory_eq {memory : Bytes} {c : Command} {size : Nat}
    (hlocate : locateCommand memory size = some c) {more : Bytes}
    (hbehind : memory.drop c.arg = cString (memory.drop c.arg) ++ 0 :: more) :
    ∃ bytes, bytes.length = (cString (memory.drop c.arg)).length ∧
      argMemory memory c = bytes ++ 0 :: more := by
  have hstring : c.string = (cString (memory.drop c.arg)).rdropWhile isspace := by
    simp only [locateCommand] at hlocate
    split at hlocate
    · cases hlocate
    · cases hlocate
      simp only [lftpdStringTrim, List.drop_drop]
  refine ⟨c.string ++ List.replicate ((cString (memory.drop c.arg)).length - c.string.length) 0,
    ?_, ?_⟩
  · have hle := FtpPath.rdropWhile_length_le isspace (cString (memory.drop c.arg))
    rw [← hstring] at hle
    rw [List.length_append, List.length_replicate]
    omega
  · simp only [argMemory]
    conv_lhs => rw [hbehind]
    rw [FtpPath.cString_append (FtpPath.zero_notMem_cString _), List.drop_left]

section

variable {maxPathLen : Nat} (line : Line maxPathLen) (behind : Bytes) {c : Command}

theorem locateCommand_place
    (hlocate : locateCommand (line.memory behind) (cmdBufLen maxPathLen) = some c) :
    ∃ start, start < cmdBufLen maxPathLen ∧ c.argBufLen = cmdBufLen maxPathLen - start ∧
      start = (cString (line.memory behind)).findIdx (· = 32) + 1 ∧
      c.arg = start + leadingSpaces ((line.memory behind).drop start)
        (cString ((line.memory behind).drop start)).length 0 := by
  simp only [locateCommand] at hlocate
  split at hlocate
  · cases hlocate
  · rename_i hshort
    cases hlocate
    refine ⟨_, ?_, ?_, rfl, rfl⟩
    · simp only [cmdBufLen]
      omega
    · exact Nat.sub_sub _ _ _

theorem memory_last : (line.memory behind)[cmdBufLen maxPathLen - 1]? = some 0 := by
  have hlen := line.buf.property
  have hpos : 0 < cmdBufLen maxPathLen := Nat.succ_pos _
  rw [Line.memory, List.getElem?_append_left (by omega)]
  exact line.last

theorem argMemory_ends
    (hlocate : locateCommand (line.memory behind) (cmdBufLen maxPathLen) = some c)
    (hplace : c.arg + c.argBufLen = cmdBufLen maxPathLen) (hpos : 0 < c.argBufLen) :
    c.argBufLen ≤ (argMemory (line.memory behind) c).length ∧
      0 ∈ (argMemory (line.memory behind) c).take c.argBufLen := by
  have hlast : ((line.memory behind).drop c.arg)[c.argBufLen - 1]? = some 0 := by
    rw [List.getElem?_drop, ← memory_last line behind]
    congr 1
    omega
  have hstring := FtpPath.cString_length_le hlast
  obtain ⟨more, hmore⟩ := FtpPath.exists_cString_append (List.mem_of_getElem? hlast)
  obtain ⟨bytes, hbytes, hmemory⟩ := argMemory_eq hlocate hmore
  have hlen := congrArg List.length hmore
  rw [List.length_append, ← hbytes] at hlen
  obtain ⟨hin, -⟩ := List.getElem?_eq_some_iff.mp hlast
  rw [hmemory]
  constructor
  · rw [List.length_append]
    omega
  · rw [List.take_append, List.mem_append]
    apply Or.inr
    obtain ⟨room, hroom⟩ : ∃ room, c.argBufLen - bytes.length = room + 1 :=
      ⟨c.argBufLen - bytes.length - 1, by omega⟩
    rw [hroom, List.take_succ_cons]
    exact List.mem_cons_self

/-- The argument lies in the command buffer exactly when there is none, or when it
follows a single blank. -/
theorem argumentInside_iff : ArgumentInside line behind ↔
    ((∃ c, Hands line behind c) → secondBlank (line.memory behind) = false) := by
  constructor
  · rintro hinside ⟨c, hhands⟩
    obtain ⟨start, hless, hlen, hstart, harg⟩ := locateCommand_place line behind hhands.1
    have hle := (hinside c hhands).1
    rw [← Bool.not_eq_true]
    intro hblank
    rw [secondBlank, ← hstart] at hblank
    have hpos := @leadingSpaces_pos ((line.memory behind).drop start)
      (by rw [List.getD_eq_getElem?_getD, List.getElem?_drop]; exact hblank)
    omega
  · intro hblank c hhands
    obtain ⟨start, hless, hlen, hstart, harg⟩ := locateCommand_place line behind hhands.1
    have hfirst := hblank ⟨c, hhands⟩
    rw [secondBlank, ← hstart] at hfirst
    have hskip := @leadingSpaces_zero ((line.memory behind).drop start)
      (by rw [List.getD_eq_getElem?_getD, List.getElem?_drop]; exact hfirst)
    have hplace : c.arg + c.argBufLen = cmdBufLen maxPathLen := by
      rw [harg, hskip]
      omega
    refine ⟨Nat.le_of_eq hplace, ?_⟩
    intro baseDir workingDir _ i hi
    obtain ⟨hroom, hends⟩ := argMemory_ends line behind hhands.1 hplace (by omega)
    have hwrites := resolve_writes ⟨argMemory (line.memory behind) c, c.argBufLen, hroom, hends⟩
      baseDir workingDir
    have hin := hwrites.within (within_fresh _ _) i hi
    simp only at hin
    omega

end

/-- Two blanks before the argument. -/
def twoBlanks : Bytes :=
  text "DELE  x" ++ crlf

/-- `conn->buf` after the first reply. -/
def greeting : Bytes :=
  text "220 " ++ status220 ++ crlf ++ List.replicate (bufLen - 33) 0

/-- A working directory of the greatest length. -/
def deepest : CString :=
  ⟨slash :: List.replicate 127 97, by decide +kernel⟩

/-- The terminator of the joined path goes over the first byte of `conn->buf`. -/
theorem argumentInside_twoBlanks :
    ¬ ArgumentInside (receiveLine (clearCmdBuf lftpdMaxPathLen) [twoBlanks]) greeting := by
  intro hinside
  have hhands : Hands (receiveLine (clearCmdBuf lftpdMaxPathLen) [twoBlanks]) greeting
      ⟨text "DELE", 6, text "x", 131⟩ := by
    refine ⟨?_, ?_, ?_⟩ <;> decide +kernel
  have hwrites := (hinside _ hhands).2 ⟨[slash], by decide⟩ deepest (by decide +kernel) 130
    (by decide +kernel)
  exact absurd hwrites (by decide)

end ZeusLe.FtpArgument
