import ZeusLe.Ftp
import ZeusLe.Library.Run

/-!
A session of the FTP server on a control connection, and the thread that serves
one session after the other, `lftpd.c`.
-/

namespace ZeusLe.FtpServer

open ZeusLe.FtpLine
open ZeusLe.FtpFiles
open ZeusLe.FtpPath
open ZeusLe.Ftp

def toupper (b : UInt8) : UInt8 :=
  if 97 ≤ b ∧ b ≤ 122 then b - 32 else b

/-- Upper case, up to the terminator. -/
def upperCommand (line : Bytes) : Bytes :=
  line.map toupper

/-- The command in the buffer: its name, its argument, and the size of the buffer
of the argument. Nothing when the name is too long. -/
def splitCommand (buf : Bytes) : Option (Bytes × Option Bytes × Nat) :=
  let line := cString buf
  let splitIndex := line.findIdx (· = 32)
  if 5 ≤ splitIndex then none
  else
    let arg := lftpdStringTrim (buf.drop (splitIndex + 1))
    some (upperCommand (line.take splitIndex), if arg = [] then none else some arg,
      buf.length - splitIndex - 1)

section

variable {fs : FileSystem} (baseDir : Bytes)

def dispatch (w : World fs) (command : Bytes) (arg : Option Bytes) (argBufLen : Nat) :
    Int × World fs :=
  match (commands baseDir).lookup command with
  | none => sendSimpleResponse w 502 status502
  | some handler => handler w arg argBufLen

/-- A round of the loop of `handle_control_channel`. The end of the stream ends the
session as an error does. -/
def controlStep (segs : List Bytes) (w : World fs) : Int × List Bytes × World fs :=
  let (ret, cmdBuf, segs) := readCommand w.conn.cmdBuf segs
  let w := World.useControl { w with conn := { w.conn with cmdBuf } }
  if ret = -eoverflow then
    let (ret, w) := sendSimpleResponse w 500 status500
    (ret, segs, w)
  else if ret < 0 then (ret, segs, w)
  else
    match splitCommand cmdBuf.val with
    | none =>
        let (ret, w) := sendSimpleResponse w 500 status500
        (ret, segs, w)
    | some (command, arg, argBufLen) =>
        let (ret, w) := dispatch baseDir w command arg argBufLen
        (ret, segs, w)

/-- Every round receives a byte or ends the session, so that the fuel is never used
up. -/
def controlLoop : Nat → List Bytes → World fs → World fs
  | 0, _, w => w
  | fuel + 1, segs, w =>
      let (ret, segs, w) := controlStep baseDir segs w
      if ret < 0 then w else controlLoop fuel segs w

def setCmdBuf (w : World fs) (cmdBuf : CmdBuf lftpdMaxPathLen) : World fs :=
  { w with conn := { w.conn with cmdBuf } }

/-- After `lftpd_inet_read_line`. -/
def received (w : World fs) (cmdBuf : CmdBuf lftpdMaxPathLen) : World fs :=
  (setCmdBuf w cmdBuf).useControl

section

variable {segs rest : List Bytes} {w : World fs} {ret : Int} {cmdBuf : CmdBuf lftpdMaxPathLen}
  (hread : readCommand w.conn.cmdBuf segs = (ret, cmdBuf, rest))

include hread

theorem controlStep_refused (h : ret = -eoverflow ∨ 0 ≤ ret ∧ splitCommand cmdBuf.val = none) :
    controlStep baseDir segs w =
      ((sendSimpleResponse (received w cmdBuf) 500 status500).1, rest,
        (sendSimpleResponse (received w cmdBuf) 500 status500).2) := by
  simp only [controlStep, hread]
  rcases h with hlong | ⟨hret, hsplit⟩
  · rw [if_pos hlong]
    rfl
  · rw [if_neg, if_neg (Int.not_lt.mpr hret)]
    · simp only [hsplit]
      rfl
    · rintro rfl
      exact absurd hret (by decide)

theorem controlStep_end (hlong : ret ≠ -eoverflow) (hret : ret < 0) :
    controlStep baseDir segs w = (ret, rest, received w cmdBuf) := by
  simp only [controlStep, hread]
  rw [if_neg hlong, if_pos hret]
  rfl

theorem controlStep_command {command : Bytes} {arg : Option Bytes} {argBufLen : Nat}
    (hret : 0 ≤ ret) (hsplit : splitCommand cmdBuf.val = some (command, arg, argBufLen)) :
    controlStep baseDir segs w =
      ((dispatch baseDir (received w cmdBuf) command arg argBufLen).1, rest,
        (dispatch baseDir (received w cmdBuf) command arg argBufLen).2) := by
  simp only [controlStep, hread]
  rw [if_neg, if_neg (Int.not_lt.mpr hret)]
  · simp only [hsplit]
    rfl
  · rintro rfl
    exact absurd hret (by decide)

end

theorem controlStep_segs (segs : List Bytes) (w : World fs) :
    (controlStep baseDir segs w).2.1 = (readCommand w.conn.cmdBuf segs).2.2 := by
  rcases hread : readCommand w.conn.cmdBuf segs with ⟨ret, cmdBuf, rest⟩
  rcases Classical.em (ret = -eoverflow) with hlong | hlong
  · rw [controlStep_refused baseDir hread (Or.inl hlong)]
  · rcases Int.lt_or_le ret 0 with hret | hret
    · rw [controlStep_end baseDir hread hlong hret]
    · rcases hsplit : splitCommand cmdBuf.val with _ | ⟨command, arg, argBufLen⟩
      · rw [controlStep_refused baseDir hread (Or.inr ⟨hret, hsplit⟩)]
      · rw [controlStep_command baseDir hread hret hsplit]

theorem controlStep_receives {segs : List Bytes} {w : World fs}
    (h : 0 ≤ (controlStep baseDir segs w).1) :
    (controlStep baseDir segs w).2.1.flatten.length < segs.flatten.length := by
  rw [controlStep_segs]
  rcases readCommand_receives w.conn.cmdBuf segs with hreset | hless
  · rcases hread : readCommand w.conn.cmdBuf segs with ⟨ret, cmdBuf, rest⟩
    rw [hread] at hreset
    obtain rfl : ret = -econnreset := hreset
    rw [controlStep_end baseDir hread (by decide) (by decide)] at h
    have hneg : ¬ (0 : Int) ≤ -econnreset := by decide
    exact absurd h hneg
  · exact hless

theorem controlLoop_fuel {fuel : Nat} {segs : List Bytes} (hfuel : segs.flatten.length < fuel)
    (more : Nat) (w : World fs) :
    controlLoop baseDir (fuel + more) segs w = controlLoop baseDir fuel segs w := by
  induction fuel generalizing segs w with
  | zero => omega
  | succ fuel ih =>
      rw [Nat.add_right_comm, controlLoop, controlLoop]
      split
      rename_i ret rest w' hstep
      split
      · rfl
      · rename_i hret
        apply ih
        have hnext : 0 ≤ (controlStep baseDir segs w).1 := by
          rw [hstep]
          exact Int.not_lt.mp hret
        have hless : rest.flatten.length < segs.flatten.length := by
          have hless := controlStep_receives baseDir hnext
          rw [hstep] at hless
          exact hless
        omega

/-- `goto exit`. -/
def closeSession (w : World fs) : World fs :=
  let w := match w.conn.dataSocket with
    | none => w
    | some listener => w.zsockClose listener
  let w := match w.conn.socket with
    | none => w
    | some socket => w.zsockClose socket
  { w with conn := { w.conn with socket := none, dataSocket := none } }

def handleControlChannel (control : List Bytes) (w : World fs) : World fs :=
  let (ret, w) := sendSimpleResponse w 220 status220
  closeSession
    (if ret < 0 then w else controlLoop baseDir (control.flatten.length + 1) control w)

end

/-- A control connection: its socket, what the client sends on it, and what the
network does meanwhile. -/
structure Session where
  socket : Nat
  control : List Bytes
  net : Net
  deriving DecidableEq, Repr

/-- What `lftpd_conn_run` starts with. -/
def lftpdConnInit (baseDir : Bytes) : Option Conn :=
  match h : lftpdPathResolve baseDir baseDir (some []) (lftpdMaxPathLen + 1) with
  | .error _ => none
  | .ok cwd =>
      some {
        cwd := ⟨cwd, Nat.le_of_lt_succ (pathResolve_length_lt (by exact Nat.succ_pos _) h)⟩
        cmdBuf := clearCmdBuf lftpdMaxPathLen
        socket := none
        dataSocket := none }

section

variable {fs : FileSystem} (baseDir : Bytes)

/-- A round of the loop of `lftpd_conn_run`. -/
def serve (conn : Conn) (files : fs.State) (session : Session) : World fs :=
  handleControlChannel baseDir session.control
    { conn := { conn with socket := some session.socket }, files, net := session.net, events := [] }

/-- The connection after earlier sessions, each with the file system that it found. -/
def lftpdConnRun (conn : Conn) (history : List (fs.State × Session)) : Conn :=
  Library.Run.run (fun conn input => (serve baseDir conn input.1 input.2).conn) conn history

end

end ZeusLe.FtpServer
