import ZeusLe.FtpFraming
import ZeusLe.FtpSteps
import ZeusLe.FtpServer

/-! What a session leaves to the sessions after it. -/

namespace ZeusLe.FtpSessions

open ZeusLe.Library.Run
open ZeusLe.FtpLine
open ZeusLe.FtpFiles
open ZeusLe.FtpPath
open ZeusLe.Ftp
open ZeusLe.FtpSteps
open ZeusLe.FtpServer

section

variable {fs : FileSystem}

@[simp] theorem zsockClose_conn (w : World fs) (socket : Nat) :
    (w.zsockClose socket).conn = w.conn :=
  rfl

@[simp] theorem lftpdInetListen_conn (w : World fs) : w.lftpdInetListen.2.conn = w.conn := by
  simp only [World.lftpdInetListen]
  split <;> rfl

@[simp] theorem lftpdInetGetSocketPort_conn (w : World fs) (socket : Nat) :
    (w.lftpdInetGetSocketPort socket).2.conn = w.conn :=
  rfl

@[simp] theorem zsockGetsockname_conn (w : World fs) : w.zsockGetsockname.2.conn = w.conn :=
  rfl

@[simp] theorem received_cwd (w : World fs) (cmdBuf : CmdBuf lftpdMaxPathLen) :
    (received w cmdBuf).conn.cwd = w.conn.cwd :=
  rfl

@[simp] theorem acceptDataConnection_cwd (w : World fs) :
    (acceptDataConnection w).2.conn.cwd = w.conn.cwd := by
  simp only [acceptDataConnection]
  split
  · rfl
  · simp only [World.lftpdInetGetSocketPort]
    split <;> rfl

@[simp] theorem listenData_cwd (w : World fs) : (listenData w).2.conn.cwd = w.conn.cwd := by
  simp only [listenData]
  split
  · rfl
  · change w.lftpdInetListen.2.conn.cwd = w.conn.cwd
    rw [lftpdInetListen_conn]

@[simp] theorem sendList_conn (w : World fs) (socket : Nat) (path : Bytes) :
    (sendList w socket path).2.conn = w.conn :=
  (spans_conn socket path).sendList w

@[simp] theorem sendNlst_conn (w : World fs) (socket : Nat) (path : Bytes) :
    (sendNlst w socket path).2.conn = w.conn :=
  (spans_conn socket path).sendNlst w

@[simp] theorem sendFile_conn (w : World fs) (socket : Nat) (path : Bytes) :
    (sendFile w socket path).2.conn = w.conn :=
  (spans_conn socket path).sendFile w

@[simp] theorem receiveFile_conn (w : World fs) (data : DataConn) (path : Bytes) :
    (receiveFile w data path).2.conn = w.conn :=
  (spans_conn data.socket path).receiveFile w

variable (baseDir : Bytes)

/-- A handler that leaves the working directory. -/
def KeepsCwd (handler : World fs → Option Bytes → Nat → Int × World fs) : Prop :=
  ∀ w arg argBufLen, (handler w arg argBufLen).2.conn.cwd = w.conn.cwd

theorem keepsCwd_reply (code : Int) (body : World fs → Bytes) :
    KeepsCwd fun w _ _ => sendSimpleResponse w code (body w) :=
  fun w _ _ => congrArg Conn.cwd (sendSimpleResponse_conn w code (body w))

theorem keepsCwd_epsv : KeepsCwd (@cmdEpsv fs) := by
  intro w arg argBufLen
  simp only [cmdEpsv]
  split <;> simp

theorem keepsCwd_feat : KeepsCwd (@cmdFeat fs) :=
  fun w arg argBufLen => congrArg Conn.cwd (serves_conn.feat w arg argBufLen)

theorem keepsCwd_list : KeepsCwd (@cmdList fs) := by
  intro w arg argBufLen
  simp only [cmdList]
  split
  · simp
  · split <;> simp

theorem keepsCwd_pasv : KeepsCwd (@cmdPasv fs) := by
  intro w arg argBufLen
  simp only [cmdPasv]
  split
  · simp
  · split <;> simp

theorem keepsCwd_quit : KeepsCwd (@cmdQuit fs) :=
  fun w arg argBufLen => congrArg Conn.cwd (serves_conn.quit w arg argBufLen)

theorem keepsCwd_dele : KeepsCwd (@cmdDele fs baseDir) :=
  fun w arg argBufLen => congrArg Conn.cwd (serves_conn.dele baseDir w arg argBufLen)

theorem keepsCwd_mkd : KeepsCwd (@cmdMkd fs baseDir) :=
  fun w arg argBufLen => congrArg Conn.cwd (serves_conn.mkd baseDir w arg argBufLen)

theorem keepsCwd_rmd : KeepsCwd (@cmdRmd fs baseDir) :=
  fun w arg argBufLen => congrArg Conn.cwd (serves_conn.rmd baseDir w arg argBufLen)

theorem keepsCwd_size : KeepsCwd (@cmdSize fs baseDir) :=
  fun w arg argBufLen => congrArg Conn.cwd (serves_conn.size baseDir w arg argBufLen)

theorem nlstReply_cwd (w : World fs) (data : DataConn) (arg : Option Bytes) (argBufLen : Nat) :
    (nlstReply baseDir w data arg argBufLen).2.conn.cwd = w.conn.cwd := by
  simp only [nlstReply]
  split
  · simp
  · split
    · simp
    · split <;> simp

theorem keepsCwd_nlst : KeepsCwd (@cmdNlst fs baseDir) := by
  intro w arg argBufLen
  simp only [cmdNlst]
  split
  · simp
  · simp [nlstReply_cwd]

theorem keepsCwd_transfer {copy : World fs → DataConn → Bytes → Int × World fs}
    (hcopy : ∀ w data path, (copy w data path).2.conn = w.conn) :
    KeepsCwd fun w arg argBufLen => transfer baseDir w arg argBufLen copy := by
  intro w arg argBufLen
  simp only [transfer]
  split
  · rw [sendSimpleResponse_conn, acceptDataConnection_cwd]
  · split
    · rw [zsockClose_conn, sendSimpleResponse_conn, acceptDataConnection_cwd]
    · split
      · rw [zsockClose_conn, sendSimpleResponse_conn, sendSimpleResponse_conn,
          acceptDataConnection_cwd]
      · rw [zsockClose_conn]
        split
        · rw [sendSimpleResponse_conn, hcopy, sendSimpleResponse_conn, acceptDataConnection_cwd]
        · rw [sendSimpleResponse_conn, hcopy, sendSimpleResponse_conn, acceptDataConnection_cwd]

theorem commands_keepsCwd :
    ∀ entry ∈ @commands fs baseDir, entry.1 ≠ text "CWD" → KeepsCwd entry.2 := by
  simp only [commands, List.forall_mem_cons]
  refine ⟨fun h => absurd rfl h, fun _ => keepsCwd_dele baseDir, fun _ => keepsCwd_epsv,
    fun _ => keepsCwd_feat, fun _ => keepsCwd_list, fun _ => keepsCwd_mkd baseDir,
    fun _ => keepsCwd_nlst baseDir, fun _ => keepsCwd_reply _ _, fun _ => keepsCwd_reply _ _,
    fun _ => keepsCwd_pasv, fun _ => keepsCwd_reply _ _, fun _ => keepsCwd_quit,
    fun _ => keepsCwd_transfer baseDir fun w data path => sendFile_conn w data.socket path,
    fun _ => keepsCwd_rmd baseDir, fun _ => keepsCwd_size baseDir,
    fun _ => keepsCwd_transfer baseDir receiveFile_conn, fun _ => keepsCwd_reply _ _,
    fun _ => keepsCwd_reply _ _, fun _ => keepsCwd_reply _ _, ?_⟩
  intro entry hentry
  cases hentry

/-- A CWD command that is accepted in `w` and leads to another directory. -/
def Moves (w : World fs) (arg : Option Bytes) (argBufLen : Nat) : Prop :=
  arg.getD [] ≠ [] ∧ ∃ cwd, lftpdPathResolve baseDir w.conn.cwd.val arg argBufLen = .ok cwd ∧
    (checkDirectory w cwd).1 = true ∧ cwd.length ≤ lftpdMaxPathLen ∧ cwd ≠ w.conn.cwd.val

theorem not_moves_of_error {w : World fs} {arg : Option Bytes} {argBufLen : Nat} {ret : Int}
    (hpath : lftpdPathResolve baseDir w.conn.cwd.val arg argBufLen = .error ret) :
    ¬ Moves baseDir w arg argBufLen := by
  rintro ⟨-, cwd, hcwd, -⟩
  rw [hpath] at hcwd
  cases hcwd

theorem moves_iff_of_ok {w : World fs} {arg : Option Bytes} {argBufLen : Nat} {path : Bytes}
    (hpath : lftpdPathResolve baseDir w.conn.cwd.val arg argBufLen = .ok path) :
    (arg.getD [] ≠ [] ∧ (checkDirectory w path).1 = true ∧ path.length ≤ lftpdMaxPathLen ∧
      path ≠ w.conn.cwd.val) ↔ Moves baseDir w arg argBufLen := by
  constructor
  · rintro ⟨harg, hcheck, hlen, hne⟩
    exact ⟨harg, path, hpath, hcheck, hlen, hne⟩
  · rintro ⟨harg, cwd, hcwd, hmoves⟩
    obtain rfl := Except.ok.inj (hpath.symm.trans hcwd)
    exact ⟨harg, hmoves⟩

instance (w : World fs) (arg : Option Bytes) (argBufLen : Nat) :
    Decidable (Moves baseDir w arg argBufLen) :=
  match hpath : lftpdPathResolve baseDir w.conn.cwd.val arg argBufLen with
  | .error _ => isFalse (not_moves_of_error baseDir hpath)
  | .ok _ => decidable_of_iff _ (moves_iff_of_ok baseDir hpath)

theorem cmdCwd_cwd_iff (w : World fs) (arg : Option Bytes) (argBufLen : Nat) :
    (cmdCwd baseDir w arg argBufLen).2.conn.cwd = w.conn.cwd ↔ ¬ Moves baseDir w arg argBufLen := by
  simp only [cmdCwd, Moves]
  split
  · rename_i hnil
    simp [hnil]
  · rename_i hne
    rcases hpath : lftpdPathResolve baseDir w.conn.cwd.val arg argBufLen with ret | cwd
    · simp
    · rcases hcheck : (checkDirectory w cwd).1 with _ | _
      · simp [hcheck]
      · simp only [hcheck, Bool.not_true, Bool.false_eq_true, if_false]
        split
        · rename_i hlen
          simp [hne, hcheck, hlen, Subtype.ext_iff]
        · rename_i hlen
          simp [hcheck, hlen]

theorem checkDirectory_received (w : World fs) (cmdBuf : CmdBuf lftpdMaxPathLen) (cwd : Bytes) :
    (checkDirectory (received w cmdBuf) cwd).1 = (checkDirectory w cwd).1 := by
  simp only [checkDirectory]
  split
  · rfl
  · split
    · rfl
    · have hstat : ((received w cmdBuf).fsStat cwd).1 = (w.fsStat cwd).1 := rfl
      simp only [hstat]
      split <;> rfl

theorem moves_received (w : World fs) (cmdBuf : CmdBuf lftpdMaxPathLen) (arg : Option Bytes)
    (argBufLen : Nat) :
    Moves baseDir (received w cmdBuf) arg argBufLen ↔ Moves baseDir w arg argBufLen := by
  simp only [Moves, checkDirectory_received, received_cwd]

/-- The command that a round of the loop dispatches. -/
def nextCommand (segs : List Bytes) (w : World fs) : Option (Bytes × Option Bytes × Nat) :=
  if (readCommand w.conn.cmdBuf segs).1 < 0 then none
  else splitCommand (readCommand w.conn.cmdBuf segs).2.1.val

/-- The round does not change to another directory. -/
def Stays (segs : List Bytes) (w : World fs) : Prop :=
  ∀ arg argBufLen, nextCommand segs w = some (text "CWD", arg, argBufLen) →
    ¬ Moves baseDir w arg argBufLen

theorem stays_of_other {segs : List Bytes} {w : World fs}
    (hother : ∀ arg argBufLen, nextCommand segs w ≠ some (text "CWD", arg, argBufLen)) :
    Stays baseDir segs w :=
  fun arg argBufLen h => absurd h (hother arg argBufLen)

theorem stays_iff_of_cwd {segs : List Bytes} {w : World fs} {arg : Option Bytes} {argBufLen : Nat}
    (hnext : nextCommand segs w = some (text "CWD", arg, argBufLen)) :
    ¬ Moves baseDir w arg argBufLen ↔ Stays baseDir segs w := by
  constructor
  · intro hmoves arg' argBufLen' heq
    rw [hnext] at heq
    cases heq
    exact hmoves
  · exact fun h => h arg argBufLen hnext

instance (segs : List Bytes) (w : World fs) : Decidable (Stays baseDir segs w) :=
  match hnext : nextCommand segs w with
  | none => isTrue (stays_of_other baseDir fun _ _ h => nomatch hnext.symm.trans h)
  | some (command, _, _) =>
      if hcommand : command = text "CWD" then
        decidable_of_iff _ (stays_iff_of_cwd baseDir (hcommand ▸ hnext))
      else
        isTrue (stays_of_other baseDir fun _ _ h =>
          hcommand (Prod.mk.inj (Option.some.inj (hnext.symm.trans h))).1)

/-- No round of the session does. -/
def LoopStays : Nat → List Bytes → World fs → Prop
  | 0, _, _ => True
  | fuel + 1, segs, w =>
      Stays baseDir segs w ∧
        (0 ≤ (controlStep baseDir segs w).1 →
          LoopStays fuel (controlStep baseDir segs w).2.1 (controlStep baseDir segs w).2.2)

instance decidableLoopStays : (fuel : Nat) → (segs : List Bytes) → (w : World fs) →
    Decidable (LoopStays baseDir fuel segs w)
  | 0, _, _ => isTrue trivial
  | fuel + 1, segs, w =>
      have := decidableLoopStays fuel (controlStep baseDir segs w).2.1
        (controlStep baseDir segs w).2.2
      inferInstanceAs (Decidable (_ ∧ (0 ≤ (controlStep baseDir segs w).1 → _)))

theorem dispatch_cwd_iff (w : World fs) (command : Bytes) (arg : Option Bytes) (argBufLen : Nat) :
    (dispatch baseDir w command arg argBufLen).2.conn.cwd = w.conn.cwd ↔
      (command = text "CWD" → ¬ Moves baseDir w arg argBufLen) := by
  simp only [dispatch]
  split
  · rename_i hnone
    rw [sendSimpleResponse_conn]
    refine ⟨fun _ hcommand => ?_, fun _ => rfl⟩
    rw [hcommand] at hnone
    cases hnone
  · rename_i handler hhandler
    rcases Classical.em (command = text "CWD") with rfl | hother
    · obtain rfl : cmdCwd baseDir = handler := Option.some.inj hhandler
      rw [cmdCwd_cwd_iff]
      exact ⟨fun h _ => h, fun h => h rfl⟩
    · obtain ⟨before, after, hmem, -⟩ := List.lookup_eq_some_iff.mp hhandler
      have hkeeps := commands_keepsCwd baseDir (command, handler)
        (hmem ▸ List.mem_append_right _ List.mem_cons_self) hother
      exact ⟨fun _ h => absurd h hother, fun _ => hkeeps w arg argBufLen⟩

theorem controlStep_cwd_iff (segs : List Bytes) (w : World fs) :
    (controlStep baseDir segs w).2.2.conn.cwd = w.conn.cwd ↔ Stays baseDir segs w := by
  rcases hread : readCommand w.conn.cmdBuf segs with ⟨ret, cmdBuf, rest⟩
  simp only [Stays, nextCommand, hread]
  rcases Classical.em (ret = -eoverflow) with hlong | hlong
  · rw [controlStep_refused baseDir hread (Or.inl hlong), if_pos (by rw [hlong]; decide)]
    simp
  · rcases Int.lt_or_le ret 0 with hret | hret
    · rw [controlStep_end baseDir hread hlong hret, if_pos hret]
      simp
    · rw [if_neg (Int.not_lt.mpr hret)]
      rcases hsplit : splitCommand cmdBuf.val with _ | ⟨command, arg, argBufLen⟩
      · rw [controlStep_refused baseDir hread (Or.inr ⟨hret, hsplit⟩)]
        simp
      · rw [controlStep_command baseDir hread hret hsplit]
        refine (dispatch_cwd_iff baseDir (received w cmdBuf) command arg argBufLen).trans ?_
        rw [moves_received]
        constructor
        · intro h arg' argBufLen' heq
          cases heq
          exact h rfl
        · rintro h rfl
          exact h arg argBufLen rfl

theorem controlLoop_cwd {fuel : Nat} {segs : List Bytes} {w : World fs}
    (h : LoopStays baseDir fuel segs w) :
    (controlLoop baseDir fuel segs w).conn.cwd = w.conn.cwd := by
  induction fuel generalizing segs w with
  | zero => rfl
  | succ fuel ih =>
      obtain ⟨hstays, hrest⟩ := h
      have hstep := (controlStep_cwd_iff baseDir segs w).mpr hstays
      simp only [controlLoop]
      split
      · exact hstep
      · rename_i hret
        exact (ih (hrest (Int.not_lt.mp hret))).trans hstep

theorem sendSimpleResponse_setCmdBuf (w : World fs) (cmdBuf : CmdBuf lftpdMaxPathLen) (code : Int)
    (body : Bytes) :
    sendSimpleResponse (setCmdBuf w cmdBuf) code body =
      ((sendSimpleResponse w code body).1, setCmdBuf (sendSimpleResponse w code body).2 cmdBuf) := by
  simp only [sendSimpleResponse, sendResponse, if_true, Bool.false_eq_true, if_false]
  split
  · rfl
  · split
    · rfl
    · rfl

theorem controlStep_setCmdBuf (segs : List Bytes) (w : World fs)
    (cmdBuf : CmdBuf lftpdMaxPathLen) :
    controlStep baseDir segs (setCmdBuf w cmdBuf) = controlStep baseDir segs w := by
  have hread : readCommand (setCmdBuf w cmdBuf).conn.cmdBuf segs = readCommand w.conn.cmdBuf segs :=
    readCommand_congr _ _ segs
  simp only [controlStep, hread]
  rfl

/-- What the client, the network and the file system see of a session. -/
def outcome (w : World fs) : List Event × fs.State :=
  (w.events, w.files)

theorem closeSession_cwd (w : World fs) : (closeSession w).conn.cwd = w.conn.cwd := by
  obtain ⟨⟨cwd, cmdBuf, socket, dataSocket⟩, files, net, events⟩ := w
  cases socket with
  | none => cases dataSocket <;> rfl
  | some socket => cases dataSocket <;> rfl

theorem closeSession_setCmdBuf (w : World fs) (cmdBuf : CmdBuf lftpdMaxPathLen) :
    outcome (closeSession (setCmdBuf w cmdBuf)) = outcome (closeSession w) := by
  obtain ⟨⟨cwd, cmdBuf', socket, dataSocket⟩, files, net, events⟩ := w
  cases socket with
  | none => cases dataSocket <;> rfl
  | some socket => cases dataSocket <;> rfl

theorem handleControlChannel_setCmdBuf (control : List Bytes) (w : World fs)
    (cmdBuf : CmdBuf lftpdMaxPathLen) :
    outcome (handleControlChannel baseDir control (setCmdBuf w cmdBuf)) =
      outcome (handleControlChannel baseDir control w) := by
  simp only [handleControlChannel, sendSimpleResponse_setCmdBuf]
  split
  · exact closeSession_setCmdBuf _ cmdBuf
  · simp only [controlLoop, controlStep_setCmdBuf]

theorem serve_outcome_congr {conn conn' : Conn} (hcwd : conn'.cwd = conn.cwd)
    (hdata : conn'.dataSocket = conn.dataSocket) (files : fs.State) (session : Session) :
    outcome (serve baseDir conn' files session) = outcome (serve baseDir conn files session) := by
  obtain ⟨cwd', cmdBuf', socket', dataSocket'⟩ := conn'
  subst hcwd hdata
  exact handleControlChannel_setCmdBuf baseDir session.control
    { conn := { conn with socket := some session.socket }, files, net := session.net, events := [] }
    cmdBuf'

theorem lftpdConnRun_dataSocket {conn : Conn} (hconn : conn.dataSocket = none)
    (history : List (fs.State × Session)) :
    (lftpdConnRun baseDir conn history).dataSocket = none :=
  invariant_run_of_step (P := fun conn : Conn => conn.dataSocket = none) (fun _ _ _ => rfl) hconn
    history

def quietNet : Net :=
  ⟨[], [], [], [], []⟩

/-- A client that asks for the working directory. -/
def askCwd : Session :=
  ⟨0, [FtpFraming.pwd], quietNet⟩

theorem sendSimpleResponse_quietNet {w : World fs} (hnet : w.net = quietNet) (code : Int)
    {body : Bytes} (hcode : (decimal code).length ≤ 3) (hbody : body.length ≤ 1000) :
    (sendSimpleResponse w code body).1 = 0 ∧
      (sendSimpleResponse w code body).2.net = quietNet ∧
      (sendSimpleResponse w code body).2.events =
        w.events ++ [.reply (decimal code ++ text " " ++ body ++ crlf)] := by
  have hblank : (text " ").length = 1 := by decide +kernel
  simp only [sendSimpleResponse, sendResponse, if_true, Bool.false_eq_true, if_false, bufLen,
    List.length_append, hblank]
  rw [if_neg (by omega), if_neg (by omega)]
  obtain ⟨conn, files, net, events⟩ := w
  obtain rfl : net = quietNet := hnet
  exact ⟨rfl, rfl, rfl⟩

/-- The reply to a PWD command. -/
def cwdReply (cwd : Bytes) : Bytes :=
  decimal 257 ++ text " " ++ (text "\"" ++ cwd ++ text "\" ") ++ crlf

theorem cwdReply_injective : Function.Injective cwdReply := by
  intro cwd cwd' h
  simp only [cwdReply, List.append_assoc] at h
  have hcwd := List.append_cancel_left (List.append_cancel_left (List.append_cancel_left h))
  exact List.append_cancel_right hcwd

theorem readCommand_pwd (cmdBuf : CmdBuf lftpdMaxPathLen) :
    (readCommand cmdBuf [FtpFraming.pwd]).1 = 5 ∧
      (readCommand cmdBuf [FtpFraming.pwd]).2.2 = [[]] ∧
      splitCommand (readCommand cmdBuf [FtpFraming.pwd]).2.1.val = some (text "PWD", none, 132) := by
  have hclear : readCommand cmdBuf [FtpFraming.pwd] = readCommand (clearCmdBuf _) [FtpFraming.pwd] :=
    readCommand_congr _ _ _
  rw [hclear]
  decide +kernel

theorem readCommand_end (cmdBuf : CmdBuf lftpdMaxPathLen) :
    (readCommand cmdBuf [[]]).1 = -econnreset := by
  have hclear : readCommand cmdBuf [[]] = readCommand (clearCmdBuf _) [[]] := readCommand_congr _ _ _
  rw [hclear]
  decide +kernel

theorem controlLoop_askCwd {w : World fs} (hnet : w.net = quietNet) {socket : Nat}
    (hsocket : w.conn.socket = some socket) (fuel : Nat) :
    (controlLoop baseDir (fuel + 2) [FtpFraming.pwd] w).events =
        w.events ++ [.use socket, .reply (cwdReply w.conn.cwd.val), .use socket] ∧
      (controlLoop baseDir (fuel + 2) [FtpFraming.pwd] w).conn.dataSocket = w.conn.dataSocket ∧
      (controlLoop baseDir (fuel + 2) [FtpFraming.pwd] w).conn.socket = w.conn.socket := by
  obtain ⟨hlen, hrest, hsplit⟩ := readCommand_pwd w.conn.cmdBuf
  rcases hread : readCommand w.conn.cmdBuf [FtpFraming.pwd] with ⟨ret, cmdBuf, rest⟩
  simp only [hread] at hlen hrest hsplit
  subst hlen hrest
  have hbody : (text "\"" ++ w.conn.cwd.val ++ text "\" ").length ≤ 1000 := by
    have hquote : (text "\"").length = 1 := by decide +kernel
    have hend : (text "\" ").length = 2 := by decide +kernel
    have hcwd := w.conn.cwd.property
    simp only [lftpdMaxPathLen] at hcwd
    rw [List.length_append, List.length_append, hquote, hend]
    omega
  have hdispatch : dispatch baseDir (received w cmdBuf) (text "PWD") none 132 =
      sendSimpleResponse (received w cmdBuf) 257
        (text "\"" ++ w.conn.cwd.val ++ text "\" ") := rfl
  have hconn := sendSimpleResponse_conn (received w cmdBuf) 257
    (text "\"" ++ w.conn.cwd.val ++ text "\" ")
  obtain ⟨hsent, -, hevents⟩ := sendSimpleResponse_quietNet (w := received w cmdBuf) hnet 257
    (by decide +kernel) hbody
  rw [controlLoop, controlStep_command baseDir hread (by decide) hsplit, hdispatch]
  generalize sendSimpleResponse (received w cmdBuf) 257
    (text "\"" ++ w.conn.cwd.val ++ text "\" ") = reply at *
  obtain ⟨ret, w₁⟩ := reply
  simp only at hsent hevents hconn ⊢
  rw [hsent, if_neg (by decide), controlLoop]
  have hlast := readCommand_end w₁.conn.cmdBuf
  rcases hread' : readCommand w₁.conn.cmdBuf [[]] with ⟨ret', cmdBuf', rest⟩
  simp only [hread'] at hlast
  subst hlast
  rw [controlStep_end baseDir hread' (by decide) (by decide)]
  simp only [econnreset, Int.reduceNeg, Int.reduceLT, if_true]
  have huse : (received w cmdBuf).events = w.events ++ [.use socket] := by
    rw [received, World.useControl]
    exact congrArg (fun control : Option Nat => w.events ++ control.toList.map .use) hsocket
  have hsocket₁ : w₁.conn.socket = some socket := by
    rw [hconn]
    exact hsocket
  refine ⟨?_, ?_, ?_⟩
  · rw [received, World.useControl]
    change w₁.events ++ w₁.conn.socket.toList.map .use = _
    rw [hsocket₁, hevents, huse, List.append_assoc, List.append_assoc]
    rfl
  · change w₁.conn.dataSocket = w.conn.dataSocket
    rw [hconn]
    rfl
  · change w₁.conn.socket = w.conn.socket
    rw [hconn]
    rfl

theorem closeSession_events {w : World fs} {socket : Nat} (hdata : w.conn.dataSocket = none)
    (hsocket : w.conn.socket = some socket) :
    (closeSession w).events = w.events ++ [.close socket] := by
  simp only [closeSession, hdata, hsocket]
  rfl

theorem handleControlChannel_askCwd {w : World fs} {socket : Nat} (hnet : w.net = quietNet)
    (hdata : w.conn.dataSocket = none) (hsocket : w.conn.socket = some socket) :
    (handleControlChannel baseDir [FtpFraming.pwd] w).events =
      w.events ++ [.reply (decimal 220 ++ text " " ++ status220 ++ crlf)] ++
        [.use socket, .reply (cwdReply w.conn.cwd.val), .use socket] ++ [.close socket] := by
  obtain ⟨hret, hquiet, hevents⟩ := sendSimpleResponse_quietNet (w := w) hnet 220
    (by decide +kernel) (by decide +kernel : status220.length ≤ 1000)
  have hconn := sendSimpleResponse_conn w 220 status220
  have hfuel : [FtpFraming.pwd].flatten.length + 1 = 4 + 2 := by decide
  have hcontrol := hsocket
  rw [← hconn] at hcontrol
  simp only [handleControlChannel]
  obtain ⟨hloop, hloopData, hloopSocket⟩ := controlLoop_askCwd baseDir hquiet hcontrol 4
  rw [hconn] at hloop hloopData hloopSocket
  rw [hret, if_neg (by decide), hfuel,
    closeSession_events (hloopData.trans hdata) (hloopSocket.trans hsocket), hloop, hevents]

theorem serve_askCwd {conn : Conn} (hconn : conn.dataSocket = none) (files : fs.State) :
    (serve baseDir conn files askCwd).events =
      [.reply (decimal 220 ++ text " " ++ status220 ++ crlf), .use 0,
        .reply (cwdReply conn.cwd.val), .use 0, .close 0] :=
  handleControlChannel_askCwd baseDir rfl hconn rfl

theorem lftpdConnInit_some {conn : Conn} (hconn : lftpdConnInit baseDir = some conn) :
    lftpdPathResolve baseDir baseDir (some []) (lftpdMaxPathLen + 1) = .ok conn.cwd.val ∧
      conn.dataSocket = none := by
  simp only [lftpdConnInit] at hconn
  split at hconn
  · cases hconn
  · rename_i cwd hcwd
    cases hconn
    exact ⟨hcwd, rfl⟩

/-- No command of the session changes to another directory. -/
def SessionStays (conn : Conn) (input : fs.State × Session) : Prop :=
  let w : World fs := {
    conn := { conn with socket := some input.2.socket }
    files := input.1
    net := input.2.net
    events := [] }
  LoopStays baseDir (input.2.control.flatten.length + 1) input.2.control
    (sendSimpleResponse w 220 status220).2

instance (conn : Conn) (input : fs.State × Session) :
    Decidable (SessionStays baseDir conn input) :=
  decidableLoopStays baseDir _ _ _

/-- What is left to the next session after one of them. -/
def serveStep (conn : Conn) (input : fs.State × Session) : Conn :=
  (serve baseDir conn input.1 input.2).conn

theorem serve_cwd {conn : Conn} {input : fs.State × Session}
    (h : SessionStays baseDir conn input) :
    (serve baseDir conn input.1 input.2).conn.cwd = conn.cwd := by
  simp only [serve, handleControlChannel, closeSession_cwd]
  split
  · rw [sendSimpleResponse_conn]
  · rw [controlLoop_cwd baseDir h, sendSimpleResponse_conn]

theorem lftpdConnRun_cwd {conn : Conn} {history : List (fs.State × Session)}
    (h : Along (serveStep baseDir) (SessionStays baseDir) conn history) :
    (lftpdConnRun baseDir conn history).cwd = conn.cwd :=
  invariant_run (P := fun last : Conn => last.cwd = conn.cwd)
    (fun _ _ hlast hstays => (serve_cwd baseDir hstays).trans hlast) rfl h

theorem outcome_eq_iff {conn : Conn} (hdata : conn.dataSocket = none)
    (history history' : List (fs.State × Session)) :
    (∀ (files : fs.State) (session : Session),
        outcome (serve baseDir (lftpdConnRun baseDir conn history) files session) =
          outcome (serve baseDir (lftpdConnRun baseDir conn history') files session)) ↔
      (lftpdConnRun baseDir conn history).cwd = (lftpdConnRun baseDir conn history').cwd := by
  have hnone := lftpdConnRun_dataSocket baseDir hdata history
  have hnone' := lftpdConnRun_dataSocket baseDir hdata history'
  constructor
  · intro h
    rcases Classical.em (Nonempty fs.State) with ⟨⟨files⟩⟩ | hempty
    · have hevents := congrArg Prod.fst (h files askCwd)
      simp only [outcome, serve_askCwd baseDir hnone, serve_askCwd baseDir hnone', List.cons.injEq,
        Event.reply.injEq, true_and, and_true] at hevents
      exact Subtype.ext (cwdReply_injective hevents)
    · have hnil : ∀ history : List (fs.State × Session), history = [] := by
        intro history
        cases history with
        | nil => rfl
        | cons input history => exact absurd ⟨input.1⟩ hempty
      rw [hnil history, hnil history']
  · intro h files session
    exact serve_outcome_congr baseDir h (hnone.trans hnone'.symm) files session

def AtBase (conn : Conn) : Prop :=
  lftpdPathResolve baseDir baseDir (some []) (lftpdMaxPathLen + 1) = .ok conn.cwd.val

/-- The next session is the same after both histories, and starts in the directory
that is resolved from the base directory. -/
structure Isolated (conn : Conn) (history history' : List (fs.State × Session)) : Prop where
  outcomes : ∀ (files : fs.State) (session : Session),
    outcome (serve baseDir (lftpdConnRun baseDir conn history) files session) =
      outcome (serve baseDir (lftpdConnRun baseDir conn history') files session)
  atBase : AtBase baseDir (lftpdConnRun baseDir conn history)
  atBase' : AtBase baseDir (lftpdConnRun baseDir conn history')

/-- Sessions are isolated from histories in which no command changes to another
directory. -/
theorem isolated_run {conn : Conn} (hconn : lftpdConnInit baseDir = some conn)
    {history history' : List (fs.State × Session)}
    (h : Along (serveStep baseDir) (SessionStays baseDir) conn history)
    (h' : Along (serveStep baseDir) (SessionStays baseDir) conn history') :
    Isolated baseDir conn history history' := by
  obtain ⟨hcwd, hdata⟩ := lftpdConnInit_some baseDir hconn
  have hlast := lftpdConnRun_cwd baseDir h
  have hlast' := lftpdConnRun_cwd baseDir h'
  refine ⟨(outcome_eq_iff baseDir hdata history history').mpr (hlast.trans hlast'.symm), ?_, ?_⟩
  · rw [AtBase, hlast]
    exact hcwd
  · rw [AtBase, hlast']
    exact hcwd

end

/-- A client that changes to the directory `/SD:`. -/
def changeCwd : Session :=
  ⟨5, [text "CWD SD:" ++ crlf], quietNet⟩

instance : DecidableEq disk.State :=
  inferInstanceAs (DecidableEq (List (Bytes × Bytes)))

def emptyDisk : disk.State :=
  ([] : List (Bytes × Bytes))

/-- The connection whose base directory is the root. -/
def rootConn : Conn where
  cwd := ⟨[slash], by decide⟩
  cmdBuf := clearCmdBuf lftpdMaxPathLen
  socket := none
  dataSocket := none

/-- No directory of this name is mounted. -/
def refusedCwd : Session :=
  ⟨6, [text "CWD NAND" ++ crlf], quietNet⟩

def sameCwd : Session :=
  ⟨7, [text "NOOP" ++ crlf ++ text "CWD ", text "/" ++ crlf], quietNet⟩

theorem isolated_run_sameCwd :
    Isolated [slash] rootConn [(emptyDisk, refusedCwd)]
      [(emptyDisk, askCwd), (emptyDisk, sameCwd)] :=
  isolated_run [slash] (by decide +kernel) (by decide +kernel) (by decide +kernel)

/-- A directory that an earlier session changed to is where the next one starts. -/
theorem not_isolated_of_changeCwd :
    (serve [slash] rootConn emptyDisk changeCwd).files = emptyDisk ∧
      outcome (serve [slash] (lftpdConnRun [slash] rootConn [(emptyDisk, changeCwd)]) emptyDisk
          askCwd) ≠
        outcome (serve [slash] rootConn emptyDisk askCwd) := by
  constructor
  · decide +kernel
  · intro h
    have hevents := congrArg Prod.fst h
    revert hevents
    decide +kernel

end ZeusLe.FtpSessions
