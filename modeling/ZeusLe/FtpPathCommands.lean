import ZeusLe.FtpServer
import ZeusLe.FtpTransfer

/-! The path that each command of the FTP server acts on. -/

namespace ZeusLe.FtpPathCommands

open ZeusLe.Library.Segments
open ZeusLe.FtpLine
open ZeusLe.FtpFiles
open ZeusLe.FtpPath
open ZeusLe.Ftp
open ZeusLe.FtpSteps
open ZeusLe.FtpServer
open ZeusLe.FtpTransfer

/-- The commands that take a path. -/
inductive PathCommand where
  | cwd
  | dele
  | mkd
  | nlst
  | retr
  | rmd
  | size
  | stor
  deriving DecidableEq, Repr

/-- An argument that is not the null pointer. -/
abbrev Argument := { arg : Bytes // arg ≠ [] }

theorem splitCommand_argument {buf command : Bytes} {arg : Option Bytes} {argBufLen : Nat}
    (h : splitCommand buf = some (command, arg, argBufLen)) :
    ∃ argument : Option Argument, arg = argument.map Subtype.val := by
  simp only [splitCommand] at h
  split at h
  · cases h
  · cases h
    split
    · exact ⟨none, rfl⟩
    · rename_i hne
      exact ⟨some ⟨_, hne⟩, rfl⟩

def fsCallOf : Event → Option FsCall
  | .fs call => some call
  | _ => none

section

variable {fs : FileSystem}

/-- The calls on the file system since `w`. -/
def fsCalls (w w' : World fs) : List FsCall :=
  (newEvents w w').filterMap fsCallOf

def Calls (w w' : World fs) (calls : List FsCall) : Prop :=
  ∃ new, w'.events = w.events ++ new ∧ new.filterMap fsCallOf = calls

theorem Calls.refl (w : World fs) : Calls w w [] :=
  ⟨[], (List.append_nil _).symm, rfl⟩

theorem Calls.trans {w w' w'' : World fs} {calls calls' : List FsCall} (h : Calls w w' calls)
    (h' : Calls w' w'' calls') : Calls w w'' (calls ++ calls') := by
  obtain ⟨new, hnew, rfl⟩ := h
  obtain ⟨new', hnew', rfl⟩ := h'
  exact ⟨new ++ new', by rw [hnew', hnew, List.append_assoc], List.filterMap_append⟩

theorem Calls.fsCalls_eq {w w' : World fs} {calls : List FsCall} (h : Calls w w' calls) :
    fsCalls w w' = calls := by
  obtain ⟨new, hnew, hcalls⟩ := h
  rw [fsCalls, newEvents_eq hnew, hcalls]

theorem calls_fs {w w' : World fs} {call : FsCall} (hnew : w'.events = w.events ++ [.fs call]) :
    Calls w w' [call] :=
  ⟨[.fs call], hnew, rfl⟩

theorem calls_log {w w' : World fs} {event : Event} (hnew : w'.events = w.events ++ [event])
    (hevent : fsCallOf event = none) : Calls w w' [] :=
  ⟨[event], hnew, List.filterMap_cons_none hevent⟩

theorem calls_reply (w : World fs) (code : Int) (body : Bytes) :
    Calls w (sendSimpleResponse w code body).2 [] := by
  obtain ⟨new, hnew, hreplies⟩ := sendSimpleResponse_replies w code body
  refine ⟨new, hnew, ?_⟩
  apply List.filterMap_eq_nil_iff.mpr
  intro event hevent
  obtain ⟨sent, rfl, -⟩ := hreplies event hevent
  rfl

theorem Calls.reply {w w' : World fs} {calls : List FsCall} (h : Calls w w' calls) (code : Int)
    (body : Bytes) : Calls w (sendSimpleResponse w' code body).2 calls := by
  have hreply := h.trans (calls_reply w' code body)
  rw [List.append_nil] at hreply
  exact hreply

/-- Any calls, all on `path`. -/
def CallsOn (path : Bytes) (w w' : World fs) : Prop :=
  ∃ calls, Calls w w' calls ∧ ∀ call ∈ calls, callPath call = path

theorem CallsOn.of_nil {path : Bytes} {w w' : World fs} (h : Calls w w' []) : CallsOn path w w' :=
  ⟨[], h, fun _ hcall => absurd hcall List.not_mem_nil⟩

theorem callsOn_fs {path : Bytes} {w w' : World fs} {call : FsCall}
    (hnew : w'.events = w.events ++ [.fs call]) (hpath : callPath call = path) :
    CallsOn path w w' := by
  refine ⟨[call], calls_fs hnew, ?_⟩
  intro other hother
  rw [List.mem_singleton.mp hother, hpath]

theorem CallsOn.trans {path : Bytes} {w w' w'' : World fs} (h : CallsOn path w w')
    (h' : CallsOn path w' w'') : CallsOn path w w'' := by
  obtain ⟨calls, hcalls, hpath⟩ := h
  obtain ⟨calls', hcalls', hpath'⟩ := h'
  refine ⟨calls ++ calls', hcalls.trans hcalls', ?_⟩
  intro call hcall
  rcases List.mem_append.mp hcall with hcall | hcall
  · exact hpath call hcall
  · exact hpath' call hcall

/-- The calls start with `first`, and all are on its path. -/
def StartsWith (first : FsCall) (w w' : World fs) : Prop :=
  ∃ rest, Calls w w' (first :: rest) ∧ ∀ call ∈ rest, callPath call = callPath first

theorem StartsWith.of_call {first : FsCall} {w w' w'' : World fs} (h : Calls w w' [first])
    (h' : CallsOn (callPath first) w' w'') : StartsWith first w w'' := by
  obtain ⟨rest, hrest, hpath⟩ := h'
  exact ⟨rest, h.trans hrest, hpath⟩

theorem StartsWith.between {first : FsCall} {w w₁ w₂ w' : World fs} (hbefore : Calls w w₁ [])
    (h : StartsWith first w₁ w₂) (hafter : Calls w₂ w' []) : StartsWith first w w' := by
  obtain ⟨rest, hrest, hpath⟩ := h
  have hall := (hbefore.trans hrest).trans hafter
  rw [List.nil_append, List.append_nil] at hall
  exact ⟨rest, hall, hpath⟩

theorem spans_callsOn (socket : Nat) (path : Bytes) : Spans socket path (@CallsOn fs path) where
  refl w := .of_nil (.refl w)
  trans := .trans
  fs hnew _ hpath := callsOn_fs hnew hpath
  data _ _ := .of_nil (calls_log rfl rfl)
  use _ := .of_nil (calls_log rfl rfl)

theorem startsWith_receiveFile (w : World fs) (data : DataConn) (path : Bytes) :
    StartsWith (.open path .writeCreate) w (receiveFile w data path).2 :=
  .of_call (calls_fs rfl) ((spans_callsOn data.socket path).receiveFile_opened w)

theorem startsWith_sendFile (w : World fs) (data : DataConn) (path : Bytes) :
    StartsWith (.open path .read) w (sendFile w data.socket path).2 :=
  .of_call (calls_fs rfl) ((spans_callsOn data.socket path).sendFile_opened w)

theorem startsWith_sendNlst (w : World fs) (socket : Nat) (path : Bytes) :
    StartsWith (.opendir path) w (sendNlst w socket path).2 :=
  .of_call (calls_fs rfl) ((spans_callsOn socket path).sendNlst_opened w)

/-- The entries of a directory up to its end. -/
def entriesRead : List (Except Int FsDirent) → List FsDirent
  | .ok entry :: entries => if entry.name = [] then [] else entry :: entriesRead entries
  | _ => []

def nameLine (entry : FsDirent) : Bytes :=
  if entry.type = .file then entry.name ++ crlf else []

/-- The names of the regular files in a directory, a line each. -/
def fileNames (opened : Except Int (List (Except Int FsDirent))) : Bytes :=
  (entriesRead (opened.toOption.getD [])).flatMap nameLine

def Sends (w w' : World fs) (bytes : Bytes) : Prop :=
  ∃ new, w'.events = w.events ++ new ∧ new.flatMap dataOf = bytes

theorem Sends.trans {w w' w'' : World fs} {bytes bytes' : Bytes} (h : Sends w w' bytes)
    (h' : Sends w' w'' bytes') : Sends w w'' (bytes ++ bytes') := by
  obtain ⟨new, hnew, rfl⟩ := h
  obtain ⟨new', hnew', rfl⟩ := h'
  exact ⟨new ++ new', by rw [hnew', hnew, List.append_assoc], List.flatMap_append⟩

theorem Sends.dataSent_eq {w w' : World fs} {bytes : Bytes} (h : Sends w w' bytes) :
    dataSent w w' = bytes := by
  obtain ⟨new, hnew, hbytes⟩ := h
  rw [dataSent, newEvents_eq hnew, hbytes]

theorem sends_log {w w' : World fs} {event : Event} (hnew : w'.events = w.events ++ [event])
    (hevent : dataOf event = []) : Sends w w' [] :=
  ⟨[event], hnew, (List.flatMap_singleton dataOf event).trans hevent⟩

theorem sends_reply (w : World fs) (code : Int) (body : Bytes) :
    Sends w (sendSimpleResponse w code body).2 [] := by
  obtain ⟨new, hnew, hreplies⟩ := sendSimpleResponse_replies w code body
  exact ⟨new, hnew, dataOf_replies hreplies⟩

theorem sends_data {w : World fs} {socket : Nat} {bytes : Bytes}
    (hret : 0 ≤ (w.send (.data socket) bytes).1) :
    Sends w (w.send (.data socket) bytes).2 bytes := by
  rcases sendLoop_ret bytes w.net.sends with hfail | ⟨-, hsent⟩
  · exact absurd hfail (Int.not_lt.mpr hret)
  · refine ⟨[.data socket bytes], ?_, List.append_nil _⟩
    simp only [World.send, World.log, hsent]

theorem sends_forEntries {path : Bytes} {next : World fs → FsDirent → Int × World fs}
    (hnext : ∀ w entry, 0 ≤ (next w entry).1 → Sends w (next w entry).2 (nameLine entry))
    (entries : List (Except Int FsDirent)) {w : World fs}
    (hret : 0 ≤ (forEntries path next w entries).1) :
    Sends w (forEntries path next w entries).2 ((entriesRead entries).flatMap nameLine) := by
  have hread (w : World fs) : Sends w (w.log (.fs (.readdir path))) [] := sends_log rfl rfl
  induction entries generalizing w with
  | nil => exact hread w
  | cons result entries ih =>
      cases result with
      | error ret => exact hread w
      | ok entry =>
          simp only [forEntries] at hret ⊢
          split
          · rename_i hend
            rw [entriesRead, if_pos hend]
            exact hread w
          · rename_i hname
            rw [if_neg hname] at hret
            rw [entriesRead, if_neg hname, List.flatMap_cons]
            split
            · rename_i hfail
              rw [if_pos hfail] at hret
              exact absurd hfail (Int.not_lt.mpr hret)
            · rename_i hfail
              rw [if_neg hfail] at hret
              exact ((hread w).trans (hnext _ entry (Int.not_lt.mp hfail))).trans (ih hret)

theorem sends_sendNlst {w : World fs} {socket : Nat} {path : Bytes}
    (hret : 0 ≤ (sendNlst w socket path).1) :
    Sends w (sendNlst w socket path).2 (fileNames (fs.fsOpendir w.files path)) := by
  have hopen : Sends w (w.log (.fs (.opendir path))) [] := sends_log rfl rfl
  simp only [sendNlst, readDirectory] at hret ⊢
  split
  · rename_i ret hdir
    rw [hdir]
    exact hopen
  · rename_i entries hdir
    simp only [hdir] at hret
    rw [hdir]
    refine hopen.trans ?_
    have hclose (w : World fs) : Sends w (w.log (.fs (.closedir path))) [] := sends_log rfl rfl
    have hentries := (sends_forEntries ?_ entries hret).trans (hclose _)
    · rw [List.append_nil] at hentries
      exact hentries
    · intro w entry hret
      simp only [nameLine]
      split
      · rename_i htype
        rw [if_pos htype] at hret
        split
        · rename_i hfail
          rw [if_pos hfail] at hret
          exact absurd hfail (Int.not_lt.mpr hret)
        · rename_i hname
          rw [if_neg hname] at hret
          exact (sends_data (Int.not_lt.mp hname)).trans (sends_data hret)
      · exact ⟨[], (List.append_nil _).symm, rfl⟩

theorem calls_acceptDataConnection (w : World fs) : Calls w (acceptDataConnection w).2 [] := by
  simp only [acceptDataConnection]
  split
  · exact .refl w
  · rename_i listener _
    have huse : Calls w (World.log (w.lftpdInetGetSocketPort listener).2 (.use listener)) [] :=
      (calls_log rfl rfl : Calls w (w.lftpdInetGetSocketPort listener).2 []).trans
        (calls_log rfl rfl)
    split
    · exact huse.trans (calls_log rfl rfl)
    · exact huse.trans (calls_log rfl rfl)

theorem calls_zsockClose (w : World fs) (socket : Nat) : Calls w (w.zsockClose socket) [] :=
  calls_log rfl rfl

/-- A data connection is accepted, and the reply 150 is sent. -/
def Opens (w : World fs) : Prop :=
  w.conn.dataSocket.isSome ∧ w.net.accepts.head?.join.isSome ∧
    0 ≤ (sendLoop (replyText 150 status150) w.net.sends).2.1

instance (w : World fs) : Decidable (Opens w) :=
  inferInstanceAs (Decidable (_ ∧ _ ∧ _))

theorem acceptDataConnection_isSome (w : World fs) :
    (acceptDataConnection w).1.isSome ↔
      w.conn.dataSocket.isSome ∧ w.net.accepts.head?.join.isSome := by
  simp only [acceptDataConnection]
  cases w.conn.dataSocket with
  | none => exact ⟨fun h => absurd h Bool.false_ne_true, fun h => absurd h.1 Bool.false_ne_true⟩
  | some listener =>
      simp only [World.lftpdInetGetSocketPort, World.log]
      cases w.net.accepts.head?.join with
      | none => exact ⟨fun h => absurd h Bool.false_ne_true, fun h => absurd h.2 Bool.false_ne_true⟩
      | some data => exact ⟨fun _ => ⟨rfl, rfl⟩, fun _ => rfl⟩

theorem acceptDataConnection_sends (w : World fs) :
    (acceptDataConnection w).2.net.sends = w.net.sends := by
  simp only [acceptDataConnection]
  split
  · rfl
  · split
    · rfl
    · rfl

theorem opens_iff {w : World fs} {data : DataConn} (h : (acceptDataConnection w).1 = some data) :
    Opens w ↔ 0 ≤ (sendSimpleResponse (acceptDataConnection w).2 150 status150).1 := by
  have hret : (sendSimpleResponse (acceptDataConnection w).2 150 status150).1 =
      (sendLoop (replyText 150 status150) w.net.sends).2.1 := by
    simp only [sendSimpleResponse, sendResponse]
    rw [if_neg (by decide +kernel), if_neg (by decide +kernel)]
    exact congrArg (fun sends => (sendLoop _ sends).2.1) (acceptDataConnection_sends w)
  have hsome := (acceptDataConnection_isSome w).mp (Option.isSome_of_eq_some h)
  rw [hret]
  exact ⟨fun h => h.2.2, fun h => ⟨hsome.1, hsome.2, h⟩⟩

theorem acceptDataConnection_of_opens {w : World fs} (h : Opens w) :
    ∃ data, (acceptDataConnection w).1 = some data := by
  exact Option.isSome_iff_exists.mp ((acceptDataConnection_isSome w).mpr ⟨h.1, h.2.1⟩)

theorem calls_opening (w : World fs) :
    Calls w (sendSimpleResponse (acceptDataConnection w).2 150 status150).2 [] :=
  (calls_acceptDataConnection w).reply 150 status150

variable (baseDir : Bytes)

theorem startsWith_transfer {copy : World fs → DataConn → Bytes → Int × World fs}
    {first : Bytes → FsCall} (hcopy : ∀ w data path, StartsWith (first path) w (copy w data path).2)
    {w : World fs} {arg : Option Bytes} {argBufLen : Nat} {path : Bytes}
    (hpath : lftpdPathResolve baseDir w.conn.cwd.val arg argBufLen = .ok path) (h : Opens w) :
    StartsWith (first path) w (transfer baseDir w arg argBufLen copy).2 := by
  obtain ⟨data, haccept⟩ := acceptDataConnection_of_opens h
  obtain ⟨-, -, hconn, -⟩ := acceptDataConnection_some haccept
  have hret := (opens_iff haccept).mp h
  simp only [transfer, haccept]
  rw [if_neg (Int.not_lt.mpr hret), sendSimpleResponse_conn, hconn]
  simp only [hpath]
  refine .between (calls_opening w) (hcopy _ data path) ?_
  split
  · exact (calls_reply _ 450 status450).trans (calls_zsockClose _ data.socket)
  · exact (calls_reply _ 226 status226).trans (calls_zsockClose _ data.socket)

theorem calls_transfer {copy : World fs → DataConn → Bytes → Int × World fs} {w : World fs}
    {arg : Option Bytes} {argBufLen : Nat} (h : ¬ Opens w) :
    Calls w (transfer baseDir w arg argBufLen copy).2 [] := by
  rcases haccept : (acceptDataConnection w).1 with _ | data
  · simp only [transfer, haccept]
    exact (calls_acceptDataConnection w).reply 425 status425
  · have hret := Int.not_le.mp (fun hret => h ((opens_iff haccept).mpr hret))
    simp only [transfer, haccept]
    rw [if_pos hret]
    exact (calls_opening w).trans (calls_zsockClose _ data.socket)

/-- The argument is left out, or it can be resolved. -/
def Resolves (cwd : Bytes) (arg : Option Bytes) (argBufLen : Nat) : Prop :=
  arg = none ∨ ∃ path, lftpdPathResolve baseDir cwd arg argBufLen = .ok path

theorem nlstReply_eq {w : World fs} {data : DataConn} {arg : Option Bytes} {argBufLen : Nat}
    (h : Resolves baseDir w.conn.cwd.val arg argBufLen) :
    nlstReply baseDir w data arg argBufLen = nlstReply baseDir w data none 0 := by
  rcases h with rfl | ⟨path, hpath⟩
  · rfl
  · simp only [nlstReply, hpath]

theorem startsWith_cmdNlst {w : World fs} {arg : Option Bytes} {argBufLen : Nat}
    (hpath : Resolves baseDir w.conn.cwd.val arg argBufLen) (h : Opens w) :
    StartsWith (.opendir w.conn.cwd.val) w (cmdNlst baseDir w arg argBufLen).2 := by
  obtain ⟨data, haccept⟩ := acceptDataConnection_of_opens h
  obtain ⟨-, -, hconn, -⟩ := acceptDataConnection_some haccept
  have hret := (opens_iff haccept).mp h
  rw [← hconn] at hpath ⊢
  simp only [cmdNlst, haccept]
  rw [nlstReply_eq baseDir hpath]
  simp only [nlstReply]
  rw [if_neg (Int.not_lt.mpr hret), sendSimpleResponse_conn]
  refine .between (calls_opening w) (startsWith_sendNlst _ data.socket _) ?_
  split
  · exact (calls_reply _ 550 status550).trans (calls_zsockClose _ data.socket)
  · exact (calls_reply _ 226 status226).trans (calls_zsockClose _ data.socket)

theorem calls_cmdNlst {w : World fs} {arg : Option Bytes} {argBufLen : Nat}
    (hpath : Resolves baseDir w.conn.cwd.val arg argBufLen) (h : ¬ Opens w) :
    Calls w (cmdNlst baseDir w arg argBufLen).2 [] := by
  rcases haccept : (acceptDataConnection w).1 with _ | data
  · simp only [cmdNlst, haccept]
    exact (calls_acceptDataConnection w).reply 425 status425
  · obtain ⟨-, -, hconn, -⟩ := acceptDataConnection_some haccept
    have hret := Int.not_le.mp (fun hret => h ((opens_iff haccept).mpr hret))
    rw [← hconn] at hpath
    simp only [cmdNlst, haccept]
    rw [nlstReply_eq baseDir hpath]
    simp only [nlstReply]
    rw [if_pos hret]
    exact (calls_opening w).trans (calls_zsockClose _ data.socket)

theorem cmdNlst_answers {w : World fs} {arg : Option Bytes} {argBufLen : Nat}
    (hpath : Resolves baseDir w.conn.cwd.val arg argBufLen)
    (h : Answers w (cmdNlst baseDir w arg argBufLen).2) :
    Opens w ∧ dataSent w (cmdNlst baseDir w arg argBufLen).2 =
      fileNames (fs.fsOpendir w.files w.conn.cwd.val) := by
  have hquiet := quiet_acceptDataConnection w
  rcases haccept : (acceptDataConnection w).1 with _ | data
  · simp only [cmdNlst, haccept] at h
    exact absurd h (hquiet.trans (quiet_reply _ 425 status425 (by decide +kernel))).not_answers
  · obtain ⟨-, ⟨listener, hevents⟩, hconn, hfiles⟩ := acceptDataConnection_some haccept
    rw [opens_iff haccept, ← hconn, ← hfiles]
    rw [← hconn] at hpath
    simp only [cmdNlst, haccept] at h ⊢
    rw [nlstReply_eq baseDir hpath] at h ⊢
    simp only [nlstReply] at h ⊢
    rw [sendSimpleResponse_conn] at h ⊢
    replace hquiet := hquiet.trans
      (quiet_reply (acceptDataConnection w).2 150 status150 (by decide +kernel))
    split at h
    · exact absurd h (hquiet.trans (quiet_zsockClose _ _)).not_answers
    · rename_i hret
      rw [if_neg hret]
      have hlisted := hquiet.trans
        ((spans_quiet data.socket (acceptDataConnection w).2.conn.cwd.val).sendNlst _)
      split at h
      · exact absurd h ((hlisted.trans (quiet_reply _ 550 status550 (by decide +kernel))).trans
          (quiet_zsockClose _ _)).not_answers
      · rename_i hfail
        rw [if_neg hfail]
        refine ⟨Int.not_lt.mp hret, ?_⟩
        have haccepted : Sends w (acceptDataConnection w).2 [] := ⟨_, hevents, rfl⟩
        have hsent := (haccepted.trans (sends_reply _ 150 status150)).trans
          (sends_sendNlst (Int.not_lt.mp hfail))
        have hclose (w : World fs) : Sends w (w.zsockClose data.socket) [] := sends_log rfl rfl
        have hall := (hsent.trans (sends_reply _ 226 status226)).trans (hclose _)
        rw [hall.dataSent_eq, sendSimpleResponse_files]
        simp only [List.nil_append, List.append_nil]

/-- What asks whether a path is a directory: nothing for the root, and a mount point
is not an entry of a directory. -/
def directoryCalls (path : Bytes) : List FsCall :=
  if path = [slash] then []
  else if path.head? = some slash ∧ slash ∉ path.tail then [.statvfs path]
  else [.stat path]

theorem calls_checkDirectory (w : World fs) (path : Bytes) :
    Calls w (checkDirectory w path).2 (directoryCalls path) := by
  simp only [checkDirectory, directoryCalls]
  split
  · exact .refl w
  · split
    · exact calls_fs rfl
    · split
      · exact calls_fs rfl
      · exact calls_fs rfl

section

variable {w : World fs} {arg : Argument} {argBufLen : Nat} {path : Bytes}
  (hpath : lftpdPathResolve baseDir w.conn.cwd.val (some arg.val) argBufLen = .ok path)

include hpath

theorem calls_cmdCwd :
    Calls w (cmdCwd baseDir w (some arg.val) argBufLen).2 (directoryCalls path) := by
  have hcheck := calls_checkDirectory w path
  simp only [cmdCwd, Option.getD_some, if_neg arg.property, hpath]
  split
  · exact hcheck.reply 550 status550
  · split
    · rename_i hlen
      have hchange : Calls w { (checkDirectory w path).2 with
          conn := { (checkDirectory w path).2.conn with cwd := ⟨path, hlen⟩ } }
            (directoryCalls path) :=
        hcheck
      exact hchange.reply 250 status250
    · exact hcheck.reply 553 status553

theorem cmdCwd_cwd :
    (cmdCwd baseDir w (some arg.val) argBufLen).2.conn.cwd.val =
      if (checkDirectory w path).1 ∧ path.length ≤ lftpdMaxPathLen then path
      else w.conn.cwd.val := by
  simp only [cmdCwd, Option.getD_some, if_neg arg.property, hpath]
  split
  · rename_i hvalid
    rw [sendSimpleResponse_conn, checkDirectory_conn, if_neg]
    rintro ⟨hdir, -⟩
    rw [hdir] at hvalid
    exact Bool.false_ne_true hvalid
  · rename_i hvalid
    have hdir : (checkDirectory w path).1 = true := by
      cases hcheck : (checkDirectory w path).1 with
      | true => rfl
      | false => exact absurd (by rw [hcheck]; rfl) hvalid
    split
    · rename_i hlen
      rw [sendSimpleResponse_conn, if_pos ⟨hdir, hlen⟩]
    · rename_i hlen
      rw [sendSimpleResponse_conn, checkDirectory_conn, if_neg (fun h => hlen h.2)]

theorem calls_cmdDele : Calls w (cmdDele baseDir w (some arg.val) argBufLen).2 [.unlink path] := by
  have hunlink : Calls w (w.fsUnlink path).2 [.unlink path] := calls_fs rfl
  simp only [cmdDele, Option.getD_some, if_neg arg.property, hpath]
  split
  · exact hunlink.reply 550 status550
  · exact hunlink.reply 250 status250

theorem calls_cmdMkd : Calls w (cmdMkd baseDir w (some arg.val) argBufLen).2 [.mkdir path] := by
  have hmkdir : Calls w (w.fsMkdir path).2 [.mkdir path] := calls_fs rfl
  simp only [cmdMkd, reduceCtorEq, if_false, hpath]
  split
  · exact hmkdir.reply 550 status550
  · exact hmkdir.reply 257 (status257 path)

theorem calls_cmdSize : Calls w (cmdSize baseDir w (some arg.val) argBufLen).2 [.stat path] := by
  have hstat : Calls w (w.fsStat path).2 [.stat path] := calls_fs rfl
  simp only [cmdSize, reduceCtorEq, if_false, hpath]
  split
  · exact hstat.reply 550 status550
  · exact hstat.reply 213 _

end

/-- A directory is removed, anything else is left alone. -/
def removalCalls (found : Except Int FsDirent) (path : Bytes) : List FsCall :=
  if found.toOption.any (·.type = .dir) then [.stat path, .unlink path] else [.stat path]

theorem calls_cmdRmd {w : World fs} {arg : Argument} {argBufLen : Nat} {path : Bytes}
    (hpath : lftpdPathResolve baseDir w.conn.cwd.val (some arg.val) argBufLen = .ok path) :
    Calls w (cmdRmd baseDir w (some arg.val) argBufLen).2
      (removalCalls (fs.fsStat w.files path) path) := by
  have hstat : Calls w (w.fsStat path).2 [.stat path] := calls_fs rfl
  have hunlink : Calls (w.fsStat path).2 ((w.fsStat path).2.fsUnlink path).2 [.unlink path] :=
    calls_fs rfl
  simp only [cmdRmd, reduceCtorEq, if_false, hpath]
  change Calls w _ (removalCalls (w.fsStat path).1 path)
  split
  · rename_i ret hfound
    rw [hfound]
    exact hstat.reply 550 status550
  · rename_i entry hfound
    rw [hfound]
    rcases Classical.em (entry.type = .dir) with hdir | hfile
    · have hboth := hstat.trans hunlink
      simp only [removalCalls, Except.toOption, Option.any_some, hdir, ne_eq, not_true_eq_false,
        if_false]
      split
      · exact hboth.reply 550 status550
      · exact hboth.reply 250 status250
    · simp only [removalCalls, Except.toOption, Option.any_some, decide_eq_false hfile,
        Bool.false_eq_true, if_false, if_pos hfile]
      exact hstat.reply 550 status550

def PathCommand.name : PathCommand → Bytes
  | .cwd => text "CWD"
  | .dele => text "DELE"
  | .mkd => text "MKD"
  | .nlst => text "NLST"
  | .retr => text "RETR"
  | .rmd => text "RMD"
  | .size => text "SIZE"
  | .stor => text "STOR"

def PathCommand.handler : PathCommand → World fs → Option Bytes → Nat → Int × World fs
  | .cwd => cmdCwd baseDir
  | .dele => cmdDele baseDir
  | .mkd => cmdMkd baseDir
  | .nlst => cmdNlst baseDir
  | .retr => cmdRetr baseDir
  | .rmd => cmdRmd baseDir
  | .size => cmdSize baseDir
  | .stor => cmdStor baseDir

theorem dispatch_name (command : PathCommand) (w : World fs) (arg : Option Bytes)
    (argBufLen : Nat) :
    dispatch baseDir w command.name arg argBufLen = command.handler baseDir w arg argBufLen := by
  cases command
  all_goals rfl

/-- The path a command is given. Only NLST has one when its argument is left out. -/
def PathCommand.target (command : PathCommand) (cwd : Bytes) (arg : Option Argument)
    (argBufLen : Nat) : Option Bytes :=
  if arg = none ∧ command = .nlst then some cwd
  else (lftpdPathResolve baseDir cwd (arg.map Subtype.val) argBufLen).toOption

/-- Whether a command gets to its operation. The transfers do when they can start. -/
def PathCommand.Starts (command : PathCommand) (w : World fs) : Prop :=
  match command with
  | .nlst => Opens w
  | .retr => Opens w
  | .stor => Opens w
  | _ => True

/-- The calls of an operation on `path`. What follows them are the reads, the writes
and the close of what they have opened. -/
def PathCommand.operation (command : PathCommand) (files : fs.State) (path : Bytes) :
    List FsCall :=
  match command with
  | .cwd => directoryCalls path
  | .dele => [.unlink path]
  | .mkd => [.mkdir path]
  | .nlst => [.opendir path]
  | .retr => [.open path .read]
  | .rmd => removalCalls (fs.fsStat files path) path
  | .size => [.stat path]
  | .stor => [.open path .writeCreate]

theorem operation_path (command : PathCommand) (files : fs.State) (path : Bytes) :
    ∀ call ∈ command.operation files path, callPath call = path := by
  have hone (call : FsCall) (hcall : callPath call = path) :
      ∀ other ∈ [call], callPath other = path := by
    intro other hother
    rw [List.mem_singleton.mp hother, hcall]
  cases command with
  | cwd =>
      simp only [PathCommand.operation, directoryCalls]
      split
      · exact fun _ hcall => absurd hcall List.not_mem_nil
      · split
        · exact hone _ rfl
        · exact hone _ rfl
  | rmd =>
      simp only [PathCommand.operation, removalCalls]
      split
      · intro call hcall
        rcases List.mem_cons.mp hcall with rfl | hcall
        · rfl
        · exact hone _ rfl call hcall
      · exact hone _ rfl
  | _ => exact hone _ rfl

/-- The command has acted on `path`: it has called the file system for nothing else,
CWD has made it the working directory, and NLST has sent the files in it. -/
structure ActsOn (path : Bytes) (command : PathCommand) (w w' : World fs) : Prop where
  paths : ∀ call ∈ fsCalls w w', callPath call = path
  operation : command.Starts w → command.operation w.files path <+: fsCalls w w'
  directory : command = .cwd → w'.conn.cwd.val =
    if (checkDirectory w path).1 ∧ path.length ≤ lftpdMaxPathLen then path else w.conn.cwd.val
  listing : command = .nlst → Answers w w' → dataSent w w' = fileNames (fs.fsOpendir w.files path)

def Acts (w : World fs) (command : PathCommand) (arg : Option Argument) (argBufLen : Nat) : Prop :=
  ∀ path, command.target baseDir w.conn.cwd.val arg argBufLen = some path →
    ActsOn path command w (command.handler baseDir w (arg.map Subtype.val) argBufLen).2

/-- A listing of a directory that is not the working directory has started. -/
def FallsBack (w : World fs) (command : PathCommand) (arg : Option Argument) (argBufLen : Nat) :
    Prop :=
  command = .nlst ∧ Opens w ∧
    ∃ path, command.target baseDir w.conn.cwd.val arg argBufLen = some path ∧
      path ≠ w.conn.cwd.val

theorem target_some (command : PathCommand) (cwd : Bytes) (arg : Argument) (argBufLen : Nat) :
    command.target baseDir cwd (some arg) argBufLen =
      (lftpdPathResolve baseDir cwd (some arg.val) argBufLen).toOption := by
  rw [PathCommand.target, if_neg (fun h => Option.some_ne_none arg h.1)]
  rfl

theorem resolve_of_target {command : PathCommand} {cwd path : Bytes} {arg : Argument}
    {argBufLen : Nat} (h : command.target baseDir cwd (some arg) argBufLen = some path) :
    lftpdPathResolve baseDir cwd (some arg.val) argBufLen = .ok path := by
  rw [target_some] at h
  rcases hresolve : lftpdPathResolve baseDir cwd (some arg.val) argBufLen with ret | resolved
  · rw [hresolve] at h
    cases h
  · rw [hresolve] at h
    cases h
    rfl

theorem target_none {command : PathCommand} {cwd path : Bytes} {argBufLen : Nat}
    (h : command.target baseDir cwd none argBufLen = some path) : command = .nlst ∧ path = cwd := by
  simp only [PathCommand.target] at h
  split at h
  · rename_i hnlst
    exact ⟨hnlst.2, (Option.some.inj h).symm⟩
  · cases h

theorem resolves_of_target {command : PathCommand} {cwd path : Bytes} {arg : Option Argument}
    {argBufLen : Nat} (h : command.target baseDir cwd arg argBufLen = some path) :
    Resolves baseDir cwd (arg.map Subtype.val) argBufLen := by
  cases arg with
  | none => exact Or.inl rfl
  | some arg => exact Or.inr ⟨path, resolve_of_target baseDir h⟩

theorem ActsOn.of_calls {path : Bytes} {command : PathCommand} {w w' : World fs}
    (h : Calls w w' (command.operation w.files path)) (hcwd : command ≠ .cwd)
    (hnlst : command ≠ .nlst) : ActsOn path command w w' where
  paths := by
    rw [h.fsCalls_eq]
    exact operation_path command w.files path
  operation _ := ⟨[], by rw [List.append_nil, h.fsCalls_eq]⟩
  directory heq := absurd heq hcwd
  listing heq := absurd heq hnlst

theorem fsCalls_of_startsWith {first : FsCall} {w w' : World fs} (h : StartsWith first w w') :
    [first] <+: fsCalls w w' ∧ ∀ call ∈ fsCalls w w', callPath call = callPath first := by
  obtain ⟨rest, hcalls, hpath⟩ := h
  rw [hcalls.fsCalls_eq]
  refine ⟨List.prefix_append [first] rest, ?_⟩
  intro call hcall
  rcases List.mem_cons.mp hcall with rfl | hcall
  · rfl
  · exact hpath call hcall

theorem fsCalls_of_transfer {first : FsCall} {w w' : World fs}
    (hopens : Opens w → StartsWith first w w') (hnot : ¬ Opens w → Calls w w' []) :
    (Opens w → [first] <+: fsCalls w w') ∧
      ∀ call ∈ fsCalls w w', callPath call = callPath first := by
  rcases Classical.em (Opens w) with h | h
  · obtain ⟨hfirst, hpath⟩ := fsCalls_of_startsWith (hopens h)
    exact ⟨fun _ => hfirst, hpath⟩
  · rw [(hnot h).fsCalls_eq]
    exact ⟨fun hopens => absurd hopens h, fun _ hcall => absurd hcall List.not_mem_nil⟩

theorem actsOn_cmdNlst {w : World fs} {arg : Option Bytes} {argBufLen : Nat} {path : Bytes}
    (hresolves : Resolves baseDir w.conn.cwd.val arg argBufLen)
    (hcwd : Opens w → path = w.conn.cwd.val) :
    ActsOn path .nlst w (cmdNlst baseDir w arg argBufLen).2 := by
  have hcalls := fsCalls_of_transfer (startsWith_cmdNlst baseDir hresolves)
    (calls_cmdNlst baseDir hresolves)
  rcases Classical.em (Opens w) with hopens | hopens
  · obtain rfl := hcwd hopens
    exact {
      paths := hcalls.2
      operation := hcalls.1
      directory := fun h => PathCommand.noConfusion h
      listing := fun _ hanswers => (cmdNlst_answers baseDir hresolves hanswers).2 }
  · have hnone := (calls_cmdNlst baseDir hresolves hopens).fsCalls_eq
    exact {
      paths := by
        rw [hnone]
        exact fun _ hcall => absurd hcall List.not_mem_nil
      operation := fun h => absurd h hopens
      directory := fun h => PathCommand.noConfusion h
      listing := fun _ hanswers =>
        absurd (cmdNlst_answers baseDir hresolves hanswers).1 hopens }

theorem actsOn_handler {w : World fs} {command : PathCommand} {arg : Option Argument}
    {argBufLen : Nat} {path : Bytes}
    (htarget : command.target baseDir w.conn.cwd.val arg argBufLen = some path)
    (h : ¬ FallsBack baseDir w command arg argBufLen) :
    ActsOn path command w (command.handler baseDir w (arg.map Subtype.val) argBufLen).2 := by
  have hcwd : command = .nlst → Opens w → path = w.conn.cwd.val := by
    intro hnlst hopens
    apply Classical.byContradiction
    intro hne
    exact h ⟨hnlst, hopens, path, htarget, hne⟩
  rcases Classical.em (command = .nlst) with rfl | hnlst
  · exact actsOn_cmdNlst baseDir (resolves_of_target baseDir htarget) (hcwd rfl)
  · cases arg with
    | none => exact absurd (target_none baseDir htarget).1 hnlst
    | some arg =>
        have hpath := resolve_of_target baseDir htarget
        cases command with
        | nlst => exact absurd rfl hnlst
        | cwd =>
            have hcalls := calls_cmdCwd baseDir hpath
            exact {
              paths := by
                rw [PathCommand.handler, Option.map_some, hcalls.fsCalls_eq]
                exact operation_path .cwd w.files path
              operation := fun _ => ⟨[], by
                rw [List.append_nil, PathCommand.handler, Option.map_some, hcalls.fsCalls_eq]
                rfl⟩
              directory := fun _ => cmdCwd_cwd baseDir hpath
              listing := fun h => PathCommand.noConfusion h }
        | dele => exact .of_calls (calls_cmdDele baseDir hpath) (by decide) hnlst
        | mkd => exact .of_calls (calls_cmdMkd baseDir hpath) (by decide) hnlst
        | rmd => exact .of_calls (calls_cmdRmd baseDir hpath) (by decide) hnlst
        | size => exact .of_calls (calls_cmdSize baseDir hpath) (by decide) hnlst
        | retr =>
            obtain ⟨hfirst, hpaths⟩ := fsCalls_of_transfer
              (startsWith_transfer baseDir startsWith_sendFile hpath) (calls_transfer baseDir)
            exact {
              paths := hpaths
              operation := hfirst
              directory := fun h => PathCommand.noConfusion h
              listing := fun h => PathCommand.noConfusion h }
        | stor =>
            obtain ⟨hfirst, hpaths⟩ := fsCalls_of_transfer
              (startsWith_transfer baseDir startsWith_receiveFile hpath) (calls_transfer baseDir)
            exact {
              paths := hpaths
              operation := hfirst
              directory := fun h => PathCommand.noConfusion h
              listing := fun h => PathCommand.noConfusion h }

/-- A command acts on its path unless it is a listing that falls back to the working
directory. -/
theorem acts_iff (w : World fs) (command : PathCommand) (arg : Option Argument) (argBufLen : Nat) :
    Acts baseDir w command arg argBufLen ↔ ¬ FallsBack baseDir w command arg argBufLen := by
  constructor
  · rintro hacts ⟨rfl, hopens, path, htarget, hne⟩
    have hresolves := resolves_of_target baseDir htarget
    obtain ⟨rest, hcalls, -⟩ := startsWith_cmdNlst baseDir hresolves hopens
    have hmem : .opendir w.conn.cwd.val ∈
        fsCalls w (cmdNlst baseDir w (arg.map Subtype.val) argBufLen).2 := by
      rw [hcalls.fsCalls_eq]
      exact List.mem_cons_self
    exact hne ((hacts path htarget).paths _ hmem).symm
  · intro h path htarget
    exact actsOn_handler baseDir htarget h

end

/-- The files of the working directory are listed in place of those of `x`. -/
theorem not_acts_nlst :
    ¬ Acts [slash] (uploading [(text "a", [1])] []) .nlst (some ⟨text "x", by decide⟩) 100 := by
  intro hacts
  have hlisting := (hacts (text "/SD:/x") (by decide +kernel)).listing rfl (by decide +kernel)
  revert hlisting
  decide +kernel

end ZeusLe.FtpPathCommands
