import ZeusLe.Errno
import ZeusLe.FtpFiles
import ZeusLe.FtpPath

/-!
The commands of the FTP server, `lftpd.c`. The network is a list of results for
each of its calls.
-/

namespace ZeusLe.Ftp

open ZeusLe.Library.Segments
open ZeusLe.FtpLine
open ZeusLe.FtpFiles
open ZeusLe.FtpPath

/-- `CONFIG_LFTPD_MAX_PATH_LEN`. -/
def lftpdMaxPathLen : Nat := 128

/-- `sizeof(conn->buf)`. -/
def bufLen : Nat := 1024

/-- What fits into `conn->cwd`. -/
abbrev Cwd := { path : Bytes // path.length ≤ lftpdMaxPathLen }

/-- `struct lftpd_conn`. What `conn->buf` holds is never read before it is
written. -/
structure Conn where
  cwd : Cwd
  cmdBuf : CmdBuf lftpdMaxPathLen
  socket : Option Nat
  dataSocket : Option Nat
  deriving DecidableEq

/-- A data connection, and what the client sends on it before it closes it or
`recv` fails. -/
structure DataConn where
  socket : Nat
  segs : List Bytes
  fails : Bool
  deriving DecidableEq, Repr

/-- What `zsock_getsockname` says of the control connection. -/
inductive SockName where
  | error
  | otherFamily
  | inet (addr : UInt32)
  deriving DecidableEq, Repr

/-- The results of the calls to come. A `zsock_send` takes some of its bytes or
fails. When a list is used up sends take everything and the other calls fail. -/
structure Net where
  sends : List (Option Nat)
  listens : List (Option Nat)
  ports : List Int
  names : List SockName
  accepts : List (Option DataConn)
  deriving DecidableEq, Repr

inductive FsCall where
  | open (path : Bytes) (flags : OpenFlags)
  | read (path : Bytes) (pos len : Nat)
  | write (path : Bytes) (pos : Nat) (bytes : Bytes)
  | close (path : Bytes)
  | statvfs (path : Bytes)
  | stat (path : Bytes)
  | unlink (path : Bytes)
  | mkdir (path : Bytes)
  | opendir (path : Bytes)
  | readdir (path : Bytes)
  | closedir (path : Bytes)
  deriving DecidableEq, Repr

/-- What the client, the network and the file system see. Replies are sent on the
control connection; `use` is any other call on a socket that stays open. -/
inductive Event where
  | reply (bytes : Bytes)
  | data (socket : Nat) (bytes : Bytes)
  | listen (socket : Nat)
  | accept (socket : Nat)
  | use (socket : Nat)
  | close (socket : Nat)
  | fs (call : FsCall)
  deriving DecidableEq, Repr

structure World (fs : FileSystem) where
  conn : Conn
  files : fs.State
  net : Net
  events : List Event

def text (s : String) : Bytes :=
  s.toList.map fun c => UInt8.ofNat c.toNat

/-- `%d`. -/
def decimal (n : Int) : Bytes :=
  text n.repr

def crlf : Bytes := [cr, lf]

def status150 : Bytes := text "File status okay; about to open data connection."
def status200 : Bytes := text "Command okay."
def status211 : Bytes := text "System status, or system help reply."
def status220 : Bytes := text "Service ready for new user."
def status221 : Bytes := text "Service closing control connection."
def status226 : Bytes := text "Closing data connection."
def status230 : Bytes := text "User logged in, proceed."
def status250 : Bytes := text "Requested file action okay, completed."
def status425 : Bytes := text "Can't open data connection."
def status450 : Bytes :=
  text "Requested file action not taken. File unavailable (e.g., file busy)."
def status500 : Bytes :=
  text ("Syntax error, command unrecognized. This may include errors such as " ++
    "command line too long.")
def status501 : Bytes := text "Syntax error in parameters or arguments."
def status502 : Bytes := text "Command not implemented."
def status550 : Bytes :=
  text "Requested action not taken. File unavailable (e.g., file not found, no access)."
def status553 : Bytes := text "Requested action not taken. File name not allowed."

def status227 (addr : UInt32) (port : Int) : Bytes :=
  text "Entering Passive Mode (" ++ decimal (addr >>> 24 &&& 0xff).toNat ++ text "," ++
    decimal (addr >>> 16 &&& 0xff).toNat ++ text "," ++ decimal (addr >>> 8 &&& 0xff).toNat ++
    text "," ++ decimal (addr &&& 0xff).toNat ++ text "," ++ decimal (port / 256 % 256) ++
    text "," ++ decimal (port % 256) ++ text ")."

def status229 (port : Int) : Bytes :=
  text "Entering Extended Passive Mode (|||" ++ decimal port ++ text "|)."

def status257 (path : Bytes) : Bytes :=
  text "\"" ++ path ++ text "\" created."

/-- The loop around `zsock_send`: the bytes that were taken, the result, and the
results of the sends that are left. -/
def sendLoop : Bytes → List (Option Nat) → Bytes × Int × List (Option Nat)
  | bytes, [] => (bytes, 0, [])
  | bytes, send :: sends =>
      if bytes = [] then ([], 0, send :: sends)
      else
        match send with
        | none => ([], -1, sends)
        | some n =>
            let (sent, ret, sends) := sendLoop (bytes.drop (n + 1)) sends
            (bytes.take (n + 1) ++ sent, ret, sends)

section

variable {fs : FileSystem}

def World.log (w : World fs) (event : Event) : World fs :=
  { w with events := w.events ++ [event] }

/-- `lftpd_inet_write_string`, and the loop of `send_file`. -/
def World.send (w : World fs) (event : Bytes → Event) (bytes : Bytes) : Int × World fs :=
  let (sent, ret, sends) := sendLoop bytes w.net.sends
  (ret, World.log { w with net := { w.net with sends } } (event sent))

/-- The checks of `snprintf`'s results. A length that wraps around is an error here. -/
def sendResponse (w : World fs) (code : Int) (includeCode multilineStart : Bool) (body : Bytes) :
    Int × World fs :=
  let head :=
    if includeCode then decimal code ++ text (if multilineStart then "-" else " ") else []
  if bufLen ≤ body.length then (-eoverflow, w)
  else if bufLen - (head.length + body.length) < 3 then (-eoverflow, w)
  else w.send .reply (head ++ body ++ crlf)

@[simp] theorem sendResponse_files (w : World fs) (code : Int) (includeCode multilineStart : Bool)
    (body : Bytes) : (sendResponse w code includeCode multilineStart body).2.files = w.files := by
  simp only [sendResponse]
  generalize (if includeCode = true then _ else _) = head
  split
  · rfl
  · split
    · rfl
    · rfl

@[simp] theorem sendResponse_conn (w : World fs) (code : Int) (includeCode multilineStart : Bool)
    (body : Bytes) : (sendResponse w code includeCode multilineStart body).2.conn = w.conn := by
  simp only [sendResponse]
  generalize (if includeCode = true then _ else _) = head
  split
  · rfl
  · split
    · rfl
    · rfl

def sendSimpleResponse (w : World fs) (code : Int) (body : Bytes) : Int × World fs :=
  sendResponse w code true false body

@[simp] theorem sendSimpleResponse_files (w : World fs) (code : Int) (body : Bytes) :
    (sendSimpleResponse w code body).2.files = w.files :=
  sendResponse_files w code true false body

@[simp] theorem sendSimpleResponse_conn (w : World fs) (code : Int) (body : Bytes) :
    (sendSimpleResponse w code body).2.conn = w.conn :=
  sendResponse_conn w code true false body

def World.zsockClose (w : World fs) (socket : Nat) : World fs :=
  w.log (.close socket)

/-- A call on the socket of the control connection. -/
def World.useControl (w : World fs) : World fs :=
  { w with events := w.events ++ w.conn.socket.toList.map .use }

def World.lftpdInetListen (w : World fs) : Option Nat × World fs :=
  let net := { w.net with listens := w.net.listens.tail }
  match w.net.listens.head?.join with
  | none => (none, { w with net })
  | some socket => (some socket, World.log { w with net } (.listen socket))

def World.lftpdInetGetSocketPort (w : World fs) (socket : Nat) : Int × World fs :=
  (w.net.ports.head?.getD (-1),
    World.log { w with net := { w.net with ports := w.net.ports.tail } } (.use socket))

def World.zsockGetsockname (w : World fs) : SockName × World fs :=
  (w.net.names.head?.getD .error,
    World.useControl { w with net := { w.net with names := w.net.names.tail } })

def acceptDataConnection (w : World fs) : Option DataConn × World fs :=
  match w.conn.dataSocket with
  | none => (none, w)
  | some listener =>
      let (_, w) := w.lftpdInetGetSocketPort listener
      let accepted := w.net.accepts.head?.join
      let w := World.log { w with net := { w.net with accepts := w.net.accepts.tail } }
        (.use listener)
      match accepted with
      | none =>
          let w := w.zsockClose listener
          (none, { w with conn := { w.conn with dataSocket := none } })
      | some data => (some data, w.log (.accept data.socket))

def World.fsOpen (w : World fs) (path : Bytes) (flags : OpenFlags) : Int × World fs :=
  ((fs.fsOpen w.files path flags).1,
    World.log { w with files := (fs.fsOpen w.files path flags).2 } (.fs (.open path flags)))

def World.fsClose (w : World fs) (path : Bytes) : World fs :=
  World.log { w with files := fs.fsClose w.files path } (.fs (.close path))

def World.fsRead (w : World fs) (path : Bytes) (pos len : Nat) : Except Int Bytes × World fs :=
  (fs.fsRead w.files path pos len, w.log (.fs (.read path pos len)))

def World.fsWrite (w : World fs) (path : Bytes) (pos : Nat) (bytes : Bytes) :
    (Int × Nat) × World fs :=
  ((fs.fsWrite w.files path pos bytes).1,
    World.log { w with files := (fs.fsWrite w.files path pos bytes).2 }
      (.fs (.write path pos bytes)))

def World.fsStatvfs (w : World fs) (path : Bytes) : Int × World fs :=
  (fs.fsStatvfs w.files path, w.log (.fs (.statvfs path)))

def World.fsStat (w : World fs) (path : Bytes) : Except Int FsDirent × World fs :=
  (fs.fsStat w.files path, w.log (.fs (.stat path)))

def World.fsUnlink (w : World fs) (path : Bytes) : Int × World fs :=
  ((fs.fsUnlink w.files path).1,
    World.log { w with files := (fs.fsUnlink w.files path).2 } (.fs (.unlink path)))

def World.fsMkdir (w : World fs) (path : Bytes) : Int × World fs :=
  ((fs.fsMkdir w.files path).1,
    World.log { w with files := (fs.fsMkdir w.files path).2 } (.fs (.mkdir path)))

/-- Calls `next` for the entries of a directory until it fails. -/
def forEntries (path : Bytes) (next : World fs → FsDirent → Int × World fs) :
    World fs → List (Except Int FsDirent) → Int × World fs
  | w, [] => (0, w.log (.fs (.readdir path)))
  | w, .error ret :: _ => (ret, w.log (.fs (.readdir path)))
  | w, .ok entry :: entries =>
      let w := w.log (.fs (.readdir path))
      if entry.name = [] then (0, w)
      else
        let (ret, w) := next w entry
        if ret < 0 then (ret, w) else forEntries path next w entries

/-- What `send_list` and `send_nlst` share. -/
def readDirectory (w : World fs) (path : Bytes)
    (next : World fs → FsDirent → Int × World fs) : Int × World fs :=
  let opened := fs.fsOpendir w.files path
  let w := w.log (.fs (.opendir path))
  match opened with
  | .error ret => (ret, w)
  | .ok entries =>
      let (ret, w) := forEntries path next w entries
      (ret, w.log (.fs (.closedir path)))

/-- `directory_format` and `file_format`. -/
def listLine (entry : FsDirent) : Bytes :=
  text (if entry.type = .dir then "d" else "-") ++ text "rw-rw-rw- 1 owner group " ++
    (decimal entry.size).leftpad 13 32 ++ text " Jan 01  1970 " ++ entry.name ++ crlf

def sendList (w : World fs) (socket : Nat) (path : Bytes) : Int × World fs :=
  readDirectory w path fun w entry =>
    if bufLen ≤ (listLine entry).length then (-enametoolong, w)
    else w.send (.data socket) (listLine entry)

def sendNlst (w : World fs) (socket : Nat) (path : Bytes) : Int × World fs :=
  readDirectory w path fun w entry =>
    if entry.type = .file then
      let (ret, w) := w.send (.data socket) entry.name
      if ret < 0 then (ret, w) else w.send (.data socket) crlf
    else (0, w)

/-- The loop of `send_file`. A read that returns something moves the position, so
that the fuel is never used up. -/
def sendFileLoop (socket : Nat) (path : Bytes) : Nat → Nat → World fs → Int × World fs
  | 0, _, w => (0, w)
  | fuel + 1, pos, w =>
      let (result, w) := w.fsRead path pos bufLen
      match result with
      | .error ret => (ret, w)
      | .ok bytes =>
          if bytes = [] then (0, w)
          else
            let (ret, w) := w.send (.data socket) bytes
            if ret < 0 then (ret, w) else sendFileLoop socket path fuel (pos + bytes.length) w

def sendFile (w : World fs) (socket : Nat) (path : Bytes) : Int × World fs :=
  let (ret, w) := w.fsOpen path .read
  if ret < 0 then (ret, w)
  else
    let fuel := ((fs.content w.files path).getD []).length + 1
    let (ret, w) := sendFileLoop socket path fuel 0 w
    (ret, w.fsClose path)

/-- The loop of `receive_file`. Every round receives a byte or returns, so that
the fuel is never used up. -/
def receiveFileLoop (data : DataConn) (path : Bytes) :
    Nat → List Bytes → Nat → World fs → Int × World fs
  | 0, _, _, w => (0, w)
  | fuel + 1, segs, pos, w =>
      let (bytes, segs) := recv bufLen segs
      let w := w.log (.use data.socket)
      if bytes = [] then (if data.fails then -1 else 0, w)
      else
        let ((ret, errno), w) := w.fsWrite path pos bytes
        if ret < 0 then (ret, w)
        else if ret ≠ bytes.length then (if errno = 0 then -enospc else -errno, w)
        else receiveFileLoop data path fuel segs (pos + bytes.length) w

def receiveFile (w : World fs) (data : DataConn) (path : Bytes) : Int × World fs :=
  let (ret, w) := w.fsOpen path .writeCreate
  if ret < 0 then (ret, w)
  else
    let (ret, w) := receiveFileLoop data path (data.segs.flatten.length + 1) data.segs 0 w
    (ret, w.fsClose path)

variable (baseDir : Bytes)

/-- Whether `cmd_cwd` may change to a directory. -/
def checkDirectory (w : World fs) (cwd : Bytes) : Bool × World fs :=
  if cwd = [slash] then (true, w)
  else if cwd.head? = some slash ∧ slash ∉ cwd.tail then
    let (ret, w) := w.fsStatvfs cwd
    (0 ≤ ret, w)
  else
    let (result, w) := w.fsStat cwd
    match result with
    | .error _ => (false, w)
    | .ok entry => (entry.type = .dir, w)

def cmdCwd (w : World fs) (arg : Option Bytes) (argBufLen : Nat) : Int × World fs :=
  if arg.getD [] = [] then sendSimpleResponse w 550 status550
  else
    match lftpdPathResolve baseDir w.conn.cwd.val arg argBufLen with
    | .error _ => sendSimpleResponse w 553 status553
    | .ok cwd =>
        let (valid, w) := checkDirectory w cwd
        if !valid then sendSimpleResponse w 550 status550
        else if hlen : cwd.length ≤ lftpdMaxPathLen then
          sendSimpleResponse { w with conn := { w.conn with cwd := ⟨cwd, hlen⟩ } } 250 status250
        else sendSimpleResponse w 553 status553

def cmdDele (w : World fs) (arg : Option Bytes) (argBufLen : Nat) : Int × World fs :=
  if arg.getD [] = [] then sendSimpleResponse w 501 status501
  else
    match lftpdPathResolve baseDir w.conn.cwd.val arg argBufLen with
    | .error _ => sendSimpleResponse w 500 status500
    | .ok path =>
        let (ret, w) := w.fsUnlink path
        if ret < 0 then sendSimpleResponse w 550 status550
        else sendSimpleResponse w 250 status250

/-- The listening socket is kept from one data connection to the next. -/
def listenData (w : World fs) : Option Nat × World fs :=
  match w.conn.dataSocket with
  | some listener => (some listener, w)
  | none =>
      let (listener, w) := w.lftpdInetListen
      (listener, { w with conn := { w.conn with dataSocket := listener } })

def cmdEpsv (w : World fs) (_ : Option Bytes) (_ : Nat) : Int × World fs :=
  let (listener, w) := listenData w
  match listener with
  | none => sendSimpleResponse w 425 status425
  | some listener =>
      let (port, w) := w.lftpdInetGetSocketPort listener
      sendSimpleResponse w 229 (status229 port)

def cmdFeat (w : World fs) (_ : Option Bytes) (_ : Nat) : Int × World fs :=
  let (_, w) := sendResponse w 211 true true status211
  let (_, w) := sendResponse w 0 false false (text " EPSV")
  let (_, w) := sendResponse w 0 false false (text " PASV")
  let (_, w) := sendResponse w 0 false false (text " SIZE")
  let (_, w) := sendResponse w 0 false false (text " NLST")
  let (_, w) := sendResponse w 0 false false (text " UTF8")
  let (_, w) := sendResponse w 211 true false (text "End")
  (0, w)

def cmdList (w : World fs) (_ : Option Bytes) (_ : Nat) : Int × World fs :=
  let (accepted, w) := acceptDataConnection w
  match accepted with
  | none => sendSimpleResponse w 425 status425
  | some data =>
      let (_, w) := sendSimpleResponse w 150 status150
      let (err, w) := sendList w data.socket w.conn.cwd.val
      let w := w.zsockClose data.socket
      if err = 0 then sendSimpleResponse w 226 status226
      else sendSimpleResponse w 550 status550

def cmdMkd (w : World fs) (arg : Option Bytes) (argBufLen : Nat) : Int × World fs :=
  if arg = none then sendSimpleResponse w 501 status501
  else
    match lftpdPathResolve baseDir w.conn.cwd.val arg argBufLen with
    | .error _ => sendSimpleResponse w 500 status500
    | .ok path =>
        let (ret, w) := w.fsMkdir path
        if ret < 0 then sendSimpleResponse w 550 status550
        else sendSimpleResponse w 257 (status257 path)

/-- The path is resolved, but the working directory is listed. -/
def nlstReply (w : World fs) (data : DataConn) (arg : Option Bytes) (argBufLen : Nat) : Int × World fs :=
  match arg, lftpdPathResolve baseDir w.conn.cwd.val arg argBufLen with
  | some _, .error _ => sendSimpleResponse w 553 status500
  | _, _ =>
      let (ret, w) := sendSimpleResponse w 150 status150
      if ret < 0 then (ret, w)
      else
        let (ret, w) := sendNlst w data.socket w.conn.cwd.val
        if ret < 0 then sendSimpleResponse w 550 status550
        else sendSimpleResponse w 226 status226

def cmdNlst (w : World fs) (arg : Option Bytes) (argBufLen : Nat) : Int × World fs :=
  let (accepted, w) := acceptDataConnection w
  match accepted with
  | none => sendSimpleResponse w 425 status425
  | some data =>
      let (ret, w) := nlstReply baseDir w data arg argBufLen
      (ret, w.zsockClose data.socket)

def cmdNoop (w : World fs) (_ : Option Bytes) (_ : Nat) : Int × World fs :=
  sendSimpleResponse w 200 status200

def cmdPass (w : World fs) (_ : Option Bytes) (_ : Nat) : Int × World fs :=
  sendSimpleResponse w 230 status230

/-- When the address of the control connection is of no use the listening socket
is closed but not forgotten. -/
def cmdPasv (w : World fs) (_ : Option Bytes) (_ : Nat) : Int × World fs :=
  let (listener, w) := listenData w
  match listener with
  | none => sendSimpleResponse w 425 status425
  | some listener =>
      let (port, w) := w.lftpdInetGetSocketPort listener
      let (name, w) := w.zsockGetsockname
      match name with
      | .error => sendSimpleResponse (w.zsockClose listener) 425 status425
      | .otherFamily => sendSimpleResponse (w.zsockClose listener) 425 status425
      | .inet addr =>
          let (_, w) := sendSimpleResponse w 227 (status227 addr port)
          (0, w)

def cmdPwd (w : World fs) (_ : Option Bytes) (_ : Nat) : Int × World fs :=
  sendSimpleResponse w 257 (text "\"" ++ w.conn.cwd.val ++ text "\" ")

def cmdQuit (w : World fs) (_ : Option Bytes) (_ : Nat) : Int × World fs :=
  let (_, w) := sendSimpleResponse w 221 status221
  (-1, w)

/-- What `cmd_retr` and `cmd_stor` share. -/
def transfer (w : World fs) (arg : Option Bytes) (argBufLen : Nat)
    (copy : World fs → DataConn → Bytes → Int × World fs) : Int × World fs :=
  let (accepted, w) := acceptDataConnection w
  match accepted with
  | none => sendSimpleResponse w 425 status425
  | some data =>
      let (ret, w) := sendSimpleResponse w 150 status150
      if ret < 0 then (ret, w.zsockClose data.socket)
      else
        match lftpdPathResolve baseDir w.conn.cwd.val arg argBufLen with
        | .error _ =>
            let (ret, w) := sendSimpleResponse w 500 status500
            (ret, w.zsockClose data.socket)
        | .ok path =>
            let (ret, w) := copy w data path
            let (ret, w) :=
              if ret < 0 then sendSimpleResponse w 450 status450
              else sendSimpleResponse w 226 status226
            (ret, w.zsockClose data.socket)

def cmdRetr (w : World fs) (arg : Option Bytes) (argBufLen : Nat) : Int × World fs :=
  transfer baseDir w arg argBufLen fun w data path => sendFile w data.socket path

def cmdStor (w : World fs) (arg : Option Bytes) (argBufLen : Nat) : Int × World fs :=
  transfer baseDir w arg argBufLen receiveFile

def cmdRmd (w : World fs) (arg : Option Bytes) (argBufLen : Nat) : Int × World fs :=
  if arg = none then sendSimpleResponse w 550 status501
  else
    match lftpdPathResolve baseDir w.conn.cwd.val arg argBufLen with
    | .error _ => sendSimpleResponse w 553 status500
    | .ok path =>
        let (result, w) := w.fsStat path
        match result with
        | .error _ => sendSimpleResponse w 550 status550
        | .ok entry =>
            if entry.type ≠ .dir then sendSimpleResponse w 550 status550
            else
              let (ret, w) := w.fsUnlink path
              if ret < 0 then sendSimpleResponse w 550 status550
              else sendSimpleResponse w 250 status250

def cmdSize (w : World fs) (arg : Option Bytes) (argBufLen : Nat) : Int × World fs :=
  if arg = none then sendSimpleResponse w 501 status501
  else
    match lftpdPathResolve baseDir w.conn.cwd.val arg argBufLen with
    | .error _ => sendSimpleResponse w 500 status500
    | .ok path =>
        let (result, w) := w.fsStat path
        match result with
        | .error _ => sendSimpleResponse w 550 status550
        | .ok entry => sendSimpleResponse w 213 (decimal entry.size)

def cmdSyst (w : World fs) (_ : Option Bytes) (_ : Nat) : Int × World fs :=
  sendSimpleResponse w 215 (text "UNIX Type: L8")

def cmdType (w : World fs) (_ : Option Bytes) (_ : Nat) : Int × World fs :=
  sendSimpleResponse w 200 status200

def cmdUser (w : World fs) (_ : Option Bytes) (_ : Nat) : Int × World fs :=
  sendSimpleResponse w 230 status230

def commands : List (Bytes × (World fs → Option Bytes → Nat → Int × World fs)) :=
  [(text "CWD", cmdCwd baseDir), (text "DELE", cmdDele baseDir), (text "EPSV", cmdEpsv),
    (text "FEAT", cmdFeat), (text "LIST", cmdList), (text "MKD", cmdMkd baseDir),
    (text "NLST", cmdNlst baseDir), (text "NOOP", cmdNoop), (text "PASS", cmdPass),
    (text "PASV", cmdPasv), (text "PWD", cmdPwd), (text "QUIT", cmdQuit),
    (text "RETR", cmdRetr baseDir), (text "RMD", cmdRmd baseDir), (text "SIZE", cmdSize baseDir),
    (text "STOR", cmdStor baseDir), (text "SYST", cmdSyst), (text "TYPE", cmdType),
    (text "USER", cmdUser)]

end

/-- A file system in memory, with a card that is mounted. -/
def disk : FileSystem :=
  memory (text "/SD:")

end ZeusLe.Ftp
