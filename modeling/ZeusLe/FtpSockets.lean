import ZeusLe.FtpSessions
import ZeusLe.Library.Handles

/-! Which sockets a session of the FTP server has open. -/

namespace ZeusLe.FtpSockets

open ZeusLe.Library.Run
open ZeusLe.Library.Handles
open ZeusLe.Library.Segments
open ZeusLe.FtpLine
open ZeusLe.FtpFiles
open ZeusLe.FtpPath
open ZeusLe.Ftp
open ZeusLe.FtpSteps
open ZeusLe.FtpServer
open ZeusLe.FtpSessions

/-- What an event does with a socket, in a session on the control socket `control`. -/
def socketOp (control : Nat) : Event → Option (Op Nat)
  | .reply _ => some (.use control)
  | .data socket _ => some (.use socket)
  | .listen socket => some (.acquire socket)
  | .accept socket => some (.acquire socket)
  | .use socket => some (.use socket)
  | .close socket => some (.release socket)
  | .fs _ => none

section

variable {fs : FileSystem}

def socketOps (control : Nat) (w : World fs) : List (Op Nat) :=
  w.events.filterMap (socketOp control)

/-- The sockets of the session that are open in `w`. -/
def openSockets (control : Nat) (w : World fs) : List Nat :=
  run hold [control] (socketOps control w)

/-- The network returns descriptors that are not in use. -/
def FreshSockets (control : Nat) (w : World fs) : Prop :=
  Along hold Fresh [control] (socketOps control w)

/-- No socket is used or closed that is not open. -/
def ValidSockets (control : Nat) (w : World fs) : Prop :=
  Along hold Valid [control] (socketOps control w)

/-- `conn->data_socket` is -1 or a socket that is open and not the one of the
control connection. -/
def DataSocketOwned (control : Nat) (w : World fs) : Prop :=
  ∀ listener, w.conn.dataSocket = some listener →
    listener ≠ control ∧ listener ∈ openSockets control w

/-- The events since `w` lead from the open sockets `held` to the open sockets
`held'`. -/
def Leads (control : Nat) (held : List Nat) (w : World fs) (held' : List Nat) (w' : World fs) :
    Prop :=
  ∃ new, w'.events = w.events ++ new ∧ Accounts held (new.filterMap (socketOp control)) held'

theorem Leads.refl (control : Nat) (held : List Nat) (w : World fs) :
    Leads control held w held w :=
  ⟨[], (List.append_nil _).symm, .nil held⟩

theorem Leads.trans {control : Nat} {held held' held'' : List Nat} {w w' w'' : World fs}
    (h : Leads control held w held' w') (h' : Leads control held' w' held'' w'') :
    Leads control held w held'' w'' := by
  obtain ⟨new, hnew, haccounts⟩ := h
  obtain ⟨new', hnew', haccounts'⟩ := h'
  refine ⟨new ++ new', by rw [hnew', hnew, List.append_assoc], ?_⟩
  rw [List.filterMap_append]
  exact haccounts.append haccounts'

theorem Leads.close (control socket : Nat) (held : List Nat) (w : World fs) :
    Leads control (socket :: held) w held (w.zsockClose socket) := by
  refine ⟨[.close socket], rfl, ?_⟩
  have hrelease := Accounts.release (List.mem_cons_self (a := socket) (l := held))
  rw [List.erase_cons_head] at hrelease
  exact hrelease

/-- Sockets in `held` are used, and the connection keeps its sockets. -/
def Uses (control : Nat) (held : List Nat) (w w' : World fs) : Prop :=
  ∃ new, w'.events = w.events ++ new ∧
    (∀ op ∈ new.filterMap (socketOp control), ∃ socket ∈ held, op = .use socket) ∧
    w'.conn.socket = w.conn.socket ∧ w'.conn.dataSocket = w.conn.dataSocket

theorem Uses.refl (control : Nat) (held : List Nat) (w : World fs) : Uses control held w w :=
  ⟨[], (List.append_nil _).symm, fun _ h => absurd h List.not_mem_nil, rfl, rfl⟩

theorem Uses.trans {control : Nat} {held : List Nat} {w w' w'' : World fs}
    (h : Uses control held w w') (h' : Uses control held w' w'') : Uses control held w w'' := by
  obtain ⟨new, hnew, huses, hsocket, hdata⟩ := h
  obtain ⟨new', hnew', huses', hsocket', hdata'⟩ := h'
  refine ⟨new ++ new', by rw [hnew', hnew, List.append_assoc], ?_, hsocket'.trans hsocket,
    hdata'.trans hdata⟩
  intro op hop
  rw [List.filterMap_append] at hop
  rcases List.mem_append.mp hop with hop | hop
  · exact huses op hop
  · exact huses' op hop

theorem Uses.leads {control : Nat} {held : List Nat} {w w' : World fs}
    (h : Uses control held w w') : Leads control held w held w' := by
  obtain ⟨new, hnew, huses, -, -⟩ := h
  exact ⟨new, hnew, .uses huses⟩

theorem Uses.of_event {control : Nat} {held : List Nat} {w w' : World fs} {event : Event}
    (hnew : w'.events = w.events ++ [event])
    (hevent : ∀ op, socketOp control event = some op → ∃ socket ∈ held, op = .use socket)
    (hsocket : w'.conn.socket = w.conn.socket)
    (hdata : w'.conn.dataSocket = w.conn.dataSocket) : Uses control held w w' := by
  refine ⟨[event], hnew, ?_, hsocket, hdata⟩
  intro op hop
  rw [List.mem_filterMap] at hop
  obtain ⟨event', hmem, hop⟩ := hop
  obtain rfl := List.mem_singleton.mp hmem
  exact hevent op hop

theorem Uses.of_events {control : Nat} {held : List Nat} {w w' : World fs}
    (hevents : w'.events = w.events) (hsocket : w'.conn.socket = w.conn.socket)
    (hdata : w'.conn.dataSocket = w.conn.dataSocket) : Uses control held w w' :=
  ⟨[], by rw [hevents, List.append_nil], fun _ h => absurd h List.not_mem_nil, hsocket, hdata⟩

section

variable {control : Nat} {held : List Nat}

theorem uses_fs {w w' : World fs} {call : FsCall} (hnew : w'.events = w.events ++ [.fs call])
    (hconn : w'.conn = w.conn) : Uses control held w w' := by
  apply Uses.of_event hnew
  · intro op hop
    cases hop
  · rw [hconn]
  · rw [hconn]

theorem uses_use {w w' : World fs} {socket : Nat} (hmem : socket ∈ held)
    (hnew : w'.events = w.events ++ [.use socket]) (hconn : w'.conn = w.conn) :
    Uses control held w w' := by
  apply Uses.of_event hnew
  · intro op hop
    cases hop
    exact ⟨socket, hmem, rfl⟩
  · rw [hconn]
  · rw [hconn]

theorem uses_data {socket : Nat} (hmem : socket ∈ held) (w : World fs) (bytes : Bytes) :
    Uses control held w (w.send (.data socket) bytes).2 := by
  apply Uses.of_event rfl
  · intro op hop
    cases hop
    exact ⟨socket, hmem, rfl⟩
  · rfl
  · rfl

variable (hcontrol : control ∈ held)

include hcontrol

theorem uses_sendResponse (w : World fs) (code : Int) (includeCode multilineStart : Bool)
    (body : Bytes) :
    Uses control held w (sendResponse w code includeCode multilineStart body).2 := by
  simp only [sendResponse]
  generalize (if includeCode = true then _ else _) = head
  split
  · exact .refl _ _ _
  · split
    · exact .refl _ _ _
    · apply Uses.of_event rfl
      · intro op hop
        cases hop
        exact ⟨control, hcontrol, rfl⟩
      · rfl
      · rfl

theorem uses_reply (w : World fs) (code : Int) (body : Bytes) :
    Uses control held w (sendSimpleResponse w code body).2 :=
  uses_sendResponse hcontrol w code true false body

theorem uses_useControl {w : World fs} (hsocket : w.conn.socket = some control) :
    Uses control held w w.useControl := by
  refine uses_use hcontrol ?_ rfl
  simp only [World.useControl, hsocket, Option.toList_some, List.map_cons, List.map_nil]

theorem uses_zsockGetsockname {w : World fs} (hsocket : w.conn.socket = some control) :
    Uses control held w w.zsockGetsockname.2 :=
  (Uses.of_events rfl rfl rfl).trans (uses_useControl hcontrol (w := { w with net := _ }) hsocket)

end

section

variable {control socket : Nat} {held : List Nat}

theorem spans_uses (hsocket : socket ∈ held) (path : Bytes) :
    Spans socket path (@Uses fs control held) where
  refl := .refl control held
  trans := .trans
  fs hnew hconn _ := uses_fs hnew hconn
  data w bytes := uses_data hsocket w bytes
  use _ := uses_use hsocket rfl rfl

theorem uses_sendList (hsocket : socket ∈ held) (w : World fs) (path : Bytes) :
    Uses control held w (sendList w socket path).2 :=
  (spans_uses hsocket path).sendList w

theorem uses_sendNlst (hsocket : socket ∈ held) (w : World fs) (path : Bytes) :
    Uses control held w (sendNlst w socket path).2 :=
  (spans_uses hsocket path).sendNlst w

theorem uses_sendFile (hsocket : socket ∈ held) (w : World fs) (path : Bytes) :
    Uses control held w (sendFile w socket path).2 :=
  (spans_uses hsocket path).sendFile w

theorem uses_receiveFile {data : DataConn} (hdata : data.socket ∈ held) (w : World fs)
    (path : Bytes) : Uses control held w (receiveFile w data path).2 :=
  (spans_uses hdata path).receiveFile w

end

/-- A handler that neither opens nor closes a socket. -/
def UsesControl (handler : World fs → Option Bytes → Nat → Int × World fs) : Prop :=
  ∀ (control : Nat) (held : List Nat), control ∈ held → ∀ w arg argBufLen,
    Uses control held w (handler w arg argBufLen).2

theorem serves_uses {control : Nat} {held : List Nat} (hcontrol : control ∈ held) :
    Serves (@Uses fs control held) where
  refl := .refl control held
  trans := .trans
  response := uses_sendResponse hcontrol
  fs := uses_fs

variable (baseDir : Bytes)

theorem usesControl_cwd : UsesControl (@cmdCwd fs baseDir) := by
  intro control held hcontrol w arg argBufLen
  simp only [cmdCwd]
  split
  · exact uses_reply hcontrol _ _ _
  · split
    · exact uses_reply hcontrol _ _ _
    · rename_i cwd _
      have hcheck := (serves_uses hcontrol).checkDirectory w cwd
      split
      · exact hcheck.trans (uses_reply hcontrol _ _ _)
      · split
        · exact (hcheck.trans (.of_events rfl rfl rfl)).trans (uses_reply hcontrol _ _ _)
        · exact hcheck.trans (uses_reply hcontrol _ _ _)

theorem usesControl_dele : UsesControl (@cmdDele fs baseDir) :=
  fun _ _ hcontrol w arg argBufLen => (serves_uses hcontrol).dele baseDir w arg argBufLen

theorem usesControl_feat : UsesControl (@cmdFeat fs) :=
  fun _ _ hcontrol w arg argBufLen => (serves_uses hcontrol).feat w arg argBufLen

theorem usesControl_mkd : UsesControl (@cmdMkd fs baseDir) :=
  fun _ _ hcontrol w arg argBufLen => (serves_uses hcontrol).mkd baseDir w arg argBufLen

theorem usesControl_rmd : UsesControl (@cmdRmd fs baseDir) :=
  fun _ _ hcontrol w arg argBufLen => (serves_uses hcontrol).rmd baseDir w arg argBufLen

theorem usesControl_size : UsesControl (@cmdSize fs baseDir) :=
  fun _ _ hcontrol w arg argBufLen => (serves_uses hcontrol).size baseDir w arg argBufLen

theorem usesControl_reply (code : Int) (body : World fs → Bytes) :
    UsesControl fun w _ _ => sendSimpleResponse w code (body w) :=
  fun _ _ hcontrol w _ _ => uses_reply hcontrol w code (body w)

theorem usesControl_quit : UsesControl (@cmdQuit fs) :=
  fun _ _ hcontrol w arg argBufLen => (serves_uses hcontrol).quit w arg argBufLen

/-- The sockets that are open between two commands. -/
def between (control : Nat) (w : World fs) : List Nat :=
  w.conn.dataSocket.toList ++ [control]

theorem control_mem_between (control : Nat) (w : World fs) : control ∈ between control w :=
  List.mem_append_right _ List.mem_cons_self

theorem listener_mem_between {w : World fs} {listener : Nat}
    (hdata : w.conn.dataSocket = some listener) (control : Nat) :
    listener ∈ between control w := by
  rw [between, hdata]
  exact List.mem_cons_self

/-- A command that starts with the sockets that are open between two commands ends
with them. -/
def Settles (control : Nat) (w w' : World fs) : Prop :=
  Leads control (between control w) w (between control w') w' ∧
    w'.conn.socket = w.conn.socket

theorem Settles.trans {control : Nat} {w w' w'' : World fs} (h : Settles control w w')
    (h' : Settles control w' w'') : Settles control w w'' :=
  ⟨h.1.trans h'.1, h'.2.trans h.2⟩

theorem Uses.settles {control : Nat} {w w' : World fs}
    (h : Uses control (between control w) w w') : Settles control w w' := by
  obtain ⟨-, -, -, hsocket, hdata⟩ := id h
  have hbetween : between control w' = between control w := by
    rw [between, between, hdata]
  refine ⟨?_, hsocket⟩
  rw [hbetween]
  exact h.leads

theorem settles_reply (control : Nat) (w : World fs) (code : Int) (body : Bytes) :
    Settles control w (sendSimpleResponse w code body).2 :=
  (uses_reply (control_mem_between control w) w code body).settles

theorem settles_listenData (control : Nat) (w : World fs) :
    Settles control w (listenData w).2 := by
  rcases hdata : w.conn.dataSocket with _ | listener
  · rcases hlisten : w.net.listens.head?.join with _ | listener
    · apply Uses.settles
      simp only [listenData, hdata, World.lftpdInetListen, hlisten]
      exact .of_events rfl rfl hdata.symm
    · simp only [Settles, between, listenData, hdata, World.lftpdInetListen, hlisten]
      exact ⟨⟨[.listen listener], rfl, .acquire _ _⟩, rfl⟩
  · simp only [listenData, hdata]
    exact (Uses.refl _ _ _).settles

theorem listenData_eq (w : World fs) : (listenData w).1 = (listenData w).2.conn.dataSocket := by
  simp only [listenData]
  split
  · rename_i hsome
    exact hsome.symm
  · rfl

theorem uses_port {control : Nat} {held : List Nat} {socket : Nat} (hmem : socket ∈ held)
    (w : World fs) : Uses control held w (w.lftpdInetGetSocketPort socket).2 :=
  uses_use hmem rfl rfl

theorem settles_acceptDataConnection {control : Nat} {w : World fs}
    (h : (acceptDataConnection w).1 = none) : Settles control w (acceptDataConnection w).2 := by
  rcases hdata : w.conn.dataSocket with _ | listener
  · simp only [acceptDataConnection, hdata]
    exact (Uses.refl _ _ _).settles
  · have hmem := listener_mem_between hdata control
    have huse : Uses control (between control w) w
        (World.log (w.lftpdInetGetSocketPort listener).2 (.use listener)) :=
      (uses_port hmem w).trans (uses_use hmem rfl rfl)
    simp only [acceptDataConnection, hdata] at h ⊢
    split at h
    · rename_i hnone
      simp only
      have hleads := huse.leads
      rw [between, hdata] at hleads
      refine ⟨?_, rfl⟩
      rw [between, hdata]
      exact hleads.trans (.close control listener [control] _)
    · cases h

theorem leads_acceptDataConnection (control : Nat) {w : World fs} {data : DataConn}
    (h : (acceptDataConnection w).1 = some data) :
    Leads control (between control w) w (data.socket :: between control w)
        (acceptDataConnection w).2 ∧
      (acceptDataConnection w).2.conn = w.conn := by
  rcases hdata : w.conn.dataSocket with _ | listener
  · simp only [acceptDataConnection, hdata] at h
    cases h
  · have hmem := listener_mem_between hdata control
    have huse : Uses control (between control w) w
        (World.log (w.lftpdInetGetSocketPort listener).2 (.use listener)) :=
      (uses_port hmem w).trans (uses_use hmem rfl rfl)
    simp only [acceptDataConnection, hdata] at h ⊢
    split at h
    · cases h
    · rename_i hsome
      cases h
      simp only
      exact ⟨huse.leads.trans ⟨[.accept data.socket], rfl, .acquire _ _⟩, rfl⟩

theorem settles_dataConnection {control : Nat} {w w' : World fs} {data : DataConn}
    (h : (acceptDataConnection w).1 = some data)
    (huses : Uses control (data.socket :: between control w) (acceptDataConnection w).2 w') :
    Settles control w (w'.zsockClose data.socket) := by
  obtain ⟨haccept, hconn⟩ := leads_acceptDataConnection control h
  obtain ⟨-, -, -, hsocket, hdata⟩ := id huses
  have hclose := (haccept.trans huses.leads).trans (.close control data.socket _ w')
  rw [hconn] at hsocket hdata
  have hbetween : between control (w'.zsockClose data.socket) = between control w := by
    rw [between, zsockClose_conn, hdata, between]
  exact ⟨by rw [hbetween]; exact hclose, hsocket⟩

/-- A handler that settles its sockets in a session that is going on. -/
def SettlesControl (handler : World fs → Option Bytes → Nat → Int × World fs) : Prop :=
  ∀ (control : Nat) (w : World fs), w.conn.socket = some control → ∀ arg argBufLen,
    Settles control w (handler w arg argBufLen).2

theorem UsesControl.settles {handler : World fs → Option Bytes → Nat → Int × World fs}
    (h : UsesControl handler) : SettlesControl handler :=
  fun control w _ arg argBufLen =>
    (h control _ (control_mem_between control w) w arg argBufLen).settles

theorem settlesControl_epsv : SettlesControl (@cmdEpsv fs) := by
  intro control w _ arg argBufLen
  have hlisten := settles_listenData control w
  have hlistener := listenData_eq w
  simp only [cmdEpsv]
  split
  · exact hlisten.trans (settles_reply _ _ _ _)
  · rename_i listener heq
    rw [hlistener] at heq
    exact (hlisten.trans (uses_port (listener_mem_between heq control) _).settles).trans
      (settles_reply _ _ _ _)

theorem control_mem_data (control : Nat) (w : World fs) (data : DataConn) :
    control ∈ data.socket :: between control w :=
  List.mem_cons_of_mem _ (control_mem_between control w)

theorem settlesControl_list : SettlesControl (@cmdList fs) := by
  intro control w _ arg argBufLen
  simp only [cmdList]
  split
  · rename_i hnone
    exact (settles_acceptDataConnection hnone).trans (settles_reply _ _ _ _)
  · rename_i data hsome
    have hcontrol := control_mem_data control w data
    have hlist (path : Bytes) := (uses_reply hcontrol (acceptDataConnection w).2 150 status150).trans
      (uses_sendList List.mem_cons_self _ path)
    split
    · exact (settles_dataConnection hsome (hlist _)).trans (settles_reply _ _ _ _)
    · exact (settles_dataConnection hsome (hlist _)).trans (settles_reply _ _ _ _)

theorem uses_nlstReply {control : Nat} {held : List Nat} {data : DataConn}
    (hcontrol : control ∈ held) (hdata : data.socket ∈ held) (w : World fs) (arg : Option Bytes)
    (argBufLen : Nat) : Uses control held w (nlstReply baseDir w data arg argBufLen).2 := by
  simp only [nlstReply]
  split
  · exact uses_reply hcontrol _ _ _
  · have hopening := uses_reply hcontrol w 150 status150
    split
    · exact hopening
    · split
      · exact (hopening.trans (uses_sendNlst hdata _ _)).trans (uses_reply hcontrol _ _ _)
      · exact (hopening.trans (uses_sendNlst hdata _ _)).trans (uses_reply hcontrol _ _ _)

theorem settlesControl_nlst : SettlesControl (@cmdNlst fs baseDir) := by
  intro control w _ arg argBufLen
  simp only [cmdNlst]
  split
  · rename_i hnone
    exact (settles_acceptDataConnection hnone).trans (settles_reply _ _ _ _)
  · rename_i data hsome
    apply settles_dataConnection hsome
    exact uses_nlstReply baseDir (control_mem_data control w data) List.mem_cons_self _ _ _

theorem settlesControl_transfer {copy : World fs → DataConn → Bytes → Int × World fs}
    (hcopy : ∀ {control : Nat} {held : List Nat} {data : DataConn}, data.socket ∈ held →
      ∀ w path, Uses control held w (copy w data path).2) :
    SettlesControl fun w arg argBufLen => transfer baseDir w arg argBufLen copy := by
  intro control w _ arg argBufLen
  simp only [transfer]
  split
  · rename_i hnone
    exact (settles_acceptDataConnection hnone).trans (settles_reply _ _ _ _)
  · rename_i data hsome
    have hcontrol := control_mem_data control w data
    have hopening := uses_reply hcontrol (acceptDataConnection w).2 150 status150
    split
    · exact settles_dataConnection hsome hopening
    · split
      · exact settles_dataConnection hsome (hopening.trans (uses_reply hcontrol _ _ _))
      · apply settles_dataConnection hsome
        split
        · exact (hopening.trans (hcopy List.mem_cons_self _ _)).trans (uses_reply hcontrol _ _ _)
        · exact (hopening.trans (hcopy List.mem_cons_self _ _)).trans (uses_reply hcontrol _ _ _)

/-- The address of the control connection is of no use, and there is a listening
socket. -/
def LosesSocket (w : World fs) : Prop :=
  (w.conn.dataSocket ≠ none ∨ w.net.listens.head?.join ≠ none) ∧
    ∀ addr, w.net.names.head?.getD .error ≠ .inet addr

theorem listenData_names (w : World fs) : (listenData w).2.net.names = w.net.names := by
  simp only [listenData, World.lftpdInetListen]
  split
  · rfl
  · split <;> rfl

theorem listenData_none_iff (w : World fs) :
    (listenData w).1 = none ↔ w.conn.dataSocket = none ∧ w.net.listens.head?.join = none := by
  rcases hdata : w.conn.dataSocket with _ | listener
  · rcases hlisten : w.net.listens.head?.join with _ | listener
    · simp [listenData, hdata, World.lftpdInetListen, hlisten]
    · simp [listenData, hdata, World.lftpdInetListen, hlisten]
  · simp [listenData, hdata]

theorem zsockGetsockname_eq (w : World fs) (socket : Nat) :
    ((listenData w).2.lftpdInetGetSocketPort socket).2.zsockGetsockname.1 =
      w.net.names.head?.getD .error :=
  congrArg (fun names : List SockName => names.head?.getD .error) (listenData_names w)

theorem uses_pasvName {control : Nat} {w : World fs} (hsocket : w.conn.socket = some control)
    {listener : Nat} (hlisten : (listenData w).1 = some listener) :
    Uses control (between control (listenData w).2) (listenData w).2
      ((listenData w).2.lftpdInetGetSocketPort listener).2.zsockGetsockname.2 := by
  have hdata := (listenData_eq w).symm.trans hlisten
  have hcontrol := control_mem_between control (listenData w).2
  apply Uses.trans (uses_port (listener_mem_between hdata control) _)
  apply uses_zsockGetsockname hcontrol
  exact (settles_listenData control w).2.trans hsocket

theorem settles_pasv {control : Nat} {w : World fs} (hsocket : w.conn.socket = some control)
    (hkeeps : ¬ LosesSocket w) (arg : Option Bytes) (argBufLen : Nat) :
    Settles control w (cmdPasv w arg argBufLen).2 := by
  have hlistened := settles_listenData control w
  simp only [cmdPasv]
  rcases hlisten : (listenData w).1 with _ | listener
  · exact hlistened.trans (settles_reply _ _ _ _)
  · have hnamed := hlistened.trans (uses_pasvName hsocket hlisten).settles
    have hsome : w.conn.dataSocket ≠ none ∨ w.net.listens.head?.join ≠ none := by
      rw [← not_and_or, ← listenData_none_iff, hlisten]
      exact Option.some_ne_none listener
    obtain ⟨addr, haddr⟩ := not_forall_not.mp (not_and.mp hkeeps hsome)
    simp only [zsockGetsockname_eq, haddr]
    exact hnamed.trans (settles_reply _ _ _ _)

theorem pasv_losesSocket {control : Nat} {w : World fs} (hsocket : w.conn.socket = some control)
    (hloses : LosesSocket w) (arg : Option Bytes) (argBufLen : Nat) :
    Leads control (between control w) w [control] (cmdPasv w arg argBufLen).2 ∧
      (cmdPasv w arg argBufLen).2.conn.socket = some control ∧
      (cmdPasv w arg argBufLen).2.conn.dataSocket ≠ none := by
  obtain ⟨hsome, hname⟩ := hloses
  rcases hlisten : (listenData w).1 with _ | listener
  · obtain ⟨hdata, hnone⟩ := (listenData_none_iff w).mp hlisten
    rcases hsome with hsome | hsome
    · exact absurd hdata hsome
    · exact absurd hnone hsome
  · obtain ⟨hlistened, hsame⟩ := settles_listenData control w
    have hdata := (listenData_eq w).symm.trans hlisten
    have huses := uses_pasvName hsocket hlisten
    obtain ⟨-, -, -, hsocket', hdata'⟩ := id huses
    rw [hsame.trans hsocket] at hsocket'
    rw [hdata] at hdata'
    have hnamed := hlistened.trans huses.leads
    have hbetween : between control (listenData w).2 = [listener, control] := by
      rw [between, hdata]
      rfl
    rw [hbetween] at hnamed
    have hclosed := hnamed.trans (.close control listener [control] _)
    simp only [cmdPasv, hlisten]
    generalize ((listenData w).2.lftpdInetGetSocketPort listener).2.zsockGetsockname.2 = w' at *
    have hreply (body : Bytes) := uses_reply (List.mem_singleton_self control)
      (w'.zsockClose listener) 425 body
    rcases hres : w.net.names.head?.getD .error with _ | _ | addr
    · simp only [zsockGetsockname_eq, hres, sendSimpleResponse_conn, zsockClose_conn, hdata']
      exact ⟨hclosed.trans (hreply _).leads, hsocket', Option.some_ne_none listener⟩
    · simp only [zsockGetsockname_eq, hres, sendSimpleResponse_conn, zsockClose_conn, hdata']
      exact ⟨hclosed.trans (hreply _).leads, hsocket', Option.some_ne_none listener⟩
    · exact absurd hres (hname addr)

theorem commands_settle :
    ∀ entry ∈ @commands fs baseDir, entry.1 ≠ text "PASV" → SettlesControl entry.2 := by
  simp only [commands, List.forall_mem_cons]
  refine ⟨fun _ => (usesControl_cwd baseDir).settles, fun _ => (usesControl_dele baseDir).settles,
    fun _ => settlesControl_epsv, fun _ => usesControl_feat.settles, fun _ => settlesControl_list,
    fun _ => (usesControl_mkd baseDir).settles, fun _ => settlesControl_nlst baseDir,
    fun _ => (usesControl_reply _ _).settles, fun _ => (usesControl_reply _ _).settles,
    fun h => absurd rfl h, fun _ => (usesControl_reply _ _).settles,
    fun _ => usesControl_quit.settles,
    fun _ => settlesControl_transfer baseDir fun hdata w path => uses_sendFile hdata w path,
    fun _ => (usesControl_rmd baseDir).settles, fun _ => (usesControl_size baseDir).settles,
    fun _ => settlesControl_transfer baseDir fun hdata w path => uses_receiveFile hdata w path,
    fun _ => (usesControl_reply _ _).settles, fun _ => (usesControl_reply _ _).settles,
    fun _ => (usesControl_reply _ _).settles, ?_⟩
  intro entry hentry
  cases hentry

theorem dispatch_settles {control : Nat} {w : World fs} (hsocket : w.conn.socket = some control)
    {command : Bytes} (hkeeps : ¬ (command = text "PASV" ∧ LosesSocket w)) (arg : Option Bytes)
    (argBufLen : Nat) : Settles control w (dispatch baseDir w command arg argBufLen).2 := by
  simp only [dispatch]
  split
  · exact settles_reply _ _ _ _
  · rename_i handler hhandler
    rcases Classical.em (command = text "PASV") with rfl | hother
    · obtain rfl : cmdPasv = handler := Option.some.inj hhandler
      exact settles_pasv hsocket (fun hloses => hkeeps ⟨rfl, hloses⟩) arg argBufLen
    · obtain ⟨before, after, hmem, -⟩ := List.lookup_eq_some_iff.mp hhandler
      exact commands_settle baseDir (command, handler)
        (hmem ▸ List.mem_append_right _ List.mem_cons_self) hother control w hsocket arg argBufLen

/-- The round dispatches a PASV command that loses its listening socket. -/
def RoundLoses (segs : List Bytes) (w : World fs) : Prop :=
  LosesSocket w ∧
    ∃ arg argBufLen, nextCommand segs w = some (text "PASV", arg, argBufLen)

theorem uses_received {control : Nat} {w : World fs} (hsocket : w.conn.socket = some control)
    (cmdBuf : CmdBuf lftpdMaxPathLen) :
    Uses control (between control w) w (received w cmdBuf) :=
  (Uses.of_events rfl rfl rfl).trans
    (uses_useControl (control_mem_between control w) (w := setCmdBuf w cmdBuf) hsocket)

theorem controlStep_settles {control : Nat} {w : World fs} (hsocket : w.conn.socket = some control)
    {segs : List Bytes} (hkeeps : ¬ RoundLoses segs w) :
    Settles control w (controlStep baseDir segs w).2.2 := by
  rcases hread : readCommand w.conn.cmdBuf segs with ⟨ret, cmdBuf, rest⟩
  have hreceived := (uses_received hsocket cmdBuf).settles
  simp only [RoundLoses, nextCommand, hread] at hkeeps
  rcases Classical.em (ret = -eoverflow) with hlong | hlong
  · rw [controlStep_refused baseDir hread (Or.inl hlong)]
    exact hreceived.trans (settles_reply _ _ _ _)
  · rcases Int.lt_or_le ret 0 with hret | hret
    · rw [controlStep_end baseDir hread hlong hret]
      exact hreceived
    · rw [if_neg (Int.not_lt.mpr hret)] at hkeeps
      rcases hsplit : splitCommand cmdBuf.val with _ | ⟨command, arg, argBufLen⟩
      · rw [controlStep_refused baseDir hread (Or.inr ⟨hret, hsplit⟩)]
        exact hreceived.trans (settles_reply _ _ _ _)
      · rw [controlStep_command baseDir hread hret hsplit]
        refine hreceived.trans
          (dispatch_settles baseDir (w := received w cmdBuf) hsocket ?_ arg argBufLen)
        rintro ⟨rfl, hloses⟩
        exact hkeeps ⟨hloses, arg, argBufLen, hsplit⟩

theorem controlStep_losesSocket {control : Nat} {w : World fs}
    (hsocket : w.conn.socket = some control) {segs : List Bytes} (hloses : RoundLoses segs w) :
    Leads control (between control w) w [control] (controlStep baseDir segs w).2.2 ∧
      (controlStep baseDir segs w).2.2.conn.socket = some control ∧
      (controlStep baseDir segs w).2.2.conn.dataSocket ≠ none := by
  obtain ⟨hloses, arg, argBufLen, hnext⟩ := hloses
  rcases hread : readCommand w.conn.cmdBuf segs with ⟨ret, cmdBuf, rest⟩
  simp only [nextCommand, hread] at hnext
  split at hnext
  · cases hnext
  · rename_i hret
    have hreceived := (uses_received hsocket cmdBuf).leads
    have hdispatch : dispatch baseDir (received w cmdBuf) (text "PASV") arg argBufLen =
        cmdPasv (received w cmdBuf) arg argBufLen := rfl
    obtain ⟨hleads, hrest⟩ := pasv_losesSocket (w := received w cmdBuf) hsocket hloses arg argBufLen
    rw [controlStep_command baseDir hread (Int.not_lt.mp hret) hnext, hdispatch]
    exact ⟨hreceived.trans hleads, hrest⟩

theorem Leads.openSockets {control : Nat} {held' : List Nat} {w w' : World fs}
    (h : Leads control (openSockets control w) w held' w') (hfresh : FreshSockets control w') :
    openSockets control w' = held' ∧ (ValidSockets control w → ValidSockets control w') := by
  obtain ⟨new, hnew, haccounts⟩ := h
  simp only [FreshSockets, FtpSockets.openSockets, ValidSockets, socketOps, hnew,
    List.filterMap_append, run_append, along_append] at hfresh haccounts ⊢
  obtain ⟨hvalid, hrun⟩ := haccounts hfresh.2
  exact ⟨hrun, fun hbefore => ⟨hbefore, hvalid⟩⟩

theorem freshSockets_of_events {control : Nat} {w w' : World fs} {new : List Event}
    (hnew : w'.events = w.events ++ new) (hfresh : FreshSockets control w') :
    FreshSockets control w := by
  simp only [FreshSockets, socketOps, hnew, List.filterMap_append, along_append] at hfresh
  exact hfresh.1

/-- The open sockets are the ones that the connection knows, and every socket was
open when it was used. -/
structure Settled (control : Nat) (w : World fs) : Prop where
  socket : w.conn.socket = some control
  valid : ValidSockets control w
  known : openSockets control w = between control w

theorem Settled.step {control : Nat} {w w' : World fs} (hw : Settled control w)
    (h : Settles control w w') (hfresh : FreshSockets control w') : Settled control w' := by
  obtain ⟨hleads, hsocket⟩ := h
  rw [← hw.known] at hleads
  obtain ⟨hknown, hvalid⟩ := hleads.openSockets hfresh
  exact ⟨hsocket.trans hw.socket, hvalid hw.valid, hknown⟩

theorem Settled.owned {control : Nat} {w : World fs} (hw : Settled control w)
    (hfresh : FreshSockets control w) : DataSocketOwned control w := by
  intro listener hdata
  have hnodup : (openSockets control w).Nodup :=
    nodup_run (List.nodup_cons.mpr ⟨List.not_mem_nil, List.nodup_nil⟩) hfresh
  rw [hw.known] at hnodup ⊢
  refine ⟨?_, listener_mem_between hdata control⟩
  rintro rfl
  rw [between, hdata] at hnodup
  exact (List.nodup_cons.mp hnodup).1 List.mem_cons_self

/-- After every command of the loop `conn->data_socket` is owned. -/
def LoopOwned (control : Nat) : Nat → List Bytes → World fs → Prop
  | 0, _, _ => True
  | fuel + 1, segs, w =>
      DataSocketOwned control (controlStep baseDir segs w).2.2 ∧
        (0 ≤ (controlStep baseDir segs w).1 →
          LoopOwned control fuel (controlStep baseDir segs w).2.1 (controlStep baseDir segs w).2.2)

/-- No command of the loop loses its listening socket. -/
def LoopKeeps : Nat → List Bytes → World fs → Prop
  | 0, _, _ => True
  | fuel + 1, segs, w =>
      ¬ RoundLoses segs w ∧
        (0 ≤ (controlStep baseDir segs w).1 →
          LoopKeeps fuel (controlStep baseDir segs w).2.1 (controlStep baseDir segs w).2.2)

theorem controlStep_events {control : Nat} {w : World fs} (hsocket : w.conn.socket = some control)
    (segs : List Bytes) :
    (controlStep baseDir segs w).2.2.conn.socket = some control ∧
      ∃ new, (controlStep baseDir segs w).2.2.events = w.events ++ new := by
  rcases Classical.em (RoundLoses segs w) with hloses | hkeeps
  · obtain ⟨⟨new, hnew, -⟩, hsocket', -⟩ := controlStep_losesSocket baseDir hsocket hloses
    exact ⟨hsocket', new, hnew⟩
  · obtain ⟨⟨new, hnew, -⟩, hsocket'⟩ := controlStep_settles baseDir hsocket hkeeps
    exact ⟨hsocket'.trans hsocket, new, hnew⟩

theorem controlLoop_events {control : Nat} (fuel : Nat) (segs : List Bytes) {w : World fs}
    (hsocket : w.conn.socket = some control) :
    ∃ new, (controlLoop baseDir fuel segs w).events = w.events ++ new := by
  induction fuel generalizing segs w with
  | zero => exact ⟨[], (List.append_nil _).symm⟩
  | succ fuel ih =>
      obtain ⟨hsocket', new, hnew⟩ := controlStep_events baseDir hsocket segs
      simp only [controlLoop]
      split
      · exact ⟨new, hnew⟩
      · obtain ⟨new', hnew'⟩ := ih (controlStep baseDir segs w).2.1 hsocket'
        refine ⟨new ++ new', ?_⟩
        rw [hnew', hnew, List.append_assoc]

theorem loopOwned_iff {control fuel : Nat} {segs : List Bytes} {w : World fs}
    (hw : Settled control w) (hfresh : FreshSockets control (controlLoop baseDir fuel segs w)) :
    (LoopOwned baseDir control fuel segs w ↔ LoopKeeps baseDir fuel segs w) ∧
      (LoopKeeps baseDir fuel segs w → Settled control (controlLoop baseDir fuel segs w)) := by
  induction fuel generalizing segs w with
  | zero => exact ⟨Iff.rfl, fun _ => hw⟩
  | succ fuel ih =>
      obtain ⟨hsocket, -⟩ := controlStep_events baseDir hw.socket segs
      have hstepFresh : FreshSockets control (controlStep baseDir segs w).2.2 := by
        simp only [controlLoop] at hfresh
        split at hfresh
        · exact hfresh
        · obtain ⟨new, hnew⟩ := controlLoop_events baseDir fuel _ hsocket
          exact freshSockets_of_events hnew hfresh
      rcases Classical.em (RoundLoses segs w) with hloses | hkeeps
      · obtain ⟨hleads, -, hdata⟩ := controlStep_losesSocket baseDir hw.socket hloses
        rw [← hw.known] at hleads
        obtain ⟨hknown, -⟩ := hleads.openSockets hstepFresh
        refine ⟨⟨?_, fun h => absurd hloses h.1⟩, fun h => absurd hloses h.1⟩
        rintro ⟨howned, -⟩
        obtain ⟨listener, hlistener⟩ := Option.ne_none_iff_exists'.mp hdata
        obtain ⟨hne, hopen⟩ := howned listener hlistener
        rw [hknown] at hopen
        exact absurd (List.mem_singleton.mp hopen) hne
      · have hnext := hw.step (controlStep_settles baseDir hw.socket hkeeps) hstepFresh
        have howned := hnext.owned hstepFresh
        simp only [LoopOwned, LoopKeeps, hkeeps, howned, not_false_eq_true, true_and]
        simp only [controlLoop] at hfresh ⊢
        split at hfresh
        · rename_i hret
          rw [if_pos hret]
          refine ⟨⟨fun _ h => ?_, fun _ h => ?_⟩, fun _ => hnext⟩
          · exact absurd hret (Int.not_lt.mpr h)
          · exact absurd hret (Int.not_lt.mpr h)
        · rename_i hret
          obtain ⟨hiff, hlast⟩ := ih hnext hfresh
          rw [if_neg hret]
          exact ⟨imp_congr Iff.rfl hiff, fun h => hlast (h (Int.not_lt.mp hret))⟩

theorem closeSession_leads {control : Nat} {w : World fs} (hsocket : w.conn.socket = some control) :
    Leads control (between control w) w [] (closeSession w) := by
  rcases hdata : w.conn.dataSocket with _ | listener
  · simp only [between, closeSession, hdata, hsocket]
    exact .close control control [] w
  · simp only [between, closeSession, hdata, zsockClose_conn, hsocket]
    exact (Leads.close control listener [control] w).trans (.close control control [] _)

theorem closeSession_extends (w : World fs) :
    ∃ new, (closeSession w).events = w.events ++ new := by
  rcases hsocket : w.conn.socket with _ | socket
  · rcases hdata : w.conn.dataSocket with _ | listener
    · simp only [closeSession, hdata, hsocket]
      exact ⟨[], (List.append_nil _).symm⟩
    · simp only [closeSession, hdata, zsockClose_conn, hsocket]
      exact ⟨[.close listener], rfl⟩
  · rcases hdata : w.conn.dataSocket with _ | listener
    · simp only [closeSession, hdata, hsocket]
      exact ⟨[.close socket], rfl⟩
    · simp only [closeSession, hdata, zsockClose_conn, hsocket]
      refine ⟨[.close listener] ++ [.close socket], ?_⟩
      exact List.append_assoc w.events [.close listener] [.close socket]

/-- The state in which `handle_control_channel` starts. -/
def accepted (conn : Conn) (files : fs.State) (session : Session) : World fs where
  conn := { conn with socket := some session.socket }
  files := files
  net := session.net
  events := []

/-- The data socket is owned between two commands, a socket is used and closed
only while it is open, and at the end every socket has been closed. -/
structure SocketsOwned (conn : Conn) (files : fs.State) (session : Session) : Prop where
  between : 0 ≤ (sendSimpleResponse (accepted conn files session) 220 status220).1 →
    LoopOwned baseDir session.socket (session.control.flatten.length + 1) session.control
      (sendSimpleResponse (accepted conn files session) 220 status220).2
  valid : ValidSockets session.socket (serve baseDir conn files session)
  closed : openSockets session.socket (serve baseDir conn files session) = []

/-- No PASV command of the session loses its listening socket. -/
def SessionKeeps (conn : Conn) (files : fs.State) (session : Session) : Prop :=
  0 ≤ (sendSimpleResponse (accepted conn files session) 220 status220).1 →
    LoopKeeps baseDir (session.control.flatten.length + 1) session.control
      (sendSimpleResponse (accepted conn files session) 220 status220).2

theorem settled_accepted {conn : Conn} (hconn : conn.dataSocket = none) (files : fs.State)
    (session : Session) : Settled session.socket (accepted conn files session) := by
  refine ⟨rfl, trivial, ?_⟩
  rw [between, accepted]
  simp only [hconn]
  rfl

theorem Settled.closeSession {control : Nat} {w : World fs} (hw : Settled control w)
    (hfresh : FreshSockets control (closeSession w)) :
    ValidSockets control (FtpServer.closeSession w) ∧
      openSockets control (FtpServer.closeSession w) = [] := by
  have hleads := closeSession_leads hw.socket
  rw [← hw.known] at hleads
  obtain ⟨hclosed, hvalid⟩ := hleads.openSockets hfresh
  exact ⟨hvalid hw.valid, hclosed⟩

theorem serve_owned_iff {conn : Conn} (hconn : conn.dataSocket = none) (files : fs.State)
    (session : Session) (hfresh : FreshSockets session.socket (serve baseDir conn files session)) :
    SocketsOwned baseDir conn files session ↔ SessionKeeps baseDir conn files session := by
  have hserve : serve baseDir conn files session =
      handleControlChannel baseDir session.control (accepted conn files session) := rfl
  have hwelcome := settles_reply session.socket (accepted conn files session) 220 status220
  have hstart := settled_accepted hconn files session
  rcases hres : sendSimpleResponse (accepted conn files session) 220 status220 with ⟨ret, w⟩
  rw [hres] at hwelcome
  simp only [handleControlChannel, hres] at hserve
  obtain ⟨new, hclose⟩ := closeSession_extends
    (if ret < 0 then w else
      controlLoop baseDir (session.control.flatten.length + 1) session.control w)
  rw [← hserve] at hclose
  have hlastFresh := freshSockets_of_events hclose hfresh
  rw [hserve] at hfresh
  rcases Int.lt_or_le ret 0 with hret | hret
  · rw [if_pos hret] at hserve hfresh hlastFresh
    obtain ⟨hvalid, hclosed⟩ := (hstart.step hwelcome hlastFresh).closeSession hfresh
    have hnone : ¬ (0 : Int) ≤
        (sendSimpleResponse (accepted conn files session) 220 status220).1 := by
      rw [hres]
      exact Int.not_le.mpr hret
    refine ⟨fun _ h => absurd h hnone, fun _ => ⟨fun h => absurd h hnone, ?_, ?_⟩⟩
    · rw [hserve]
      exact hvalid
    · rw [hserve]
      exact hclosed
  · rw [if_neg (Int.not_lt.mpr hret)] at hserve hfresh hlastFresh
    have hwelcomed : Settled session.socket w := by
      obtain ⟨new, hnew⟩ := controlLoop_events baseDir (session.control.flatten.length + 1)
        session.control (hwelcome.2.trans hstart.socket)
      exact hstart.step hwelcome (freshSockets_of_events hnew hlastFresh)
    obtain ⟨hiff, hlast⟩ := loopOwned_iff baseDir hwelcomed hlastFresh
    constructor
    · rintro ⟨hbetween, -, -⟩ hsent
      have howned := hbetween hsent
      rw [hres] at howned ⊢
      exact hiff.mp howned
    · intro hkeeps
      have hloop : LoopKeeps baseDir (session.control.flatten.length + 1) session.control w := by
        rw [SessionKeeps, hres] at hkeeps
        exact hkeeps hret
      obtain ⟨hvalid, hclosed⟩ := (hlast hloop).closeSession hfresh
      refine ⟨fun _ => ?_, ?_, ?_⟩
      · rw [hres]
        exact hiff.mpr hloop
      · rw [hserve]
        exact hvalid
      · rw [hserve]
        exact hclosed

/-- In a session after any others the sockets are owned exactly when no PASV
command of the session loses its listening socket. -/
theorem socketsOwned_iff {conn : Conn} (hconn : lftpdConnInit baseDir = some conn)
    (history : List (fs.State × Session)) (files : fs.State) (session : Session)
    (hfresh : FreshSockets session.socket
      (serve baseDir (lftpdConnRun baseDir conn history) files session)) :
    SocketsOwned baseDir (lftpdConnRun baseDir conn history) files session ↔
      SessionKeeps baseDir (lftpdConnRun baseDir conn history) files session :=
  serve_owned_iff baseDir
    (lftpdConnRun_dataSocket baseDir (lftpdConnInit_some baseDir hconn).2 history) files session
    hfresh

end

instance (control : Nat) (w : World disk) : Decidable (FreshSockets control w) :=
  inferInstanceAs (Decidable (Along hold Fresh _ _))

instance (control : Nat) (w : World disk) : Decidable (ValidSockets control w) :=
  inferInstanceAs (Decidable (Along hold Valid _ _))

/-- A client that asks for a passive socket on a control connection with the name
`name`. -/
def askPassive (name : SockName) : Session :=
  ⟨5, [text "PASV" ++ crlf], ⟨[], [some 6], [1024], [name], []⟩⟩

theorem socketsOwned_askPassive :
    SocketsOwned [slash] (lftpdConnRun [slash] rootConn ([] : List (disk.State × Session)))
        emptyDisk (askPassive (.inet 1)) ↔
      SessionKeeps [slash] (lftpdConnRun [slash] rootConn ([] : List (disk.State × Session)))
        emptyDisk (askPassive (.inet 1)) :=
  socketsOwned_iff [slash] (by decide +kernel) [] emptyDisk (askPassive (.inet 1))
    (by decide +kernel)

/-- For a client that is not connected over IPv4 the listening socket is closed by
the command and once more at the end. -/
theorem not_socketsOwned_of_otherFamily :
    FreshSockets (askPassive .otherFamily).socket
        (serve [slash] rootConn emptyDisk (askPassive .otherFamily)) ∧
      (serve [slash] rootConn emptyDisk (askPassive .otherFamily)).events.count (.close 6) = 2 ∧
      ¬ SocketsOwned [slash] rootConn emptyDisk (askPassive .otherFamily) := by
  refine ⟨by decide +kernel, by decide +kernel, mt SocketsOwned.valid ?_⟩
  decide +kernel

end ZeusLe.FtpSockets
