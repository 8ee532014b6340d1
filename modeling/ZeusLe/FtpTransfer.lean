import ZeusLe.FtpSteps
import ZeusLe.FtpFraming

/-! When a file that was stored is retrieved as it was sent. -/

namespace ZeusLe.FtpTransfer

open ZeusLe.Library.Segments
open ZeusLe.FtpLine
open ZeusLe.FtpFraming
open ZeusLe.FtpFiles
open ZeusLe.FtpPath
open ZeusLe.Ftp
open ZeusLe.FtpSteps

theorem sendLoop_prefix (bytes : Bytes) (sends : List (Option Nat)) :
    (sendLoop bytes sends).1 <+: bytes := by
  induction sends generalizing bytes with
  | nil => exact List.prefix_refl bytes
  | cons send sends ih =>
      simp only [sendLoop]
      split
      · exact List.nil_prefix
      · cases send with
        | none => exact List.nil_prefix
        | some n =>
            obtain ⟨rest, hrest⟩ := ih (bytes.drop (n + 1))
            refine ⟨rest, ?_⟩
            simp only [List.append_assoc, hrest, List.take_append_drop]

theorem sendLoop_ret (bytes : Bytes) (sends : List (Option Nat)) :
    (sendLoop bytes sends).2.1 < 0 ∨
      ((sendLoop bytes sends).2.1 = 0 ∧ (sendLoop bytes sends).1 = bytes) := by
  induction sends generalizing bytes with
  | nil => exact Or.inr ⟨rfl, rfl⟩
  | cons send sends ih =>
      simp only [sendLoop]
      split
      · rename_i hnil
        exact Or.inr ⟨rfl, hnil.symm⟩
      · cases send with
        | none =>
            apply Or.inl
            change (-1 : Int) < 0
            decide
        | some n =>
            rcases ih (bytes.drop (n + 1)) with hfail | ⟨hret, hsent⟩
            · exact Or.inl hfail
            · refine Or.inr ⟨hret, ?_⟩
              simp only [hsent, List.take_append_drop]

section

variable {fs : FileSystem}

/-- The events since `w`. -/
def newEvents (w w' : World fs) : List Event :=
  w'.events.drop w.events.length

theorem newEvents_eq {w w' : World fs} {new : List Event} (h : w'.events = w.events ++ new) :
    newEvents w w' = new := by
  rw [newEvents, h, List.drop_left]

def replyText (code : Int) (body : Bytes) : Bytes :=
  decimal code ++ text " " ++ body ++ crlf

/-- The reply 226 has been sent since `w`. -/
def Answers (w w' : World fs) : Prop :=
  .reply (replyText 226 status226) ∈ newEvents w w'

instance (w w' : World fs) : Decidable (Answers w w') :=
  inferInstanceAs (Decidable (_ ∈ newEvents w w'))

def dataOf : Event → Bytes
  | .data _ bytes => bytes
  | _ => []

/-- What was sent on data connections since `w`. -/
def dataSent (w w' : World fs) : Bytes :=
  (newEvents w w').flatMap dataOf

def Quiet (w w' : World fs) : Prop :=
  ∃ new, w'.events = w.events ++ new ∧ .reply (replyText 226 status226) ∉ new

theorem Quiet.refl (w : World fs) : Quiet w w :=
  ⟨[], (List.append_nil _).symm, List.not_mem_nil⟩

theorem Quiet.trans {w w' w'' : World fs} (h : Quiet w w') (h' : Quiet w' w'') : Quiet w w'' := by
  obtain ⟨new, hnew, hquiet⟩ := h
  obtain ⟨new', hnew', hquiet'⟩ := h'
  refine ⟨new ++ new', by rw [hnew', hnew, List.append_assoc], ?_⟩
  intro hmem
  rcases List.mem_append.mp hmem with hmem | hmem
  · exact hquiet hmem
  · exact hquiet' hmem

theorem Quiet.of_event {w w' : World fs} {event : Event} (hnew : w'.events = w.events ++ [event])
    (hevent : ∀ bytes, event ≠ .reply bytes) : Quiet w w' :=
  ⟨[event], hnew, fun hmem => hevent _ (List.mem_singleton.mp hmem).symm⟩

theorem Quiet.not_answers {w w' : World fs} (h : Quiet w w') : ¬ Answers w w' := by
  obtain ⟨new, hnew, hquiet⟩ := h
  rw [Answers, newEvents_eq hnew]
  exact hquiet

theorem quiet_zsockClose (w : World fs) (socket : Nat) : Quiet w (w.zsockClose socket) :=
  .of_event rfl fun _ h => Event.noConfusion h

/-- At most a reply, of which the client may have got the beginning only. -/
def Replies (code : Int) (body : Bytes) (new : List Event) : Prop :=
  ∀ event ∈ new, ∃ sent, event = .reply sent ∧ sent <+: replyText code body

theorem sendSimpleResponse_replies (w : World fs) (code : Int) (body : Bytes) :
    ∃ new, (sendSimpleResponse w code body).2.events = w.events ++ new ∧
      Replies code body new := by
  have hnothing : Replies code body [] := fun _ hevent => absurd hevent List.not_mem_nil
  simp only [sendSimpleResponse, sendResponse, if_true, Bool.false_eq_true, if_false]
  split
  · exact ⟨[], (List.append_nil _).symm, hnothing⟩
  · split
    · exact ⟨[], (List.append_nil _).symm, hnothing⟩
    · refine ⟨_, rfl, ?_⟩
      intro event hevent
      rw [List.mem_singleton.mp hevent]
      exact ⟨_, rfl, sendLoop_prefix _ _⟩

theorem dataOf_replies {code : Int} {body : Bytes} {new : List Event}
    (hnew : Replies code body new) : new.flatMap dataOf = [] := by
  apply List.flatMap_eq_nil_iff.mpr
  intro event hevent
  obtain ⟨sent, rfl, -⟩ := hnew event hevent
  rfl

theorem quiet_reply (w : World fs) (code : Int) (body : Bytes)
    (hcode : (replyText code body).head? ≠ (replyText 226 status226).head?) :
    Quiet w (sendSimpleResponse w code body).2 := by
  obtain ⟨new, hnew, hreplies⟩ := sendSimpleResponse_replies w code body
  refine ⟨new, hnew, ?_⟩
  intro hmem
  obtain ⟨sent, heq, rest, hrest⟩ := hreplies _ hmem
  apply hcode
  rw [← hrest, ← Event.reply.inj heq]
  rfl

theorem quiet_log {w : World fs} {event : Event} (hevent : ∀ bytes, event ≠ .reply bytes) :
    Quiet w (w.log event) :=
  .of_event rfl hevent

theorem quiet_fs {w w' : World fs} {call : FsCall} (hnew : w'.events = w.events ++ [.fs call]) :
    Quiet w w' :=
  .of_event hnew fun _ h => Event.noConfusion h

theorem quiet_data (w : World fs) (socket : Nat) (bytes : Bytes) :
    Quiet w (w.send (.data socket) bytes).2 :=
  .of_event rfl fun _ h => Event.noConfusion h

theorem spans_quiet (socket : Nat) (path : Bytes) : Spans socket path (@Quiet fs) where
  refl := .refl
  trans := .trans
  fs hnew _ _ := quiet_fs hnew
  data w bytes := quiet_data w socket bytes
  use _ := quiet_log fun _ h => Event.noConfusion h

theorem quiet_acceptDataConnection (w : World fs) : Quiet w (acceptDataConnection w).2 := by
  simp only [acceptDataConnection]
  split
  · exact .refl w
  · rename_i listener _
    have huse : Quiet w (World.log (w.lftpdInetGetSocketPort listener).2 (.use listener)) :=
      (quiet_log fun _ h => Event.noConfusion h).trans (quiet_log fun _ h => Event.noConfusion h)
    split
    · exact huse.trans (quiet_log fun _ h => Event.noConfusion h)
    · exact huse.trans (quiet_log fun _ h => Event.noConfusion h)

theorem acceptDataConnection_some {w : World fs} {data : DataConn}
    (h : (acceptDataConnection w).1 = some data) :
    w.net.accepts.head?.join = some data ∧
      (∃ listener, (acceptDataConnection w).2.events =
        w.events ++ [.use listener, .use listener, .accept data.socket]) ∧
      (acceptDataConnection w).2.conn = w.conn ∧ (acceptDataConnection w).2.files = w.files := by
  simp only [acceptDataConnection] at h ⊢
  split at h
  · cases h
  · rename_i listener hlistener
    simp only [World.lftpdInetGetSocketPort] at h ⊢
    split at h
    · cases h
    · rename_i data' hdata
      cases h
      refine ⟨hdata, ⟨listener, ?_⟩, rfl, rfl⟩
      simp only [World.log, List.append_assoc, List.cons_append, List.nil_append]

variable (baseDir : Bytes)

theorem transfer_answers {copy : World fs → DataConn → Bytes → Int × World fs}
    (hcopy : ∀ w data path, Quiet w (copy w data path).2)
    {w : World fs} {arg : Option Bytes} {argBufLen : Nat}
    (h : Answers w (transfer baseDir w arg argBufLen copy).2) :
    ∃ data path w₁, w.net.accepts.head?.join = some data ∧
      lftpdPathResolve baseDir w.conn.cwd.val arg argBufLen = .ok path ∧
      w₁.files = w.files ∧ 0 ≤ (copy w₁ data path).1 ∧
      (transfer baseDir w arg argBufLen copy).2.files = (copy w₁ data path).2.files ∧
      dataSent w (transfer baseDir w arg argBufLen copy).2 =
        dataSent w₁ (copy w₁ data path).2 := by
  have hquiet := quiet_acceptDataConnection w
  rcases haccept : (acceptDataConnection w).1 with _ | data
  · simp only [transfer, haccept] at h
    exact absurd h (hquiet.trans (quiet_reply _ 425 status425 (by decide +kernel))).not_answers
  · obtain ⟨hdata, ⟨listener, hevents⟩, hconn, hfiles⟩ := acceptDataConnection_some haccept
    obtain ⟨opening, hopening, hreplies⟩ :=
      sendSimpleResponse_replies (acceptDataConnection w).2 150 status150
    rw [hevents, List.append_assoc] at hopening
    rw [← sendSimpleResponse_conn _ 150 status150] at hconn
    rw [← sendSimpleResponse_files _ 150 status150] at hfiles
    replace hquiet := hquiet.trans
      (quiet_reply (acceptDataConnection w).2 150 status150 (by decide +kernel))
    simp only [transfer, haccept] at h ⊢
    generalize sendSimpleResponse (acceptDataConnection w).2 150 status150 = started at *
    obtain ⟨ret, w₁⟩ := started
    simp only at h hopening hfiles hconn hquiet ⊢
    rw [hconn] at h ⊢
    split at h
    · exact absurd h (hquiet.trans (quiet_zsockClose _ _)).not_answers
    · rename_i hret
      rw [if_neg hret]
      rcases hpath : lftpdPathResolve baseDir w.conn.cwd.val arg argBufLen with _ | path
      · simp only [hpath] at h
        exact absurd h ((hquiet.trans (quiet_reply _ 500 status500 (by decide +kernel))).trans
          (quiet_zsockClose _ _)).not_answers
      · simp only [hpath] at h ⊢
        have hcopied := hquiet.trans (hcopy w₁ data path)
        split at h
        · exact absurd h ((hcopied.trans (quiet_reply _ 450 status450 (by decide +kernel))).trans
            (quiet_zsockClose _ _)).not_answers
        · rename_i hcopyRet
          simp only [if_neg hcopyRet]
          refine ⟨data, path, w₁, hdata, rfl, hfiles, Int.not_lt.mp hcopyRet,
            sendSimpleResponse_files _ _ _, ?_⟩
          obtain ⟨new, hnew, -⟩ := hcopy w₁ data path
          obtain ⟨reply, hreply, hlast⟩ := sendSimpleResponse_replies (copy w₁ data path).2 226 status226
          have hall : ((sendSimpleResponse (copy w₁ data path).2 226 status226).2.zsockClose
              data.socket).events = w.events ++
                ([.use listener, .use listener, .accept data.socket] ++ opening ++ new ++ reply ++
                  [.close data.socket]) := by
            rw [World.zsockClose, World.log, hreply, hnew, hopening]
            simp only [List.append_assoc]
          rw [dataSent, dataSent, newEvents_eq hall, newEvents_eq hnew]
          simp only [List.flatMap_append, dataOf_replies hreplies, dataOf_replies hlast,
            List.flatMap_cons, List.flatMap_nil, dataOf, List.append_nil, List.nil_append]

theorem quiet_receiveFile (w : World fs) (data : DataConn) (path : Bytes) :
    Quiet w (receiveFile w data path).2 :=
  (spans_quiet data.socket path).receiveFile w

theorem receiveFileLoop_content {data : DataConn} {path old : Bytes} {fuel : Nat}
    {segs : List Bytes} (hfuel : segs.flatten.length < fuel) (received : Bytes) {w : World fs}
    (hcontent : fs.content w.files path = some (received ++ old.drop received.length))
    (hret : 0 ≤ (receiveFileLoop data path fuel segs received.length w).1) :
    fs.content (receiveFileLoop data path fuel segs received.length w).2.files path =
      some ((received ++ segs.flatten) ++ old.drop (received ++ segs.flatten).length) := by
  induction fuel generalizing segs received w with
  | zero => omega
  | succ fuel ih =>
      simp only [receiveFileLoop] at hret ⊢
      obtain ⟨bytes, rest, hrecv⟩ : ∃ bytes rest, recv bufLen segs = (bytes, rest) := ⟨_, _, rfl⟩
      have happend := recv_append bufLen segs
      have hadd := recv_length_add bufLen segs
      simp only [hrecv] at happend hadd hret ⊢
      split
      · rename_i hnil
        have hend : segs.flatten = [] := by
          exact recv_eq_nil (by decide : 0 < bufLen) (congrArg Prod.fst hrecv |>.trans hnil)
        rw [hend, List.append_nil]
        exact hcontent
      · rename_i hne
        rw [if_neg hne] at hret
        have hpos := List.length_pos_of_ne_nil hne
        split
        · rename_i hneg
          rw [if_pos hneg] at hret
          omega
        · rename_i hwrite
          rw [if_neg hwrite] at hret
          split
          · rename_i hshort
            rw [if_pos hshort] at hret
            exfalso
            split at hret
            · simp only [enospc] at hret
              omega
            · omega
          · rename_i hfull
            rw [if_neg hfull] at hret
            have hstored := fs.write_ok w.files path received.length bytes _ hcontent
              (by rw [List.length_append]; omega) (not_not.mp hfull)
            rw [store_append, List.drop_drop, ← List.length_append] at hstored
            rw [← List.length_append] at hret ⊢
            have hlast := ih (by omega) _ hstored hret
            rw [List.append_assoc received bytes, happend] at hlast
            exact hlast

theorem receiveFile_content {w : World fs} {data : DataConn} {path : Bytes}
    (hret : 0 ≤ (receiveFile w data path).1) :
    fs.content (receiveFile w data path).2.files path =
      some (data.segs.flatten ++
        ((fs.content w.files path).getD []).drop data.segs.flatten.length) := by
  simp only [receiveFile] at hret ⊢
  split
  · rename_i hopen
    rw [if_pos hopen] at hret
    omega
  · rename_i hopen
    rw [if_neg hopen] at hret
    have hopened := fs.open_write w.files path (Int.not_lt.mp hopen)
    have hloop := receiveFileLoop_content (Nat.lt_succ_self _) [] hopened hret
    exact (fs.close _ _).trans hloop

theorem quiet_sendFile (w : World fs) (socket : Nat) (path : Bytes) :
    Quiet w (sendFile w socket path).2 :=
  (spans_quiet socket path).sendFile w

theorem sendFileLoop_data {socket : Nat} {path old : Bytes} {fuel pos : Nat}
    (hfuel : (old.drop pos).length < fuel) {w : World fs} (hcontent : fs.content w.files path = some old)
    (hret : 0 ≤ (sendFileLoop socket path fuel pos w).1) :
    ∃ new, (sendFileLoop socket path fuel pos w).2.events = w.events ++ new ∧
      new.flatMap dataOf = old.drop pos := by
  induction fuel generalizing pos w with
  | zero => omega
  | succ fuel ih =>
      simp only [sendFileLoop] at hret ⊢
      rcases hread : (w.fsRead path pos bufLen).1 with ret | bytes
      · have hneg := fs.read_error _ _ _ _ _ hread
        simp only [hread] at hret
        omega
      · obtain ⟨content, hsame, ⟨rest, hrest⟩, hend⟩ := fs.read_ok _ _ _ _ _ hread
        obtain rfl := Option.some.inj (hcontent.symm.trans hsame)
        simp only [hread] at hret ⊢
        split
        · rename_i hnil
          exact ⟨_, rfl, (hend hnil (by decide)).symm⟩
        · rename_i hne
          rw [if_neg hne] at hret
          have hpos := List.length_pos_of_ne_nil hne
          have hsend : ¬ ((w.fsRead path pos bufLen).2.send (.data socket) bytes).1 < 0 := by
            intro hneg
            rw [if_pos hneg] at hret
            exact absurd hneg (Int.not_lt.mpr hret)
          rw [if_neg hsend] at hret
          rw [if_neg hsend]
          have hdrop : old.drop (pos + bytes.length) = rest := by
            rw [← List.drop_drop, ← hrest, List.drop_left]
          have hless : (old.drop (pos + bytes.length)).length < fuel := by
            rw [hdrop]
            rw [← hrest, List.length_append] at hfuel
            omega
          have hsame : fs.content ((w.fsRead path pos bufLen).2.send (.data socket) bytes).2.files path =
              some old := hcontent
          obtain ⟨new, hnew, hdata⟩ := ih hless hsame hret
          rcases sendLoop_ret bytes w.net.sends with hfail | ⟨-, hsent⟩
          · exact absurd hfail hsend
          · refine ⟨[.fs (.read path pos bufLen), .data socket bytes] ++ new, ?_, ?_⟩
            · rw [hnew]
              simp only [World.send, World.fsRead, World.log, hsent, List.append_assoc, List.cons_append,
                List.nil_append]
            · rw [List.flatMap_append, hdata, hdrop, ← hrest]
              simp only [List.flatMap_cons, List.flatMap_nil, dataOf, List.append_nil,
                List.nil_append]

theorem sendFile_data {w : World fs} {socket : Nat} {path old : Bytes}
    (hcontent : fs.content w.files path = some old) (hret : 0 ≤ (sendFile w socket path).1) :
    dataSent w (sendFile w socket path).2 = old := by
  simp only [sendFile] at hret ⊢
  split
  · rename_i hopen
    rw [if_pos hopen] at hret
    omega
  · rename_i hopen
    rw [if_neg hopen] at hret
    have hopened := (fs.open_read w.files path (Int.not_lt.mp hopen)).trans hcontent
    have hfuel : (old.drop 0).length <
        ((fs.content (w.fsOpen path .read).2.files path).getD []).length + 1 := by
      change old.length < ((fs.content (fs.fsOpen w.files path .read).2 path).getD []).length + 1
      rw [hopened]
      exact Nat.lt_succ_self _
    obtain ⟨new, hnew, hdata⟩ := sendFileLoop_data hfuel hopened hret
    have hall : (World.fsClose (sendFileLoop socket path
        (((fs.content (w.fsOpen path .read).2.files path).getD []).length + 1) 0
          (w.fsOpen path .read).2).2 path).events =
        w.events ++ ([.fs (.open path .read)] ++ new ++ [.fs (.close path)]) := by
      rw [World.fsClose, World.log, hnew, World.fsOpen, World.log]
      simp only [List.append_assoc]
    rw [dataSent, newEvents_eq hall, List.flatMap_append, List.flatMap_append, hdata]
    simp only [List.drop_zero, List.flatMap_cons, List.flatMap_nil, dataOf, List.append_nil,
      List.nil_append]

theorem retr_data {w : World fs} {arg : Option Bytes} {argBufLen : Nat} {path old : Bytes}
    (hpath : lftpdPathResolve baseDir w.conn.cwd.val arg argBufLen = .ok path)
    (hcontent : fs.content w.files path = some old)
    (h : Answers w (cmdRetr baseDir w arg argBufLen).2) :
    dataSent w (cmdRetr baseDir w arg argBufLen).2 = old := by
  obtain ⟨data, path', w₁, -, hpath', hfiles, hret, -, hsent⟩ :=
    transfer_answers baseDir (fun w data path => quiet_sendFile w data.socket path) h
  obtain rfl := Except.ok.inj (hpath.symm.trans hpath')
  rw [← hfiles] at hcontent
  exact hsent.trans (sendFile_data hcontent hret)

theorem stor_content {w : World fs} {arg : Option Bytes} {argBufLen : Nat}
    (h : Answers w (cmdStor baseDir w arg argBufLen).2) :
    ∃ data path, w.net.accepts.head?.join = some data ∧
      lftpdPathResolve baseDir w.conn.cwd.val arg argBufLen = .ok path ∧
      fs.content (cmdStor baseDir w arg argBufLen).2.files path =
        some (data.segs.flatten ++
          ((fs.content w.files path).getD []).drop data.segs.flatten.length) := by
  obtain ⟨data, path, w₁, hdata, hpath, hfiles, hret, hstored, -⟩ :=
    transfer_answers baseDir quiet_receiveFile h
  refine ⟨data, path, hdata, hpath, ?_⟩
  rw [← hfiles]
  exact (congrArg (fs.content · path) hstored).trans (receiveFile_content hret)

/-- The file holds exactly the bytes `sent`, and a command that retrieves it sends
exactly these. -/
def RoundTrip (files : fs.State) (path sent : Bytes) : Prop :=
  fs.content files path = some sent ∧
    ∀ (w : World fs) (arg : Option Bytes) (argBufLen : Nat), w.files = files →
      lftpdPathResolve baseDir w.conn.cwd.val arg argBufLen = .ok path →
      Answers w (cmdRetr baseDir w arg argBufLen).2 →
      dataSent w (cmdRetr baseDir w arg argBufLen).2 = sent

/-- A file that was stored is retrieved as it was sent exactly when what was in it
before was no longer. -/
theorem stor_roundTrip_iff {w : World fs} {arg : Option Bytes} {argBufLen : Nat}
    (h : Answers w (cmdStor baseDir w arg argBufLen).2) :
    ∃ data path, w.net.accepts.head?.join = some data ∧
      lftpdPathResolve baseDir w.conn.cwd.val arg argBufLen = .ok path ∧
      (RoundTrip baseDir (cmdStor baseDir w arg argBufLen).2.files path data.segs.flatten ↔
        ((fs.content w.files path).getD []).length ≤ data.segs.flatten.length) := by
  obtain ⟨data, path, hdata, hpath, hstored⟩ := stor_content baseDir h
  refine ⟨data, path, hdata, hpath, ?_⟩
  constructor
  · rintro ⟨hcontent, -⟩
    have htail := Option.some.inj (hstored.symm.trans hcontent)
    rw [List.append_right_eq_self] at htail
    exact List.drop_eq_nil_iff.mp htail
  · intro hlen
    rw [List.drop_eq_nil_of_le hlen, List.append_nil] at hstored
    refine ⟨hstored, ?_⟩
    intro w' arg' argBufLen' hfiles hpath' hretr
    rw [← hfiles] at hstored
    exact retr_data baseDir hpath' hstored hretr

end

/-- A session that is in the directory `/SD:` and whose client sends `bytes`. -/
def uploading (files : List (Bytes × Bytes)) (bytes : Bytes) : World disk where
  conn := {
    cwd := ⟨text "/SD:", by decide +kernel⟩
    cmdBuf := clearCmdBuf lftpdMaxPathLen
    socket := some 5
    dataSocket := some 6 }
  files := files
  net := ⟨[], [], [], [], [some ⟨7, [bytes], false⟩]⟩
  events := []

theorem stor_roundTrip_fresh :
    ∃ data path, (uploading [] [1, 2]).net.accepts.head?.join = some data ∧
      lftpdPathResolve [slash] (uploading [] [1, 2]).conn.cwd.val (some (text "a")) 100 = .ok path ∧
      (RoundTrip [slash] (cmdStor [slash] (uploading [] [1, 2]) (some (text "a")) 100).2.files path
          data.segs.flatten ↔
        ((disk.content (uploading [] [1, 2]).files path).getD []).length ≤ data.segs.flatten.length) :=
  stor_roundTrip_iff [slash] (by decide +kernel)

/-- An upload over a longer file leaves the end of that file. -/
theorem stor_not_roundTrip_of_longer :
    Answers (uploading [(text "/SD:/a", [1, 2, 3])] [9])
        (cmdStor [slash] (uploading [(text "/SD:/a", [1, 2, 3])] [9]) (some (text "a")) 100).2 ∧
      ¬ RoundTrip [slash]
        (cmdStor [slash] (uploading [(text "/SD:/a", [1, 2, 3])] [9]) (some (text "a")) 100).2.files
        (text "/SD:/a") [9] := by
  constructor
  · decide +kernel
  · rintro ⟨hcontent, -⟩
    revert hcontent
    decide +kernel

end ZeusLe.FtpTransfer
