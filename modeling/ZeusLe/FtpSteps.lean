import ZeusLe.Ftp

/-!
What every single call keeps, the loops over files and directories and the
commands keep.
-/

namespace ZeusLe.FtpSteps

open ZeusLe.Library.Segments
open ZeusLe.FtpLine
open ZeusLe.FtpFiles
open ZeusLe.Ftp

def callPath : FsCall → Bytes
  | .open path _ => path
  | .read path _ _ => path
  | .write path _ _ => path
  | .close path => path
  | .statvfs path => path
  | .stat path => path
  | .unlink path => path
  | .mkdir path => path
  | .opendir path => path
  | .readdir path => path
  | .closedir path => path

section

variable {fs : FileSystem}

/-- A relation between two states of a session that every call on `path` and every
call on `socket` keeps. -/
structure Spans (socket : Nat) (path : Bytes) (R : World fs → World fs → Prop) : Prop where
  refl : ∀ w, R w w
  trans : ∀ {w w' w''}, R w w' → R w' w'' → R w w''
  fs : ∀ {w w'} {call : FsCall}, w'.events = w.events ++ [.fs call] → w'.conn = w.conn →
    callPath call = path → R w w'
  data : ∀ w bytes, R w (w.send (.data socket) bytes).2
  use : ∀ w, R w (w.log (.use socket))

namespace Spans

variable {socket : Nat} {path : Bytes} {R : World fs → World fs → Prop}

theorem sendFileLoop (h : Spans socket path R) (fuel pos : Nat) (w : World fs) :
    R w (Ftp.sendFileLoop socket path fuel pos w).2 := by
  induction fuel generalizing pos w with
  | zero => exact h.refl w
  | succ fuel ih =>
      have hread : R w (w.fsRead path pos bufLen).2 := h.fs rfl rfl rfl
      simp only [Ftp.sendFileLoop]
      split
      · exact hread
      · split
        · exact hread
        · split
          · exact h.trans hread (h.data _ _)
          · exact h.trans (h.trans hread (h.data _ _)) (ih _ _)

theorem receiveFileLoop {data : DataConn} (h : Spans data.socket path R) (fuel : Nat)
    (segs : List Bytes) (pos : Nat) (w : World fs) :
    R w (Ftp.receiveFileLoop data path fuel segs pos w).2 := by
  induction fuel generalizing segs pos w with
  | zero => exact h.refl w
  | succ fuel ih =>
      simp only [Ftp.receiveFileLoop]
      split
      · exact h.use w
      · have hwrite : R w ((w.log (.use data.socket)).fsWrite path pos (recv bufLen segs).1).2 :=
          h.trans (h.use w) (h.fs rfl rfl rfl)
        split
        · exact hwrite
        · split
          · exact hwrite
          · exact h.trans hwrite (ih _ _ _)

theorem forEntries (h : Spans socket path R) {next : World fs → FsDirent → Int × World fs}
    (hnext : ∀ w entry, R w (next w entry).2) (entries : List (Except Int FsDirent))
    (w : World fs) : R w (Ftp.forEntries path next w entries).2 := by
  have hread (w : World fs) : R w (w.log (.fs (.readdir path))) := h.fs rfl rfl rfl
  induction entries generalizing w with
  | nil => exact hread w
  | cons result entries ih =>
      cases result with
      | error ret => exact hread w
      | ok entry =>
          have hentry := h.trans (hread w) (hnext _ entry)
          simp only [Ftp.forEntries]
          split
          · exact hread w
          · split
            · exact hentry
            · exact h.trans hentry (ih _)

theorem sendFile_opened (h : Spans socket path R) (w : World fs) :
    R (w.fsOpen path .read).2 (Ftp.sendFile w socket path).2 := by
  simp only [Ftp.sendFile]
  split
  · exact h.refl _
  · exact h.trans (h.sendFileLoop _ _ _) (h.fs rfl rfl rfl)

theorem receiveFile_opened {data : DataConn} (h : Spans data.socket path R) (w : World fs) :
    R (w.fsOpen path .writeCreate).2 (Ftp.receiveFile w data path).2 := by
  simp only [Ftp.receiveFile]
  split
  · exact h.refl _
  · exact h.trans (h.receiveFileLoop _ _ _ _) (h.fs rfl rfl rfl)

theorem readDirectory_opened (h : Spans socket path R)
    {next : World fs → FsDirent → Int × World fs} (hnext : ∀ w entry, R w (next w entry).2)
    (w : World fs) : R (w.log (.fs (.opendir path))) (readDirectory w path next).2 := by
  simp only [readDirectory]
  split
  · exact h.refl _
  · exact h.trans (h.forEntries hnext _ _) (h.fs rfl rfl rfl)

theorem sendList_opened (h : Spans socket path R) (w : World fs) :
    R (w.log (.fs (.opendir path))) (Ftp.sendList w socket path).2 := by
  apply h.readDirectory_opened
  intro w entry
  split
  · exact h.refl w
  · exact h.data w _

theorem sendNlst_opened (h : Spans socket path R) (w : World fs) :
    R (w.log (.fs (.opendir path))) (Ftp.sendNlst w socket path).2 := by
  simp only [Ftp.sendNlst]
  apply h.readDirectory_opened
  intro w entry
  split
  · split
    · exact h.data w _
    · exact h.trans (h.data w _) (h.data _ _)
  · exact h.refl w

theorem sendFile (h : Spans socket path R) (w : World fs) :
    R w (Ftp.sendFile w socket path).2 :=
  h.trans (h.fs rfl rfl rfl : R w (w.fsOpen path .read).2) (h.sendFile_opened w)

theorem receiveFile {data : DataConn} (h : Spans data.socket path R) (w : World fs) :
    R w (Ftp.receiveFile w data path).2 :=
  h.trans (h.fs rfl rfl rfl : R w (w.fsOpen path .writeCreate).2) (h.receiveFile_opened w)

theorem sendList (h : Spans socket path R) (w : World fs) :
    R w (Ftp.sendList w socket path).2 :=
  h.trans (h.fs rfl rfl rfl : R w (w.log (.fs (.opendir path)))) (h.sendList_opened w)

theorem sendNlst (h : Spans socket path R) (w : World fs) :
    R w (Ftp.sendNlst w socket path).2 :=
  h.trans (h.fs rfl rfl rfl : R w (w.log (.fs (.opendir path)))) (h.sendNlst_opened w)

end Spans

theorem spans_conn (socket : Nat) (path : Bytes) :
    Spans socket path fun w w' : World fs => w'.conn = w.conn where
  refl _ := rfl
  trans h h' := h'.trans h
  fs _ hconn _ := hconn
  data _ _ := rfl
  use _ := rfl

/-- A relation between two states of a session that every reply and every call on
files keeps. -/
structure Serves (R : World fs → World fs → Prop) : Prop where
  refl : ∀ w, R w w
  trans : ∀ {w w' w''}, R w w' → R w' w'' → R w w''
  response : ∀ w code includeCode multilineStart body,
    R w (sendResponse w code includeCode multilineStart body).2
  fs : ∀ {w w'} {call : FsCall}, w'.events = w.events ++ [.fs call] → w'.conn = w.conn → R w w'

namespace Serves

variable {R : World fs → World fs → Prop}

theorem reply (h : Serves R) (w : World fs) (code : Int) (body : Bytes) :
    R w (sendSimpleResponse w code body).2 :=
  h.response w code true false body

theorem checkDirectory (h : Serves R) (w : World fs) (cwd : Bytes) :
    R w (Ftp.checkDirectory w cwd).2 := by
  simp only [Ftp.checkDirectory]
  split
  · exact h.refl w
  · split
    · exact h.fs rfl rfl
    · have hstat : R w (w.fsStat cwd).2 := h.fs rfl rfl
      split
      · exact hstat
      · exact hstat

theorem feat (h : Serves R) (w : World fs) (arg : Option Bytes) (argBufLen : Nat) :
    R w (cmdFeat w arg argBufLen).2 := by
  simp only [cmdFeat]
  repeat' apply h.trans _ (h.response _ _ _ _ _)
  exact h.refl w

theorem quit (h : Serves R) (w : World fs) (arg : Option Bytes) (argBufLen : Nat) :
    R w (cmdQuit w arg argBufLen).2 :=
  h.reply w 221 status221

variable (baseDir : Bytes)

theorem dele (h : Serves R) (w : World fs) (arg : Option Bytes) (argBufLen : Nat) :
    R w (cmdDele baseDir w arg argBufLen).2 := by
  simp only [cmdDele]
  split
  · exact h.reply _ _ _
  · split
    · exact h.reply _ _ _
    · rename_i path _
      have hunlink : R w (w.fsUnlink path).2 := h.fs rfl rfl
      split
      · exact h.trans hunlink (h.reply _ _ _)
      · exact h.trans hunlink (h.reply _ _ _)

theorem mkd (h : Serves R) (w : World fs) (arg : Option Bytes) (argBufLen : Nat) :
    R w (cmdMkd baseDir w arg argBufLen).2 := by
  simp only [cmdMkd]
  split
  · exact h.reply _ _ _
  · split
    · exact h.reply _ _ _
    · rename_i path _
      have hmkdir : R w (w.fsMkdir path).2 := h.fs rfl rfl
      split
      · exact h.trans hmkdir (h.reply _ _ _)
      · exact h.trans hmkdir (h.reply _ _ _)

theorem rmd (h : Serves R) (w : World fs) (arg : Option Bytes) (argBufLen : Nat) :
    R w (cmdRmd baseDir w arg argBufLen).2 := by
  simp only [cmdRmd]
  split
  · exact h.reply _ _ _
  · split
    · exact h.reply _ _ _
    · rename_i path _
      have hstat : R w (w.fsStat path).2 := h.fs rfl rfl
      split
      · exact h.trans hstat (h.reply _ _ _)
      · split
        · exact h.trans hstat (h.reply _ _ _)
        · have hunlink : R w ((w.fsStat path).2.fsUnlink path).2 :=
            h.trans hstat (h.fs rfl rfl)
          split
          · exact h.trans hunlink (h.reply _ _ _)
          · exact h.trans hunlink (h.reply _ _ _)

theorem size (h : Serves R) (w : World fs) (arg : Option Bytes) (argBufLen : Nat) :
    R w (cmdSize baseDir w arg argBufLen).2 := by
  simp only [cmdSize]
  split
  · exact h.reply _ _ _
  · split
    · exact h.reply _ _ _
    · rename_i path _
      have hstat : R w (w.fsStat path).2 := h.fs rfl rfl
      split
      · exact h.trans hstat (h.reply _ _ _)
      · exact h.trans hstat (h.reply _ _ _)

end Serves

theorem serves_conn : Serves fun w w' : World fs => w'.conn = w.conn where
  refl _ := rfl
  trans h h' := h'.trans h
  response := sendResponse_conn
  fs _ hconn := hconn

@[simp] theorem checkDirectory_conn (w : World fs) (cwd : Bytes) :
    (checkDirectory w cwd).2.conn = w.conn :=
  serves_conn.checkDirectory w cwd

end

end ZeusLe.FtpSteps
