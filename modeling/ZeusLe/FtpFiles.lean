import ZeusLe.Errno
import ZeusLe.FtpLine

/-!
The file system that the FTP server is given. Only its calls are known: what they
return, and what the server may rely on when they succeed.
-/

namespace ZeusLe.FtpFiles

open ZeusLe.FtpLine

/-- The flags that the server opens a file with: `FS_O_READ`, or
`FS_O_WRITE | FS_O_CREATE`. -/
inductive OpenFlags where
  | read
  | writeCreate
  deriving DecidableEq, Repr

inductive EntryType where
  | file
  | dir
  deriving DecidableEq, Repr

structure FsDirent where
  type : EntryType
  size : Nat
  name : Bytes
  deriving DecidableEq, Repr

/-- A result below zero is an error; `Except.error` holds such a result. An open
file is its path and the position in it. -/
structure FileSystem where
  State : Type
  /-- The bytes of the file at a path. -/
  content : State → Bytes → Option Bytes
  fsOpen : State → Bytes → OpenFlags → Int × State
  fsRead : State → Bytes → Nat → Nat → Except Int Bytes
  /-- The result and `errno`. -/
  fsWrite : State → Bytes → Nat → Bytes → (Int × Nat) × State
  fsClose : State → Bytes → State
  fsStatvfs : State → Bytes → Int
  fsStat : State → Bytes → Except Int FsDirent
  fsUnlink : State → Bytes → Int × State
  fsMkdir : State → Bytes → Int × State
  /-- What the calls of `fs_readdir` return, up to the end of the directory. -/
  fsOpendir : State → Bytes → Except Int (List (Except Int FsDirent))
  open_read : ∀ s path, 0 ≤ (fsOpen s path .read).1 →
    content (fsOpen s path .read).2 path = content s path
  /-- Without `FS_O_TRUNC` the old content stays. -/
  open_write : ∀ s path, 0 ≤ (fsOpen s path .writeCreate).1 →
    content (fsOpen s path .writeCreate).2 path = some ((content s path).getD [])
  /-- A read returns what follows the position, and nothing only at the end. -/
  read_ok : ∀ s path pos len bytes, fsRead s path pos len = .ok bytes →
    ∃ old, content s path = some old ∧ bytes <+: old.drop pos ∧
      (bytes = [] → 0 < len → old.drop pos = [])
  read_error : ∀ s path pos len ret, fsRead s path pos len = .error ret → ret < 0
  /-- A write that returns the number of its bytes has stored them at the position. -/
  write_ok : ∀ s path pos bytes old, content s path = some old → pos ≤ old.length →
    (fsWrite s path pos bytes).1.1 = bytes.length →
    content (fsWrite s path pos bytes).2 path = some (store old pos bytes)
  close : ∀ s path, content (fsClose s path) path = content s path

def memoryRead (files : List (Bytes × Bytes)) (path : Bytes) (pos len : Nat) : Except Int Bytes :=
  match files.lookup path with
  | none => .error (-enoent)
  | some old => .ok ((old.drop pos).take len)

def memoryWrite (files : List (Bytes × Bytes)) (path : Bytes) (pos : Nat) (bytes : Bytes) :
    (Int × Nat) × List (Bytes × Bytes) :=
  ((bytes.length, 0), (path, store ((files.lookup path).getD []) pos bytes) :: files)

def memoryOpen (files : List (Bytes × Bytes)) (path : Bytes) : OpenFlags → Int × List (Bytes × Bytes)
  | .read => (if (files.lookup path).isSome then 0 else -enoent, files)
  | .writeCreate => (0, (path, (files.lookup path).getD []) :: files)

theorem memoryOpen_write (files : List (Bytes × Bytes)) (path : Bytes) :
    (memoryOpen files path .writeCreate).2.lookup path = some ((files.lookup path).getD []) :=
  List.lookup_cons_self

theorem memoryRead_ok {files : List (Bytes × Bytes)} {path bytes : Bytes} {pos len : Nat}
    (h : memoryRead files path pos len = .ok bytes) :
    ∃ old, files.lookup path = some old ∧ bytes <+: old.drop pos ∧
      (bytes = [] → 0 < len → old.drop pos = []) := by
  simp only [memoryRead] at h
  split at h
  · cases h
  · rename_i old hold
    cases h
    refine ⟨old, hold, List.take_prefix _ _, ?_⟩
    intro hnil hlen
    rcases List.take_eq_nil_iff.mp hnil with hzero | hend
    · exact absurd hzero (Nat.ne_of_gt hlen)
    · exact hend

theorem memoryRead_error {files : List (Bytes × Bytes)} {path : Bytes} {pos len : Nat} {ret : Int}
    (h : memoryRead files path pos len = .error ret) : ret < 0 := by
  simp only [memoryRead] at h
  split at h
  · cases h
    decide
  · cases h

theorem memoryWrite_ok {files : List (Bytes × Bytes)} {path old : Bytes}
    (hold : files.lookup path = some old) (pos : Nat) (bytes : Bytes) :
    (memoryWrite files path pos bytes).2.lookup path = some (store old pos bytes) := by
  rw [memoryWrite, hold]
  exact List.lookup_cons_self

/-- `mount` is the only directory. -/
def memory (mount : Bytes) : FileSystem where
  State := List (Bytes × Bytes)
  content files path := files.lookup path
  fsOpen := memoryOpen
  fsRead := memoryRead
  fsWrite := memoryWrite
  fsClose files _ := files
  fsStatvfs _ path := if path = mount then 0 else -enoent
  fsStat files path :=
    match files.lookup path with
    | none => .error (-enoent)
    | some bytes => .ok ⟨.file, bytes.length, path⟩
  fsUnlink files path :=
    (if (files.lookup path).isSome then 0 else -enoent, files.filter fun file => file.1 ≠ path)
  fsMkdir files _ := (-enoent, files)
  fsOpendir files path :=
    if path = mount then .ok (files.map fun file => .ok ⟨.file, file.2.length, file.1⟩)
    else .error (-enoent)
  open_read _ _ _ := rfl
  open_write files path _ := memoryOpen_write files path
  read_ok _ _ _ _ _ := memoryRead_ok
  read_error _ _ _ _ _ := memoryRead_error
  write_ok _ _ pos bytes _ hold _ _ := memoryWrite_ok hold pos bytes
  close _ _ := rfl

end ZeusLe.FtpFiles
