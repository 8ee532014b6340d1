import Mathlib.Data.List.Basic
import ZeusLe.Errno
import ZeusLe.Library.Word

/-!
The part of the file-system API that the recorder calls. The environment picks
the outcome of every call, so that a run says which of them fail, and how FatFs
compares names is a parameter; a file keeps the bytes that were stored in it.
-/

namespace ZeusLe.FileSystem

open ZeusLe.Library.Word

/-- A name of the C code: the characters before the terminator. -/
abbrev Path := List Char

def mountPoint : Path := ['/', 'S', 'D', ':']

/-- The name on the card of a path below the mount point. -/
def onCard (path : Path) : Path :=
  path.drop (mountPoint.length + 1)

def PlainChar (c : Char) : Prop :=
  ' '.toNat ≤ c.toNat ∧ c ≠ '/' ∧ c ≠ '\\'

instance (c : Char) : Decidable (PlainChar c) :=
  inferInstanceAs (Decidable (_ ∧ _))

/-- One component of a path, up to its last character. FatFs takes a slash and a
backslash for separators and a control character for the end of the path, and drops
spaces and dots at the end of a component. -/
structure Plain (name : Path) : Prop where
  chars : ∀ c ∈ name, PlainChar c
  last : name.getLast? ≠ some ' ' ∧ name.getLast? ≠ some '.'

/-- How FatFs compares a name with a path, and the name that a new file gets. Letters
are compared in upper case; outside of ASCII it depends on the code page. -/
structure FatNames where
  upper : Char → Char
  upper_ascii : ∀ c, c.toNat < 128 → upper c = c.toUpper
  fold : Path → Path
  fold_plain : ∀ name, Plain name → fold name = name.map upper
  entry : Path → Path
  entry_plain : ∀ name, Plain name → entry name = name

def FatNames.Same (fat : FatNames) (name path : Path) : Prop :=
  fat.fold name = fat.fold path

instance (fat : FatNames) (name path : Path) : Decidable (fat.Same name path) :=
  inferInstanceAs (Decidable (_ = _))

/-- A code page with the letters of ASCII only. -/
def asciiNames : FatNames where
  upper := Char.toUpper
  upper_ascii _ _ := rfl
  fold path := path.map Char.toUpper
  fold_plain _ _ := rfl
  entry path := path
  entry_plain _ _ := rfl

/-- What is on a card, by the names below the mount point, and the short names of
files that are listed under another one. A short name that is made for a new file
ends in a tilde and a number: no file is opened by it. -/
structure Card where
  fat : FatNames
  names : List Path
  aliases : List Path

def emptyCard : Card :=
  ⟨asciiNames, [], []⟩

def Card.finds (card : Card) (path : Path) : Bool :=
  (card.names ++ card.aliases).any fun name => card.fat.Same name (onCard path)

/-- How one call into the file system ends. `short` is a write that stores only
some of the bytes and leaves a value in `errno`; `err` is a call that returns a
negative code, for a write possibly after some bytes were stored. -/
inductive Outcome where
  | ok
  | err (stored code : Nat)
  | short (stored errno : Nat)
  deriving DecidableEq, Repr

def Outcome.code : Outcome → Int
  | .ok => 0
  | .err _ code => -(code + 1)
  | .short _ errno => -(errno + 1)

theorem Outcome.code_neg {o : Outcome} (ho : o ≠ .ok) : o.code < 0 := by
  cases o with
  | ok => exact absurd rfl ho
  | err stored code =>
      simp only [Outcome.code]
      omega
  | short stored errno =>
      simp only [Outcome.code]
      omega

theorem Outcome.code_eq_zero_iff (o : Outcome) : o.code = 0 ↔ o = .ok := by
  cases o <;> simp [Outcome.code] <;> omega

/-- How many bytes a write of `len` bytes stores. -/
def Outcome.stored : Outcome → Nat → Nat
  | .ok, len => len
  | .err n _, len => min n len
  | .short n _, len => min n len

/-- Whether a write of `len` bytes reports all of them. -/
def Outcome.completes : Outcome → Nat → Bool
  | .ok, _ => true
  | .err _ _, _ => false
  | .short n _, len => len ≤ n

theorem Outcome.stored_le (o : Outcome) (len : Nat) : o.stored len ≤ len := by
  cases o with
  | ok => exact Nat.le_refl _
  | err n code => exact Nat.min_le_right _ _
  | short n errno => exact Nat.min_le_right _ _

theorem Outcome.stored_of_completes {o : Outcome} {len : Nat} (h : o.completes len = true) :
    o.stored len = len := by
  cases o with
  | ok => rfl
  | err n code => cases h
  | short n errno => exact Nat.min_eq_right (of_decide_eq_true h)

/-- A `struct fs_file_t`: no open file, or a handle. Copies of the struct share
the handle. -/
abbrev FsFile := Option Nat

structure File where
  path : Path
  bytes : List UInt8
  pos : Nat
  deriving DecidableEq, Repr

/-- The card, and every file that was opened so far in the order of opening. A
handle is an index into `files`. -/
structure Fs where
  card : Card
  files : List File

def splice (bytes : List UInt8) (pos : Nat) (data : List UInt8) : List UInt8 :=
  bytes.take pos ++ data ++ bytes.drop (pos + data.length)

theorem splice_at_end (bytes data : List UInt8) :
    splice bytes bytes.length data = bytes ++ data := by
  simp [splice]

theorem splice_length {bytes data : List UInt8} {pos : Nat}
    (h : pos + data.length ≤ bytes.length) :
    (splice bytes pos data).length = bytes.length := by
  simp [splice]
  omega

theorem drop_splice {bytes data : List UInt8} {pos n : Nat}
    (hn : pos + data.length ≤ n) (hlen : n ≤ bytes.length) :
    (splice bytes pos data).drop n = bytes.drop n := by
  have hpos : (bytes.take pos).length = pos := by simp; omega
  rw [splice, List.append_assoc, List.drop_append, List.drop_append, hpos,
    List.drop_drop]
  have hfirst : (bytes.take pos).drop n = [] :=
    List.drop_eq_nil_of_le (by omega)
  have hsecond : data.drop (n - pos) = [] :=
    List.drop_eq_nil_of_le (by omega)
  rw [hfirst, hsecond]
  simp only [List.nil_append]
  congr 1
  omega

theorem modify_last {α : Type*} (g : α → α) (init : List α) (a : α) :
    (init ++ [a]).modify init.length g = init ++ [g a] := by
  induction init with
  | nil => rfl
  | cons b init ih => simp [ih]

theorem modify_not_last {α : Type*} (g : α → α) {init : List α} (a : α) {i : Nat}
    (hi : i < init.length) : (init ++ [a]).modify i g = init.modify i g ++ [a] := by
  induction init generalizing i with
  | nil => simp at hi
  | cons b init ih =>
      cases i with
      | zero => rfl
      | succ i =>
          simp only [List.cons_append, List.modify_succ_cons]
          rw [ih (by simpa using hi)]

def File.store (f : File) (data : List UInt8) : File :=
  { f with bytes := splice f.bytes f.pos data, pos := f.pos + data.length }

def File.append (f : File) (data : List UInt8) : File :=
  { f with bytes := f.bytes ++ data, pos := f.bytes.length + data.length }

theorem File.store_eq_append {f : File} (hpos : f.pos = f.bytes.length) (data : List UInt8) :
    f.store data = f.append data := by
  simp only [File.store, File.append, hpos, splice_at_end]

/-- `fs_write` of `len` bytes from `buf`: the return value, the value left in
`errno`, and the new state. -/
def fsWrite (o : Outcome) (fp : FsFile) (buf : List UInt8) (len : UInt32) (fs : Fs) :
    Int × Nat × Fs :=
  match fp with
  | none => (-ebadf, 0, fs)
  | some h =>
      let stored (n : Nat) : Fs :=
        { fs with files := fs.files.modify h fun f => f.store (buf.take n) }
      match o with
      | .ok => (len.toInt32.toInt, 0, stored len.toNat)
      | .err n _ => (o.code, 0, stored (min n len.toNat))
      | .short n errno => ((min n len.toNat : Nat), errno, stored (min n len.toNat))

theorem fsWrite_ok {len : UInt32} (hlen : len.toNat < 2 ^ 31) (h : Nat) (buf : List UInt8)
    (fs : Fs) :
    fsWrite .ok (some h) buf len fs = ((len.toNat : Int), 0,
      { fs with files := fs.files.modify h fun f => f.store (buf.take len.toNat) }) := by
  simp only [fsWrite, toInt_toInt32 hlen]

theorem fsWrite_fs (o : Outcome) (h : Nat) (buf : List UInt8) (len : UInt32) (fs : Fs) :
    (fsWrite o (some h) buf len fs).2.2 =
      { fs with files := fs.files.modify h fun f => f.store (buf.take (o.stored len.toNat)) } := by
  cases o <;> rfl

inductive Seek where
  | set (offset : Nat)
  | toEnd
  deriving DecidableEq, Repr

def fsSeek (o : Outcome) (fp : FsFile) (whence : Seek) (fs : Fs) : Int × Fs :=
  match fp with
  | none => (-ebadf, fs)
  | some h =>
      match o with
      | .ok =>
          (0, { fs with files := fs.files.modify h fun f =>
            { f with pos := match whence with
                | .set offset => offset
                | .toEnd => f.bytes.length } })
      | _ => (o.code, fs)

theorem fsSeek_of_ne_ok {o : Outcome} (ho : o ≠ .ok) (h : Nat) (whence : Seek) (fs : Fs) :
    fsSeek o (some h) whence fs = (o.code, fs) := by
  cases o with
  | ok => exact absurd rfl ho
  | err stored code => rfl
  | short stored errno => rfl

def fsSync (o : Outcome) (fp : FsFile) : Int :=
  match fp with
  | none => -ebadf
  | some _ => o.code

/-- `fs_close` clears the struct when it succeeds; closing a struct that holds
no file is a success without effect. -/
def fsClose (o : Outcome) (fp : FsFile) : Int × FsFile :=
  match fp with
  | none => (0, none)
  | some h => if o = .ok then (0, none) else (o.code, some h)

/-- `fs_open` with `FS_O_WRITE | FS_O_CREATE | FS_O_TRUNC`. A new name enters
the directory at `slot`; the file that is found loses its content. -/
def fsOpen (o : Outcome) (slot : Nat) (path : Path) (fs : Fs) : Int × FsFile × Fs :=
  match o with
  | .ok =>
      let card := if fs.card.finds path then fs.card
        else { fs.card with
          names := fs.card.names.take slot ++
            fs.card.fat.entry (onCard path) :: fs.card.names.drop slot }
      (0, some fs.files.length,
        { card := card, files := fs.files ++ [⟨path, [], 0⟩] })
  | _ => (o.code, none, fs)

theorem fsOpen_fat (slot : Nat) (path : Path) (fs : Fs) :
    (fsOpen .ok slot path fs).2.2.card.fat = fs.card.fat := by
  simp only [fsOpen]
  split <;> rfl

theorem mem_fsOpen_card {slot : Nat} {path name : Path} {fs : Fs}
    (hmem : name ∈ (fsOpen .ok slot path fs).2.2.card.names ++
      (fsOpen .ok slot path fs).2.2.card.aliases) :
    name = fs.card.fat.entry (onCard path) ∨ name ∈ fs.card.names ++ fs.card.aliases := by
  simp only [fsOpen] at hmem
  split at hmem
  · exact Or.inr hmem
  · rw [← List.take_append_drop slot fs.card.names]
    simp only [List.mem_append, List.mem_cons] at hmem ⊢
    tauto

theorem fsOpen_card_of_ne_ok {o : Outcome} (ho : o ≠ .ok) (slot : Nat) (path : Path) (fs : Fs) :
    fsOpen o slot path fs = (o.code, none, fs) := by
  cases o with
  | ok => exact absurd rfl ho
  | err stored code => rfl
  | short stored errno => rfl

theorem fsWrite_card (o : Outcome) (fp : FsFile) (buf : List UInt8) (len : UInt32) (fs : Fs) :
    (fsWrite o fp buf len fs).2.2.card = fs.card := by
  rcases fp with _ | h
  · rfl
  · rw [fsWrite_fs]

end ZeusLe.FileSystem
