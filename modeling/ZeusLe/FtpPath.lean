import Mathlib.Data.List.DropRight
import Mathlib.Data.List.TakeWhile
import ZeusLe.Errno
import ZeusLe.FtpLine

/-!
Paths of the FTP server, `lftpd_path.c`, and the trimming of its arguments,
`lftpd_string.c`. A string is the list of the bytes before its terminator.
-/

namespace ZeusLe.FtpPath

open ZeusLe.FtpLine

def slash : UInt8 := 47

def lftpdPathTrimTrailingSlash : Bytes → Bytes
  | [] => []
  | b :: path => b :: path.rdropWhile (· = slash)

/-- `dir` is the prefix. The slash between the two comes from either of them,
from both, or has a place of its own. -/
def lftpdPathPrefix (dir path : Bytes) (pathBufLen : Nat) : Except Int Bytes :=
  if pathBufLen = 0 then .error (-einval)
  else if dir = [] then .ok path
  else if path = [] then
    if pathBufLen < dir.length + 1 then .error (-enametoolong) else .ok dir
  else
    let dirTrailingSlash := dir.getLast? = some slash
    let pathLeadingSlash := path.head? = some slash
    let slashIndex := if dirTrailingSlash then dir.length - 1 else dir.length
    let pathOffset :=
      if dirTrailingSlash ∨ pathLeadingSlash then dir.length else dir.length + 1
    let path := if dirTrailingSlash ∧ pathLeadingSlash then path.tail else path
    if pathBufLen < pathOffset + path.length + 1 then .error (-enametoolong)
    else .ok ((dir ++ List.replicate (pathOffset - dir.length) 0 ++ path).set slashIndex slash)

/-- An absolute path is taken below the base directory. -/
def lftpdPathResolve (baseDir workingDir : Bytes) (path : Option Bytes) (pathBufLen : Nat) :
    Except Int Bytes :=
  match path with
  | none => .error (-einval)
  | some path =>
      let dir := if path.head? = some slash then baseDir else workingDir
      match lftpdPathPrefix dir path pathBufLen with
      | .error ret => .error ret
      | .ok path => .ok (lftpdPathTrimTrailingSlash path)

theorem rdropWhile_length_le (p : UInt8 → Bool) (bytes : Bytes) :
    (bytes.rdropWhile p).length ≤ bytes.length := by
  have hkept := List.rdropWhile_prefix p bytes
  exact hkept.length_le

theorem trimTrailingSlash_length_le (path : Bytes) :
    (lftpdPathTrimTrailingSlash path).length ≤ path.length := by
  cases path with
  | nil => exact le_rfl
  | cons b path => exact Nat.succ_le_succ (rdropWhile_length_le _ path)

theorem trimTrailingSlash_subset (path : Bytes) : lftpdPathTrimTrailingSlash path ⊆ path := by
  cases path with
  | nil => exact List.Subset.refl _
  | cons b path =>
      have hkept := List.rdropWhile_prefix (· = slash) path
      exact List.cons_subset_cons b hkept.subset

theorem trimTrailingSlash_getLast? {path : Bytes}
    (h : (lftpdPathTrimTrailingSlash path).getLast? = some slash) :
    lftpdPathTrimTrailingSlash path = [slash] := by
  cases path with
  | nil => cases h
  | cons b path =>
      simp only [lftpdPathTrimTrailingSlash] at h ⊢
      rcases htrim : path.rdropWhile (· = slash) with _ | ⟨c, rest⟩
      · rw [htrim] at h
        rw [List.getLast?_singleton] at h
        rw [Option.some.inj h]
      · have hne : path.rdropWhile (· = slash) ≠ [] := by
          rw [htrim]
          exact List.cons_ne_nil c rest
        have hlast := List.rdropWhile_last_not (· = slash) path hne
        rw [htrim, List.getLast?_cons_cons] at h
        have heq : (path.rdropWhile (· = slash)).getLast hne = slash := by
          apply Option.some.inj
          rw [← List.getLast?_eq_some_getLast, htrim, h]
        simp [heq] at hlast

theorem pathPrefix_length_lt {dir path result : Bytes} {pathBufLen : Nat}
    (hpath : path.length < pathBufLen) (h : lftpdPathPrefix dir path pathBufLen = .ok result) :
    result.length < pathBufLen := by
  simp only [lftpdPathPrefix] at h
  split at h
  · cases h
  · split at h
    · cases h
      exact hpath
    · split at h
      · split at h
        · cases h
        · rename_i hfits
          cases h
          omega
      · have hoffset : dir.length ≤ if dir.getLast? = some slash ∨ path.head? = some slash then
            dir.length else dir.length + 1 := by
          split
          · exact le_rfl
          · exact Nat.le_succ _
        generalize (if dir.getLast? = some slash ∨ path.head? = some slash then
          dir.length else dir.length + 1) = offset at h hoffset
        generalize (if dir.getLast? = some slash ∧ path.head? = some slash then
          path.tail else path) = rest at h
        generalize (if dir.getLast? = some slash then dir.length - 1 else dir.length) = index at h
        split at h
        · cases h
        · rename_i hfits
          cases h
          rw [List.length_set, List.length_append, List.length_append, List.length_replicate]
          omega

theorem pathResolve_length_lt {baseDir workingDir path result : Bytes} {pathBufLen : Nat}
    (hpath : path.length < pathBufLen)
    (h : lftpdPathResolve baseDir workingDir (some path) pathBufLen = .ok result) :
    result.length < pathBufLen := by
  simp only [lftpdPathResolve] at h
  split at h
  · cases h
  · rename_i hjoin
    cases h
    exact Nat.lt_of_le_of_lt (trimTrailingSlash_length_le _) (pathPrefix_length_lt hpath hjoin)

example : lftpdPathResolve [slash] [slash, 97] (some [98, slash]) 8 = .ok [slash, 97, slash, 98] := by
  decide +kernel

/-- The string that starts at the beginning of `memory`. -/
def cString (memory : Bytes) : Bytes :=
  memory.takeWhile (· ≠ 0)

theorem cString_cons {b : UInt8} (hb : b ≠ 0) (memory : Bytes) :
    cString (b :: memory) = b :: cString memory :=
  List.takeWhile_cons_of_pos (decide_eq_true hb)

theorem cString_append {s : Bytes} (hs : 0 ∉ s) (rest : Bytes) : cString (s ++ 0 :: rest) = s := by
  rw [cString, List.takeWhile_append_of_pos, List.takeWhile_cons_of_neg, List.append_nil]
  · decide
  · intro b hb
    exact decide_eq_true (ne_of_mem_of_not_mem hb hs)

theorem zero_notMem_cString (memory : Bytes) : 0 ∉ cString memory := by
  intro hzero
  have hne := List.mem_takeWhile_imp hzero
  exact absurd hne (by decide)

theorem exists_cString_append {memory : Bytes} (h : 0 ∈ memory) :
    ∃ rest, memory = cString memory ++ 0 :: rest := by
  induction memory with
  | nil => cases h
  | cons b memory ih =>
      rcases Classical.em (b = 0) with hb | hb
      · refine ⟨memory, ?_⟩
        rw [hb, cString, List.takeWhile_cons_of_neg (by decide), List.nil_append]
      · obtain ⟨rest, hrest⟩ := ih ((List.mem_cons.mp h).resolve_left (Ne.symm hb))
        refine ⟨rest, ?_⟩
        rw [cString_cons hb, List.cons_append, ← hrest]

theorem cString_length_le {memory : Bytes} {i : Nat} (h : memory[i]? = some 0) :
    (cString memory).length ≤ i := by
  induction memory generalizing i with
  | nil => cases h
  | cons b memory ih =>
      rcases Classical.em (b = 0) with rfl | hb
      · exact Nat.zero_le i
      · rw [cString_cons hb, List.length_cons]
        cases i with
        | zero => exact absurd (Option.some.inj h) hb
        | succ i => exact Nat.succ_le_succ (ih h)

theorem cString_length_lt {memory : Bytes} (h : 0 ∈ memory) :
    (cString memory).length < memory.length := by
  obtain ⟨rest, hrest⟩ := exists_cString_append h
  have hlen := congrArg List.length hrest
  rw [List.length_append, List.length_cons] at hlen
  omega

theorem getD_cString {memory : Bytes} {i : Nat} (hi : i ≤ (cString memory).length) :
    memory.getD i 0 = (cString memory).getD i 0 := by
  induction memory generalizing i with
  | nil => rfl
  | cons b memory ih =>
      rcases Classical.em (b = 0) with rfl | hb
      · obtain rfl : i = 0 := Nat.le_zero.mp hi
        rfl
      · rw [cString_cons hb] at hi ⊢
        cases i with
        | zero => rfl
        | succ i => exact ih (Nat.le_of_succ_le_succ hi)

theorem cString_drop {memory : Bytes} {k : Nat} (hk : k ≤ (cString memory).length) :
    cString (memory.drop k) = (cString memory).drop k := by
  induction memory generalizing k with
  | nil => rw [List.drop_nil, cString, List.takeWhile_nil, List.drop_nil]
  | cons b memory ih =>
      rcases Classical.em (b = 0) with rfl | hb
      · obtain rfl : k = 0 := Nat.le_zero.mp hk
        rfl
      · rw [cString_cons hb] at hk ⊢
        cases k with
        | zero => rw [List.drop_zero, List.drop_zero, cString_cons hb]
        | succ k => exact ih (Nat.le_of_succ_le_succ hk)

def isspace (b : UInt8) : Bool :=
  b = 32 || (9 ≤ b && b ≤ 13)

/-- The first loop of `lftpd_string_trim` advances `s` together with `i`, so that
it looks at every second byte only, and past the end of the string. Behind the
command buffer stands a reply, which starts with digits. -/
def leadingSpaces (memory : Bytes) : Nat → Nat → Nat
  | 0, i => i
  | len + 1, i =>
      if isspace (memory.getD (2 * i) 0) then leadingSpaces memory len (i + 1) else i

/-- The second loop stops before the string at the latest, at the terminator of
the command. -/
def lftpdStringTrim (memory : Bytes) : Bytes :=
  let s := memory.drop (leadingSpaces memory (cString memory).length 0)
  (cString s).rdropWhile isspace

end ZeusLe.FtpPath
