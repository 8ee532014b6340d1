import ZeusLe.FtpPath
import ZeusLe.Library.Overwrite

/-!
A path is joined and trimmed in the buffer that holds it, `lftpd_path.c`. No pointer
is null here. What the buffer holds afterwards is the path of the model on strings.
-/

namespace ZeusLe.FtpPathBuffer

open ZeusLe.Library.Overwrite
open ZeusLe.FtpLine
open ZeusLe.FtpPath (cString slash)

def strlen (cells : Bytes) : Nat :=
  (cString cells).length

def trimLoop : Nat → Buffer UInt8 → Buffer UInt8
  | 0, path => path
  | i + 1, path =>
      if path.cells.getD (i + 1) 0 = slash then trimLoop i (path.write (i + 1) [0]) else path

def lftpdPathTrimTrailingSlash (path : Buffer UInt8) : Buffer UInt8 :=
  let pathLen := strlen path.cells
  if pathLen = 0 then path else trimLoop (pathLen - 1) path

/-- Where the path to be moved begins, the index of the slash, and the offset of the
path behind it. -/
def joinPlaces (dirTrailingSlash pathLeadingSlash : Bool) (dirLen : Nat) : Nat × Nat × Nat :=
  match dirTrailingSlash, pathLeadingSlash with
  | true, true => (1, dirLen - 1, dirLen)
  | true, false => (0, dirLen - 1, dirLen)
  | false, true => (0, dirLen, dirLen)
  | false, false => (0, dirLen, dirLen + 1)

def joinAt (dir : Bytes) (pathBuf : Buffer UInt8) (pathBufLen pathLen : Nat)
    (places : Nat × Nat × Nat) : Int × Buffer UInt8 :=
  let (path, slashIndex, pathOffset) := places
  let pathLen := pathLen - path
  if pathOffset + pathLen + 1 > pathBufLen then (-enametoolong, pathBuf)
  else
    let moved := (pathBuf.cells.drop path).take (pathLen + 1)
    (0, ((pathBuf.write pathOffset moved).write 0 dir).write slashIndex [slash])

/-- `dir` is the prefix. -/
def lftpdPathPrefix (dir : Bytes) (pathBuf : Buffer UInt8) (pathBufLen : Nat) :
    Int × Buffer UInt8 :=
  if pathBufLen = 0 then (-einval, pathBuf)
  else
    let dirLen := dir.length
    let pathLen := strlen pathBuf.cells
    if dirLen = 0 then (0, pathBuf)
    else if pathLen = 0 then
      if dirLen + 1 > pathBufLen then (-enametoolong, pathBuf)
      else (0, pathBuf.write 0 (dir ++ [0]))
    else
      let dirTrailingSlash := dir.getD (dirLen - 1) 0 = slash
      let pathLeadingSlash := pathBuf.cells.getD 0 0 = slash
      joinAt dir pathBuf pathBufLen pathLen (joinPlaces dirTrailingSlash pathLeadingSlash dirLen)

def lftpdPathResolve (baseDir workingDir : Bytes) (path : Buffer UInt8) (pathBufLen : Nat) :
    Int × Buffer UInt8 :=
  if pathBufLen = 0 then (-einval, path)
  else
    let dir := if path.cells.getD 0 0 = slash then baseDir else workingDir
    let (ret, path) := lftpdPathPrefix dir path pathBufLen
    if ret < 0 then (ret, path) else (0, lftpdPathTrimTrailingSlash path)

theorem trimLoop_writes {n i : Nat} (hi : i < n) (path : Buffer UInt8) :
    Writes n path (trimLoop i path) := by
  induction i generalizing path with
  | zero => exact .refl
  | succ i ih =>
      simp only [trimLoop]
      split
      · have hwrite : Writes n path (path.write (i + 1) [0]) := .write .refl hi
        exact hwrite.trans (ih (Nat.lt_of_succ_lt hi) _)
      · exact .refl

theorem joinPlaces_le (dirTrailingSlash pathLeadingSlash : Bool) (dirLen : Nat) :
    (joinPlaces dirTrailingSlash pathLeadingSlash dirLen).2.1 ≤ dirLen ∧
      dirLen ≤ (joinPlaces dirTrailingSlash pathLeadingSlash dirLen).2.2 := by
  cases dirTrailingSlash with
  | true => cases pathLeadingSlash <;> exact ⟨Nat.sub_le _ _, le_rfl⟩
  | false =>
      cases pathLeadingSlash with
      | true => exact ⟨le_rfl, le_rfl⟩
      | false => exact ⟨le_rfl, Nat.le_succ _⟩

theorem joinAt_writes {dir : Bytes} {places : Nat × Nat × Nat} (hslash : places.2.1 ≤ dir.length)
    (hoffset : dir.length ≤ places.2.2) (pathBuf : Buffer UInt8) (pathBufLen pathLen : Nat) :
    Writes pathBufLen pathBuf (joinAt dir pathBuf pathBufLen pathLen places).2 := by
  obtain ⟨path, slashIndex, pathOffset⟩ := places
  simp only [joinAt] at hslash hoffset ⊢
  split
  · exact .refl
  · rename_i hfits
    apply Writes.write
    · apply Writes.write
      · apply Writes.write .refl
        have hmoved := List.length_take_le (pathLen - path + 1) (pathBuf.cells.drop path)
        omega
      · omega
    · rw [List.length_singleton]
      omega

theorem pathPrefix_writes (dir : Bytes) (pathBuf : Buffer UInt8) (pathBufLen : Nat) :
    Writes pathBufLen pathBuf (lftpdPathPrefix dir pathBuf pathBufLen).2 := by
  simp only [lftpdPathPrefix]
  split
  · exact .refl
  · split
    · exact .refl
    · split
      · split
        · exact .refl
        · rename_i hfits
          apply Writes.write .refl
          rw [List.length_append, List.length_singleton]
          omega
      · have hplaces := joinPlaces_le (dir.getD (dir.length - 1) 0 = slash)
          (pathBuf.cells.getD 0 0 = slash) dir.length
        exact joinAt_writes hplaces.1 hplaces.2 _ _ _

theorem pathTrimTrailingSlash_writes {path : Buffer UInt8} {n : Nat}
    (h : strlen path.cells ≤ n) : Writes n path (lftpdPathTrimTrailingSlash path) := by
  simp only [lftpdPathTrimTrailingSlash]
  split
  · exact .refl
  · apply trimLoop_writes
    omega

def withoutTrailingSlash (dir : Bytes) : Bytes :=
  if dir.getLast? = some slash then dir.dropLast else dir

def withoutLeadingSlash (path : Bytes) : Bytes :=
  if path.head? = some slash then path.tail else path

/-- The path below the directory, with one slash between the two. -/
def joined (dir path : Bytes) : Bytes :=
  if path = [] then dir
  else if dir = [] then path
  else withoutTrailingSlash dir ++ slash :: withoutLeadingSlash path

theorem joined_nil (path : Bytes) : joined [] path = path := by
  cases path with
  | nil => rfl
  | cons b path => rfl

theorem strlen_append {path : Bytes} (hpath : 0 ∉ path) (rest : Bytes) :
    strlen (path ++ 0 :: rest) = path.length := by
  rw [strlen, FtpPath.cString_append hpath]

theorem trimLoop_cells (b : UInt8) (bytes rest : Bytes) {path : Buffer UInt8}
    (hcells : path.cells = b :: bytes ++ 0 :: rest) :
    ∃ rest', (trimLoop bytes.length path).cells =
      b :: bytes.rdropWhile (· = slash) ++ 0 :: rest' := by
  induction bytes using List.reverseRecOn generalizing path rest with
  | nil => exact ⟨rest, hcells⟩
  | append_singleton bytes c ih =>
      have hmiddle : path.cells = (b :: bytes) ++ ([c] ++ 0 :: rest) := by
        rw [hcells, List.cons_append, List.append_assoc]
        rfl
      have hlast : path.cells.getD (bytes.length + 1) 0 = c := by
        have hindex : (b :: bytes ++ ([c] ++ 0 :: rest))[(b :: bytes).length]? = some c := by
          rw [List.getElem?_append_right (Nat.le_refl _), Nat.sub_self]
          rfl
        rw [hmiddle, List.getD_eq_getElem?_getD]
        exact congrArg (Option.getD · 0) hindex
      rw [List.length_append, List.length_singleton]
      simp only [trimLoop, hlast]
      rcases Classical.em (c = slash) with hc | hc
      · rw [if_pos hc, List.rdropWhile_concat_pos (· = slash) bytes c (decide_eq_true hc)]
        apply ih (0 :: rest)
        rw [Buffer.write, hmiddle]
        exact put_middle (b :: bytes) [c] (0 :: rest) rfl
      · rw [if_neg hc, List.rdropWhile_concat_neg (· = slash) bytes c (by simpa using hc)]
        exact ⟨rest, hcells⟩

theorem pathTrimTrailingSlash_cells {bytes : Bytes} (hbytes : 0 ∉ bytes) (rest : Bytes)
    {path : Buffer UInt8} (hcells : path.cells = bytes ++ 0 :: rest) :
    ∃ rest', (lftpdPathTrimTrailingSlash path).cells =
      FtpPath.lftpdPathTrimTrailingSlash bytes ++ 0 :: rest' := by
  simp only [lftpdPathTrimTrailingSlash]
  rw [hcells, strlen_append hbytes]
  cases bytes with
  | nil => exact ⟨rest, hcells⟩
  | cons b bytes => exact trimLoop_cells b bytes rest hcells

theorem exists_parts {cells dir path : Bytes} (h : dir.length + path.length + 2 ≤ cells.length) :
    ∃ as c bs rest, as.length = dir.length ∧ bs.length = path.length + 1 ∧
      cells = as ++ c :: (bs ++ rest) := by
  rcases hmiddle : cells.drop dir.length with _ | ⟨c, behind⟩
  · have hlen := congrArg List.length hmiddle
    rw [List.length_drop, List.length_nil] at hlen
    omega
  · have hlen := congrArg List.length hmiddle
    rw [List.length_drop, List.length_cons] at hlen
    refine ⟨cells.take dir.length, c, behind.take (path.length + 1),
      behind.drop (path.length + 1), ?_, ?_, ?_⟩
    · rw [List.length_take]
      omega
    · rw [List.length_take]
      omega
    · rw [List.take_append_drop, ← hmiddle, List.take_append_drop]

theorem put_slash (dir : Bytes) (c : UInt8) (rest : Bytes) :
    put (dir ++ c :: rest) dir.length [slash] = dir ++ slash :: rest :=
  put_middle dir [c] rest rfl

section

variable {cells dir path : Bytes} (h : dir.length + path.length + 2 ≤ cells.length)

include h

theorem put_path : ∃ as c rest, as.length = dir.length ∧
    put cells (dir.length + 1) (path ++ [0]) = as ++ c :: (path ++ 0 :: rest) := by
  obtain ⟨as, c, bs, rest, has, hbs, rfl⟩ := exists_parts h
  refine ⟨as, c, rest, has, ?_⟩
  have hlen : (path ++ [0]).length = bs.length := by
    rw [hbs, List.length_append, List.length_singleton]
  have hput := put_middle (as ++ [c]) bs rest hlen
  rw [List.length_append, List.length_singleton, has] at hput
  simpa only [List.append_assoc, List.singleton_append, List.cons_append, List.nil_append] using hput

theorem put_join : ∃ rest,
    put (put (put cells (dir.length + 1) (path ++ [0])) 0 dir) dir.length [slash] =
      dir ++ slash :: (path ++ 0 :: rest) := by
  obtain ⟨as, c, rest, has, hput⟩ := put_path h
  refine ⟨rest, ?_⟩
  rw [hput, put_zero_append has.symm, put_slash]

theorem put_join_dirSlash (y : UInt8) : ∃ rest,
    put (put (put cells (dir.length + 1) (path ++ [0])) 0 (dir ++ [y])) dir.length [slash] =
      dir ++ slash :: (path ++ 0 :: rest) := by
  obtain ⟨as, c, rest, has, hput⟩ := put_path h
  refine ⟨rest, ?_⟩
  have hdir : (dir ++ [y]).length = (as ++ [c]).length := by
    rw [List.length_append, List.length_append, has, List.length_singleton,
      List.length_singleton]
  have hzero := put_zero_append hdir (path ++ 0 :: rest)
  rw [List.append_assoc, List.append_assoc, List.singleton_append,
    List.singleton_append] at hzero
  rw [hput, hzero, put_slash]

theorem put_join_pathSlash : ∃ rest,
    put (put (put cells dir.length (slash :: (path ++ [0]))) 0 dir) dir.length [slash] =
      dir ++ slash :: (path ++ 0 :: rest) := by
  obtain ⟨as, c, bs, rest, has, hbs, rfl⟩ := exists_parts h
  refine ⟨rest, ?_⟩
  have hlen : (slash :: (path ++ [0])).length = (c :: bs).length := by
    rw [List.length_cons, List.length_cons, hbs, List.length_append, List.length_singleton]
  have hput := put_middle as (c :: bs) rest hlen
  rw [has, List.cons_append] at hput
  rw [hput, put_zero_append has.symm]
  have hslash := put_slash dir slash (path ++ 0 :: rest)
  simpa only [List.append_assoc, List.cons_append, List.nil_append] using hslash

end

theorem joinAt_eq {dir D T : Bytes} {pathBuf : Buffer UInt8} {n pathLen path pathOffset : Nat}
    (hn : n ≤ pathBuf.cells.length)
    (hoffset : pathOffset + (pathLen - path) = D.length + 1 + T.length)
    (hput : D.length + T.length + 2 ≤ pathBuf.cells.length → ∃ rest,
      put (put (put pathBuf.cells pathOffset
        ((pathBuf.cells.drop path).take (pathLen - path + 1))) 0 dir) D.length [slash] =
          D ++ slash :: (T ++ 0 :: rest)) :
    ∃ pathBuf', joinAt dir pathBuf n pathLen (path, D.length, pathOffset) =
        (if n < (D ++ slash :: T).length + 1 then (-enametoolong, pathBuf) else (0, pathBuf')) ∧
      ((D ++ slash :: T).length + 1 ≤ n →
        ∃ rest, pathBuf'.cells = D ++ slash :: T ++ 0 :: rest) := by
  have hlen : (D ++ slash :: T).length + 1 = pathOffset + (pathLen - path) + 1 := by
    rw [List.length_append, List.length_cons, hoffset]
    omega
  rw [hlen]
  refine ⟨_, rfl, ?_⟩
  intro hfits
  obtain ⟨rest, hrest⟩ := hput (by omega)
  refine ⟨rest, ?_⟩
  rw [List.append_assoc, List.cons_append]
  exact hrest

section

variable {dir path rest : Bytes} {pathBuf : Buffer UInt8} {n : Nat} (hpath : 0 ∉ path)
  (hcells : pathBuf.cells = path ++ 0 :: rest) (hroom : path.length < n)
  (hn : n ≤ pathBuf.cells.length)

include hpath hcells hroom hn

theorem pathPrefix_both (hdir : dir ≠ []) (hne : path ≠ []) :
    ∃ pathBuf', lftpdPathPrefix dir pathBuf n =
        (if n < (joined dir path).length + 1 then (-enametoolong, pathBuf) else (0, pathBuf')) ∧
      ((joined dir path).length + 1 ≤ n →
        ∃ rest, pathBuf'.cells = joined dir path ++ 0 :: rest) := by
  obtain ⟨ds, y, rfl⟩ := List.eq_nil_or_concat' dir |>.resolve_left hdir
  obtain ⟨x, xs, rfl⟩ := List.exists_cons_of_ne_nil hne
  have hlast : (ds ++ [y]).getD (ds.length + 1 - 1) 0 = y := by simp
  have hfirst : pathBuf.cells.getD 0 0 = x := by simp [hcells]
  have hstrlen : strlen pathBuf.cells = xs.length + 1 := by
    rw [hcells, strlen_append hpath, List.length_cons]
  have hwhole : (pathBuf.cells.drop 0).take (xs.length + 1 - 0 + 1) = x :: (xs ++ [0]) := by
    simp [hcells, List.take_append, List.take_of_length_le]
  have htail : (pathBuf.cells.drop 1).take (xs.length + 1 - 1 + 1) = xs ++ [0] := by
    simp [hcells, List.take_append, List.take_of_length_le]
  have heq : lftpdPathPrefix (ds ++ [y]) pathBuf n = joinAt (ds ++ [y]) pathBuf n (xs.length + 1)
      (joinPlaces (y = slash) (x = slash) (ds.length + 1)) := by
    rw [lftpdPathPrefix, if_neg (Nat.ne_of_gt (Nat.lt_of_le_of_lt (Nat.zero_le _) hroom))]
    simp only [hstrlen, List.length_append, List.length_singleton, hlast, hfirst]
    rw [if_neg (Nat.succ_ne_zero _), if_neg (Nat.succ_ne_zero _)]
  rw [heq]
  rw [joined, if_neg hne, if_neg hdir]
  rcases Classical.em (y = slash) with rfl | hy
  · have hD : withoutTrailingSlash (ds ++ [slash]) = ds := by simp [withoutTrailingSlash]
    rw [hD, decide_eq_true rfl]
    rcases Classical.em (x = slash) with rfl | hx
    · have hT : withoutLeadingSlash (slash :: xs) = xs := by simp [withoutLeadingSlash]
      rw [hT, decide_eq_true rfl]
      apply joinAt_eq hn (by omega)
      intro hfits
      rw [htail]
      exact put_join_dirSlash hfits slash
    · have hT : withoutLeadingSlash (x :: xs) = x :: xs := by simp [withoutLeadingSlash, hx]
      rw [hT, decide_eq_false hx]
      apply joinAt_eq hn (by rw [List.length_cons]; omega)
      intro hfits
      rw [hwhole]
      exact put_join_dirSlash hfits slash
  · have hD : withoutTrailingSlash (ds ++ [y]) = ds ++ [y] := by simp [withoutTrailingSlash, hy]
    have hlen : (ds ++ [y]).length = ds.length + 1 := by
      rw [List.length_append, List.length_singleton]
    rw [hD, decide_eq_false hy]
    rcases Classical.em (x = slash) with rfl | hx
    · have hT : withoutLeadingSlash (slash :: xs) = xs := by simp [withoutLeadingSlash]
      rw [hT, decide_eq_true rfl, joinPlaces, ← hlen]
      apply joinAt_eq hn (by omega)
      intro hfits
      rw [hwhole]
      exact put_join_pathSlash hfits
    · have hT : withoutLeadingSlash (x :: xs) = x :: xs := by simp [withoutLeadingSlash, hx]
      rw [hT, decide_eq_false hx, joinPlaces, ← hlen]
      apply joinAt_eq hn (by rw [List.length_cons]; omega)
      intro hfits
      rw [hwhole]
      exact put_join hfits

theorem pathPrefix_cells (dir : Bytes) :
    ∃ pathBuf', lftpdPathPrefix dir pathBuf n =
        (if n < (joined dir path).length + 1 then (-enametoolong, pathBuf) else (0, pathBuf')) ∧
      ((joined dir path).length + 1 ≤ n →
        ∃ rest, pathBuf'.cells = joined dir path ++ 0 :: rest) := by
  have hpos : n ≠ 0 := Nat.ne_of_gt (Nat.lt_of_le_of_lt (Nat.zero_le _) hroom)
  rcases Classical.em (dir = []) with rfl | hdir
  · refine ⟨pathBuf, ?_, fun _ => ⟨rest, by rw [joined_nil, hcells]⟩⟩
    rw [lftpdPathPrefix, if_neg hpos, joined_nil, if_neg (Nat.not_lt.mpr hroom)]
    rfl
  · rcases Classical.em (path = []) with rfl | hne
    · have hjoined : joined dir [] = dir := rfl
      have hstrlen : strlen pathBuf.cells = 0 := by
        rw [hcells, strlen_append hpath, List.length_nil]
      refine ⟨pathBuf.write 0 (dir ++ [0]), ?_, ?_⟩
      · rw [lftpdPathPrefix, if_neg hpos, hjoined]
        simp only [hstrlen]
        rw [if_neg (mt List.length_eq_zero_iff.mp hdir), if_pos trivial]
      · rw [hjoined]
        intro hfits
        refine ⟨pathBuf.cells.drop (dir.length + 1), ?_⟩
        have hlen : (dir ++ [0]).length = (pathBuf.cells.take (dir.length + 1)).length := by
          rw [List.length_append, List.length_singleton, List.length_take]
          omega
        have hput := put_zero_append hlen (pathBuf.cells.drop (dir.length + 1))
        rw [List.take_append_drop, List.append_assoc] at hput
        exact hput
    · exact pathPrefix_both hpath hcells hroom hn hdir hne

end

/-- A string as it stands in a memory. -/
abbrev CString := { s : Bytes // 0 ∉ s }

/-- A buffer with a string in it, and what comes behind the buffer. -/
structure PathBuffer where
  memory : Bytes
  len : Nat
  len_le : len ≤ memory.length
  terminated : 0 ∈ memory.take len

namespace PathBuffer

def path (p : PathBuffer) : Bytes :=
  cString p.memory

def resolve (p : PathBuffer) (baseDir workingDir : CString) : Int × Buffer UInt8 :=
  lftpdPathResolve baseDir.val workingDir.val (.fresh p.memory) p.len

/-- The path below the directory that it starts from. -/
def joined (p : PathBuffer) (baseDir workingDir : CString) : Bytes :=
  FtpPathBuffer.joined (if p.path.head? = some slash then baseDir.val else workingDir.val) p.path

end PathBuffer

/-- A slash at index 0 is kept. -/
def withoutTrailingSlashes (path : Bytes) : Bytes :=
  path.take 1 ++ path.tail.rdropWhile (· = slash)

theorem withoutTrailingSlashes_eq (path : Bytes) :
    withoutTrailingSlashes path = FtpPath.lftpdPathTrimTrailingSlash path := by
  cases path with
  | nil => rfl
  | cons b path => rfl

theorem path_length_lt (p : PathBuffer) : p.path.length < p.len := by
  obtain ⟨rest, hrest⟩ := FtpPath.exists_cString_append p.terminated
  have hpath : p.path = cString (p.memory.take p.len) := by
    rw [PathBuffer.path]
    conv_lhs => rw [← List.take_append_drop p.len p.memory, hrest, List.append_assoc]
    exact FtpPath.cString_append (FtpPath.zero_notMem_cString _) _
  have hlen := congrArg List.length hrest
  rw [List.length_take, List.length_append, List.length_cons] at hlen
  rw [hpath]
  omega

theorem path_zero_notMem (p : PathBuffer) : 0 ∉ p.path :=
  FtpPath.zero_notMem_cString p.memory

theorem memory_eq (p : PathBuffer) : ∃ rest, p.memory = p.path ++ 0 :: rest :=
  FtpPath.exists_cString_append (List.mem_of_mem_take p.terminated)

theorem joined_zero_notMem {dir path : Bytes} (hdir : 0 ∉ dir) (hpath : 0 ∉ path) :
    0 ∉ joined dir path := by
  have hslash : (0 : UInt8) ≠ slash := by decide
  have hD : 0 ∉ withoutTrailingSlash dir := by
    rw [withoutTrailingSlash]
    split
    · exact fun h => hdir (List.dropLast_subset dir h)
    · exact hdir
  have hT : 0 ∉ withoutLeadingSlash path := by
    rw [withoutLeadingSlash]
    split
    · exact fun h => hpath (List.mem_of_mem_tail h)
    · exact hpath
  rw [joined]
  split
  · exact hdir
  · split
    · exact hpath
    · simp [hD, hT, hslash]

section

variable (p : PathBuffer) (baseDir workingDir : CString)

theorem resolve_join : ∃ dir pathBuf, 0 ∉ dir ∧ joined dir p.path = p.joined baseDir workingDir ∧
    p.resolve baseDir workingDir =
      (if p.len < (joined dir p.path).length + 1 then (-enametoolong, .fresh p.memory)
        else (0, lftpdPathTrimTrailingSlash pathBuf)) ∧
    ((joined dir p.path).length + 1 ≤ p.len → Writes p.len (.fresh p.memory) pathBuf ∧
      ∃ rest, pathBuf.cells = joined dir p.path ++ 0 :: rest) := by
  obtain ⟨rest, hmemory⟩ := memory_eq p
  have hcells : (Buffer.fresh p.memory).cells = p.path ++ 0 :: rest := hmemory
  have hpos : p.len ≠ 0 := Nat.ne_of_gt (Nat.lt_of_le_of_lt (Nat.zero_le _) (path_length_lt p))
  have hhead : p.memory.getD 0 0 = slash ↔ p.path.head? = some slash := by
    rw [hmemory]
    cases p.path with
    | nil => simp [slash]
    | cons b bytes => simp
  obtain ⟨dir, hdirEq⟩ :
      ∃ dir, (if p.path.head? = some slash then baseDir.val else workingDir.val) = dir := ⟨_, rfl⟩
  have hdir : 0 ∉ dir := by
    rw [← hdirEq]
    split
    · exact baseDir.property
    · exact workingDir.property
  have hjoined : joined dir p.path = p.joined baseDir workingDir := by
    rw [PathBuffer.joined, hdirEq]
  have hresolve : p.resolve baseDir workingDir =
      if (lftpdPathPrefix dir (.fresh p.memory) p.len).1 < 0 then
        lftpdPathPrefix dir (.fresh p.memory) p.len
      else (0, lftpdPathTrimTrailingSlash (lftpdPathPrefix dir (.fresh p.memory) p.len).2) := by
    rw [PathBuffer.resolve, lftpdPathResolve, if_neg hpos, ← hdirEq, ← if_congr hhead rfl rfl]
    rfl
  obtain ⟨pathBuf, hjoin, hfits⟩ := pathPrefix_cells (path_zero_notMem p) hcells
    (path_length_lt p) p.len_le dir
  refine ⟨dir, pathBuf, hdir, hjoined, ?_, ?_⟩
  · rw [hresolve, hjoin]
    split
    · rfl
    · rfl
  · intro hlen
    have hwrites := pathPrefix_writes dir (.fresh p.memory) p.len
    rw [hjoin, if_neg (Nat.not_lt.mpr hlen)] at hwrites
    exact ⟨hwrites, hfits hlen⟩

theorem resolve_writes : Writes p.len (.fresh p.memory) (p.resolve baseDir workingDir).2 := by
  obtain ⟨dir, pathBuf, hdir, -, hresolve, hfits⟩ := resolve_join p baseDir workingDir
  rw [hresolve]
  split
  · exact .refl
  · rename_i hlen
    obtain ⟨hwrites, rest, hcells⟩ := hfits (Nat.not_lt.mp hlen)
    apply hwrites.trans
    apply pathTrimTrailingSlash_writes
    rw [hcells, strlen_append (joined_zero_notMem hdir (path_zero_notMem p))]
    omega

theorem resolve_tooLong (h : p.len < (p.joined baseDir workingDir).length + 1) :
    p.resolve baseDir workingDir = (-enametoolong, .fresh p.memory) := by
  obtain ⟨dir, pathBuf, -, hjoined, hresolve, -⟩ := resolve_join p baseDir workingDir
  rw [hresolve, hjoined, if_pos h]

theorem resolve_fits (h : (p.joined baseDir workingDir).length + 1 ≤ p.len) :
    (p.resolve baseDir workingDir).1 = 0 ∧
      cString (p.resolve baseDir workingDir).2.cells =
        withoutTrailingSlashes (p.joined baseDir workingDir) := by
  obtain ⟨dir, pathBuf, hdir, hjoined, hresolve, hfits⟩ := resolve_join p baseDir workingDir
  rw [← hjoined] at h ⊢
  obtain ⟨-, rest, hcells⟩ := hfits h
  have hzero := joined_zero_notMem hdir (path_zero_notMem p)
  obtain ⟨behind, hbehind⟩ := pathTrimTrailingSlash_cells hzero rest hcells
  rw [hresolve, if_neg (Nat.not_lt.mpr h)]
  refine ⟨rfl, ?_⟩
  rw [hbehind, withoutTrailingSlashes_eq]
  apply FtpPath.cString_append
  exact fun hmem => hzero (FtpPath.trimTrailingSlash_subset _ hmem)

end

/-- Every call of `lftpd_path_resolve`, at the limit of the buffer as well. -/
theorem resolve_result (p : PathBuffer) (baseDir workingDir : CString) :
    (p.len < (p.joined baseDir workingDir).length + 1 →
        p.resolve baseDir workingDir = (-enametoolong, .fresh p.memory)) ∧
      ((p.joined baseDir workingDir).length + 1 ≤ p.len →
        (p.resolve baseDir workingDir).1 = 0 ∧
          cString (p.resolve baseDir workingDir).2.cells =
            withoutTrailingSlashes (p.joined baseDir workingDir) ∧
          ((cString (p.resolve baseDir workingDir).2.cells).getLast? = some slash →
            cString (p.resolve baseDir workingDir).2.cells = [slash])) ∧
      (p.resolve baseDir workingDir).2.Within p.len ∧
      (p.resolve baseDir workingDir).2.cells.drop p.len = p.memory.drop p.len := by
  refine ⟨resolve_tooLong p baseDir workingDir, ?_, ?_, ?_⟩
  · intro h
    obtain ⟨hret, hcells⟩ := resolve_fits p baseDir workingDir h
    refine ⟨hret, hcells, ?_⟩
    rw [hcells, withoutTrailingSlashes_eq]
    exact FtpPath.trimTrailingSlash_getLast?
  · exact (resolve_writes p baseDir workingDir).within (within_fresh _ _)
  · exact (resolve_writes p baseDir workingDir).drop_eq

theorem pathPrefix_string {path : Bytes} {n : Nat} (hroom : path.length < n) (dir : Bytes) :
    FtpPath.lftpdPathPrefix dir path n =
      if n < (joined dir path).length + 1 then .error (-enametoolong)
      else .ok (joined dir path) := by
  rw [FtpPath.lftpdPathPrefix, if_neg (Nat.ne_of_gt (Nat.lt_of_le_of_lt (Nat.zero_le _) hroom))]
  rcases Classical.em (dir = []) with rfl | hdir
  · rw [if_pos rfl, joined_nil, if_neg (Nat.not_lt.mpr hroom)]
  · rw [if_neg hdir, joined]
    rcases Classical.em (path = []) with hpath | hpath
    · rw [if_pos hpath, if_pos hpath]
    · rw [if_neg hpath, if_neg hpath, if_neg hdir]
      obtain ⟨ds, y, rfl⟩ := List.eq_nil_or_concat' dir |>.resolve_left hdir
      obtain ⟨x, xs, rfl⟩ := List.exists_cons_of_ne_nil hpath
      rcases Classical.em (y = slash) with rfl | hy
      · rcases Classical.em (x = slash) with rfl | hx
        · simp [withoutTrailingSlash, withoutLeadingSlash]
          apply if_congr _ rfl rfl
          omega
        · simp [withoutTrailingSlash, withoutLeadingSlash, hx]
          apply if_congr _ rfl rfl
          omega
      · rcases Classical.em (x = slash) with rfl | hx
        · simp [withoutTrailingSlash, withoutLeadingSlash, hy]
          apply if_congr _ rfl rfl
          omega
        · simp [withoutTrailingSlash, withoutLeadingSlash, hx, hy]
          apply if_congr _ rfl rfl
          omega

theorem resolve_string (p : PathBuffer) (baseDir workingDir : CString) :
    FtpPath.lftpdPathResolve baseDir.val workingDir.val (some p.path) p.len =
      if (p.resolve baseDir workingDir).1 < 0 then .error (p.resolve baseDir workingDir).1
      else .ok (cString (p.resolve baseDir workingDir).2.cells) := by
  have hjoin := pathPrefix_string (path_length_lt p)
    (if p.path.head? = some slash then baseDir.val else workingDir.val)
  rw [← PathBuffer.joined] at hjoin
  simp only [FtpPath.lftpdPathResolve, hjoin]
  rcases Nat.lt_or_ge p.len ((p.joined baseDir workingDir).length + 1) with hlen | hlen
  · rw [if_pos hlen, resolve_tooLong p baseDir workingDir hlen]
    rfl
  · obtain ⟨hret, hcells⟩ := resolve_fits p baseDir workingDir hlen
    rw [if_neg (Nat.not_lt.mpr hlen), hret, hcells, withoutTrailingSlashes_eq]
    rfl

end ZeusLe.FtpPathBuffer
