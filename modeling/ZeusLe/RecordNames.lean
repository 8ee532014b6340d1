import ZeusLe.RecordLifecycle

/-!
The names of recording files. A directory scan that succeeds leaves an index
above those of all files of the prefix; files opened after it get new names.
-/

namespace ZeusLe.RecordNames

open ZeusLe.FileSystem
open ZeusLe.WavFile
open ZeusLe.Library
open ZeusLe.Library.Run
open ZeusLe.Record
open ZeusLe.RecordLifecycle

theorem toNat_of_isDigit {c : Char} (hc : c.isDigit = true) : 48 ≤ c.toNat ∧ c.toNat ≤ 57 := by
  simp only [Char.isDigit, Bool.and_eq_true, decide_eq_true_eq, UInt32.le_iff_toNat_le] at hc
  exact hc

theorem isSpace_of_isDigit {c : Char} (hc : c.isDigit = true) : isSpace c = false := by
  obtain ⟨hlow, -⟩ := toNat_of_isDigit hc
  have hspace : c ≠ ' ' := by
    rintro rfl
    exact absurd hlow (by decide)
  simp only [isSpace, beq_eq_false_iff_ne.mpr hspace, Bool.false_or, Bool.and_eq_false_iff,
    decide_eq_false_iff_not]
  omega

theorem plainChar_of_isDigit {c : Char} (hc : c.isDigit = true) : PlainChar c := by
  obtain ⟨hlow, -⟩ := toNat_of_isDigit hc
  refine ⟨Nat.le_trans (by decide) hlow, ?_, ?_⟩
  · rintro rfl
    exact absurd hc (by decide)
  · rintro rfl
    exact absurd hc (by decide)

theorem strtoul_padded (index : UInt32) :
    strtoul (Decimal.padded 4 index.toNat ++ wavSuffix) = (index, wavSuffix) := by
  obtain ⟨c, digits, hdigits⟩ := List.exists_cons_of_ne_nil (Decimal.padded_ne_nil 4 index.toNat)
  have hmem : c ∈ Decimal.padded 4 index.toNat := by
    rw [hdigits]
    exact List.mem_cons_self
  have hc : c.isDigit = true := Decimal.isDigit_of_mem_padded hmem
  have hskip : (Decimal.padded 4 index.toNat ++ wavSuffix).dropWhile isSpace =
      Decimal.padded 4 index.toNat ++ wavSuffix := by
    rw [hdigits, List.cons_append, List.dropWhile_cons_of_neg]
    simp [isSpace_of_isDigit hc]
  have hminus : c ≠ '-' := by
    rintro rfl
    exact absurd hc (by decide)
  have hplus : c ≠ '+' := by
    rintro rfl
    exact absurd hc (by decide)
  have hle : index.toNat ≤ ulongMax.toNat := Nat.le_of_lt_succ index.toNat_lt
  have htake := Decimal.takeWhile_padded_append 4 index.toNat (c := '.') rfl ['w', 'a', 'v']
  have hdrop := Decimal.dropWhile_padded_append 4 index.toNat (c := '.') rfl ['w', 'a', 'v']
  have hsign : readSign (Decimal.padded 4 index.toNat ++ wavSuffix) =
      (false, Decimal.padded 4 index.toNat ++ wavSuffix) := by
    rw [hdigits, List.cons_append]
    simp only [readSign]
    split
    · rename_i heq
      exact absurd (List.cons.inj heq).1 hminus
    · rename_i heq
      exact absurd (List.cons.inj heq).1 hplus
    · rfl
  simp only [strtoul, hskip, hsign]
  rw [wavSuffix, htake, hdrop, if_neg (Decimal.padded_ne_nil 4 index.toNat),
    Decimal.value_padded, if_pos hle]
  simp

theorem scanEntry_indexedName (data : RecordData) (index : UInt32) :
    scanEntry data (indexedName data.fileNamePrefix.val index) =
      if index = ulongMax then .error (-erange)
      else if index + 1 > data.fileIndex then .ok { data with fileIndex := index + 1 }
      else .ok data := by
  have hne := Decimal.padded_ne_nil 4 index.toNat
  simp only [scanEntry, indexedName, List.append_assoc, List.cons_append]
  generalize data.fileNamePrefix.val = namePrefix
  have hdrop : (namePrefix ++ '_' :: (Decimal.padded 4 index.toNat ++ wavSuffix)).drop
      (namePrefix.length + 1) = Decimal.padded 4 index.toNat ++ wavSuffix := by
    rw [List.drop_length_add_append]
    rfl
  rw [hdrop, strtoul_padded, if_neg (by simp), if_neg (by simp), if_neg (by simp)]
  have hlen : wavSuffix.length ≠ (Decimal.padded 4 index.toNat ++ wavSuffix).length := by
    rw [List.length_append]
    have := List.length_pos_of_ne_nil hne
    omega
  simp only [if_neg hlen, ne_eq, not_true_eq_false, if_false]

theorem scanEntry_le {data data' : RecordData} {name : Path}
    (h : scanEntry data name = .ok data') : data.fileIndex ≤ data'.fileIndex := by
  obtain ⟨index, rfl⟩ := scanEntry_ok h
  simp only [scanEntry] at h
  have hkeep : Except.ok data = (.ok { data with fileIndex := index } : Except Int RecordData) →
      data.fileIndex ≤ index := by
    intro heq
    have := congrArg RecordData.fileIndex (Except.ok.inj heq)
    simp only at this
    rw [this]
    exact UInt32.le_refl _
  split at h
  · exact hkeep h
  · split at h
    · exact hkeep h
    · split at h
      · exact hkeep h
      · split at h
        · exact hkeep h
        · split at h
          · cases h
          · split at h
            · exact hkeep h
            · split at h
              · rename_i hlt
                have := congrArg RecordData.fileIndex (Except.ok.inj h)
                simp only at this
                rw [← this]
                exact UInt32.le_of_lt hlt
              · exact hkeep h

theorem scanEntries_le (readdir : Nat → Outcome) (k : Nat) (names : List Path)
    (data : RecordData) : data.fileIndex ≤ (scanEntries readdir k names data).2.fileIndex := by
  induction names generalizing k data with
  | nil =>
      simp only [scanEntries]
      split <;> exact UInt32.le_refl _
  | cons name names ih =>
      simp only [scanEntries]
      split
      · exact UInt32.le_refl _
      · split
        · exact UInt32.le_refl _
        · rename_i data' hentry
          exact UInt32.le_trans (scanEntry_le hentry) (ih (k + 1) data')

theorem scanEntry_error_ne {data : RecordData} {name : Path} {ret : Int}
    (h : scanEntry data name = .error ret) : ret ≠ 0 := by
  have hrange : ret = -erange := by
    simp only [scanEntry] at h
    split at h
    · cases h
    · split at h
      · cases h
      · split at h
        · cases h
        · split at h
          · cases h
          · split at h
            · exact (Except.error.inj h).symm
            · split at h
              · cases h
              · split at h <;> cases h
  rw [hrange]
  decide

theorem lt_of_scanEntries {readdir : Nat → Outcome} {k : Nat} {names : List Path}
    {data : RecordData} (hret : (scanEntries readdir k names data).1 = 0) {index : UInt32}
    (hmem : indexedName data.fileNamePrefix.val index ∈ names) :
    index < (scanEntries readdir k names data).2.fileIndex := by
  induction names generalizing k data with
  | nil => cases hmem
  | cons name names ih =>
      simp only [scanEntries] at hret ⊢
      by_cases hread : (readdir k).code < 0
      · rw [if_pos hread] at hret
        simp only at hret
        omega
      · rw [if_neg hread] at hret ⊢
        rcases hentry : scanEntry data name with ret | data'
        · rw [hentry] at hret
          simp only at hret
          exact absurd hret (scanEntry_error_ne hentry)
        · rw [hentry] at hret
          simp only at hret ⊢
          obtain ⟨index', hdata'⟩ := scanEntry_ok hentry
          rcases List.mem_cons.mp hmem with rfl | hlater
          · refine UInt32.lt_of_lt_of_le ?_ (scanEntries_le readdir (k + 1) names data')
            rw [scanEntry_indexedName] at hentry
            split at hentry
            · cases hentry
            · rename_i hmax
              have hsucc : index < index + 1 := by
                have hlt := index.toNat_lt
                have hne : index.toNat ≠ 4294967295 := fun heq =>
                  hmax (UInt32.toNat_inj.mp heq)
                rw [UInt32.lt_iff_toNat_lt, UInt32.toNat_add]
                simp only [UInt32.toNat_one]
                omega
              split at hentry
              · rw [← Except.ok.inj hentry]
                exact hsucc
              · rename_i hle
                rw [← Except.ok.inj hentry]
                exact UInt32.lt_of_lt_of_le hsucc (UInt32.not_lt.mp hle)
          · apply ih hret
            rw [hdata']
            exact hlater

/-- The name that `wav_open` was called with, and whether it was on the card. -/
def opensName : Event → Option (Path × Bool)
  | .opened name present _ _ => some (name, present)
  | _ => none

def openedNames (s : Recorder) : List (Path × Bool) :=
  s.trace.filterMap opensName

/-- No file that was on the card has been opened, and so truncated. -/
def NoOverwrite (s : Recorder) : Prop :=
  ∀ entry ∈ openedNames s, entry.2 = false

def names (s : Recorder) : FileNamePrefix × UInt32 × Card × List (Path × Bool) :=
  (s.data.fileNamePrefix, s.data.fileIndex, s.fs.card, openedNames s)

theorem names_closeThreadRun (s : Recorder) (io : WavCloseIo) :
    names (recordCloseThreadRun s io) = names s := by
  simp only [recordCloseThreadRun]
  split
  · rfl
  · simp [names, openedNames, opensName, List.filterMap_cons, wavClose_card]

theorem names_closeThread (rounds : List WavCloseIo) (s : Recorder) :
    names (closeThread rounds s) = names s := by
  apply closeThread_keeps (P := fun t => names t = names s)
  · intro t io ht
    exact (names_closeThreadRun t io).trans ht
  · rfl

theorem names_queueFile (s : Recorder) : names (queueFile s) = names s := by
  simp [names, queueFile, openedNames, opensName, List.filterMap_cons]

theorem names_recordCloseFile (io : CloseFileIo) (s : Recorder) :
    names (recordCloseFile io s) = names s := by
  refine Eq.trans ?_ (names_closeThread io.before s)
  simp only [recordCloseFile]
  split
  · simp [names, closeFileNoUpdate, openedNames, opensName, List.filterMap_cons]
  · rw [names_queueFile]
    split
    · rfl
    · exact names_closeThreadRun _ io.room

theorem names_writeFile (o : Outcome) (buf : List UInt8) (len : UInt32) (s : Recorder) :
    names (writeFile o buf len s).2 = names s := by
  simp [names, writeFile, openedNames, opensName, List.filterMap_cons, wavWrite_card]

theorem names_bufferFileError (io : BufferIo) (ret : Int) (s : Recorder) :
    names (bufferFileError io ret s).2 = names s :=
  names_recordCloseFile io.errorCloseFile s

theorem names_bufferOldFile (io : BufferIo) (block : AudioBlock) (split : Split)
    (s : Recorder) : names (bufferOldFile io block split s).2 = names s := by
  have hwritten := (names_writeFile io.write block.buf split.splitOffset
    (closeThread io.beforeWrite s)).trans (names_closeThread io.beforeWrite s)
  have hsynced := (names_closeThread io.beforeSync (writeFile io.write block.buf
    split.splitOffset (closeThread io.beforeWrite s)).2).trans hwritten
  simp only [bufferOldFile]
  split
  · exact hwritten
  · split
    · split <;> exact hsynced
    · exact hwritten

theorem names_writeNewFile (io : BufferIo) (block : AudioBlock) (split : Split)
    (s : Recorder) : names (writeNewFile io block split s).2 = names s := by
  have hwritten := (names_writeFile io.newWrite (block.buf.drop split.splitOffset.toNat)
    (block.len - split.splitOffset) (closeThread io.beforeNewWrite s)).trans
    (names_closeThread io.beforeNewWrite s)
  simp only [writeNewFile]
  split
  · exact (names_bufferFileError io _ _).trans hwritten
  · exact hwritten

/-- A call that opens the file of the next index. -/
structure OpensNext (io : WavOpenIo) (s t : Recorder) : Prop where
  namePrefix : t.data.fileNamePrefix = s.data.fileNamePrefix
  opened : openedNames t =
    openedNames s ++ [(s.data.fileName, s.fs.card.finds s.data.fileName)]
  failed : io.fsOpen ≠ .ok → t.data.fileIndex = s.data.fileIndex ∧ t.fs.card = s.fs.card
  succeeded : io.Succeeds → t.data.fileIndex = s.data.fileIndex + 1 ∧
    t.fs.card = (fsOpen .ok io.slot s.data.fileName s.fs).2.2.card

theorem OpensNext.of_names {io : WavOpenIo} {s t s' t' : Recorder} (h : OpensNext io s t)
    (hs : names s = names s') (ht : names t' = names t) : OpensNext io s' t' := by
  simp only [names, Prod.mk.injEq] at hs ht
  obtain ⟨hsPrefix, hsIndex, hsCard, hsOpened⟩ := hs
  obtain ⟨htPrefix, htIndex, htCard, htOpened⟩ := ht
  have hname : s'.data.fileName = s.data.fileName := by
    simp only [RecordData.fileName, hsPrefix, hsIndex]
  refine ⟨?_, ?_, ?_, ?_⟩
  · rw [htPrefix, h.namePrefix, hsPrefix]
  · rw [htOpened, h.opened, hsOpened, hname, hsCard]
  · rw [htIndex, htCard, ← hsIndex, ← hsCard]
    exact h.failed
  · rw [htIndex, htCard, ← hsIndex, hname]
    intro hio
    obtain ⟨hindex, hcard⟩ := h.succeeded hio
    refine ⟨hindex, hcard.trans ?_⟩
    simp only [fsOpen, hsCard]

theorem opensNext_openFile (io : WavOpenIo) (s : Recorder) :
    ((openFile io s).1 ≠ 0 → OpensNext io s (openFile io s).2) ∧
      ((openFile io s).1 = 0 → OpensNext io s (openFile io s).2.nextFileIndex) := by
  have hcard := wavOpen_card io s.data.file s.data.fileName recordFileFormat_accepted s.fs
  have hopened : openedNames (openFile io s).2 = openedNames s ++
      [(s.data.fileName, s.fs.card.finds s.data.fileName)] := by
    simp [openedNames, openFile, opensName]
  have hfailed : io.fsOpen ≠ .ok → (openFile io s).1 < 0 ∧
      (openFile io s).2.fs.card = s.fs.card := by
    intro hio
    refine ⟨wavOpen_ret_of_ne_ok hio s.data.file s.data.fileName recordFileFormat_accepted s.fs, ?_⟩
    simp only [openFile, hcard, fsOpen_card_of_ne_ok hio]
  have hsucceeded : io.Succeeds → (openFile io s).1 = 0 ∧
      (openFile io s).2.fs.card = (fsOpen .ok io.slot s.data.fileName s.fs).2.2.card := by
    intro hio
    have hok := wavOpen_ok hio recordFileFormat_accepted s.data.file s.data.fileName s.fs
    simp only [openFile, hok, true_and]
  constructor
  · intro hret
    refine ⟨rfl, hopened, fun hio => ⟨rfl, (hfailed hio).2⟩, fun hio => ?_⟩
    exact absurd (hsucceeded hio).1 hret
  · intro hret
    refine ⟨rfl, hopened, fun hio => ?_, fun hio => ⟨rfl, (hsucceeded hio).2⟩⟩
    have hneg := (hfailed hio).1
    omega

theorem opensNext_bufferNewFile (io : BufferIo) (block : AudioBlock) (split : Split)
    (s : Recorder) :
    names (bufferNewFile io block split s).2 = names s ∨
      OpensNext io.wavOpen s (bufferNewFile io block split s).2 := by
  have hclosed : names (if split.oldFile then recordCloseFile io.closeFile s else s) = names s := by
    split
    · exact names_recordCloseFile io.closeFile s
    · rfl
  simp only [bufferNewFile]
  generalize (if split.oldFile then recordCloseFile io.closeFile s else s) = t at hclosed ⊢
  split
  · exact Or.inl hclosed
  · have hready := (names_closeThread io.beforeOpen
      (t.setLastSyncTimeMs io.newUptimeMs)).trans hclosed
    obtain ⟨hfailed, hopened⟩ := opensNext_openFile io.wavOpen
      (closeThread io.beforeOpen (t.setLastSyncTimeMs io.newUptimeMs))
    split
    · rename_i hret
      exact Or.inr ((hfailed hret).of_names hready (names_bufferFileError io _ _))
    · rename_i hret
      exact Or.inr ((hopened (not_not.mp hret)).of_names hready
        (names_writeNewFile io block split _))

theorem opensNext_recordBuffer (io : BufferIo) (block : AudioBlock) (s : Recorder) :
    names (recordBuffer io block s).2 = names s ∨
      OpensNext io.wavOpen s (recordBuffer io block s).2 := by
  simp only [recordBuffer]
  split
  · exact Or.inl rfl
  · split
    · exact Or.inl rfl
    · rename_i split' _
      have hled : names (if split'.newFile then s.setLed .running else s) = names s := by
        split <;> rfl
      generalize (if split'.newFile then s.setLed .running else s) = t at hled ⊢
      have hold : names (if split'.oldFile then bufferOldFile io block split' t
          else (.ok split', t)).2 = names s := by
        split
        · exact (names_bufferOldFile io block split' t).trans hled
        · exact hled
      generalize (if split'.oldFile then bufferOldFile io block split' t
        else (.ok split', t)) = result at hold ⊢
      split
      · exact Or.inl ((names_bufferFileError io _ _).trans hold)
      · split
        · rcases opensNext_bufferNewFile io block _ result.2 with hsame | hopens
          · exact Or.inl (hsame.trans hold)
          · exact Or.inr (hopens.of_names hold rfl)
        · exact Or.inl hold

/-- No file is found by the name of an index that is still to come. -/
def Fresh (s : Recorder) : Prop :=
  ∀ index, s.data.fileIndex ≤ index → ∀ name ∈ s.fs.card.names ++ s.fs.card.aliases,
    ¬ s.fs.card.fat.Same name (indexedName s.data.fileNamePrefix.val index)

/-- The scan compares names letter by letter: every file that is found by a name of
the prefix is spelled like it, in the root directory. -/
structure Spelled (card : Card) (namePrefix : List Char) : Prop where
  plain : ∀ c ∈ namePrefix, PlainChar c
  names : ∀ index, ∀ name ∈ card.names,
    card.fat.Same name (indexedName namePrefix index) → name = indexedName namePrefix index
  aliases : ∀ index, ∀ name ∈ card.aliases,
    ¬ card.fat.Same name (indexedName namePrefix index)

theorem Spelled.slash {card : Card} {namePrefix : List Char} (h : Spelled card namePrefix) :
    '/' ∉ namePrefix := by
  intro hmem
  exact (h.plain '/' hmem).2.1 rfl

def ScanSucceeds (io : ScanIo) (card : List Path) (data : RecordData) : Prop :=
  (recordFindNextFileIndex io card data).1 = 0

theorem mem_rootEntries {card : List Path} {namePrefix : List Char} (hslash : '/' ∉ namePrefix)
    {index : UInt32} (hmem : indexedName namePrefix index ∈ card) :
    indexedName namePrefix index ∈ rootEntries card := by
  have hdigits : '/' ∉ Decimal.padded 4 index.toNat := fun h =>
    absurd (Decimal.isDigit_of_mem_padded h) (by decide)
  refine List.mem_filter.mpr ⟨hmem, ?_⟩
  simp [indexedName, wavSuffix, hslash, hdigits]

theorem fresh_of_scan {io : ScanIo} {s : Recorder}
    (hscan : ScanSucceeds io s.fs.card.names s.data)
    (hspelled : Spelled s.fs.card s.data.fileNamePrefix.val) :
    Fresh { s with data := (recordFindNextFileIndex io s.fs.card.names s.data).2 } := by
  intro index hle name hmem hsame
  obtain ⟨next, hdata⟩ := recordFindNextFileIndex_data io s.fs.card.names s.data
  simp only [hdata] at hle hmem hsame
  have hlisted : name ∈ s.fs.card.names :=
    (List.mem_append.mp hmem).resolve_right fun halias =>
      hspelled.aliases index name halias hsame
  obtain rfl := hspelled.names index name hlisted hsame
  simp only [ScanSucceeds, recordFindNextFileIndex] at hscan hdata
  split at hscan
  · contradiction
  · rename_i hopendir
    rw [if_neg hopendir] at hdata
    have hlt := lt_of_scanEntries hscan (mem_rootEntries hspelled.slash hlisted)
    rw [hdata] at hlt
    exact absurd hle (UInt32.not_le.mpr hlt)

theorem Fresh.of_eq {s t : Recorder} (h : Fresh s)
    (hname : t.data.fileNamePrefix = s.data.fileNamePrefix)
    (hindex : t.data.fileIndex = s.data.fileIndex) (hcard : t.fs.card = s.fs.card) : Fresh t := by
  simpa only [Fresh, hname, hindex, hcard] using h

theorem onCard_fileName (data : RecordData) :
    onCard data.fileName = indexedName data.fileNamePrefix.val data.fileIndex :=
  rfl

theorem plain_indexedName {namePrefix : List Char} (hplain : ∀ c ∈ namePrefix, PlainChar c)
    (index : UInt32) : Plain (indexedName namePrefix index) := by
  constructor
  · intro c hc
    rw [indexedName, List.append_assoc, List.mem_append, List.cons_append, List.mem_cons,
      List.mem_append] at hc
    rcases hc with hprefix | rfl | hdigit | hsuffix
    · exact hplain c hprefix
    · decide
    · exact plainChar_of_isDigit (Decimal.isDigit_of_mem_padded hdigit)
    · rcases hsuffix with _ | ⟨_, _ | ⟨_, _ | ⟨_, _ | ⟨_, hnone⟩⟩⟩⟩
      · decide
      · decide
      · decide
      · decide
      · cases hnone
  · have hlast : (indexedName namePrefix index).getLast? = some 'v' :=
      List.getLast?_append_of_ne_nil _ (by decide)
    rw [hlast]
    decide

theorem map_upper_of_isDigit (fat : FatNames) {digits : List Char}
    (hdigits : ∀ c ∈ digits, c.isDigit = true) : digits.map fat.upper = digits := by
  refine (List.map_congr_left ?_).trans (List.map_id digits)
  intro c hc
  obtain ⟨-, hle⟩ := toNat_of_isDigit (hdigits c hc)
  have hupper : ¬ (c.val ≥ 97 ∧ c.val ≤ 122) := by
    rintro ⟨hlower, -⟩
    rw [ge_iff_le, UInt32.le_iff_toNat_le] at hlower
    have hge : 97 ≤ c.toNat := hlower
    omega
  exact (fat.upper_ascii c (by omega)).trans (dif_neg hupper)

theorem same_indexedName {fat : FatNames} {namePrefix : List Char}
    (hplain : ∀ c ∈ namePrefix, PlainChar c) {i j : UInt32}
    (h : fat.Same (indexedName namePrefix i) (indexedName namePrefix j)) : i = j := by
  rw [FatNames.Same, fat.fold_plain _ (plain_indexedName hplain i),
    fat.fold_plain _ (plain_indexedName hplain j)] at h
  simp only [indexedName, List.append_assoc, List.map_append, List.cons_append,
    List.map_cons] at h
  have hdigits := List.append_inj_left' (List.cons.inj (List.append_cancel_left h)).2 rfl
  have hupper (index : UInt32) : (Decimal.padded 4 index.toNat).map fat.upper =
      Decimal.padded 4 index.toNat :=
    map_upper_of_isDigit fat fun _ hc => Decimal.isDigit_of_mem_padded hc
  have hpadded := (hupper i).symm.trans (hdigits.trans (hupper j))
  exact UInt32.toNat_inj.mp (Decimal.padded_injective 4 hpadded)

theorem Fresh.next {s t : Recorder} (h : Fresh s)
    (hplain : ∀ c ∈ s.data.fileNamePrefix.val, PlainChar c)
    (hname : t.data.fileNamePrefix = s.data.fileNamePrefix)
    (hmax : s.data.fileIndex ≠ ulongMax) (hindex : t.data.fileIndex = s.data.fileIndex + 1)
    {slot : Nat} (hcard : t.fs.card = (fsOpen .ok slot s.data.fileName s.fs).2.2.card) :
    Fresh t := by
  intro index hle name hmem hsame
  rw [hindex] at hle
  have hlt : s.data.fileIndex < index := by
    have hbound := s.data.fileIndex.toNat_lt
    have hne : s.data.fileIndex.toNat ≠ 4294967295 := fun heq => hmax (UInt32.toNat_inj.mp heq)
    rw [UInt32.le_iff_toNat_le, UInt32.toNat_add] at hle
    rw [UInt32.lt_iff_toNat_lt]
    simp only [UInt32.toNat_one] at hle
    omega
  rw [hcard] at hmem hsame
  rw [hname, fsOpen_fat] at hsame
  rcases mem_fsOpen_card hmem with rfl | hold
  · rw [onCard_fileName, s.fs.card.fat.entry_plain _ (plain_indexedName hplain _)] at hsame
    rw [same_indexedName hplain hsame] at hlt
    exact absurd hlt (UInt32.lt_irrefl _)
  · exact h index (UInt32.le_of_lt hlt) name hold hsame

/-- The recorder, and whether its index is known to fit the card. -/
structure Watched where
  recorder : Recorder
  known : Prop

def Opens (s : Recorder) (call : Call) : Prop :=
  openedNames (step s call) ≠ openedNames s

/-- Whether the index is known after a call. It becomes so by a scan that goes
through to the end of the directory; a new prefix or another card without one, a
file that is left behind by a failed `wav_open`, and the last index end it. -/
def knownAfter (known : Prop) (s : Recorder) : Call → Prop
  | .buffer io block =>
      known ∧ (Opens s (.buffer io block) →
        io.wavOpen.fsOpen ≠ .ok ∨ (io.wavOpen.Succeeds ∧ s.data.fileIndex ≠ ulongMax))
  | .setFileNamePrefix io namePrefix =>
      if h : s.data.init = true ∧ namePrefix.length < recordFileNamePrefixLen then
        if io.save = .ok ∧ io.scan.opendir = .ok then
          ScanSucceeds io.scan s.fs.card.names
              { s.data with fileNamePrefix := ⟨namePrefix, h.2⟩ } ∧
            Spelled s.fs.card namePrefix
        else known ∧ namePrefix = s.data.fileNamePrefix.val
      else known
  | .cardInserted io =>
      if s.data.init = true ∧ io.opendir = .ok then
        ScanSucceeds io s.fs.card.names s.data ∧ Spelled s.fs.card s.data.fileNamePrefix.val
      else known
  | .swapCard card => known ∧ card = s.fs.card
  | .start _ _ | .stop _ | .shutdown _ | .closeThread _ => known

def watch (w : Watched) (call : Call) : Watched :=
  ⟨step w.recorder call, knownAfter w.known w.recorder call⟩

def watchInitial (card : Card) (settings : Option (List Char)) (io : InitIo) : Watched where
  recorder := initial card settings io
  known := ScanSucceeds io.scan card.names (loadSettings io settings (boot card settings).data) ∧
    Spelled card (loadSettings io settings (boot card settings).data).fileNamePrefix.val

def OpensKnown (w : Watched) (call : Call) : Prop :=
  Opens w.recorder call → w.known

theorem recorder_run_watch (w : Watched) (calls : List Call) :
    (run watch w calls).recorder = run step w.recorder calls :=
  run_comap (f := Watched.recorder) (fun _ _ => rfl) w calls

/-- While the index is known it is free. -/
structure Sound (w : Watched) : Prop where
  fresh : w.known → Fresh w.recorder
  plain : w.known → ∀ c ∈ w.recorder.data.fileNamePrefix.val, PlainChar c
  opened : NoOverwrite w.recorder

theorem sound_initial (card : Card) (settings : Option (List Char)) (io : InitIo) :
    Sound (watchInitial card settings io) := by
  constructor
  · rintro ⟨hscan, hspelled⟩
    have hfresh := fresh_of_scan (s := { boot card settings with
      data := loadSettings io settings (boot card settings).data }) hscan hspelled
    exact hfresh.of_eq rfl rfl rfl
  · rintro ⟨-, hspelled⟩
    have hname := recordFindNextFileIndex_fileNamePrefix io.scan card.names
      (loadSettings io settings (boot card settings).data)
    change ∀ c ∈ (recordFindNextFileIndex io.scan card.names
      (loadSettings io settings (boot card settings).data)).2.fileNamePrefix.val, PlainChar c
    rw [hname]
    exact hspelled.plain
  · intro entry hentry
    have htrace : (initial card settings io).trace = [] := rfl
    simp [watchInitial, openedNames, htrace] at hentry

theorem Sound.of_names {w v : Watched} (h : Sound w)
    (hnames : names v.recorder = names w.recorder) (hknown : v.known → w.known) : Sound v := by
  simp only [names, Prod.mk.injEq] at hnames
  obtain ⟨hname, hindex, hcard, hopened⟩ := hnames
  refine ⟨fun hv => (h.fresh (hknown hv)).of_eq hname hindex hcard, ?_, ?_⟩
  · rw [hname]
    exact fun hv => h.plain (hknown hv)
  · simpa only [NoOverwrite, hopened] using h.opened

theorem Fresh.not_finds {s : Recorder} (h : Fresh s) : s.fs.card.finds s.data.fileName = false := by
  simp only [Card.finds, List.any_eq_false, onCard_fileName]
  intro name hmem hsame
  exact h s.data.fileIndex (UInt32.le_refl _) name hmem (of_decide_eq_true hsame)

theorem sound_buffer {w : Watched} (h : Sound w) {io : BufferIo} {block : AudioBlock}
    (hopens : OpensKnown w (.buffer io block)) : Sound (watch w (.buffer io block)) := by
  rcases opensNext_recordBuffer io block w.recorder with hsame | hnext
  · exact h.of_names hsame And.left
  · have hlonger : Opens w.recorder (.buffer io block) := by
      intro heq
      have hlen := congrArg List.length (hnext.opened.symm.trans heq)
      simp at hlen
    have hfresh := h.fresh (hopens hlonger)
    have hplain := h.plain (hopens hlonger)
    constructor
    · rintro ⟨_, hio⟩
      rcases hio hlonger with hfailed | ⟨hsucceeded, hmax⟩
      · obtain ⟨hindex, hcard⟩ := hnext.failed hfailed
        exact hfresh.of_eq hnext.namePrefix hindex hcard
      · obtain ⟨hindex, hcard⟩ := hnext.succeeded hsucceeded
        exact hfresh.next hplain hnext.namePrefix hmax hindex hcard
    · intro _
      rw [show (watch w (.buffer io block)).recorder.data.fileNamePrefix = _ from hnext.namePrefix]
      exact hplain
    · intro entry hentry
      rw [show openedNames (watch w (.buffer io block)).recorder = _ from hnext.opened] at hentry
      rcases List.mem_append.mp hentry with hold | hnew
      · exact h.opened entry hold
      · rw [List.mem_singleton.mp hnew]
        exact hfresh.not_finds

theorem scan_of_opendir {io : ScanIo} (hopendir : io.opendir ≠ .ok) (card : List Path)
    (data : RecordData) : (recordFindNextFileIndex io card data).2 = data := by
  have hcode : io.opendir.code ≠ 0 := fun h => hopendir ((Outcome.code_eq_zero_iff _).mp h)
  simp only [recordFindNextFileIndex, if_pos hcode]

theorem sound_setFileNamePrefix {w : Watched} (h : Sound w) (io : SetPrefixIo)
    (namePrefix : List Char) : Sound (watch w (.setFileNamePrefix io namePrefix)) := by
  have hopened : NoOverwrite (recordSetFileNamePrefix io namePrefix w.recorder).2 := by
    simp only [recordSetFileNamePrefix]
    split
    · exact h.opened
    · split
      · split <;> exact h.opened
      · exact h.opened
  have hknown : (watch w (.setFileNamePrefix io namePrefix)).known →
      Fresh (watch w (.setFileNamePrefix io namePrefix)).recorder ∧
        ∀ c ∈ (watch w (.setFileNamePrefix io namePrefix)).recorder.data.fileNamePrefix.val,
          PlainChar c := by
    simp only [watch, knownAfter, step]
    by_cases haccepted : w.recorder.data.init = true ∧ namePrefix.length < recordFileNamePrefixLen
    · obtain ⟨hinit, hlen⟩ := haccepted
      have hready : ¬ (!w.recorder.data.init) = true := by simp [hinit]
      have hcode : io.save.code = 0 ↔ io.save = .ok := Outcome.code_eq_zero_iff _
      rw [dif_pos ⟨hinit, hlen⟩]
      simp only [recordSetFileNamePrefix, if_neg hready, dif_pos hlen]
      by_cases hsave : io.save = .ok
      · rw [if_neg (not_not.mpr (hcode.mpr hsave))]
        by_cases hopendir : io.scan.opendir = .ok
        · rw [if_pos ⟨hsave, hopendir⟩]
          rintro ⟨hscan, hspelled⟩
          have hfresh := fresh_of_scan (s := { w.recorder with
            data := { w.recorder.data with fileNamePrefix := ⟨namePrefix, hlen⟩ } }) hscan hspelled
          refine ⟨hfresh.of_eq rfl rfl rfl, ?_⟩
          rw [recordFindNextFileIndex_fileNamePrefix]
          exact hspelled.plain
        · rw [if_neg fun hboth => hopendir hboth.2]
          rintro ⟨hknown, rfl⟩
          rw [scan_of_opendir hopendir]
          exact ⟨(h.fresh hknown).of_eq rfl rfl rfl, h.plain hknown⟩
      · rw [if_pos fun hzero => hsave (hcode.mp hzero), if_neg fun hboth => hsave hboth.1]
        rintro ⟨hknown, rfl⟩
        exact ⟨(h.fresh hknown).of_eq rfl rfl rfl, h.plain hknown⟩
    · rw [dif_neg haccepted]
      intro hknown
      have hsame : (recordSetFileNamePrefix io namePrefix w.recorder).2 = w.recorder := by
        simp only [recordSetFileNamePrefix]
        split
        · rfl
        · rename_i hready
          rw [dif_neg]
          intro hlen
          exact haccepted ⟨by simpa using hready, hlen⟩
      rw [hsame]
      exact ⟨h.fresh hknown, h.plain hknown⟩
  exact ⟨fun hv => (hknown hv).1, fun hv => (hknown hv).2, hopened⟩

theorem sound_cardInserted {w : Watched} (h : Sound w) (io : ScanIo) :
    Sound (watch w (.cardInserted io)) := by
  have hopened : NoOverwrite (recordCardInserted io w.recorder).2 := by
    simp only [recordCardInserted]
    split <;> exact h.opened
  have hknown : (watch w (.cardInserted io)).known → Fresh (watch w (.cardInserted io)).recorder ∧
      ∀ c ∈ (watch w (.cardInserted io)).recorder.data.fileNamePrefix.val, PlainChar c := by
    simp only [watch, knownAfter, step, recordCardInserted]
    rcases hinit : w.recorder.data.init with _ | _
    · simp only [Bool.not_false, if_true, Bool.false_eq_true, false_and, if_false]
      exact fun hknown => ⟨h.fresh hknown, h.plain hknown⟩
    · simp only [Bool.not_true, Bool.false_eq_true, if_false, true_and]
      by_cases hopendir : io.opendir = .ok
      · rw [if_pos hopendir, recordFindNextFileIndex_fileNamePrefix]
        rintro ⟨hscan, hspelled⟩
        exact ⟨fresh_of_scan hscan hspelled, hspelled.plain⟩
      · rw [if_neg hopendir, scan_of_opendir hopendir]
        exact fun hknown => ⟨h.fresh hknown, h.plain hknown⟩
  exact ⟨fun hv => (hknown hv).1, fun hv => (hknown hv).2, hopened⟩

theorem names_recordStop (io : CloseFileIo) (s : Recorder) :
    names (recordStop io s).2 = names s := by
  have hstop : ∀ t : Recorder, names { t with
      data := { t.data with state := .stopped }
      led := .idle
      trace := t.trace ++ [.audioStop] } = names t := by
    intro t
    simp [names, openedNames, opensName, List.filterMap_cons]
  simp only [recordStop, recordStopUnlocked]
  split
  · rfl
  · refine (hstop _).trans ?_
    simp only [closeWhenRecording]
    split
    · rfl
    · rfl
    · exact names_recordCloseFile io s
    · exact names_recordCloseFile io s

theorem sound_watch (w : Watched) (call : Call) (h : Sound w) (hopens : OpensKnown w call) :
    Sound (watch w call) := by
  cases call with
  | start audioStart time =>
      refine h.of_names ?_ id
      simp only [watch, step, recordStart]
      split
      · rfl
      · split <;> simp [names, openedNames, opensName, List.filterMap_cons]
  | buffer io block => exact sound_buffer h hopens
  | stop io =>
      refine h.of_names ?_ id
      exact names_recordStop io w.recorder
  | shutdown io =>
      refine h.of_names ?_ id
      simp only [watch, step, recordShutdown]
      split
      · rfl
      · split <;> exact names_recordStop io w.recorder
  | closeThread io => exact h.of_names (names_closeThreadRun w.recorder io) id
  | setFileNamePrefix io namePrefix => exact sound_setFileNamePrefix h io namePrefix
  | cardInserted io => exact sound_cardInserted h io
  | swapCard card =>
      refine ⟨?_, fun hv => h.plain hv.1, h.opened⟩
      rintro ⟨hknown, hcard⟩
      exact (h.fresh hknown).of_eq rfl rfl hcard

/-- In every run that opens files only while the index is known, no file that is
on the card is opened. -/
theorem noOverwrite_run (card : Card) (settings : Option (List Char)) (io : InitIo)
    {calls : List Call} (hcalls : Along watch OpensKnown (watchInitial card settings io) calls) :
    NoOverwrite (run step (initial card settings io) calls) := by
  have hsound := invariant_run sound_watch (sound_initial card settings io) hcalls
  rw [← show (watchInitial card settings io).recorder = initial card settings io from rfl,
    ← recorder_run_watch]
  exact hsound.opened

/-- A card with one recording of the prefix. -/
def recordedCard : Card :=
  ⟨asciiNames, [indexedName ['R', 'E', 'C'] 0], []⟩

theorem spelled_recordedCard : Spelled recordedCard ['R', 'E', 'C'] := by
  have hplain : ∀ c ∈ ['R', 'E', 'C'], PlainChar c := by
    intro c hc
    rcases hc with _ | ⟨_, _ | ⟨_, _ | ⟨_, hnone⟩⟩⟩
    · decide
    · decide
    · decide
    · cases hnone
  refine ⟨hplain, ?_, ?_⟩
  · intro index name hmem hsame
    obtain rfl := List.mem_singleton.mp hmem
    rw [same_indexedName hplain hsame]
  · intro index name hmem
    cases hmem

theorem noOverwrite_run_second_recording :
    NoOverwrite (run step (initial recordedCard none {}) [.start 0 0, .buffer {} shortBlock]) := by
  have hknown : (watchInitial recordedCard none {}).known :=
    ⟨rfl, spelled_recordedCard⟩
  exact noOverwrite_run _ none {} ⟨fun _ => hknown, fun _ => hknown, trivial⟩

/-- The first `fs_readdir` of the scan at boot fails: the index stays at zero,
and the recording with that index is truncated. -/
theorem not_noOverwrite_of_failed_scan :
    ¬ ∀ (card : Card) (settings : Option (List Char)) (io : InitIo) (calls : List Call),
      NoOverwrite (run step (initial card settings io) calls) := by
  intro h
  have hnever := h recordedCard none
    { scan := { readdir := fun _ => .err 0 4 } } [.start 0 0, .buffer {} shortBlock]
  have hopened := hnever (mountPoint ++ '/' :: indexedName ['R', 'E', 'C'] 0, true) (by decide)
  cases hopened

end ZeusLe.RecordNames
