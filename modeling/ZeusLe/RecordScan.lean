import ZeusLe.RecordNames
import Mathlib.Order.Bounds.Basic

/-!
The result of the index scan as a maximum. A scan that succeeds leaves the
largest index that one of the names counts for, whatever their order.
-/

namespace ZeusLe.RecordScan

open ZeusLe.FileSystem
open ZeusLe.Library
open ZeusLe.Record
open ZeusLe.RecordNames

/-- The index that a name counts for: the one after its own, zero for a name of
another kind. -/
def counted (data : RecordData) (name : Path) : Except Int UInt32 :=
  (scanEntry { data with fileIndex := 0 } name).map RecordData.fileIndex

theorem not_lt_zero (index : UInt32) : ¬ index < 0 := by
  rw [UInt32.lt_iff_toNat_lt]
  exact Nat.not_lt_zero _

theorem ne_succ_max {index : UInt32} (h : index ≠ ulongMax) : index + 1 > 0 := by
  have hbound := index.toNat_lt
  have hne : index.toNat ≠ 4294967295 := fun heq => h (UInt32.toNat_inj.mp heq)
  change 0 < index + 1
  rw [UInt32.lt_iff_toNat_lt, UInt32.toNat_add]
  simp only [UInt32.toNat_one, UInt32.toNat_zero]
  omega

/-- The data with an index that is no lower than `index`. -/
def raise (data : RecordData) (index : UInt32) : RecordData :=
  if index > data.fileIndex then { data with fileIndex := index } else data

theorem raise_zero (data : RecordData) : raise data 0 = data :=
  if_neg (not_lt_zero _)

theorem toNat_raise (data : RecordData) (index : UInt32) :
    (raise data index).fileIndex.toNat = max data.fileIndex.toNat index.toNat := by
  simp only [raise, gt_iff_lt, UInt32.lt_iff_toNat_lt]
  split
  · simp only
    omega
  · omega

@[simp] theorem counted_raise (data : RecordData) (index : UInt32) (name : Path) :
    counted (raise data index) name = counted data name := by
  simp only [raise]
  split <;> rfl

theorem scanEntry_eq (data : RecordData) (name : Path) :
    scanEntry data name = (counted data name).map (raise data) := by
  have hskip : Except.ok data = Except.map (ε := Int) (raise data) (.ok 0) := by
    simp only [Except.map, raise_zero]
  simp only [counted, scanEntry]
  split
  · exact hskip
  · split
    · exact hskip
    · split
      · exact hskip
      · split
        · exact hskip
        · split
          · rfl
          · rename_i hmax
            split
            · exact hskip
            · simp only [if_pos (ne_succ_max hmax), Except.map, raise]
              split <;> rfl

theorem scanEntries_of_counted {readdir : Nat → Outcome} {k : Nat}
    (hread : 0 ≤ (readdir k).code) {data : RecordData} {name : Path} {index : UInt32}
    (hcount : counted data name = .ok index) (names : List Path) :
    scanEntries readdir k (name :: names) data =
      scanEntries readdir (k + 1) names (raise data index) := by
  simp only [scanEntries, if_neg (Int.not_lt.mpr hread), scanEntry_eq, hcount, Except.map]

theorem scanEntries_ret_of_error {readdir : Nat → Outcome} {k : Nat} {data : RecordData}
    {name : Path} {ret : Int} (hcount : counted data name = .error ret) (names : List Path) :
    (scanEntries readdir k (name :: names) data).1 ≠ 0 := by
  have herror : scanEntry data name = .error ret := by
    rw [scanEntry_eq, hcount]
    rfl
  simp only [scanEntries, herror]
  split
  · rename_i hneg
    exact hneg.ne
  · exact scanEntry_error_ne herror

theorem scanEntries_ret_of_read {readdir : Nat → Outcome} {k : Nat}
    (hread : (readdir k).code < 0) (names : List Path) (data : RecordData) :
    (scanEntries readdir k names data).1 ≠ 0 := by
  cases names with
  | nil =>
      simp only [scanEntries, if_pos hread]
      exact hread.ne
  | cons name names =>
      simp only [scanEntries, if_pos hread]
      exact hread.ne

/-- What a scan of `names` chooses from: the index it starts with, and what the
names count for. -/
def indices (data : RecordData) (names : List Path) : Set Nat :=
  { n | n = data.fileIndex.toNat ∨
    ∃ name ∈ names, ∃ index, counted data name = .ok index ∧ n = index.toNat }

def Readable (data : RecordData) (names : List Path) : Prop :=
  ∀ name ∈ names, ∃ index, counted data name = .ok index

theorem readable_cons {data : RecordData} {name : Path} {names : List Path} :
    Readable data (name :: names) ↔
      (∃ index, counted data name = .ok index) ∧ Readable data names :=
  List.forall_mem_cons

theorem forall_le_succ_iff {p : Nat → Prop} (k n : Nat) :
    (∀ i ≤ n + 1, p (k + i)) ↔ p k ∧ ∀ i ≤ n, p (k + 1 + i) := by
  constructor
  · intro h
    refine ⟨h 0 (Nat.zero_le _), fun i hi => ?_⟩
    have hnext := h (i + 1) (by omega)
    rwa [show k + (i + 1) = k + 1 + i by omega] at hnext
  · rintro ⟨hzero, hlater⟩ i hi
    cases i with
    | zero => exact hzero
    | succ i =>
        rw [show k + (i + 1) = k + 1 + i by omega]
        exact hlater i (by omega)

theorem scanEntries_ret_iff (readdir : Nat → Outcome) (k : Nat) (names : List Path)
    (data : RecordData) :
    (scanEntries readdir k names data).1 = 0 ↔
      (∀ i ≤ names.length, 0 ≤ (readdir (k + i)).code) ∧ Readable data names := by
  induction names generalizing k data with
  | nil =>
      have hreadable : Readable data [] := fun name hname => nomatch hname
      simp only [List.length_nil, Nat.le_zero_eq, forall_eq, Nat.add_zero, hreadable, and_true]
      rcases Classical.em ((readdir k).code < 0) with hneg | hread
      · exact iff_of_false (scanEntries_ret_of_read hneg [] data) (Int.not_le.mpr hneg)
      · simp only [scanEntries, if_neg hread, Int.not_lt.mp hread]
  | cons name names ih =>
      rw [List.length_cons, forall_le_succ_iff (p := fun i => 0 ≤ (readdir i).code), readable_cons]
      rcases Classical.em ((readdir k).code < 0) with hneg | hread
      · apply iff_of_false (scanEntries_ret_of_read hneg (name :: names) data)
        rintro ⟨⟨hread, -⟩, -⟩
        exact absurd hread (Int.not_le.mpr hneg)
      · have hread := Int.not_lt.mp hread
        rcases hcount : counted data name with ret | index
        · apply iff_of_false (scanEntries_ret_of_error hcount names)
          rintro ⟨-, ⟨index, hindex⟩, -⟩
          cases hindex
        · rw [scanEntries_of_counted hread hcount, ih]
          simp only [hread, true_and, Except.ok.injEq, exists_eq', Readable, counted_raise]

theorem isGreatest_cons {data : RecordData} {name : Path} {names : List Path} {index : UInt32}
    (hcount : counted data name = .ok index) {n : Nat}
    (h : IsGreatest (indices (raise data index) names) n) :
    IsGreatest (indices data (name :: names)) n := by
  obtain ⟨hmem, hbound⟩ := h
  have hraised : max data.fileIndex.toNat index.toNat ≤ n := by
    rw [← toNat_raise]
    exact hbound (Or.inl rfl)
  constructor
  · rcases hmem with hfirst | ⟨name', hname', index', hindex', hn⟩
    · rw [toNat_raise] at hfirst
      rcases Nat.le_total data.fileIndex.toNat index.toNat with hle | hle
      · exact Or.inr ⟨name, List.mem_cons_self, index, hcount, by omega⟩
      · exact Or.inl (by omega)
    · rw [counted_raise] at hindex'
      exact Or.inr ⟨name', List.mem_cons_of_mem name hname', index', hindex', hn⟩
  · rintro m (rfl | ⟨name', hname', index', hindex', rfl⟩)
    · omega
    · rcases List.mem_cons.mp hname' with rfl | hlater
      · cases hcount.symm.trans hindex'
        omega
      · rw [← counted_raise data index] at hindex'
        exact hbound (Or.inr ⟨name', hlater, index', hindex', rfl⟩)

theorem isGreatest_scanEntries {readdir : Nat → Outcome} {k : Nat} {names : List Path}
    {data : RecordData} (hret : (scanEntries readdir k names data).1 = 0) :
    IsGreatest (indices data names)
      (scanEntries readdir k names data).2.fileIndex.toNat := by
  induction names generalizing k data with
  | nil =>
      have hkept : (scanEntries readdir k [] data).2 = data := by
        simp only [scanEntries]
        split <;> rfl
      rw [hkept]
      refine ⟨Or.inl rfl, ?_⟩
      rintro n (rfl | ⟨name, hname, -⟩)
      · exact Nat.le_refl _
      · cases hname
  | cons name names ih =>
      have hread : 0 ≤ (readdir k).code := by
        apply Int.not_lt.mp
        intro hneg
        exact scanEntries_ret_of_read hneg _ _ hret
      rcases hcount : counted data name with ret | index
      · exact absurd hret (scanEntries_ret_of_error hcount names)
      · rw [scanEntries_of_counted hread hcount] at hret ⊢
        exact isGreatest_cons hcount (ih hret)

theorem indices_perm {names names' : List Path} (h : names'.Perm names) (data : RecordData) :
    indices data names' = indices data names := by
  simp only [indices, h.mem_iff]

theorem scanEntries_of_ret {io : ScanIo} {card : List Path} {data : RecordData}
    (hret : (recordFindNextFileIndex io card data).1 = 0) :
    io.opendir.code = 0 ∧ recordFindNextFileIndex io card data =
      scanEntries io.readdir 0 (rootEntries card) { data with fileIndex := 0 } := by
  simp only [recordFindNextFileIndex] at hret ⊢
  split at hret
  · contradiction
  · rename_i hopendir
    exact ⟨not_not.mp hopendir, if_neg hopendir⟩

theorem recordFindNextFileIndex_perm {io : ScanIo} {card card' : List Path} {data : RecordData}
    (hperm : (rootEntries card').Perm (rootEntries card))
    (hret : (recordFindNextFileIndex io card data).1 = 0) :
    (recordFindNextFileIndex io card' data).1 = 0 := by
  obtain ⟨hopendir, hscan⟩ := scanEntries_of_ret hret
  rw [hscan, scanEntries_ret_iff] at hret
  simp only [recordFindNextFileIndex, hopendir, ne_eq, not_true_eq_false, if_false]
  rw [scanEntries_ret_iff, hperm.length_eq]
  exact ⟨hret.1, fun name hname => hret.2 name (hperm.mem_iff.mp hname)⟩

/-- What a scan that returns zero says of the index it leaves. -/
structure Recognises (card : List Path) (data : RecordData) : Prop where
  unlisted : onCard data.fileName ∉ rootEntries card
  above : ∀ index, indexedName data.fileNamePrefix.val index ∈ rootEntries card →
    index < data.fileIndex

/-- Every scan that returns zero has recognised all files that the recorder
writes with the prefix, and another order of the directory gives the same
index. -/
theorem recognises_of_scan (io : ScanIo) (card : List Path) (data : RecordData)
    (hret : (recordFindNextFileIndex io card data).1 = 0) :
    Recognises card (recordFindNextFileIndex io card data).2 ∧
      ∀ (io' : ScanIo) (card' : List Path), (rootEntries card').Perm (rootEntries card) →
        (recordFindNextFileIndex io card' data).1 = 0 ∧
        ((recordFindNextFileIndex io' card' data).1 = 0 →
          (recordFindNextFileIndex io' card' data).2.fileIndex =
            (recordFindNextFileIndex io card data).2.fileIndex) := by
  have hscan := (scanEntries_of_ret hret).2
  obtain ⟨next, hdata⟩ := recordFindNextFileIndex_data io card data
  have habove : ∀ index, indexedName data.fileNamePrefix.val index ∈ rootEntries card →
      index < (recordFindNextFileIndex io card data).2.fileIndex := by
    intro index hmem
    rw [hscan] at hret ⊢
    exact lt_of_scanEntries hret hmem
  have hgreatest : ∀ (io' : ScanIo) (card' : List Path),
      (recordFindNextFileIndex io' card' data).1 = 0 →
      IsGreatest (indices { data with fileIndex := 0 } (rootEntries card'))
        (recordFindNextFileIndex io' card' data).2.fileIndex.toNat := by
    intro io' card' hret'
    have hscan' := (scanEntries_of_ret hret').2
    rw [hscan'] at hret' ⊢
    exact isGreatest_scanEntries hret'
  constructor
  · rw [hdata] at habove ⊢
    refine ⟨fun hmem => ?_, habove⟩
    rw [onCard_fileName] at hmem
    exact absurd (habove next hmem) (UInt32.lt_irrefl _)
  · intro io' card' hperm
    refine ⟨recordFindNextFileIndex_perm hperm hret, fun hret' => ?_⟩
    have hsame := hgreatest io' card' hret'
    rw [indices_perm hperm] at hsame
    exact UInt32.toNat_inj.mp (hsame.unique (hgreatest io card hret))

/-- A prefix with digits and underscores, among names that only look like its
own. -/
theorem recognises_of_scan_digits :
    let card := [['a', '_', '1', '_', '7', '.', 'w', 'a', 'v'],
      indexedName ['a', '_', '1'] 41, indexedName ['a'] 1000, indexedName ['a', '_', '1'] 9]
    let data := { (boot emptyCard none).data with fileNamePrefix := ⟨['a', '_', '1'], by decide⟩ }
    (recordFindNextFileIndex {} card data).2.fileIndex = 42 ∧
      Recognises card (recordFindNextFileIndex {} card data).2 := by
  intro card data
  have hret : (recordFindNextFileIndex {} card data).1 = 0 := by decide +kernel
  exact ⟨by decide +kernel, (recognises_of_scan {} card data hret).1⟩

end ZeusLe.RecordScan
