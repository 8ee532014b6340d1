import Mathlib.Data.List.TakeWhile
import ZeusLe.Record

/-! The file name prefix across a restart. -/

namespace ZeusLe.RecordPrefix

open ZeusLe.FileSystem
open ZeusLe.Record

def nul : Char := Char.ofNat 0

/-- The characters of a string before its terminator. -/
abbrev CString := { p : List Char // nul ∉ p }

def recordGetFileNamePrefix (len : Nat) (s : Recorder) : Except Int (List Char) :=
  if !s.data.init then .error (-einval)
  else if s.data.fileNamePrefix.val.length ≥ len then .error (-einval)
  else .ok (s.data.fileNamePrefix.val ++ [nul])

/-- After a restart in which the settings are loaded the getter returns the
prefix, and its terminator, in every buffer that is large enough. -/
def Restored (p : CString) (settings : Option (List Char)) : Prop :=
  ∀ card io len, io.load = .ok → io.read = .ok → p.val.length < len →
    recordGetFileNamePrefix len (initial card settings io) = .ok (p.val ++ [nul])

def PrefixLaw (io : SetPrefixIo) (p : CString) (s : Recorder) : Prop :=
  let result := recordSetFileNamePrefix io p.val s
  (result.1 = 0 → Restored p result.2.settings) ∧
    (result.1 ≠ 0 → result.2.data.fileNamePrefix = s.data.fileNamePrefix ∧
      result.2.settings = s.settings)

/-- The call is refused, or it saves a prefix that is not empty, or it fails to
save the prefix that is in use. -/
def Kept (io : SetPrefixIo) (p : CString) (s : Recorder) : Prop :=
  s.data.init = false ∨ recordFileNamePrefixLen ≤ p.val.length ∨
    if io.save = .ok then p.val ≠ [] else p.val = s.data.fileNamePrefix.val

theorem recordSettingsLoadCb_prefix {p : CString}
    (hlen : p.val.length < recordFileNamePrefixLen) (hne : p.val ≠ []) (data : RecordData) :
    (recordSettingsLoadCb .ok p.val data).fileNamePrefix = ⟨p.val, hlen⟩ := by
  have htake : p.val.take (recordFileNamePrefixLen - 1) = p.val :=
    List.take_of_length_le (Nat.le_pred_of_lt hlen)
  have hwhile : p.val.takeWhile (· ≠ nul) = p.val := by
    rw [List.takeWhile_eq_self_iff]
    intro c hc
    exact decide_eq_true fun heq => p.property (heq ▸ hc)
  simp only [recordSettingsLoadCb, htake, if_neg hne]
  exact Subtype.ext hwhile

theorem initial_fileNamePrefix {io : InitIo} (hload : io.load = .ok) (hread : io.read = .ok)
    {p : CString} (hlen : p.val.length < recordFileNamePrefixLen) (hne : p.val ≠ [])
    (card : Card) :
    (initial card (some p.val) io).data.init = true ∧
      (initial card (some p.val) io).data.fileNamePrefix = ⟨p.val, hlen⟩ := by
  refine ⟨rfl, ?_⟩
  change (recordFindNextFileIndex io.scan card.names
    (loadSettings io (some p.val) (boot card (some p.val)).data)).2.fileNamePrefix = _
  rw [recordFindNextFileIndex_fileNamePrefix]
  simp only [loadSettings, hload, hread]
  exact recordSettingsLoadCb_prefix hlen hne _

theorem restored_some {p : CString} (hlen : p.val.length < recordFileNamePrefixLen)
    (hne : p.val ≠ []) : Restored p (some p.val) := by
  intro card io len hload hread hlt
  obtain ⟨hinit, hname⟩ := initial_fileNamePrefix hload hread hlen hne card
  rw [recordGetFileNamePrefix, hinit, hname]
  simp only [Bool.not_true, Bool.false_eq_true, if_false]
  rw [if_neg (Nat.not_le.mpr hlt)]

theorem not_restored_none {p : CString} (hempty : p.val = []) : ¬ Restored p none := by
  intro hrestored
  have hget := hrestored emptyCard {} 4 rfl rfl (by rw [hempty]; decide)
  rw [hempty] at hget
  revert hget
  decide

theorem recordSetFileNamePrefix_accepted {s : Recorder} (hinit : s.data.init = true)
    {namePrefix : List Char} (hlen : namePrefix.length < recordFileNamePrefixLen)
    (io : SetPrefixIo) :
    let result := recordSetFileNamePrefix io namePrefix s
    result.1 = io.save.code ∧ result.2.data.fileNamePrefix = ⟨namePrefix, hlen⟩ ∧
      result.2.settings =
        if io.save = .ok then (if namePrefix = [] then none else some namePrefix)
        else s.settings := by
  simp only [recordSetFileNamePrefix, hinit, Bool.not_true, Bool.false_eq_true, if_false,
    dif_pos hlen, ne_eq, Outcome.code_eq_zero_iff]
  rcases Classical.em (io.save = .ok) with hsave | hsave
  · simp only [hsave, not_true_eq_false, if_false, if_true]
    exact ⟨rfl, recordFindNextFileIndex_fileNamePrefix _ _ _, trivial⟩
  · simp only [hsave, not_false_eq_true, if_true, if_false]
    exact ⟨trivial, trivial, trivial⟩

theorem recordSetFileNamePrefix_refused {s : Recorder} {namePrefix : List Char}
    (hrefused : s.data.init = false ∨ recordFileNamePrefixLen ≤ namePrefix.length)
    (io : SetPrefixIo) : recordSetFileNamePrefix io namePrefix s = (-einval, s) := by
  rw [recordSetFileNamePrefix]
  rcases hrefused with hinit | hlen
  · rw [if_pos (by simp [hinit])]
  · rw [dif_neg (Nat.not_lt.mpr hlen)]
    split <;> rfl

/-- The calls that keep the law are the ones that save a prefix which is not
empty, and those whose failure changes nothing. -/
theorem prefixLaw_iff (io : SetPrefixIo) (p : CString) (s : Recorder) :
    PrefixLaw io p s ↔ Kept io p s := by
  rcases Classical.em (s.data.init = false ∨ recordFileNamePrefixLen ≤ p.val.length) with
    hrefused | haccepted
  · refine iff_of_true ?_ (hrefused.imp_right Or.inl)
    rw [PrefixLaw, recordSetFileNamePrefix_refused hrefused]
    have hneg : -einval ≠ 0 := by decide
    exact ⟨fun hret => absurd hret hneg, fun _ => ⟨rfl, rfl⟩⟩
  · simp only [not_or, Bool.not_eq_false, Nat.not_le] at haccepted
    obtain ⟨hinit, hlen⟩ := haccepted
    obtain ⟨hret, hname, hsettings⟩ := recordSetFileNamePrefix_accepted hinit hlen io
    rw [PrefixLaw, Kept]
    simp only [hret, hname, hsettings, hinit, Bool.true_eq_false, false_or,
      Nat.not_le.mpr hlen, Outcome.code_eq_zero_iff, ne_eq]
    rcases Classical.em (io.save = .ok) with hsave | hsave
    · simp only [hsave, if_true, not_true_eq_false, false_imp_iff, and_true, true_imp_iff]
      rcases Classical.em (p.val = []) with hempty | hne
      · rw [if_pos hempty]
        exact iff_of_false (not_restored_none hempty) (not_not.mpr hempty)
      · rw [if_neg hne]
        exact iff_of_true (restored_some hlen hne) hne
    · simp only [hsave, if_false, false_imp_iff, true_and, not_false_eq_true, true_imp_iff,
        and_true]
      exact ⟨fun h => congrArg Subtype.val h, fun h => Subtype.ext h⟩

/-- The empty prefix is `REC` again after a restart, and a prefix that cannot be
saved is in use. -/
theorem prefix_lost :
    ¬ PrefixLaw {} ⟨[], List.not_mem_nil⟩ (initial emptyCard none {}) ∧
      ¬ PrefixLaw { save := .err 0 4 } ⟨['A'], by decide⟩ (initial emptyCard none {}) := by
  constructor
  · intro hlaw
    exact not_restored_none rfl (hlaw.1 rfl)
  · intro hlaw
    have hsame := (hlaw.2 (by decide)).1
    revert hsame
    decide

end ZeusLe.RecordPrefix
