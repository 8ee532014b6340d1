import ZeusLe.DiskCacheInvariant

/-!
When the cache agrees with the disk. A write that fails half way changes the disk
and not the cache.
-/

namespace ZeusLe.DiskCacheCoherence

open ZeusLe.DiskCache
open ZeusLe.DiskCacheInvariant
open ZeusLe.Library.Run
open ZeusLe.Library.Word

universe u

variable {α : Type u}

/-- Every entry in use holds what its sector holds on the disk. -/
def Agrees (disk : UInt32 → α) (c : Cache α) : Prop :=
  ∀ id ∈ c.lruList, (c.entries id).data = disk (c.entries id).sector

/-- Every entry in use holds what its sector holds on the disk, and no two hold
the same sector. -/
structure Coherent (disk : UInt32 → α) (c : Cache α) : Prop extends WellFormed c where
  data : Agrees disk c

theorem kept_agrees (disk : UInt32 → α) : Kept disk (Agrees disk) where
  add := by
    intro c sector h _ hc id hid
    rcases entries_add h sector (disk sector) hid with hnew | ⟨hmem, hsame⟩
    · rw [hnew]
    · rw [hsame]
      exact hc id hmem
  bump hid hc id hid' := hc id ((mem_bump hid).mp hid')

theorem coherent_flush {disk : UInt32 → α} {c : Cache α} (h : Coherent disk c) :
    Coherent disk (diskCacheFlush c) :=
  ⟨wellFormed_flush h.toWellFormed, fun _ hid => absurd hid List.not_mem_nil⟩

theorem coherent_writeSector {disk : UInt32 → α} {c : Cache α} (h : Coherent disk c)
    (data : Nat → α) (start : UInt32) (i : Nat) :
    Coherent (Function.update disk (start + UInt32.ofNat i) (data i))
      (writeSector data start c i) := by
  refine ⟨wellFormed_writeSector h.toWellFormed data start i, ?_⟩
  intro a ha
  rw [(lists_writeSector data start c i).2] at ha
  rw [sector_writeSector]
  simp only [writeSector]
  rcases hlookup : diskCacheLookup (start + UInt32.ofNat i) c with _ | id
  · rw [Function.update_of_ne (lookup_eq_none_iff.mp hlookup a ha)]
    exact h.data a ha
  · obtain ⟨hid, hsector⟩ := mem_of_lookup hlookup
    rcases Classical.em (a = id) with rfl | heq
    · simp only [Function.update_self, hsector]
    · have hne : (c.entries a).sector ≠ start + UInt32.ofNat i :=
        fun hsame => heq (h.sector_inj a ha id hid (hsame.trans hsector.symm))
      simp only [Function.update_of_ne heq, Function.update_of_ne hne]
      exact h.data a ha

theorem coherent_write {disk : UInt32 → α} {c : Cache α} (h : Coherent disk c)
    (data : Nat → α) (start num : UInt32) :
    Coherent (diskAccessWrite disk (fun _ => true) data start num)
      (run (writeSector data start) c (List.range num.toNat)) := by
  simp only [diskAccessWrite, if_true]
  generalize List.range num.toNat = positions
  induction positions generalizing disk c with
  | nil => exact h
  | cons i positions ih => exact ih (coherent_writeSector h data start i)

/-- Storing the sectors at `positions`, as far as they are in `stored`. -/
def storeAll (stored : Nat → Bool) (data : Nat → α) (start : UInt32) (disk : UInt32 → α)
    (positions : List Nat) : UInt32 → α :=
  run (fun disk i =>
    if stored i then Function.update disk (start + UInt32.ofNat i) (data i) else disk) disk positions

section

variable {disk : UInt32 → α} {stored : Nat → Bool} {data : Nat → α} {start : UInt32}
  {positions : List Nat}

theorem storeAll_other {sector : UInt32}
    (hother : ∀ i ∈ positions, stored i = true → sector ≠ start + UInt32.ofNat i) :
    storeAll stored data start disk positions sector = disk sector := by
  induction positions generalizing disk with
  | nil => rfl
  | cons i positions ih =>
      rw [storeAll, run_cons]
      refine (ih fun k hk => hother k (List.mem_cons_of_mem i hk)).trans ?_
      split
      · rename_i hstored
        exact Function.update_of_ne (hother i List.mem_cons_self hstored) _ _
      · rfl

theorem storeAll_stored (hpositions : ∀ i ∈ positions, i < 2 ^ 32) {i : Nat} (hi : i ∈ positions)
    (hstored : stored i = true) :
    storeAll stored data start disk positions (start + UInt32.ofNat i) = data i := by
  induction positions generalizing disk with
  | nil => exact absurd hi List.not_mem_nil
  | cons first positions ih =>
      rw [storeAll, run_cons]
      rcases Classical.em (i ∈ positions) with hmem | hmem
      · exact ih (fun k hk => hpositions k (List.mem_cons_of_mem first hk)) hmem
      · obtain rfl : i = first := (List.mem_cons.mp hi).resolve_right hmem
        rw [if_pos hstored]
        refine (storeAll_other ?_).trans (Function.update_self _ _ _)
        intro k hk _ heq
        have hsame := (add_ofNat_inj (hpositions i hi)
          (hpositions k (List.mem_cons_of_mem i hk))).mp heq
        exact hmem (hsame ▸ hk)

end

/-- A write that fails has stored nothing new in a sector that is in the cache. -/
def StoresNoStale (s : State α) : Call α → Prop
  | .write ret stored data start num =>
      ret < 0 → ∀ i < num.toNat, stored i = true → ∀ id ∈ s.cache.lruList,
        (s.cache.entries id).sector = start + UInt32.ofNat i → data i = (s.cache.entries id).data
  | .read _ _ _ _ => True
  | .ioctl _ _ _ _ => True

theorem agrees_failedWrite_iff {disk : UInt32 → α} {c : Cache α} (h : Agrees disk c)
    (stored : Nat → Bool) (data : Nat → α) (start num : UInt32) :
    Agrees (diskAccessWrite disk stored data start num) c ↔
      ∀ i < num.toNat, stored i = true → ∀ id ∈ c.lruList,
        (c.entries id).sector = start + UInt32.ofNat i → data i = (c.entries id).data := by
  have hrange : ∀ i ∈ List.range num.toNat, i < 2 ^ 32 :=
    fun i hi => Nat.lt_trans (List.mem_range.mp hi) num.toNat_lt
  constructor
  · intro hagrees i hi hstored id hid hsector
    have hid' := hagrees id hid
    rw [hsector] at hid'
    exact (hid'.trans (storeAll_stored hrange (List.mem_range.mpr hi) hstored)).symm
  · intro hsame id hid
    rcases Classical.em (∃ i < num.toNat, stored i = true ∧
        (c.entries id).sector = start + UInt32.ofNat i) with ⟨i, hi, hstored, hsector⟩ | hnone
    · rw [← hsame i hi hstored id hid hsector, hsector]
      exact (storeAll_stored hrange (List.mem_range.mpr hi) hstored).symm
    · refine (h id hid).trans (storeAll_other ?_).symm
      intro i hi hstored heq
      exact hnone ⟨i, List.mem_range.mp hi, hstored, heq⟩

theorem coherent_initial {capacity : Nat} (hcapacity : 0 < capacity)
    (entries : Nat → DiskCacheEntry α) (disk : UInt32 → α) :
    Coherent disk (initial capacity entries disk).cache :=
  ⟨(represented_initial capacity entries disk).wellFormed hcapacity,
    fun _ hid => absurd hid List.not_mem_nil⟩

theorem coherent_step (sectorSize : UInt32) {s : State α} {call : Call α}
    (h : Coherent s.disk s.cache) (hstores : StoresNoStale s call) :
    Coherent (step sectorSize s call).disk (step sectorSize s call).cache := by
  cases call with
  | read io buff start num =>
      obtain ⟨-, hwellFormed, hkeeps⟩ :=
        diskCacheAccessRead_keeps s.disk io start h.toWellFormed buff num
      exact ⟨hwellFormed, hkeeps (kept_agrees s.disk) h.data⟩
  | write ret stored data start num =>
      simp only [step, diskCacheAccessWrite]
      split
      · rename_i hret
        exact ⟨h.toWellFormed,
          (agrees_failedWrite_iff h.data stored data start num).mpr (hstores hret)⟩
      · exact coherent_write h data start num
  | ioctl cmd ret sizeRet size =>
      simp only [step, diskCacheAccessIoctl]
      split
      · exact h
      · cases cmd with
        | ctrlInit =>
            simp only
            split
            · exact h
            · exact coherent_flush h
        | ctrlDeinit => exact coherent_flush h
        | other cmd => exact h

/-- After a write every entry in use holds what its sector holds on the disk. -/
def AgreesAfterWrite (sectorSize : UInt32) (s : State α) : Call α → Prop
  | .write ret stored data start num =>
      let s := step sectorSize s (.write ret stored data start num)
      Agrees s.disk s.cache
  | .read _ _ _ _ => True
  | .ioctl _ _ _ _ => True

theorem agreesAfterWrite_iff (sectorSize : UInt32) {s : State α} (h : Coherent s.disk s.cache)
    (call : Call α) : AgreesAfterWrite sectorSize s call ↔ StoresNoStale s call := by
  cases call with
  | read io buff start num => exact Iff.rfl
  | write ret stored data start num =>
      simp only [AgreesAfterWrite, StoresNoStale, step, diskCacheAccessWrite]
      split
      · rename_i hret
        exact (agrees_failedWrite_iff h.data stored data start num).trans
          ⟨fun hsame _ => hsame, fun hsame => hsame hret⟩
      · rename_i hret
        exact ⟨fun _ hneg => absurd hneg hret, fun _ => (coherent_write h data start num).data⟩
  | ioctl cmd ret sizeRet size => exact Iff.rfl

/-- The cache agrees with the disk after every write of a run exactly when no
failing write of it leaves something new in a sector that is in the cache. -/
theorem agrees_run_iff (sectorSize : UInt32) {capacity : Nat} (hcapacity : 0 < capacity)
    (entries : Nat → DiskCacheEntry α) (disk : UInt32 → α) (calls : List (Call α)) :
    Along (step sectorSize) (AgreesAfterWrite sectorSize) (initial capacity entries disk) calls ↔
      Along (step sectorSize) StoresNoStale (initial capacity entries disk) calls :=
  along_iff_of_invariant (P := fun s : State α => Coherent s.disk s.cache)
    (fun _ call h => agreesAfterWrite_iff sectorSize h call)
    (fun _ _ h hstores => coherent_step sectorSize h hstores)
    (coherent_initial hcapacity entries disk)

/-- Sector 0 is cached, then a write of the sectors 0 and 1 fails after sector 0. -/
def halfWrite : List (Call Nat) :=
  [.read (fun _ _ => 0) (fun _ => 7) 0 1, .write (-5) (fun i => i == 0) (fun _ => 9) 0 2]

theorem agrees_run_halfWrite :
    Along (step 512) (AgreesAfterWrite 512) (initial 2 (fun _ => ⟨0, 0⟩) UInt32.toNat)
        halfWrite ↔
      Along (step 512) StoresNoStale (initial 2 (fun _ => ⟨0, 0⟩) UInt32.toNat) halfWrite :=
  agrees_run_iff 512 (by decide) _ _ _

theorem stale_of_halfWrite :
    ¬ ∀ (capacity : Nat) (entries : Nat → DiskCacheEntry Nat) (disk : UInt32 → Nat)
      (calls : List (Call Nat)), 0 < capacity →
      Along (step 512) (AgreesAfterWrite 512) (initial capacity entries disk) calls := by
  intro h
  obtain ⟨-, hagrees, -⟩ := h 2 (fun _ => ⟨0, 0⟩) UInt32.toNat halfWrite (by decide)
  exact absurd (hagrees 0 (by decide)) (by decide)

end ZeusLe.DiskCacheCoherence
