import ZeusLe.DiskCacheCoherence

/-!
What a read through the cache returns. The cache always agrees with the disk;
a read goes wrong when it evicts an entry that it has found and not yet used.
-/

namespace ZeusLe.DiskCacheTransparency

open ZeusLe.DiskCache
open ZeusLe.DiskCacheInvariant
open ZeusLe.DiskCacheCoherence
open ZeusLe.Library.Run
open ZeusLe.Library.Word

universe u

variable {α : Type u}

/-- The loop before position `i`: the sectors from position `j` on were missed. -/
structure Reading (disk : UInt32 → α) (start : UInt32) (buff : Nat → α) (i j : Nat)
    (s : ReadState α) : Prop extends Scanning start i j s where
  data : Agrees disk s.cache
  rest : ∀ k, j ≤ k → s.buff k = buff k

def Correct (disk : UInt32 → α) (start : UInt32) (j : Nat) (s : ReadState α) : Prop :=
  ∀ k < j, s.buff k = disk (start + UInt32.ofNat k)

/-- The entry found for the sector at position `i` is not evicted by the sectors
that were missed right before it. -/
def Survives (start : UInt32) (s : ReadState α) (i : Nat) : Prop :=
  ∀ id ∈ diskCacheLookup (start + UInt32.ofNat i) s.cache,
    (start + UInt32.ofNat i - s.cacheMissStartSector).toNat ≤ age id s.cache

instance (start : UInt32) (s : ReadState α) (i : Nat) : Decidable (Survives start s i) :=
  inferInstanceAs (Decidable (∀ id ∈ diskCacheLookup (start + UInt32.ofNat i) s.cache,
    (start + UInt32.ofNat i - s.cacheMissStartSector).toNat ≤ age id s.cache))

theorem update_fillBuff (disk : UInt32 → α) (start : UInt32) (buff : Nat → α) (a : α) {i j k : Nat}
    (hle : j ≤ i) (hk : k ≤ i) :
    Function.update (fillBuff disk start j i buff) i a k =
      if k < j then buff k else if k < i then disk (start + UInt32.ofNat k) else a := by
  rcases Nat.lt_or_eq_of_le hk with hki | rfl
  · rw [Function.update_of_ne (Nat.ne_of_lt hki), fillBuff]
    rcases Nat.lt_or_ge k j with hkj | hkj
    · rw [if_pos hkj, if_neg (by omega)]
    · rw [if_neg (Nat.not_lt.mpr hkj), if_pos ⟨hkj, hki⟩, if_pos hki]
  · rw [Function.update_self, if_neg (Nat.not_lt.mpr hle), if_neg (Nat.lt_irrefl _)]

/-- One round of the loop. A hit leaves a correct buffer when the entry survives,
and on a disk whose sectors all differ only then. -/
theorem reading_readSector {disk : UInt32 → α} {io : UInt32 → UInt32 → Int} {start : UInt32}
    {buff : Nat → α} {i j : Nat} {s : ReadState α} (hio : ∀ first num, 0 ≤ io first num)
    (hi : i < 2 ^ 32) (h : Reading disk start buff i j s) :
    ∃ j', Reading disk start buff (i + 1) j' (readSector disk io start s i) ∧
      (Correct disk start j s → Survives start s i →
        Correct disk start j' (readSector disk io start s i)) ∧
      (Function.Injective disk → Correct disk start j' (readSector disk io start s i) →
        Correct disk start j s ∧ Survives start s i) := by
  have hret : ¬ s.ret < 0 := by
    rw [h.ret]
    decide
  simp only [readSector, if_neg hret]
  rcases hlookup : diskCacheLookup (start + UInt32.ofNat i) s.cache with _ | id
  · have hsurvives : Survives start s i := by
      intro id hid
      rw [hlookup] at hid
      cases hid
    exact ⟨j, ⟨h.miss hlookup, h.data, h.rest⟩, fun hcorrect _ => hcorrect,
      fun _ hcorrect => ⟨hcorrect, hsurvives⟩⟩
  · obtain ⟨hid, hsector⟩ := mem_of_lookup hlookup
    have hadded := h.added disk hi
    have hsurvives : Survives start s i ↔ i - j ≤ age id s.cache := by
      simp only [Survives, hlookup, Option.mem_def, Option.some.injEq, forall_eq', h.missStart,
        sub_add_ofNat h.le, UInt32.toNat_ofNat_of_lt' (show i - j < 2 ^ 32 by omega)]
    rw [(h.populate disk io hi).1 fun _ => hio _ _]
    simp only [if_neg hret]
    generalize addAll disk (start + UInt32.ofNat j) (i - j) s.cache = cache at hadded ⊢
    have hagrees : Agrees disk cache := hadded.keeps (kept_agrees disk) h.data
    have hdata := hagrees id (hadded.mem id hid)
    have hbuff := fun k => update_fillBuff disk start s.buff (cache.entries id).data h.le (k := k)
    refine ⟨i + 1, ?_, ?_, ?_⟩
    · exact
        { ret := h.ret
          le := Nat.le_refl _
          missStart := by rw [UInt32.ofNat_add, ← UInt32.add_assoc]; rfl
          wellFormed := wellFormed_bump hadded.wellFormed (hadded.mem id hid)
          data := (kept_agrees disk).bump (hadded.mem id hid) hagrees
          missed := fun k hk hk' => absurd hk' (Nat.not_lt.mpr hk)
          rest := by
            intro k hk
            have hne : k ≠ i := by omega
            simp only [Function.update_of_ne hne, fillBuff]
            rw [if_neg (by omega)]
            exact h.rest k (by have := h.le; omega) }
    · intro hcorrect hkept k hk
      have hsame := (hadded.kept id hid (hsurvives.mp hkept)).1
      simp only [hbuff k (Nat.lt_succ_iff.mp hk)]
      split
      · next hkj => exact hcorrect k hkj
      · split
        · rfl
        · next hki =>
            have heq : k = i := by omega
            rw [hdata, hsame, hsector, heq]
    · intro hinj hcorrect
      constructor
      · intro k hk
        have hle := h.le
        have hk' := hcorrect k (by omega)
        simpa only [hbuff k (by omega), if_pos hk] using hk'
      · rw [hsurvives]
        by_contra hlost
        obtain ⟨k, hk, hreplaced⟩ := hadded.evicted id hid (Nat.not_le.mp hlost)
        have hi' := hcorrect i (Nat.lt_succ_self i)
        simp only [hbuff i (Nat.le_refl i), if_neg (Nat.not_lt.mpr h.le),
          if_neg (Nat.lt_irrefl i)] at hi'
        rw [hdata, hreplaced, UInt32.add_assoc, ← UInt32.ofNat_add] at hi'
        have hsame := (add_ofNat_inj (by omega) hi).mp (hinj hi')
        omega

theorem reading_run {disk : UInt32 → α} {io : UInt32 → UInt32 → Int} {start : UInt32}
    {buff : Nat → α} {i j n : Nat} {s : ReadState α} (hio : ∀ first num, 0 ≤ io first num)
    (hn : i + n < 2 ^ 32) (h : Reading disk start buff i j s) :
    ∃ j', Reading disk start buff (i + n) j'
        (run (readSector disk io start) s (List.range' i n)) ∧
      (Correct disk start j s →
        Along (readSector disk io start) (Survives start) s (List.range' i n) →
        Correct disk start j' (run (readSector disk io start) s (List.range' i n))) ∧
      (Function.Injective disk →
        Correct disk start j' (run (readSector disk io start) s (List.range' i n)) →
        Correct disk start j s ∧
          Along (readSector disk io start) (Survives start) s (List.range' i n)) := by
  induction n generalizing i j s with
  | zero => exact ⟨j, h, fun hcorrect _ => hcorrect, fun _ hcorrect => ⟨hcorrect, trivial⟩⟩
  | succ n ih =>
      obtain ⟨j₁, hnext, hright, hwrong⟩ := reading_readSector hio (by omega) h
      obtain ⟨j', hlast, hright', hwrong'⟩ := ih (by omega) hnext
      rw [List.range'_succ, run_cons, Nat.add_comm n 1, ← Nat.add_assoc]
      refine ⟨j', hlast, ?_, ?_⟩
      · rintro hcorrect ⟨hsurvives, hrest⟩
        exact hright' (hright hcorrect hsurvives) hrest
      · intro hinj hcorrect
        obtain ⟨hcorrect', hrest⟩ := hwrong' hinj hcorrect
        obtain ⟨hcorrect'', hsurvives⟩ := hwrong hinj hcorrect'
        exact ⟨hcorrect'', hsurvives, hrest⟩

theorem fillBuff_eq_iff {disk : UInt32 → α} {start : UInt32} {buff : Nat → α} {j : Nat}
    {num : UInt32} {s : ReadState α} (h : Reading disk start buff num.toNat j s) :
    fillBuff disk start j num.toNat s.buff = diskAccessRead disk buff 0 start num ↔
      Correct disk start j s := by
  have hread : ∀ k, diskAccessRead disk buff 0 start num k =
      if k < num.toNat then disk (start + UInt32.ofNat k) else buff k := by
    intro k
    simp only [diskAccessRead, Nat.zero_le, true_and, Nat.zero_add, Nat.sub_zero]
  constructor
  · intro heq k hk
    have hle := h.le
    have hk' := congrFun heq k
    rwa [hread, fillBuff, if_neg (by omega), if_pos (by omega)] at hk'
  · intro hcorrect
    funext k
    rw [hread, fillBuff]
    by_cases hj : k < j
    · have hle := h.le
      rw [if_neg (by omega), if_pos (by omega)]
      exact hcorrect k hj
    · by_cases hk : k < num.toNat
      · rw [if_pos ⟨Nat.not_lt.mp hj, hk⟩, if_pos hk]
      · rw [if_neg (fun hin => hk hin.2), if_neg hk]
        exact h.rest k (Nat.not_lt.mp hj)

/-- In every round of the loop that finds an entry, the entry survives. -/
def KeepsHits (disk : UInt32 → α) (io : UInt32 → UInt32 → Int) (buff : Nat → α)
    (start num : UInt32) (c : Cache α) : Prop :=
  Along (readSector disk io start) (Survives start) (readBegin start buff c)
    (List.range num.toNat)

theorem diskCacheAccessRead_spec {disk : UInt32 → α} {io : UInt32 → UInt32 → Int} {c : Cache α}
    (h : Coherent disk c) (hio : ∀ first num, 0 ≤ io first num) (buff : Nat → α)
    (start num : UInt32) :
    let res := diskCacheAccessRead disk io start buff num c
    res.1 = 0 ∧ Coherent disk res.2.2 ∧
      (KeepsHits disk io buff start num c →
        res.2.1 = diskAccessRead disk buff 0 start num) ∧
      (Function.Injective disk → res.2.1 = diskAccessRead disk buff 0 start num →
        KeepsHits disk io buff start num c) := by
  have hbegin : Reading disk start buff 0 0 (readBegin start buff c) :=
    ⟨Scanning.begin h.toWellFormed start buff, h.data, fun _ _ => rfl⟩
  have hcorrect : Correct disk start 0 (readBegin start buff c) :=
    fun k hk => absurd hk (Nat.not_lt_zero k)
  have hnum : 0 + num.toNat < 2 ^ 32 := by
    have hlt := num.toNat_lt
    omega
  obtain ⟨j, hread, hright, hwrong⟩ := reading_run hio hnum hbegin
  simp only [diskCacheAccessRead, KeepsHits, List.range_eq_range'] at hread hright hwrong ⊢
  rw [Nat.zero_add] at hread hnum
  generalize run (readSector disk io start) (readBegin start buff c) (List.range' 0 num.toNat) = s
    at hread hright hwrong ⊢
  have hret : ¬ s.ret < 0 := by
    rw [hread.ret]
    decide
  have hlast : start + num = start + UInt32.ofNat num.toNat := by
    rw [UInt32.ofNat_toNat]
  have hadded := hread.added disk hnum
  rw [if_neg hret, hlast, (hread.populate disk io hnum).1 fun _ => hio _ _]
  simp only [fillBuff_eq_iff hread]
  refine ⟨hread.ret, ⟨hadded.wellFormed, ?_⟩, hright hcorrect, ?_⟩
  · exact hadded.keeps (kept_agrees disk) hread.data
  · exact fun hinj hres => (hwrong hinj hres).2

def Succeeds : Call α → Prop
  | .read io _ _ _ => ∀ first num, 0 ≤ io first num
  | .write ret _ _ _ _ => 0 ≤ ret
  | .ioctl _ ret sizeRet _ => 0 ≤ ret ∧ 0 ≤ sizeRet

theorem Succeeds.storesNoStale {call : Call α} (hok : Succeeds call) (s : State α) :
    StoresNoStale s call := by
  cases call with
  | read io buff start num => trivial
  | write ret stored data start num => exact fun hret => absurd hret (Int.not_lt.mpr hok)
  | ioctl cmd ret sizeRet size => trivial

/-- A read returns what a read of the disk itself returns. -/
def Transparent (s : State α) : Call α → Prop
  | .read io buff start num =>
      let res := diskCacheAccessRead s.disk io start buff num s.cache
      res.1 = 0 ∧ res.2.1 = diskAccessRead s.disk buff 0 start num
  | _ => True

def CallKeepsHits (s : State α) : Call α → Prop
  | .read io buff start num => KeepsHits s.disk io buff start num s.cache
  | _ => True

/-- In every run on a disk that works, every read that keeps the entries it finds
returns what the disk holds, and where all sectors of the disk differ no other
read does. -/
theorem reads_transparent (sectorSize : UInt32) {capacity : Nat} (hcapacity : 0 < capacity)
    (entries : Nat → DiskCacheEntry α) (disk : UInt32 → α) {calls : List (Call α)}
    (hok : ∀ call ∈ calls, Succeeds call) :
    Along (step sectorSize)
      (fun s call => (CallKeepsHits s call → Transparent s call) ∧
        (Function.Injective s.disk → Transparent s call → CallKeepsHits s call))
      (initial capacity entries disk) calls := by
  refine along_of_invariant (P := fun s : State α => Coherent s.disk s.cache)
    (C := fun _ call => Succeeds call)
    (fun s call h hok => coherent_step sectorSize h (hok.storesNoStale s)) ?_
    (coherent_initial hcapacity entries disk)
    (along_of_forall (fun call hcall _ => hok call hcall) _)
  intro s call h hcall
  cases call with
  | read io buff start num =>
      obtain ⟨hret, -, hright, hwrong⟩ := diskCacheAccessRead_spec h hcall buff start num
      exact ⟨fun hkeeps => ⟨hret, hright hkeeps⟩, fun hinj hres => hwrong hinj hres.2⟩
  | write ret stored data start num => exact ⟨fun _ => trivial, fun _ _ => trivial⟩
  | ioctl cmd ret sizeRet size => exact ⟨fun _ => trivial, fun _ _ => trivial⟩

def hitAfterMiss : List (Call Nat) :=
  [.read (fun _ _ => 0) (fun _ => 7) 1 1, .read (fun _ _ => 0) (fun _ => 7) 0 2]

theorem hitAfterMiss_succeeds : ∀ call ∈ hitAfterMiss, Succeeds call := by
  simp [hitAfterMiss, Succeeds]

theorem reads_transparent_hitAfterMiss :
    Along (step 512) Transparent (initial 2 (fun _ => ⟨0, 0⟩) UInt32.toNat) hitAfterMiss := by
  obtain ⟨⟨hfirst, -⟩, ⟨hsecond, -⟩, -⟩ := reads_transparent 512 (show 0 < 2 by decide)
    (fun _ => ⟨0, 0⟩) UInt32.toNat hitAfterMiss_succeeds
  refine ⟨hfirst ?_, hsecond ?_, trivial⟩
  · simp only [CallKeepsHits, KeepsHits]
    decide
  · simp only [CallKeepsHits, KeepsHits]
    decide

def InRange : Call α → Prop
  | .read _ _ start num => start.toNat + num.toNat ≤ 2 ^ 32
  | _ => True

/-- With room for one sector, sector 0 replaces sector 1 before that is copied. -/
theorem evicted_hit_not_transparent :
    ¬ ∀ (capacity : Nat) (entries : Nat → DiskCacheEntry Nat) (disk : UInt32 → Nat)
      (calls : List (Call Nat)), 0 < capacity → (∀ call ∈ calls, Succeeds call) →
      (∀ call ∈ calls, InRange call) →
      Along (step 512) Transparent (initial capacity entries disk) calls := by
  intro h
  obtain ⟨-, ⟨-, hbuff⟩, -⟩ := h 1 (fun _ => ⟨0, 0⟩) UInt32.toNat hitAfterMiss (by decide)
    hitAfterMiss_succeeds (by simp [hitAfterMiss, InRange])
  exact absurd (congrFun hbuff 1) (by decide)

end ZeusLe.DiskCacheTransparency
