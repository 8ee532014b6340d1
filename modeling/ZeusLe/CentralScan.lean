import ZeusLe.MgrCoroutine

/-! Which scan reports `mgr_scan_for_central` takes for those of a central. -/

namespace ZeusLe.CentralScan

open ZeusLe.Protocol
open ZeusLe.Mgr
open ZeusLe.MgrCoroutine

/-- The structure lists 128-bit UUIDs. -/
def ListsUuids (data : ScanData) : Prop :=
  (data.val.type = btDataUuid128Some ∨ data.val.type = btDataUuid128All) ∧
    data.val.data.length % 16 = 0

/-- The UUID of a central is at one of the places for a UUID. -/
def HasCentral (data : ScanData) : Prop :=
  ListsUuids data ∧ ∃ k, (data.val.data.drop (16 * k)).take 16 = zeusBtUuidVal

def BeginsWithCentral (data : ScanData) : Prop :=
  ListsUuids data ∧ data.val.data.take 16 = zeusBtUuidVal

theorem BeginsWithCentral.hasCentral {data : ScanData} (h : BeginsWithCentral data) :
    HasCentral data :=
  ⟨h.1, 0, h.2⟩

theorem toNat_dataLen (data : ScanData) : data.dataLen.toNat = data.val.data.length := by
  simp only [ScanData.dataLen, UInt8.toNat_ofNat']
  exact Nat.mod_eq_of_lt data.property

theorem dataLen_mod_iff (data : ScanData) :
    data.dataLen % 16 = 0 ↔ data.val.data.length % 16 = 0 := by
  rw [← UInt8.toNat_inj, UInt8.toNat_mod, toNat_dataLen]
  rfl

theorem matchLoop_iff (data : List UInt8) (dataLen : UInt8) (hlen : dataLen % 16 = 0) (i : UInt8)
    (hi : i % 16 = 0) :
    matchLoop data dataLen hlen i hi = true ↔ i < dataLen ∧ data.take 16 = zeusBtUuidVal := by
  induction i, hi using matchLoop.induct data dataLen hlen with
  | case1 i hi hlt hne ih =>
      rw [matchLoop, dif_pos hlt, if_pos hne, ih]
      exact iff_of_false (fun h => hne h.2) fun h => hne h.2
  | case2 i hi hlt heq =>
      rw [matchLoop, dif_pos hlt, if_neg heq]
      exact iff_of_true rfl ⟨hlt, not_not.mp heq⟩
  | case3 i hi hge =>
      rw [matchLoop, dif_neg hge]
      exact iff_of_false Bool.false_ne_true fun h => hge h.1

theorem matchCentralUuid_eq (data : ScanData) (matched : Bool)
    [Decidable (BeginsWithCentral data)] :
    matchCentralUuid data matched =
      if BeginsWithCentral data then (false, true) else (true, matched) := by
  simp only [matchCentralUuid]
  split
  · rename_i htype
    split
    · rename_i hlen
      have hlists : ListsUuids data := ⟨htype, (dataLen_mod_iff data).mp hlen⟩
      have hbegins : matchLoop data.val.data data.dataLen hlen 0 rfl = true ↔
          BeginsWithCentral data := by
        rw [matchLoop_iff]
        constructor
        · rintro ⟨-, huuid⟩
          exact ⟨hlists, huuid⟩
        · rintro ⟨-, huuid⟩
          refine ⟨?_, huuid⟩
          -- the UUID leaves no room for an empty structure
          rw [UInt8.lt_iff_toNat_lt, toNat_dataLen]
          apply List.length_pos_iff.mpr
          intro hempty
          rw [hempty] at huuid
          cases huuid
      simp only [hbegins]
    · rename_i hlen
      rw [if_neg fun h => hlen ((dataLen_mod_iff data).mpr h.1.2)]
  · rename_i htype
    rw [if_neg fun h => htype h.1.1]

theorem btDataParse_iff (structures : List ScanData) :
    btDataParse structures matchCentralUuid false = true ↔
      ∃ data ∈ structures, BeginsWithCentral data := by
  classical
  induction structures with
  | nil => simp [btDataParse]
  | cons data rest ih =>
      simp only [btDataParse, matchCentralUuid_eq, List.mem_cons, exists_eq_or_imp]
      rcases Classical.em (BeginsWithCentral data) with hbegins | hother
      · simp [hbegins]
      · simp [hother, ih]

/-- `mgr_scan_for_central`, waiting for a report, ends with one exactly when it
is connectable and a structure begins with the UUID. -/
theorem mgrScanForCentral_iff {s : Manager} (hwaits : s.pairCallee = some .scan) {info : ScanInfo}
    (hinfo : s.scanRecv = some info) :
    (mgrScanForCentral false s).1 = some (.ok info) ↔
      info.connectable = true ∧ ∃ data ∈ info.data, BeginsWithCentral data := by
  have haccepts : acceptsCentral btDataParse info.connectable info.data = true ↔
      info.connectable = true ∧ ∃ data ∈ info.data, BeginsWithCentral data := by
    rw [← btDataParse_iff]
    rcases hconnectable : info.connectable with _ | _ <;> simp [acceptsCentral]
  rw [← haccepts]
  rcases hacc : acceptsCentral btDataParse info.connectable info.data with _ | _ <;>
    simp [mgrScanForCentral, scan, scanLoop, hwaits, hinfo, hacc]

/-- What `bt_data_parse` is documented to do: it calls `func` for each of the
structures in the data, until `func` returns false. -/
def CallsForEach {Buf : Type} (parse : Buf → (ScanData → Bool → Bool × Bool) → Bool → Bool)
    (buf : Buf) (structures : List ScanData) : Prop :=
  ∀ func userData, parse buf func userData = btDataParse structures func userData

/-- A connectable report is accepted for the UUID of a central at any place
exactly when a structure begins with the UUID if any contains it. -/
theorem acceptsCentral_iff {Buf : Type}
    (parse : Buf → (ScanData → Bool → Bool × Bool) → Bool → Bool) (buf : Buf)
    (structures : List ScanData) (hparse : CallsForEach parse buf structures) :
    (acceptsCentral parse true buf = true ↔ ∃ data ∈ structures, HasCentral data) ↔
      ((∃ data ∈ structures, HasCentral data) → ∃ data ∈ structures, BeginsWithCentral data) := by
  have haccepts : acceptsCentral parse true buf = true ↔
      ∃ data ∈ structures, BeginsWithCentral data := by
    rw [← btDataParse_iff, ← hparse]
    rfl
  rw [haccepts]
  constructor
  · intro hiff
    exact hiff.mpr
  · intro hbegins
    refine ⟨?_, hbegins⟩
    rintro ⟨data, hmem, hdata⟩
    exact ⟨data, hmem, hdata.hasCentral⟩

/-- The structures in a buffer: a byte for the length, one for the type, and the
data. -/
def structuresIn : Nat → List UInt8 → List ScanData
  | fuel + 1, len :: type :: rest =>
      if len = 0 ∨ rest.length + 1 < len.toNat then []
      else
        ⟨⟨type, rest.take (len.toNat - 1)⟩, by
          have hlen := len.toNat_lt
          have htake := List.length_take_le (len.toNat - 1) rest
          simp only
          omega⟩ :: structuresIn fuel (rest.drop (len.toNat - 1))
  | _, _ => []

def parseBytes (buf : List UInt8) (func : ScanData → Bool → Bool × Bool) (userData : Bool) : Bool :=
  btDataParse (structuresIn buf.length buf) func userData

/-- The flags, and one UUID. -/
theorem acceptsCentral_oneUuid :
    acceptsCentral parseBytes true ([2, 1, 6, 17, 6] ++ zeusBtUuidVal) = true ↔
      ∃ data ∈ structuresIn 21 ([2, 1, 6, 17, 6] ++ zeusBtUuidVal), HasCentral data := by
  refine (acceptsCentral_iff parseBytes ([2, 1, 6, 17, 6] ++ zeusBtUuidVal)
    (structuresIn 21 ([2, 1, 6, 17, 6] ++ zeusBtUuidVal)) fun _ _ => rfl).mpr fun _ => ?_
  exact ⟨⟨⟨6, zeusBtUuidVal⟩, by decide⟩, by decide, ⟨Or.inl rfl, rfl⟩, rfl⟩

/-- Two UUIDs in one structure, the second one that of a central. -/
def twoUuids : ScanData :=
  ⟨⟨btDataUuid128All, List.replicate 16 0 ++ zeusBtUuidVal⟩, by decide⟩

theorem not_acceptsCentral_twoUuids :
    ¬ ∀ (structures : List ScanData), acceptsCentral btDataParse true structures = true ↔
      ∃ data ∈ structures, HasCentral data := by
  intro h
  have hhas : HasCentral twoUuids := ⟨⟨Or.inr rfl, rfl⟩, 1, rfl⟩
  have haccepted := (h [twoUuids]).mpr ⟨twoUuids, List.mem_singleton_self _, hhas⟩
  obtain ⟨data, hmem, hbegins⟩ := (btDataParse_iff [twoUuids]).mp haccepted
  rw [List.mem_singleton.mp hmem] at hbegins
  exact absurd hbegins.2 (by decide)

end ZeusLe.CentralScan
