import ZeusLe.Library.Run
import ZeusLe.FtpLine

/-! Which segmentations of the control connection leave its lines intact. -/

namespace ZeusLe.FtpFraming

open ZeusLe.Library.Run
open ZeusLe.Library.Segments
open ZeusLe.FtpLine

def HasCrlf : Bytes → Prop
  | [] => False
  | b :: bytes => (b = cr ∧ bytes.head? = some lf) ∨ HasCrlf bytes

theorem hasCrlf_append (xs ys : Bytes) :
    HasCrlf (xs ++ ys) ↔
      HasCrlf xs ∨ HasCrlf ys ∨ (xs.getLast? = some cr ∧ ys.head? = some lf) := by
  induction xs with
  | nil => simp [HasCrlf]
  | cons x xs ih =>
      cases xs with
      | nil =>
          simp only [List.cons_append, List.nil_append, HasCrlf, List.head?_nil, reduceCtorEq,
            and_false, or_false, false_or, List.getLast?_singleton, Option.some.injEq]
          exact or_comm
      | cons x' xs =>
          rw [List.cons_append, HasCrlf, ih]
          simp only [HasCrlf, List.cons_append, List.head?_cons, List.getLast?_cons_cons]
          tauto

theorem not_hasCrlf_left {xs ys : Bytes} (h : ¬ HasCrlf (xs ++ ys)) : ¬ HasCrlf xs :=
  fun hxs => h ((hasCrlf_append xs ys).mpr (Or.inl hxs))

theorem not_hasCrlf_right {xs ys : Bytes} (h : ¬ HasCrlf (xs ++ ys)) : ¬ HasCrlf ys :=
  fun hys => h ((hasCrlf_append xs ys).mpr (Or.inr (Or.inl hys)))

theorem crlfIndex_cons {b : UInt8} {bytes : Bytes} (hb : b ≠ 0)
    (hcrlf : ¬ (b = cr ∧ bytes.head? = some lf)) :
    crlfIndex (b :: bytes) = (crlfIndex bytes).map (· + 1) := by
  rw [crlfIndex, if_neg hb, if_neg hcrlf]

theorem crlfIndex_none {xs : Bytes} (hnul : 0 ∉ xs) (hcrlf : ¬ HasCrlf xs) (ys : Bytes) :
    crlfIndex (xs ++ 0 :: ys) = none := by
  induction xs with
  | nil => simp [crlfIndex]
  | cons x xs ih =>
      simp only [List.mem_cons, not_or] at hnul
      simp only [HasCrlf, not_or] at hcrlf
      have hhead : ¬ (x = cr ∧ (xs ++ 0 :: ys).head? = some lf) := by
        rintro ⟨hx, hlf⟩
        cases xs with
        | nil => exact absurd (Option.some.inj hlf) (by decide)
        | cons x' xs => exact hcrlf.1 ⟨hx, hlf⟩
      rw [List.cons_append, crlfIndex_cons (Ne.symm hnul.1) hhead, ih hnul.2 hcrlf.2]
      rfl

theorem crlfIndex_line {line : Bytes} (hnul : 0 ∉ line) (hcrlf : ¬ HasCrlf (line ++ [cr]))
    (ys : Bytes) : crlfIndex (line ++ cr :: lf :: ys) = some line.length := by
  induction line with
  | nil => simp [crlfIndex, cr, lf]
  | cons x line ih =>
      simp only [List.mem_cons, not_or] at hnul
      simp only [List.cons_append, HasCrlf, not_or] at hcrlf
      have hhead : ¬ (x = cr ∧ (line ++ cr :: lf :: ys).head? = some lf) := by
        rintro ⟨hx, hlf⟩
        cases line with
        | nil => exact absurd (Option.some.inj hlf) (by decide)
        | cons x' line => exact hcrlf.1 ⟨hx, hlf⟩
      rw [List.cons_append, crlfIndex_cons (Ne.symm hnul.1) hhead, ih hnul.2 hcrlf.2]
      rfl

/-- What the buffer held before, from the place on where `bytes` end, goes on
after them with the LF of a line end. -/
def Joined (stale bytes : Bytes) : Prop :=
  bytes.getLast? = some cr ∧ stale[bytes.length]? = some lf

/-- The old contents of the buffer: zeros, or a part of the line that was too
long. -/
def Stale (stale : Bytes) : Prop :=
  (∀ b ∈ stale, b = 0) ∨ (0 ∉ stale ∧ ¬ HasCrlf stale)

theorem head?_drop_eq (stale : Bytes) (k : Nat) : (stale.drop k).head? = stale[k]? := by
  rw [List.head?_drop]

theorem crlfIndex_eq_none_iff {stale bytes : Bytes} (hstale : Stale stale) (hnul : 0 ∉ bytes)
    (hcrlf : ¬ HasCrlf bytes) :
    crlfIndex (bytes ++ stale.drop bytes.length ++ [0]) = none ↔ ¬ Joined stale bytes := by
  constructor
  · rintro hnone ⟨hlast, hlf⟩
    obtain ⟨start, rfl⟩ : ∃ start, bytes = start ++ [cr] :=
      ⟨_, (List.dropLast_append_getLast? _ hlast).symm⟩
    rw [← head?_drop_eq] at hlf
    obtain ⟨rest, hrest⟩ : ∃ rest, stale.drop (start ++ [cr]).length = lf :: rest :=
      ⟨_, (List.cons_head?_tail hlf).symm⟩
    rw [hrest, List.append_assoc, List.append_assoc, List.singleton_append, List.cons_append,
      crlfIndex_line (fun h => hnul (List.mem_append_left _ h)) hcrlf] at hnone
    cases hnone
  · intro hjoined
    rcases hstale with hzero | ⟨hfull, hold⟩
    · rcases hdrop : stale.drop bytes.length with _ | ⟨b, rest⟩
      · rw [List.append_nil]
        exact crlfIndex_none hnul hcrlf []
      · have hb : b = 0 := hzero b (List.mem_of_mem_drop (hdrop ▸ List.mem_cons_self))
        rw [hb, List.append_assoc, List.cons_append]
        exact crlfIndex_none hnul hcrlf _
    · apply crlfIndex_none
      · intro h
        rcases List.mem_append.mp h with h | h
        · exact hnul h
        · exact hfull (List.mem_of_mem_drop h)
      · rw [hasCrlf_append]
        rintro (h | h | ⟨hlast, hhead⟩)
        · exact hcrlf h
        · rw [← List.take_append_drop bytes.length stale] at hold
          exact not_hasCrlf_right hold h
        · exact hjoined ⟨hlast, (head?_drop_eq stale _).symm.trans hhead⟩

/-- Before a round of the loop: the `current` bytes of the line stand at the
beginning of the buffer, and what is received goes over the old contents. -/
structure Filling (bufferLen : Nat) (buffer current stale : Bytes) : Prop where
  room : current.length < bufferLen - 1
  length : stale.length = bufferLen - 1
  store_eq : ∀ bytes, bytes ≠ [] → (current ++ bytes).length ≤ bufferLen - 1 →
    store buffer current.length bytes =
      (current ++ bytes) ++ stale.drop (current ++ bytes).length ++ [0]

/-- The CR at the end of a full buffer is kept. -/
def carried (bytes : Bytes) : Bytes :=
  if bytes.getLast? = some cr then [cr] else []

theorem store_append (xs ys bytes : Bytes) :
    store (xs ++ ys) xs.length bytes = xs ++ bytes ++ ys.drop bytes.length := by
  simp [store]

theorem filling_first {bufferLen : Nat} (hlen : 1 < bufferLen) :
    Filling bufferLen (List.replicate bufferLen 0) [] (List.replicate (bufferLen - 1) 0) := by
  refine ⟨by simp only [List.length_nil]; omega, List.length_replicate, ?_⟩
  intro bytes _ hle
  rw [List.nil_append] at hle
  rw [List.length_nil, store, List.take_zero, List.nil_append, List.drop_replicate,
    List.drop_replicate, List.append_assoc, ← List.replicate_succ']
  congr 2
  omega

theorem Filling.more {bufferLen : Nat} {buffer current stale bytes : Bytes}
    (h : Filling bufferLen buffer current stale) (hne : bytes ≠ [])
    (hroom : (current ++ bytes).length < bufferLen - 1) :
    Filling bufferLen (store buffer current.length bytes) (current ++ bytes) stale := by
  refine ⟨hroom, h.length, ?_⟩
  intro next hnext hle
  have hlen := h.length
  rw [h.store_eq bytes hne (Nat.le_of_lt hroom), List.append_assoc, store_append,
    List.drop_append_of_le_length, List.drop_drop, ← List.length_append, ← List.append_assoc]
  rw [List.length_drop, hlen]
  rw [List.length_append] at hle
  omega

theorem filling_full {bufferLen : Nat} (hlen : 2 < bufferLen) {full : Bytes}
    (hfull : full.length = bufferLen - 1) :
    Filling bufferLen ((full ++ [0]).set 0 0) [] full ∧
      Filling bufferLen (((full ++ [0]).set 0 cr).set 1 0) [cr] full := by
  obtain ⟨a, b, rest, rfl⟩ : ∃ a b rest, full = a :: b :: rest := by
    rcases full with _ | ⟨a, _ | ⟨b, rest⟩⟩
    · simp only [List.length_nil] at hfull
      omega
    · simp only [List.length_cons, List.length_nil] at hfull
      omega
    · exact ⟨a, b, rest, rfl⟩
  simp only [List.length_cons] at hfull
  constructor
  · refine ⟨by simp only [List.length_nil]; omega, hfull, ?_⟩
    intro bytes hne hle
    obtain ⟨c, bytes, rfl⟩ := List.exists_cons_of_ne_nil hne
    simp only [List.nil_append, List.length_cons] at hle
    simp only [List.cons_append, List.set_cons_zero, List.length_nil, store, List.take_zero,
      List.nil_append, Nat.zero_add, List.length_cons, List.drop_succ_cons]
    have hdrop : (b :: (rest ++ [0])).drop bytes.length = (b :: rest).drop bytes.length ++ [0] := by
      rw [← List.cons_append, List.drop_append_of_le_length]
      simp only [List.length_cons]
      omega
    rw [hdrop, List.append_assoc]
  · refine ⟨by simp only [List.length_cons, List.length_nil]; omega, hfull, ?_⟩
    intro bytes hne hle
    obtain ⟨c, bytes, rfl⟩ := List.exists_cons_of_ne_nil hne
    simp only [List.cons_append, List.nil_append, List.length_cons] at hle
    simp only [List.cons_append, List.set_cons_zero, List.set_cons_succ, List.length_cons,
      List.length_nil, store, Nat.zero_add, List.take_succ_cons, List.take_zero, List.nil_append,
      List.drop_succ_cons, Nat.add_comm 1]
    rw [List.drop_append_of_le_length, List.append_assoc]
    omega

theorem getLast?_append_getD {bytes : Bytes} (hne : bytes ≠ []) (ys : Bytes) :
    (bytes ++ ys).getD (bytes.length - 1) 0 = cr ↔ bytes.getLast? = some cr := by
  have hlt : bytes.length - 1 < bytes.length :=
    Nat.sub_lt (List.length_pos_of_ne_nil hne) Nat.one_pos
  rw [List.getD_eq_getElem?_getD, List.getElem?_append_left hlt, List.getLast?_eq_getElem?]
  rw [List.getElem?_eq_getElem hlt]
  simp

section

variable {bufferLen fuel : Nat} {buffer current stale bytes : Bytes} {overflow : Bool}
  {segs rest : List Bytes}

theorem readLoop_closed (total : Nat) (hrecv : recv (bufferLen - total - 1) segs = ([], rest)) :
    readLoop bufferLen (fuel + 1) buffer total overflow segs = ⟨-econnreset, buffer, rest⟩ := by
  simp only [readLoop, hrecv, if_true]

theorem readLoop_found {total p : Nat} (hrecv : recv (bufferLen - total - 1) segs = (bytes, rest))
    (hne : bytes ≠ []) (hp : crlfIndex (store buffer total bytes) = some p) :
    readLoop bufferLen (fuel + 1) buffer total overflow segs =
      if overflow then ⟨-eoverflow, store buffer total bytes, rest⟩
      else ⟨(total + bytes.length : Nat), (store buffer total bytes).set p 0, rest⟩ := by
  simp only [readLoop, hrecv, if_neg hne, hp]

theorem readLoop_found_segs {total p : Nat}
    (hrecv : recv (bufferLen - total - 1) segs = (bytes, rest)) (hne : bytes ≠ [])
    (hp : crlfIndex (store buffer total bytes) = some p) :
    (readLoop bufferLen (fuel + 1) buffer total overflow segs).segs = rest := by
  rw [readLoop_found hrecv hne hp]
  split <;> rfl

theorem readLoop_found_ret {total p : Nat}
    (hrecv : recv (bufferLen - total - 1) segs = (bytes, rest)) (hne : bytes ≠ [])
    (hp : crlfIndex (store buffer total bytes) = some p) :
    (readLoop bufferLen (fuel + 1) buffer total overflow segs).ret ≠ -econnreset := by
  rw [readLoop_found hrecv hne hp]
  split
  · change -eoverflow ≠ -econnreset
    decide
  · intro h
    have hnat : 0 ≤ ((total + bytes.length : Nat) : Int) := Int.natCast_nonneg _
    simp only [econnreset] at h
    omega

theorem Filling.not_joined (h : Filling bufferLen buffer current stale)
    (hfull : (current ++ bytes).length = bufferLen - 1) : ¬ Joined stale (current ++ bytes) := by
  rintro ⟨-, hlf⟩
  rw [hfull, List.getElem?_eq_none (Nat.le_of_eq h.length)] at hlf
  cases hlf

variable (fuel overflow) in
theorem readLoop_next (hlen : 2 < bufferLen) (hfill : Filling bufferLen buffer current stale)
    (hrecv : recv (bufferLen - current.length - 1) segs = (bytes, rest)) (hne : bytes ≠ [])
    (hnone : crlfIndex (store buffer current.length bytes) = none) :
    ((current ++ bytes).length < bufferLen - 1 →
        ∃ next, Filling bufferLen next (current ++ bytes) stale ∧
          readLoop bufferLen (fuel + 1) buffer current.length overflow segs =
            readLoop bufferLen fuel next (current ++ bytes).length overflow rest) ∧
      ((current ++ bytes).length = bufferLen - 1 →
        ∃ next, Filling bufferLen next (carried (current ++ bytes)) (current ++ bytes) ∧
          readLoop bufferLen (fuel + 1) buffer current.length overflow segs =
            readLoop bufferLen fuel next (carried (current ++ bytes)).length true rest) := by
  constructor
  · intro hroom
    refine ⟨_, hfill.more hne hroom, ?_⟩
    rw [List.length_append] at hroom
    simp only [readLoop, hrecv, if_neg hne, hnone, if_neg (Nat.ne_of_lt hroom), List.length_append]
  · intro hfull
    have hbuffer : store buffer current.length bytes = (current ++ bytes) ++ [0] := by
      rw [hfill.store_eq bytes hne (Nat.le_of_eq hfull), List.drop_eq_nil_of_le, List.append_nil]
      exact Nat.le_of_eq (hfill.length.trans hfull.symm)
    rw [hbuffer] at hnone
    obtain ⟨hstart, hkept⟩ := filling_full hlen hfull
    have hlast := getLast?_append_getD (List.append_ne_nil_of_right_ne_nil current hne) [0]
    rw [List.length_append] at hlast
    have hfull' := hfull
    rw [List.length_append] at hfull'
    simp only [readLoop, hrecv, if_neg hne, hnone, if_pos hfull', hbuffer, hlast, carried]
    split
    · exact ⟨_, hkept, rfl⟩
    · exact ⟨_, hstart, rfl⟩

end

/-- No call of `recv` gets bytes behind the end of the line, which is `n` bytes
away, or joins with old bytes of the buffer to a line end. -/
inductive Clean (bufferLen : Nat) : Bytes → Bytes → Nat → List Bytes → Prop where
  | closed {stale current n segs rest} :
      recv (bufferLen - current.length - 1) segs = ([], rest) →
      Clean bufferLen stale current n segs
  | ended {stale current n segs bytes rest} :
      recv (bufferLen - current.length - 1) segs = (bytes, rest) → bytes.length = n →
      Clean bufferLen stale current n segs
  | more {stale current n segs bytes rest} :
      recv (bufferLen - current.length - 1) segs = (bytes, rest) → bytes.length < n →
      (current ++ bytes).length < bufferLen - 1 → ¬ Joined stale (current ++ bytes) →
      Clean bufferLen stale (current ++ bytes) (n - bytes.length) rest →
      Clean bufferLen stale current n segs
  | full {stale current n segs bytes rest} :
      recv (bufferLen - current.length - 1) segs = (bytes, rest) → bytes.length < n →
      (current ++ bytes).length = bufferLen - 1 →
      Clean bufferLen (current ++ bytes) (carried (current ++ bytes)) (n - bytes.length) rest →
      Clean bufferLen stale current n segs

section

variable {bufferLen n : Nat} {stale current bytes : Bytes} {segs rest : List Bytes}

theorem clean_iff_of_room (hrecv : recv (bufferLen - current.length - 1) segs = (bytes, rest))
    (hne : bytes ≠ []) (hlt : bytes.length < n) (hroom : (current ++ bytes).length < bufferLen - 1) :
    Clean bufferLen stale current n segs ↔
      ¬ Joined stale (current ++ bytes) ∧
        Clean bufferLen stale (current ++ bytes) (n - bytes.length) rest := by
  constructor
  · intro h
    cases h with
    | closed h => exact absurd (Prod.mk.inj (hrecv.symm.trans h)).1 hne
    | ended h heq =>
        obtain ⟨rfl, rfl⟩ := Prod.mk.inj (hrecv.symm.trans h)
        omega
    | more h _ _ hjoined hclean =>
        obtain ⟨rfl, rfl⟩ := Prod.mk.inj (hrecv.symm.trans h)
        exact ⟨hjoined, hclean⟩
    | full h _ hfull _ =>
        obtain ⟨rfl, rfl⟩ := Prod.mk.inj (hrecv.symm.trans h)
        omega
  · rintro ⟨hjoined, hclean⟩
    exact .more hrecv hlt hroom hjoined hclean

theorem clean_iff_of_full (hrecv : recv (bufferLen - current.length - 1) segs = (bytes, rest))
    (hne : bytes ≠ []) (hlt : bytes.length < n) (hfull : (current ++ bytes).length = bufferLen - 1) :
    Clean bufferLen stale current n segs ↔
      Clean bufferLen (current ++ bytes) (carried (current ++ bytes)) (n - bytes.length) rest := by
  constructor
  · intro h
    cases h with
    | closed h => exact absurd (Prod.mk.inj (hrecv.symm.trans h)).1 hne
    | ended h heq =>
        obtain ⟨rfl, rfl⟩ := Prod.mk.inj (hrecv.symm.trans h)
        omega
    | more h _ hroom _ _ =>
        obtain ⟨rfl, rfl⟩ := Prod.mk.inj (hrecv.symm.trans h)
        omega
    | full h _ _ hclean =>
        obtain ⟨rfl, rfl⟩ := Prod.mk.inj (hrecv.symm.trans h)
        exact hclean
  · exact .full hrecv hlt hfull

theorem not_clean_of_gt (hrecv : recv (bufferLen - current.length - 1) segs = (bytes, rest))
    (hne : bytes ≠ []) (hgt : n < bytes.length) : ¬ Clean bufferLen stale current n segs := by
  intro h
  cases h with
  | closed h => exact hne (Prod.mk.inj (hrecv.symm.trans h)).1
  | ended h heq =>
      obtain ⟨rfl, rfl⟩ := Prod.mk.inj (hrecv.symm.trans h)
      omega
  | more h hlt _ _ _ =>
      obtain ⟨rfl, rfl⟩ := Prod.mk.inj (hrecv.symm.trans h)
      omega
  | full h hlt _ _ =>
      obtain ⟨rfl, rfl⟩ := Prod.mk.inj (hrecv.symm.trans h)
      omega

end

/-- What a round that goes on leaves for the next one: its bytes, or the beginning
of a buffer that is read over. -/
inductive Kept (bufferLen : Nat) (stale held : Bytes) (overflow : Bool) :
    Bytes → Bytes → Bool → Prop where
  | room : held.length < bufferLen - 1 → Kept bufferLen stale held overflow held stale overflow
  | full : held.length = bufferLen - 1 →
      Kept bufferLen stale held overflow (carried held) held true

section

variable {bufferLen n : Nat} {buffer current stale bytes : Bytes} {segs rest : List Bytes}

theorem readLoop_round (fuel : Nat) (overflow : Bool) (hlen : 2 < bufferLen)
    (hfill : Filling bufferLen buffer current stale)
    (hrecv : recv (bufferLen - current.length - 1) segs = (bytes, rest)) (hne : bytes ≠ [])
    (hlt : bytes.length < n) (hle : (current ++ bytes).length ≤ bufferLen - 1)
    (hindex : crlfIndex (store buffer current.length bytes) = none ↔
      ¬ Joined stale (current ++ bytes)) :
    (¬ Clean bufferLen stale current n segs ∧
        ∃ p, crlfIndex (store buffer current.length bytes) = some p) ∨
      ∃ next current' stale' overflow',
        Kept bufferLen stale (current ++ bytes) overflow current' stale' overflow' ∧
        Filling bufferLen next current' stale' ∧
        readLoop bufferLen (fuel + 1) buffer current.length overflow segs =
          readLoop bufferLen fuel next current'.length overflow' rest ∧
        (Clean bufferLen stale current n segs ↔
          Clean bufferLen stale' current' (n - bytes.length) rest) := by
  rcases Nat.lt_or_eq_of_le hle with hroom | hfull
  · have hclean : Clean bufferLen stale current n segs ↔ ¬ Joined stale (current ++ bytes) ∧
        Clean bufferLen stale (current ++ bytes) (n - bytes.length) rest :=
      clean_iff_of_room hrecv hne hlt hroom
    rcases Classical.em (Joined stale (current ++ bytes)) with hjoined | hjoined
    · -- an old LF ends the line too early
      refine Or.inl ⟨fun h => (hclean.mp h).1 hjoined, ?_⟩
      exact Option.ne_none_iff_exists'.mp fun hnone => hindex.mp hnone hjoined
    · obtain ⟨next, hnext, hloop⟩ :=
        (readLoop_next fuel overflow hlen hfill hrecv hne (hindex.mpr hjoined)).1 hroom
      refine Or.inr ⟨next, _, _, _, .room hroom, hnext, hloop, hclean.trans ?_⟩
      exact and_iff_right hjoined
  · have hjoined := hfill.not_joined hfull
    obtain ⟨next, hnext, hloop⟩ :=
      (readLoop_next fuel overflow hlen hfill hrecv hne (hindex.mpr hjoined)).2 hfull
    exact Or.inr ⟨next, _, _, _, .full hfull, hnext, hloop,
      clean_iff_of_full hrecv hne hlt hfull⟩

end

theorem line_of_append {xs ys line : Bytes} (h : xs ++ ys = line ++ [cr, lf])
    (hlen : 2 ≤ ys.length) : ∃ tail, line = xs ++ tail ∧ ys = tail ++ [cr, lf] := by
  rcases List.append_eq_append_iff.mp h with ⟨tail, hline, hys⟩ | ⟨more, hxs, hys⟩
  · exact ⟨tail, hline, hys⟩
  · have hlength := congrArg List.length hys
    simp only [List.length_cons, List.length_nil, List.length_append] at hlength
    obtain rfl : more = [] := List.length_eq_zero_iff.mp (by omega)
    exact ⟨[], by simpa using hxs.symm, by simpa using hys.symm⟩

theorem not_hasCrlf_of_append {xs ys line : Bytes} (h : xs ++ ys = line ++ [cr, lf])
    (hne : ys ≠ []) (hline : ¬ HasCrlf (line ++ [cr])) : ¬ HasCrlf xs := by
  have hjoined : xs ++ ys.dropLast = line ++ [cr] := by
    have hdrop := congrArg List.dropLast h
    rw [List.dropLast_append_of_ne_nil hne] at hdrop
    rw [hdrop]
    simp
  exact not_hasCrlf_left (hjoined ▸ hline)

theorem carried_append {xs ys line : Bytes} (h : xs ++ ys = line ++ [cr, lf]) (hne : ys ≠ [])
    (hline : ¬ HasCrlf (line ++ [cr])) :
    ∃ tail, carried xs ++ ys = tail ++ [cr, lf] ∧ ¬ HasCrlf (tail ++ [cr]) := by
  have hpos := List.length_pos_of_ne_nil hne
  simp only [carried]
  split
  · rename_i hlast
    obtain ⟨start, rfl⟩ : ∃ start, xs = start ++ [cr] :=
      ⟨_, (List.dropLast_append_getLast? _ hlast).symm⟩
    rw [List.append_assoc] at h
    obtain ⟨tail, rfl, htail⟩ := line_of_append h (by simp; omega)
    refine ⟨tail, htail, ?_⟩
    rw [List.append_assoc] at hline
    exact not_hasCrlf_right hline
  · rename_i hlast
    have htwo : 2 ≤ ys.length := by
      rcases ys with _ | ⟨y, _ | ⟨y', ys⟩⟩
      · exact absurd rfl hne
      · exfalso
        have hdrop : xs = line ++ [cr] := by
          have := congrArg List.dropLast h
          simpa using this
        exact hlast (by rw [hdrop]; simp)
      · simp
    obtain ⟨tail, rfl, htail⟩ := line_of_append h htwo
    refine ⟨tail, by simpa using htail, ?_⟩
    rw [List.append_assoc] at hline
    exact not_hasCrlf_right hline

/-- What a call returns that reads a line: the line where it fits. -/
def LineResult (bufferLen : Nat) (overflow : Bool) (line stale : Bytes) (r : LineRead) : Prop :=
  if overflow ∨ bufferLen < line.length + 3 then r.ret = -eoverflow
  else r.ret = (line.length + 2 : Nat) ∧
    r.buffer = line ++ 0 :: lf :: (stale.drop (line.length + 2) ++ [0])

/-- Before a round of the loop in a line of which `unread` is still to come. -/
structure InLine (bufferLen : Nat) (buffer current stale line unread after : Bytes)
    (segs : List Bytes) : Prop where
  fill : Filling bufferLen buffer current stale
  old : Stale stale
  stream : segs.flatten = unread ++ after
  line_eq : current ++ unread = line ++ [cr, lf]
  line_end : ¬ HasCrlf (line ++ [cr])
  unread_ne : unread ≠ []
  nul : 0 ∉ current ++ segs.flatten

section

variable {bufferLen : Nat} {buffer current stale line unread after bytes : Bytes}
  {segs rest : List Bytes}

theorem InLine.split (h : InLine bufferLen buffer current stale line unread after segs)
    (hrecv : recv (bufferLen - current.length - 1) segs = (bytes, rest)) :
    bytes ≠ [] ∧ bytes ++ rest.flatten = unread ++ after ∧
      (current ++ bytes).length ≤ bufferLen - 1 ∧ 0 ∉ current ++ bytes := by
  have hroom := h.fill.room
  have happend := recv_append (bufferLen - current.length - 1) segs
  have hle := recv_length_le (bufferLen - current.length - 1) segs
  rw [hrecv] at happend hle
  refine ⟨?_, happend.trans h.stream, ?_, ?_⟩
  · rintro rfl
    have hnil := recv_eq_nil (by omega) (congrArg Prod.fst hrecv)
    rw [h.stream] at hnil
    exact h.unread_ne (List.append_eq_nil_iff.mp hnil).1
  · simp only [List.length_append] at hle ⊢
    omega
  · have hnul := h.nul
    rw [← happend, ← List.append_assoc] at hnul
    exact fun hmem => hnul (List.mem_append_left _ hmem)

theorem InLine.crlfIndex_end (h : InLine bufferLen buffer current stale line unread after segs)
    (more : Bytes) (hle : (current ++ (unread ++ more)).length ≤ bufferLen - 1) :
    crlfIndex (store buffer current.length (unread ++ more)) = some line.length := by
  have hne : unread ++ more ≠ [] := List.append_ne_nil_of_left_ne_nil h.unread_ne more
  have hnul : 0 ∉ line := by
    intro hmem
    have hcurrent : (0 : UInt8) ∈ current ++ unread := by
      rw [h.line_eq]
      exact List.mem_append_left _ hmem
    apply h.nul
    rw [h.stream, ← List.append_assoc]
    exact List.mem_append_left _ hcurrent
  rw [h.fill.store_eq _ hne hle, ← List.append_assoc current, h.line_eq, List.append_assoc,
    List.append_assoc, List.append_assoc]
  exact crlfIndex_line hnul h.line_end _

theorem InLine.ended (h : InLine bufferLen buffer current stale line unread after segs)
    (hrecv : recv (bufferLen - current.length - 1) segs = (unread, rest)) (fuel : Nat)
    (overflow : Bool) :
    (readLoop bufferLen (fuel + 1) buffer current.length overflow segs).segs = rest ∧
      LineResult bufferLen overflow line stale
        (readLoop bufferLen (fuel + 1) buffer current.length overflow segs) := by
  obtain ⟨hne, -, hle, -⟩ := h.split hrecv
  have hindex := h.crlfIndex_end [] (by rwa [List.append_nil])
  rw [List.append_nil] at hindex
  have hlength : current.length + unread.length = line.length + 2 := by
    rw [← List.length_append, h.line_eq, List.length_append]
    rfl
  have hfits : ¬ bufferLen < line.length + 3 := by
    have hroom := h.fill.room
    rw [List.length_append] at hle
    omega
  rw [readLoop_found hrecv hne hindex]
  cases overflow with
  | true => exact ⟨rfl, by simp [LineResult]⟩
  | false =>
      refine ⟨rfl, ?_⟩
      simp only [LineResult, Bool.false_eq_true, false_or, if_neg hfits, if_false, hlength,
        true_and]
      rw [h.fill.store_eq _ hne hle, h.line_eq, List.length_append]
      simp

theorem InLine.overshot (h : InLine bufferLen buffer current stale line unread after segs)
    (hrecv : recv (bufferLen - current.length - 1) segs = (bytes, rest))
    (hgt : unread.length < bytes.length) (fuel : Nat) (overflow : Bool) :
    (readLoop bufferLen (fuel + 1) buffer current.length overflow segs).segs = rest := by
  obtain ⟨hne, hsplit, hle, -⟩ := h.split hrecv
  obtain ⟨more, rfl⟩ : ∃ more, bytes = unread ++ more := by
    rcases List.append_eq_append_iff.mp hsplit with ⟨more, hmore, -⟩ | ⟨more, hmore, -⟩
    · have hlength := congrArg List.length hmore
      rw [List.length_append] at hlength
      omega
    · exact ⟨more, hmore⟩
  exact readLoop_found_segs hrecv hne (h.crlfIndex_end _ hle)

theorem InLine.goes_on (h : InLine bufferLen buffer current stale line unread after segs)
    (hrecv : recv (bufferLen - current.length - 1) segs = (bytes, rest))
    (hlt : bytes.length < unread.length) :
    ∃ more, unread = bytes ++ more ∧ more ≠ [] ∧ rest.flatten = more ++ after ∧
      (crlfIndex (store buffer current.length bytes) = none ↔
        ¬ Joined stale (current ++ bytes)) := by
  obtain ⟨hne, hsplit, hle, hnul⟩ := h.split hrecv
  obtain ⟨more, rfl⟩ : ∃ more, unread = bytes ++ more := by
    rcases List.append_eq_append_iff.mp hsplit with ⟨more, hmore, -⟩ | ⟨more, hmore, -⟩
    · exact ⟨more, hmore⟩
    · have hlength := congrArg List.length hmore
      rw [List.length_append] at hlength
      omega
  have hmore : more ≠ [] := by
    rintro rfl
    rw [List.append_nil] at hlt
    exact absurd hlt (Nat.lt_irrefl _)
  have hline := h.line_eq
  rw [← List.append_assoc] at hline
  have hcrlf := not_hasCrlf_of_append hline hmore h.line_end
  have hindex := crlfIndex_eq_none_iff h.old hnul hcrlf
  rw [← h.fill.store_eq bytes hne hle] at hindex
  rw [List.append_assoc] at hsplit
  exact ⟨more, rfl, hmore, List.append_cancel_left hsplit, hindex⟩

theorem InLine.next_room (h : InLine bufferLen buffer current stale line (bytes ++ unread) after segs)
    (hrecv : recv (bufferLen - current.length - 1) segs = (bytes, rest)) (hne : unread ≠ [])
    {next : Bytes} (hfill : Filling bufferLen next (current ++ bytes) stale) :
    InLine bufferLen next (current ++ bytes) stale line unread after rest := by
  obtain ⟨-, hsplit, -, -⟩ := h.split hrecv
  rw [List.append_assoc] at hsplit
  refine ⟨hfill, h.old, List.append_cancel_left hsplit, ?_, h.line_end, hne, ?_⟩
  · rw [List.append_assoc]
    exact h.line_eq
  · have hnul := h.nul
    rw [h.stream, List.append_assoc, ← hsplit, ← List.append_assoc] at hnul
    exact hnul

theorem InLine.next_full (h : InLine bufferLen buffer current stale line (bytes ++ unread) after segs)
    (hrecv : recv (bufferLen - current.length - 1) segs = (bytes, rest)) (hne : unread ≠ [])
    {next : Bytes} (hfill : Filling bufferLen next (carried (current ++ bytes)) (current ++ bytes)) :
    ∃ tail, InLine bufferLen next (carried (current ++ bytes)) (current ++ bytes) tail unread after
      rest := by
  obtain ⟨-, hsplit, -, hnul⟩ := h.split hrecv
  rw [List.append_assoc] at hsplit
  have hline := h.line_eq
  rw [← List.append_assoc] at hline
  obtain ⟨tail, htail, hend⟩ := carried_append hline hne h.line_end
  refine ⟨tail, hfill, Or.inr ⟨hnul, not_hasCrlf_of_append hline hne h.line_end⟩,
    List.append_cancel_left hsplit, htail, hend, hne, ?_⟩
  intro hmem
  rcases List.mem_append.mp hmem with hmem | hmem
  · simp only [carried] at hmem
    split at hmem
    · exact absurd hmem (by decide)
    · cases hmem
  · apply h.nul
    rw [h.stream, List.append_assoc, ← hsplit]
    exact List.mem_append_right _ (List.mem_append_right _ hmem)

theorem InLine.next (h : InLine bufferLen buffer current stale line (bytes ++ unread) after segs)
    (hrecv : recv (bufferLen - current.length - 1) segs = (bytes, rest)) (hne : unread ≠ [])
    {overflow overflow' : Bool} {next current' stale' : Bytes}
    (hkept : Kept bufferLen stale (current ++ bytes) overflow current' stale' overflow')
    (hfill : Filling bufferLen next current' stale') :
    ∃ tail, InLine bufferLen next current' stale' tail unread after rest ∧
      ∀ r, LineResult bufferLen overflow' tail stale' r →
        LineResult bufferLen overflow line stale r := by
  cases hkept with
  | room hroom => exact ⟨line, h.next_room hrecv hne hfill, fun _ hresult => hresult⟩
  | full hfull =>
      obtain ⟨tail, htail⟩ := h.next_full hrecv hne hfill
      refine ⟨tail, htail, ?_⟩
      intro r hresult
      have hover : bufferLen < line.length + 3 := by
        have hlength := congrArg List.length h.line_eq
        simp only [List.length_append, List.length_cons, List.length_nil] at hlength hfull
        have hpos := List.length_pos_of_ne_nil hne
        omega
      simp only [LineResult, true_or, if_true, hover, or_true] at hresult ⊢
      exact hresult

end

theorem readLoop_line {bufferLen : Nat} (hlen : 2 < bufferLen) (fuel : Nat)
    {buffer current stale line unread after : Bytes} {segs : List Bytes} (overflow : Bool)
    (h : InLine bufferLen buffer current stale line unread after segs)
    (hfuel : segs.flatten.length < fuel) :
    (Clean bufferLen stale current unread.length segs →
        (readLoop bufferLen fuel buffer current.length overflow segs).segs.flatten = after ∧
          LineResult bufferLen overflow line stale
            (readLoop bufferLen fuel buffer current.length overflow segs)) ∧
      ((readLoop bufferLen fuel buffer current.length overflow segs).segs.flatten = after →
        Clean bufferLen stale current unread.length segs) := by
  induction fuel generalizing buffer current stale line unread segs overflow with
  | zero => omega
  | succ fuel ih =>
      obtain ⟨bytes, rest, hrecv⟩ :
          ∃ bytes rest, recv (bufferLen - current.length - 1) segs = (bytes, rest) := ⟨_, _, rfl⟩
      obtain ⟨hne, hsplit, hle, -⟩ := h.split hrecv
      have hlengths := congrArg List.length hsplit
      simp only [List.length_append] at hlengths
      rcases Nat.lt_trichotomy bytes.length unread.length with hlt | heq | hgt
      · -- the line goes on
        obtain ⟨more, rfl, hmore, hrest, hindex⟩ := h.goes_on hrecv hlt
        have hfuel' : rest.flatten.length < fuel := by
          have hpos := List.length_pos_of_ne_nil hne
          have hadd := recv_length_add (bufferLen - current.length - 1) segs
          simp only [hrecv] at hadd
          omega
        have hsub : (bytes ++ more).length - bytes.length = more.length := by
          rw [List.length_append]
          omega
        rcases readLoop_round fuel overflow hlen h.fill hrecv hne hlt hle hindex with
          ⟨hunclean, p, hp⟩ | ⟨next, current', stale', overflow', hkept, hfill, hloop, hclean⟩
        · refine ⟨fun hclean => absurd hclean hunclean, ?_⟩
          intro hafter
          rw [readLoop_found_segs hrecv hne hp, hrest] at hafter
          have hlength := congrArg List.length hafter
          rw [List.length_append] at hlength
          have hpos := List.length_pos_of_ne_nil hmore
          omega
        · obtain ⟨tail, hnext, hresult⟩ := h.next hrecv hmore hkept hfill
          obtain ⟨hread, hleft⟩ := ih overflow' hnext hfuel'
          rw [hclean, hsub, hloop]
          exact ⟨fun hrest => ⟨(hread hrest).1, hresult _ (hread hrest).2⟩, hleft⟩
      · -- the line ends here
        obtain ⟨rfl, hrest⟩ := List.append_inj hsplit heq
        obtain ⟨hsegs, hresult⟩ := h.ended hrecv fuel overflow
        rw [hsegs]
        exact ⟨fun _ => ⟨hrest, hresult⟩, fun _ => .ended hrecv rfl⟩
      · -- bytes of the next line are lost
        refine ⟨fun hclean => absurd hclean (not_clean_of_gt hrecv hne hgt), ?_⟩
        intro hafter
        have hlength := congrArg List.length hafter
        rw [h.overshot hrecv hgt] at hlength
        omega

theorem carried_rest {xs ys : Bytes} (hnul : 0 ∉ xs ++ ys) (hcrlf : ¬ HasCrlf (xs ++ ys)) :
    0 ∉ carried xs ++ ys ∧ ¬ HasCrlf (carried xs ++ ys) := by
  simp only [carried]
  split
  · rename_i hlast
    obtain ⟨start, rfl⟩ : ∃ start, xs = start ++ [cr] :=
      ⟨_, (List.dropLast_append_getLast? _ hlast).symm⟩
    rw [List.append_assoc] at hnul hcrlf
    exact ⟨fun hmem => hnul (List.mem_append_right _ hmem), not_hasCrlf_right hcrlf⟩
  · exact ⟨fun hmem => hnul (List.mem_append_right _ hmem), not_hasCrlf_right hcrlf⟩

theorem Kept.without_line {bufferLen : Nat} {stale held current' stale' more : Bytes}
    {overflow overflow' : Bool}
    (hkept : Kept bufferLen stale held overflow current' stale' overflow') (hold : Stale stale)
    (hnul : 0 ∉ held ++ more) (hcrlf : ¬ HasCrlf (held ++ more)) :
    Stale stale' ∧ 0 ∉ current' ++ more ∧ ¬ HasCrlf (current' ++ more) := by
  cases hkept with
  | room hroom => exact ⟨hold, hnul, hcrlf⟩
  | full hfull =>
      have hheld : 0 ∉ held := fun hmem => hnul (List.mem_append_left _ hmem)
      exact ⟨Or.inr ⟨hheld, not_hasCrlf_left hcrlf⟩, carried_rest hnul hcrlf⟩

theorem readLoop_end {bufferLen : Nat} (hlen : 2 < bufferLen) (fuel : Nat)
    {buffer current stale : Bytes} {segs : List Bytes} (overflow : Bool)
    (hfill : Filling bufferLen buffer current stale) (hold : Stale stale)
    (hnul : 0 ∉ current ++ segs.flatten) (hcrlf : ¬ HasCrlf (current ++ segs.flatten))
    (hfuel : segs.flatten.length < fuel) :
    (Clean bufferLen stale current (segs.flatten.length + 1) segs →
        (readLoop bufferLen fuel buffer current.length overflow segs).segs.flatten = [] ∧
          (readLoop bufferLen fuel buffer current.length overflow segs).ret = -econnreset) ∧
      ((readLoop bufferLen fuel buffer current.length overflow segs).ret = -econnreset →
        Clean bufferLen stale current (segs.flatten.length + 1) segs) := by
  induction fuel generalizing buffer current stale segs overflow with
  | zero => omega
  | succ fuel ih =>
      obtain ⟨bytes, rest, hrecv⟩ :
          ∃ bytes rest, recv (bufferLen - current.length - 1) segs = (bytes, rest) := ⟨_, _, rfl⟩
      have happend := recv_append (bufferLen - current.length - 1) segs
      have hadd := recv_length_add (bufferLen - current.length - 1) segs
      have hle := recv_length_le (bufferLen - current.length - 1) segs
      simp only [hrecv] at happend hadd hle
      rcases Classical.em (bytes = []) with rfl | hne
      · have hroom := hfill.room
        have hnil := recv_eq_nil (by omega) (congrArg Prod.fst hrecv)
        have hrest : rest.flatten = [] := by
          rw [hnil, List.nil_append] at happend
          exact happend
        rw [readLoop_closed current.length hrecv]
        exact ⟨fun _ => ⟨hrest, rfl⟩, fun _ => .closed hrecv⟩
      · have hpos := List.length_pos_of_ne_nil hne
        rw [← happend, ← List.append_assoc] at hnul hcrlf
        have hnul' : 0 ∉ current ++ bytes := fun hmem => hnul (List.mem_append_left _ hmem)
        have hcrlf' := not_hasCrlf_left hcrlf
        have hroom := hfill.room
        have hle' : (current ++ bytes).length ≤ bufferLen - 1 := by
          rw [List.length_append]
          omega
        have hindex := crlfIndex_eq_none_iff hold hnul' hcrlf'
        rw [← hfill.store_eq bytes hne hle'] at hindex
        have hlt : bytes.length < segs.flatten.length + 1 := by omega
        have hsub : segs.flatten.length + 1 - bytes.length = rest.flatten.length + 1 := by omega
        have hfuel' : rest.flatten.length < fuel := by omega
        rcases readLoop_round fuel overflow hlen hfill hrecv hne hlt hle' hindex with
          ⟨hunclean, p, hp⟩ | ⟨next, current', stale', overflow', hkept, hnext, hloop, hclean⟩
        · exact ⟨fun h => absurd h hunclean,
            fun h => absurd h (readLoop_found_ret hrecv hne hp)⟩
        · obtain ⟨hold', hnul', hcrlf'⟩ := hkept.without_line hold hnul hcrlf
          rw [hclean, hsub, hloop]
          exact ih overflow' hnext hold' hnul' hcrlf' hfuel'

/-- The first line of a stream, and what follows its end. -/
def splitLine : Bytes → Option (Bytes × Bytes)
  | [] => none
  | b :: bytes =>
      if b = cr ∧ bytes.head? = some lf then some ([], bytes.tail)
      else (splitLine bytes).map fun split => (b :: split.1, split.2)

theorem splitLine_some {stream line after : Bytes} (h : splitLine stream = some (line, after)) :
    stream = (line ++ [cr, lf]) ++ after ∧ ¬ HasCrlf (line ++ [cr]) := by
  induction stream generalizing line with
  | nil => cases h
  | cons b stream ih =>
      simp only [splitLine] at h
      split at h
      · rename_i hcrlf
        obtain ⟨rfl, rfl⟩ := Prod.mk.inj (Option.some.inj h)
        obtain ⟨rfl, hlf⟩ := hcrlf
        have hstream := List.cons_head?_tail hlf
        refine ⟨?_, by simp [HasCrlf]⟩
        rw [← hstream]
        rfl
      · rename_i hcrlf
        obtain ⟨⟨tail, rest⟩, htail, heq⟩ := Option.map_eq_some_iff.mp h
        obtain ⟨rfl, rfl⟩ := Prod.mk.inj heq
        obtain ⟨rfl, hend⟩ := ih htail
        refine ⟨rfl, ?_⟩
        rw [List.cons_append, HasCrlf]
        rintro (⟨hb, hlf⟩ | hin)
        · apply hcrlf
          refine ⟨hb, ?_⟩
          cases tail with
          | nil => exact absurd (Option.some.inj hlf) (by decide)
          | cons t tail => exact hlf
        · exact hend hin

theorem splitLine_none {stream : Bytes} (h : splitLine stream = none) : ¬ HasCrlf stream := by
  induction stream with
  | nil => exact id
  | cons b stream ih =>
      simp only [splitLine] at h
      split at h
      · cases h
      · rename_i hcrlf
        rintro (hin | hin)
        · exact hcrlf hin
        · exact ih (Option.map_eq_none_iff.mp h) hin

theorem stale_zeros (n : Nat) : Stale (List.replicate n 0) :=
  Or.inl fun _ hb => List.eq_of_mem_replicate hb

/-- A call on a buffer of any length that reads the next line. -/
def ReadsLine (buffer : Bytes) (segs : List Bytes) (line after : Bytes) : Prop :=
  let r := lftpdInetReadLine buffer segs
  r.segs.flatten = after ∧
    if line.length ≤ buffer.length - 3 then
      r.ret = (line.length + 2 : Nat) ∧
        r.buffer = line ++ 0 :: lf :: List.replicate (buffer.length - (line.length + 2)) 0
    else r.ret = -eoverflow

section

variable {buffer line after : Bytes} {segs : List Bytes}

theorem lftpdInetReadLine_of_le (hlen : 2 ≤ buffer.length) :
    lftpdInetReadLine buffer segs =
      readLoop buffer.length (segs.flatten.length + 1) (List.replicate buffer.length 0)
        ([] : Bytes).length false segs := by
  rw [lftpdInetReadLine, if_neg (Nat.not_lt.mpr hlen)]
  rfl

theorem inLine_first (hlen : 2 < buffer.length) (hnul : 0 ∉ segs.flatten)
    (hsplit : splitLine segs.flatten = some (line, after)) :
    InLine buffer.length (List.replicate buffer.length 0) [] (List.replicate (buffer.length - 1) 0)
      line (line ++ [cr, lf]) after segs := by
  obtain ⟨hstream, hend⟩ := splitLine_some hsplit
  exact ⟨filling_first (Nat.lt_of_succ_lt hlen), stale_zeros _, hstream, rfl, hend, by simp, hnul⟩

theorem readsLine_iff (hlen : 2 < buffer.length) (hnul : 0 ∉ segs.flatten)
    (hsplit : splitLine segs.flatten = some (line, after)) :
    ReadsLine buffer segs line after ↔
      Clean buffer.length (List.replicate (buffer.length - 1) 0) [] (line.length + 2) segs := by
  obtain ⟨hclean, hafter⟩ := readLoop_line hlen (segs.flatten.length + 1) false
    (inLine_first hlen hnul hsplit) (Nat.lt_succ_self _)
  have hcount : (line ++ [cr, lf]).length = line.length + 2 := List.length_append
  rw [hcount] at hclean hafter
  simp only [ReadsLine, lftpdInetReadLine_of_le (Nat.le_of_lt hlen)]
  refine ⟨fun h => hafter h.1, ?_⟩
  intro h
  obtain ⟨hsegs, hresult⟩ := hclean h
  refine ⟨hsegs, ?_⟩
  simp only [LineResult, Bool.false_eq_true, false_or] at hresult
  rcases Nat.lt_or_ge buffer.length (line.length + 3) with hlong | hshort
  · rw [if_pos hlong] at hresult
    rw [if_neg (by omega)]
    exact hresult
  · rw [if_neg (Nat.not_lt.mpr hshort), List.drop_replicate, ← List.replicate_succ'] at hresult
    rw [if_pos (by omega)]
    refine ⟨hresult.1, hresult.2.trans ?_⟩
    congr 4
    omega

end

section

variable {maxPathLen : Nat}

/-- A call that reads the next line: a line of at most `buffer_len - 3` bytes is
returned, with its terminator, its LF and zeros behind it, a longer one is an
error, and what follows the line is still to be received. -/
def FramedLine (segs : List Bytes) (buf : CmdBuf maxPathLen) (line after : Bytes) : Prop :=
  let r := lftpdInetReadLine buf.val segs
  r.segs.flatten = after ∧
    if line.length ≤ cmdBufLen maxPathLen - 3 then
      r.ret = (line.length + 2 : Nat) ∧
        r.buffer = line ++ 0 :: lf :: List.replicate (cmdBufLen maxPathLen - (line.length + 2)) 0
    else r.ret = -eoverflow

/-- When no line end comes any more, the call returns the end of the stream. -/
def Framed (segs : List Bytes) (buf : CmdBuf maxPathLen) : Prop :=
  match splitLine segs.flatten with
  | some (line, after) => FramedLine segs buf line after
  | none => (lftpdInetReadLine buf.val segs).segs.flatten = [] ∧
      (lftpdInetReadLine buf.val segs).ret = -econnreset

/-- How many bytes it is to the end of the line; behind the end of the stream
when the line does not end. -/
def lineEnd (stream : Bytes) : Nat :=
  match splitLine stream with
  | some (line, _) => line.length + 2
  | none => stream.length + 1

/-- The condition on the segments that a call receives. -/
def CleanCall (segs : List Bytes) (_ : CmdBuf maxPathLen) : Prop :=
  Clean (cmdBufLen maxPathLen) (List.replicate (cmdBufLen maxPathLen - 1) 0) []
    (lineEnd segs.flatten) segs

def step (segs : List Bytes) (buf : CmdBuf maxPathLen) : List Bytes :=
  (lftpdInetReadLine buf.val segs).segs

theorem lftpdInetReadLine_eq (segs : List Bytes) (buf : CmdBuf maxPathLen) :
    lftpdInetReadLine buf.val segs =
      readLoop (cmdBufLen maxPathLen) (segs.flatten.length + 1)
        (List.replicate (cmdBufLen maxPathLen) 0) ([] : Bytes).length false segs := by
  rw [lftpdInetReadLine, buf.property, if_neg (by simp only [cmdBufLen]; omega)]
  rfl

theorem framed_iff {segs : List Bytes} (hnul : 0 ∉ segs.flatten) (buf : CmdBuf maxPathLen) :
    Framed segs buf ↔ CleanCall segs buf := by
  have hlen : 2 < cmdBufLen maxPathLen := by
    simp only [cmdBufLen]
    omega
  rcases hsplit : splitLine segs.flatten with _ | ⟨line, after⟩
  · obtain ⟨hclean, hreset⟩ := readLoop_end hlen (segs.flatten.length + 1) false
      (filling_first (Nat.lt_of_succ_lt hlen)) (stale_zeros _) hnul (splitLine_none hsplit)
      (Nat.lt_succ_self _)
    simp only [Framed, CleanCall, lineEnd, hsplit, lftpdInetReadLine_eq]
    exact ⟨fun h => hreset h.2, hclean⟩
  · have hbuf : 2 < buf.val.length := by rwa [buf.property]
    have hline := readsLine_iff hbuf hnul hsplit
    simp only [ReadsLine, buf.property] at hline
    simp only [Framed, FramedLine, CleanCall, lineEnd, hsplit]
    exact hline

/-- What the caller sees of a call: the error, or the buffer. -/
def returned (r : LineRead) : Int × Bytes :=
  (r.ret, if r.ret < 0 then [] else r.buffer)

/-- The results of repeated calls. -/
def results : List Bytes → List (CmdBuf maxPathLen) → List (Int × Bytes)
  | _, [] => []
  | segs, buf :: bufs =>
      returned (lftpdInetReadLine buf.val segs) :: results (step segs buf) bufs

theorem returned_eq_of_framed {segs segs' : List Bytes} (hsame : segs'.flatten = segs.flatten)
    {buf buf' : CmdBuf maxPathLen} (h : Framed segs buf) (h' : Framed segs' buf') :
    returned (lftpdInetReadLine buf'.val segs') = returned (lftpdInetReadLine buf.val segs) ∧
      (step segs' buf').flatten = (step segs buf).flatten := by
  simp only [Framed, hsame] at h h'
  rcases hsplit : splitLine segs.flatten with _ | ⟨line, after⟩
  · simp only [hsplit] at h h'
    refine ⟨?_, h'.1.trans h.1.symm⟩
    rw [returned, returned, h.2, h'.2]
    rfl
  · simp only [hsplit, FramedLine] at h h'
    refine ⟨?_, h'.1.trans h.1.symm⟩
    obtain ⟨-, h⟩ := h
    obtain ⟨-, h'⟩ := h'
    split at h
    · rename_i hfits
      rw [if_pos hfits] at h'
      rw [returned, returned, h.1, h.2, h'.1, h'.2]
    · rename_i hlong
      rw [if_neg hlong] at h'
      rw [returned, returned, h, h']
      rfl

theorem results_eq_of_framed {segs segs' : List Bytes} (hsame : segs'.flatten = segs.flatten)
    {bufs bufs' : List (CmdBuf maxPathLen)} (hcount : bufs'.length = bufs.length)
    (h : Along step Framed segs bufs) (h' : Along step Framed segs' bufs') :
    results segs' bufs' = results segs bufs := by
  induction bufs generalizing segs segs' bufs' with
  | nil =>
      obtain rfl := List.length_eq_zero_iff.mp hcount
      rfl
  | cons buf bufs ih =>
      obtain ⟨buf', bufs', rfl⟩ := List.exists_cons_of_length_eq_add_one hcount
      obtain ⟨hreturned, hnext⟩ := returned_eq_of_framed hsame h.1 h'.1
      rw [results, results, hreturned, ih hnext (Nat.succ.inj hcount) h.2 h'.2]

theorem nul_step {segs : List Bytes} (hnul : 0 ∉ segs.flatten) {buf : CmdBuf maxPathLen}
    (h : Framed segs buf) : 0 ∉ (step segs buf).flatten := by
  simp only [Framed] at h
  rcases hsplit : splitLine segs.flatten with _ | ⟨line, after⟩
  · simp only [hsplit] at h
    rw [step, h.1]
    exact List.not_mem_nil
  · simp only [hsplit, FramedLine] at h
    obtain ⟨hstream, -⟩ := splitLine_some hsplit
    rw [step, h.1]
    rw [hstream] at hnul
    exact fun hmem => hnul (List.mem_append_right _ hmem)

/-- The calls read the lines of the stream one by one exactly when all of them
are clean, and then they return the same for every segmentation. -/
theorem along_framed_iff {segs : List Bytes} (hnul : 0 ∉ segs.flatten)
    (bufs : List (CmdBuf maxPathLen)) :
    (Along step Framed segs bufs ↔ Along step CleanCall segs bufs) ∧
      ∀ segs' (bufs' : List (CmdBuf maxPathLen)), segs'.flatten = segs.flatten →
        bufs'.length = bufs.length → Along step CleanCall segs bufs →
        Along step CleanCall segs' bufs' → results segs' bufs' = results segs bufs := by
  have hiff : ∀ {segs : List Bytes}, 0 ∉ segs.flatten → ∀ bufs : List (CmdBuf maxPathLen),
      (Along step Framed segs bufs ↔ Along step CleanCall segs bufs) := by
    intro segs hnul bufs
    exact along_iff_of_invariant (P := fun segs => 0 ∉ segs.flatten) (fun _ _ h => framed_iff h _)
      (fun _ _ h hclean => nul_step h ((framed_iff h _).mpr hclean)) hnul
  refine ⟨hiff hnul bufs, ?_⟩
  intro segs' bufs' hsame hcount hclean hclean'
  exact results_eq_of_framed hsame hcount ((hiff hnul bufs).mpr hclean)
    ((hiff (hsame ▸ hnul) bufs').mpr hclean')

end

def clearBuf : CmdBuf 128 :=
  ⟨List.replicate (cmdBufLen 128) 0, List.length_replicate⟩

/-- `NOOP` and `PWD`, with their line ends. -/
def noop : Bytes := [78, 79, 79, 80, 13, 10]

def pwd : Bytes := [80, 87, 68, 13, 10]

/-- The same commands, each in two pieces. -/
def halves : List Bytes := [[78, 79], [79, 80, 13, 10], [80, 87, 68, 13], [10]]

theorem not_joined_zeros (n : Nat) (bytes : Bytes) : ¬ Joined (List.replicate n 0) bytes := by
  rintro ⟨-, hlf⟩
  exact absurd (List.eq_of_mem_replicate (List.mem_of_getElem? hlf)) (by decide)

theorem along_clean_halves : Along step CleanCall halves [clearBuf, clearBuf] := by
  have hstep : step halves clearBuf = [[], [80, 87, 68, 13], [10]] := by decide +kernel
  constructor
  · exact .more rfl (by decide) (by decide) (not_joined_zeros _ _) (.ended rfl rfl)
  · rw [hstep]
    exact ⟨.more rfl (by decide) (by decide) (not_joined_zeros _ _) (.ended rfl rfl), trivial⟩

theorem along_clean_whole : Along step CleanCall [noop, pwd] [clearBuf, clearBuf] := by
  have hstep : step [noop, pwd] clearBuf = [[], pwd] := by decide +kernel
  constructor
  · exact .ended rfl rfl
  · rw [hstep]
    exact ⟨.ended rfl rfl, trivial⟩

theorem along_framed_halves : Along step Framed halves [clearBuf, clearBuf] ∧
    results [noop, pwd] [clearBuf, clearBuf] = results halves [clearBuf, clearBuf] := by
  have hnul : 0 ∉ halves.flatten := by decide
  have hsame : [noop, pwd].flatten = halves.flatten := by decide
  obtain ⟨hframed, hresults⟩ := along_framed_iff hnul [clearBuf, clearBuf]
  exact ⟨hframed.mpr along_clean_halves,
    hresults [noop, pwd] [clearBuf, clearBuf] hsame rfl along_clean_halves along_clean_whole⟩

/-- A command that arrives together with the one before it is lost. -/
theorem results_ne_of_pipelined :
    results [noop ++ pwd] [clearBuf, clearBuf] ≠ results [noop, pwd] [clearBuf, clearBuf] := by
  decide +kernel

end ZeusLe.FtpFraming
