import ZeusLe.FtpFraming

/-! Which lines that are too long are skipped exactly. -/

namespace ZeusLe.FtpOverflow

open ZeusLe.Library.Run
open ZeusLe.Library.Segments
open ZeusLe.FtpLine
open ZeusLe.FtpFraming

/-- While a line is read that is `n` bytes long, the buffer is not full, what was
received ends in a CR, and the byte behind it is an LF of the part read before. -/
inductive Joins (bufferLen : Nat) : Bytes → Bytes → Nat → List Bytes → Prop where
  | here {stale current n segs bytes rest} :
      recv (bufferLen - current.length - 1) segs = (bytes, rest) → bytes ≠ [] → bytes.length < n →
      (current ++ bytes).length < bufferLen - 1 → Joined stale (current ++ bytes) →
      Joins bufferLen stale current n segs
  | more {stale current n segs bytes rest} :
      recv (bufferLen - current.length - 1) segs = (bytes, rest) → bytes ≠ [] → bytes.length < n →
      (current ++ bytes).length < bufferLen - 1 →
      Joins bufferLen stale (current ++ bytes) (n - bytes.length) rest →
      Joins bufferLen stale current n segs
  | full {stale current n segs bytes rest} :
      recv (bufferLen - current.length - 1) segs = (bytes, rest) → bytes ≠ [] → bytes.length < n →
      (current ++ bytes).length = bufferLen - 1 →
      Joins bufferLen (current ++ bytes) (carried (current ++ bytes)) (n - bytes.length) rest →
      Joins bufferLen stale current n segs

theorem Joins.not_clean {bufferLen n : Nat} {stale current : Bytes} {segs : List Bytes}
    (h : Joins bufferLen stale current n segs) : ¬ Clean bufferLen stale current n segs := by
  induction h with
  | here hrecv hne hlt hroom hjoined =>
      rw [clean_iff_of_room hrecv hne hlt hroom]
      exact fun hclean => hclean.1 hjoined
  | more hrecv hne hlt hroom _ ih =>
      rw [clean_iff_of_room hrecv hne hlt hroom]
      exact fun hclean => ih hclean.2
  | full hrecv hne hlt hfull _ ih =>
      rw [clean_iff_of_full hrecv hne hlt hfull]
      exact ih

theorem clean_of_not_joins {bufferLen : Nat} (hlen : 2 < bufferLen) (fuel : Nat)
    {buffer current stale line unread after : Bytes} {segs : List Bytes} (overflow : Bool)
    (h : InLine bufferLen buffer current stale line unread after segs)
    (hfuel : segs.flatten.length < fuel)
    (hwithin : segs.flatten.length ≤ unread.length +
      (readLoop bufferLen fuel buffer current.length overflow segs).segs.flatten.length)
    (hjoins : ¬ Joins bufferLen stale current unread.length segs) :
    Clean bufferLen stale current unread.length segs := by
  induction fuel generalizing buffer current stale line unread segs overflow with
  | zero => omega
  | succ fuel ih =>
      obtain ⟨bytes, rest, hrecv⟩ :
          ∃ bytes rest, recv (bufferLen - current.length - 1) segs = (bytes, rest) := ⟨_, _, rfl⟩
      obtain ⟨hne, -, hle, -⟩ := h.split hrecv
      have hadd := recv_length_add (bufferLen - current.length - 1) segs
      simp only [hrecv] at hadd
      have hpos := List.length_pos_of_ne_nil hne
      rcases Nat.lt_trichotomy bytes.length unread.length with hlt | heq | hgt
      · obtain ⟨more, rfl, hmore, -, hindex⟩ := h.goes_on hrecv hlt
        have hsub : (bytes ++ more).length - bytes.length = more.length := by
          rw [List.length_append]
          omega
        rw [List.length_append] at hwithin
        rcases Nat.lt_or_eq_of_le hle with hroom | hfull
        · have hjoined : ¬ Joined stale (current ++ bytes) :=
            fun hjoined => hjoins (.here hrecv hne hlt hroom hjoined)
          obtain ⟨next, hfill, hloop⟩ :=
            (readLoop_next fuel overflow hlen h.fill hrecv hne (hindex.mpr hjoined)).1 hroom
          rw [hloop] at hwithin
          rw [clean_iff_of_room hrecv hne hlt hroom, hsub]
          refine ⟨hjoined, ih overflow (h.next_room hrecv hmore hfill) (by omega) (by omega) ?_⟩
          intro hrest
          rw [← hsub] at hrest
          exact hjoins (.more hrecv hne hlt hroom hrest)
        · obtain ⟨next, hfill, hloop⟩ :=
            (readLoop_next fuel overflow hlen h.fill hrecv hne
              (hindex.mpr (h.fill.not_joined hfull))).2 hfull
          obtain ⟨tail, hline⟩ := h.next_full hrecv hmore hfill
          rw [hloop] at hwithin
          rw [clean_iff_of_full hrecv hne hlt hfull, hsub]
          refine ih true hline (by omega) (by omega) ?_
          intro hrest
          rw [← hsub] at hrest
          exact hjoins (.full hrecv hne hlt hfull hrest)
      · exact .ended hrecv heq
      · -- bytes behind the line would have been received
        rw [h.overshot hrecv hgt] at hwithin
        omega

theorem not_joins_of_fits {bufferLen n : Nat} {stale current : Bytes} {segs : List Bytes}
    (hstale : ∀ b ∈ stale, b = 0) (hfits : current.length + n < bufferLen) :
    ¬ Joins bufferLen stale current n segs := by
  intro h
  induction h with
  | here _ _ _ _ hjoined =>
      have hlf := hstale lf (List.mem_of_getElem? hjoined.2)
      cases hlf
  | more _ _ hlt _ _ ih =>
      refine ih hstale ?_
      rw [List.length_append]
      omega
  | full _ _ hlt hfull _ _ =>
      rw [List.length_append] at hfull
      omega

theorem readLoop_suffix (bufferLen fuel : Nat) (buffer : Bytes) (total : Nat) (overflow : Bool)
    (segs : List Bytes) :
    (readLoop bufferLen fuel buffer total overflow segs).segs.flatten <:+ segs.flatten := by
  induction fuel generalizing buffer total overflow segs with
  | zero => exact List.suffix_refl _
  | succ fuel ih =>
      simp only [readLoop]
      have hrest : (recv (bufferLen - total - 1) segs).2.flatten <:+ segs.flatten :=
        ⟨_, recv_append (bufferLen - total - 1) segs⟩
      split
      · exact hrest
      · split
        · split
          · exact hrest
          · exact hrest
        · split
          · split
            · exact (ih _ _ _ _).trans hrest
            · exact (ih _ _ _ _).trans hrest
          · exact (ih _ _ _ _).trans hrest

/-- A buffer that has room for a line end. -/
abbrev LineBuf := { buf : Bytes // 3 ≤ buf.length }

def step (segs : List Bytes) (buf : LineBuf) : List Bytes :=
  (lftpdInetReadLine buf.val segs).segs

theorem nul_step {segs : List Bytes} (hnul : 0 ∉ segs.flatten) (buf : LineBuf) :
    0 ∉ (step segs buf).flatten := by
  rw [step, lftpdInetReadLine_of_le (Nat.le_of_lt buf.property)]
  exact fun hmem => hnul ((readLoop_suffix _ _ _ _ _ segs).subset hmem)

/-- The next line is returned, or it is skipped and the call returns an error. -/
def Exact (segs : List Bytes) (buf : LineBuf) : Prop :=
  ∀ line after, splitLine segs.flatten = some (line, after) → ReadsLine buf.val segs line after

/-- The call receives nothing behind the end of the next line. -/
def Within (segs : List Bytes) (buf : LineBuf) : Prop :=
  segs.flatten.length ≤ lineEnd segs.flatten + (step segs buf).flatten.length

instance (segs : List Bytes) (buf : LineBuf) : Decidable (Within segs buf) :=
  inferInstanceAs (Decidable (_ ≤ _))

/-- An LF that stands in the buffer meets a CR before the next line ends. -/
def JoinsCall (segs : List Bytes) (buf : LineBuf) : Prop :=
  (splitLine segs.flatten).isSome ∧
    Joins buf.val.length (List.replicate (buf.val.length - 1) 0) [] (lineEnd segs.flatten) segs

theorem exact_iff {segs : List Bytes} (hnul : 0 ∉ segs.flatten) {buf : LineBuf}
    (hwithin : Within segs buf) : Exact segs buf ↔ ¬ JoinsCall segs buf := by
  rcases hsplit : splitLine segs.flatten with _ | ⟨line, after⟩
  · constructor
    · rintro - ⟨hsome, -⟩
      rw [hsplit] at hsome
      exact Bool.false_ne_true hsome
    · intro _ line after hline
      rw [hsplit] at hline
      cases hline
  · have hend : lineEnd segs.flatten = line.length + 2 := by simp only [lineEnd, hsplit]
    have hreads := readsLine_iff buf.property hnul hsplit
    have hexact : Exact segs buf ↔ ReadsLine buf.val segs line after := by
      constructor
      · exact fun h => h line after hsplit
      · intro h line' after' hline
        rw [hsplit] at hline
        obtain ⟨rfl, rfl⟩ := Prod.mk.inj (Option.some.inj hline)
        exact h
    rw [hexact, hreads, JoinsCall, hsplit, hend]
    constructor
    · rintro hclean ⟨-, hjoins⟩
      exact hjoins.not_clean hclean
    · intro hjoins
      rw [Within, hend, step, lftpdInetReadLine_of_le (Nat.le_of_lt buf.property)] at hwithin
      have hcount : (line ++ [cr, lf]).length = line.length + 2 := List.length_append
      have hclean := clean_of_not_joins buf.property _ false (inLine_first buf.property hnul hsplit)
        (Nat.lt_succ_self _) (by rwa [hcount]) (by rw [hcount]; exact fun h => hjoins ⟨rfl, h⟩)
      rwa [hcount] at hclean

theorem exact_of_fits {segs : List Bytes} (hnul : 0 ∉ segs.flatten) {buf : LineBuf}
    (hwithin : Within segs buf) (hfits : lineEnd segs.flatten < buf.val.length) :
    Exact segs buf := by
  rw [exact_iff hnul hwithin]
  rintro ⟨-, hjoins⟩
  refine not_joins_of_fits (fun _ hb => List.eq_of_mem_replicate hb) ?_ hjoins
  rwa [List.length_nil, Nat.zero_add]

/-- Calls that receive nothing behind the ends of their lines read all of them
exactly when no old LF meets a CR. -/
theorem along_exact_iff {segs : List Bytes} (hnul : 0 ∉ segs.flatten) {bufs : List LineBuf}
    (hwithin : Along step Within segs bufs) :
    Along step Exact segs bufs ↔ Along step (fun segs buf => ¬ JoinsCall segs buf) segs bufs := by
  induction bufs generalizing segs with
  | nil => exact Iff.rfl
  | cons buf bufs ih =>
      obtain ⟨hbuf, hbufs⟩ := hwithin
      exact and_congr (exact_iff hnul hbuf) (ih (nul_step hnul buf) hbufs)

/-- A command buffer for paths of up to 128 bytes. -/
def cmdBuf : LineBuf :=
  ⟨List.replicate (cmdBufLen 128) 0, by rw [List.length_replicate]; decide⟩

theorem along_exact_noop :
    Along step Exact [noop, pwd] [cmdBuf, cmdBuf] ↔
      Along step (fun segs buf => ¬ JoinsCall segs buf) [noop, pwd] [cmdBuf, cmdBuf] :=
  along_exact_iff (by decide) ⟨by decide +kernel, by decide +kernel, trivial⟩

/-- The beginning of a line that fills the buffer, with an LF as its second byte. -/
def hidden : Bytes :=
  97 :: lf :: List.replicate 133 97

/-- The end of a line that is too long is read as a command. -/
theorem not_exact_hidden :
    0 ∉ [hidden, [cr], noop].flatten ∧
      Along step Within [hidden, [cr], noop] [cmdBuf, cmdBuf] ∧
      ¬ Along step Exact [hidden, [cr], noop] [cmdBuf, cmdBuf] := by
  refine ⟨by decide +kernel, ⟨by decide +kernel, by decide +kernel, trivial⟩, ?_⟩
  rintro ⟨hexact, -⟩
  have hsplit : splitLine [hidden, [cr], noop].flatten =
      some (hidden ++ cr :: [78, 79, 79, 80], []) := by decide +kernel
  have hafter := (hexact _ _ hsplit).1
  revert hafter
  decide +kernel

end ZeusLe.FtpOverflow
