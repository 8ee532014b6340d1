import ZeusLe.WavSizes

/-!
Updates of the header between the writes. An update that fails leaves the file
position in the header, where `wav_write` relies on it being at the end.
-/

namespace ZeusLe.WavUpdate

open ZeusLe.FileSystem
open ZeusLe.WavFile
open ZeusLe.WavSizes
open ZeusLe.Library.LittleEndian
open ZeusLe.Library.Run

inductive Call where
  | write (call : Write)
  | updateSize (io : WavCloseIo)

def step (s : Wav × Fs) : Call → Wav × Fs
  | .write call => write s call
  | .updateSize io => (s.1, (wavUpdateSize io s.1 s.2).2)

/-- The data area of the file with the handle `h`. -/
def dataIn (h : Nat) (s : Wav × Fs) : List UInt8 :=
  ((s.2.files[h]?).map dataOf).getD []

/-- The bytes that a `wav_write` stores. -/
def stored (w : Wav) (call : Write) : List UInt8 :=
  call.buf.take (call.outcome.stored (w.writeLen call.len).toNat)

/-- Every write stores its bytes behind the data. -/
def WritesBehind (h : Nat) (s : Wav × Fs) (call : Call) : Prop :=
  ∀ write, call = .write write → dataIn h (step s call) = dataIn h s ++ stored s.1 write

/-- What the data area held at any time of the calls stays in its place. -/
structure Undamaged (h : Nat) (s : Wav × Fs) (calls : List Call) : Prop where
  kept : ∀ before after, calls = before ++ after →
    dataIn h (run step s before) <+: dataIn h (run step s calls)
  behind : Along step (WritesBehind h) s calls

/-- The writer with the position that its last updates left: `none` is the end
of the file. -/
structure Tracked where
  state : Wav × Fs
  position : Option Nat

def track (t : Tracked) (call : Call) : Tracked where
  state := step t.state call
  position := match call with
    | .write write => if stored t.state.1 write = [] then t.position else none
    | .updateSize io => io.position t.position

/-- No write stores a byte while an update that failed keeps the position in the
header. Behind the header it is at the end as long as there are no data. -/
def AtEnd (h : Nat) (t : Tracked) : Call → Prop
  | .write write => stored t.state.1 write = [] ∨ t.position = none ∨
      t.position = some wavHeaderSize.toNat ∧ dataIn h t.state = []
  | .updateSize _ => True

/-- The open file `h`, with the position where `t` says. -/
structure Follows (h : Nat) (t : Tracked) : Prop where
  handle : t.state.1.fp = some h
  file : ∃ f, t.state.2.files[h]? = some f ∧ wavHeaderSize.toNat ≤ f.bytes.length ∧
    f.pos = t.position.getD f.bytes.length
  header : ∀ pos, t.position = some pos → pos ≤ wavHeaderSize.toNat

theorem position_le (io : WavCloseIo) {unmoved : Option Nat}
    (hunmoved : ∀ pos, unmoved = some pos → pos ≤ wavHeaderSize.toNat) {pos : Nat}
    (hpos : io.position unmoved = some pos) : pos ≤ wavHeaderSize.toNat := by
  have hchunk := io.writeChunk.stored_le 4
  have hsubchunk := io.writeSubchunk2.stored_le 4
  have hheader : wavHeaderSize.toNat = 44 := rfl
  simp only [WavCloseIo.position, wavChunkSizeOffset, wavSubchunk2SizeOffset] at hpos
  split at hpos
  · exact hunmoved pos hpos
  · split at hpos
    · cases hpos
      omega
    · split at hpos
      · cases hpos
        omega
      · split at hpos
        · cases hpos
          omega
        · split at hpos
          · cases hpos
            omega
          · cases hpos

theorem dataIn_of_file {h : Nat} {s : Wav × Fs} {f : File} (hf : s.2.files[h]? = some f) :
    dataIn h s = dataOf f := by
  rw [dataIn, hf]
  rfl

theorem file_step {h : Nat} {s : Wav × Fs} (hw : s.1.fp = some h) {f : File}
    (hf : s.2.files[h]? = some f) (call : Write) :
    (write s call).2.files[h]? = some (f.store (stored s.1 call)) := by
  have hfs := wavWrite_fs call.outcome hw call.buf call.len s.2
  change (wavWrite call.outcome s.1 call.buf call.len s.2).2.2.files[h]? = _
  rw [hfs, List.getElem?_modify_eq, hf]
  rfl

theorem dataIn_update {h : Nat} {s : Wav × Fs} (hw : s.1.fp = some h) {f : File}
    (hf : s.2.files[h]? = some f) (hlen : wavHeaderSize.toNat ≤ f.bytes.length)
    (io : WavCloseIo) : dataIn h (step s (.updateSize io)) = dataIn h s := by
  obtain ⟨g, hg, hfs⟩ := wavUpdateSize_headerEdit io hw s.2
  have hafter : (step s (.updateSize io)).2.files[h]? = some (g f) := by
    simp only [step, hfs, List.getElem?_modify_eq, hf]
    rfl
  rw [dataIn_of_file hafter, dataIn_of_file hf, hg.data f hlen]

theorem follows_update {h : Nat} {t : Tracked} (ht : Follows h t) (io : WavCloseIo) :
    Follows h (track t (.updateSize io)) := by
  obtain ⟨f, hf, hlen, hpos⟩ := ht.file
  obtain ⟨g, hg, hfs, hposition⟩ := wavUpdateSize_edit io ht.handle t.state.2
  refine ⟨ht.handle, ⟨g f, ?_, ?_, ?_⟩, fun pos hpos => position_le io ht.header hpos⟩
  · simp only [track, step, hfs, List.getElem?_modify_eq, hf]
    rfl
  · rw [hg.length f hlen]
    exact hlen
  · rw [hg.length f hlen]
    exact hposition f t.position hlen hpos

theorem atEnd_write_iff {h : Nat} {t : Tracked} (ht : Follows h t) {f : File}
    (hf : t.state.2.files[h]? = some f) (hlen : wavHeaderSize.toNat ≤ f.bytes.length)
    (hpos : f.pos = t.position.getD f.bytes.length) (call : Write) :
    AtEnd h t (.write call) ↔ stored t.state.1 call = [] ∨ f.pos = f.bytes.length := by
  apply or_congr_right
  rcases hposition : t.position with _ | pos
  · rw [hposition] at hpos
    simpa using hpos
  · rw [hposition] at hpos
    have hheader := ht.header pos hposition
    have hempty : dataIn h t.state = [] ↔ f.bytes.length ≤ wavHeaderSize.toNat := by
      rw [dataIn_of_file hf, dataOf, List.drop_eq_nil_iff]
    simp only [reduceCtorEq, Option.some.injEq, false_or, hempty, hpos, Option.getD_some]
    omega

theorem writesBehind_iff {h : Nat} (t : Tracked) (call : Call) (ht : Follows h t) :
    WritesBehind h t.state call ↔ AtEnd h t call := by
  obtain ⟨f, hf, hlen, hpos⟩ := ht.file
  cases call with
  | write call =>
      rw [atEnd_write_iff ht hf hlen hpos]
      have hafter := file_step ht.handle hf call
      have hle : f.pos ≤ f.bytes.length := by
        rw [hpos]
        rcases hposition : t.position with _ | pos
        · exact Nat.le_refl _
        · exact (ht.header pos hposition).trans hlen
      rw [← dataOf_store_iff hlen hle]
      constructor
      · intro hbehind
        have hdata := hbehind call rfl
        rwa [dataIn_of_file hf, step, dataIn_of_file hafter] at hdata
      · rintro hdata call' hcall
        cases hcall
        rwa [dataIn_of_file hf, step, dataIn_of_file hafter]
  | updateSize io =>
      refine ⟨fun _ => trivial, fun _ write hcall => ?_⟩
      cases hcall

theorem follows_track {h : Nat} (t : Tracked) (call : Call) (ht : Follows h t)
    (hend : AtEnd h t call) : Follows h (track t call) := by
  cases call with
  | updateSize io => exact follows_update ht io
  | write call =>
      obtain ⟨f, hf, hlen, hpos⟩ := ht.file
      have hafter := file_step ht.handle hf call
      have hkept : f.bytes.length ≤ (f.store (stored t.state.1 call)).bytes.length := by
        simp only [File.store, splice, List.length_append, List.length_take, List.length_drop]
        omega
      refine ⟨?_, ⟨_, hafter, hlen.trans hkept, ?_⟩, ?_⟩
      · exact (wavWrite_fp _ _ _ _ _).trans ht.handle
      · rcases Classical.em (stored t.state.1 call = []) with hnone | hsome
        · simp [track, hnone, File.store, splice, hpos]
        · have hatEnd := ((atEnd_write_iff ht hf hlen hpos call).mp hend).resolve_left hsome
          rw [File.store_eq_append hatEnd]
          simp [track, hsome, File.append]
      · intro pos hposition
        simp only [track] at hposition
        split at hposition
        · exact ht.header pos hposition
        · cases hposition

theorem prefix_step {h : Nat} (t : Tracked) (call : Call) (ht : Follows h t)
    (hend : AtEnd h t call) : dataIn h t.state <+: dataIn h (track t call).state := by
  cases call with
  | write call =>
      have hbehind := (writesBehind_iff t (.write call) ht).mpr hend call rfl
      exact hbehind ▸ List.prefix_append _ _
  | updateSize io =>
      obtain ⟨f, hf, hlen, -⟩ := ht.file
      exact (dataIn_update ht.handle hf hlen io).symm ▸ List.prefix_refl _

theorem prefix_run {h : Nat} {t : Tracked} {calls : List Call} (ht : Follows h t)
    (hcalls : Along track (AtEnd h) t calls) :
    dataIn h t.state <+: dataIn h (run track t calls).state := by
  induction calls generalizing t with
  | nil => exact List.prefix_refl _
  | cons call calls ih =>
      obtain ⟨hend, hrest⟩ := hcalls
      exact (prefix_step t call ht hend).trans (ih (follows_track t call ht hend) hrest)

theorem state_run_track (t : Tracked) (calls : List Call) :
    (run track t calls).state = run step t.state calls :=
  run_comap (f := Tracked.state) (fun _ _ => rfl) t calls

/-- The data of an open file stay as they are exactly when no write stores a
byte while the position is left in the header. -/
theorem undamaged_iff_of_follows {h : Nat} {t : Tracked} (ht : Follows h t)
    (calls : List Call) : Undamaged h t.state calls ↔ Along track (AtEnd h) t calls := by
  have hbehind : Along step (WritesBehind h) t.state calls ↔ Along track (AtEnd h) t calls := by
    have htracked : Along step (WritesBehind h) t.state calls ↔
        Along track (fun t call => WritesBehind h t.state call) t calls :=
      along_comap (fun _ _ => rfl) t calls
    exact htracked.trans (along_iff_of_invariant writesBehind_iff follows_track ht)
  constructor
  · intro hundamaged
    exact hbehind.mp hundamaged.behind
  · intro hcalls
    refine ⟨?_, hbehind.mpr hcalls⟩
    rintro before after rfl
    obtain ⟨hbefore, hafter⟩ := (along_append _ _ _ _ _).mp hcalls
    have hfollows : Follows h (run track t before) := invariant_run follows_track ht hbefore
    rw [run_append, ← state_run_track, ← state_run_track]
    exact prefix_run hfollows hafter

theorem wavOpen_of_ret {io : WavOpenIo} {w : Wav} {name : Path} {fmt : WavFormat} {fs : Fs}
    (hret : (wavOpen io w name fmt fs).1 = 0) :
    wavOpen io w name fmt fs = (0, fmt.opened fs.files.length,
      { card := (fsOpen .ok io.slot name fs).2.2.card
        files := fs.files ++ [fmt.newFile name] }) := by
  have hne : (wavOpen io w name fmt fs).1 ≠ -einval := by
    rw [hret]
    decide
  have hfmt : fmt.Accepted := accepted_of_ret hne
  have hopen : io.fsOpen = .ok := by
    apply Classical.byContradiction
    intro hfailed
    have hneg := wavOpen_ret_of_ne_ok hfailed w name hfmt fs
    omega
  obtain ⟨hchannels, hrate, hbits, hsize⟩ := hfmt
  let opened : Wav := { Wav.zero with fp := some fs.files.length }
  let openedFs : Fs := ⟨(fsOpen .ok io.slot name fs).2.2.card, fs.files ++ [⟨name, [], 0⟩]⟩
  have hopened : fsOpen .ok io.slot name fs = (0, some fs.files.length, openedFs) := rfl
  have hlen : ∀ field ∈ headerFields (fmt.opened 0) fmt, field.length < 2 ^ 31 := by
    simp [headerFields, putLe32, putLe16]
  simp only [wavOpen, if_neg hchannels, if_neg hrate, if_neg hbits,
    if_neg (UInt32.not_lt.mpr hsize), hopen] at hret ⊢
  rw [hopened] at hret ⊢
  simp only [lt_irrefl, if_false] at hret ⊢
  have hheader : ¬ (wavWriteHeader io.header opened fmt openedFs).1 < 0 := by
    intro hneg
    rw [if_pos hneg] at hret
    exact hneg.ne hret
  have hfields := writeFields_of_ret io.header 0 hlen (fsOpen .ok io.slot name fs).2.2.card
    fs.files (f := ⟨name, [], 0⟩) rfl hheader
  have hwritten : wavWriteHeader io.header opened fmt openedFs =
      (0, fmt.opened fs.files.length, ⟨(fsOpen .ok io.slot name fs).2.2.card,
        fs.files ++ [fmt.newFile name]⟩) :=
    congrArg (fun r : Int × Fs => (r.1, fmt.opened fs.files.length, r.2)) hfields
  rw [if_neg hheader, hwritten]

theorem follows_opened {io : WavOpenIo} {w : Wav} {name : Path} {fmt : WavFormat} {fs : Fs}
    (hret : (wavOpen io w name fmt fs).1 = 0) :
    Follows fs.files.length ⟨(wavOpen io w name fmt fs).2, none⟩ := by
  rw [wavOpen_of_ret hret]
  refine ⟨rfl, ⟨fmt.newFile name, ?_, ?_, ?_⟩, fun pos hpos => nomatch hpos⟩
  · simp
  · exact (fmt.length_newFile name).ge
  · exact (fmt.length_newFile name).symm

/-- The calls on an opened file leave its data undamaged exactly when no
`wav_write` stores a byte between a `wav_update_size` that fails behind its
first `fs_seek` and the next one that does not. -/
theorem undamaged_iff (io : WavOpenIo) (w : Wav) (name : Path) (fmt : WavFormat) (fs : Fs)
    (calls : List Call) (hret : (wavOpen io w name fmt fs).1 = 0) :
    Undamaged fs.files.length (wavOpen io w name fmt fs).2 calls ↔
      Along track (AtEnd fs.files.length) ⟨(wavOpen io w name fmt fs).2, none⟩ calls :=
  undamaged_iff_of_follows (follows_opened hret) calls

/-- An update that fails, one that does not, and a write. -/
theorem undamaged_retriedUpdate :
    Undamaged 0 (wavOpen {} Wav.zero [] ⟨2, 48000, 16, 2147483647⟩ ⟨emptyCard, []⟩).2
      [.write ⟨.ok, [1, 2, 3, 4], 4⟩, .updateSize { seekEnd := .err 0 4 }, .updateSize {},
        .write ⟨.ok, [5, 6, 7, 8], 4⟩] := by
  have hret : (wavOpen {} Wav.zero [] ⟨2, 48000, 16, 2147483647⟩ ⟨emptyCard, []⟩).1 = 0 := by decide
  refine (undamaged_iff {} Wav.zero [] ⟨2, 48000, 16, 2147483647⟩ ⟨emptyCard, []⟩ _ hret).mpr ?_
  exact ⟨Or.inr (Or.inl rfl), trivial, trivial, Or.inr (Or.inl (by decide)), trivial⟩

/-- The seek to the end fails: the next write overwrites the first frame. -/
theorem not_undamaged_of_failedSeek :
    ¬ ∀ (io : WavOpenIo) (w : Wav) (name : Path) (fmt : WavFormat) (fs : Fs)
      (calls : List Call), (wavOpen io w name fmt fs).1 = 0 →
      Undamaged fs.files.length (wavOpen io w name fmt fs).2 calls := by
  intro h
  have hundamaged := h {} Wav.zero [] ⟨2, 48000, 16, 2147483647⟩ ⟨emptyCard, []⟩
    [.write ⟨.ok, [1, 2, 3, 4], 4⟩, .updateSize { seekEnd := .err 0 4 },
      .write ⟨.ok, [5, 6, 7, 8], 4⟩] (by decide)
  have hkept := hundamaged.kept [.write ⟨.ok, [1, 2, 3, 4], 4⟩]
    [.updateSize { seekEnd := .err 0 4 }, .write ⟨.ok, [5, 6, 7, 8], 4⟩] rfl
  exact absurd hkept (by decide)

end ZeusLe.WavUpdate
