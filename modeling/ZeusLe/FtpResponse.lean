import ZeusLe.Ftp
import ZeusLe.Library.Decimal
import ZeusLe.Library.Overwrite

/-!
`send_response` in the buffer of the connection: what is written where, and the
length that is left.
-/

namespace ZeusLe.FtpResponse

open ZeusLe.Library.Overwrite
open ZeusLe.FtpLine
open ZeusLe.FtpPath (cString)
open ZeusLe.Ftp

abbrev FormatError := { ret : Int // ret < 0 }

/-- What is formatted: a text without a terminator in it, of a length that is an `int`. -/
abbrev Message := { message : Bytes // 0 ∉ message ∧ message.length < 2 ^ 31 }

structure Response where
  /-- The error, or the string that is sent. -/
  result : Except Int Bytes
  buf : Buffer UInt8
  /-- Each `buf_len` with what is taken from it. -/
  subtractions : List (UInt32 × Nat)

/-- `snprintf(buf + off, n, ...)`, and `vsnprintf`. -/
def snprintf (buf : Buffer UInt8) (off : Nat) (n : UInt32) :
    Except FormatError Bytes → Int × Buffer UInt8
  | .error ret => (ret.val, buf)
  | .ok formatted =>
      (formatted.length,
        if n = 0 then buf else buf.write off (formatted.take (n.toNat - 1) ++ [0]))

/-- `send_response` behind the code. The length of the message is compared with the
size of the whole buffer. -/
def sendMessage (buf : Buffer UInt8) (off : Nat) (len : UInt32)
    (subtractions : List (UInt32 × Nat)) (message : Except FormatError Bytes) : Response :=
  let (ret, buf) := snprintf buf off len message
  if ret < 0 then ⟨.error ret, buf, subtractions⟩
  else if ret ≥ bufLen then ⟨.error (-eoverflow), buf, subtractions⟩
  else
    let off := off + ret.toNat
    let subtractions := subtractions ++ [(len, ret.toNat)]
    let len := len - .ofNat ret.toNat
    if len < 3 then ⟨.error (-eoverflow), buf, subtractions⟩
    else
      let buf := buf.write off [cr, lf, 0]
      ⟨.ok (cString buf.cells), buf, subtractions ++ [(len, 3)]⟩

def codeText (code : Int) (multilineStart : Bool) : Bytes :=
  decimal code ++ text (if multilineStart then "-" else " ")

/-- A call: the connection from `conn->buf` on, the arguments, and what the two
formatters give. -/
structure Call where
  conn : Bytes
  conn_length : bufLen ≤ conn.length
  code : Int
  includeCode : Bool
  multilineStart : Bool
  codeError : Option FormatError
  message : Except FormatError Message

namespace Call

def formattedCode (c : Call) : Except FormatError Bytes :=
  match c.codeError with
  | some ret => .error ret
  | none => .ok (codeText c.code c.multilineStart)

def formattedMessage (c : Call) : Except FormatError Bytes :=
  c.message.map Subtype.val

def sendResponse (c : Call) : Response :=
  let buf := .fresh c.conn
  let len := .ofNat bufLen
  if c.includeCode then
    let (ret, buf) := snprintf buf 0 len c.formattedCode
    if ret < 0 then ⟨.error ret, buf, []⟩
    else if ret ≥ len.toNat then ⟨.error (-eoverflow), buf, []⟩
    else sendMessage buf ret.toNat (len - .ofNat ret.toNat) [(len, ret.toNat)] c.formattedMessage
  else sendMessage buf 0 len [] c.formattedMessage

/-- The optional code. -/
def head (c : Call) : Bytes :=
  if c.includeCode then codeText c.code c.multilineStart else []

/-- An error without a send, or the complete reply. -/
def Answers (c : Call) (result : Except Int Bytes) : Prop :=
  result = .error (-eoverflow) ∨
    (∃ ret, (c.codeError = some ret ∨ c.message = .error ret) ∧ result = .error ret.val) ∨
    ∃ message, c.message = .ok message ∧ result = .ok (c.head ++ message.val ++ crlf)

/-- The call is answered, it writes into `conn->buf` only, and nothing is taken from
less. -/
structure Safe (c : Call) (r : Response) : Prop where
  answers : c.Answers r.result
  within : r.buf.Within bufLen
  left : ∀ p ∈ r.subtractions, p.2 ≤ p.1.toNat

/-- The code fits into the buffer, the message on its own too, but not both. -/
def Wraps (c : Call) : Prop :=
  c.codeError = none ∧ c.head.length < bufLen ∧
    ∃ message, c.message = .ok message ∧ message.val.length < bufLen ∧
      bufLen < c.head.length + message.val.length

end Call

theorem snprintf_writes {n off : Nat} {len : UInt32} (h : off + len.toNat ≤ n) (buf : Buffer UInt8)
    (formatted : Except FormatError Bytes) : Writes n buf (snprintf buf off len formatted).2 := by
  cases formatted with
  | error ret => exact .refl
  | ok formatted =>
      simp only [snprintf]
      split
      · exact .refl
      · rename_i hne
        have hpos : len.toNat ≠ 0 := fun hzero => hne (UInt32.toNat_inj.mp hzero)
        apply Writes.write .refl
        rw [List.length_append, List.length_take, List.length_singleton]
        omega

theorem sendMessage_ok (buf : Buffer UInt8) (off : Nat) (len : UInt32)
    (subtractions : List (UInt32 × Nat)) (message : Bytes) :
    sendMessage buf off len subtractions (.ok message) =
      let buf := (snprintf buf off len (.ok message)).2
      if bufLen ≤ message.length then ⟨.error (-eoverflow), buf, subtractions⟩
      else if len - .ofNat message.length < 3 then
        ⟨.error (-eoverflow), buf, subtractions ++ [(len, message.length)]⟩
      else
        let buf := buf.write (off + message.length) [cr, lf, 0]
        ⟨.ok (cString buf.cells), buf,
          subtractions ++ [(len, message.length)] ++ [(len - .ofNat message.length, 3)]⟩ := by
  have hret : (snprintf buf off len (.ok message)).1 = message.length := rfl
  simp only [sendMessage, hret, Int.toNat_natCast, ge_iff_le, Int.ofNat_le]
  rw [if_neg (Int.not_lt.mpr (Int.natCast_nonneg _))]

theorem zero_notMem_map {chars : List Char} (h : ∀ c ∈ chars, c.isDigit = true ∨ c = '-') :
    0 ∉ chars.map fun c => UInt8.ofNat c.toNat := by
  intro hmem
  obtain ⟨c, hc, hzero⟩ := List.mem_map.mp hmem
  rcases h c hc with hdigit | rfl
  · obtain ⟨hlow, hhigh⟩ := Char.isDigit_iff_toNat.mp hdigit
    have hmod := congrArg UInt8.toNat hzero
    rw [UInt8.toNat_ofNat'] at hmod
    change c.toNat % 256 = 0 at hmod
    change 48 ≤ c.toNat at hlow
    change c.toNat ≤ 57 at hhigh
    omega
  · exact absurd hzero (by decide)

theorem decimal_zero_notMem (n : Int) : 0 ∉ decimal n := by
  apply zero_notMem_map
  intro c hc
  rw [Int.repr_eq_if] at hc
  split at hc
  · rw [Nat.toList_repr] at hc
    exact Or.inl (Nat.isDigit_of_mem_toDigits (by decide) (by decide) hc)
  · rw [String.toList_append, List.mem_append] at hc
    rcases hc with hminus | hdigit
    · exact Or.inr (List.mem_singleton.mp hminus)
    · rw [Nat.toList_repr] at hdigit
      exact Or.inl (Nat.isDigit_of_mem_toDigits (by decide) (by decide) hdigit)

theorem codeText_zero_notMem (code : Int) (multilineStart : Bool) :
    0 ∉ codeText code multilineStart := by
  rw [codeText, List.mem_append, not_or]
  refine ⟨decimal_zero_notMem code, ?_⟩
  cases multilineStart with
  | true => decide
  | false => decide

theorem line_zero_notMem (c : Call) (message : Message) : 0 ∉ c.head ++ message.val ++ crlf := by
  have hhead : 0 ∉ c.head := by
    rw [Call.head]
    split
    · exact codeText_zero_notMem _ _
    · exact List.not_mem_nil
  rw [List.mem_append, List.mem_append, not_or, not_or]
  exact ⟨⟨hhead, message.property.1⟩, by decide⟩

theorem put_line {head behind message : Bytes} (h : message.length + 3 ≤ behind.length) :
    ∃ rest, put (put (head ++ behind) head.length (message ++ [0]))
        (head.length + message.length) [cr, lf, 0] = head ++ message ++ crlf ++ 0 :: rest := by
  obtain ⟨bytes, hbytes⟩ : ∃ bytes, behind.take message.length = bytes := ⟨_, rfl⟩
  obtain ⟨more, hmore⟩ : ∃ more, behind.drop message.length = more := ⟨_, rfl⟩
  have hlen : bytes.length = message.length := by
    rw [← hbytes, List.length_take]
    omega
  have hmoreLen : 3 ≤ more.length := by
    rw [← hmore, List.length_drop]
    omega
  obtain ⟨x, y, z, rest, rfl⟩ : ∃ x y z rest, more = x :: y :: z :: rest := by
    match more, hmoreLen with
    | x :: y :: z :: rest, _ => exact ⟨x, y, z, rest, rfl⟩
  refine ⟨rest, ?_⟩
  have hbehind : behind = (bytes ++ [x]) ++ y :: z :: rest := by
    rw [List.append_assoc, List.singleton_append, ← hmore, ← hbytes, List.take_append_drop]
  have hmessage : put (head ++ behind) head.length (message ++ [0]) =
      (head ++ message) ++ ([0, y, z] ++ rest) := by
    have hsame : (message ++ [0]).length = (bytes ++ [x]).length := by
      rw [List.length_append, List.length_append, hlen]
      rfl
    have hput := put_middle head (bytes ++ [x]) (y :: z :: rest) hsame
    rw [hbehind, hput, List.append_assoc, List.append_assoc]
    rfl
  have hend : put ((head ++ message) ++ ([0, y, z] ++ rest)) (head ++ message).length [cr, lf, 0] =
      (head ++ message) ++ ([cr, lf, 0] ++ rest) :=
    put_middle (head ++ message) [0, y, z] rest rfl
  rw [List.length_append] at hend
  rw [hmessage, hend, List.append_assoc (head ++ message)]
  rfl

/-- What the code leaves: it stands at the beginning, and `buf_len` is the rest. -/
structure Begun (c : Call) (buf : Buffer UInt8) (len : UInt32) : Prop where
  cells_eq : ∃ behind, buf.cells = c.head ++ behind
  length_eq : buf.cells.length = c.conn.length
  within : buf.Within bufLen
  head_lt : c.head.length < bufLen
  len_eq : len.toNat = bufLen - c.head.length

section

variable {c : Call} {buf : Buffer UInt8} {len : UInt32} (hbegun : Begun c buf len)
  (subtractions : List (UInt32 × Nat))

include hbegun

theorem snprintf_within (formatted : Except FormatError Bytes) :
    (snprintf buf c.head.length len formatted).2.Within bufLen := by
  have hlt := hbegun.head_lt
  have hlen := hbegun.len_eq
  exact (snprintf_writes (by omega) buf formatted).within hbegun.within

theorem rest_toNat {message : Message} (hroom : c.head.length + message.val.length ≤ bufLen) :
    (len - .ofNat message.val.length).toNat = bufLen - (c.head.length + message.val.length) := by
  have hlen := hbegun.len_eq
  have hsmall : (UInt32.ofNat message.val.length).toNat = message.val.length :=
    UInt32.toNat_ofNat_of_lt' (Nat.lt_trans message.property.2 (by decide))
  rw [UInt32.toNat_sub_of_le _ _ (by rw [UInt32.le_iff_toNat_le]; omega), hsmall, hlen]
  omega

theorem cells_line {message : Message} (hroom : c.head.length + message.val.length + 3 ≤ bufLen) :
    cString (((snprintf buf c.head.length len (.ok message.val)).2.write
      (c.head.length + message.val.length) [cr, lf, 0])).cells =
        c.head ++ message.val ++ crlf := by
  obtain ⟨behind, hbehind⟩ := hbegun.cells_eq
  have hlength := hbegun.length_eq
  have hconn := c.conn_length
  have hlen := hbegun.len_eq
  rw [hbehind, List.length_append] at hlength
  have hwhole : message.val.take (len.toNat - 1) = message.val :=
    List.take_of_length_le (by omega)
  have hne : len ≠ 0 := by
    rintro rfl
    have hzero : (0 : UInt32).toNat = 0 := rfl
    omega
  obtain ⟨rest, hrest⟩ := @put_line c.head behind message.val (by omega)
  have hcells : (((snprintf buf c.head.length len (.ok message.val)).2.write
      (c.head.length + message.val.length) [cr, lf, 0])).cells =
        c.head ++ message.val ++ crlf ++ 0 :: rest := by
    simp only [snprintf, if_neg hne, hwhole, Buffer.write, hbehind]
    exact hrest
  rw [hcells, FtpPath.cString_append (line_zero_notMem c message)]

theorem sendMessage_room {message : Message} (hshort : message.val.length < bufLen)
    (hroom : c.head.length + message.val.length ≤ bufLen) :
    (sendMessage buf c.head.length len subtractions (.ok message.val)).result =
      if bufLen - (c.head.length + message.val.length) < 3 then .error (-eoverflow)
      else .ok (c.head ++ message.val ++ crlf) := by
  have hrest := rest_toNat hbegun hroom
  rw [sendMessage_ok]
  simp only
  rw [if_neg (Nat.not_le.mpr hshort)]
  rcases Nat.lt_or_ge (bufLen - (c.head.length + message.val.length)) 3 with hfull | hend
  · rw [← hrest] at hfull
    rw [if_pos (UInt32.lt_iff_toNat_lt.mpr hfull), if_pos (hrest ▸ hfull)]
  · have hnot : ¬ len - .ofNat message.val.length < 3 := by
      rw [UInt32.lt_iff_toNat_lt, hrest]
      exact Nat.not_lt.mpr hend
    rw [if_neg hnot, if_neg (Nat.not_lt.mpr hend)]
    simp only
    rw [cells_line hbegun (by omega)]

theorem sendMessage_safe (hleft : ∀ p ∈ subtractions, p.2 ≤ p.1.toNat)
    (hroom : ∀ message, c.message = .ok message → message.val.length < bufLen →
      c.head.length + message.val.length ≤ bufLen) :
    c.Safe (sendMessage buf c.head.length len subtractions c.formattedMessage) := by
  have hwithin := snprintf_within hbegun c.formattedMessage
  cases hmessage : c.message with
  | error ret =>
      have hformatted : c.formattedMessage = .error ret := by
        rw [Call.formattedMessage, hmessage]
        rfl
      have hsend : sendMessage buf c.head.length len subtractions (.error ret) =
          ⟨.error ret.val, buf, subtractions⟩ := if_pos ret.property
      rw [hformatted, hsend]
      exact ⟨Or.inr (Or.inl ⟨ret, Or.inr hmessage, rfl⟩), hbegun.within, hleft⟩
  | ok message =>
      have hformatted : c.formattedMessage = .ok message.val := by
        rw [Call.formattedMessage, hmessage]
        rfl
      rw [hformatted] at hwithin ⊢
      rcases Nat.lt_or_ge message.val.length bufLen with hshort | hlong
      · have hfits := hroom message hmessage hshort
        have hrest := rest_toNat hbegun hfits
        have hlen := hbegun.len_eq
        have htaken : ∀ p ∈ subtractions ++ [(len, message.val.length)], p.2 ≤ p.1.toNat := by
          intro p hp
          rcases List.mem_append.mp hp with hold | hnew
          · exact hleft p hold
          · rw [List.mem_singleton.mp hnew]
            simp only
            omega
        have hresult := sendMessage_room hbegun subtractions hshort hfits
        constructor
        · rw [hresult]
          split
          · exact Or.inl rfl
          · exact Or.inr (Or.inr ⟨message, hmessage, rfl⟩)
        · rw [sendMessage_ok]
          simp only
          rw [if_neg (Nat.not_le.mpr hshort)]
          split
          · exact hwithin
          · rename_i hend
            rw [UInt32.lt_iff_toNat_lt, hrest] at hend
            change ¬ _ < 3 at hend
            apply within_write hwithin
            simp only [List.length_cons, List.length_nil]
            omega
        · rw [sendMessage_ok]
          simp only
          rw [if_neg (Nat.not_le.mpr hshort)]
          split
          · exact htaken
          · rename_i hend
            intro p hp
            rcases List.mem_append.mp hp with hold | hnew
            · exact htaken p hold
            · rw [List.mem_singleton.mp hnew]
              rw [UInt32.lt_iff_toNat_lt] at hend
              exact Nat.not_lt.mp hend
      · rw [sendMessage_ok]
        simp only
        rw [if_pos hlong]
        exact ⟨Or.inl rfl, hwithin, hleft⟩

theorem sendMessage_wraps {message : Message} (hmessage : c.message = .ok message)
    (hshort : message.val.length < bufLen) (hwraps : bufLen < c.head.length + message.val.length) :
    ¬ c.Safe (sendMessage buf c.head.length len subtractions c.formattedMessage) := by
  intro hsafe
  have hformatted : c.formattedMessage = .ok message.val := by
    rw [Call.formattedMessage, hmessage]
    rfl
  have hlt := hbegun.head_lt
  have hlen := hbegun.len_eq
  have htaken : (len, message.val.length) ∈
      (sendMessage buf c.head.length len subtractions c.formattedMessage).subtractions := by
    rw [hformatted, sendMessage_ok]
    simp only
    rw [if_neg (Nat.not_le.mpr hshort)]
    split
    · simp
    · simp
  have hle := hsafe.left _ htaken
  simp only at hle
  omega

end

theorem begun_noCode {c : Call} (h : c.includeCode = false) :
    Begun c (.fresh c.conn) (.ofNat bufLen) := by
  have hhead : c.head = [] := by
    rw [Call.head, h]
    rfl
  constructor
  · exact ⟨c.conn, by rw [hhead]; rfl⟩
  · rfl
  · exact within_fresh _ _
  · rw [hhead]
    decide
  · rw [hhead]
    decide

theorem begun_code {c : Call} (hcode : c.formattedCode = .ok c.head)
    (hhead : c.head.length < bufLen) :
    Begun c (snprintf (.fresh c.conn) 0 (.ofNat bufLen) c.formattedCode).2
      (.ofNat bufLen - .ofNat c.head.length) := by
  have hconn := c.conn_length
  have hbig : (UInt32.ofNat bufLen).toNat = bufLen := by decide
  have hsmall : (UInt32.ofNat c.head.length).toNat = c.head.length :=
    UInt32.toNat_ofNat_of_lt' (Nat.lt_trans hhead (by decide))
  have hwrite : (snprintf (.fresh c.conn) 0 (.ofNat bufLen) c.formattedCode).2 =
      (Buffer.fresh c.conn).write 0 (c.head ++ [0]) := by
    rw [hcode, snprintf, if_neg (by decide), hbig, List.take_of_length_le (by omega)]
  rw [hwrite]
  constructor
  · refine ⟨0 :: c.conn.drop (c.head.length + 1), ?_⟩
    have hsame : (c.head ++ [0]).length = (c.conn.take (c.head.length + 1)).length := by
      rw [List.length_append, List.length_singleton, List.length_take]
      omega
    have hput := put_zero_append hsame (c.conn.drop (c.head.length + 1))
    rw [List.take_append_drop, List.append_assoc] at hput
    exact hput
  · exact put_length _ _ _
  · apply within_write (within_fresh _ _)
    rw [List.length_append, List.length_singleton]
    omega
  · exact hhead
  · rw [UInt32.toNat_sub_of_le _ _ (by rw [UInt32.le_iff_toNat_le]; omega), hbig, hsmall]

theorem sendResponse_begun {c : Call} (hcode : c.includeCode = true → c.codeError = none)
    (hhead : c.head.length < bufLen) :
    ∃ buf len subtractions, Begun c buf len ∧ (∀ p ∈ subtractions, p.2 ≤ p.1.toNat) ∧
      c.sendResponse = sendMessage buf c.head.length len subtractions c.formattedMessage := by
  cases hinclude : c.includeCode with
  | false =>
      refine ⟨.fresh c.conn, .ofNat bufLen, [], begun_noCode hinclude, by simp, ?_⟩
      rw [Call.sendResponse, Call.head, hinclude]
      rfl
  | true =>
      have hbig : (UInt32.ofNat bufLen).toNat = bufLen := by decide
      have hformatted : c.formattedCode = .ok c.head := by
        rw [Call.formattedCode, hcode hinclude, Call.head, hinclude]
        rfl
      have hret : (snprintf (.fresh c.conn) 0 (.ofNat bufLen) c.formattedCode).1 =
          c.head.length := by
        rw [hformatted]
        rfl
      refine ⟨_, _, [(.ofNat bufLen, c.head.length)], begun_code hformatted hhead, ?_, ?_⟩
      · intro p hp
        rw [List.mem_singleton.mp hp, hbig]
        exact Nat.le_of_lt hhead
      · rw [Call.sendResponse, hinclude]
        simp only [hret, hbig, Int.toNat_natCast, ge_iff_le, Int.ofNat_le, if_true]
        rw [if_neg (Int.not_lt.mpr (Int.natCast_nonneg _)), if_neg (Nat.not_le.mpr hhead)]

theorem sendResponse_codeError {c : Call} (hinclude : c.includeCode = true) {ret : FormatError}
    (hcode : c.codeError = some ret) : c.sendResponse = ⟨.error ret.val, .fresh c.conn, []⟩ := by
  have hformatted : c.formattedCode = .error ret := by
    rw [Call.formattedCode, hcode]
  rw [Call.sendResponse, hinclude, hformatted]
  exact if_pos ret.property

theorem sendResponse_longCode {c : Call} (hcode : c.includeCode = true → c.codeError = none)
    (hhead : bufLen ≤ c.head.length) :
    c.sendResponse.result = .error (-eoverflow) ∧ c.sendResponse.buf.Within bufLen ∧
      c.sendResponse.subtractions = [] := by
  have hbig : (UInt32.ofNat bufLen).toNat = bufLen := by decide
  cases hinclude : c.includeCode with
  | false =>
      rw [Call.head, hinclude] at hhead
      have hnone : ¬ bufLen ≤ 0 := by decide
      exact absurd hhead hnone
  | true =>
      have hformatted : c.formattedCode = .ok c.head := by
        rw [Call.formattedCode, hcode hinclude, Call.head, hinclude]
        rfl
      have hret : (snprintf (.fresh c.conn) 0 (.ofNat bufLen) c.formattedCode).1 =
          c.head.length := by
        rw [hformatted]
        rfl
      have hsend : c.sendResponse = ⟨.error (-eoverflow),
          (snprintf (.fresh c.conn) 0 (.ofNat bufLen) c.formattedCode).2, []⟩ := by
        rw [Call.sendResponse, hinclude]
        simp only [hret, hbig, Int.toNat_natCast, ge_iff_le, Int.ofNat_le, if_true]
        rw [if_neg (Int.not_lt.mpr (Int.natCast_nonneg _)), if_pos hhead]
      rw [hsend]
      exact ⟨rfl, (snprintf_writes (by omega) _ _).within (within_fresh _ _), rfl⟩

/-- A call is safe unless the message fits into the whole buffer but not behind the
code. -/
theorem safe_iff (c : Call) : c.Safe c.sendResponse ↔ ¬ c.Wraps := by
  rcases Classical.em (c.includeCode = true → c.codeError = none) with hcode | hcode
  · rcases Nat.lt_or_ge c.head.length bufLen with hhead | hhead
    · obtain ⟨buf, len, subtractions, hbegun, hleft, hsend⟩ := sendResponse_begun hcode hhead
      rw [hsend]
      constructor
      · rintro hsafe ⟨-, -, message, hmessage, hshort, hwraps⟩
        exact sendMessage_wraps hbegun subtractions hmessage hshort hwraps hsafe
      · intro hnot
        apply sendMessage_safe hbegun subtractions hleft
        intro message hmessage hshort
        rw [← Nat.not_lt]
        intro hwraps
        apply hnot
        refine ⟨hcode ?_, hhead, message, hmessage, hshort, hwraps⟩
        rw [← Bool.not_eq_false]
        intro hnone
        rw [Call.head, hnone] at hwraps
        exact absurd hwraps (Nat.not_lt.mpr (by simpa using Nat.le_of_lt hshort))
    · obtain ⟨hresult, hwithin, hsubtractions⟩ := sendResponse_longCode hcode hhead
      apply iff_of_true
      · refine ⟨Or.inl hresult, hwithin, ?_⟩
        rw [hsubtractions]
        simp
      · rintro ⟨-, hlt, -⟩
        omega
  · obtain ⟨hinclude, hsome⟩ := Classical.not_imp.mp hcode
    obtain ⟨ret, hret⟩ := Option.ne_none_iff_exists'.mp hsome
    rw [sendResponse_codeError hinclude hret]
    apply iff_of_true
    · exact ⟨Or.inr (Or.inl ⟨ret, Or.inl hret, rfl⟩), within_fresh _ _, by simp⟩
    · rintro ⟨hnone, -⟩
      exact hsome hnone

/-- A message that fits into the buffer, but not behind its code. -/
def longReply : Call where
  conn := List.replicate (bufLen + 8) 0
  conn_length := by decide +kernel
  code := 257
  includeCode := true
  multilineStart := false
  codeError := none
  message := .ok ⟨List.replicate 1021 97, by decide +kernel⟩

/-- One byte more than what is left is taken from it. -/
theorem not_safe_longReply : ¬ longReply.Safe longReply.sendResponse := by
  intro hsafe
  have hle := hsafe.left (.ofNat 1020, 1021) (by decide +kernel)
  exact absurd hle (by decide)

def reply {fs : FtpFiles.FileSystem} (w : World fs) : Except Int Bytes → Int × World fs
  | .error ret => (ret, w)
  | .ok line => w.send .reply line

theorem sendResponse_eq {fs : FtpFiles.FileSystem} (w : World fs) {c : Call} {message : Message}
    (hcode : c.codeError = none) (hmessage : c.message = .ok message) (hnot : ¬ c.Wraps) :
    Ftp.sendResponse w c.code c.includeCode c.multilineStart message.val =
      reply w c.sendResponse.result := by
  have hhead : (if c.includeCode then
      decimal c.code ++ text (if c.multilineStart then "-" else " ") else []) = c.head := rfl
  have hformatted : c.formattedMessage = .ok message.val := by
    rw [Call.formattedMessage, hmessage]
    rfl
  simp only [Ftp.sendResponse, hhead]
  rcases Nat.lt_or_ge c.head.length bufLen with hlt | hle
  · obtain ⟨buf, len, subtractions, hbegun, -, hsend⟩ := sendResponse_begun (fun _ => hcode) hlt
    rw [hsend, hformatted]
    rcases Nat.lt_or_ge message.val.length bufLen with hshort | hlong
    · have hroom : c.head.length + message.val.length ≤ bufLen := by
        rw [← Nat.not_lt]
        intro hwraps
        exact hnot ⟨hcode, hlt, message, hmessage, hshort, hwraps⟩
      rw [sendMessage_room hbegun subtractions hshort hroom, if_neg (Nat.not_le.mpr hshort)]
      split
      · rfl
      · rfl
    · rw [if_pos hlong, sendMessage_ok]
      simp only
      rw [if_pos hlong]
      rfl
  · obtain ⟨hresult, -, -⟩ := sendResponse_longCode (fun _ => hcode) hle
    rw [hresult]
    split
    · rfl
    · rw [if_pos (by omega)]
      rfl

end ZeusLe.FtpResponse
