import S3s.Library.Wire

/-! # Messages of the event stream

How a message is laid out in chunks, and the framing by which a client reads it. The
checksum is any function that can be computed piece by piece.
-/
namespace S3s.EventStream

/-- `Crc32`: a checksum of four bytes that is fed piece by piece. -/
structure Crc32 where
  State : Type
  new : State
  update : State → Bytes → State
  finalize : State → UInt32
  update_update : ∀ s a b, update (update s a) b = update s (a ++ b)

/-- `checksum_u32` -/
def Crc32.checksumU32 (crc : Crc32) (data : Bytes) : Nat := (crc.finalize (crc.update crc.new data)).toNat

theorem Crc32.checksumU32_lt (crc : Crc32) (data : Bytes) : crc.checksumU32 data < 256 ^ 4 :=
  UInt32.toNat_lt _

/-- CRC-32 as it is used here, bit by bit. -/
def Crc32.isoHdlc : Crc32 where
  State := UInt32
  new := 0xFFFFFFFF
  update := List.foldl fun c b =>
    Nat.iterate (fun c => if c &&& 1 = 1 then (c >>> 1) ^^^ 0xEDB88320 else c >>> 1) 8
      (c ^^^ b.toUInt32)
  finalize c := c ^^^ 0xFFFFFFFF
  update_update _ _ _ := (List.foldl_append).symm

example : Crc32.isoHdlc.checksumU32 (ascii "123456789") = 0xCBF43926 := by decide +kernel

/-- `Header` -/
structure Header where
  name : Bytes
  value : Bytes
deriving DecidableEq

/-- `Message` -/
structure Message where
  headers : List Header
  payload : Option Bytes
deriving DecidableEq

/-- `SerError` -/
inductive SerError where
  | lengthOverflow
  | intOverflow
deriving DecidableEq

def preludeByteLength : Nat := 12
def messageCrcByteLength : Nat := 4
def messageOverheadByteLength : Nat := preludeByteLength + messageCrcByteLength

/-- `usize::checked_add` -/
def checkedAdd (a b : Nat) : Option Nat := if a + b < 2 ^ 64 then some (a + b) else none

/-- `u8::try_from` and the like. -/
def tryFrom (bits n : Nat) : Except SerError Nat :=
  if n < 2 ^ bits then .ok n else .error .intOverflow

namespace Message

/-- The closure of `try_fold` that adds a header's length. -/
def addHeader (acc : Nat) (h : Header) : Option Nat := do
  let acc ← checkedAdd acc (1 + 1 + 2)
  let acc ← checkedAdd acc h.name.length
  checkedAdd acc h.value.length

/-- The headers' length. -/
def headersLen (headers : List Header) : Option Nat := headers.foldlM addHeader 0

/-- The message's length. -/
def totalLen (m : Message) : Option Nat :=
  let payloadLen := (m.payload.map List.length).getD 0
  (headersLen m.headers).bind fun acc =>
    (checkedAdd acc messageOverheadByteLength).bind fun acc => checkedAdd acc payloadLen

/-- The loop over the headers: each is written behind what is in the buffer. -/
def writeHeaders (buf : Bytes) : List Header → Except SerError Bytes
  | [] => .ok buf
  | h :: headers => do
    let nameLength ← tryFrom 8 h.name.length
    let valueLength ← tryFrom 16 h.value.length
    writeHeaders
      (buf ++ Wire.be 1 nameLength ++ h.name ++ Wire.be 1 7 ++ Wire.be 2 valueLength ++ h.value) headers

/-- `serialize_chunks` -/
def serializeChunks (crc : Crc32) (m : Message) : Except SerError (List Bytes) := do
  let totalLen ← m.totalLen.elim (.error .lengthOverflow) .ok
  let totalByteLength ← tryFrom 32 totalLen
  let headersLen ← (headersLen m.headers).elim (.error .lengthOverflow) .ok
  let headersByteLength ← tryFrom 32 headersLen
  let payload := m.payload.filter fun payload => !payload.isEmpty
  let buf := Wire.be 4 totalByteLength ++ Wire.be 4 headersByteLength
  let buf := buf ++ Wire.be 4 (crc.checksumU32 buf)
  let buf ← writeHeaders buf m.headers
  match payload with
  | some payload =>
    let messageCrc := crc.update (crc.update crc.new buf) payload
    .ok [buf, payload, Wire.be 4 (crc.finalize messageCrc).toNat]
  | none => .ok [buf ++ Wire.be 4 (crc.checksumU32 buf)]

/-- The length of a header on the wire. -/
def headerLength (h : Header) : Nat := 4 + h.name.length + h.value.length

/-- The length of a message on the wire. -/
def totalLength (m : Message) : Nat :=
  16 + (m.headers.map headerLength).sum + (m.payload.getD []).length

/-- The limits of the format. -/
def Fits (m : Message) : Prop :=
  (∀ h ∈ m.headers, h.name.length < 2 ^ 8 ∧ h.value.length < 2 ^ 16) ∧ m.totalLength < 2 ^ 32

instance (m : Message) : Decidable m.Fits := inferInstanceAs (Decidable (_ ∧ _))

/-- A header on the wire. -/
def headerBytes (h : Header) : Bytes :=
  Wire.be 1 h.name.length ++ h.name ++ Wire.be 1 7 ++ Wire.be 2 h.value.length ++ h.value

/-- The headers on the wire. -/
def headersBytes (m : Message) : Bytes := m.headers.flatMap headerBytes

/-- The prelude: both lengths and their checksum. -/
def prelude (crc : Crc32) (m : Message) : Bytes :=
  let lengths := Wire.be 4 m.totalLength ++ Wire.be 4 m.headersBytes.length
  lengths ++ Wire.be 4 (crc.checksumU32 lengths)

/-- A message on the wire. -/
def bytes (crc : Crc32) (m : Message) : Bytes :=
  let body := m.prelude crc ++ m.headersBytes ++ m.payload.getD []
  body ++ Wire.be 4 (crc.checksumU32 body)

section Chunks

theorem writeHeaders_of_fits {buf : Bytes} {headers : List Header}
    (h : ∀ h ∈ headers, h.name.length < 2 ^ 8 ∧ h.value.length < 2 ^ 16) :
    writeHeaders buf headers = .ok (buf ++ headers.flatMap headerBytes) := by
  induction headers generalizing buf with
  | nil => simp [writeHeaders]
  | cons header headers ih =>
    obtain ⟨hname, hvalue⟩ := h header List.mem_cons_self
    simp only [writeHeaders, tryFrom, if_pos hname, if_pos hvalue, bind, Except.bind]
    rw [ih fun h' hh' => h h' (List.mem_cons_of_mem _ hh')]
    simp [headerBytes]

theorem writeHeaders_of_not_fits {buf : Bytes} {headers : List Header}
    (h : ¬∀ h ∈ headers, h.name.length < 2 ^ 8 ∧ h.value.length < 2 ^ 16) :
    writeHeaders buf headers = .error .intOverflow := by
  induction headers generalizing buf with
  | nil => exact (h (by simp)).elim
  | cons header headers ih =>
    by_cases hname : header.name.length < 2 ^ 8
    · by_cases hvalue : header.value.length < 2 ^ 16
      · have hrest : ¬∀ h ∈ headers, h.name.length < 2 ^ 8 ∧ h.value.length < 2 ^ 16 := by
          intro hall
          exact h (List.forall_mem_cons.mpr ⟨⟨hname, hvalue⟩, hall⟩)
        simp only [writeHeaders, tryFrom, if_pos hname, if_pos hvalue, bind, Except.bind]
        exact ih hrest
      · simp only [writeHeaders, tryFrom, if_pos hname, if_neg hvalue, bind, Except.bind]
    · simp only [writeHeaders, tryFrom, if_neg hname, bind, Except.bind]

theorem checkedAdd_bind (a b c : Nat) :
    ((checkedAdd a b).bind fun a => checkedAdd a c) = checkedAdd a (b + c) := by
  by_cases hb : a + b < 2 ^ 64
  · simp only [checkedAdd, if_pos hb, Option.bind_some, Nat.add_assoc]
  · have hc : ¬a + (b + c) < 2 ^ 64 := by omega
    simp only [checkedAdd, if_neg hb, if_neg hc, Option.bind_none]

theorem addHeader_eq (acc : Nat) (h : Header) :
    addHeader acc h = checkedAdd acc (headerLength h) := by
  have h₁ := checkedAdd_bind acc (1 + 1 + 2) h.name.length
  have h₂ := checkedAdd_bind acc (1 + 1 + 2 + h.name.length) h.value.length
  rw [← h₁, Option.bind_assoc] at h₂
  exact h₂

theorem headersLen_eq (headers : List Header) :
    headersLen headers = checkedAdd 0 (headers.map headerLength).sum := by
  have hfold : ∀ acc, acc < 2 ^ 64 →
      headers.foldlM addHeader acc = checkedAdd acc (headers.map headerLength).sum := by
    induction headers with
    | nil =>
      intro acc hacc
      exact (if_pos hacc).symm
    | cons header headers ih =>
      intro acc hacc
      rw [List.foldlM_cons, addHeader_eq, List.map_cons, List.sum_cons, ← checkedAdd_bind]
      by_cases hlt : acc + headerLength header < 2 ^ 64
      · simp only [checkedAdd, if_pos hlt, Option.bind_eq_bind, Option.bind_some]
        exact ih _ hlt
      · simp only [checkedAdd, if_neg hlt, Option.bind_eq_bind, Option.bind_none]
  exact hfold 0 (by decide)

theorem headerBytes_length (h : Header) : (headerBytes h).length = headerLength h := by
  simp [headerBytes, headerLength]
  omega

theorem headersBytes_length (m : Message) :
    m.headersBytes.length = (m.headers.map headerLength).sum := by
  rw [headersBytes, List.length_flatMap]
  exact congrArg List.sum (List.map_congr_left fun h _ => headerBytes_length h)

/-- The lengths that are computed before anything is written. -/
theorem totalLen_eq (m : Message) : m.totalLen = checkedAdd 0 m.totalLength := by
  have hpayload : (m.payload.map List.length).getD 0 = (m.payload.getD []).length := by
    cases m.payload <;> rfl
  rw [totalLen, headersLen_eq, ← Option.bind_assoc, checkedAdd_bind, checkedAdd_bind, hpayload, totalLength,
    Nat.add_comm 16]
  rfl

theorem checkedAdd_of_lt {n : Nat} (h : n < 2 ^ 64) : checkedAdd 0 n = some n := by
  rw [checkedAdd, Nat.zero_add, if_pos h]

theorem serializeChunks_of_fits (crc : Crc32) {m : Message} (h : m.Fits) :
    ∃ chunks, m.serializeChunks crc = .ok chunks ∧ chunks.flatten = m.bytes crc := by
  obtain ⟨hheaders, htotal⟩ := h
  have hsum : (m.headers.map headerLength).sum < 2 ^ 32 := by
    rw [totalLength] at htotal
    omega
  have hwrite : writeHeaders (m.prelude crc) m.headers = .ok (m.prelude crc ++ m.headersBytes) :=
    writeHeaders_of_fits hheaders
  rw [prelude, headersBytes_length] at hwrite
  simp only [serializeChunks, totalLen_eq, headersLen_eq, checkedAdd_of_lt (htotal.trans (by decide)),
    checkedAdd_of_lt (hsum.trans (by decide)), Option.elim_some, tryFrom, if_pos htotal, if_pos hsum,
    bind, Except.bind, hwrite]
  cases hpayload : m.payload with
  | none =>
    refine ⟨_, rfl, ?_⟩
    simp [bytes, prelude, headersBytes_length, hpayload]
  | some payload =>
    cases payload with
    | nil =>
      refine ⟨_, rfl, ?_⟩
      simp [bytes, prelude, headersBytes_length, hpayload]
    | cons b payload =>
      refine ⟨_, rfl, ?_⟩
      simp [bytes, prelude, headersBytes_length, hpayload, crc.update_update, Crc32.checksumU32]

theorem serializeChunks_of_not_fits (crc : Crc32) {m : Message} (h : ¬m.Fits) :
    ∃ e, m.serializeChunks crc = .error e := by
  by_cases htotal : m.totalLength < 2 ^ 32
  · have hsum : (m.headers.map headerLength).sum < 2 ^ 32 := by
      rw [totalLength] at htotal
      omega
    have hheaders : ¬∀ h ∈ m.headers, h.name.length < 2 ^ 8 ∧ h.value.length < 2 ^ 16 := by
      intro hall
      exact h ⟨hall, htotal⟩
    refine ⟨.intOverflow, ?_⟩
    simp only [serializeChunks, totalLen_eq, headersLen_eq,
      checkedAdd_of_lt (htotal.trans (by decide)), checkedAdd_of_lt (hsum.trans (by decide)),
      Option.elim_some, tryFrom, if_pos htotal, if_pos hsum, bind, Except.bind,
      writeHeaders_of_not_fits hheaders]
  · by_cases hlarge : m.totalLength < 2 ^ 64
    · refine ⟨.intOverflow, ?_⟩
      simp only [serializeChunks, totalLen_eq, checkedAdd_of_lt hlarge, Option.elim_some, tryFrom,
        if_neg htotal, bind, Except.bind]
    · refine ⟨.lengthOverflow, ?_⟩
      simp only [serializeChunks, totalLen_eq, checkedAdd, Nat.zero_add, if_neg hlarge,
        Option.elim_none, bind, Except.bind]

end Chunks

end Message

/-- A message as a client sees it. Whether a message without data had a payload is not on the
wire. -/
structure Frame where
  headers : List Header
  payload : Bytes
deriving DecidableEq

/-- What a message says to a client. -/
def Message.frame (m : Message) : Frame := ⟨m.headers, m.payload.getD []⟩

section Framing

open Wire

/-- A header: its name behind a length of one byte, the type of a string, its value behind a
length of two bytes. -/
def readHeader : Reader Header := fun s => do
  let (nameLength, s) ← readWord 1 s
  let (name, s) ← readBytes nameLength s
  let (valueType, s) ← readWord 1 s
  if valueType ≠ 7 then none
  else
    let (valueLength, s) ← readWord 2 s
    let (value, s) ← readBytes valueLength s
    some (⟨name, value⟩, s)

/-- One message of the stream, with both of its checksums. -/
def readFrame (crc : Crc32) : Reader Frame := fun s => do
  let (totalLength, s₁) ← readWord 4 s
  let (headersLength, s₂) ← readWord 4 s₁
  let (preludeCrc, s₃) ← readWord 4 s₂
  if preludeCrc ≠ crc.checksumU32 (s.take 8) then none
  else if totalLength < 16 + headersLength then none
  else
    let (headers, s₄) ← readBytes headersLength s₃
    let (payload, s₅) ← readBytes (totalLength - 16 - headersLength) s₄
    let (messageCrc, rest) ← readWord 4 s₅
    if messageCrc ≠ crc.checksumU32 (s.take (totalLength - 4)) then none
    else
      let headers ← readAll readHeader headers
      some (⟨headers, payload⟩, rest)

theorem readHeader_headerBytes {h : Header}
    (hh : h.name.length < 2 ^ 8 ∧ h.value.length < 2 ^ 16) (rest : Bytes) :
    readHeader (Message.headerBytes h ++ rest) = some (h, rest) := by
  have hname : h.name.length < 256 ^ 1 := hh.1
  have hvalue : h.value.length < 256 ^ 2 := hh.2
  simp [readHeader, Message.headerBytes, List.append_assoc, readWord_be hname, readWord_be hvalue,
    readWord_be (show 7 < 256 ^ 1 by decide)]

theorem Message.readAll_headersBytes {m : Message} (h : m.Fits) :
    readAll readHeader m.headersBytes = some m.headers := by
  rw [← List.map_id m.headers]
  apply readAll_flatMap
  · intro header hheader rest
    exact readHeader_headerBytes (h.1 header hheader) rest
  · intro header _ hnil
    have hlength := Message.headerBytes_length header
    rw [hnil, headerLength, List.length_nil] at hlength
    omega

theorem Message.totalLength_eq (m : Message) :
    m.totalLength = 16 + m.headersBytes.length + (m.payload.getD []).length := by
  rw [totalLength, headersBytes_length]

/-- A message is read from its bytes, whatever stands behind them. -/
theorem readFrame_bytes (crc : Crc32) {m : Message} (h : m.Fits) (rest : Bytes) :
    readFrame crc (m.bytes crc ++ rest) = some (m.frame, rest) := by
  have htotal : m.totalLength < 256 ^ 4 := h.2
  have hlength := m.totalLength_eq
  have hheaders : m.headersBytes.length < 256 ^ 4 := by omega
  generalize hlengths : be 4 m.totalLength ++ be 4 m.headersBytes.length = lengths
  have hlengths8 : lengths.length = 8 := by simp [← hlengths]
  generalize hbody : lengths ++ be 4 (crc.checksumU32 lengths) ++ m.headersBytes ++ m.payload.getD [] =
    body
  have hbodyLength : body.length = m.totalLength - 4 := by
    simp [← hbody, hlengths8]
    omega
  have hbytes : m.bytes crc = body ++ be 4 (crc.checksumU32 body) := by
    simp only [Message.bytes, Message.prelude, hlengths, hbody]
  have htake8 : (m.bytes crc ++ rest).take 8 = lengths := by
    rw [hbytes, ← hbody]
    simp [hlengths8]
  have htake : (m.bytes crc ++ rest).take (m.totalLength - 4) = body := by
    rw [hbytes, ← hbodyLength]
    simp
  have hsplit : m.bytes crc ++ rest = be 4 m.totalLength ++ (be 4 m.headersBytes.length ++
      (be 4 (crc.checksumU32 lengths) ++ (m.headersBytes ++ (m.payload.getD [] ++
        (be 4 (crc.checksumU32 body) ++ rest))))) := by
    rw [hbytes, ← hbody, ← hlengths]
    simp
  have hpayload : m.totalLength - 16 - m.headersBytes.length = (m.payload.getD []).length := by omega
  have hroom : ¬m.totalLength < 16 + m.headersBytes.length := by omega
  rw [hsplit] at htake
  simp only [readFrame, htake8]
  rw [hsplit]
  simp [readWord_be htotal, readWord_be hheaders, readWord_be (crc.checksumU32_lt _), hpayload,
    hroom, htake, Message.readAll_headersBytes h, Message.frame]

/-- The messages of a stream are read from its bytes. -/
theorem readAll_bytes (crc : Crc32) {messages : List Message} (h : ∀ m ∈ messages, m.Fits) :
    readAll (readFrame crc) (messages.flatMap (Message.bytes crc)) =
      some (messages.map Message.frame) := by
  apply readAll_flatMap
  · intro m hm rest
    exact readFrame_bytes crc (h m hm) rest
  · intro m _ hnil
    have hlength := congrArg List.length hnil
    simp [Message.bytes] at hlength

end Framing

end S3s.EventStream
