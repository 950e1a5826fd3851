import S3s.AwsChunked.Truncation
import S3s.AwsChunked.TrailerBlock

/-! # Decoding undoes encoding

The encoder writes the size of each chunk in hexadecimal, its signature in
signed mode, its data, and behind the zero-size chunk the trailer block. Every
split of what it writes is decoded to the data and the trailers.
-/
namespace S3s.AwsChunked
open Fragments SigV4 AwsChunkedStream

variable {ε : Type}

/-- The metadata line of a chunk. -/
def encodeMeta (X : Externals) (unsigned : Bool) (ctx : SignatureCtx) (data : Bytes) : Bytes :=
  if unsigned then unsignedMeta (hexText data.length)
  else signedMeta (hexText data.length) (ctx.chunkSignature X.toCrypto data).hex

/-- The signature context behind a chunk. -/
def nextCtx (X : Externals) (unsigned : Bool) (ctx : SignatureCtx) (data : Bytes) : SignatureCtx :=
  if unsigned then ctx else ctx.advance X.toCrypto data

/-- The chunks that carry data. -/
def encodeChunks (X : Externals) (unsigned : Bool) : SignatureCtx → List Bytes → Bytes
  | _, [] => []
  | ctx, data :: chunks =>
    encodeMeta X unsigned ctx data ++ (data ++ crlf ++
      encodeChunks X unsigned (nextCtx X unsigned ctx data) chunks)

/-- The signature of a trailer block, behind the zero-size chunk. -/
def blockSignature (X : Externals) (unsigned : Bool) (ctx : SignatureCtx)
    (trailers : List Trailer) : Option Sha256Sum :=
  if unsigned then none else some (ctx.trailerSignature X.toCrypto (canonicalOf trailers))

/-- What follows the zero-size chunk. -/
def encodeTrailers (X : Externals) (unsigned : Bool) (ctx : SignatureCtx) (layout : Layout) :
    Option (List Trailer) → Bytes
  | none => layout.before
  | some trailers =>
    encodeBlock layout (blockFields trailers (blockSignature X unsigned ctx trailers))

/-- The whole body. -/
def encode (X : Externals) (unsigned : Bool) (ctx : SignatureCtx) (layout : Layout)
    (chunks : List Bytes) (trailers : Option (List Trailer)) : Bytes :=
  let last := chunks.foldl (nextCtx X unsigned) ctx
  encodeChunks X unsigned ctx chunks ++ (encodeMeta X unsigned last [] ++
    encodeTrailers X unsigned (nextCtx X unsigned last []) layout trailers)

/-- A trailer block with at least one field and at most as many and as large as allowed, the
signature counted in. -/
structure BlockFits (X : Externals) (unsigned : Bool) (ctx : SignatureCtx) (layout : Layout)
    (trailers : List Trailer) : Prop where
  nonempty : blockFields trailers (blockSignature X unsigned ctx trailers) ≠ []
  count : (blockFields trailers (blockSignature X unsigned ctx trailers)).length ≤ maxTrailerHeaders
  size : (encodeTrailers X unsigned ctx layout (some trailers)).length ≤ maxTrailersSize
  canonical : (canonicalOf trailers).length ≤ maxTrailersSize

/-- The header map of the trailers. -/
def recorded (trailers : List Trailer) : HeaderMap := sortEntries (entriesOf trailers)

theorem encodeMeta_line (X : Externals) (unsigned : Bool) (ctx : SignatureCtx) (data : Bytes)
    (h : data.length < 2 ^ 32) :
    ∃ line, lf ∉ line ∧ encodeMeta X unsigned ctx data = line ++ [lf] ∧
      (encodeMeta X unsigned ctx data).length ≤ maxChunkMetaSize := by
  have hlen := hexText_length_le h
  have hhex := hexText_lf data.length
  unfold encodeMeta
  cases unsigned with
  | true =>
    refine ⟨hexText data.length ++ [cr], ?_, by simp [unsignedMeta, crlf], ?_⟩
    · rw [List.mem_append, not_or]
      exact ⟨hhex, by decide⟩
    · rw [if_pos rfl, unsignedMeta, List.length_append, maxChunkMetaSize]
      simp only [crlf, List.length_cons, List.length_nil]
      omega
  | false =>
    have hsig : lf ∉ (ctx.chunkSignature X.toCrypto data).hex := by
      intro hmem
      have hall := List.all_eq_true.mp (Bytes.encodeHex_lowercase
        (ctx.chunkSignature X.toCrypto data).bytes) lf hmem
      exact absurd hall (by decide)
    refine ⟨hexText data.length ++ ascii ";chunk-signature=" ++
      (ctx.chunkSignature X.toCrypto data).hex ++ [cr], ?_, by simp [signedMeta, crlf], ?_⟩
    · simp only [List.mem_append, not_or]
      exact ⟨⟨⟨hhex, by decide⟩, hsig⟩, by decide⟩
    · have hkey : (ascii ";chunk-signature=").length = 17 := by decide
      simp only [Bool.false_eq_true, if_false, signedMeta, List.length_append, Sha256Sum.hex_length,
        hkey, crlf, List.length_cons, List.length_nil, maxChunkMetaSize]
      omega

theorem parseChunkMeta_encodeMeta {X : Externals} (hX : Documented X) (unsigned : Bool)
    (ctx : SignatureCtx) (data : Bytes) (h : data.length < 2 ^ 32) :
    parseChunkMeta X (encodeMeta X unsigned ctx data) =
      some ⟨data.length, if unsigned then none else some (ctx.chunkSignature X.toCrypto data).hex⟩ := by
  have hnat : (UInt32.ofNat data.length).toNat = data.length := UInt32.toNat_ofNat_of_lt' h
  unfold encodeMeta
  cases unsigned with
  | true =>
    rw [if_pos rfl, parseChunkMeta_unsigned X _ _ (hexText_ne_nil _) hexText_endsSize
      (hX.hexU32_hexText h), hnat]
    rfl
  | false =>
    simp only [Bool.false_eq_true, if_false]
    rw [parseChunkMeta_signed X _ _ _ (hexText_ne_nil _) hexText_endsSize (hX.hexU32_hexText h)
      (Sha256Sum.hex_length _), hnat]

/-- The data of a chunk in front of what follows it. -/
def framed (data rest : Bytes) : Bytes := if data = [] then rest else data ++ crlf ++ rest

theorem flatSkip_framed (data rest : Bytes) :
    flatSkip data.length (⟨framed data rest, none⟩ : View UInt8 ε) = some (.ok ⟨rest, none⟩) := by
  rw [flatSkip_eq_ok]
  unfold framed
  by_cases hd : data = []
  · subst hd
    exact .inl ⟨rfl, rfl⟩
  · refine .inr ⟨List.length_pos_of_ne_nil hd, ?_, ?_, rfl⟩
    · simp only [if_neg hd, List.length_append]
      omega
    · simp only [if_neg hd]
      rw [List.append_assoc, List.take_left' rfl]

theorem take_framed (data rest : Bytes) : (framed data rest).take data.length = data := by
  unfold framed
  by_cases hd : data = []
  · subst hd
    rfl
  · rw [if_neg hd, List.append_assoc, List.take_left' rfl]

/-- One turn of the decoder reads one chunk of the encoder. -/
theorem flatStep_encoded {X : Externals} (hX : Documented X) (mode : Mode) (ctx : SignatureCtx)
    (data rest : Bytes) (hmax : data.length ≤ mode.maxChunkSize) (h32 : data.length < 2 ^ 32) :
    flatStep X mode ctx (⟨encodeMeta X mode.unsigned ctx data ++ framed data rest, none⟩ :
        View UInt8 ε) =
      (data, flatAfter X mode data.length (nextCtx X mode.unsigned ctx data) ⟨rest, none⟩) := by
  obtain ⟨line, hlf, hline, hlen⟩ := encodeMeta_line X mode.unsigned ctx data h32
  have hmeta : flatMeta (⟨encodeMeta X mode.unsigned ctx data ++ framed data rest, none⟩ :
      View UInt8 ε) = some (.ok (encodeMeta X mode.unsigned ctx data, ⟨framed data rest, none⟩)) :=
    flatMeta_eq_ok.mpr ⟨line, hlf, hline, hlen, rfl, rfl⟩
  have hparse := parseChunkMeta_encodeMeta hX mode.unsigned ctx data h32
  have hskip : flatSkip data.length (⟨framed data rest, none⟩ : View UInt8 ε) = _ :=
    flatSkip_framed data rest
  unfold flatStep nextCtx
  simp only [hmeta, hparse]
  cases hmode : mode.unsigned with
  | true => simp [hskip, take_framed]
  | false =>
    simp only [Bool.false_eq_true, if_false, hskip, take_framed]
    rw [if_neg (Nat.not_lt.mpr hmax), if_pos trivial]

/-- The chunks that carry data are delivered, and the decoder goes on behind them. -/
theorem decode_encodeChunks {X : Externals} (hX : Documented X) (mode : Mode) (chunks : List Bytes)
    (hchunks : ∀ d ∈ chunks, d ≠ [] ∧ d.length ≤ mode.maxChunkSize ∧ d.length < 2 ^ 32)
    (ctx : SignatureCtx) (rest : Bytes) :
    decode X mode ctx (⟨encodeChunks X mode.unsigned ctx chunks ++ rest, none⟩ : View UInt8 ε) =
      let run := decode X mode (chunks.foldl (nextCtx X mode.unsigned) ctx)
        (⟨rest, none⟩ : View UInt8 ε)
      ⟨chunks.flatten ++ run.data, run.outcome⟩ := by
  induction chunks generalizing ctx with
  | nil => rfl
  | cons data chunks ih =>
    obtain ⟨hne, hmax, h32⟩ := hchunks data List.mem_cons_self
    have hcontent : encodeChunks X mode.unsigned ctx (data :: chunks) ++ rest =
        encodeMeta X mode.unsigned ctx data ++ framed data
          (encodeChunks X mode.unsigned (nextCtx X mode.unsigned ctx data) chunks ++ rest) := by
      rw [encodeChunks, framed, if_neg hne]
      simp only [List.append_assoc]
    have hstep := flatStep_encoded (ε := ε) hX mode ctx data
      (encodeChunks X mode.unsigned (nextCtx X mode.unsigned ctx data) chunks ++ rest) hmax h32
    rw [flatAfter, if_neg (by simpa using hne)] at hstep
    rw [hcontent, decode_next hstep, ih fun d hd => hchunks d (List.mem_cons_of_mem _ hd)]
    simp only [List.foldl_cons, List.flatten_cons, List.append_assoc]

theorem encodeBlock_ne (layout : Layout) {fields : List HeaderField} (h : fields ≠ []) :
    encodeBlock layout fields ≠ [] ∧ encodeBlock layout fields ≠ crlf := by
  have hcolon : (58 : UInt8) ∈ encodeBlock layout fields := by
    apply List.mem_append_right
    cases fields with
    | nil => exact (h rfl).elim
    | cons f fields =>
      have hline : (58 : UInt8) ∈ f.line := by simp [HeaderField.line]
      cases fields with
      | nil => exact List.mem_append_left _ hline
      | cons g fields =>
        rw [encodeFields]
        · exact List.mem_append_left _ (List.mem_append_left _ hline)
        · simp
  constructor
  · intro hnil
    rw [hnil] at hcolon
    exact absurd hcolon List.not_mem_nil
  · intro hcrlf
    rw [hcrlf] at hcolon
    exact absurd hcolon (by decide)

theorem verifyTrailers_encodeBlock (X : Externals) (unsigned : Bool) (ctx : SignatureCtx)
    (layout : Layout) (trailers : List Trailer) (hfits : BlockFits X unsigned ctx layout trailers) :
    (verifyTrailers X ctx unsigned (encodeTrailers X unsigned ctx layout (some trailers)) :
      Except (AwsChunkedStreamError ε) _) = .ok (recorded trailers) := by
  have hparse := parseTrailingHeaders_encodeBlock (ε := ε) layout trailers _ hfits.count
    hfits.canonical
  unfold verifyTrailers encodeTrailers
  rw [hparse]
  unfold blockSignature
  cases unsigned with
  | true => rfl
  | false =>
    simp only [Bool.false_eq_true, if_false, Option.map_some]
    rw [Sha256Sum.fromUtf8_bind_fromHex, Sha256Sum.fromHex_hex]
    simp only [ne_eq, not_true_eq_false, if_false]
    rfl

theorem buildTrailers_recorded {X : Externals} (hX : Documented X) {unsigned : Bool}
    {ctx : SignatureCtx} {layout : Layout} {trailers : List Trailer}
    (hfits : BlockFits X unsigned ctx layout trailers) :
    buildTrailers X (recorded trailers) = some (recorded trailers) := by
  apply buildTrailers_entries hX
  intro e he
  have hmem := (List.mem_insertionSort _).mp he
  obtain ⟨t, ht, rfl⟩ := List.mem_map.mp hmem
  refine ⟨t.toHeaderField, rfl, ?_⟩
  have hfield : t.toHeaderField ∈ blockFields trailers (blockSignature X unsigned ctx trailers) :=
    List.mem_append_left _ (List.mem_map_of_mem ht)
  have hline := line_length_le_encodeFields layout.ending hfield
  have hsize := hfits.size
  rw [encodeTrailers, encodeBlock, List.length_append, maxTrailersSize] at hsize
  rw [HeaderField.line, List.length_append] at hline
  omega

/-- The trailers behind the zero-size chunk are read back. -/
theorem flatTrailers_encodeTrailers {X : Externals} (hX : Documented X) (unsigned : Bool)
    (ctx : SignatureCtx) (layout : Layout) (trailers : Option (List Trailer))
    (hfits : ∀ ts ∈ trailers, BlockFits X unsigned ctx layout ts) :
    flatTrailers X (⟨encodeTrailers X unsigned ctx layout trailers, none⟩ : View UInt8 ε) ctx unsigned =
      .ok (trailers.map recorded) := by
  cases trailers with
  | none =>
    unfold encodeTrailers Layout.before
    cases layout.blankBefore <;> rfl
  | some ts =>
    have hts := hfits ts rfl
    have hne := encodeBlock_ne layout hts.nonempty
    unfold flatTrailers View.exhausted
    rw [if_neg (Nat.not_lt.mpr hts.size)]
    simp only
    rw [if_neg, verifyTrailers_encodeBlock X unsigned ctx layout ts hts]
    · simp only [buildTrailers_recorded hX hts, Option.map_some]
    · rw [Bool.or_eq_true, List.isEmpty_iff, beq_iff_eq, not_or]
      exact hne

/-- The decoder on an encoded body. -/
theorem decode_encode {X : Externals} (hX : Documented X) (mode : Mode) (ctx : SignatureCtx)
    (layout : Layout) (chunks : List Bytes) (trailers : Option (List Trailer))
    (hchunks : ∀ d ∈ chunks, d ≠ [] ∧ d.length ≤ mode.maxChunkSize ∧ d.length < 2 ^ 32)
    (hfits : ∀ ts ∈ trailers, BlockFits X mode.unsigned
      (nextCtx X mode.unsigned (chunks.foldl (nextCtx X mode.unsigned) ctx) []) layout ts) :
    decode X mode ctx (⟨encode X mode.unsigned ctx layout chunks trailers, none⟩ : View UInt8 ε) =
      ⟨chunks.flatten, .ok (trailers.map recorded)⟩ := by
  have hstep := flatStep_encoded (ε := ε) hX mode (chunks.foldl (nextCtx X mode.unsigned) ctx) []
    (encodeTrailers X mode.unsigned (nextCtx X mode.unsigned
      (chunks.foldl (nextCtx X mode.unsigned) ctx) []) layout trailers)
    (Nat.zero_le _) (by decide)
  rw [flatAfter, if_pos List.length_nil, flatTrailers_encodeTrailers hX _ _ _ _ hfits] at hstep
  have hframed : ∀ rest : Bytes, framed [] rest = rest := fun rest => if_pos rfl
  rw [hframed] at hstep
  rw [encode, decode_encodeChunks hX mode chunks hchunks]
  simp only [decode_stop hstep, List.append_nil]

/-- Over every split of an encoded body: the stream reaches a verdict, it ends cleanly exactly
when the declared length is that of the data, and then it has yielded the data and recorded, under
every name, the values of the trailers of that name. -/
theorem stream_decodes_encoding (X : Externals) (hX : Documented X) (args : StreamArgs)
    (layout : Layout) (chunks : List Bytes) (trailers : Option (List Trailer))
    (hchunks : ∀ d ∈ chunks, d ≠ [] ∧ d.length ≤ args.maxChunkSize ∧ d.length < 2 ^ 32)
    (hfits : ∀ ts ∈ trailers, BlockFits X args.unsigned (nextCtx X args.unsigned
      (chunks.foldl (nextCtx X args.unsigned) (args.ctx X)) []) layout ts)
    (fs : List Bytes)
    (hfs : fs.flatten = encode X args.unsigned (args.ctx X) layout chunks trailers) :
    ∃ v : Verdict ε,
      (∃ polls, ∀ schedule : List Bool, polls ≤ schedule.count true →
        consume (new X args (Body.ofFragments fs)) schedule = some v) ∧
      ((∃ data map, v = .clean data map) ↔ args.decodedContentLength = chunks.flatten.length) ∧
      ∀ data map, v = .clean data map → data = chunks.flatten ∧
        map.isSome = trailers.isSome ∧ ∀ ts ∈ trailers, ∀ m ∈ map, ∀ name,
          HeaderMap.getAll m name = HeaderMap.getAll (entriesOf ts) name := by
  have hdecode : decode X args.mode (args.ctx X) (view [] (Body.ofFragments fs : Body UInt8 ε)) =
      ⟨chunks.flatten, .ok (trailers.map recorded)⟩ := by
    rw [view_ofFragments, List.nil_append, hfs]
    exact decode_encode hX args.mode (args.ctx X) layout chunks trailers hchunks hfits
  refine ⟨judge chunks.flatten (.ok (trailers.map recorded)) args.decodedContentLength,
    ⟨(new X args (Body.ofFragments fs : Body UInt8 ε)).items.length + 1, ?_⟩, ?_, ?_⟩
  · intro schedule hcount
    rw [consume_new_of_count X args _ schedule (by omega), hdecode]
  · constructor
    · rintro ⟨data, map, h⟩
      exact (judge_eq_clean.mp h).2.2.symm
    · intro h
      exact ⟨chunks.flatten, _, judge_eq_clean.mpr ⟨rfl, rfl, h.symm⟩⟩
  · intro data map h
    obtain ⟨hmap, hdata, -⟩ := judge_eq_clean.mp h
    simp only [Except.ok.injEq] at hmap
    subst hmap
    refine ⟨hdata, Option.isSome_map, ?_⟩
    intro ts hts m hm name
    rw [Option.mem_def] at hts
    subst hts
    rw [Option.map_some, Option.mem_some_iff] at hm
    subst hm
    exact getAll_sortEntries (entriesOf ts) name

/-- A trailer with a checksum. -/
def sampleTrailer : Trailer where
  name := ascii "x-amz-checksum-crc32c"
  value := ascii "sOO8/Q=="
  name_ne_nil := by decide
  name_token := by decide +kernel
  value_visible := by decide +kernel
  value_head := by decide +kernel
  value_last := by decide +kernel
  name_ne_signature := by decide

/-- A signed body of three bytes and one trailer. -/
def sampleEncoding : Bytes :=
  encode (reference constantCrypto) false ((StreamArgs.sample 3 false).ctx (reference constantCrypto))
    ⟨false, .line⟩ [ascii "abc"] (some [sampleTrailer])

theorem stream_decodes_encoding_sample :
    ∃ v : Verdict Unit,
      (∃ polls, ∀ schedule : List Bool, polls ≤ schedule.count true →
        consume (new (reference constantCrypto) (StreamArgs.sample 3 false)
          (Body.ofFragments [sampleEncoding.take 84, sampleEncoding.drop 84])) schedule = some v) ∧
      ((∃ data map, v = .clean data map) ↔ 3 = [ascii "abc"].flatten.length) ∧
      ∀ data map, v = .clean data map → data = [ascii "abc"].flatten ∧
        map.isSome = (some [sampleTrailer]).isSome ∧ ∀ ts ∈ some [sampleTrailer], ∀ m ∈ map, ∀ name,
          HeaderMap.getAll m name = HeaderMap.getAll (entriesOf ts) name := by
  refine stream_decodes_encoding (reference constantCrypto) (reference_documented constantCrypto)
    (StreamArgs.sample 3 false) ⟨false, .line⟩ [ascii "abc"] (some [sampleTrailer]) ?_ ?_
    [sampleEncoding.take 84, sampleEncoding.drop 84] ?_
  · decide
  · intro ts hts
    rw [Option.mem_some_iff] at hts
    subst hts
    exact ⟨List.cons_ne_nil _ _, by decide, by decide +kernel, by decide +kernel⟩
  · rw [List.flatten_cons, List.flatten_cons, List.flatten_nil, List.append_nil,
      List.take_append_drop]
    rfl

end S3s.AwsChunked
