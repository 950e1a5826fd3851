import S3s.Library.Decimal
import S3s.Library.Delimited
import S3s.Library.Words
import S3s.Ops.Presigned

/-! # Authorization headers as texts

The parser of `Authorization` inverts its format: what it accepts is the text of what
it returns, with white space at the places the grammar has, and all such texts are
accepted. The same holds of the dates and of the scope, which are written again into
the string to sign.
-/
namespace S3s.SigV4
open Delimited Decimal

section Digits

theorem digit_eq_some {c : UInt8} {n : Nat} :
    digit c = some n ↔ Bytes.isDigit c = true ∧ n = c.toNat - 48 := by
  unfold digit
  split
  · next h => simp [h, eq_comm]
  · next h => simp [h]

/-- Two digits are the two digits of a number. -/
theorem digit2_iff {a b : UInt8} {n : Nat} :
    digit2 a b = some n ↔ n < 100 ∧ Bytes.decimalPadded 2 n = [a, b] := by
  constructor
  · intro h
    unfold digit2 at h
    split at h
    · next x y hx hy =>
      obtain ⟨ha, rfl⟩ := digit_eq_some.mp hx
      obtain ⟨hb, rfl⟩ := digit_eq_some.mp hy
      have hall : [a, b].all Bytes.isDigit = true := by simp [ha, hb]
      have hvalue : value [a, b] = n := by
        rw [← Option.some.inj h]
        simp [value]
      rw [← hvalue]
      exact ⟨value_lt hall, decimalPadded_value ⟨List.cons_ne_nil _ _, hall⟩⟩
    · cases h
  · rintro ⟨-, h⟩
    have hall := all_decimalPadded 2 n
    have hvalue := value_decimalPadded 2 n
    rw [h] at hall hvalue
    simp only [List.all_cons, List.all_nil, Bool.and_true, Bool.and_eq_true] at hall
    rw [digit2, digit_eq_some.mpr ⟨hall.1, rfl⟩, digit_eq_some.mpr ⟨hall.2, rfl⟩, ← hvalue]
    simp [value]

/-- Four digits are the four digits of a number. -/
theorem digit4_iff {a b c d : UInt8} {n : Nat} :
    digit4 a b c d = some n ↔ n < 10000 ∧ Bytes.decimalPadded 4 n = [a, b, c, d] := by
  have hpair : ∀ {a b : UInt8} {n : Nat}, digit2 a b = some n →
      [a, b].all Bytes.isDigit = true ∧ value [a, b] = n := by
    intro a b n h
    obtain ⟨-, htext⟩ := digit2_iff.mp h
    rw [← htext]
    exact ⟨all_decimalPadded 2 n, value_decimalPadded 2 n⟩
  have hof : ∀ {a b : UInt8}, [a, b].all Bytes.isDigit = true → digit2 a b = some (value [a, b]) := by
    intro a b h
    exact digit2_iff.mpr ⟨value_lt h, decimalPadded_value ⟨List.cons_ne_nil _ _, h⟩⟩
  have hsplit : value [a, b, c, d] = value [a, b] * 100 + value [c, d] := by
    simp only [value, List.foldl_cons, List.foldl_nil]
    omega
  constructor
  · intro h
    unfold digit4 at h
    split at h
    · next x y hx hy =>
      obtain ⟨hab, rfl⟩ := hpair hx
      obtain ⟨hcd, rfl⟩ := hpair hy
      have hall : [a, b, c, d].all Bytes.isDigit = true := by
        rw [show [a, b, c, d] = [a, b] ++ [c, d] from rfl, List.all_append, hab, hcd, Bool.and_self]
      have hlt : value [a, b, c, d] < 10 ^ 4 := value_lt hall
      rw [← Option.some.inj h, ← hsplit]
      exact ⟨by omega, decimalPadded_value ⟨List.cons_ne_nil _ _, hall⟩⟩
    · cases h
  · rintro ⟨-, h⟩
    have hall := all_decimalPadded 4 n
    have hvalue := value_decimalPadded 4 n
    rw [h, show [a, b, c, d] = [a, b] ++ [c, d] from rfl, List.all_append, Bool.and_eq_true] at hall
    rw [h] at hvalue
    rw [digit4, hof hall.1, hof hall.2, ← hvalue, hsplit]

theorem exists_two {n : Nat} (h : n < 100) : ∃ a b, Bytes.decimalPadded 2 n = [a, b] := by
  have hlength : (Bytes.decimalPadded 2 n).length = 2 := length_decimalPadded (by decide) h
  obtain ⟨a, b, hab⟩ := List.length_eq_two.mp hlength
  exact ⟨a, b, hab⟩

theorem exists_four {n : Nat} (h : n < 10000) : ∃ a b c d, Bytes.decimalPadded 4 n = [a, b, c, d] := by
  have hlength : (Bytes.decimalPadded 4 n).length = 4 := length_decimalPadded (by decide) (by omega)
  match hs : Bytes.decimalPadded 4 n, hlength with
  | [a, b, c, d], _ => exact ⟨a, b, c, d, rfl⟩

end Digits

section Dates

/-- The fields of a date have their digits. -/
structure AmzDate.InRange (d : AmzDate) : Prop where
  year : d.year < 10000
  month : d.month < 100
  day : d.day < 100
  hour : d.hour < 100
  minute : d.minute < 100
  second : d.second < 100

/-- A date that is accepted is the text it is printed to. -/
theorem AmzDate.parse_iff {text : Bytes} {d : AmzDate} :
    AmzDate.parse text = some d ↔ d.InRange ∧ d.fmtIso8601 = text := by
  constructor
  · intro h
    unfold AmzDate.parse at h
    split at h
    · split at h
      · next htz =>
        obtain ⟨rfl, rfl⟩ := htz
        split at h
        · next hy hm hd hh hn hs =>
          cases h
          rw [digit4_iff] at hy
          rw [digit2_iff] at hm hd hh hn hs
          refine ⟨⟨hy.1, hm.1, hd.1, hh.1, hn.1, hs.1⟩, ?_⟩
          rw [fmtIso8601, fmtDate, hy.2, hm.2, hd.2, hh.2, hn.2, hs.2]
          rfl
        · cases h
      · cases h
    · cases h
  · rintro ⟨hrange, rfl⟩
    obtain ⟨y0, y1, y2, y3, hy⟩ := exists_four hrange.year
    obtain ⟨m0, m1, hm⟩ := exists_two hrange.month
    obtain ⟨d0, d1, hd⟩ := exists_two hrange.day
    obtain ⟨h0, h1, hh⟩ := exists_two hrange.hour
    obtain ⟨n0, n1, hn⟩ := exists_two hrange.minute
    obtain ⟨s0, s1, hs⟩ := exists_two hrange.second
    have htext : d.fmtIso8601 =
        [y0, y1, y2, y3, m0, m1, d0, d1, 84, h0, h1, n0, n1, s0, s1, 90] := by
      rw [fmtIso8601, fmtDate, hy, hm, hd, hh, hn, hs]
      rfl
    rw [htext, AmzDate.parse, if_pos ⟨rfl, rfl⟩, digit4_iff.mpr ⟨hrange.year, hy⟩,
      digit2_iff.mpr ⟨hrange.month, hm⟩, digit2_iff.mpr ⟨hrange.day, hd⟩,
      digit2_iff.mpr ⟨hrange.hour, hh⟩, digit2_iff.mpr ⟨hrange.minute, hn⟩,
      digit2_iff.mpr ⟨hrange.second, hs⟩]

/-- The date is the first eight bytes of what it was parsed from. -/
theorem AmzDate.fmtDate_of_parse {text : Bytes} {d : AmzDate} (h : AmzDate.parse text = some d) :
    d.fmtDate = text.take 8 := by
  obtain ⟨hrange, rfl⟩ := AmzDate.parse_iff.mp h
  have hlength : d.fmtDate.length = 8 := by
    have hyear : (Bytes.decimalPadded 4 d.year).length = 4 := length_decimalPadded (by decide) hrange.year
    have hmonth : (Bytes.decimalPadded 2 d.month).length = 2 := length_decimalPadded (by decide) hrange.month
    have hday : (Bytes.decimalPadded 2 d.day).length = 2 := length_decimalPadded (by decide) hrange.day
    rw [fmtDate, List.length_append, List.length_append, hyear, hmonth, hday]
  rw [fmtIso8601, List.append_assoc, List.append_assoc, List.append_assoc, List.append_assoc,
    List.take_left' hlength]

/-- A date of the calendar, as `YYYYMMDD`. -/
def IsDate (F : Formats) (text : Bytes) : Prop :=
  ∃ year month day, year < 10000 ∧ month < 100 ∧ day < 100 ∧ F.validDate year month day = true ∧
    text = Bytes.decimalPadded 4 year ++ Bytes.decimalPadded 2 month ++ Bytes.decimalPadded 2 day

theorem verifyDate_iff {F : Formats} {text : Bytes} : verifyDate F text = true ↔ IsDate F text := by
  constructor
  · intro h
    unfold verifyDate at h
    split at h
    · split at h
      · next hy hm hd =>
        obtain ⟨hyear, hy⟩ := digit4_iff.mp hy
        obtain ⟨hmonth, hm⟩ := digit2_iff.mp hm
        obtain ⟨hday, hd⟩ := digit2_iff.mp hd
        refine ⟨_, _, _, hyear, hmonth, hday, h, ?_⟩
        rw [hy, hm, hd]
        rfl
      · cases h
    · cases h
  · rintro ⟨year, month, day, hyear, hmonth, hday, hvalid, rfl⟩
    obtain ⟨y0, y1, y2, y3, hy⟩ := exists_four hyear
    obtain ⟨m0, m1, hm⟩ := exists_two hmonth
    obtain ⟨d0, d1, hd⟩ := exists_two hday
    have htext : Bytes.decimalPadded 4 year ++ Bytes.decimalPadded 2 month ++
        Bytes.decimalPadded 2 day = [y0, y1, y2, y3, m0, m1, d0, d1] := by
      rw [hy, hm, hd]
      rfl
    rw [htext, verifyDate, digit4_iff.mpr ⟨hyear, hy⟩, digit2_iff.mpr ⟨hmonth, hm⟩,
      digit2_iff.mpr ⟨hday, hd⟩]
    exact hvalid

/-- A date has only digits in it, and some. -/
theorem IsDate.digits {F : Formats} {text : Bytes} (h : IsDate F text) :
    text ≠ [] ∧ (47 : UInt8) ∉ text := by
  obtain ⟨year, month, day, hyear, -, -, -, rfl⟩ := h
  have hdigits : ∀ c ∈ Bytes.decimalPadded 4 year ++ Bytes.decimalPadded 2 month ++
      Bytes.decimalPadded 2 day, Bytes.isDigit c = true := by
    rw [← List.all_eq_true, List.all_append, List.all_append, all_decimalPadded, all_decimalPadded,
      all_decimalPadded]
    rfl
  constructor
  · intro hnil
    have hlength := congrArg List.length hnil
    rw [List.length_append, List.length_append, length_decimalPadded (by decide) hyear] at hlength
    simp at hlength
  · intro hslash
    exact absurd (hdigits 47 hslash) (by decide)

end Dates

section Pieces

theorem tag_eq_some {t s rest : Bytes} : tag t s = some rest ↔ s = t ++ rest := by
  unfold tag
  split
  · next h =>
    obtain ⟨rest', rfl⟩ := List.isPrefixOf_iff_prefix.mp h
    simp [eq_comm]
  · next h =>
    constructor
    · intro hnone
      cases hnone
    · rintro rfl
      exact absurd (List.isPrefixOf_iff_prefix.mpr (List.prefix_append _ _)) h

@[simp] theorem tag_append (t rest : Bytes) : tag t (t ++ rest) = some rest := tag_eq_some.mpr rfl

theorem untilSlash0_eq_some {s part rest : Bytes} :
    untilSlash0 s = some (part, rest) ↔ (47 : UInt8) ∉ part ∧ s = part ++ 47 :: rest := by
  constructor
  · intro h
    unfold untilSlash0 at h
    split at h
    · cases h
    · next c rest' hdrop =>
      cases h
      obtain ⟨hs, hpart, hhead⟩ := span_iff.mp ⟨rfl, hdrop⟩
      have hc : c = 47 := by simpa using hhead c rfl
      subst hc
      exact ⟨fun hmem => absurd (hpart 47 hmem) (by decide), hs⟩
  · rintro ⟨hpart, rfl⟩
    have hbefore : ∀ c ∈ part, (c != 47) = true := by
      intro c hc
      rw [bne_iff_ne]
      rintro rfl
      exact hpart hc
    have hslash : ∀ c ∈ (47 :: rest).head?, (c != 47) = false := by
      rintro c ⟨⟩
      rfl
    obtain ⟨htake, hdrop⟩ := span_iff.mpr ⟨rfl, hbefore, hslash⟩
    rw [untilSlash0, hdrop, htake]

theorem untilSlash1_eq_some {s part rest : Bytes} :
    untilSlash1 s = some (part, rest) ↔ (part ≠ [] ∧ (47 : UInt8) ∉ part) ∧ s = part ++ 47 :: rest := by
  rw [and_assoc, ← untilSlash0_eq_some, untilSlash1]
  split
  · next rest' h =>
    rw [h]
    constructor
    · intro hnone
      cases hnone
    · rintro ⟨hne, heq⟩
      cases heq
      exact (hne rfl).elim
  · next other hother =>
    constructor
    · intro h
      refine ⟨?_, h⟩
      rintro rfl
      exact hother rest h
    · exact And.right

end Pieces

section Credential

/-- The scope as it is written. -/
def CredentialV4.format (c : CredentialV4) : Bytes :=
  c.accessKeyId ++ ascii "/" ++ c.date ++ ascii "/" ++ c.awsRegion ++ ascii "/" ++ c.awsService ++
    ascii "/aws4_request"

/-- The parts of a scope: only the access key and the region can be empty. -/
structure CredentialV4.Valid (F : Formats) (c : CredentialV4) : Prop where
  accessKeyId : (47 : UInt8) ∉ c.accessKeyId
  date : IsDate F c.date
  awsRegion : (47 : UInt8) ∉ c.awsRegion
  awsService : c.awsService ≠ [] ∧ (47 : UInt8) ∉ c.awsService

theorem CredentialV4.format_append (c : CredentialV4) (rest : Bytes) :
    c.format ++ rest = c.accessKeyId ++ 47 :: (c.date ++ 47 :: (c.awsRegion ++
      47 :: (c.awsService ++ 47 :: (ascii "aws4_request" ++ rest)))) := by
  simp [CredentialV4.format, ascii]

theorem parseCredential_eq_some {F : Formats} {s rest : Bytes} {c : CredentialV4} :
    parseCredential F s = some (c, rest) ↔ c.Valid F ∧ s = c.format ++ rest := by
  rw [CredentialV4.format_append]
  constructor
  · intro h
    simp only [parseCredential, Option.bind_eq_bind, Option.bind_eq_some_iff] at h
    obtain ⟨⟨accessKeyId, s₁⟩, hcut₁, ⟨date, s₂⟩, hcut₂, h⟩ := h
    obtain ⟨haccess, rfl⟩ := untilSlash0_eq_some.mp hcut₁
    obtain ⟨-, rfl⟩ := untilSlash1_eq_some.mp hcut₂
    split at h
    · next hverify =>
      simp only [Option.bind_eq_some_iff] at h
      obtain ⟨⟨region, s₃⟩, hcut₃, ⟨service, s₄⟩, hcut₄, s₅, htag, hrest⟩ := h
      obtain ⟨hregion, rfl⟩ := untilSlash0_eq_some.mp hcut₃
      obtain ⟨hservice, rfl⟩ := untilSlash1_eq_some.mp hcut₄
      cases hrest
      dsimp only at htag ⊢
      rw [tag_eq_some.mp htag]
      exact ⟨⟨haccess, verifyDate_iff.mp hverify, hregion, hservice⟩, rfl⟩
    · cases h
  · rintro ⟨hvalid, rfl⟩
    have hdate := hvalid.date.digits
    simp only [parseCredential, Option.bind_eq_bind, untilSlash0_eq_some.mpr ⟨hvalid.accessKeyId, rfl⟩,
      untilSlash1_eq_some.mpr ⟨hdate, rfl⟩, verifyDate_iff.mpr hvalid.date,
      untilSlash0_eq_some.mpr ⟨hvalid.awsRegion, rfl⟩, untilSlash1_eq_some.mpr ⟨hvalid.awsService, rfl⟩,
      tag_append, Option.bind_some, if_true]

/-- A scope that is accepted is the text it is printed to. -/
theorem CredentialV4.parse_iff {F : Formats} {text : Bytes} {c : CredentialV4} :
    CredentialV4.parse F text = some c ↔ c.Valid F ∧ c.format = text := by
  have hwhole : CredentialV4.parse F text = some c ↔ parseCredential F text = some (c, []) := by
    unfold CredentialV4.parse
    split
    · next ans h => simp [h]
    · next hother =>
      constructor
      · intro h
        cases h
      · intro h
        exact (hother c h).elim
  rw [hwhole, parseCredential_eq_some, List.append_nil, eq_comm (a := text)]

end Credential

section Authorization

/-- White space of the grammar. -/
def Spaces (w : Bytes) : Prop := ∀ c ∈ w, isMultispace c = true

/-- The header as it is written, with white space at the four places of the grammar. -/
def AuthorizationV4.format (a : AuthorizationV4) (w₁ w₂ w₃ w₄ : Bytes) : Bytes :=
  a.algorithm ++ w₁ ++ ascii "Credential=" ++ a.credential.format ++ ascii "," ++ w₂ ++
    ascii "SignedHeaders=" ++ (ascii ";").intercalate a.signedHeaders ++ ascii "," ++ w₃ ++
    ascii "Signature=" ++ a.signature ++ w₄

/-- The parts of a header. -/
structure AuthorizationV4.Valid (F : Formats) (a : AuthorizationV4) : Prop where
  algorithm : a.algorithm ≠ [] ∧ ∀ c ∈ a.algorithm, isAsciiWhitespace c = false
  credential : a.credential.Valid F
  signedHeaders : a.signedHeaders ≠ [] ∧ ∀ name ∈ a.signedHeaders, (59 : UInt8) ∉ name ∧ (44 : UInt8) ∉ name
  signature : isSha256Checksum a.signature = true

theorem isAsciiWhitespace_of_isMultispace {c : UInt8} (h : isMultispace c = true) :
    isAsciiWhitespace c = true := by
  revert h
  simp only [isMultispace, isAsciiWhitespace, Bool.or_eq_true]
  tauto

/-- White space ends in front of a name of the grammar. -/
theorem spaces_cut {w : Bytes} (hw : Spaces w) {c : UInt8} (hc : isMultispace c = false) (rest : Bytes) :
    (w ++ c :: rest).takeWhile isMultispace = w ∧ (w ++ c :: rest).dropWhile isMultispace = c :: rest := by
  refine span_iff.mpr ⟨rfl, hw, ?_⟩
  rintro b ⟨⟩
  exact hc

/-- A piece without white space ends where white space begins. -/
theorem piece_cut {part w : Bytes} (hpart : ∀ c ∈ part, isAsciiWhitespace c = false) (hw : Spaces w)
    (rest : Bytes) (hrest : w ≠ [] ∨ rest = []) :
    (part ++ (w ++ rest)).takeWhile (!isAsciiWhitespace ·) = part ∧
      (part ++ (w ++ rest)).dropWhile (!isAsciiWhitespace ·) = w ++ rest := by
  refine span_iff.mpr ⟨rfl, fun c hc => by simp [hpart c hc], ?_⟩
  intro c hc
  have hmem : c ∈ w := by
    cases w with
    | nil =>
      rw [hrest.resolve_left (fun h => h rfl)] at hc
      cases hc
    | cons b w =>
      cases hc
      exact List.mem_cons_self
  simp [isAsciiWhitespace_of_isMultispace (hw c hmem)]

theorem AuthorizationV4.format_eq (a : AuthorizationV4) (w₁ w₂ w₃ w₄ : Bytes) :
    a.format w₁ w₂ w₃ w₄ = a.algorithm ++ (w₁ ++ (ascii "Credential=" ++ (a.credential.format ++
      (ascii "," ++ (w₂ ++ (ascii "SignedHeaders=" ++ ((ascii ";").intercalate a.signedHeaders ++
        (ascii "," ++ (w₃ ++ (ascii "Signature=" ++ (a.signature ++ w₄))))))))))) := by
  simp only [AuthorizationV4.format, List.append_assoc]

/-- The list of names ends at the comma. -/
theorem names_cut {names : List Bytes} (h : ∀ name ∈ names, (59 : UInt8) ∉ name ∧ (44 : UInt8) ∉ name)
    (rest : Bytes) :
    ((ascii ";").intercalate names ++ (ascii "," ++ rest)).takeWhile (· != 44) =
        (ascii ";").intercalate names ∧
      ((ascii ";").intercalate names ++ (ascii "," ++ rest)).dropWhile (· != 44) = ascii "," ++ rest := by
  have hsemi : ascii ";" = [59] := by decide
  have hcomma : ascii "," = [44] := by decide
  rw [hsemi, hcomma]
  refine span_iff.mpr ⟨rfl, ?_, ?_⟩
  · intro c hc
    rw [bne_iff_ne]
    rintro rfl
    rcases mem_intercalate hc with hc | ⟨name, hname, hc⟩
    · cases hc
    · exact (h name hname).2 hc
  · rintro c ⟨⟩
    rfl

/-- The text of valid parts is parsed to them. -/
theorem parseAuthorization_format {F : Formats} {a : AuthorizationV4} (ha : a.Valid F)
    {w₁ w₂ w₃ w₄ : Bytes} (hne : w₁ ≠ []) (h₁ : Spaces w₁) (h₂ : Spaces w₂) (h₃ : Spaces w₃)
    (h₄ : Spaces w₄) : parseAuthorization F (a.format w₁ w₂ w₃ w₄) = some (a, []) := by
  have hsignature : ∀ c ∈ a.signature, isAsciiWhitespace c = false := by
    have hhex := (Bool.and_eq_true_iff.mp ha.signature).2
    intro c hc
    refine forall_byte (p := fun c => Bytes.isLowercaseHex c = true → isAsciiWhitespace c = false) ?_ c
      (List.all_eq_true.mp hhex c hc)
    decide +kernel
  rw [AuthorizationV4.format_eq]
  generalize hrest₃ : ascii "Signature=" ++ (a.signature ++ w₄) = rest₃
  generalize hrest₂ : ascii "SignedHeaders=" ++ ((ascii ";").intercalate a.signedHeaders ++
    (ascii "," ++ (w₃ ++ rest₃))) = rest₂
  generalize hrest₁ : ascii "Credential=" ++ (a.credential.format ++ (ascii "," ++ (w₂ ++ rest₂))) = rest₁
  have hcut₁ : (w₁ ++ rest₁).takeWhile isMultispace = w₁ ∧ (w₁ ++ rest₁).dropWhile isMultispace = rest₁ := by
    rw [← hrest₁]
    exact spaces_cut h₁ (by decide) _
  have hcut₂ : (w₂ ++ rest₂).dropWhile isMultispace = rest₂ := by
    rw [← hrest₂]
    exact (spaces_cut h₂ (by decide) _).2
  have hcut₃ : (w₃ ++ rest₃).dropWhile isMultispace = rest₃ := by
    rw [← hrest₃]
    exact (spaces_cut h₃ (by decide) _).2
  have halgorithm := piece_cut ha.algorithm.2 h₁ rest₁ (Or.inl hne)
  have hnames := names_cut ha.signedHeaders.2 (w₃ ++ rest₃)
  have hsplit : ((ascii ";").intercalate a.signedHeaders).splitOn 59 = a.signedHeaders :=
    List.splitOn_intercalate 59 (fun name hname => (ha.signedHeaders.2 name hname).1) ha.signedHeaders.1
  have hlast := piece_cut hsignature h₄ [] (Or.inr rfl)
  rw [List.append_nil] at hlast
  have hend : w₄.dropWhile isMultispace = [] := List.dropWhile_eq_nil_iff.mpr h₄
  have hstart : (a.algorithm.isEmpty || w₁.isEmpty) = false := by simp [ha.algorithm.1, hne]
  simp only [parseAuthorization, halgorithm, hcut₁, hstart, Bool.false_eq_true, if_false]
  rw [← hrest₁]
  simp only [tag_append, Option.bind_eq_bind, Option.bind_some,
    parseCredential_eq_some.mpr ⟨ha.credential, rfl⟩, hcut₂]
  rw [← hrest₂]
  simp only [tag_append, Option.bind_some, hnames, hsplit, hcut₃]
  rw [← hrest₃]
  simp only [tag_append, Option.bind_some, hlast, hend]

/-- What is parsed is the text of its parts. -/
theorem format_of_parseAuthorization {F : Formats} {s : Bytes} {a : AuthorizationV4}
    (h : parseAuthorization F s = some (a, [])) (hsignature : isSha256Checksum a.signature = true) :
    a.Valid F ∧ ∃ w₁ w₂ w₃ w₄, w₁ ≠ [] ∧ Spaces w₁ ∧ Spaces w₂ ∧ Spaces w₃ ∧ Spaces w₄ ∧
      s = a.format w₁ w₂ w₃ w₄ := by
  have hcut : ∀ (p : UInt8 → Bool) (t : Bytes), t = t.takeWhile p ++ t.dropWhile p :=
    fun p t => List.takeWhile_append_dropWhile.symm
  have hspaces : ∀ t : Bytes, Spaces (t.takeWhile isMultispace) := fun t c hc => List.mem_takeWhile_imp hc
  simp only [parseAuthorization] at h
  split at h
  · cases h
  · next hstart =>
    simp only [Option.bind_eq_bind, Option.bind_eq_some_iff, Option.some.injEq, Prod.mk.injEq] at h
    obtain ⟨s₁, htag₁, ⟨credential, s₂⟩, hcredential, s₃, htag₂, s₄, htag₃, s₅, htag₄, s₆, htag₅, rfl,
      hend⟩ := h
    obtain ⟨hvalid, hs₁⟩ := parseCredential_eq_some.mp hcredential
    simp only [Bool.or_eq_true, List.isEmpty_iff, not_or] at hstart
    refine ⟨⟨⟨hstart.1, ?_⟩, hvalid, ⟨List.splitOn_ne_nil _ _, ?_⟩, hsignature⟩,
      (s.dropWhile (!isAsciiWhitespace ·)).takeWhile isMultispace, s₃.takeWhile isMultispace,
      s₅.takeWhile isMultispace, s₆.dropWhile (!isAsciiWhitespace ·), hstart.2, hspaces _, hspaces _,
      hspaces _, List.dropWhile_eq_nil_iff.mp hend, ?_⟩
    · intro c hc
      have htake := List.mem_takeWhile_imp (p := fun c => !isAsciiWhitespace c) hc
      simpa using htake
    · intro name hname
      constructor
      · intro hc
        exact absurd (Words.not_separator_of_mem hname hc) (by decide)
      · intro hc
        have hmem : (44 : UInt8) ∈ s₄.takeWhile (· != 44) := mem_of_mem_splitOnP hname hc
        have htake := List.mem_takeWhile_imp (p := fun c : UInt8 => c != 44) hmem
        exact absurd htake (by decide)
    · have hsemi : ascii ";" = [59] := by decide
      rw [AuthorizationV4.format_eq, hsemi, List.intercalate_splitOn, ← hcut, ← tag_eq_some.mp htag₅,
        ← hcut, ← tag_eq_some.mp htag₄, ← hcut, ← tag_eq_some.mp htag₃, ← hcut,
        ← tag_eq_some.mp htag₂, ← hs₁, ← tag_eq_some.mp htag₁, ← hcut, ← hcut]

theorem AuthorizationV4.parse_eq_ok {F : Formats} {header : Bytes} {a : AuthorizationV4} :
    AuthorizationV4.parse F header = .ok a ↔
      parseAuthorization F header = some (a, []) ∧ isSha256Checksum a.signature = true := by
  unfold AuthorizationV4.parse
  split
  · next ans hans =>
    rw [hans]
    by_cases hsignature : isSha256Checksum ans.signature = true
    · rw [if_pos hsignature]
      constructor
      · rintro ⟨⟩
        exact ⟨rfl, hsignature⟩
      · rintro ⟨⟨⟩, -⟩
        rfl
    · rw [if_neg hsignature]
      constructor
      · rintro ⟨⟩
      · rintro ⟨⟨⟩, h⟩
        exact (hsignature h).elim
  · next hother =>
    constructor
    · rintro ⟨⟩
    · rintro ⟨h, -⟩
      exact (hother a h).elim

end Authorization

/-- The three parsers accept what their formats write, and nothing else. -/
theorem authorizationTexts_exact (F : Formats) :
    (∀ (header : Bytes) (a : AuthorizationV4), AuthorizationV4.parse F header = .ok a ↔
      a.Valid F ∧ ∃ w₁ w₂ w₃ w₄, w₁ ≠ [] ∧ Spaces w₁ ∧ Spaces w₂ ∧ Spaces w₃ ∧ Spaces w₄ ∧
        header = a.format w₁ w₂ w₃ w₄) ∧
    (∀ (text : Bytes) (c : CredentialV4),
      CredentialV4.parse F text = some c ↔ c.Valid F ∧ c.format = text) ∧
    ∀ (text : Bytes) (d : AmzDate), AmzDate.parse text = some d ↔
      d.InRange ∧ d.fmtIso8601 = text ∧ d.fmtDate = text.take 8 := by
  refine ⟨?_, fun text c => CredentialV4.parse_iff, ?_⟩
  · intro header a
    rw [AuthorizationV4.parse_eq_ok]
    constructor
    · rintro ⟨hparse, hsignature⟩
      exact format_of_parseAuthorization hparse hsignature
    · rintro ⟨ha, w₁, w₂, w₃, w₄, hne, h₁, h₂, h₃, h₄, rfl⟩
      exact ⟨parseAuthorization_format ha hne h₁ h₂ h₃ h₄, ha.signature⟩
  · intro text d
    constructor
    · intro h
      obtain ⟨hrange, htext⟩ := AmzDate.parse_iff.mp h
      exact ⟨hrange, htext, AmzDate.fmtDate_of_parse h⟩
    · rintro ⟨hrange, htext, -⟩
      exact AmzDate.parse_iff.mpr ⟨hrange, htext⟩

end S3s.SigV4
