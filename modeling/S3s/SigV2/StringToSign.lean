import S3s.SigV2.Methods
import S3s.SigV4.Authorization

/-! # What a string to sign of version 2 says

The four lines at its front can be read back, since none of them holds a line feed,
and so can the lines of the headers, since the resource behind them does not begin
the way they do. A header that occurs once stands in a line of its own.
-/
namespace S3s.SigV2
open Delimited SigV4 AwsChunked

section AmzLines

/-- The lines of the `x-amz-*` headers: a name, and the trimmed values of the headers that share it,
joined by commas. -/
def amzLines : List (Bytes × Bytes) → List (Bytes × Bytes)
  | [] => []
  | (name, value) :: rest =>
    (name, [44].intercalate
      ((value :: (rest.takeWhile fun h => h.1 == name).map Prod.snd).map trim)) ::
      amzLines (rest.dropWhile fun h => h.1 == name)
termination_by headers => headers.length
decreasing_by exact Nat.lt_succ_of_le (List.dropWhile_suffix _).length_le

theorem pushCanonicalizedAmzHeaders_eq (headers : List (Bytes × Bytes)) :
    pushCanonicalizedAmzHeaders headers = block lf ((amzLines headers).map headerLine) := by
  fun_induction amzLines headers with
  | case1 => simp [pushCanonicalizedAmzHeaders]
  | case2 name value rest ih =>
    rw [pushCanonicalizedAmzHeaders, ih, List.map_cons, block_cons, List.map_cons,
      intercalate_cons_eq_flatMap]
    simp [headerLine, ascii, lf, List.flatMap_map]

theorem mem_trim {value : Bytes} {b : UInt8} (h : b ∈ trim value) : b ∈ value := by
  obtain ⟨char, hchar, hb⟩ := List.mem_flatten.mp h
  rw [← flatten_utf8Chars value]
  exact List.mem_flatten.mpr ⟨char, mem_of_mem_trimChars hchar, hb⟩

/-- What is known of every line: its name is that of a header, and it holds no line feed. -/
theorem amzLines_valid {headers : List (Bytes × Bytes)} (h : ValidHeaders headers) :
    ∀ line ∈ amzLines headers,
      (∃ e ∈ headers, e.1 = line.1) ∧ (58 : UInt8) ∉ line.1 ∧ lf ∉ headerLine line := by
  fun_induction amzLines headers with
  | case1 => intro line hline; cases hline
  | case2 name value rest ih =>
    intro line hline
    rcases List.mem_cons.mp hline with rfl | hline
    · have htoken : ∀ c ∈ name, c ≠ 58 ∧ c ≠ lf := by
        intro c hc
        have hspec := isTokenChar_spec c (List.all_eq_true.mp (h _ List.mem_cons_self).2.1 c hc)
        exact ⟨hspec.1, hspec.2.1⟩
      have hvalues : ∀ v ∈ value :: (rest.takeWhile fun h => h.1 == name).map Prod.snd, lf ∉ v := by
        intro v hv
        rcases List.mem_cons.mp hv with rfl | hv
        · exact (h _ List.mem_cons_self).2.2
        · obtain ⟨e, he, rfl⟩ := List.mem_map.mp hv
          exact (h e (List.mem_cons_of_mem _ ((List.takeWhile_prefix _).sublist.mem he))).2.2
      refine ⟨⟨_, List.mem_cons_self, rfl⟩, fun hc => (htoken _ hc).1 rfl, ?_⟩
      intro hlf
      rcases List.mem_append.mp hlf with hlf | hlf
      · exact (htoken _ hlf).2 rfl
      · rcases List.mem_cons.mp hlf with hlf | hlf
        · cases hlf
        · rcases mem_intercalate hlf with hlf | ⟨text, htext, hlf⟩
          · cases hlf
          · obtain ⟨v, hv, rfl⟩ := List.mem_map.mp htext
            exact hvalues v hv (mem_trim hlf)
    · have hrest : ValidHeaders (rest.dropWhile fun h => h.1 == name) :=
        h.of_sublist ((List.dropWhile_suffix _).sublist.cons _)
      obtain ⟨⟨e, he, hname⟩, hline⟩ := ih hrest line hline
      exact ⟨⟨e, List.mem_cons_of_mem _ ((List.dropWhile_suffix _).sublist.mem he), hname⟩, hline⟩

/-- A header that occurs once has a line of its own. -/
theorem amzLines_unique {headers : List (Bytes × Bytes)} {name value : Bytes}
    (h : headers.filter (fun e => e.1 == name) = [(name, value)]) :
    (amzLines headers).filter (fun line => line.1 == name) = [(name, trim value)] := by
  have hnone : ∀ headers : List (Bytes × Bytes), headers.filter (fun e => e.1 == name) = [] →
      (amzLines headers).filter (fun line => line.1 == name) = [] := by
    intro headers hnil
    fun_induction amzLines headers with
    | case1 => rfl
    | case2 first v rest ih =>
      rw [List.filter_eq_nil_iff] at hnil
      have hfirst : ¬ (first == name) = true := hnil _ List.mem_cons_self
      rw [List.filter_cons_of_neg (by exact hfirst)]
      apply ih
      rw [List.filter_eq_nil_iff]
      intro e he
      exact hnil e (List.mem_cons_of_mem _ ((List.dropWhile_suffix _).sublist.mem he))
  fun_induction amzLines headers with
  | case1 => cases h
  | case2 first v rest ih =>
    have hsplit := List.takeWhile_append_dropWhile (p := fun h : Bytes × Bytes => h.1 == first)
      (l := rest)
    by_cases hfirst : first = name
    · subst hfirst
      rw [List.filter_cons_of_pos (by simp)] at h
      obtain ⟨hhead, htail⟩ := List.cons_eq_cons.mp h
      have hgroup : rest.takeWhile (fun h => h.1 == first) = [] := by
        rw [List.eq_nil_iff_forall_not_mem]
        intro e he
        have hname := List.mem_takeWhile_imp (p := fun h : Bytes × Bytes => h.1 == first) he
        exact List.filter_eq_nil_iff.mp htail e ((List.takeWhile_prefix _).sublist.mem he) hname
      have hrest : (rest.dropWhile fun h => h.1 == first).filter (fun e => e.1 == first) = [] := by
        rw [← hsplit, hgroup, List.nil_append] at htail
        exact htail
      rw [List.filter_cons_of_pos (by simp), hnone _ hrest, hgroup]
      obtain ⟨-, rfl⟩ := Prod.mk.inj hhead
      simp [List.intercalate_singleton]
    · rw [List.filter_cons_of_neg (by simpa using hfirst)] at h ⊢
      apply ih
      have hgroup : (rest.takeWhile fun h => h.1 == first).filter (fun e => e.1 == name) = [] := by
        rw [List.filter_eq_nil_iff]
        intro e he hname
        have hname' := List.mem_takeWhile_imp (p := fun h : Bytes × Bytes => h.1 == first) he
        exact hfirst ((beq_iff_eq.mp hname').symm.trans (beq_iff_eq.mp hname))
      rw [← hsplit, List.filter_append, hgroup, List.nil_append] at h
      exact h

end AmzLines

section Lines

variable {headers headers' : List (Bytes × Bytes)}

theorem getUniqueHeaderStr_mem {name value : Bytes}
    (h : getUniqueHeaderStr headers name = some value) : ∃ e ∈ headers, e.2 = value := by
  unfold getUniqueHeaderStr at h
  split at h
  · next e he =>
    cases h
    have hmem : e ∈ headers.filter fun h => Bytes.lowercase h.1 == Bytes.lowercase name := by
      rw [he]
      exact List.mem_singleton_self e
    exact ⟨e, (List.mem_filter.mp hmem).1, rfl⟩
  · cases h

theorem lf_not_mem_unique (h : ValidHeaders headers) (name : Bytes) :
    lf ∉ (getUniqueHeaderStr headers name).getD [] := by
  cases hvalue : getUniqueHeaderStr headers name with
  | none => exact List.not_mem_nil
  | some value =>
    obtain ⟨e, he, rfl⟩ := getUniqueHeaderStr_mem hvalue
    exact (h e he).2.2

theorem amzHeaders_perm (headers : List (Bytes × Bytes)) :
    (amzHeaders headers).Perm (headers.filter fun h => (ascii "x-amz-").isPrefixOf h.1) :=
  List.perm_insertionSort _ _

theorem amzHeaders_valid (h : ValidHeaders headers) : ValidHeaders (amzHeaders headers) := by
  intro e he
  exact h e (List.mem_filter.mp ((amzHeaders_perm headers).mem_iff.mp he)).1

/-- The lines of the headers begin with an `x`, and none holds a line feed. -/
theorem amzHeaders_lines (h : ValidHeaders headers) :
    ∀ s ∈ (amzLines (amzHeaders headers)).map headerLine, s.head? = some 120 ∧ lf ∉ s := by
  intro s hs
  obtain ⟨line, hline, rfl⟩ := List.mem_map.mp hs
  obtain ⟨⟨e, he, hname⟩, -, hlf⟩ := amzLines_valid (amzHeaders_valid h) line hline
  have hamz := (List.mem_filter.mp ((amzHeaders_perm headers).mem_iff.mp he)).2
  rw [hname] at hamz
  obtain ⟨rest, hrest⟩ := List.isPrefixOf_iff_prefix.mp hamz
  refine ⟨?_, hlf⟩
  rw [headerLine, ← hrest]
  rfl

/-- A name occurs once, as one header that is written in lower case. -/
theorem filter_of_getUniqueHeaderStr {name value : Bytes}
    (hlower : ∀ e ∈ headers, Bytes.lowercase e.1 = e.1) (hname : Bytes.lowercase name = name) :
    getUniqueHeaderStr headers name = some value ↔
      headers.filter (fun e => e.1 == name) = [(name, value)] := by
  have hfilter : headers.filter (fun h => Bytes.lowercase h.1 == Bytes.lowercase name) =
      headers.filter fun e => e.1 == name := by
    apply List.filter_congr
    intro e he
    rw [hlower e he, hname]
  rw [getUniqueHeaderStr, hfilter]
  constructor
  · intro h
    split at h
    · next e he =>
      cases h
      have hmem : e ∈ headers.filter fun e => e.1 == name := by
        rw [he]
        exact List.mem_singleton_self e
      have hkey : e.1 = name := beq_iff_eq.mp (List.mem_filter.mp hmem).2
      rw [he, ← hkey]
    · cases h
  · intro h
    rw [h]

/-- The lines of an `x-amz-*` header that occurs once. -/
theorem amzLines_getUniqueHeaderStr {name value : Bytes}
    (hlower : ∀ e ∈ headers, Bytes.lowercase e.1 = e.1) (hname : Bytes.lowercase name = name)
    (hamz : (ascii "x-amz-").isPrefixOf name = true)
    (h : getUniqueHeaderStr headers name = some value) :
    (amzLines (amzHeaders headers)).filter (fun line => line.1 == name) = [(name, trim value)] := by
  apply amzLines_unique
  have hunique := (filter_of_getUniqueHeaderStr hlower hname).mp h
  have hkept : (headers.filter fun h => (ascii "x-amz-").isPrefixOf h.1).filter
      (fun e => e.1 == name) = [(name, value)] := by
    rw [List.filter_filter, ← hunique]
    apply List.filter_congr
    intro e _
    by_cases hkey : e.1 = name
    · simp [hkey, hamz]
    · simp [hkey]
  have hperm := (amzHeaders_perm headers).filter fun e => e.1 == name
  rw [hkept] at hperm
  exact List.perm_singleton.mp hperm

/-- A path as `Uri::path` returns it: empty, an asterisk, or behind a slash. -/
def UriPath (path : Bytes) : Prop := path = [] ∨ path = ascii "*" ∨ path.head? = some 47

theorem canonicalizedResource_head {path : Bytes} (hpath : UriPath path)
    (qs : Option (List (Bytes × Bytes))) (virtualHostBucket : Option Bytes) :
    (canonicalizedResource path qs virtualHostBucket).head? ≠ some 120 := by
  have hquery : ∀ qs, (resourceQuery qs).head? ≠ some 120 := by
    intro qs
    unfold resourceQuery
    split
    · simp
    · simp [ascii]
  unfold canonicalizedResource
  cases virtualHostBucket with
  | some bucket => simp [ascii]
  | none =>
    rcases hpath with rfl | rfl | hpath
    · cases qs with
      | none => simp
      | some qs => simpa using hquery qs
    · simp [ascii]
    · cases path with
      | nil => cases hpath
      | cons b path =>
        obtain rfl : b = 47 := by simpa using hpath
        simp

/-- Two requests with one string to sign have the same lines and the same resource. -/
theorem createStringToSign_inj {mode mode' : Mode} {method method' path path' : Bytes}
    {qs qs' : Option (List (Bytes × Bytes))} {vhBucket vhBucket' : Option Bytes}
    (hmethod : lf ∉ method) (hmethod' : lf ∉ method') (hheaders : ValidHeaders headers)
    (hheaders' : ValidHeaders headers') (hdate : lf ∉ dateLine mode qs headers)
    (hdate' : lf ∉ dateLine mode' qs' headers') (hpath : UriPath path) (hpath' : UriPath path')
    (h : createStringToSign mode method path qs headers vhBucket =
      createStringToSign mode' method' path' qs' headers' vhBucket') :
    method = method' ∧ dateLine mode qs headers = dateLine mode' qs' headers' ∧
      amzLines (amzHeaders headers) = amzLines (amzHeaders headers') ∧
      canonicalizedResource path qs vhBucket = canonicalizedResource path' qs' vhBucket' := by
  have hnl : ascii "\n" = [lf] := rfl
  unfold createStringToSign at h
  simp only [hnl, List.append_assoc, List.singleton_append] at h
  obtain ⟨hmethods, h⟩ := append_cons_inj hmethod hmethod' h
  obtain ⟨-, h⟩ := append_cons_inj (lf_not_mem_unique hheaders _) (lf_not_mem_unique hheaders' _) h
  obtain ⟨-, h⟩ := append_cons_inj (lf_not_mem_unique hheaders _) (lf_not_mem_unique hheaders' _) h
  obtain ⟨hdates, h⟩ := append_cons_inj hdate hdate' h
  rw [pushCanonicalizedAmzHeaders_eq, pushCanonicalizedAmzHeaders_eq] at h
  obtain ⟨hlines, hresource⟩ := block_append_inj (amzHeaders_lines hheaders)
    (amzHeaders_lines hheaders') (canonicalizedResource_head hpath qs vhBucket)
    (canonicalizedResource_head hpath' qs' vhBucket') h
  refine ⟨hmethods, hdates, ?_, hresource⟩
  apply map_inj_of_inj ?_ hlines
  intro p hp q hq hpq
  exact headerLine_inj (amzLines_valid (amzHeaders_valid hheaders) p hp).2.1
    (amzLines_valid (amzHeaders_valid hheaders') q hq).2.1 hpq

end Lines

section Resource

/-- The resource without its parameters. -/
def resourcePath (uriPath : Bytes) (virtualHostBucket : Option Bytes) : Bytes :=
  match virtualHostBucket with
  | some bucket => 47 :: (bucket ++ uriPath)
  | none => uriPath

theorem canonicalizedResource_eq (uriPath : Bytes) (qs : Option (List (Bytes × Bytes)))
    (virtualHostBucket : Option Bytes) :
    canonicalizedResource uriPath qs virtualHostBucket =
      resourcePath uriPath virtualHostBucket ++ resourceQuery (qs.getD []) := by
  have hnil : resourceQuery [] = [] := by decide
  cases qs <;> cases virtualHostBucket <;>
    simp [canonicalizedResource, resourcePath, hnil, ascii]

theorem resourceQuery_head (qs : List (Bytes × Bytes)) :
    resourceQuery qs = [] ∨ (resourceQuery qs).head? = some 63 := by
  unfold resourceQuery
  split
  · exact Or.inl rfl
  · exact Or.inr rfl

theorem mem_resourceParams {qs : List (Bytes × Bytes)} {name value : Bytes} :
    (name, value) ∈ resourceParams qs ↔ name ∈ includedQuery ∧ getUniqueQs qs name = some value := by
  rw [resourceParams, List.mem_filterMap]
  constructor
  · rintro ⟨n, hn, h⟩
    obtain ⟨v, hv, h⟩ := Option.map_eq_some_iff.mp h
    obtain ⟨rfl, rfl⟩ := Prod.mk.inj h
    exact ⟨hn, hv⟩
  · rintro ⟨hn, hv⟩
    exact ⟨name, hn, by rw [hv]; rfl⟩

/-- The parameters of the resource hold no ampersand. -/
def PlainValues (qs : List (Bytes × Bytes)) : Prop :=
  ∀ name ∈ includedQuery, ∀ value, getUniqueQs qs name = some value → 38 ∉ value

theorem includedQuery_plain : ∀ name ∈ includedQuery, name ≠ [] ∧ 38 ∉ name ∧ 61 ∉ name := by
  decide +kernel

theorem resourceItem_plain {qs : List (Bytes × Bytes)} (h : PlainValues qs) :
    Plain 38 ((resourceParams qs).map resourceItem) := by
  intro s hs
  obtain ⟨⟨name, value⟩, hparam, rfl⟩ := List.mem_map.mp hs
  obtain ⟨hname, hvalue⟩ := mem_resourceParams.mp hparam
  obtain ⟨hne, hplain, -⟩ := includedQuery_plain name hname
  refine ⟨by simp [resourceItem, hne], ?_⟩
  have hvalue' := h name hname value hvalue
  dsimp only [resourceItem]
  split
  · simpa using hplain
  · simp [ascii, hplain, hvalue']

theorem resourceItem_inj {p q : Bytes × Bytes} (hp : p.1 ∈ includedQuery) (hq : q.1 ∈ includedQuery)
    (h : resourceItem p = resourceItem q) : p = q := by
  have htail : ∀ value : Bytes, (if value.isEmpty then [] else ascii "=" ++ value) = [] ∨
      (if value.isEmpty then [] else ascii "=" ++ value).head? = some 61 := by
    intro value
    split
    · exact Or.inl rfl
    · exact Or.inr rfl
  obtain ⟨hname, hvalue⟩ := append_inj_of_head (includedQuery_plain _ hp).2.2
    (includedQuery_plain _ hq).2.2 (htail p.2) (htail q.2) h
  refine Prod.ext hname ?_
  cases hpv : p.2 with
  | nil =>
    cases hqv : q.2 with
    | nil => rfl
    | cons b v => simp [hpv, hqv, ascii] at hvalue
  | cons a u =>
    cases hqv : q.2 with
    | nil => simp [hpv, hqv, ascii] at hvalue
    | cons b v => simpa [hpv, hqv, ascii] using hvalue

/-- The parameters of the resource can be read back when their values hold no ampersand. -/
theorem resourceQuery_inj {qs qs' : List (Bytes × Bytes)} (hqs : PlainValues qs)
    (hqs' : PlainValues qs') (h : resourceQuery qs = resourceQuery qs') :
    ∀ name ∈ includedQuery, getUniqueQs qs name = getUniqueQs qs' name := by
  have hitems : (resourceParams qs).map resourceItem = (resourceParams qs').map resourceItem := by
    unfold resourceQuery at h
    split at h <;> split at h
    · next _ hnil _ hnil' => rw [hnil, hnil']
    · cases h
    · cases h
    · exact intercalate_inj (resourceItem_plain hqs) (resourceItem_plain hqs')
        (List.append_cancel_left h)
  have hparams : resourceParams qs = resourceParams qs' := by
    apply map_inj_of_inj ?_ hitems
    intro p hp q hq hpq
    exact resourceItem_inj (mem_resourceParams.mp hp).1 (mem_resourceParams.mp hq).1 hpq
  intro name hname
  apply Option.ext
  intro value
  have hmem : ∀ qs, getUniqueQs qs name = some value ↔ (name, value) ∈ resourceParams qs := by
    intro qs
    rw [mem_resourceParams]
    exact ⟨fun h => ⟨hname, h⟩, fun h => h.2⟩
  rw [hmem, hmem, hparams]

/-- Two resources are equal only when their paths are, and their parameters. -/
theorem canonicalizedResource_inj {path path' : Bytes} {qs qs' : Option (List (Bytes × Bytes))}
    {vhBucket vhBucket' : Option Bytes} (hpath : 63 ∉ resourcePath path vhBucket)
    (hpath' : 63 ∉ resourcePath path' vhBucket')
    (h : canonicalizedResource path qs vhBucket = canonicalizedResource path' qs' vhBucket') :
    resourcePath path vhBucket = resourcePath path' vhBucket' ∧
      resourceQuery (qs.getD []) = resourceQuery (qs'.getD []) := by
  rw [canonicalizedResource_eq, canonicalizedResource_eq] at h
  exact append_inj_of_head hpath hpath' (resourceQuery_head _) (resourceQuery_head _) h

/-- A name has a line exactly when it has a header. -/
theorem exists_amzLine_iff {headers : List (Bytes × Bytes)} {name : Bytes} :
    (∃ line ∈ amzLines headers, line.1 = name) ↔ ∃ e ∈ headers, e.1 = name := by
  fun_induction amzLines headers with
  | case1 => simp
  | case2 first value rest ih =>
    rw [List.exists_mem_cons_iff, ih, List.exists_mem_cons_iff]
    constructor
    · rintro (h | ⟨e, he, h⟩)
      · exact Or.inl h
      · exact Or.inr ⟨e, (List.dropWhile_suffix _).sublist.mem he, h⟩
    · rintro (h | ⟨e, he, h⟩)
      · exact Or.inl h
      · by_cases hfirst : e.1 = first
        · exact Or.inl (hfirst.symm.trans h)
        · right
          rw [← List.takeWhile_append_dropWhile (p := fun h : Bytes × Bytes => h.1 == first)
            (l := rest), List.mem_append] at he
          rcases he with he | he
          · exact (hfirst (by simpa using List.mem_takeWhile_imp he)).elim
          · exact ⟨e, he, h⟩

end Resource

section Dates

theorem utf8Chars_ascii {s : Bytes} (h : ∀ b ∈ s, b < 0x80) : utf8Chars s = s.map fun b => [b] := by
  induction s with
  | nil => rfl
  | cons b s ih =>
    rw [utf8Chars, ih fun c hc => h c (List.mem_cons_of_mem _ hc)]
    cases s with
    | nil => rfl
    | cons c s =>
      have hc : ¬ Bytes.isContinuation c = true := by
        have hlt := h c (List.mem_cons_of_mem _ List.mem_cons_self)
        rw [Bytes.isContinuation, Bool.and_eq_true, decide_eq_true_eq]
        rintro ⟨hge, -⟩
        exact absurd hlt (UInt8.not_lt.mpr hge)
      simp [hc]

/-- Nothing is trimmed from a text of graphical characters. -/
theorem trim_eq_self {s : Bytes} (h : ∀ b ∈ s, b < 0x80 ∧ isWhitespaceChar [b] = false) :
    trim s = s := by
  have hchars := utf8Chars_ascii fun b hb => (h b hb).1
  have hnone : ∀ char ∈ utf8Chars s, ¬ isWhitespaceChar char = true := by
    intro char hchar
    rw [hchars] at hchar
    obtain ⟨b, hb, rfl⟩ := List.mem_map.mp hchar
    rw [(h b hb).2]
    exact Bool.false_ne_true
  have hdrop : (utf8Chars s).dropWhile isWhitespaceChar = utf8Chars s := by
    rw [List.dropWhile_eq_self_iff]
    intro hl
    exact hnone _ (List.getElem_mem hl)
  have hrdrop : (utf8Chars s).rdropWhile isWhitespaceChar = utf8Chars s := by
    rw [List.rdropWhile_eq_self_iff]
    intro hl
    exact hnone _ (List.getLast_mem hl)
  rw [trim, trimChars, hdrop, hrdrop, flatten_utf8Chars]

theorem graphical_of_isDigit (b : UInt8) (h : Bytes.isDigit b = true) :
    b < 0x80 ∧ isWhitespaceChar [b] = false := by
  refine forall_byte (p := fun b => Bytes.isDigit b = true → b < 0x80 ∧
    isWhitespaceChar [b] = false) ?_ b h
  decide +kernel

theorem digit2_isDigit {a b : UInt8} {n : Nat} (h : digit2 a b = some n) :
    Bytes.isDigit a = true ∧ Bytes.isDigit b = true := by
  unfold digit2 digit at h
  grind

theorem digit4_isDigit {a b c d : UInt8} {n : Nat} (h : digit4 a b c d = some n) :
    (Bytes.isDigit a = true ∧ Bytes.isDigit b = true) ∧
      Bytes.isDigit c = true ∧ Bytes.isDigit d = true := by
  unfold digit4 at h
  split at h
  · next hx hy => exact ⟨digit2_isDigit hx, digit2_isDigit hy⟩
  · cases h

/-- A date is written in graphical characters. -/
theorem trim_of_parse {s : Bytes} {d : AmzDate} (h : AmzDate.parse s = some d) : trim s = s := by
  apply trim_eq_self
  unfold AmzDate.parse at h
  split at h
  · next y0 y1 y2 y3 m0 m1 d0 d1 t h0 h1 n0 n1 s0 s1 z =>
    split at h
    · next htz =>
      obtain ⟨rfl, rfl⟩ := htz
      split at h
      · next hy hm hd hh hn hs =>
        obtain ⟨⟨hy0, hy1⟩, hy2, hy3⟩ := digit4_isDigit hy
        obtain ⟨hm0, hm1⟩ := digit2_isDigit hm
        obtain ⟨hd0, hd1⟩ := digit2_isDigit hd
        obtain ⟨hh0, hh1⟩ := digit2_isDigit hh
        obtain ⟨hn0, hn1⟩ := digit2_isDigit hn
        obtain ⟨hs0, hs1⟩ := digit2_isDigit hs
        have hT : (84 : UInt8) < 0x80 ∧ isWhitespaceChar [84] = false := by decide
        have hZ : (90 : UInt8) < 0x80 ∧ isWhitespaceChar [90] = false := by decide
        simp only [List.forall_mem_cons]
        exact ⟨graphical_of_isDigit _ hy0, graphical_of_isDigit _ hy1, graphical_of_isDigit _ hy2,
          graphical_of_isDigit _ hy3, graphical_of_isDigit _ hm0, graphical_of_isDigit _ hm1,
          graphical_of_isDigit _ hd0, graphical_of_isDigit _ hd1, hT, graphical_of_isDigit _ hh0,
          graphical_of_isDigit _ hh1, graphical_of_isDigit _ hn0, graphical_of_isDigit _ hn1,
          graphical_of_isDigit _ hs0, graphical_of_isDigit _ hs1, hZ, by simp⟩
      · cases h
    · cases h
  · cases h

end Dates

end S3s.SigV2
