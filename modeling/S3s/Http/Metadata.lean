import S3s.Http.Request
import S3s.Rfc2047.RoundTrip

/-! # User metadata in headers

`add_opt_metadata` writes a map of user metadata as headers, `parse_opt_metadata` reads
such headers into a map.
-/
namespace S3s.Http

/-- `Metadata`: a map, by its entries in the order of an iteration. -/
structure Metadata where
  entries : List (Bytes × Bytes)
  nodup : (entries.map Prod.fst).Nodup

namespace Metadata

def empty : Metadata := ⟨[], List.nodup_nil⟩

/-- `HashMap::insert` -/
def insert (m : Metadata) (key value : Bytes) : Metadata where
  entries := (m.entries.filter fun e => e.1 != key) ++ [(key, value)]
  nodup := by
    have hsub : ((m.entries.filter fun e => e.1 != key).map Prod.fst).Sublist
        (m.entries.map Prod.fst) := List.filter_sublist.map _
    rw [List.map_append]
    refine (hsub.nodup m.nodup).append (List.nodup_singleton _) ?_
    intro name hname hkey
    obtain ⟨e, he, rfl⟩ := List.mem_map.mp hname
    have hne := (List.mem_filter.mp he).2
    rw [List.map_singleton, List.mem_singleton] at hkey
    simp [hkey] at hne

end Metadata

/-- `HeaderName::from_bytes`: a token, in lowercase. -/
def headerName (s : Bytes) : Option Bytes :=
  if s.isEmpty || 65535 < s.length || s.any fun b => !AwsChunked.isTokenChar b then none
  else some (Bytes.lowercase s)

/-- `HeaderValue::try_from` of a text. -/
def headerValue (s : Bytes) : Option Bytes := if s.all AwsChunked.isVisible then some s else none

/-- `HeaderMap::insert`: the value in place of those under the name. -/
def HeaderMap.insert (hs : HeaderMap) (name value : Bytes) : HeaderMap where
  entries := (hs.entries.filter fun e => e.1 != Bytes.lowercase name) ++ [(Bytes.lowercase name, value)]
  lowercase e he := by
    rcases List.mem_append.mp he with he | he
    · exact hs.lowercase e (List.mem_filter.mp he).1
    · rw [List.mem_singleton.mp he]
      exact Bytes.lowercase_lowercase name

/-- `HeaderMap::keys` -/
def HeaderMap.keys (hs : HeaderMap) : List Bytes := (hs.entries.map Prod.fst).dedup

namespace Metadata

/-- What the names of the headers begin with. -/
def namespaceText : Bytes := ascii "x-amz-meta-"

/-- One turn of the loop of `add_opt_metadata`. -/
def addEntry (hs : HeaderMap) (e : Bytes × Bytes) : S3Result HeaderMap := do
  let name ← (headerName (namespaceText ++ e.1)).elim (.error (.bare .internalError)) .ok
  let text ← match Rfc2047.encode e.2 with
    | .ok text => .ok text
    | .error _ => .error (.bare .internalError)
  let value ← (headerValue text).elim (.error (.bare .internalError)) .ok
  .ok (hs.insert name value)

/-- `add_opt_metadata` -/
def addOptMetadata (hs : HeaderMap) : Option Metadata → S3Result HeaderMap
  | none => .ok hs
  | some map => map.entries.foldlM addEntry hs

/-- `strip_prefix` of what the names begin with. -/
def keyOf (name : Bytes) : Option Bytes :=
  if namespaceText.isPrefixOf name then some (name.drop namespaceText.length) else none

/-- `duplicate_header` -/
def duplicateHeader (name : Bytes) : S3Error := invalidRequest (ascii "duplicate header: " ++ name)

/-- The `Debug` text of a `HeaderValue`. -/
def debugHeaderValue (value : Bytes) : Bytes :=
  [34] ++ (value.flatMap fun b =>
    if b = 34 then [92, 34]
    else if AwsChunked.isVisible b then [b]
    else ascii "\\x" ++ AwsChunked.hexText b.toNat) ++ [34]

/-- `invalid_header` -/
def invalidHeader (name value : Bytes) : S3Error :=
  .saying .invalidArgument (ascii "invalid header: " ++ name ++ ascii ": " ++ debugHeaderValue value)

/-- One turn of the loop of `parse_opt_metadata`: the entry of a header, when it has one. -/
def parseEntry (hs : HeaderMap) (name : Bytes) : S3Result (Option (Bytes × Bytes)) :=
  match keyOf name with
  | none => .ok none
  | some key =>
    if key.isEmpty then .ok none
    else
      match hs.getAll name with
      | [value] => do
        let raw ← (Bytes.fromUtf8 value).elim (.error (invalidHeader name value)) .ok
        match Rfc2047.decode raw with
        | .ok text => .ok (some (key, text))
        | .error _ => .error (invalidHeader name value)
      | _ => .error (duplicateHeader name)

/-- The loop of `parse_opt_metadata`. -/
def parseLoop (hs : HeaderMap) (metadata : Metadata) : List Bytes → S3Result Metadata
  | [] => .ok metadata
  | name :: names => do
    match ← parseEntry hs name with
    | none => parseLoop hs metadata names
    | some (key, value) => parseLoop hs (metadata.insert key value) names

/-- `parse_opt_metadata` -/
def parseOptMetadata (hs : HeaderMap) : S3Result (Option Metadata) := do
  let metadata ← parseLoop hs empty hs.keys
  .ok (if metadata.entries.isEmpty then none else some metadata)

/-- An entry that a header can hold: the key is a lowercase token, the value a text without white
space at its ends, short enough when it is encoded. -/
structure Portable (e : Bytes × Bytes) : Prop where
  key_ne : e.1 ≠ []
  key_token : e.1.all AwsChunked.isTokenChar = true
  key_lowercase : Bytes.lowercase e.1 = e.1
  key_length : (namespaceText ++ e.1).length ≤ 65535
  value_utf8 : Bytes.validUtf8 e.2 = true
  value_trimmed : Rfc2047.trim e.2 = e.2
  value_encodable : ∃ w, Rfc2047.encode e.2 = .ok w ∧ w.length ≤ Rfc2047.maxInputLen

/-- The text a value is written as. -/
def written (value : Bytes) : Bytes :=
  match Rfc2047.encode value with
  | .ok text => text
  | .error _ => []

section Writing

theorem Portable.encode {e : Bytes × Bytes} (h : Portable e) :
    Rfc2047.encode e.2 = .ok (written e.2) ∧ (written e.2).length ≤ Rfc2047.maxInputLen := by
  obtain ⟨w, hw, hlength⟩ := h.value_encodable
  rw [written, hw]
  exact ⟨rfl, hlength⟩

theorem Portable.name_lowercase {e : Bytes × Bytes} (h : Portable e) :
    Bytes.lowercase (namespaceText ++ e.1) = namespaceText ++ e.1 := by
  rw [Bytes.lowercase, List.map_append]
  exact congrArg₂ (· ++ ·) (by decide) h.key_lowercase

theorem Portable.headerName {e : Bytes × Bytes} (h : Portable e) :
    Http.headerName (namespaceText ++ e.1) = some (namespaceText ++ e.1) := by
  have hempty : (namespaceText ++ e.1).isEmpty = false := rfl
  have htoken : ((namespaceText ++ e.1).any fun b => !AwsChunked.isTokenChar b) = false := by
    have hstart : ∀ b ∈ namespaceText, AwsChunked.isTokenChar b = true :=
      List.all_eq_true.mp (by decide)
    rw [List.any_eq_false]
    intro b hb
    rcases List.mem_append.mp hb with hb | hb
    · simp [hstart b hb]
    · simp [List.all_eq_true.mp h.key_token b hb]
  rw [Http.headerName, hempty, htoken, h.name_lowercase]
  simp only [Bool.false_or, Bool.or_false, decide_eq_true_eq, if_neg (Nat.not_lt.mpr h.key_length)]

theorem Portable.headerValue {e : Bytes × Bytes} (h : Portable e) :
    Http.headerValue (written e.2) = some (written e.2) := by
  have hall : (written e.2).all AwsChunked.isVisible = true := by
    apply List.all_eq_true.mpr
    intro b hb
    obtain ⟨hlow, hhigh⟩ := Rfc2047.mem_of_encode h.value_utf8 h.encode.1 hb
    have hlow' : 32 ≤ b := hlow
    have hhigh' : b < 127 := hhigh
    simp [AwsChunked.isVisible, hlow', hhigh']
  rw [Http.headerValue, if_pos hall]

theorem Portable.addEntry {e : Bytes × Bytes} (h : Portable e) (hs : HeaderMap) :
    Metadata.addEntry hs e = .ok (hs.insert (namespaceText ++ e.1) (written e.2)) := by
  simp only [Metadata.addEntry, h.headerName, h.encode.1, h.headerValue, Option.elim_some, bind,
    Except.bind]

/-- The header of an entry. -/
def header (e : Bytes × Bytes) : Bytes × Bytes := (namespaceText ++ e.1, written e.2)

theorem insert_entries {hs : HeaderMap} {name value : Bytes} (hlower : Bytes.lowercase name = name)
    (hnew : ∀ e ∈ hs.entries, e.1 ≠ name) :
    (hs.insert name value).entries = hs.entries ++ [(name, value)] := by
  have hfilter : (hs.entries.filter fun e => e.1 != name) = hs.entries := by
    apply List.filter_eq_self.mpr
    intro e he
    simpa using hnew e he
  simp only [HeaderMap.insert, hlower, hfilter]

/-- All entries are written, one header each. -/
theorem foldlM_addEntry (hs : HeaderMap) {entries : List (Bytes × Bytes)}
    (hnodup : (entries.map Prod.fst).Nodup) (h : ∀ e ∈ entries, Portable e)
    (hnew : ∀ e ∈ entries, ∀ e' ∈ hs.entries, e'.1 ≠ namespaceText ++ e.1) :
    ∃ hs', entries.foldlM addEntry hs = .ok hs' ∧ hs'.entries = hs.entries ++ entries.map header := by
  induction entries generalizing hs with
  | nil => exact ⟨hs, rfl, by simp⟩
  | cons e entries ih =>
    have he := h e List.mem_cons_self
    rw [List.map_cons, List.nodup_cons] at hnodup
    have hentries : (hs.insert (namespaceText ++ e.1) (written e.2)).entries =
        hs.entries ++ [header e] := insert_entries he.name_lowercase (hnew e List.mem_cons_self)
    have hnew' : ∀ d ∈ entries, ∀ e' ∈ (hs.insert (namespaceText ++ e.1) (written e.2)).entries,
        e'.1 ≠ namespaceText ++ d.1 := by
      intro d hd e' he'
      rw [hentries, List.mem_append, List.mem_singleton] at he'
      rcases he' with he' | rfl
      · exact hnew d (List.mem_cons_of_mem _ hd) e' he'
      · intro hname
        rw [List.append_cancel_left hname] at hnodup
        exact hnodup.1 (List.mem_map_of_mem hd)
    obtain ⟨hs', hfold, hlast⟩ := ih _ hnodup.2 (fun d hd => h d (List.mem_cons_of_mem _ hd)) hnew'
    refine ⟨hs', ?_, ?_⟩
    · rw [List.foldlM_cons, he.addEntry]
      exact hfold
    · rw [hlast, hentries, List.append_assoc]
      rfl

end Writing

section Reading

theorem keyOf_name (key : Bytes) : keyOf (namespaceText ++ key) = some key := by
  have hstart : namespaceText.isPrefixOf (namespaceText ++ key) = true := by
    rw [List.isPrefixOf_iff_prefix]
    exact List.prefix_append _ _
  rw [keyOf, if_pos hstart, List.drop_left]

theorem keyOf_eq_some {name key : Bytes} (h : keyOf name = some key) : name = namespaceText ++ key := by
  unfold keyOf at h
  split_ifs at h with hstart
  cases h
  exact (List.prefix_append_drop (List.isPrefixOf_iff_prefix.mp hstart))

theorem insert_of_new {m : Metadata} {key value : Bytes} (h : key ∉ m.entries.map Prod.fst) :
    (m.insert key value).entries = m.entries ++ [(key, value)] := by
  have hfilter : (m.entries.filter fun e => e.1 != key) = m.entries := by
    apply List.filter_eq_self.mpr
    intro e he
    rw [bne_iff_ne]
    rintro rfl
    exact h (List.mem_map_of_mem he)
  simp only [insert, hfilter]

/-- The entry a name is read as. -/
def entryOf (hs : HeaderMap) (name : Bytes) : Option (Bytes × Bytes) :=
  match parseEntry hs name with
  | .ok entry => entry
  | .error _ => none

theorem keyOf_of_parseEntry {hs : HeaderMap} {name key value : Bytes}
    (h : parseEntry hs name = .ok (some (key, value))) : keyOf name = some key := by
  unfold parseEntry at h
  split at h
  · cases h
  · next key' hkey =>
    split at h
    · cases h
    · split at h
      · obtain ⟨raw, -, h⟩ := bind_eq_ok.mp h
        split at h
        · cases h
          exact hkey
        · cases h
      · cases h

theorem ok_of_parseLoop {hs : HeaderMap} {m m' : Metadata} {names : List Bytes}
    (h : parseLoop hs m names = .ok m') : ∀ name ∈ names, ∃ r, parseEntry hs name = .ok r := by
  induction names generalizing m with
  | nil => simp
  | cons name names ih =>
    rw [parseLoop] at h
    obtain ⟨r, hr, h⟩ := bind_eq_ok.mp h
    refine List.forall_mem_cons.mpr ⟨⟨r, hr⟩, ?_⟩
    cases r with
    | none => exact ih h
    | some e => exact ih h

/-- When every name is read, the entries are collected. -/
theorem parseLoop_of_ok {hs : HeaderMap} {m : Metadata} {names : List Bytes} (hnodup : names.Nodup)
    (hnew : ∀ name ∈ names, ∀ key, keyOf name = some key → key ∉ m.entries.map Prod.fst)
    (h : ∀ name ∈ names, ∃ r, parseEntry hs name = .ok r) :
    ∃ m', parseLoop hs m names = .ok m' ∧ m'.entries = m.entries ++ names.filterMap (entryOf hs) := by
  induction names generalizing m with
  | nil => exact ⟨m, rfl, by simp⟩
  | cons name names ih =>
    rw [List.nodup_cons] at hnodup
    obtain ⟨r, hr⟩ := h name List.mem_cons_self
    have hrest : ∀ name ∈ names, ∃ r, parseEntry hs name = .ok r :=
      fun name hname => h name (List.mem_cons_of_mem _ hname)
    have hentry : entryOf hs name = r := by rw [entryOf, hr]
    rw [parseLoop, hr, List.filterMap_cons, hentry]
    cases r with
    | none =>
      exact ih hnodup.2 (fun name hname => hnew name (List.mem_cons_of_mem _ hname)) hrest
    | some e =>
      obtain ⟨key, value⟩ := e
      have hkey := keyOf_of_parseEntry hr
      have hinsert : (m.insert key value).entries = m.entries ++ [(key, value)] :=
        insert_of_new (hnew name List.mem_cons_self key hkey)
      have hnew' : ∀ name' ∈ names, ∀ key', keyOf name' = some key' →
          key' ∉ (m.insert key value).entries.map Prod.fst := by
        intro name' hname' key' hkey'
        rw [hinsert, List.map_append, List.mem_append, not_or]
        refine ⟨hnew name' (List.mem_cons_of_mem _ hname') key' hkey', ?_⟩
        intro hmem
        obtain rfl : key' = key := by simpa using hmem
        rw [keyOf_eq_some hkey, ← keyOf_eq_some hkey'] at hnodup
        exact hnodup.1 hname'
      obtain ⟨m', hloop, hentries⟩ := ih hnodup.2 hnew' hrest
      refine ⟨m', hloop, ?_⟩
      rw [hentries, hinsert, List.append_assoc]
      rfl

/-- The entries of what was read. -/
def entriesOf (m : Option Metadata) : List (Bytes × Bytes) := m.elim [] entries

theorem parseOptMetadata_of_ok {hs : HeaderMap} (h : ∀ name ∈ hs.keys, ∃ r, parseEntry hs name = .ok r) :
    ∃ m, parseOptMetadata hs = .ok m ∧ entriesOf m = hs.keys.filterMap (entryOf hs) := by
  have hnew : ∀ name ∈ hs.keys, ∀ key, keyOf name = some key → key ∉ empty.entries.map Prod.fst := by
    simp [empty]
  obtain ⟨m, hloop, hentries⟩ := parseLoop_of_ok (List.nodup_dedup _) hnew h
  refine ⟨if m.entries.isEmpty then none else some m, ?_, ?_⟩
  · rw [parseOptMetadata, HeaderMap.keys, hloop]
    rfl
  · rw [show empty.entries = [] from rfl, List.nil_append] at hentries
    rw [HeaderMap.keys, ← hentries]
    cases hm : m.entries with
    | nil => rfl
    | cons e es => simp [entriesOf, hm]

theorem ok_of_parseOptMetadata {hs : HeaderMap} {m : Option Metadata}
    (h : parseOptMetadata hs = .ok m) : ∀ name ∈ hs.keys, ∃ r, parseEntry hs name = .ok r := by
  obtain ⟨metadata, hloop, -⟩ := bind_eq_ok.mp h
  exact ok_of_parseLoop hloop

end Reading

/-- The map comes back from the headers it is written to, in whatever order these are read. -/
def Survives (hs : HeaderMap) (map : Metadata) : Prop :=
  ∃ written : HeaderMap, addOptMetadata hs (some map) = .ok written ∧
    ∀ read : HeaderMap, read.entries.Perm written.entries →
      ∃ m, parseOptMetadata read = .ok m ∧ (entriesOf m).Perm map.entries

section Survival

variable {hs read : HeaderMap} {map : Metadata}

theorem filter_key {entries : List (Bytes × Bytes)} (hnodup : (entries.map Prod.fst).Nodup)
    {e : Bytes × Bytes} (he : e ∈ entries) : (entries.filter fun d => d.1 == e.1) = [e] := by
  induction entries with
  | nil => cases he
  | cons d entries ih =>
    rw [List.map_cons, List.nodup_cons] at hnodup
    rcases List.mem_cons.mp he with rfl | he
    · have hrest : (entries.filter fun d => d.1 == e.1) = [] := by
        rw [List.filter_eq_nil_iff]
        intro d hd heq
        exact hnodup.1 (beq_iff_eq.mp heq ▸ List.mem_map_of_mem hd)
      rw [List.filter_cons, if_pos (beq_self_eq_true _), hrest]
    · have hne : d.1 ≠ e.1 := by
        intro heq
        exact hnodup.1 (heq ▸ List.mem_map_of_mem he)
      rw [List.filter_cons, if_neg (by simpa using hne)]
      exact ih hnodup.2 he

theorem getAll_header (hother : ∀ e ∈ hs.entries, keyOf e.1 = none)
    (hread : read.entries.Perm (hs.entries ++ map.entries.map header)) {e : Bytes × Bytes}
    (he : e ∈ map.entries) (hportable : Portable e) :
    read.getAll (namespaceText ++ e.1) = [Metadata.written e.2] := by
  have hold : (hs.entries.filter fun d => d.1 == namespaceText ++ e.1) = [] := by
    rw [List.filter_eq_nil_iff]
    intro d hd heq
    have hnone := hother d hd
    rw [beq_iff_eq.mp heq, keyOf_name] at hnone
    cases hnone
  have hnew : ((map.entries.map header).filter fun d => d.1 == namespaceText ++ e.1) = [header e] := by
    have hname : ((fun d : Bytes × Bytes => d.1 == namespaceText ++ e.1) ∘ header) =
        fun d => d.1 == e.1 := by
      funext d
      rw [Function.comp_apply, header, Bool.eq_iff_iff, beq_iff_eq, beq_iff_eq,
        List.append_cancel_left_eq]
    rw [List.filter_map, hname, filter_key map.nodup he]
    rfl
  have hperm := hread.filter fun d => d.1 == namespaceText ++ e.1
  rw [List.filter_append, hold, hnew, List.nil_append, List.perm_singleton] at hperm
  rw [HeaderMap.getAll, hportable.name_lowercase, hperm]
  rfl

/-- The header of an entry is read as the entry with its value encoded and decoded. -/
theorem parseEntry_header (hother : ∀ e ∈ hs.entries, keyOf e.1 = none)
    (hread : read.entries.Perm (hs.entries ++ map.entries.map header)) {e : Bytes × Bytes}
    (he : e ∈ map.entries) (hportable : Portable e) {r : Option (Bytes × Bytes)} :
    parseEntry read (namespaceText ++ e.1) = .ok r ↔
      ∃ text, Rfc2047.decode (Metadata.written e.2) = .ok text ∧ r = some (e.1, text) := by
  have hempty : e.1.isEmpty = false := List.isEmpty_eq_false_iff.mpr hportable.key_ne
  have hutf8 : Bytes.fromUtf8 (Metadata.written e.2) = some (Metadata.written e.2) := by
    apply Bytes.fromUtf8_of_ascii
    intro b hb
    exact UInt8.lt_trans (Rfc2047.mem_of_encode hportable.value_utf8 hportable.encode.1 hb).2
      (by decide)
  simp only [parseEntry, keyOf_name, hempty, getAll_header hother hread he hportable, hutf8,
    Bool.false_eq_true, if_false, Option.elim_some, bind, Except.bind]
  cases Rfc2047.decode (Metadata.written e.2) with
  | ok text => simp [eq_comm]
  | error err => simp

/-- The names that are read: those that were there, and those of the map. -/
theorem keys_perm (hother : ∀ e ∈ hs.entries, keyOf e.1 = none)
    (hread : read.entries.Perm (hs.entries ++ map.entries.map header)) :
    read.keys.Perm (hs.keys ++ map.entries.map fun e => namespaceText ++ e.1) := by
  have hnames : (map.entries.map fun e => namespaceText ++ e.1).Nodup := by
    have hmap := map.nodup.map (f := fun key => namespaceText ++ key) fun a b h =>
      List.append_cancel_left h
    rwa [List.map_map] at hmap
  rw [HeaderMap.keys, HeaderMap.keys, List.perm_ext_iff_of_nodup (List.nodup_dedup _)]
  · intro name
    have hmem := (hread.map Prod.fst).mem_iff (a := name)
    rw [List.mem_dedup, hmem, List.map_append, List.mem_append,
      List.mem_append, List.mem_dedup, List.map_map]
    rfl
  · refine (List.nodup_dedup _).append hnames ?_
    intro name hold hnew
    obtain ⟨d, hd, rfl⟩ := List.mem_map.mp (List.mem_dedup.mp hold)
    obtain ⟨e, -, hname⟩ := List.mem_map.mp hnew
    have hnone := hother d hd
    rw [← hname, keyOf_name] at hnone
    cases hnone

/-- A map survives exactly when none of its values is left as it is and has the marks of an
encoded word. -/
theorem survives_iff (hs : HeaderMap) (map : Metadata) (hother : ∀ e ∈ hs.entries, keyOf e.1 = none)
    (h : ∀ e ∈ map.entries, Portable e) :
    Survives hs map ↔
      ∀ e ∈ map.entries, ¬(Rfc2047.isAsciiHeaderSafe e.2 = true ∧ Rfc2047.hasMarks e.2 = true) := by
  have hfresh : ∀ e ∈ map.entries, ∀ d ∈ hs.entries, d.1 ≠ namespaceText ++ e.1 := by
    intro e _ d hd hname
    have hnone := hother d hd
    rw [hname, keyOf_name] at hnone
    cases hnone
  have hdecode : ∀ e ∈ map.entries, Rfc2047.decode (Metadata.written e.2) = .ok e.2 ↔
      ¬(Rfc2047.isAsciiHeaderSafe e.2 = true ∧ Rfc2047.hasMarks e.2 = true) := fun e he =>
    Rfc2047.decode_encode_iff (h e he).value_utf8 (h e he).value_trimmed (h e he).encode.1
      (h e he).encode.2
  obtain ⟨out, hadd, hentries⟩ := foldlM_addEntry hs map.nodup h hfresh
  constructor
  · rintro ⟨out', hadd', hparse⟩ e he
    obtain rfl : out = out' := Except.ok.inj (hadd.symm.trans hadd')
    have hperm : out.entries.Perm (hs.entries ++ map.entries.map header) := hentries ▸ .refl _
    obtain ⟨m, hm, hsame⟩ := hparse out (.refl _)
    have hok := ok_of_parseOptMetadata hm
    obtain ⟨m', hm', hread⟩ := parseOptMetadata_of_ok hok
    obtain rfl : m' = m := Except.ok.inj (hm'.symm.trans hm)
    have hname : namespaceText ++ e.1 ∈ out.keys := by
      rw [(keys_perm hother hperm).mem_iff, List.mem_append]
      exact .inr (List.mem_map_of_mem he)
    obtain ⟨r, hr⟩ := hok _ hname
    obtain ⟨text, htext, rfl⟩ := (parseEntry_header hother hperm he (h e he)).mp hr
    have hmem : (e.1, text) ∈ map.entries := by
      rw [← hsame.mem_iff, hread, List.mem_filterMap]
      exact ⟨_, hname, by rw [entryOf, hr]⟩
    have hvalue : (e.1, text) = e := by
      have hone := filter_key map.nodup he
      have hin : (e.1, text) ∈ map.entries.filter fun d => d.1 == e.1 :=
        List.mem_filter.mpr ⟨hmem, beq_self_eq_true _⟩
      rw [hone, List.mem_singleton] at hin
      exact hin
    rw [← hdecode e he, htext, ← congrArg Prod.snd hvalue]
  · intro hplain
    refine ⟨out, hadd, ?_⟩
    intro read hread
    rw [hentries] at hread
    have hkeys := keys_perm hother hread
    have hnew : ∀ e ∈ map.entries, parseEntry read (namespaceText ++ e.1) = .ok (some e) :=
      fun e he => (parseEntry_header hother hread he (h e he)).mpr
        ⟨e.2, (hdecode e he).mpr (hplain e he), rfl⟩
    have hold : ∀ name ∈ hs.keys, parseEntry read name = .ok none := by
      intro name hname
      obtain ⟨d, hd, rfl⟩ := List.mem_map.mp (List.mem_dedup.mp hname)
      rw [parseEntry, hother d hd]
    have hok : ∀ name ∈ read.keys, ∃ r, parseEntry read name = .ok r := by
      intro name hname
      rw [hkeys.mem_iff, List.mem_append] at hname
      rcases hname with hname | hname
      · exact ⟨none, hold name hname⟩
      · obtain ⟨e, he, rfl⟩ := List.mem_map.mp hname
        exact ⟨some e, hnew e he⟩
    obtain ⟨m, hm, hentriesOf⟩ := parseOptMetadata_of_ok hok
    refine ⟨m, hm, ?_⟩
    have hnone : hs.keys.filterMap (entryOf read) = [] := by
      rw [List.filterMap_eq_nil_iff]
      intro name hname
      rw [entryOf, hold name hname]
    have hsome : (map.entries.map fun e => namespaceText ++ e.1).filterMap (entryOf read) =
        map.entries := by
      rw [List.filterMap_map]
      refine (List.filterMap_congr fun e he => ?_).trans (List.filterMap_some ..)
      rw [Function.comp_apply, entryOf, hnew e he]
    have hperm := hkeys.filterMap (entryOf read)
    rwa [List.filterMap_append, hnone, hsome, List.nil_append, ← hentriesOf] at hperm

end Survival

section Samples

/-- A response without headers. -/
def noHeaders : HeaderMap := ⟨[], by simp⟩

/-- `greeting: 你好` -/
def greeting : Metadata := ⟨[(ascii "greeting", [0xE4, 0xBD, 0xA0, 0xE5, 0xA5, 0xBD])], by simp⟩

theorem survives_greeting : Survives noHeaders greeting := by
  have hportable : ∀ e ∈ greeting.entries, Portable e := by
    intro e he
    obtain rfl := List.mem_singleton.mp he
    exact ⟨by decide, by decide, by decide, by decide, by decide, by decide, _, rfl, by decide⟩
  refine (survives_iff noHeaders greeting (by simp [noHeaders]) hportable).mpr ?_
  intro e he
  obtain rfl := List.mem_singleton.mp he
  decide

/-- `k: =?UTF-8?B?aGVsbG8=?=` -/
def lookalike : Metadata := ⟨[(ascii "k", ascii "=?UTF-8?B?aGVsbG8=?=")], by simp⟩

theorem lookalike_portable : ∀ e ∈ lookalike.entries, Portable e := by
  intro e he
  obtain rfl := List.mem_singleton.mp he
  exact ⟨by decide, by decide, by decide, by decide, Bytes.validUtf8_of_ascii _ (by decide +kernel),
    by decide, ascii "=?UTF-8?B?aGVsbG8=?=", by decide +kernel, by decide⟩

/-- The headers it is written to. -/
def lookalikeHeaders : HeaderMap :=
  noHeaders.insert (ascii "x-amz-meta-k") (ascii "=?UTF-8?B?aGVsbG8=?=")

/-- A value that looks like an encoded word is written as it is and read as what it encodes. -/
theorem lookalike_decoded : (∀ e ∈ lookalike.entries, Portable e) ∧ ¬Survives noHeaders lookalike ∧
    addOptMetadata noHeaders (some lookalike) = .ok lookalikeHeaders ∧
      (parseOptMetadata lookalikeHeaders).map entriesOf = .ok [(ascii "k", ascii "hello")] := by
  have hadd : addOptMetadata noHeaders (some lookalike) = .ok lookalikeHeaders := rfl
  have hparse : (parseOptMetadata lookalikeHeaders).map entriesOf =
      .ok [(ascii "k", ascii "hello")] := by decide +kernel
  have hlost : ¬Survives noHeaders lookalike := by
    rintro ⟨hs, hwritten, hread⟩
    obtain rfl := Except.ok.inj (hadd.symm.trans hwritten)
    obtain ⟨m, hm, hperm⟩ := hread _ (.refl _)
    rw [hm] at hparse
    have hentries : entriesOf m = [(ascii "k", ascii "hello")] := Except.ok.inj hparse
    rw [hentries, lookalike, List.singleton_perm_singleton, Prod.mk.injEq] at hperm
    exact absurd hperm.2 (by decide)
  exact ⟨lookalike_portable, hlost, hadd, hparse⟩

end Samples

end Metadata

end S3s.Http
