import S3s.Fs.Names
import Mathlib.Data.Countable.Basic
import Mathlib.Logic.Equiv.List

/-! # The texts of what is kept

A store whose texts and digests are given by tables. What is in no table has a text that none of
the tables has, with a zero byte in front.
-/
namespace S3s.Fs

section Countable

instance countableByte : Countable UInt8 :=
  Function.Injective.countable (f := UInt8.toNat) fun _ _ h => UInt8.toNat_inj.mp h

instance : Countable Http.Metadata :=
  Function.Injective.countable (f := Http.Metadata.entries) fun a b h => by
    cases a
    cases b
    cases h
    rfl

/-- The attributes one after another. -/
def ObjectAttributes.fields (a : ObjectAttributes) : Option Http.Metadata × List (Option Bytes) :=
  (a.userMetadata, [a.contentEncoding, a.contentType, a.contentDisposition, a.contentLanguage,
    a.cacheControl, a.expires, a.websiteRedirectLocation, a.checksumAlgorithm, a.checksumType])

theorem ObjectAttributes.fields_injective : Function.Injective fields := by
  rintro ⟨⟨⟩, _, _⟩ ⟨⟨⟩, _, _⟩ h
  simpa [fields, and_assoc] using h

instance : Countable ObjectAttributes := ObjectAttributes.fields_injective.countable

end Countable

deriving instance DecidableEq for Http.Metadata
deriving instance DecidableEq for StandardAttributes
deriving instance DecidableEq for ObjectAttributes

section Tables

variable {α : Type}

/-- Some text for every value. -/
noncomputable def Codec.any [Countable α] : Codec α :=
  have hinj : ∃ f : α → Nat, Function.Injective f := exists_injective_nat α
  { toVec := fun a => List.replicate (hinj.choose a) 1
    fromSlice := fun s => Function.partialInv hinj.choose s.length
    fromSlice_toVec := fun a => by
      rw [List.length_replicate]
      exact Function.partialInv_left hinj.choose_spec a }

/-- Texts that can stand in a table. -/
structure IsTable (table : List (α × Bytes)) : Prop where
  nodup : (table.map Prod.snd).Nodup
  apart : ∀ x ∈ table, x.2.head? ≠ some 0

variable [DecidableEq α]

/-- A value, by its text in the table, or by another text behind a zero byte. -/
def Codec.withTable (table : List (α × Bytes)) (h : IsTable table) (other : Codec α) : Codec α where
  toVec a := match table.find? fun x => x.1 = a with
    | some x => x.2
    | none => 0 :: other.toVec a
  fromSlice s := match table.find? fun x => x.2 = s with
    | some x => some x.1
    | none => if s.head? = some 0 then other.fromSlice (s.drop 1) else none
  fromSlice_toVec a := by
    cases hfind : table.find? fun x => x.1 = a with
    | some x =>
      obtain ⟨y, hy⟩ : ∃ y, table.find? (fun y => y.2 = x.2) = some y :=
        Option.isSome_iff_exists.mp (List.find?_isSome.mpr
          ⟨x, List.mem_of_find?_eq_some hfind, by simp⟩)
      have hkey : x.1 = a := by simpa using List.find?_some hfind
      have htext : y.2 = x.2 := by simpa using List.find?_some hy
      have hsame : y = x := List.inj_on_of_nodup_map h.nodup (List.mem_of_find?_eq_some hy)
        (List.mem_of_find?_eq_some hfind) htext
      simp only [hy, hsame, hkey]
    | none =>
      have hnone : (table.find? fun x => x.2 = 0 :: other.toVec a) = none := by
        refine List.find?_eq_none.mpr fun x hx htext => h.apart x hx ?_
        rw [of_decide_eq_true htext, List.head?_cons]
      simp only [hnone, List.head?_cons, if_true, List.drop_one, List.tail_cons, other.fromSlice_toVec]

end Tables

section Uuids

/-- `Uuid::parse_str` of a text with dashes. -/
def Uuid.read (text : Bytes) : Option Uuid := do
  let bytes ← Bytes.decodeHex (text.filter fun c => c != 45)
  if h : bytes.length = 16 then some ⟨bytes.toArray, by simpa using h⟩ else none

theorem Uuid.read_text (u : Uuid) : Uuid.read u.text = some u := by
  have hlength : u.toList.length = 16 := Vector.length_toList
  simp only [Uuid.read, u.filter_text, Bytes.decodeHex_encodeHex, Option.bind_eq_bind, Option.bind_some,
    dif_pos hlength]
  exact congrArg some (Vector.toList_inj.mp (by simp [Vector.toList]))

end Uuids

/-- What is kept as which text, and the digests. -/
structure Tables where
  digests : List ((ChecksumAlgorithm × Bytes) × Bytes)
  attributes : List (ObjectAttributes × Bytes)
  infos : List (InternalInfo × Bytes)
  accessKeys : List (Option Bytes × Bytes)
  attributes_isTable : IsTable attributes
  infos_isTable : IsTable infos
  accessKeys_isTable : IsTable accessKeys

/-- The store whose texts are those of the tables. -/
noncomputable def Tables.store (tables : Tables) : FileSystem where
  root := [ascii "srv"]
  absolutizeVirtually := virtually
  lexical := virtually_lexical
  digest a content := match tables.digests.find? fun x => x.1 = (a, content) with
    | some x => x.2
    | none => []
  attributes := .withTable tables.attributes tables.attributes_isTable .any
  oldMetadata _ := none
  info := .withTable tables.infos tables.infos_isTable .any
  accessKey := .withTable tables.accessKeys tables.accessKeys_isTable .any
  parseUuid := Uuid.read
  parseUuid_text := Uuid.read_text

end S3s.Fs
