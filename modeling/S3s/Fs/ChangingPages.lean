import S3s.Fs.Pagination
import S3s.Library.ChangingPages

/-! # Page after page while the store changes

Every page is a page of the disk as it is at its request. Whatever is written in between, nothing is
listed twice, what is listed was there, and what was there all the time is listed.
-/
namespace S3s.Fs
open LexicalPath FileTree

section Loop

variable (fs : FileSystem) (disks : Nat → Tree Bytes UInt8)

/-- As `listPages`, with the disk as it is at each request. -/
def FileSystem.listChanging (input : ListObjectsV2Input) (maxKeys : Nat → Int) :
    Nat → Nat → Option Bytes → Option (List ListObjectsV2Output)
  | 0, _, _ => none
  | turns + 1, i, token =>
    match fs.listObjectsV2 (disks i)
      { input with continuationToken := token, maxKeys := some (maxKeys i) } with
    | .ok output =>
      if output.isTruncated then
        (listChanging input maxKeys turns (i + 1) output.nextContinuationToken).map (output :: ·)
      else some [output]
    | .error _ => none

end Loop

/-- The entries that a page of an answer shows. -/
structure Shows (output : ListObjectsV2Output) (page : List (Object ⊕ Bytes)) : Prop where
  contents : output.contents.getD [] = Pages.leftsOf page
  prefixes : output.commonPrefixes.getD [] = Pages.rightsOf page

section Shown

variable {pages : List ListObjectsV2Output} {shown : List (List (Object ⊕ Bytes))}

theorem contentsOf_shown (h : List.Forall₂ Shows pages shown) :
    contentsOf pages = Pages.leftsOf shown.flatten := by
  induction h with
  | nil => rfl
  | cons hpage _ ih =>
    rw [contentsOf, List.flatMap_cons, hpage.contents, ← contentsOf, ih, List.flatten_cons,
      Pages.leftsOf_append]

theorem prefixesOf_shown (h : List.Forall₂ Shows pages shown) :
    prefixesOf pages = Pages.rightsOf shown.flatten := by
  induction h with
  | nil => rfl
  | cons hpage _ ih =>
    rw [prefixesOf, List.flatMap_cons, hpage.prefixes, ← prefixesOf, ih, List.flatten_cons,
      Pages.rightsOf_append]

theorem exists_shown (h : List.Forall₂ Shows pages shown) {i : Nat} {output : ListObjectsV2Output}
    (hi : pages[i]? = some output) : ∃ page, shown[i]? = some page ∧ Shows output page := by
  induction h generalizing i with
  | nil => cases hi
  | cons hpage _ ih =>
    cases i with
    | zero =>
      obtain rfl := Option.some.inj hi
      exact ⟨_, rfl, hpage⟩
    | succ i => exact ih hi

end Shown

section Turns

variable {fs : FileSystem} {disks : Nat → Tree Bytes UInt8} {input : ListObjectsV2Input}
  {wholes : Nat → List (Object ⊕ Bytes)}

/-- The pages are turns through the listings of their times. -/
theorem turns_of_listChanging
    (hlist : ∀ i token maxKeys, fs.listObjectsV2 (disks i)
      { input with continuationToken := token, maxKeys := maxKeys } =
        .ok (pageOf { input with continuationToken := token, maxKeys := maxKeys } (wholes i)))
    {maxKeys : Nat → Int} (hmax : ∀ i, 1 ≤ maxKeys i) {turns i : Nat} {token : Option Bytes}
    {pages : List ListObjectsV2Output}
    (hpages : fs.listChanging disks input maxKeys turns i token = some pages) :
    ∃ shown, Pages.Turns textLe textOf wholes i (resumePoint token input.startAfter) shown ∧
      List.Forall₂ Shows pages shown := by
  induction turns generalizing i token pages with
  | zero => cases hpages
  | succ turns ih =>
    let marker := resumePoint token input.startAfter
    let rest := Pages.behind textLe textOf marker (wholes i)
    let limit := limitOf (maxKeys i)
    let page := pageOf { input with continuationToken := token, maxKeys := some (maxKeys i) } (wholes i)
    have hpos : 0 < limit := by
      have hone := hmax i
      show 0 < limitOf (maxKeys i)
      rw [limitOf, if_neg (by omega)]
      omega
    have hshows : Shows page (rest.take limit) := ⟨getD_nonEmpty _, getD_nonEmpty _⟩
    have htruncated : page.isTruncated = decide (limit < rest.length) := by
      show decide (0 < limit ∧ limit < rest.length) = _
      simp [hpos]
    rw [FileSystem.listChanging, hlist] at hpages
    by_cases hmore : limit < rest.length
    · have hlast : (rest.take limit).getLast? ≠ none := by
        rw [Ne, List.getLast?_eq_none_iff, ← List.length_eq_zero_iff, List.length_take]
        omega
      obtain ⟨x, hx⟩ := Option.ne_none_iff_exists'.mp hlast
      have hbehind : isBehind marker (textOf x) = true :=
        (List.mem_filter.mp (List.mem_of_mem_take (List.mem_of_getLast? hx))).2
      have hnext : page.nextContinuationToken = some (textOf x) := by
        have hmap : (rest.take limit).getLast?.map textOf = some (textOf x) := by
          rw [hx, Option.map_some]
        rw [← hmap]
        exact if_pos (htruncated.trans (decide_eq_true hmore))
      have hpages' : (fs.listChanging disks input maxKeys turns (i + 1) (some (textOf x))).map
          (page :: ·) = some pages := by
        rw [← hnext, ← hpages]
        exact (if_pos (htruncated.trans (decide_eq_true hmore))).symm
      obtain ⟨later, hlater, rfl⟩ := Option.map_eq_some_iff.mp hpages'
      obtain ⟨shown, hturns, hall⟩ := ih hlater
      rw [resumePoint_of_behind hbehind] at hturns
      exact ⟨rest.take limit :: shown, .more i limit marker x shown hx hturns, .cons hshows hall⟩
    · have hall : rest.take limit = rest := List.take_of_length_le (by omega)
      have hpages' : some [page] = some pages := by
        rw [← hpages]
        refine (if_neg ?_).symm
        rw [show page.isTruncated = false from htruncated.trans (decide_eq_false hmore)]
        exact Bool.false_ne_true
      obtain rfl := Option.some.inj hpages'
      rw [hall] at hshows
      exact ⟨[rest], .last i marker, .cons hshows .nil⟩

end Turns

section Change

variable {disk disk' : Tree Bytes UInt8} {bucket keyPrefix : Bytes} {delimiter : Option Bytes}

/-- A text is that of an object or of a common prefix, whatever else there is. -/
theorem IsEntry.apart (hdelimiter : SimpleDelimiter delimiter) {o : Object} {commonPrefix : Bytes}
    (hobject : IsEntry disk bucket keyPrefix delimiter (.inl o))
    (hcommon : IsEntry disk' bucket keyPrefix delimiter (.inr commonPrefix)) : o.key ≠ commonPrefix := by
  obtain ⟨o₁, -, -, hentry⟩ := hobject
  obtain ⟨o₂, -, hstarts, hentry'⟩ := hcommon
  have hsame : o₁ = o := by
    rcases entryOf_cases keyPrefix delimiter o₁ with h | ⟨p, h⟩
    · exact (Sum.inl.inj (hentry.trans h)).symm
    · rw [h] at hentry
      cases hentry
  rw [hsame] at hentry
  exact entryOf_apart hdelimiter hstarts hentry.symm hentry'.symm

end Change

/-- Page after page of a bucket that changes: what is received is ascending without duplicates, each entry
was there when its page was asked for, and the objects and common prefixes that were there at every page
are all received. -/
theorem pages_under_change (fs : FileSystem) (disks : Nat → Tree Bytes UInt8) (input : ListObjectsV2Input)
    (maxKeys : Nat → Int) (hbucket : Routing.checkBucketName input.bucket = true)
    (hdir : ∀ i, (disks i).get [input.bucket] = some .dir)
    (hordinary : ∀ i, OrdinaryBucket (disks i) input.bucket)
    (hp : Bytes.validUtf8 (input.keyPrefix.getD []) = true) (hdelimiter : SimpleDelimiter input.delimiter)
    (hmax : ∀ i, 1 ≤ maxKeys i) {turns : Nat} {pages : List ListObjectsV2Output}
    (hpages : fs.listChanging disks input maxKeys turns 0 none = some pages) :
    let Entry i := IsEntry (disks i) input.bucket (trimSlashes (input.keyPrefix.getD [])) input.delimiter
    Pages.Strict textLe Object.key (contentsOf pages) ∧ Pages.Strict textLe id (prefixesOf pages) ∧
    (∀ i page, pages[i]? = some page → (∀ o ∈ page.contents.getD [], Entry i (.inl o)) ∧
      ∀ p ∈ page.commonPrefixes.getD [], Entry i (.inr p)) ∧
    (∀ key, isBehind input.startAfter key = true →
      (∀ i < pages.length, ∃ o, Entry i (.inl o) ∧ o.key = key) → ∃ o ∈ contentsOf pages, o.key = key) ∧
    ∀ p, isBehind input.startAfter p = true → (∀ i < pages.length, Entry i (.inr p)) →
      p ∈ prefixesOf pages := by
  intro Entry
  have hwhole (i : Nat) := exists_whole fs hbucket (hdir i) (hordinary i) (validUtf8_trimSlashes hp) hdelimiter
  choose wholes hstrict hmem hanswer using hwhole
  obtain ⟨shown, hturns, hshown⟩ := turns_of_listChanging
    (fun i token limit => hanswer i _ rfl rfl rfl) hmax hpages
  have hlength : pages.length = shown.length := hshown.length_eq
  have hresume : resumePoint none input.startAfter = input.startAfter := by
    cases input.startAfter <;> rfl
  rw [hresume] at hturns
  have hall := hturns.strict Http.bytes_isOrder hstrict
  have hentry {i : Nat} {page : List (Object ⊕ Bytes)} (hi : shown[i]? = some page) {x : Object ⊕ Bytes}
      (hx : x ∈ page) : Entry i x := by
    apply (hmem i x).mp
    have hthere := hturns.mem_lists hi hx
    rwa [Nat.zero_add] at hthere
  -- an entry that is received under a text is the object, or the common prefix, of that text
  have hreceived {x : Object ⊕ Bytes} (hx : x ∈ shown.flatten) : ∃ i, Entry i x := by
    obtain ⟨page, hpage, hx⟩ := List.mem_flatten.mp hx
    obtain ⟨i, hi⟩ := List.mem_iff_getElem?.mp hpage
    exact ⟨i, hentry hi hx⟩
  have hcomplete (text : Bytes) (hbehind : isBehind input.startAfter text = true)
      (hthere : ∀ i < pages.length, ∃ x, Entry i x ∧ textOf x = text) :
      ∃ x ∈ shown.flatten, textOf x = text := by
    apply hturns.complete Http.bytes_isOrder hstrict
    · intro m hm
      rw [isBehind, show input.startAfter = some m from hm] at hbehind
      exact hbehind
    · intro i hi
      obtain ⟨x, hx, htext⟩ := hthere i (by omega)
      refine ⟨x, ?_, htext⟩
      rw [Nat.zero_add]
      exact (hmem i x).mpr hx
  have hsome : 0 < pages.length := by
    rw [hlength]
    cases hturns with
    | last => exact Nat.one_pos
    | more => exact Nat.succ_pos _
  refine ⟨?_, ?_, ?_, ?_, ?_⟩
  · rw [contentsOf_shown hshown]
    exact hall.lefts
  · rw [prefixesOf_shown hshown]
    exact hall.rights
  · intro i output hi
    obtain ⟨page, hpage, hshows⟩ := exists_shown hshown hi
    rw [hshows.contents, hshows.prefixes]
    constructor
    · exact fun o ho => hentry hpage ((Pages.mem_leftsOf page).mp ho)
    · exact fun p hp => hentry hpage ((Pages.mem_rightsOf page).mp hp)
  · intro key hbehind hthere
    obtain ⟨x, hx, htext⟩ := hcomplete key hbehind fun i hi => by
      obtain ⟨o, ho, hkey⟩ := hthere i hi
      exact ⟨.inl o, ho, hkey⟩
    obtain ⟨o, ho, hkey⟩ := hthere 0 hsome
    obtain ⟨i, hx'⟩ := hreceived hx
    cases x with
    | inl o' =>
      refine ⟨o', ?_, htext⟩
      rw [contentsOf_shown hshown]
      exact (Pages.mem_leftsOf _).mpr hx
    | inr p => exact absurd (hkey.trans (show key = p from htext.symm)) (ho.apart hdelimiter hx')
  · intro p hbehind hthere
    obtain ⟨x, hx, htext⟩ := hcomplete p hbehind fun i hi => ⟨.inr p, hthere i hi, rfl⟩
    obtain ⟨i, hx'⟩ := hreceived hx
    cases x with
    | inl o => exact absurd (show o.key = p from htext) (hx'.apart hdelimiter (hthere 0 hsome))
    | inr p' =>
      obtain rfl : p' = p := htext
      rw [prefixesOf_shown hshown]
      exact (Pages.mem_rightsOf _).mpr hx

theorem pages_under_change_photos :
    let Entry i := IsEntry ((fun _ => photosDisk : Nat → Tree Bytes UInt8) i) (ascii "pics") [] (some (ascii "/"))
    ∃ pages, plainStore.listChanging (fun _ => photosDisk) (photosBehind none) (fun _ => 1) 1 0 none = some pages ∧
    Pages.Strict textLe Object.key (contentsOf pages) ∧ Pages.Strict textLe id (prefixesOf pages) ∧
    (∀ i page, pages[i]? = some page → (∀ o ∈ page.contents.getD [], Entry i (.inl o)) ∧
      ∀ p ∈ page.commonPrefixes.getD [], Entry i (.inr p)) ∧
    (∀ key, isBehind none key = true →
      (∀ i < pages.length, ∃ o, Entry i (.inl o) ∧ o.key = key) → ∃ o ∈ contentsOf pages, o.key = key) ∧
    ∀ p, isBehind none p = true → (∀ i < pages.length, Entry i (.inr p)) → p ∈ prefixesOf pages := by
  intro Entry
  have hsome : (plainStore.listChanging (fun _ => photosDisk) (photosBehind none) (fun _ => 1) 1 0 none).isSome =
    true := by rfl
  obtain ⟨pages, hpages⟩ := Option.isSome_iff_exists.mp hsome
  exact ⟨pages, hpages, pages_under_change plainStore (fun _ => photosDisk) (photosBehind none) (fun _ => 1)
    (by decide) (fun _ => by decide) (fun _ => photos_ordinary) (by decide)
    (fun d hd => ⟨47, by simpa [photosBehind, ascii] using hd.symm, by decide⟩) (fun _ => by decide) hpages⟩

end S3s.Fs
