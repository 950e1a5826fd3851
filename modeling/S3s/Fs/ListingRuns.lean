import S3s.Fs.ChangingPages
import S3s.Fs.ObjectRuns

/-! # Listings over runs

The files below the buckets are those of objects that were written. So a listing shows, at any time, the
objects of the map and no others.
-/
namespace S3s.Fs
open LexicalPath Programs FileTree Routing

section Files

variable {fs : FileSystem} {disk disk' : Tree Bytes UInt8} {q : List Bytes}

/-- The object that a request may write. -/
def FileSystem.WritesTo (fs : FileSystem) : Request → List Bytes → Prop
  | .putObject input _, p => fs.pathOf input.bucket input.key = some p
  | .copyObject input, p => fs.pathOf input.bucket input.key = some p
  | .completeMultipartUpload input, p => fs.pathOf input.bucket input.key = some p
  | _, _ => False

theorem Alike.isFile (h : Alike disk disk') (hfile : Entry.IsFile (disk'.get q)) : Entry.IsFile (disk.get q) := by
  rwa [h q] at hfile

theorem Wipes.isFile {S : List Bytes → Prop} (h : Wipes S disk disk') (hfile : Entry.IsFile (disk'.get q)) :
    Entry.IsFile (disk.get q) := by
  have hthere : disk'.get q ≠ none := by
    intro hnone
    rw [hnone] at hfile
    exact hfile
  rwa [(h.get_of_ne_none hthere).2]

theorem Digs.isFile {p : List Bytes} (h : Digs disk disk' p) (hfile : Entry.IsFile (disk'.get q)) :
    Entry.IsFile (disk.get q) := by
  rw [h.get] at hfile
  by_cases hq : q <+: p
  · rw [if_pos hq] at hfile
    exact hfile.elim
  · rwa [if_neg hq] at hfile

theorem Places.isFile {p : List Bytes} {content : Bytes} (h : Places disk disk' p content)
    (hfile : Entry.IsFile (disk'.get q)) : q = p ∨ Entry.IsFile (disk.get q) := by
  obtain ⟨-, t, hdigs, hwrites⟩ := h
  by_cases hq : q = p
  · exact Or.inl hq
  · rw [hwrites.get_of_ne hq] at hfile
    exact Or.inr (hdigs.isFile hfile)

theorem Deleted.isFile {key : Bytes} {p : List Bytes} (h : Deleted key p disk disk')
    (hfile : Entry.IsFile (disk'.get q)) : Entry.IsFile (disk.get q) := by
  rcases h.1 with hclears | halike
  · exact hclears.wipes.isFile hfile
  · exact halike.isFile hfile

theorem FileSystem.DeletedAll.isFile {bucket : Bytes} {objects : List DeletedObject}
    (h : fs.DeletedAll bucket objects disk disk') (hfile : Entry.IsFile (disk'.get q)) :
    Entry.IsFile (disk.get q) := by
  induction h with
  | nil halike => exact halike.isFile hfile
  | cons _ hhead _ ih => exact hhead.isFile (ih hfile)

/-- A file below a bucket is that of the object that is written, or was there before. -/
theorem FileSystem.Does.isFile {cred : Option Bytes} {r : Request} {x : Except Failure Response}
    (h : fs.Does cred disk disk' r x) (hq : q.length ≠ 1) (hfile : Entry.IsFile (disk'.get q)) :
    fs.WritesTo r q ∨ Entry.IsFile (disk.get q) := by
  have hplaced {t : Tree Bytes UInt8} {p : List Bytes} {content : Bytes} (hp : fs.WritesTo r p)
      (hplaces : Places disk t p content) (ht : disk'.get q = t.get q) :
      fs.WritesTo r q ∨ Entry.IsFile (disk.get q) := by
    rw [ht] at hfile
    rcases hplaces.isFile hfile with rfl | hold
    · exact Or.inl hp
    · exact Or.inr hold
  unfold FileSystem.Does at h
  split at h
  case h_1 => exact Or.inr (h.2.isFile hfile)
  case h_2 => exact Or.inr (h.2.isFile hfile)
  case h_3 =>
    obtain ⟨p, hp, hput⟩ := h
    unfold FileSystem.Put at hput
    split_ifs at hput
    · exact Or.inr (hput.isFile hfile)
    · obtain ⟨content, t, -, -, hplaces, t', hattributes, hinfo⟩ := hput
      exact hplaced hp hplaces ((hinfo.get_path hq).trans (hattributes.get_path hq))
  case h_4 =>
    obtain ⟨-, _, _, _, p, content, m, _, t, t', -, -, hp, -, -, -, hplaces, hattributes, hinfo⟩ := h
    exact hplaced hp hplaces ((hinfo.get_path hq).trans (hattributes.get_path hq))
  case h_5 =>
    rcases h with halike | ⟨-, p, -, hdigs⟩
    · exact Or.inr (halike.isFile hfile)
    · exact Or.inr (hdigs.isFile hfile)
  case h_6 =>
    obtain ⟨p, -, hdeleted⟩ := h
    exact Or.inr (hdeleted.isFile hfile)
  case h_7 => exact Or.inr (h.isFile hfile)
  case h_8 =>
    obtain ⟨done, -, hdeleted⟩ := h
    exact Or.inr (hdeleted.isFile hfile)
  case h_9 =>
    obtain ⟨t, hrecord, hattributes⟩ := h
    rw [hattributes.get_path hq, hrecord.get_path hq] at hfile
    exact Or.inr hfile
  case h_10 =>
    obtain ⟨u, content, -, -, -, -, -, t, hpart, hinfo⟩ := h
    rw [hinfo.get_path hq, hpart.get_path hq] at hfile
    exact Or.inr hfile
  case h_11 =>
    obtain ⟨u, content, -, -, -, t, hpart, hinfo⟩ := h
    rw [hinfo.get_path hq, hpart.get_path hq] at hfile
    exact Or.inr hfile
  case h_12 =>
    obtain ⟨u, -, -, p, _, _, t, t', t'', hp, -, -, -, hplaces, hattributes, hinfo, hwipes⟩ := h
    exact hplaced hp hplaces
      ((hwipes.get_path hq).trans ((hinfo.get_path hq).trans (hattributes.get_path hq)))
  case h_13 =>
    obtain ⟨u, -, -, hwipes⟩ := h
    exact Or.inr (hwipes.isFile hfile)
  case h_14 => exact Or.inr (h.isFile hfile)

end Files

section Runs

variable {fs : FileSystem} {K : Bytes → Bytes → Prop}

/-- The files below the buckets are those of keys in use. -/
def OnlyObjects (K : Bytes → Bytes → Prop) (disk : Tree Bytes UInt8) : Prop :=
  ∀ q, q.length ≠ 1 → Entry.IsFile (disk.get q) → ∃ b k, K b k ∧ q = b :: LexicalPath.segments k

theorem FileSystem.InUse.writesTo {m : ObjectMap} (hK : ObjectKeys K) {r : Request} (hr : fs.InUse K m r)
    {q : List Bytes} (h : fs.WritesTo r q) : ∃ b k, K b k ∧ q = b :: LexicalPath.segments k := by
  have hpath {b k : Bytes} (hbk : K b k) (hq : fs.pathOf b k = some q) :
      ∃ b k, K b k ∧ q = b :: LexicalPath.segments k :=
    ⟨b, k, hbk, (Option.some.inj ((hK.path fs hbk).symm.trans hq)).symm⟩
  cases r with
  | putObject input trailers => exact hpath hr h
  | copyObject input => exact hpath hr.1 h
  | completeMultipartUpload input => exact hpath hr.1 h
  | _ => exact h.elim

/-- One request writes objects of keys in use only. -/
theorem OnlyObjects.serve {m : ObjectMap} {w : World} (h : OnlyObjects K w.disk) (hK : ObjectKeys K)
    (horderly : Orderly w.disk) {cred : Option Bytes} {r : Request} (hr : fs.InUse K m r) :
    OnlyObjects K (fs.serve cred r w).2.disk := by
  intro q hq hfile
  have hdoes := serve_does fs cred horderly r (hr.ordinary hK)
  rcases hdoes.isFile hq hfile with hwrites | hold
  · exact hr.writesTo hK hwrites
  · exact h q hq hold

/-- In every run the files below the buckets are those of objects. -/
theorem onlyObjects_of_reaches (hK : ObjectKeys K) {w : World} {s : World × ObjectMap} (hvacant : Vacant K w.disk)
    (hempty : OnlyObjects K w.disk) (h : Reaches fs.nextObjects (fs.ObjectStep K) (w, .empty) s) :
    fs.Represents K s.2 s.1.disk ∧ OnlyObjects K s.1.disk := by
  refine h.invariant (I := fun s => fs.Represents K s.2 s.1.disk ∧ OnlyObjects K s.1.disk)
    ⟨hvacant.represents, hempty⟩ ?_
  rintro s r ⟨hrepresents, honly⟩ hstep
  exact ⟨hrepresents.serve hK r.2 hstep.1 hstep.2, honly.serve hK hrepresents.orderly hstep.1⟩

variable {disk : Tree Bytes UInt8} {m : ObjectMap} {bucket keyPrefix : Bytes} {delimiter : Option Bytes}

/-- An entry of a listing without the time of the object. -/
def withoutTime : Object ⊕ Bytes → (Bytes × Nat) ⊕ Bytes :=
  Sum.map (fun o => (o.key, o.size)) id

theorem withoutTime_entryOf {o o' : Object} (hkey : o.key = o'.key) (hsize : o.size = o'.size) :
    withoutTime (entryOf keyPrefix delimiter o) = withoutTime (entryOf keyPrefix delimiter o') := by
  unfold entryOf
  rw [hkey]
  split
  · rfl
  · simp only [withoutTime, Sum.map_inl, hkey, hsize]

/-- The entries of the objects of the map that have the prefix. -/
def ObjectMap.IsEntry (m : ObjectMap) (K : Bytes → Bytes → Prop) (bucket keyPrefix : Bytes)
    (delimiter : Option Bytes) (y : (Bytes × Nat) ⊕ Bytes) : Prop :=
  ∃ key o, K bucket key ∧ m.objects bucket key = some o ∧ keyPrefix <+: key ∧
    y = withoutTime (entryOf keyPrefix delimiter ⟨key, 0, o.data.length⟩)

theorem segments_injective {a b : Bytes} (h : LexicalPath.segments a = LexicalPath.segments b) : a = b := by
  rw [← normalizePath_segments a, h, normalizePath_segments]

/-- The objects on the disk are those of the map. -/
theorem FileSystem.Represents.isEntry_iff (h : fs.Represents K m disk) (honly : OnlyObjects K disk)
    (y : (Bytes × Nat) ⊕ Bytes) :
    (∃ x, Fs.IsEntry disk bucket keyPrefix delimiter x ∧ y = withoutTime x) ↔
      m.IsEntry K bucket keyPrefix delimiter y := by
  constructor
  · rintro ⟨_, ⟨o, hobject, hstarts, rfl⟩, rfl⟩
    obtain ⟨c, n, hget, ho⟩ := objectAt_eq_some.mp hobject
    obtain ⟨b, k, hbk, hpath⟩ := honly _ (length_path_ne_one bucket o.key) (by rw [hget]; trivial)
    obtain ⟨rfl, hsegments⟩ := List.cons_eq_cons.mp hpath
    obtain rfl := segments_injective hsegments
    have hshown := h.objects bucket o.key hbk
    cases hm : m.objects bucket o.key with
    | none =>
      rw [hm] at hshown
      rw [show disk.get (bucket :: LexicalPath.segments o.key) = none from hshown] at hget
      cases hget
    | some written =>
      rw [hm] at hshown
      obtain ⟨n', hdata⟩ := hshown.data
      obtain ⟨rfl, rfl⟩ := Entry.file.inj (Option.some.inj (hget.symm.trans hdata))
      have hsize : o.size = written.data.length := by rw [ho]
      exact ⟨o.key, written, hbk, hm, hstarts, withoutTime_entryOf rfl hsize⟩
  · rintro ⟨key, written, hbk, hm, hstarts, rfl⟩
    have hshown := h.objects bucket key hbk
    rw [hm] at hshown
    obtain ⟨n, hdata⟩ := hshown.data
    refine ⟨_, ⟨⟨key, n, written.data.length⟩, objectAt_eq_some.mpr ⟨_, n, hdata, rfl⟩, hstarts, rfl⟩, ?_⟩
    exact withoutTime_entryOf rfl rfl

/-- The keys in use of a bucket are ordinary. -/
theorem OnlyObjects.ordinaryBucket (h : OnlyObjects K disk) (hK : ObjectKeys K)
    (htext : ∀ b k, K b k → Bytes.validUtf8 k = true) (hdir : disk.get [bucket] = some .dir) :
    OrdinaryBucket disk bucket := by
  intro path content modified hget
  have hlength : (bucket :: path).length ≠ 1 := by
    intro hone
    obtain rfl : path = [] := by simpa using hone
    rw [hdir] at hget
    cases hget
  obtain ⟨b, k, hbk, hpath⟩ := h _ hlength (by rw [hget]; trivial)
  obtain ⟨rfl, rfl⟩ := List.cons_eq_cons.mp hpath
  exact ⟨k, ⟨hK.isName hbk, htext _ _ hbk⟩, rfl⟩

/-- In every run, the listings of a bucket are pages of one ascending list: the entries of the objects that
the map has in the bucket at that time. -/
theorem listings_show_objects (hK : ObjectKeys K) (htext : ∀ b k, K b k → Bytes.validUtf8 k = true) {w : World}
    {s : World × ObjectMap} (hvacant : Vacant K w.disk) (hempty : OnlyObjects K w.disk)
    (h : Reaches fs.nextObjects (fs.ObjectStep K) (w, .empty) s) {key : Bytes} (hkey : K bucket key)
    (hp : Bytes.validUtf8 keyPrefix = true) (hdelimiter : SimpleDelimiter delimiter) :
    ∃ whole, Pages.Strict textLe textOf whole ∧
      (∀ y, y ∈ whole.map withoutTime ↔ s.2.IsEntry K bucket keyPrefix delimiter y) ∧
      ∀ input : ListObjectsV2Input, input.bucket = bucket →
        trimSlashes (input.keyPrefix.getD []) = keyPrefix → input.delimiter = delimiter →
        fs.listObjectsV2 s.1.disk input = .ok (pageOf input whole) := by
  obtain ⟨hrepresents, honly⟩ := onlyObjects_of_reaches hK hvacant hempty h
  have hdir := hrepresents.buckets bucket key hkey
  obtain ⟨whole, hstrict, hmem, hanswer⟩ := exists_whole fs (hK.bucket bucket key hkey) hdir
    (honly.ordinaryBucket hK htext hdir) hp hdelimiter
  refine ⟨whole, hstrict, fun y => ?_, hanswer⟩
  rw [← hrepresents.isEntry_iff honly, List.mem_map]
  constructor
  · rintro ⟨x, hx, rfl⟩
    exact ⟨x, (hmem x).mp hx, rfl⟩
  · rintro ⟨x, hx, rfl⟩
    exact ⟨x, (hmem x).mpr hx, rfl⟩

end Runs

section Samples

theorem onlyObjects_asksBucket : OnlyObjects OnlyPicsA (behind [asksBucket]).disk := by
  intro q hq hfile
  have hmem : q ∈ (behind [asksBucket]).disk.entries.map Prod.fst := by
    obtain ⟨e, he⟩ := Option.ne_none_iff_exists'.mp
      (show (behind [asksBucket]).disk.get q ≠ none by
        intro hnone
        rw [hnone] at hfile
        exact hfile)
    have hne : q ≠ [] := by
      rintro rfl
      rw [Tree.get_nil] at hfile
      exact hfile
    exact List.mem_map.mpr ⟨(q, e), (Tree.get_eq_some hne).mp he, rfl⟩
  rw [entries_asksBucket, List.mem_singleton] at hmem
  rw [hmem] at hq
  exact absurd rfl hq

theorem listings_show_objects_sample : ∃ whole, Pages.Strict textLe textOf whole ∧
    (∀ y, y ∈ whole.map withoutTime ↔
      (objectsBehind [asksObject]).2.IsEntry OnlyPicsA (ascii "pics") (ascii "a") (some (ascii "/")) y) ∧
    ∀ input : ListObjectsV2Input, input.bucket = ascii "pics" →
      trimSlashes (input.keyPrefix.getD []) = ascii "a" → input.delimiter = some (ascii "/") →
      uploadStore.listObjectsV2 (objectsBehind [asksObject]).1.disk input = .ok (pageOf input whole) := by
  have htext : ∀ b k, OnlyPicsA b k → Bytes.validUtf8 k = true := by
    rintro _ _ ⟨rfl, rfl⟩
    decide
  exact listings_show_objects objectKeys_onlyPicsA htext vacant_asksBucket onlyObjects_asksBucket
    reaches_objectsBehind ⟨rfl, rfl⟩ (by decide)
    fun d hd => ⟨47, by simpa [ascii] using hd.symm, by decide⟩

end Samples

end S3s.Fs
