import S3s.Library.Delimited
import S3s.Routing.Host

/-! # The two styles of addressing

A host belongs to at most one of the base domains a service accepts, since no two of
them are one within the other. A bucket in front of a base domain and the same bucket
in front of the path therefore lead to the same place, whatever port the host has.
-/
namespace S3s.Routing
open Text

section Suffixes

theorem stripSuffix_eq_some {suffix s rest : Bytes} :
    stripSuffix suffix s = some rest ↔ s = rest ++ suffix := by
  unfold stripSuffix
  constructor
  · intro h
    split at h
    · next hsuffix =>
      cases h
      obtain ⟨front, rfl⟩ := List.isSuffixOf_iff_suffix.mp hsuffix
      simp
    · cases h
  · rintro rfl
    rw [if_pos (List.isSuffixOf_iff_suffix.mpr (List.suffix_append rest suffix))]
    simp

/-- A domain within another: the other one behind a label and a dot. -/
theorem isSubdomainOf_iff {host baseDomain : Bytes} :
    isSubdomainOf host baseDomain = true ↔ ∃ rest, host = rest ++ 46 :: baseDomain := by
  rw [isSubdomainOf, Option.any_eq_true]
  constructor
  · rintro ⟨front, hfront, hlast⟩
    obtain ⟨rest, rfl⟩ := List.getLast?_eq_some_iff.mp (beq_iff_eq.mp hlast)
    refine ⟨rest, ?_⟩
    rw [stripSuffix_eq_some.mp hfront, List.append_assoc]
    rfl
  · rintro ⟨rest, rfl⟩
    refine ⟨rest ++ [46], stripSuffix_eq_some.mpr (by simp), by simp⟩

/-- A host is a base domain, or lies within it. -/
def Within (host baseDomain : Bytes) : Prop :=
  host = baseDomain ∨ ∃ rest, host = rest ++ 46 :: baseDomain

/-- Of two base domains of one host one lies within the other. -/
theorem Within.nested {host d e : Bytes} (hd : Within host d) (he : Within host e) :
    Within d e ∨ Within e d := by
  rcases hd with rfl | ⟨x, rfl⟩
  · exact Or.inl he
  rcases he with rfl | ⟨y, hy⟩
  · exact Or.inr (Or.inr ⟨x, rfl⟩)
  have hd : 46 :: d <:+ x ++ 46 :: d := List.suffix_append _ _
  have he : 46 :: e <:+ x ++ 46 :: d := hy ▸ List.suffix_append _ _
  rcases List.suffix_or_suffix_of_suffix hd he with h | h
  · rcases List.suffix_cons_iff.mp h with h | ⟨front, h⟩
    · exact Or.inl (Or.inl (List.tail_eq_of_cons_eq h))
    · exact Or.inr (Or.inr ⟨front, h.symm⟩)
  · rcases List.suffix_cons_iff.mp h with h | ⟨front, h⟩
    · exact Or.inr (Or.inl (List.tail_eq_of_cons_eq h))
    · exact Or.inl (Or.inr ⟨front, h.symm⟩)

theorem isOverlapping_iff {a b : Bytes} :
    isOverlapping a b = true ↔ Within (stripPortSuffix a) (stripPortSuffix b) ∨
      Within (stripPortSuffix b) (stripPortSuffix a) := by
  simp only [isOverlapping, Bool.or_eq_true, beq_iff_eq, isSubdomainOf_iff, Within]
  constructor
  · rintro ((h | h) | h)
    · exact Or.inl (Or.inl h)
    · exact Or.inl (Or.inr h)
    · exact Or.inr (Or.inr h)
  · rintro ((h | h) | (h | h))
    · exact Or.inl (Or.inl h)
    · exact Or.inl (Or.inr h)
    · exact Or.inl (Or.inl h.symm)
    · exact Or.inr h

/-- A base domain matches the hosts within it. -/
theorem parseHostHeader_isSome {baseDomain host : Bytes} :
    (parseHostHeader baseDomain host).isSome = true ↔
      Within (stripPortSuffix host) (stripPortSuffix baseDomain) := by
  unfold parseHostHeader
  dsimp only
  split
  · next heq => exact iff_of_true rfl (Or.inl heq)
  · next hne =>
    constructor
    · intro h
      split at h
      · next bucket hbucket =>
        obtain ⟨front, hfront, hdot⟩ := Option.bind_eq_some_iff.mp hbucket
        right
        refine ⟨bucket, ?_⟩
        rw [stripSuffix_eq_some.mp hfront, stripSuffix_eq_some.mp hdot, List.append_assoc]
        rfl
      · cases h
    · rintro (h | ⟨rest, h⟩)
      · exact (hne h).elim
      · have hstrip : (stripSuffix (stripPortSuffix baseDomain) (stripPortSuffix host)).bind
            (stripSuffix [46]) = some rest := by
          rw [h]
          refine Option.bind_eq_some_iff.mpr ⟨rest ++ [46], ?_, ?_⟩
          · exact stripSuffix_eq_some.mpr (by simp)
          · exact stripSuffix_eq_some.mpr rfl
        rw [hstrip]
        rfl

end Suffixes

section Ports

/-- What may stand behind a host: nothing, or a port in decimal. -/
def IsPort (port : Bytes) : Prop :=
  port = [] ∨ ∃ digits, digits ≠ [] ∧ digits.all Bytes.isDigit = true ∧
    (parseU16 digits).isSome = true ∧ port = 58 :: digits

theorem colon_not_mem_digits {digits : Bytes} (h : digits.all Bytes.isDigit = true) :
    (58 : UInt8) ∉ digits := by
  intro hmem
  have hdigit := List.all_eq_true.mp h 58 hmem
  revert hdigit
  decide

theorem rsplitOnce_append {c : UInt8} {s rest : Bytes} (h : c ∉ rest) :
    rsplitOnce c (s ++ c :: rest) = some (s, rest) := by
  have hreverse : (s ++ c :: rest).reverse = rest.reverse ++ c :: s.reverse := by simp
  rw [rsplitOnce, hreverse, splitOnce_append _ (by simpa using h)]
  simp

/-- A port is stripped from a host without colons. -/
theorem stripPortSuffix_append {host port : Bytes} (hhost : 58 ∉ host) (hport : IsPort port) :
    stripPortSuffix (host ++ port) = host := by
  rcases hport with rfl | ⟨digits, hne, hdigits, hu16, rfl⟩
  · rw [List.append_nil, stripPortSuffix]
    split
    · rfl
    · cases hsplit : rsplitOnce 58 host with
      | none => rfl
      | some parts =>
        obtain ⟨⟨rest, front⟩, hfront, -⟩ := Option.map_eq_some_iff.mp hsplit
        have hmem : 58 ∈ host.reverse := by
          rw [(splitOnce_eq_some hfront).1]
          simp
        exact (hhost (List.mem_reverse.mp hmem)).elim
  · have hlast : (host ++ 58 :: digits).getLast? ≠ some 93 := by
      intro hlast
      have hmem : (93 : UInt8) ∈ digits := by
        rw [List.getLast?_append_cons, List.getLast?_cons] at hlast
        cases hdigitsLast : digits.getLast? with
        | none => exact (hne (List.getLast?_eq_none_iff.mp hdigitsLast)).elim
        | some c =>
          rw [hdigitsLast] at hlast
          obtain rfl : c = 93 := by simpa using hlast
          exact List.mem_of_getLast? hdigitsLast
      have hdigit := List.all_eq_true.mp hdigits 93 hmem
      revert hdigit
      decide
    rw [stripPortSuffix, if_neg hlast, rsplitOnce_append (colon_not_mem_digits hdigits)]
    dsimp only
    rw [if_pos]
    simp [hne, hdigits, hu16]

/-- A base domain without a port, or with one in decimal. -/
def DecimalPort (domain : Bytes) : Prop :=
  ∀ host port, splitOnce 58 domain = some (host, port) → port.all Bytes.isDigit = true

theorem colon_not_mem_of_isDotted {s : Bytes} (h : isDotted s = true) : (58 : UInt8) ∉ s := by
  intro hmem
  have hcolon : (58 : UInt8) ∉ [46].intercalate (s.splitOn 46) := by
    intro hmem
    have hparts := List.all_eq_true.mp h
    rcases Delimited.mem_intercalate hmem with hc | ⟨part, hpart, hc⟩
    · cases hc
    · have hpart := (Bool.and_eq_true _ _).mp (hparts part hpart)
      have hbyte := List.all_eq_true.mp hpart.2 58 hc
      revert hbyte
      decide
  rw [List.intercalate_splitOn] at hcolon
  exact hcolon hmem

/-- A valid base domain is a host without colons, and a port behind it. -/
theorem isValidDomain_split {domain : Bytes} (hvalid : isValidDomain domain = true)
    (hdecimal : DecimalPort domain) :
    ∃ port, IsPort port ∧ 58 ∉ stripPortSuffix domain ∧ domain = stripPortSuffix domain ++ port := by
  unfold isValidDomain at hvalid
  split at hvalid
  · cases hvalid
  · cases hsplit : splitOnce 58 domain with
    | none =>
      rw [hsplit] at hvalid
      have hcolon := colon_not_mem_of_isDotted hvalid
      have hstrip := stripPortSuffix_append hcolon (Or.inl rfl)
      rw [List.append_nil] at hstrip
      rw [hstrip]
      exact ⟨[], Or.inl rfl, hcolon, by simp⟩
    | some parts =>
      obtain ⟨host, port⟩ := parts
      rw [hsplit] at hvalid
      simp only [Bool.and_eq_true] at hvalid
      obtain ⟨⟨hne, hu16⟩, hdotted⟩ := hvalid
      have hcolon := colon_not_mem_of_isDotted hdotted
      obtain ⟨rfl, -⟩ := splitOnce_eq_some hsplit
      have hport : IsPort (58 :: port) :=
        Or.inr ⟨port, by simpa using hne, hdecimal host port hsplit, hu16, rfl⟩
      rw [stripPortSuffix_append hcolon hport]
      exact ⟨58 :: port, hport, hcolon, rfl⟩

end Ports

namespace MultiDomain

theorem collect_eq {v domains collected : List Bytes} (h : collect v domains = .ok collected) :
    collected = v ++ domains := by
  induction domains generalizing v with
  | nil =>
    cases h
    simp
  | cons domain rest ih =>
    rw [collect] at h
    split at h
    · cases h
    · split at h
      · cases h
      · rw [ih h, List.append_assoc]
        rfl

theorem new_ok {domains : List Bytes} {m : MultiDomain} (h : new domains = .ok m) :
    m.baseDomains = domains := by
  unfold new at h
  split at h
  · cases h
  · next v hv =>
    split at h
    · cases h
    · cases h
      exact collect_eq hv

/-- At most one base domain matches a host. -/
theorem matches_apart (m : MultiDomain) :
    m.baseDomains.Pairwise fun d e => ∀ host,
      ¬ ((Routing.parseHostHeader d host).isSome = true ∧
        (Routing.parseHostHeader e host).isSome = true) := by
  apply m.apart.imp
  rintro d e hapart host ⟨hd, he⟩
  have hnested := (parseHostHeader_isSome.mp hd).nested (parseHostHeader_isSome.mp he)
  rw [isOverlapping_iff.mpr hnested.symm] at hapart
  cases hapart

/-- A host that a base domain matches is parsed against that base domain. -/
theorem parseHostHeader_of_mem (m : MultiDomain) {d host : Bytes} {vh : VirtualHost}
    (hd : d ∈ m.baseDomains) (h : Routing.parseHostHeader d host = some vh) :
    m.parseHostHeader host = .ok vh := by
  have hfirst : ∀ domains : List Bytes, d ∈ domains →
      (domains.Pairwise fun d e => ∀ host, ¬ ((Routing.parseHostHeader d host).isSome = true ∧
        (Routing.parseHostHeader e host).isSome = true)) →
      domains.findSome? (fun baseDomain => Routing.parseHostHeader baseDomain host) = some vh := by
    intro domains hmem hapart
    induction domains with
    | nil => cases hmem
    | cons e domains ih =>
      rw [List.pairwise_cons] at hapart
      rw [List.findSome?_cons]
      rcases List.mem_cons.mp hmem with rfl | hmem
      · rw [h]
      · cases he : Routing.parseHostHeader e host with
        | none => exact ih hmem hapart.2
        | some vh' => exact (hapart.1 d hmem host ⟨by simp [he], by simp [h]⟩).elim
  unfold parseHostHeader
  rw [hfirst m.baseDomains hd m.matches_apart]

end MultiDomain

/-- A bucket in front of a base domain is found in the host, under any port. -/
theorem parseHostHeader_bucket {domain bucket port : Bytes} (hvalid : isValidDomain domain = true)
    (hdecimal : DecimalPort domain) (hbucket : 58 ∉ bucket) (hport : IsPort port) :
    parseHostHeader domain (bucket ++ 46 :: stripPortSuffix domain ++ port) =
      some ⟨domain, some bucket, none⟩ := by
  obtain ⟨own, -, hcolon, -⟩ := isValidDomain_split hvalid hdecimal
  have hstrip : stripPortSuffix (bucket ++ 46 :: stripPortSuffix domain ++ port) =
      bucket ++ 46 :: stripPortSuffix domain := by
    apply stripPortSuffix_append ?_ hport
    simp [hbucket, hcolon]
  have hne : bucket ++ 46 :: stripPortSuffix domain ≠ stripPortSuffix domain := by
    intro h
    have hlength := congrArg List.length h
    simp at hlength
    omega
  have hrest : (stripSuffix (stripPortSuffix domain) (bucket ++ 46 :: stripPortSuffix domain)).bind
      (stripSuffix [46]) = some bucket := by
    refine Option.bind_eq_some_iff.mpr ⟨bucket ++ [46], ?_, ?_⟩
    · exact stripSuffix_eq_some.mpr (by simp)
    · exact stripSuffix_eq_some.mpr rfl
  unfold parseHostHeader
  rw [hstrip, if_neg hne, hrest]
  rfl

/-- A base domain is found in the host itself, under any port. -/
theorem parseHostHeader_domain {domain port : Bytes} (hvalid : isValidDomain domain = true)
    (hdecimal : DecimalPort domain) (hport : IsPort port) :
    parseHostHeader domain (stripPortSuffix domain ++ port) = some ⟨domain, none, none⟩ := by
  obtain ⟨own, -, hcolon, -⟩ := isValidDomain_split hvalid hdecimal
  unfold parseHostHeader
  rw [stripPortSuffix_append hcolon hport, if_pos rfl]
  rfl

theorem checkBucketName_plain {bucket : Bytes} (h : checkBucketName bucket = true) :
    ∀ b ∈ bucket, b ≠ 47 ∧ b ≠ 58 := by
  intro b hb
  simp only [checkBucketName, Bool.and_eq_true] at h
  have hbyte := List.all_eq_true.mp h.1.1.1.1.1.2 b hb
  refine forall_byte (p := fun b => (isLowercaseOrDigit b || b == 46 || b == 45) = true →
    b ≠ 47 ∧ b ≠ 58) ?_ b hbyte
  decide +kernel

/-- A host of a domain: the domain without its port, and any port or none. -/
def HostOf (domain host : Bytes) : Prop := ∃ port, IsPort port ∧ host = stripPortSuffix domain ++ port

/-- What a request is about, by its host and its decoded path. -/
def MultiDomain.locate (m : MultiDomain) (validateBucketName : Bytes → Bool) (normalizePath : Bool)
    (host uriPath : Bytes) : Http.S3Result (Except ParseS3PathError S3Path) :=
  (m.parseHostHeader host).map fun vh =>
    parseVirtualHostedStyle validateBucketName normalizePath vh.bucket uriPath

/-- For every base domain a service accepts, a bucket in the host and the same bucket in the path
lead to the same path or error, under any ports; a domain is a host of its own, and at most one of
them matches any host. -/
theorem addressing_styles_agree (domains : List Bytes) (m : MultiDomain)
    (pathStyleHosts : Bytes → Bool) (hnew : MultiDomain.new domains = .ok m)
    (hdecimal : ∀ domain ∈ domains, DecimalPort domain) :
    (∀ domain ∈ domains, HostOf domain domain ∧
      ∀ bucket, checkBucketName bucket = true → ∀ host host', HostOf domain host →
        HostOf domain host' → ∀ validateBucketName normalizePath s,
        ∃ r, (m.withPathStyleHosts pathStyleHosts).locate validateBucketName normalizePath
            (bucket ++ 46 :: host) (47 :: s) = .ok r ∧
          (m.withPathStyleHosts pathStyleHosts).locate validateBucketName normalizePath host'
            (47 :: (bucket ++ 47 :: s)) = .ok r) ∧
    domains.Pairwise fun d e => ∀ host,
      ¬ ((parseHostHeader d host).isSome = true ∧ (parseHostHeader e host).isSome = true) := by
  obtain rfl := MultiDomain.new_ok hnew
  refine ⟨?_, m.matches_apart⟩
  intro domain hdomain
  have hvalid := m.valid domain hdomain
  have hdecimal := hdecimal domain hdomain
  constructor
  · obtain ⟨port, hport, -, hsplit⟩ := isValidDomain_split hvalid hdecimal
    exact ⟨port, hport, hsplit⟩
  rintro bucket hbucket _ _ ⟨port, hport, rfl⟩ ⟨port', hport', rfl⟩ validateBucketName normalizePath s
  have hplain := checkBucketName_plain hbucket
  have hslash : 47 ∉ bucket := fun h => (hplain 47 h).1 rfl
  have hcolon : 58 ∉ bucket := fun h => (hplain 58 h).2 rfl
  have hhosted := (m.withPathStyleHosts pathStyleHosts).parseHostHeader_of_mem hdomain
    (parseHostHeader_bucket hvalid hdecimal hcolon hport)
  have hplainHost := (m.withPathStyleHosts pathStyleHosts).parseHostHeader_of_mem hdomain
    (parseHostHeader_domain hvalid hdecimal hport')
  rw [List.append_assoc, List.cons_append] at hhosted
  refine ⟨parseVirtualHostedStyle validateBucketName normalizePath (some bucket) (47 :: s), ?_, ?_⟩
  · rw [MultiDomain.locate, hhosted]
    rfl
  · rw [MultiDomain.locate, hplainHost]
    exact congrArg Except.ok (parseVirtualHostedStyle_eq_pathStyle hslash s).symm

/-- Two base domains, one of them with a port, and a bucket with a dot in it. -/
theorem addressing_styles_agree_sample :
    ∃ m, MultiDomain.new [ascii "s3.example.com:9000", ascii "example.org"] = .ok m ∧
      m.locate checkBucketName true (ascii "my.bucket.s3.example.com:8080") (ascii "//a//b") =
        m.locate checkBucketName true (ascii "s3.example.com") (ascii "/my.bucket//a//b") := by
  obtain ⟨m, hm⟩ : ∃ m, MultiDomain.new [ascii "s3.example.com:9000", ascii "example.org"] =
      .ok m := ⟨_, rfl⟩
  have hdecimal : ∀ domain ∈ [ascii "s3.example.com:9000", ascii "example.org"],
      DecimalPort domain := by
    have hports : ∀ domain ∈ [ascii "s3.example.com:9000", ascii "example.org"],
        (splitOnce 58 domain).all (fun parts => parts.2.all Bytes.isDigit) = true := by
      decide +kernel
    intro domain hdomain host port hsplit
    have hport := hports domain hdomain
    rwa [hsplit] at hport
  have hagree := (addressing_styles_agree _ m m.pathStyleHosts hm hdecimal).1
    (ascii "s3.example.com:9000") (by decide +kernel)
  have hhost : HostOf (ascii "s3.example.com:9000") (ascii "s3.example.com:8080") :=
    ⟨ascii ":8080", Or.inr ⟨ascii "8080", by decide, by decide, by decide, rfl⟩, by decide +kernel⟩
  have hhost' : HostOf (ascii "s3.example.com:9000") (ascii "s3.example.com") :=
    ⟨[], Or.inl rfl, by decide +kernel⟩
  obtain ⟨r, hr, hr'⟩ := hagree.2 (ascii "my.bucket") (by decide +kernel) _ _ hhost hhost'
    checkBucketName true (ascii "/a//b")
  exact ⟨m, hm, hr.trans hr'.symm⟩

end S3s.Routing
