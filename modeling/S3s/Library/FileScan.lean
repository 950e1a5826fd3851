import S3s.Library.FileCalls

/-! # Going through a directory

The files below a directory are gone through with a queue of directories, into which those are
put that are to be entered. Every file that can be reached comes up, and only once.
-/
namespace S3s.FileTree

variable {ν β : Type} [DecidableEq ν] [DecidableEq β]

namespace Tree

/-- What is in a directory, by the paths. -/
def entriesOf (t : Tree ν β) (dir : List ν) : List (List ν × Entry β) :=
  (t.children dir).map fun x => (dir ++ [x.1], x.2)

/-- The directories in a directory that are entered. -/
def entered (t : Tree ν β) (enter : List ν → Bool) (dir : List ν) : List (List ν) :=
  ((t.entriesOf dir).filter fun x => x.2 = .dir && enter x.1).map Prod.fst

/-- The files in a directory. -/
def filesOf (t : Tree ν β) (dir : List ν) : List (List ν × Entry β) :=
  (t.entriesOf dir).filter fun x => x.2 ≠ .dir

/-- The files that come up while the queue is worked off. -/
def scan (t : Tree ν β) (enter : List ν → Bool) : Nat → List (List ν) → List (List ν × Entry β)
  | 0, _ => []
  | _ + 1, [] => []
  | fuel + 1, dir :: queue => t.filesOf dir ++ t.scan enter fuel (queue ++ t.entered enter dir)

/-- A path strictly below a directory, such that the directories on the way are entered. -/
structure Reached (enter : List ν → Bool) (dir p : List ν) : Prop where
  below : dir <+: p
  ne : dir ≠ p
  enters : ∀ q, dir <+: q → q ≠ dir → q <+: p → q ≠ p → enter q = true

section Members

variable {t : Tree ν β} {dir p : List ν} {e : Entry β}

omit [DecidableEq β] in
theorem mem_entriesOf : (p, e) ∈ t.entriesOf dir ↔ ∃ n, p = dir ++ [n] ∧ t.get p = some e := by
  rw [entriesOf, List.mem_map]
  constructor
  · rintro ⟨⟨n, e'⟩, hmem, hx⟩
    obtain ⟨rfl, rfl⟩ := Prod.mk.inj hx
    exact ⟨n, rfl, mem_children.mp hmem⟩
  · rintro ⟨n, rfl, hget⟩
    exact ⟨(n, e), mem_children.mpr hget, rfl⟩

theorem mem_filesOf :
    (p, e) ∈ t.filesOf dir ↔ (∃ n, p = dir ++ [n]) ∧ t.get p = some e ∧ e ≠ .dir := by
  rw [filesOf, List.mem_filter, mem_entriesOf]
  constructor
  · rintro ⟨⟨n, hp, hget⟩, he⟩
    exact ⟨⟨n, hp⟩, hget, by simpa using he⟩
  · rintro ⟨⟨n, hp⟩, hget, he⟩
    exact ⟨⟨n, hp, hget⟩, by simpa using he⟩

theorem mem_entered {enter : List ν → Bool} :
    p ∈ t.entered enter dir ↔ ∃ n, p = dir ++ [n] ∧ t.get p = some .dir ∧ enter p = true := by
  rw [entered, List.mem_map]
  constructor
  · rintro ⟨⟨q, e⟩, hmem, rfl⟩
    obtain ⟨hentry, hkeep⟩ := List.mem_filter.mp hmem
    obtain ⟨n, hq, hget⟩ := mem_entriesOf.mp hentry
    have hboth : e = .dir ∧ enter q = true := by simpa using hkeep
    exact ⟨n, hq, by rw [hget, hboth.1], hboth.2⟩
  · rintro ⟨n, hp, hget, henter⟩
    exact ⟨(p, .dir), List.mem_filter.mpr ⟨mem_entriesOf.mpr ⟨n, hp, hget⟩, by simp [henter]⟩, rfl⟩

omit [DecidableEq β] in
theorem nodup_children (t : Tree ν β) (dir : List ν) : ((t.children dir).map Prod.fst).Nodup := by
  have hsub : (((t.children dir).map Prod.fst).map fun n => dir ++ [n]).Sublist
      (t.entries.map Prod.fst) := by
    rw [children, List.map_filterMap, List.map_filterMap]
    induction t.entries with
    | nil => simp
    | cons x entries ih =>
      rw [List.map_cons, List.filterMap_cons]
      split
      · exact ih.cons x.1
      · next q hq =>
        have hpath : q = x.1 := by
          by_cases hdir : x.1.dropLast = dir
          · rcases List.eq_nil_or_concat x.1 with hnil | ⟨front, n, hn⟩
            · simp [hnil] at hq
            · rw [List.concat_eq_append] at hn
              have hfront : front = dir := by simpa [hn] using hdir
              simp only [hn, List.dropLast_concat, hfront, if_true] at hq
              simpa [hn, hfront] using hq.symm
          · simp [hdir] at hq
        rw [hpath]
        exact ih.cons_cons x.1
  exact List.Nodup.of_map _ (hsub.nodup t.nodup)

omit [DecidableEq β] in
theorem nodup_entriesOf (t : Tree ν β) (dir : List ν) : ((t.entriesOf dir).map Prod.fst).Nodup := by
  have hmap : (t.entriesOf dir).map Prod.fst =
      ((t.children dir).map Prod.fst).map fun n => dir ++ [n] := by
    simp [entriesOf, Function.comp_def]
  rw [hmap]
  exact (nodup_children t dir).map fun m n h => by simpa using h

omit [DecidableEq ν] in
/-- A prefix of a path, or of what stands one name below it. -/
theorem prefix_snoc {q : List ν} {n : ν} (h : q <+: dir ++ [n]) : q <+: dir ∨ q = dir ++ [n] :=
  (List.prefix_concat_iff.mp h).symm

omit [DecidableEq ν] in
theorem not_snoc_prefix {n : ν} : ¬dir ++ [n] <+: dir := by
  intro h
  have hle := h.length_le
  rw [List.length_append, List.length_singleton] at hle
  omega

/-- The first step on the way to a file. -/
theorem reached_iff {enter : List ν → Bool} (hget : t.get p = some e) :
    Reached enter dir p ↔
      (∃ n, p = dir ++ [n]) ∨ ∃ c ∈ t.entered enter dir, Reached enter c p := by
  constructor
  · rintro ⟨⟨rest, rfl⟩, hne, henters⟩
    cases rest with
    | nil => simp at hne
    | cons n rest =>
      by_cases hrest : rest = []
      · exact Or.inl ⟨n, by rw [hrest]⟩
      · right
        have hlast : dir ++ [n] ≠ dir ++ n :: rest := by simpa using Ne.symm hrest
        have hpre : dir ++ [n] <+: dir ++ n :: rest := ⟨rest, by simp⟩
        have hdir : t.get (dir ++ [n]) = some .dir := get_above hget hpre hlast
        refine ⟨dir ++ [n], mem_entered.mpr ⟨n, rfl, hdir, ?_⟩, hpre, hlast, ?_⟩
        · exact henters _ (List.prefix_append _ _) (by simp) hpre hlast
        · intro q hq hqne hqp hqp'
          refine henters q ((List.prefix_append _ _).trans hq) ?_ hqp hqp'
          rintro rfl
          exact not_snoc_prefix hq
  · rintro (⟨n, rfl⟩ | ⟨c, hc, hreached⟩)
    · refine ⟨List.prefix_append _ _, by simp, fun q hq hqne hqp hqp' => ?_⟩
      rcases prefix_snoc hqp with h | h
      · exact absurd (h.eq_of_length (Nat.le_antisymm h.length_le hq.length_le)) hqne
      · exact absurd h hqp'
    · obtain ⟨n, rfl, -, henter⟩ := mem_entered.mp hc
      refine ⟨(List.prefix_append _ _).trans hreached.below, ?_, fun q hq hqne hqp hqp' => ?_⟩
      · rintro rfl
        exact not_snoc_prefix hreached.below
      · by_cases hq' : dir ++ [n] <+: q
        · by_cases heq : q = dir ++ [n]
          · rw [heq, henter]
          · exact hreached.enters q hq' heq hqp hqp'
        · have hcmp := List.prefix_or_prefix_of_prefix hqp hreached.below
          rcases hcmp with h | h
          · rcases prefix_snoc h with h | h
            · exact absurd (h.eq_of_length (Nat.le_antisymm h.length_le hq.length_le)) hqne
            · exact absurd (h ▸ List.prefix_rfl) hq'
          · exact absurd h hq'

end Members

section Fuel

/-- The directories at or below a path. -/
def weight (t : Tree ν β) (dir : List ν) : Nat := 1 + t.entries.countP fun x => dir <+: x.1 ∧ dir ≠ x.1

omit [DecidableEq β] in
theorem weight_le (t : Tree ν β) (dir : List ν) : t.weight dir ≤ t.entries.length + 1 := by
  have hle := List.countP_le_length (p := fun x : List ν × Entry β => decide (dir <+: x.1 ∧ dir ≠ x.1))
    (l := t.entries)
  unfold weight
  omega

omit [DecidableEq ν] in
/-- Conditions of which at most one holds, each only where another holds. -/
theorem sum_countP_le {α κ : Type} {P : κ → α → Bool} {Q : α → Bool} {keys : List κ}
    (hkeys : keys.Nodup) {l : List α} (himp : ∀ k ∈ keys, ∀ x ∈ l, P k x = true → Q x = true)
    (hone : ∀ k ∈ keys, ∀ k' ∈ keys, ∀ x ∈ l, P k x = true → P k' x = true → k = k') :
    (keys.map fun k => l.countP (P k)).sum ≤ l.countP Q := by
  induction l with
  | nil => simp
  | cons x l ih =>
    have hrest := ih (fun k hk y hy => himp k hk y (List.mem_cons_of_mem x hy))
      fun k hk k' hk' y hy => hone k hk k' hk' y (List.mem_cons_of_mem x hy)
    have hsplit : (keys.map fun k => (x :: l).countP (P k)).sum =
        (keys.map fun k => l.countP (P k)).sum + keys.countP fun k => P k x := by
      clear himp hone ih hrest hkeys
      induction keys with
      | nil => rfl
      | cons k keys ih =>
        rw [List.map_cons, List.sum_cons, ih, List.map_cons, List.sum_cons, List.countP_cons,
          List.countP_cons]
        omega
    have hhead : (keys.countP fun k => P k x) ≤ if Q x then 1 else 0 := by
      rw [List.countP_eq_length_filter]
      have hsub : ∀ k ∈ keys.filter fun k => P k x, ∀ k' ∈ keys.filter fun k => P k x, k = k' := by
        intro k hk k' hk'
        obtain ⟨hmem, hP⟩ := List.mem_filter.mp hk
        obtain ⟨hmem', hP'⟩ := List.mem_filter.mp hk'
        exact hone k hmem k' hmem' x List.mem_cons_self hP hP'
      cases hfilter : keys.filter fun k => P k x with
      | nil => simp
      | cons k rest =>
        have hk : k ∈ keys.filter fun k => P k x := by simp [hfilter]
        obtain ⟨hmem, hP⟩ := List.mem_filter.mp hk
        have hrest' : rest = [] := by
          rw [List.eq_nil_iff_forall_not_mem]
          intro k' hk'
          have hnodup := hkeys.filter fun k => P k x
          rw [hfilter, List.nodup_cons] at hnodup
          have heq := hsub k hk k' (by simp [hfilter, hk'])
          exact hnodup.1 (heq ▸ hk')
        simp [hrest', himp k hmem x List.mem_cons_self hP]
    rw [hsplit, List.countP_cons]
    omega

/-- Each directory that is entered takes one step. -/
theorem sum_weight_entered (t : Tree ν β) (enter : List ν → Bool) (dir : List ν) :
    ((t.entered enter dir).map t.weight).sum < t.weight dir := by
  have hnodup : (t.entered enter dir).Nodup :=
    (List.filter_sublist.map Prod.fst).nodup (nodup_entriesOf t dir)
  have hweight (c : List ν) (hc : c ∈ t.entered enter dir) :
      t.weight c = t.entries.countP fun x => c <+: x.1 := by
    obtain ⟨n, rfl, hget, -⟩ := mem_entered.mp hc
    have hself : (t.entries.countP fun x => dir ++ [n] = x.1) = 1 := by
      have hcount : (t.entries.map Prod.fst).count (dir ++ [n]) = 1 := by
        refine List.count_eq_one_of_mem t.nodup ?_
        exact List.mem_map.mpr ⟨_, (get_eq_some (by simp)).mp hget, rfl⟩
      rw [List.count, List.countP_map] at hcount
      rw [← hcount]
      apply List.countP_congr
      intro x _
      rw [decide_eq_true_iff]
      exact ⟨fun h => beq_iff_eq.mpr h.symm, fun h => (beq_iff_eq.mp h).symm⟩
    have hsplit : (t.entries.countP fun x => dir ++ [n] <+: x.1) =
        (t.entries.countP fun x => dir ++ [n] = x.1) +
          t.entries.countP fun x => dir ++ [n] <+: x.1 ∧ dir ++ [n] ≠ x.1 := by
      clear hself hget hc
      induction t.entries with
      | nil => rfl
      | cons x entries ih =>
        rw [List.countP_cons, List.countP_cons, List.countP_cons, ih]
        by_cases heq : dir ++ [n] = x.1
        · have hpre : dir ++ [n] <+: x.1 := heq ▸ List.prefix_rfl
          have hno : ¬decide (dir ++ [n] <+: x.1 ∧ dir ++ [n] ≠ x.1) = true := fun h =>
            (of_decide_eq_true h).2 heq
          rw [if_pos (decide_eq_true hpre), if_pos (decide_eq_true heq), if_neg hno]
          omega
        · have hiff : decide (dir ++ [n] <+: x.1 ∧ dir ++ [n] ≠ x.1) = decide (dir ++ [n] <+: x.1) :=
            decide_eq_decide.mpr (and_iff_left heq)
          rw [if_neg fun h => heq (of_decide_eq_true h), hiff]
          omega
    rw [weight, hsplit, hself]
  have hsum : ((t.entered enter dir).map t.weight).sum =
      ((t.entered enter dir).map fun c => t.entries.countP fun x => c <+: x.1).sum :=
    congrArg List.sum (List.map_congr_left hweight)
  have hle := sum_countP_le (P := fun c x => decide (c <+: x.1))
    (Q := fun x : List ν × Entry β => decide (dir <+: x.1 ∧ dir ≠ x.1)) (l := t.entries) hnodup
    (by
      intro c hc x _ hx
      obtain ⟨n, rfl, -, -⟩ := mem_entered.mp hc
      have hpre : dir ++ [n] <+: x.1 := of_decide_eq_true hx
      refine decide_eq_true ⟨(List.prefix_append _ _).trans hpre, ?_⟩
      intro heq
      exact not_snoc_prefix (heq ▸ hpre))
    (by
      intro c hc c' hc' x _ hx hx'
      obtain ⟨n, rfl, -, -⟩ := mem_entered.mp hc
      obtain ⟨n', rfl, -, -⟩ := mem_entered.mp hc'
      have hpre : dir ++ [n] <+: x.1 := of_decide_eq_true hx
      have hpre' : dir ++ [n'] <+: x.1 := of_decide_eq_true hx'
      exact (List.prefix_of_prefix_length_le hpre hpre' (by simp)).eq_of_length (by simp))
  rw [hsum, weight]
  omega

end Fuel

section Complete

variable {t : Tree ν β} {enter : List ν → Bool}

/-- With fuel for the directories, just the files that can be reached come up. -/
theorem mem_scan {fuel : Nat} {queue : List (List ν)} (hfuel : (queue.map t.weight).sum ≤ fuel)
    {p : List ν} {e : Entry β} :
    (p, e) ∈ t.scan enter fuel queue ↔
      t.get p = some e ∧ e ≠ .dir ∧ ∃ dir ∈ queue, Reached enter dir p := by
  induction fuel generalizing queue with
  | zero =>
    cases queue with
    | nil => simp [scan]
    | cons dir queue =>
      rw [List.map_cons, List.sum_cons, weight] at hfuel
      omega
  | succ fuel ih =>
    cases queue with
    | nil => simp [scan]
    | cons dir queue =>
      have hless := sum_weight_entered t enter dir
      rw [List.map_cons, List.sum_cons] at hfuel
      have hnext : ((queue ++ t.entered enter dir).map t.weight).sum ≤ fuel := by
        rw [List.map_append, List.sum_append]
        omega
      rw [scan, List.mem_append, mem_filesOf, ih hnext]
      constructor
      · rintro (⟨⟨n, rfl⟩, hget, he⟩ | ⟨hget, he, d, hd, hreached⟩)
        · exact ⟨hget, he, dir, List.mem_cons_self, (reached_iff hget).mpr (Or.inl ⟨n, rfl⟩)⟩
        · refine ⟨hget, he, ?_⟩
          rcases List.mem_append.mp hd with hd | hd
          · exact ⟨d, List.mem_cons_of_mem dir hd, hreached⟩
          · exact ⟨dir, List.mem_cons_self, (reached_iff hget).mpr (Or.inr ⟨d, hd, hreached⟩)⟩
      · rintro ⟨hget, he, d, hd, hreached⟩
        rcases List.mem_cons.mp hd with rfl | hd
        · rcases (reached_iff hget).mp hreached with hn | ⟨c, hc, hreached⟩
          · exact Or.inl ⟨hn, hget, he⟩
          · exact Or.inr ⟨hget, he, c, List.mem_append_right queue hc, hreached⟩
        · exact Or.inr ⟨hget, he, d, List.mem_append_left _ hd, hreached⟩

/-- Directories of which none lies below another. -/
def Apart (queue : List (List ν)) : Prop := queue.Pairwise fun d d' => ¬d <+: d' ∧ ¬d' <+: d

theorem apart_next {dir : List ν} {queue : List (List ν)} (h : Apart (dir :: queue)) :
    Apart (queue ++ t.entered enter dir) := by
  obtain ⟨hdir, hqueue⟩ := List.pairwise_cons.mp h
  refine List.pairwise_append.mpr ⟨hqueue, ?_, ?_⟩
  · have hnodup : (t.entered enter dir).Nodup :=
      (List.filter_sublist.map Prod.fst).nodup (nodup_entriesOf t dir)
    refine hnodup.imp_of_mem fun {c c'} hc hc' hne => ?_
    obtain ⟨n, rfl, -, -⟩ := mem_entered.mp hc
    obtain ⟨n', rfl, -, -⟩ := mem_entered.mp hc'
    exact ⟨fun hpre => hne (hpre.eq_of_length (by simp)), fun hpre => hne (hpre.eq_of_length (by simp)).symm⟩
  · intro d hd c hc
    obtain ⟨n, rfl, -, -⟩ := mem_entered.mp hc
    constructor
    · intro hpre
      rcases prefix_snoc hpre with hpre | rfl
      · exact (hdir d hd).2 hpre
      · exact (hdir _ hd).1 (List.prefix_append _ _)
    · intro hpre
      exact (hdir d hd).1 ((List.prefix_append _ _).trans hpre)

/-- No file comes up twice. -/
theorem nodup_scan {fuel : Nat} {queue : List (List ν)} (hfuel : (queue.map t.weight).sum ≤ fuel)
    (hapart : Apart queue) : ((t.scan enter fuel queue).map Prod.fst).Nodup := by
  induction fuel generalizing queue with
  | zero => simp [scan]
  | succ fuel ih =>
    cases queue with
    | nil => simp [scan]
    | cons dir queue =>
      have hless := sum_weight_entered t enter dir
      rw [List.map_cons, List.sum_cons] at hfuel
      have hnext : ((queue ++ t.entered enter dir).map t.weight).sum ≤ fuel := by
        rw [List.map_append, List.sum_append]
        omega
      rw [scan, List.map_append]
      refine List.Nodup.append ((List.filter_sublist.map Prod.fst).nodup (nodup_entriesOf t dir))
        (ih hnext (apart_next hapart)) ?_
      intro p hfile hrest
      obtain ⟨⟨_, e⟩, hmem, rfl⟩ := List.mem_map.mp hfile
      obtain ⟨⟨_, e'⟩, hmem', heq⟩ := List.mem_map.mp hrest
      simp only at heq
      subst heq
      obtain ⟨⟨n, rfl⟩, -, -⟩ := mem_filesOf.mp hmem
      obtain ⟨-, -, d, hd, hreached⟩ := (mem_scan hnext).mp hmem'
      rcases prefix_snoc hreached.below with hpre | heq
      · rcases List.mem_append.mp hd with hd | hd
        · exact ((List.pairwise_cons.mp hapart).1 d hd).2 hpre
        · obtain ⟨m, rfl, -, -⟩ := mem_entered.mp hd
          exact not_snoc_prefix hpre
      · exact hreached.ne heq

end Complete

end Tree

end S3s.FileTree
