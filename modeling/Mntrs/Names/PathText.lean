import Mntrs.Names.Paths

/-!
# Texts computed from a path

`canonicalize_list_path` (`src/src/util.rs:299-308`) spells the segments of any text in one way, so
that keys can be compared as texts. `build_mkdir_chain` (`470-486`) cuts a text at its last slash
until nothing is left; on a path of segments the texts in between are those of the directories
above it.
-/

namespace Mntrs

open Base

variable {segs : List Path} {lead s x : Path}

/-! ## Keys of listings -/

theorem segments_canonicalizeListPath (p : Path) :
    segments (canonicalizeListPath p) = segments p := by
  have hclean := clean_segments p
  rw [canonicalizeListPath_eq, segments, splitOn_stem (fun s hs ↦ (hclean s hs).2),
    List.filter_append, List.filter_eq_self.mpr (fun s hs ↦ by simpa using (hclean s hs).1)]
  simp

/-- The canonical text is canonical, it tells apart what differs in a segment, and one starts
another when the segments do. -/
theorem canonicalizeListPath_spells (a b : Path) :
    canonicalizeListPath (canonicalizeListPath a) = canonicalizeListPath a ∧
      (canonicalizeListPath a = canonicalizeListPath b ↔ segments a = segments b) ∧
      (canonicalizeListPath a <+: canonicalizeListPath b ↔ segments a <+: segments b) := by
  refine ⟨?_, ?_, ?_⟩
  · rw [canonicalizeListPath_eq (canonicalizeListPath a), segments_canonicalizeListPath,
      canonicalizeListPath_eq]
  · rw [canonicalizeListPath_eq, canonicalizeListPath_eq]
    exact ⟨stem_inj (clean_segments a) (clean_segments b), fun h ↦ by rw [h]⟩
  · rw [canonicalizeListPath_eq, canonicalizeListPath_eq]
    exact stem_prefix_stem (clean_segments a) (clean_segments b)

/-! ## The loop of `build_mkdir_chain` -/

/-- `rfind('/')` with `truncate`, or `clear` if there is no slash. -/
def cutAtLastSlash (cur : Path) : Path :=
  match cur.reverse.dropWhile (· ≠ '/') with
  | [] => []
  | _ :: above => above.reverse

/-- The `while` loop: rounds are bounded by `fuel`, and `none` means that it is still running. -/
def mkdirLoop : Nat → Path → List Path → Option (List Path)
  | 0, _, _ => none
  | fuel + 1, cur, chain =>
    if cur = [] then some chain
    else mkdirLoop fuel (cutAtLastSlash cur) (chain ++ [cur ++ ['/']])

/-- `build_mkdir_chain`, statement by statement. -/
def runMkdirChain (fuel : Nat) (fullPath : Path) : Option (List Path) := do
  let chain ← mkdirLoop fuel (trimEndSlashes fullPath) []
  return chain.reverse.dropLast.reverse

private theorem dropWhile_of_notMem (hs : '/' ∉ s) (x : Path) :
    (s ++ x).dropWhile (· ≠ '/') = x.dropWhile (· ≠ '/') := by
  rw [List.dropWhile_append_of_pos]
  intro c hc
  have hne : c ≠ '/' := fun heq ↦ hs (heq ▸ hc)
  simpa using hne

theorem cutAtLastSlash_of_notMem (hs : '/' ∉ s) : cutAtLastSlash s = [] := by
  have hdrop := dropWhile_of_notMem (s := s.reverse) (by simpa using hs) []
  rw [List.append_nil] at hdrop
  rw [cutAtLastSlash, hdrop]
  rfl

theorem cutAtLastSlash_append (hs : '/' ∉ s) : cutAtLastSlash (x ++ '/' :: s) = x := by
  have hdrop := dropWhile_of_notMem (s := s.reverse) (by simpa using hs) ('/' :: x.reverse)
  rw [cutAtLastSlash, List.reverse_append, List.reverse_cons, List.append_assoc,
    List.singleton_append, hdrop]
  simp

/-- The loop ends with the levels of the text, in fewer rounds than the text has characters and
one more. -/
theorem mkdirLoop_eq (hsegs : ∀ s ∈ segs, '/' ∉ s) {fuel : Nat} (chain : List Path)
    (hfuel : (spell '/' segs.reverse).length < fuel) :
    mkdirLoop fuel (spell '/' segs.reverse) chain = some (chain ++ mkdirLevels segs) := by
  induction segs generalizing fuel chain with
  | nil =>
    obtain ⟨fuel, rfl⟩ := Nat.exists_eq_add_of_lt hfuel
    simp [mkdirLoop, mkdirLevels]
  | cons s segs ih =>
    obtain ⟨fuel, rfl⟩ : ∃ n, fuel = n + 1 := ⟨fuel - 1, by omega⟩
    have hslash : '/' ∉ s := hsegs s (by simp)
    by_cases hcur : spell '/' (s :: segs).reverse = []
    · rw [mkdirLevels, ← spell, hcur]
      simp [mkdirLoop]
    · -- one round takes the last piece off, with the slash before it if there is one
      have hcut : cutAtLastSlash (spell '/' (s :: segs).reverse) = spell '/' segs.reverse ∧
          (spell '/' segs.reverse).length < (spell '/' (s :: segs).reverse).length := by
        rw [List.reverse_cons] at hcur ⊢
        by_cases hnil : segs = []
        · subst hnil
          simp only [List.reverse_nil, List.nil_append, spell_singleton, spell_nil] at hcur ⊢
          exact ⟨cutAtLastSlash_of_notMem hslash, List.length_pos_iff.mpr hcur⟩
        · rw [spell_snoc (by simpa using hnil)]
          refine ⟨cutAtLastSlash_append hslash, ?_⟩
          rw [List.length_append, List.length_cons]
          omega
      have hshort : (spell '/' segs.reverse).length < fuel := by omega
      have hrest := ih (fun t ht ↦ hsegs t (by simp [ht]))
        (chain ++ [spell '/' (s :: segs).reverse ++ ['/']]) hshort
      rw [mkdirLoop, if_neg hcur, hcut.1, hrest, mkdirLevels, ← spell, if_neg hcur,
        List.append_assoc, List.singleton_append]

/-- On every text the loop ends, with the chain. -/
theorem runMkdirChain_eq {fuel : Nat} {p : Path} (hfuel : p.length < fuel) :
    runMkdirChain fuel p = some (buildMkdirChain p) := by
  set pieces := ((trimEndSlashes p).splitOn '/').reverse with hpieces
  have hspell : spell '/' pieces.reverse = trimEndSlashes p := by
    rw [List.reverse_reverse]
    exact List.intercalate_splitOn '/'
  have hlength : (trimEndSlashes p).length ≤ p.length := by
    have hdrop := (List.dropWhile_sublist (· = '/') (l := p.reverse)).length_le
    rwa [List.length_reverse, ← List.length_reverse] at hdrop
  have hslash : ∀ s ∈ pieces, '/' ∉ s :=
    fun s hs ↦ notMem_of_mem_splitOn (List.mem_reverse.mp hs)
  have hloop := mkdirLoop_eq hslash [] (by rw [hspell]; exact lt_of_le_of_lt hlength hfuel)
  rw [hspell] at hloop
  simp [runMkdirChain, hloop, buildMkdirChain, hpieces, List.dropLast_reverse]

/-! ## The chain of a path of segments -/

/-- The initial parts of a sequence that are not empty, from the longest down. -/
def levels (segs : List Path) : List (List Path) := segs.inits.tail.reverse

theorem levels_snoc (segs : List Path) (s : Path) :
    levels (segs ++ [s]) = (segs ++ [s]) :: levels segs := by
  have hnil : segs.inits ≠ [] := by cases segs <;> simp
  rw [levels, List.inits_append, List.tail_append_of_ne_nil hnil]
  simp [levels]

theorem mem_levels {a : List Path} : a ∈ levels segs ↔ a ≠ [] ∧ a <+: segs := by
  induction segs using List.reverseRecOn with
  | nil => simp [levels]
  | append_singleton segs s ih =>
    rw [levels_snoc, List.mem_cons, ih, List.prefix_concat_iff]
    constructor
    · rintro (rfl | ⟨hne, ha⟩)
      · exact ⟨by simp, .inl rfl⟩
      · exact ⟨hne, .inr ha⟩
    · rintro ⟨hne, ha⟩
      exact ha.imp id (fun ha ↦ ⟨hne, ha⟩)

/-- A leading slash gives an empty piece at the front. -/
private theorem mkdirLevels_lead (hclean : Clean '/' segs) {pieces : List Path}
    (hlead : (pieces = [] ∧ lead = []) ∨ (pieces = [[]] ∧ lead = ['/'])) :
    mkdirLevels (pieces ++ segs).reverse = (levels segs).map (fun a ↦ lead ++ stem '/' a) := by
  induction segs using List.reverseRecOn with
  | nil => rcases hlead with ⟨rfl, rfl⟩ | ⟨rfl, rfl⟩ <;> rfl
  | append_singleton segs s ih =>
    have hcur : spell '/' (pieces ++ (segs ++ [s])) = lead ++ spell '/' (segs ++ [s]) := by
      rcases hlead with ⟨rfl, rfl⟩ | ⟨rfl, rfl⟩
      · rfl
      · cases segs <;> simp [spell, List.intercalate_cons_cons]
    have hne : lead ++ spell '/' (segs ++ [s]) ≠ [] := by
      have hlast := (hclean s (by simp)).1
      by_cases hnil : segs = []
      · simp [hnil, hlast]
      · simp [spell_snoc hnil]
    have hrest := ih (fun t ht ↦ hclean t (by simp [ht]))
    rw [← List.append_assoc, List.reverse_append, List.reverse_singleton, List.singleton_append,
      mkdirLevels, ← spell, List.reverse_cons, List.reverse_reverse, List.append_assoc, hcur,
      if_neg hne, hrest, levels_snoc, List.map_cons, List.append_assoc,
      spell_append_sep (by simp)]

private theorem trimEndSlashes_append (x : Path) (k : Nat) :
    trimEndSlashes (x ++ List.replicate k '/') = trimEndSlashes x := by
  rw [trimEndSlashes, List.reverse_append, List.dropWhile_append_of_pos (by simp), trimEndSlashes]

private theorem trimEndSlashes_eq_self (h : x.getLast? ≠ some '/') : trimEndSlashes x = x := by
  rw [trimEndSlashes]
  induction x using List.reverseRecOn with
  | nil => rfl
  | append_singleton x c _ =>
    have hc : c ≠ '/' := by simpa using h
    simp [hc]

private theorem getLast?_lead_spell (hclean : Clean '/' segs) (hnil : segs ≠ []) :
    (lead ++ spell '/' segs).getLast? ≠ some '/' := by
  induction segs using List.reverseRecOn with
  | nil => exact absurd rfl hnil
  | append_singleton segs s _ =>
    obtain ⟨hs, hslash⟩ := hclean s (by simp)
    obtain ⟨init, last, rfl⟩ := (List.eq_nil_or_concat' s).resolve_left hs
    have hlast : last ≠ '/' := by
      rintro rfl
      simp at hslash
    by_cases h : segs = []
    · simp [h, hlast, List.getLast?_append]
    · simp [spell_snoc h, hlast, List.getLast?_append, List.getLast?_cons]

private theorem levels_pairwise (segs : List Path) :
    (levels segs).Pairwise (fun a b ↦ b <+: a ∧ b ≠ a) := by
  induction segs using List.reverseRecOn with
  | nil => simp [levels]
  | append_singleton segs s ih =>
    rw [levels_snoc, List.pairwise_cons]
    refine ⟨fun a ha ↦ ?_, ih⟩
    have hle := (mem_levels.mp ha).2
    refine ⟨hle.trans (List.prefix_append segs [s]), ?_⟩
    rintro rfl
    have hlength := hle.length_le
    simp at hlength

theorem buildMkdirChain_eq (hclean : Clean '/' segs) (hlead : lead = [] ∨ lead = ['/']) (k : Nat) :
    buildMkdirChain (lead ++ spell '/' segs ++ List.replicate k '/') =
      (levels segs.dropLast).map (fun a ↦ lead ++ stem '/' a) := by
  rw [buildMkdirChain, trimEndSlashes_append]
  rcases List.eq_nil_or_concat' segs with rfl | ⟨init, last, rfl⟩
  · rcases hlead with rfl | rfl <;> decide
  · have hne : init ++ [last] ≠ [] := by simp
    rw [trimEndSlashes_eq_self (getLast?_lead_spell hclean hne), List.dropLast_concat]
    have hpieces : ∃ pieces, (lead ++ spell '/' (init ++ [last])).splitOn '/' =
        pieces ++ (init ++ [last]) ∧
        ((pieces = [] ∧ lead = []) ∨ (pieces = [[]] ∧ lead = ['/'])) := by
      rcases hlead with rfl | rfl
      · exact ⟨[], splitOn_spell hclean hne, .inl ⟨rfl, rfl⟩⟩
      · refine ⟨[[]], ?_, .inr ⟨rfl, rfl⟩⟩
        rw [List.singleton_append, List.splitOn_cons_eq_if_modifyHead, splitOn_spell hclean hne]
        rfl
    obtain ⟨pieces, hsplit, hcases⟩ := hpieces
    rw [hsplit, mkdirLevels_lead hclean hcases, levels_snoc, List.map_cons, List.tail_cons]

/-- The directories above a path of segments, from the nearest up. -/
structure MkdirChain (lead : Path) (segs chain : List Path) : Prop where
  mem : ∀ d, d ∈ chain ↔
    ∃ above, above ≠ [] ∧ above <+: segs ∧ above ≠ segs ∧ d = lead ++ spell '/' above ++ ['/']
  deepestFirst : chain.Pairwise (fun d e ↦ e <+: d ∧ e ≠ d)
  oneSlash : ∀ d ∈ chain, ∃ e, d = e ++ ['/'] ∧ e.getLast? ≠ some '/'
  notSelf : ∀ d ∈ chain, trimEndSlashes d ≠ lead ++ spell '/' segs

private theorem mem_levels_dropLast {a : List Path} :
    a ∈ levels segs.dropLast ↔ a ≠ [] ∧ a <+: segs ∧ a ≠ segs := by
  rw [mem_levels]
  rcases List.eq_nil_or_concat' segs with rfl | ⟨init, last, rfl⟩
  · simp
  · rw [List.dropLast_concat, List.prefix_concat_iff]
    constructor
    · rintro ⟨hne, ha⟩
      refine ⟨hne, .inr ha, ?_⟩
      rintro rfl
      have hlength := ha.length_le
      simp at hlength
    · rintro ⟨hne, ha, hself⟩
      exact ⟨hne, ha.resolve_left hself⟩

private theorem stem_strict {a b : List Path} (ha : Clean '/' a) (hb : Clean '/' b)
    (h : b <+: a ∧ b ≠ a) :
    lead ++ stem '/' b <+: lead ++ stem '/' a ∧ lead ++ stem '/' b ≠ lead ++ stem '/' a := by
  refine ⟨(List.prefix_append_right_inj lead).mpr ((stem_prefix_stem hb ha).mpr h.1), ?_⟩
  intro heq
  exact h.2 (stem_inj hb ha (List.append_cancel_left heq))

private theorem mkdirChain_levels (hclean : Clean '/' segs) :
    MkdirChain lead segs ((levels segs.dropLast).map (fun a ↦ lead ++ stem '/' a)) := by
  have habove : ∀ a ∈ levels segs.dropLast, a ≠ [] ∧ Clean '/' a ∧
      lead ++ stem '/' a = lead ++ spell '/' a ++ ['/'] := by
    intro a ha
    obtain ⟨hne, hle, _⟩ := mem_levels_dropLast.mp ha
    refine ⟨hne, fun s hs ↦ hclean s (hle.subset hs), ?_⟩
    rw [List.append_assoc, spell_append_sep hne]
  refine ⟨fun d ↦ ?_, ?_, ?_, ?_⟩
  · rw [List.mem_map]
    constructor
    · rintro ⟨a, ha, rfl⟩
      obtain ⟨hne, hle, hself⟩ := mem_levels_dropLast.mp ha
      exact ⟨a, hne, hle, hself, (habove a ha).2.2⟩
    · rintro ⟨a, hne, hle, hself, rfl⟩
      have ha := mem_levels_dropLast.mpr ⟨hne, hle, hself⟩
      exact ⟨a, ha, (habove a ha).2.2⟩
  · rw [List.pairwise_map]
    apply (levels_pairwise segs.dropLast).imp_of_mem
    intro a b ha hb h
    exact stem_strict (habove a ha).2.1 (habove b hb).2.1 h
  · intro d hd
    obtain ⟨a, ha, rfl⟩ := List.mem_map.mp hd
    obtain ⟨hne, hcleanA, heq⟩ := habove a ha
    exact ⟨_, heq, getLast?_lead_spell hcleanA hne⟩
  · intro d hd
    obtain ⟨a, ha, rfl⟩ := List.mem_map.mp hd
    obtain ⟨hne, hcleanA, heq⟩ := habove a ha
    have hnil : segs ≠ [] := by
      rintro rfl
      simp [levels] at ha
    have htrim : trimEndSlashes (lead ++ stem '/' a) = lead ++ spell '/' a := by
      rw [heq, ← List.replicate_one, trimEndSlashes_append,
        trimEndSlashes_eq_self (getLast?_lead_spell hcleanA hne)]
    intro hspell
    rw [htrim] at hspell
    apply (mem_levels_dropLast.mp ha).2.2
    apply stem_inj hcleanA hclean
    rw [← spell_append_sep hne, ← spell_append_sep hnil, List.append_cancel_left hspell]

/-- The loop ends on every text. On a path of segments, after at most one slash and before any
number of them, it leaves the directories above the path. -/
theorem mkdirChain_complete :
    (∀ (path : Path) (fuel : Nat), path.length < fuel →
      runMkdirChain fuel path = some (buildMkdirChain path)) ∧
    ∀ (segs : List Path) (lead : Path) (trailing : Nat), Clean '/' segs →
      lead = [] ∨ lead = ['/'] →
      MkdirChain lead segs
        (buildMkdirChain (lead ++ spell '/' segs ++ List.replicate trailing '/')) := by
  refine ⟨fun path fuel ↦ runMkdirChain_eq, fun segs lead trailing hclean hlead ↦ ?_⟩
  rw [buildMkdirChain_eq hclean hlead]
  exact mkdirChain_levels hclean

/-- The chain of `/a/b/c.txt//`. -/
theorem mkdirChain_complete_sample :
    runMkdirChain 20 "/a/b/c.txt//".toList = some ["/a/b/".toList, "/a/".toList] ∧
      MkdirChain ['/'] ["a".toList, "b".toList, "c.txt".toList]
        ["/a/b/".toList, "/a/".toList] := by
  have hclean : Clean '/' ["a".toList, "b".toList, "c.txt".toList] := by
    simp [Clean]
  exact ⟨mkdirChain_complete.1 "/a/b/c.txt//".toList 20 (by decide),
    mkdirChain_complete.2 ["a".toList, "b".toList, "c.txt".toList] ['/'] 2 hclean (.inr rfl)⟩

end Mntrs
