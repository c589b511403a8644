import KernelWrap.Proofs.Accounting
import KernelWrap.Proofs.Openings

/-! What normalizing moves. A text is a row of headers and of characters outside them, and normalizing
writes them one by one: a character as it is, a header on one line with its line feeds behind it. The
tokens stay what they are, so that no other header comes up, and the text that is written is its own
normal form. -/

namespace KernelWrap.Source
open Text Declaration

section Tokens

theorem mem_joinLines {h : List Char} {c : Char} (hc : c ∈ joinLines h) : c = ' ' ∨ c ∈ h := by
  refine (mem_line_of_mem_joinLines hc).imp_right ?_
  rintro ⟨l, hl, hm⟩
  exact subset_of_mem_pieces hl hm

theorem mem_collapse {h : List Char} {c : Char} (hc : c ∈ collapse h) : c = ' ' ∨ c ∈ h := by
  rw [collapse] at hc
  split at hc
  · exact .inr hc
  · next hb =>
    rcases List.mem_append.1 hc with hc | hc
    · exact mem_joinLines hc
    · rw [(List.mem_replicate.1 hc).2]
      exact .inr (List.count_pos_iff.1 (Nat.pos_of_ne_zero hb))

theorem GapsOnly.of_blank {s t : List Char} (hs : GapsOnly s) (h : ∀ c ∈ t, c = ' ' ∨ c ∈ s) :
    GapsOnly t := by
  intro c hc hb
  rcases h c hc with rfl | hm
  · decide
  · exact hs c hm hb

theorem GapsOnly.left {s t : List Char} (h : GapsOnly (s ++ t)) : GapsOnly s :=
  h.of_subset (List.subset_append_left s t)

theorem GapsOnly.right {s t : List Char} (h : GapsOnly (s ++ t)) : GapsOnly t :=
  h.of_subset (List.subset_append_right s t)

theorem mem_normalizeFrom {w : Bool} {s : List Char} {c : Char} (hc : c ∈ normalizeFrom w s) :
    c = ' ' ∨ c ∈ s := by
  induction w, s using normalize_induction with
  | nil w =>
    rw [normalizeFrom_nil] at hc
    exact .inr hc
  | plain w d s hd ih =>
    rw [normalizeFrom_plain hd] at hc
    rcases List.mem_cons.1 hc with rfl | hc
    · exact .inr List.mem_cons_self
    · exact (ih hc).imp_right (List.mem_cons_of_mem d)
  | header h r ha ih =>
    rw [normalizeFrom_header ha] at hc
    rcases List.mem_append.1 hc with hc | hc
    · exact (mem_collapse hc).imp_right (List.mem_append_left r)
    · exact (ih hc).imp_right (List.mem_append_right h)

theorem isIdentChar_of_endsInWord {x : List Char} (h : endsInWord x = false) :
    ∀ d ∈ x.getLast?, isIdentChar d = false := by
  intro d hd
  rw [endsInWord, Option.mem_def.1 hd] at h
  exact isIdentChar_of_not_isWordChar h

theorem isGap_of_mem_replicate {n : Nat} : ∀ c ∈ List.replicate n '\n', isGap c = true := by
  intro c hc
  rw [(List.mem_replicate.1 hc).2]
  decide

theorem lexemes_collapse {h : List Char} (hg : GapsOnly h) : lexemes (collapse h) = lexemes h := by
  obtain ⟨l, hl, -, hlex, -⟩ := collapse_eq h hg
  have hapart : Apart l (List.replicate (countBreaks h) '\n') := apart_of_head fun d hd =>
    isIdentChar_of_isGap (isGap_of_mem_replicate d (List.mem_of_mem_head? hd))
  rw [hl, lexemes_append hapart, lexemes_of_forall_isGap isGap_of_mem_replicate, List.append_nil, hlex]

theorem lexemes_append_normalizeFrom {s : List Char} (hs : GapsOnly s) (x : List Char) :
    lexemes (x ++ normalizeFrom (endsInWord x) s) = lexemes (x ++ s) := by
  generalize hw : endsInWord x = w
  induction w, s using normalize_induction generalizing x with
  | nil w => rw [normalizeFrom_nil]
  | plain w c s hc ih =>
    have hrest := ih (hs.of_subset (List.subset_cons_self c s)) (x ++ [c]) (endsInWord_concat x c)
    rw [List.append_assoc, List.append_assoc] at hrest
    rw [normalizeFrom_plain hc]
    exact hrest
  | header h r ha ih =>
    obtain ⟨g, hh, e⟩ := afterHeader?_eq_some_iff.1 ha
    obtain rfl := List.append_cancel_right e
    have hx := isIdentChar_of_endsInWord hw
    have hlast := isIdentChar_of_endsInWord (hh.endsInWord [])
    have hcollapse := forall_getLast?_collapse ha []
    rw [List.nil_append] at hlast hcollapse
    have hrest : lexemes (normalizeFrom false r) = lexemes r := ih hs.right [] rfl
    rw [normalizeFrom_header ha, lexemes_append (apart_of_last hx),
      lexemes_append (apart_of_last hcollapse), lexemes_collapse hs.left, hrest,
      lexemes_append (apart_of_last hx), lexemes_append (apart_of_last hlast)]

theorem lexemes_normalize {s : List Char} (hs : GapsOnly s) : lexemes (normalize s) = lexemes s :=
  lexemes_append_normalizeFrom hs []

theorem countBreaks_normalizeFrom (w : Bool) (s : List Char) :
    countBreaks (normalizeFrom w s) = countBreaks s := by
  induction w, s using normalize_induction with
  | nil w => rw [normalizeFrom_nil]
  | plain w c s hc ih =>
    rw [normalizeFrom_plain hc, countBreaks, countBreaks, List.count_cons, List.count_cons,
      ← countBreaks, ← countBreaks, ih]
  | header h r ha ih =>
    rw [normalizeFrom_header ha, countBreaks_append, countBreaks_append, countBreaks_collapse, ih]

end Tokens

section Again

theorem normalizeFrom_gaps {g : List Char} (hg : ∀ c ∈ g, isGap c = true) (s : List Char) :
    normalizeFrom false (g ++ s) = g ++ normalizeFrom false s := by
  induction g with
  | nil => rfl
  | cons c g ih =>
    obtain ⟨hc, hg⟩ := List.forall_mem_cons.1 hg
    have hplain : afterHeader? (c :: (g ++ s)) = none := by
      rw [Option.eq_none_iff_forall_ne_some]
      intro r hr
      have hi := isIdentChar_of_afterHeader? hr
      rw [isIdentChar_of_isGap hc] at hi
      cases hi
    rw [List.cons_append, normalizeFrom_plain fun _ => hplain,
      isWordChar_of_isBlank (isBlank_of_isGap hc), ih hg, List.cons_append]

theorem IsHeader.lexemes_eq {h : List Char} (hh : IsHeader h) :
    ∃ ls, lexemes h = ls ++ [closeLexeme] ∧ closeLexeme ∉ ls := by
  obtain ⟨s, hs, rfl⟩ := hh
  refine ⟨lexemes s, ?_, fun hm => hs.notMem (text_subset_of_mem_lexemes hm List.mem_cons_self)⟩
  rw [lexemes_append (apart_of_head (by rintro d ⟨⟩; decide)), lexemes_close, lexemes_nil]

theorem IsHeader.joinLines {h : List Char} (hh : IsHeader h) (hg : GapsOnly h) :
    ∃ l g, Source.joinLines h = l ++ g ∧ IsHeader l ∧ ∀ c ∈ g, isGap c = true := by
  have hlex : lexemes (Source.joinLines h) = lexemes h := lexemes_joinLines hg
  have hhead : ∀ c ∈ (Source.joinLines h).head?, isGap c = false := by
    obtain ⟨w, c, x, hw, hc, e⟩ := header_eq (hh.afterHeader? [])
    obtain rfl := List.append_cancel_right e
    obtain ⟨y, hy, -⟩ := joinLines_word (x := x ++ [')']) hw hc
    obtain ⟨d, hd, hi⟩ := head_of_isIdent hw.isIdent y
    rw [hy, hd]
    rintro c ⟨⟩
    exact isGap_of_isIdentChar hi
  have hbegin : BeginHeader (lexemes (Source.joinLines h)) := by
    have hself := hh.beginHeader (r := []) (by rwa [List.append_nil])
    rwa [List.append_nil, ← hlex] at hself
  obtain ⟨l, g, hl, e⟩ := exists_header_of_beginHeader hhead hbegin
  refine ⟨l, g, e, hl, forall_isGap_of_lexemes_eq_nil ?_⟩
  obtain ⟨ls, hls, hnot⟩ := hh.lexemes_eq
  obtain ⟨ms, hms, -⟩ := hl.lexemes_eq
  have hlast := isIdentChar_of_endsInWord (hl.endsInWord [])
  rw [List.nil_append] at hlast
  rw [e, lexemes_append (apart_of_last hlast), hms, hls, List.append_assoc,
    List.singleton_append] at hlex
  exact ((List.append_cons_inj_of_notMem hnot List.not_mem_nil).1 hlex.symm).2.2.symm

theorem IsHeader.normalizeFrom_collapse {h : List Char} (hh : IsHeader h) (hg : GapsOnly h)
    (s : List Char) : normalizeFrom false (collapse h ++ s) = collapse h ++ normalizeFrom false s := by
  rw [collapse]
  split
  · next hb =>
    rw [normalizeFrom_header (hh.afterHeader? s), collapse, if_pos hb]
  · obtain ⟨l, g, e, hl, hgap⟩ := hh.joinLines hg
    have hline : countBreaks l = 0 := by
      refine countBreaks_of_notMem fun hm => lineFeed_notMem_joinLines h ?_
      rw [e]
      exact List.mem_append_left g hm
    have hgaps : ∀ c ∈ g ++ List.replicate (countBreaks h) '\n', isGap c = true :=
      List.forall_mem_append.2 ⟨hgap, isGap_of_mem_replicate⟩
    rw [e, List.append_assoc l, List.append_assoc l, normalizeFrom_header (hl.afterHeader? _),
      collapse, if_pos hline, normalizeFrom_gaps hgaps, List.append_assoc l]

theorem normalizeFrom_again {s : List Char} (hs : GapsOnly s) (w : Bool) :
    normalizeFrom w (normalizeFrom w s) = normalizeFrom w s := by
  induction w, s using normalize_induction with
  | nil w => rw [normalizeFrom_nil, normalizeFrom_nil]
  | plain w c s hc ih =>
    have hrest : GapsOnly s := hs.of_subset (List.subset_cons_self c s)
    -- No header begins at `c` when the rest is normalized, since the tokens are the same.
    have hnext : w = false → afterHeader? (c :: normalizeFrom (isWordChar c) s) = none := by
      intro hw
      have hgaps : GapsOnly (c :: normalizeFrom (isWordChar c) s) := by
        refine hs.of_blank fun d hd => ?_
        rcases List.mem_cons.1 hd with rfl | hd
        · exact .inr List.mem_cons_self
        · exact (mem_normalizeFrom hd).imp_right (List.mem_cons_of_mem c)
      have hlex := lexemes_append_normalizeFrom hrest [c]
      rw [← List.nil_append [c], endsInWord_concat] at hlex
      exact afterHeader?_congr hgaps hlex (hc hw)
    rw [normalizeFrom_plain hc, normalizeFrom_plain hnext, ih hrest]
  | header h r ha ih =>
    obtain ⟨g, hh, e⟩ := afterHeader?_eq_some_iff.1 ha
    obtain rfl := List.append_cancel_right e
    rw [normalizeFrom_header ha, hh.normalizeFrom_collapse hs.left, ih hs.right]

end Again

inductive Part where
  | char (c : Char)
  | header (h : List Char)

namespace Part

def source : Part → List Char
  | char c => [c]
  | header h => h

def written : Part → List Char
  | char c => [c]
  | header h => collapse h

end Part

def partsSource (ps : List Part) : List Char := ps.flatMap Part.source

def partsWritten (ps : List Part) : List Char := ps.flatMap Part.written

def occurrences (before : List Char) : List Part → List Occurrence
  | [] => []
  | .char c :: ps => occurrences (before ++ [c]) ps
  | .header h :: ps => ⟨before, h⟩ :: occurrences (before ++ h) ps

/-- The parts are those that a pass through the text finds. -/
structure Divides (s : List Char) (ps : List Part) : Prop where
  source : partsSource ps = s
  scan : Scan [] s (occurrences [] ps)

section Parts

variable {before s : List Char}

theorem exists_parts {os : List Occurrence} (h : Scan before s os) :
    ∃ ps, partsSource ps = s ∧ occurrences before ps = os := by
  induction h with
  | nil before => exact ⟨[], rfl, rfl⟩
  | @skip before s c os _ _ ih =>
    obtain ⟨ps, rfl, rfl⟩ := ih
    exact ⟨.char c :: ps, rfl, rfl⟩
  | @hit before h s os _ _ _ ih =>
    obtain ⟨ps, rfl, rfl⟩ := ih
    exact ⟨.header h :: ps, rfl, rfl⟩

theorem exists_divides (s : List Char) : ∃ ps, Divides s ps := by
  obtain ⟨os, ho⟩ := exists_scan [] s
  obtain ⟨ps, hs, rfl⟩ := exists_parts ho
  exact ⟨ps, hs, ho⟩

theorem length_before_occurrences {ps : List Part} {o : Occurrence}
    (ho : o ∈ occurrences before ps) : before.length ≤ o.before.length := by
  induction ps generalizing before with
  | nil => cases ho
  | cons p ps ih =>
    cases p with
    | char c =>
      have hle := ih ho
      rw [List.length_append] at hle
      omega
    | header h =>
      rcases List.mem_cons.1 ho with rfl | ho
      · exact Nat.le_refl _
      · have hle := ih ho
        rw [List.length_append] at hle
        omega

theorem Scan.length_before {os : List Occurrence} (h : Scan before s os) {o : Occurrence}
    (ho : o ∈ os) : before.length ≤ o.before.length := by
  obtain ⟨ps, -, rfl⟩ := exists_parts h
  exact length_before_occurrences ho

theorem Scan.of_char {c : Char} {os : List Occurrence} (h : Scan before (c :: s) os)
    (ho : ∀ o ∈ os, before.length < o.before.length) :
    (endsInWord before = false → afterHeader? (c :: s) = none) ∧ Scan (before ++ [c]) s os := by
  generalize ht : c :: s = t at h
  cases h with
  | nil => cases ht
  | skip hn hrest =>
    cases ht
    refine ⟨fun hw => ?_, hrest⟩
    rw [Option.eq_none_iff_forall_ne_some]
    intro r hr
    obtain ⟨g, hg, e⟩ := afterHeader?_eq_some_iff.1 hr
    exact hn hw g hg ⟨r, e.symm⟩
  | hit hw hh hrest => exact absurd (ho _ List.mem_cons_self) (Nat.lt_irrefl _)

theorem Scan.of_header {g : List Char} {os : List Occurrence}
    (h : Scan before s (⟨before, g⟩ :: os)) :
    endsInWord before = false ∧ IsHeader g ∧ ∃ r, s = g ++ r ∧ Scan (before ++ g) r os := by
  cases h with
  | skip hn hrest =>
    have hle := hrest.length_before List.mem_cons_self
    rw [List.length_append, List.length_singleton] at hle
    exact absurd hle (Nat.not_succ_le_self _)
  | hit hw hh hrest => exact ⟨hw, hh, _, rfl, hrest⟩

theorem normalizeFrom_parts {ps : List Part} (hs : partsSource ps = s)
    (h : Scan before s (occurrences before ps)) :
    normalizeFrom (endsInWord before) s = partsWritten ps := by
  induction ps generalizing before s with
  | nil =>
    subst hs
    exact normalizeFrom_nil _
  | cons p ps ih =>
    subst hs
    cases p with
    | char c =>
      have hbehind : ∀ o ∈ occurrences before (.char c :: ps), before.length < o.before.length := by
        intro o ho
        have hmem : o ∈ occurrences (before ++ [c]) ps := ho
        have hle := length_before_occurrences hmem
        rwa [List.length_append, List.length_singleton] at hle
      obtain ⟨hn, hrest⟩ := Scan.of_char (s := partsSource ps) h hbehind
      have hwritten := ih rfl hrest
      rw [endsInWord_concat] at hwritten
      show normalizeFrom (endsInWord before) (c :: partsSource ps) = c :: partsWritten ps
      rw [normalizeFrom_plain hn, hwritten]
    | header g =>
      obtain ⟨hw, hg, r, hr, hrest⟩ := Scan.of_header h
      obtain rfl : partsSource ps = r := List.append_cancel_left hr
      have hwritten := ih rfl hrest
      rw [hg.endsInWord before] at hwritten
      show normalizeFrom (endsInWord before) (g ++ partsSource ps) = collapse g ++ partsWritten ps
      rw [hw, normalizeFrom_header (hg.afterHeader? _), hwritten]

theorem countBreaks_parts (ps : List Part) :
    countBreaks (partsWritten ps) = countBreaks (partsSource ps) := by
  induction ps with
  | nil => rfl
  | cons p ps ih =>
    have hp : countBreaks p.written = countBreaks p.source := by
      cases p with
      | char c => rfl
      | header h => exact countBreaks_collapse h
    show countBreaks (p.written ++ partsWritten ps) = countBreaks (p.source ++ partsSource ps)
    rw [countBreaks_append, countBreaks_append, hp, ih]

theorem partsWritten_of_lines {ps : List Part} (h : ∀ g, Part.header g ∈ ps → '\n' ∉ g) :
    partsWritten ps = partsSource ps := by
  induction ps with
  | nil => rfl
  | cons p ps ih =>
    have hp : p.written = p.source := by
      cases p with
      | char c => rfl
      | header g =>
        have hg := countBreaks_of_notMem (h g List.mem_cons_self)
        rw [Part.written, Part.source, collapse, if_pos hg]
    show p.written ++ partsWritten ps = p.source ++ partsSource ps
    rw [hp, ih fun g hg => h g (List.mem_cons_of_mem p hg)]

end Parts

/-- A part in its place: a character is written as it is, on the line that it stood on, and a header
is written on one line, the one that it began on, with its tokens and with its line feeds behind it. -/
def Part.KeptIn (t : List Char) (xs : List Part) (ys : List Part) : Part → Prop
  | .char c => t = partsWritten xs ++ c :: partsWritten ys ∧
      countBreaks (partsWritten xs) = countBreaks (partsSource xs)
  | .header h => ∃ l, t = partsWritten xs ++ (l ++ (List.replicate (countBreaks h) '\n' ++
      partsWritten ys)) ∧ '\n' ∉ l ∧ lexemes l = lexemes h ∧
      countBreaks (partsWritten xs) = countBreaks (partsSource xs)

/-- Normalizing moves line feeds and nothing else, as long as all blanks are such that stand between
tokens. -/
theorem normalize_moves {s : List Char} (hs : GapsOnly s) :
    lexemes (normalize s) = lexemes s ∧ countBreaks (normalize s) = countBreaks s ∧
      normalize (normalize s) = normalize s ∧
      (∃ ps, Divides s ps) ∧ ∀ ps, Divides s ps →
        (∀ xs p ys, ps = xs ++ p :: ys → p.KeptIn (normalize s) xs ys) ∧
        ((∀ h, Part.header h ∈ ps → '\n' ∉ h) → normalize s = s) := by
  refine ⟨lexemes_normalize hs, countBreaks_normalizeFrom false s, normalizeFrom_again hs false,
    exists_divides s, fun ps hps => ?_⟩
  have hwritten : normalize s = partsWritten ps := normalizeFrom_parts hps.source hps.scan
  refine ⟨?_, fun h => ?_⟩
  · rintro xs p ys rfl
    have hsplit : normalize s = partsWritten xs ++ (p.written ++ partsWritten ys) := by
      rw [hwritten, partsWritten, List.flatMap_append, List.flatMap_cons]
      rfl
    cases p with
    | char c => exact ⟨hsplit, countBreaks_parts xs⟩
    | header h =>
      have hmem : h ⊆ s := by
        rw [← hps.source, partsSource, List.flatMap_append, List.flatMap_cons]
        exact fun c hc => List.mem_append_right _ (List.mem_append_left _ hc)
      obtain ⟨l, hl, hline, hlex, -⟩ := collapse_eq h (hs.of_subset hmem)
      refine ⟨l, ?_, hline, hlex, countBreaks_parts xs⟩
      rw [hsplit, Part.written, hl, List.append_assoc]
  · rw [hwritten, partsWritten_of_lines h, hps.source]

def spanningText : List Char :=
  "int a;\nkernel void f( int x,\n\tint y\n) \x7b\x7d\nkernel g".toList

theorem normalize_moves_spanning : GapsOnly spanningText ∧
    normalize spanningText =
      "int a;\nkernel void f(int x, int y)\n\n \x7b\x7d\nkernel g".toList ∧
    lexemes (normalize spanningText) = lexemes spanningText ∧
    normalize (normalize spanningText) = normalize spanningText ∧
    ∃ ps, Divides spanningText ps ∧ (∃ h, Part.header h ∈ ps ∧ '\n' ∈ h) ∧
      ∀ xs p ys, ps = xs ++ p :: ys → p.KeptIn (normalize spanningText) xs ys := by
  have hgaps : GapsOnly spanningText := by
    have hall : spanningText.all (fun c => !isBlank c || isGap c) = true := by decide
    intro c hc hb
    simpa [hb] using List.all_eq_true.1 hall c hc
  have htext : normalize spanningText =
      "int a;\nkernel void f(int x, int y)\n\n \x7b\x7d\nkernel g".toList := by decide +kernel
  have hne : normalize spanningText ≠ spanningText := by
    rw [htext]
    decide
  obtain ⟨hlex, -, hagain, ⟨ps, hps⟩, hparts⟩ := normalize_moves hgaps
  obtain ⟨hkept, hsame⟩ := hparts ps hps
  have hheader : ∃ h, Part.header h ∈ ps ∧ '\n' ∈ h := by
    by_contra hnone
    exact hne (hsame fun h hh hm => hnone ⟨h, hh, hm⟩)
  exact ⟨hgaps, htext, hlex, hagain, ps, hps, hheader, hkept⟩

end KernelWrap.Source
