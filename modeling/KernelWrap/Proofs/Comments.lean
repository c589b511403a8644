import KernelWrap.Analysis
import KernelWrap.Proofs.Places

/-! What comments say has no influence. Of a comment stripping keeps at most a line feed, and the
line map knows no more of it than how many line feeds it had. Nothing that stands before a comment
is read in another way for another body of it: no literal goes on behind the slash that begins a
comment. -/

namespace KernelWrap.Source
open Text

/-- A comment and the same comment with another body: one that does not end it, and that has as many
line feeds. -/
inductive Rewords : Segment → Segment → Prop
  | block {b b' : List Char} : ¬ ['*', '/'] <:+: b' → countBreaks b' = countBreaks b →
      Rewords (.block b) (.block b')
  | line {b b' : List Char} {ended : Bool} : '\n' ∉ b' →
      Rewords (.line b ended) (.line b' ended)

def OpensComment (s : List Char) : Prop :=
  ∃ d t, s = '/' :: d :: t ∧ (d = '*' ∨ d = '/')

section Openings

theorem opens_append {c : Char} {x r r' : List Char} (hr : OpensComment r)
    (hr' : OpensComment r') (h : Opens c (x ++ r)) : Opens c (x ++ r') := by
  obtain ⟨d, t, rfl, hd⟩ := hr
  obtain ⟨d', t', rfl, hd'⟩ := hr'
  have hne : '\x27' ≠ d := by rcases hd with rfl | rfl <;> decide
  rcases h with h | ⟨l, hl, z, hz⟩ | ⟨h, hs⟩
  · exact .inl h
  · -- A character literal ends in an apostrophe, which is not among the first two characters of a
    -- comment, so all of it stands before the comment.
    cases hl with
    | string hb => exact .inl (List.cons.inj hz).1.symm
    | @char a ha hb =>
      obtain ⟨rfl, hz⟩ := List.cons.inj hz
      refine .inr (.inl ⟨_, .char ha hb, ?_⟩)
      rcases x with _ | ⟨e, _ | ⟨f, x⟩⟩
      · cases hz
        exact absurd rfl hne
      · cases hz
      · cases hz
        exact ⟨x ++ '/' :: d' :: t', rfl⟩
    | @escape a =>
      obtain ⟨rfl, hz⟩ := List.cons.inj hz
      refine .inr (.inl ⟨_, .escape (c := a), ?_⟩)
      rcases x with _ | ⟨e, _ | ⟨f, _ | ⟨g, x⟩⟩⟩
      · cases hz
      · cases hz
        exact absurd rfl hne
      · cases hz
      · cases hz
        exact ⟨x ++ '/' :: d' :: t', rfl⟩
  · refine .inr (.inr ⟨h, ?_⟩)
    cases x with
    | nil => exact .inr rfl
    | cons e x => exact hs

theorem Closed.before_comment {gs : List Segment} {r r' : List Char} (h : Closed r gs)
    (hr : OpensComment r) (hr' : OpensComment r') : Closed r' gs := by
  induction gs with
  | nil => trivial
  | cons g gs ih =>
    refine ⟨?_, ih h.2⟩
    have hg := h.1
    cases g with
    | plain c => exact fun ho => hg (opens_append hr' hr ho)
    | literal t => exact hg
    | block b => exact hg
    | line b ended =>
      refine ⟨hg.1, fun he => ?_⟩
      have hn := hg.2 he
      obtain ⟨d, t, rfl, -⟩ := hr
      simp at hn

end Openings

namespace Rewords

variable {g g' : Segment}

theorem kept_eq (h : Rewords g g') : g'.kept = g.kept := by
  cases h <;> rfl

theorem lostBreaks_eq (h : Rewords g g') (hg : ∃ rest, g.IsClosed rest) :
    g'.lostBreaks = g.lostBreaks := by
  cases h with
  | @block b b' _ hb =>
    simp only [Segment.lostBreaks, Segment.source, Segment.kept, countBreaks] at hb ⊢
    simp [hb]
  | @line b b' ended hb =>
    obtain ⟨rest, hl, -⟩ := hg
    simp only [Segment.lostBreaks, Segment.source, Segment.kept, countBreaks]
    simp [List.count_eq_zero.2 hb, List.count_eq_zero.2 hl]

theorem opensComment (h : Rewords g g') (s : List Char) :
    OpensComment (g.source ++ s) ∧ OpensComment (g'.source ++ s) := by
  cases h with
  | block _ _ => exact ⟨⟨'*', _, rfl, .inl rfl⟩, ⟨'*', _, rfl, .inl rfl⟩⟩
  | line _ => exact ⟨⟨'/', _, rfl, .inr rfl⟩, ⟨'/', _, rfl, .inr rfl⟩⟩

theorem isClosed (h : Rewords g g') {rest : List Char} (hg : g.IsClosed rest) :
    g'.IsClosed rest := by
  cases h with
  | block hb _ => exact hb
  | line hb => exact ⟨hb, hg.2⟩

theorem closed (h : Rewords g g') {rest : List Char} {gs hs : List Segment}
    (hc : Closed rest (gs ++ g :: hs)) : Closed rest (gs ++ g' :: hs) := by
  rw [closed_append] at hc ⊢
  obtain ⟨hgs, hg, hhs⟩ := hc
  rw [sourceText_cons, List.append_assoc] at hgs ⊢
  obtain ⟨ho, ho'⟩ := h.opensComment (sourceText hs ++ rest)
  exact ⟨hgs.before_comment ho ho', h.isClosed hg, hhs⟩

end Rewords

theorem cuts_congr (position : Nat) {gs : List Segment} {g g' : Segment} {hs : List Segment}
    (hk : g'.kept = g.kept) (hl : g'.lostBreaks = g.lostBreaks) :
    cuts position (gs ++ g' :: hs) = cuts position (gs ++ g :: hs) := by
  rw [cuts_append, cuts_append, cuts, cuts, hk, hl]

theorem stripWithLines_rewords {gs hs : List Segment} {g g' : Segment} (h : Rewords g g')
    (hc : Closed [] (gs ++ g :: hs)) :
    stripWithLines (sourceText (gs ++ g' :: hs)) = stripWithLines (sourceText (gs ++ g :: hs)) := by
  have hk : keptText (gs ++ g' :: hs) = keptText (gs ++ g :: hs) := by
    rw [keptText_append, keptText_append, keptText_cons, keptText_cons, h.kept_eq]
  have hl := h.lostBreaks_eq ⟨_, (closed_append.1 hc).2.1⟩
  rw [stripWithLines, stripWithLines, segments_sourceText (h.closed hc), segments_sourceText hc,
    LineMap.ofSegments, LineMap.ofSegments, hk, cuts_congr 0 h.kept_eq hl]

end KernelWrap.Source

namespace KernelWrap.Analysis
open Source Text

/-- Another body of a comment in a source whose literals and comments are closed changes neither the
kernels that are found nor the declarations that are skipped. -/
theorem ofText_rewords {gs hs : List Segment} {g g' : Segment} (h : Rewords g g')
    (hc : Closed [] (gs ++ g :: hs)) :
    (ofText (sourceText (gs ++ g' :: hs))).kernels = (ofText (sourceText (gs ++ g :: hs))).kernels ∧
      (ofText (sourceText (gs ++ g' :: hs))).skipped =
        (ofText (sourceText (gs ++ g :: hs))).skipped := by
  simp only [ofText, stripWithLines_rewords h hc, and_self]

def notedSegments : List Segment :=
  "kernel void f(int x)".toList.map .plain ++
    .line " kernel".toList true :: "kernel g".toList.map .plain

theorem closed_notedSegments : Closed [] notedSegments := by
  unfold notedSegments
  exact closed_append.2 ⟨closed_map_plain (by simp) _, ⟨by decide, fun h => Bool.noConfusion h⟩,
    closed_map_plain (by simp) _⟩

theorem ofText_rewords_noted :
    (ofText (sourceText ([] ++ .block "a\n*".toList :: notedSegments))).kernels.map Kernel.line =
        [2] ∧
      (ofText (sourceText ([] ++ .block "\x22 kernel void g(\n".toList :: notedSegments))).kernels =
        (ofText (sourceText ([] ++ .block "a\n*".toList :: notedSegments))).kernels ∧
      (ofText (sourceText ([] ++ .block "\x22 kernel void g(\n".toList :: notedSegments))).skipped =
        (ofText (sourceText ([] ++ .block "a\n*".toList :: notedSegments))).skipped := by
  have hr : Rewords (.block "a\n*".toList) (.block "\x22 kernel void g(\n".toList) :=
    .block (by decide +kernel) (by decide)
  have hc : Closed [] ([] ++ .block "a\n*".toList :: notedSegments) := by
    refine ⟨?_, closed_notedSegments⟩
    show ¬ ['*', '/'] <:+: "a\n*".toList
    decide
  exact ⟨by decide +kernel, ofText_rewords hr hc⟩

end KernelWrap.Analysis
