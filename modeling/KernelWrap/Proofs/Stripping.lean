import KernelWrap.Proofs.Closed
import KernelWrap.Source.Splice

/-! Stripping piece by piece. Code that no comment begins in, literals and comments can be put one
behind the other as long as code that ends in a slash meets no slash and no star. What is left of
them without the comments is such a sequence again. -/

namespace KernelWrap.Source
open Text

/-- A piece of a source: code, a literal, or a comment by its body. -/
inductive Piece where
  | code (text : List Char)
  | literal (text : List Char)
  | block (body : List Char)
  | line (body : List Char) (ended : Bool)

namespace Piece

def source : Piece → List Char
  | code s => s
  | literal t => t
  | block b => '/' :: '*' :: b ++ ['*', '/']
  | line b ended => '/' :: '/' :: b ++ if ended then ['\n'] else []

def stripped : Piece → List Char
  | code s => s
  | literal t => t
  | block _ => []
  | line _ _ => ['\n']

/-- Code has no quotes, no apostrophes and no comment in it, and comments end where their bodies do. -/
def IsLegal : Piece → Prop
  | code s => (∀ c ∈ s, c ≠ '\x22' ∧ c ≠ '\x27') ∧ ¬ ['/', '/'] <:+: s ∧ ¬ ['/', '*'] <:+: s
  | literal t => IsLiteral t
  | block b => ¬ ['*', '/'] <:+: b
  | line b _ => '\n' ∉ b

def Meets (rest : List Char) : Piece → Prop
  | code s => s.getLast? = some '/' → rest.head? ≠ some '/' ∧ rest.head? ≠ some '*'
  | line _ false => rest = []
  | _ => True

end Piece

def piecesSource (ps : List Piece) : List Char := ps.flatMap Piece.source

def piecesStripped (ps : List Piece) : List Char := ps.flatMap Piece.stripped

def Joined : List Piece → Prop
  | [] => True
  | p :: ps => p.IsLegal ∧ p.Meets (piecesSource ps) ∧ Joined ps

section Pieces

theorem piecesSource_append (ps qs : List Piece) :
    piecesSource (ps ++ qs) = piecesSource ps ++ piecesSource qs :=
  List.flatMap_append

theorem piecesStripped_append (ps qs : List Piece) :
    piecesStripped (ps ++ qs) = piecesStripped ps ++ piecesStripped qs :=
  List.flatMap_append

def Piece.segments : Piece → List Segment
  | code s => s.map .plain
  | literal t => [.literal t]
  | block b => [.block b]
  | line b ended => [.line b ended]

theorem sourceText_map_plain (s : List Char) : sourceText (s.map .plain) = s := by
  induction s with
  | nil => rfl
  | cons c s ih => rw [List.map_cons, sourceText_cons, ih]; rfl

theorem Piece.sourceText_segments (p : Piece) : sourceText p.segments = p.source := by
  cases p with
  | code s => exact sourceText_map_plain s
  | literal t => exact List.append_nil t
  | block b => exact List.append_nil _
  | line b ended => exact List.append_nil _

theorem Piece.keptText_segments (p : Piece) : keptText p.segments = p.stripped := by
  cases p with
  | code s => exact keptText_map_plain s
  | literal t => exact List.append_nil t
  | block b => rfl
  | line b ended => rfl

theorem sourceText_pieces (ps : List Piece) :
    sourceText (ps.flatMap Piece.segments) = piecesSource ps := by
  induction ps with
  | nil => rfl
  | cons p ps ih =>
    rw [List.flatMap_cons, sourceText_append, p.sourceText_segments, ih]
    rfl

theorem keptText_pieces (ps : List Piece) :
    keptText (ps.flatMap Piece.segments) = piecesStripped ps := by
  induction ps with
  | nil => rfl
  | cons p ps ih =>
    rw [List.flatMap_cons, keptText_append, p.keptText_segments, ih]
    rfl

theorem closed_code {s : List Char} (h : (Piece.code s).IsLegal) {rest : List Char}
    (hm : (Piece.code s).Meets rest) : Closed rest (s.map .plain) := by
  induction s with
  | nil => trivial
  | cons c s ih =>
    obtain ⟨hq, hl, hb⟩ := h
    have hinfix : ∀ {w : List Char}, ¬ w <:+: c :: s → ¬ w <:+: s :=
      fun hw hi => hw (hi.trans (List.suffix_cons c s).isInfix)
    have hs : (Piece.code s).IsLegal :=
      ⟨fun d hd => hq d (List.mem_cons_of_mem c hd), hinfix hl, hinfix hb⟩
    have hlast : (Piece.code s).Meets rest := by
      intro e
      refine hm ?_
      rw [List.getLast?_cons, e]
      rfl
    refine ⟨?_, ih hs hlast⟩
    rw [sourceText_map_plain]
    obtain ⟨hquote, hapostrophe⟩ := hq c List.mem_cons_self
    by_cases hc : c = '/'
    · subst hc
      have hnext : (s ++ rest).head? ≠ some '/' ∧ (s ++ rest).head? ≠ some '*' := by
        cases s with
        | nil => exact hm rfl
        | cons d s =>
          constructor
          · rintro ⟨⟩
            exact hl ⟨[], s, rfl⟩
          · rintro ⟨⟩
            exact hb ⟨[], s, rfl⟩
      rintro (e | ⟨l, hl, z, hz⟩ | ⟨-, e | e⟩)
      · exact hquote e
      · cases hl <;> cases hz
      · exact hnext.2 e
      · exact hnext.1 e
    · exact not_opens hquote hapostrophe hc _

theorem Piece.closed {p : Piece} (h : p.IsLegal) {rest : List Char} (hm : p.Meets rest) :
    Closed rest p.segments := by
  cases p with
  | code s => exact closed_code h hm
  | literal t => exact ⟨h, trivial⟩
  | block b => exact ⟨h, trivial⟩
  | line b ended =>
    refine ⟨⟨h, ?_⟩, trivial⟩
    rintro rfl
    exact hm

theorem Joined.closed {ps : List Piece} (h : Joined ps) : Closed [] (ps.flatMap Piece.segments) := by
  induction ps with
  | nil => trivial
  | cons p ps ih =>
    obtain ⟨hp, hm, hps⟩ := h
    rw [List.flatMap_cons, closed_append, sourceText_pieces, List.append_nil]
    exact ⟨p.closed hp hm, ih hps⟩

theorem Joined.strip_eq {ps : List Piece} (h : Joined ps) :
    strip (piecesSource ps) = piecesStripped ps := by
  rw [strip, ← sourceText_pieces, segments_sourceText h.closed, keptText_pieces]

end Pieces

section Again

theorem Piece.isLegal_code {s : List Char} (hq : s.all (fun c => c != '\x22' && c != '\x27') = true)
    (hl : ¬ ['/', '/'] <:+: s) (hb : ¬ ['/', '*'] <:+: s) : (Piece.code s).IsLegal := by
  refine ⟨fun c hc => ?_, hl, hb⟩
  have hc := List.all_eq_true.1 hq c hc
  rwa [Bool.and_eq_true, bne_iff_ne, bne_iff_ne] at hc

def Piece.remains : Piece → List Piece
  | code s => [code s]
  | literal t => [literal t]
  | block _ => []
  | line _ _ => [code ['\n']]

theorem Piece.remains_source (p : Piece) :
    piecesSource p.remains = p.stripped ∧ piecesStripped p.remains = p.stripped := by
  cases p with
  | code s => exact ⟨List.append_nil s, List.append_nil s⟩
  | literal t => exact ⟨List.append_nil t, List.append_nil t⟩
  | block b => exact ⟨rfl, rfl⟩
  | line b ended => exact ⟨rfl, rfl⟩

theorem remains_pieces (ps : List Piece) :
    piecesSource (ps.flatMap Piece.remains) = piecesStripped ps ∧
      piecesStripped (ps.flatMap Piece.remains) = piecesStripped ps := by
  induction ps with
  | nil => exact ⟨rfl, rfl⟩
  | cons p ps ih =>
    obtain ⟨hs, hk⟩ := p.remains_source
    rw [List.flatMap_cons, piecesSource_append, piecesStripped_append, hs, hk, ih.1, ih.2]
    exact ⟨rfl, rfl⟩

theorem IsLiteral.ne_nil {t : List Char} (h : IsLiteral t) : t ≠ [] := by
  cases h <;> simp

theorem head?_piecesStripped {ps : List Piece} (h : Joined ps)
    (hs : (piecesSource ps).head? ≠ some '/') :
    (piecesStripped ps).head? = (piecesSource ps).head? := by
  induction ps with
  | nil => rfl
  | cons p ps ih =>
    obtain ⟨hp, -, hps⟩ := h
    cases p with
    | code s =>
      cases s with
      | nil => exact ih hps hs
      | cons c s => rfl
    | literal t =>
      obtain ⟨c, t, rfl⟩ := List.exists_cons_of_ne_nil (IsLiteral.ne_nil hp)
      rfl
    | block b => exact absurd rfl hs
    | line b ended => exact absurd rfl hs

theorem Joined.remains {ps : List Piece} (h : Joined ps) : Joined (ps.flatMap Piece.remains) := by
  induction ps with
  | nil => trivial
  | cons p ps ih =>
    obtain ⟨hp, hm, hps⟩ := h
    cases p with
    | code s =>
      refine ⟨hp, fun hlast => ?_, ih hps⟩
      obtain ⟨hslash, hstar⟩ := hm hlast
      have hhead : (piecesSource (ps.flatMap Piece.remains)).head? = (piecesSource ps).head? := by
        rw [(remains_pieces ps).1, head?_piecesStripped hps hslash]
      exact ⟨fun e => hslash (hhead.symm.trans e), fun e => hstar (hhead.symm.trans e)⟩
    | literal t => exact ⟨hp, trivial, ih hps⟩
    | block b => exact ih hps
    | line b ended =>
      have hfeed : (Piece.code ['\n']).IsLegal := Piece.isLegal_code rfl (by decide) (by decide)
      exact ⟨hfeed, fun e => absurd e (by decide), ih hps⟩

end Again

section Splicing

theorem found_of_ne_plain {g : Segment} (h : ∀ c, g ≠ .plain c) (offset : Nat) (gs : List Segment) :
    found offset (g :: gs) = ⟨offset, g⟩ :: found (offset + g.source.length) gs := by
  cases g with
  | plain c => exact absurd rfl (h c)
  | literal t => rfl
  | block b => rfl
  | line b ended => rfl

theorem spliceFrom_found (gs : List Segment) (before between text : List Char) (removed : List Cut) :
    spliceFrom (before ++ (between ++ sourceText gs)) before.length text removed
        (found (before.length + between.length) gs) =
      (text ++ (between ++ keptText gs), removed ++ cuts (text.length + between.length) gs) := by
  induction gs generalizing before between text removed with
  | nil =>
    simp only [found, spliceFrom, cuts, sourceText_nil, keptText_nil, List.append_nil,
      List.drop_left]
  | cons g gs ih =>
    by_cases hg : ∃ c, g = .plain c
    · obtain ⟨c, rfl⟩ := hg
      have hpassed := ih before (between ++ [c]) text removed
      simpa [found, cuts, Segment.source, Segment.kept, Segment.lostBreaks, Nat.add_assoc] using hpassed
    · have hnext := ih (before ++ (between ++ g.source)) [] (text ++ between ++ g.kept)
        (if 0 < g.lostBreaks then removed ++ [⟨(text ++ between).length, g.lostBreaks⟩] else removed)
      have hcopied : ((before ++ (between ++ sourceText (g :: gs))).take
          (before.length + between.length)).drop before.length = between := by
        rw [← List.append_assoc, ← List.length_append, List.take_left, List.drop_left]
      rw [found_of_ne_plain (fun c e => hg ⟨c, e⟩), spliceFrom]
      simp only [hcopied, Found.stop]
      simp only [sourceText_cons, keptText_cons, List.length_append, List.append_assoc, Nat.add_assoc,
        List.nil_append, List.length_nil, Nat.add_zero] at hnext ⊢
      rw [hnext, cuts]
      split <;> simp [Nat.add_assoc]

/-- One pass that copies what stands between literals and comments and keeps account of the line feeds
it leaves out gives what stripping segment by segment gives. -/
theorem spliceWithLines_eq (s : List Char) : spliceWithLines s = stripWithLines s := by
  have hsplice := spliceFrom_found (segments s) [] [] [] []
  have hsource : sourceText (segments s) = s := source_segments s
  simp only [List.nil_append, List.length_nil, Nat.add_zero, hsource] at hsplice
  rw [spliceWithLines, hsplice]
  rfl

end Splicing

/-- Stripping leaves the pieces of a source as they are, but for block comments, which it drops, and
line comments, of which a line feed is left; and there is nothing to strip from the result. The text
that comes with the line map is the same for every source, in whichever way it is put together. -/
theorem strip_pieces {ps : List Piece} (h : Joined ps) :
    strip (piecesSource ps) = piecesStripped ps ∧
      strip (piecesStripped ps) = piecesStripped ps ∧
      ∀ s, (stripWithLines s).1 = strip s ∧ spliceWithLines s = stripWithLines s := by
  have hagain : strip (piecesStripped ps) = piecesStripped ps := by
    obtain ⟨hsource, hstripped⟩ := remains_pieces ps
    have hremains := h.remains.strip_eq
    rwa [hsource, hstripped] at hremains
  exact ⟨h.strip_eq, hagain, fun s => ⟨rfl, spliceWithLines_eq s⟩⟩

def quotedPieces : List Piece :=
  [.code "a /".toList, .literal "\"\\\"//\"".toList, .block " \" kernel 'b ".toList,
    .literal ['\x27', '\x22', '\x27'], .line " /* c".toList true, .code "int x;".toList,
    .line " \"".toList false]

theorem quotedPieces_joined : Joined quotedPieces := by
  have hstring : IsLiteral "\"\\\"//\"".toList :=
    have hslash : '/' ≠ '\x22' ∧ '/' ≠ '\\' := by decide
    .string (.escape (.char hslash.1 hslash.2 (.char hslash.1 hslash.2 .nil)))
  have hquote : IsLiteral ['\x27', '\x22', '\x27'] := .char (by decide) (by decide)
  have hdivision : (Piece.code "a /".toList).IsLegal :=
    Piece.isLegal_code (by decide) (by decide) (by decide)
  have hblock : (Piece.block " \" kernel 'b ".toList).IsLegal := by
    unfold Piece.IsLegal; decide +kernel
  have hended : (Piece.line " /* c".toList true).IsLegal := by unfold Piece.IsLegal; decide +kernel
  have hcode : (Piece.code "int x;".toList).IsLegal :=
    Piece.isLegal_code (by decide) (by decide +kernel) (by decide +kernel)
  have htail : (Piece.line " \"".toList false).IsLegal := by unfold Piece.IsLegal; decide
  have hdivided : (Piece.code "a /".toList).Meets (piecesSource quotedPieces.tail) := by
    unfold Piece.Meets; decide
  have hmet : (Piece.code "int x;".toList).Meets "// \"".toList := by
    unfold Piece.Meets; decide
  exact ⟨hdivision, hdivided, hstring, trivial, hblock, trivial, hquote, trivial, hended, trivial,
    hcode, hmet, htail, rfl, trivial⟩

theorem strip_quotedPieces :
    Joined quotedPieces ∧
      strip "a /\"\\\"//\"/* \" kernel 'b */'\"'// /* c\nint x;// \"".toList =
        "a /\"\\\"//\"'\"'\nint x;\n".toList ∧
      strip "a /\"\\\"//\"'\"'\nint x;\n".toList = "a /\"\\\"//\"'\"'\nint x;\n".toList := by
  have hsource : piecesSource quotedPieces =
      "a /\"\\\"//\"/* \" kernel 'b */'\"'// /* c\nint x;// \"".toList := by
    decide
  have hstripped : piecesStripped quotedPieces = "a /\"\\\"//\"'\"'\nint x;\n".toList := by
    decide
  obtain ⟨honce, hagain, -⟩ := strip_pieces quotedPieces_joined
  rw [hsource, hstripped] at honce
  rw [hstripped] at hagain
  exact ⟨quotedPieces_joined, honce, hagain⟩

end KernelWrap.Source
