import KernelWrap.Generator
import Mathlib.Algebra.Group.Nat.Defs
import Mathlib.Data.List.Infix

/-! What a digest stands for. The parts of a digest are framed by their lengths, so that the bytes
that are hashed tell the parts; and the parts tell everything of the settings and of the unit that
an artifact is rendered from. -/

namespace KernelWrap

namespace Digest

theorem toList_loop (bs : ByteArray) (i : Nat) (r : List UInt8) :
    ByteArray.toList.loop bs i r = r.reverse ++ bs.data.toList.drop i := by
  fun_induction ByteArray.toList.loop bs i r with
  | case1 i r h ih =>
    rw [ih, List.reverse_cons, List.append_assoc, List.drop_eq_getElem_cons (i := i) h]
    simp [ByteArray.get!, h]
  | case2 i r h =>
    rw [List.drop_eq_nil_of_le (Nat.le_of_not_lt h), List.append_nil]

theorem bytesOf_inj {s t : String} : bytesOf s = bytesOf t ↔ s = t := by
  refine ⟨fun h => String.toByteArray_inj.1 (ByteArray.ext (Array.toList_inj.1 ?_)), congrArg bytesOf⟩
  have hd : ∀ b : ByteArray, b.toList = b.data.toList := fun b => toList_loop b 0 []
  rw [← hd, ← hd]
  exact h

theorem littleEndian_inj {count m n : Nat} (hm : m < 256 ^ count) (hn : n < 256 ^ count)
    (h : littleEndian count m = littleEndian count n) : m = n := by
  induction count generalizing m n with
  | zero => omega
  | succ count ih =>
    rw [littleEndian, littleEndian, List.cons.injEq] at h
    have hlow : m % 256 = n % 256 := congrArg UInt8.toNat h.1
    have hhigh : m / 256 = n / 256 := ih (by omega) (by omega) h.2
    omega

theorem length_littleEndian (count n : Nat) : (littleEndian count n).length = count := by
  induction count generalizing n with
  | zero => rfl
  | succ count ih => rw [littleEndian, List.length_cons, ih]

theorem framePart_append_inj {p q x y : List UInt8} (hp : p.length < 2 ^ 64) (hq : q.length < 2 ^ 64)
    (h : framePart p ++ x = framePart q ++ y) : p = q ∧ x = y := by
  rw [framePart, framePart, List.append_assoc, List.append_assoc] at h
  obtain ⟨hl, hr⟩ := List.append_inj h (by rw [length_littleEndian, length_littleEndian])
  exact List.append_inj hr (littleEndian_inj hp hq hl)

theorem framePart_append_ne_nil (p x : List UInt8) : framePart p ++ x ≠ [] := fun h => by
  have hl := congrArg List.length h
  simp [framePart, length_littleEndian] at hl

section Streams

variable {ps qs : List (List UInt8)} (hp : ∀ p ∈ ps, p.length < 2 ^ 64)
  (hq : ∀ q ∈ qs, q.length < 2 ^ 64)
include hp hq

theorem prefix_of_framed (h : ps.flatMap framePart <+: qs.flatMap framePart) : ps <+: qs := by
  -- Both begin with a part that tells where it ends, so the rests begin alike again.
  induction ps generalizing qs with
  | nil => exact List.nil_prefix
  | cons p ps ih =>
    obtain ⟨hphead, hptail⟩ := List.forall_mem_cons.1 hp
    obtain ⟨rest, hrest⟩ := h
    rw [List.flatMap_cons, List.append_assoc] at hrest
    cases qs with
    | nil => exact absurd hrest (framePart_append_ne_nil p _)
    | cons q qs =>
      obtain ⟨hqhead, hqtail⟩ := List.forall_mem_cons.1 hq
      rw [List.flatMap_cons] at hrest
      obtain ⟨rfl, htail⟩ := framePart_append_inj hphead hqhead hrest
      exact (List.prefix_cons_inj p).2 (ih hptail hqtail ⟨rest, htail⟩)

theorem frame_prefix_iff : frame ps <+: frame qs ↔ ps <+: qs := by
  rw [frame, frame, List.prefix_append_right_inj]
  exact ⟨prefix_of_framed hp hq, fun h => h.flatMap framePart⟩

theorem frame_inj (h : frame ps = frame qs) : ps = qs := by
  have hpq : ps <+: qs := (frame_prefix_iff hp hq).1 (h ▸ List.prefix_rfl)
  have hqp : qs <+: ps := (frame_prefix_iff hq hp).1 (h ▸ List.prefix_rfl)
  exact hpq.eq_of_length_le hqp.length_le

end Streams

/-- The bytes that are hashed are those of one list of parts only, whatever bytes the parts hold, as
long as the length of each part fits into the eight bytes before it. They begin with the bytes of
another list exactly if their list begins with that one. -/
theorem frame_unambiguous {ps qs : List (List UInt8)} (hp : ∀ p ∈ ps, p.length < 2 ^ 64)
    (hq : ∀ q ∈ qs, q.length < 2 ^ 64) :
    (frame ps = frame qs ↔ ps = qs) ∧ (frame ps <+: frame qs ↔ ps <+: qs) :=
  ⟨⟨frame_inj hp hq, congrArg frame⟩, frame_prefix_iff hp hq⟩

theorem frame_unambiguous_shifted :
    frame [[97, 98], [99]] ≠ frame [[97], [98, 99]] ∧
      frame [[], [0, 0, 0, 0, 0, 0, 0, 0]] ≠ frame [[0, 0, 0, 0, 0, 0, 0, 0], []] ∧
      frame [[97]] <+: frame [[97], [98]] ∧ ¬frame [[97]] <+: frame [[97, 98]] := by
  have hborder := @frame_unambiguous [[97, 98], [99]] [[97], [98, 99]] (by decide) (by decide)
  have hlength := @frame_unambiguous [[], [0, 0, 0, 0, 0, 0, 0, 0]] [[0, 0, 0, 0, 0, 0, 0, 0], []]
    (by decide) (by decide)
  have hlist := @frame_unambiguous [[97]] [[97], [98]] (by decide) (by decide)
  have hpart := @frame_unambiguous [[97]] [[97, 98]] (by decide) (by decide)
  exact ⟨hborder.1.not.2 (by decide), hlength.1.not.2 (by decide), hlist.2.2 (by decide),
    hpart.2.not.2 (by decide)⟩

end Digest

namespace Json

def special : List Char := '\x22' :: '\\' :: (List.range 32).map Char.ofNat

theorem escaped_of_notMem {c : Char} (h : c ∉ special) : escaped c = [c] := by
  have hcode : ¬c.toNat < 32 := fun hc => h (List.mem_cons_of_mem _ (List.mem_cons_of_mem _
    (List.mem_map.2 ⟨c.toNat, List.mem_range.2 hc, Char.ofNat_toNat c⟩)))
  have hne : ∀ d ∈ special, c ≠ d := fun d hd e => h (e ▸ hd)
  rw [escaped, if_neg (hne _ (by decide)), if_neg (hne _ (by decide)), if_neg (hne _ (by decide)),
    if_neg (hne _ (by decide)), if_neg (hne _ (by decide)), if_neg (hne _ (by decide)),
    if_neg (hne _ (by decide)), if_neg hcode]

theorem head?_escaped {c : Char} (h : c ∈ special) : (escaped c).head? = some '\\' := by
  have hall : (special.all fun c => (escaped c).head? == some '\\') = true := by decide
  exact beq_iff_eq.1 (List.all_eq_true.1 hall c h)

theorem eq_of_escaped_starts {c d : Char} (hc : c ∈ special) (hd : d ∈ special)
    (h : escaped c <+: escaped d) : c = d := by
  have hall : (special.all fun c => special.all fun d =>
      !(escaped c).isPrefixOf (escaped d) || c == d) = true := by decide +kernel
  have hcd := List.all_eq_true.1 (List.all_eq_true.1 hall c hc) d hd
  rw [List.isPrefixOf_iff_prefix.2 h, Bool.not_true, Bool.false_or] at hcd
  exact beq_iff_eq.1 hcd

theorem escaped_append_inj {c d : Char} {x y : List Char} (h : escaped c ++ x = escaped d ++ y) :
    c = d ∧ x = y := by
  have hhead := congrArg List.head? h
  by_cases hc : c ∈ special <;> by_cases hd : d ∈ special
  · have hcd : c = d := by
      rcases List.prefix_or_prefix_of_prefix ⟨x, h⟩ ⟨y, rfl⟩ with hp | hp
      · exact eq_of_escaped_starts hc hd hp
      · exact (eq_of_escaped_starts hd hc hp).symm
    exact ⟨hcd, List.append_cancel_left (hcd ▸ h)⟩
  · rw [List.head?_append, head?_escaped hc, escaped_of_notMem hd] at hhead
    exact absurd (Option.some.inj hhead ▸ by decide) hd
  · rw [List.head?_append, escaped_of_notMem hc, List.head?_append, head?_escaped hd] at hhead
    exact absurd (Option.some.inj hhead ▸ by decide) hc
  · rw [escaped_of_notMem hc, escaped_of_notMem hd] at h
    exact List.cons.inj h

theorem flatMap_escaped_inj {a b x y : List Char}
    (h : a.flatMap escaped ++ '\x22' :: x = b.flatMap escaped ++ '\x22' :: y) : a = b ∧ x = y := by
  have hquote : ∀ (c : Char) (z w : List Char), '\x22' :: z ≠ escaped c ++ w := fun c z w e => by
    have hhead := congrArg List.head? e
    rw [List.head?_append] at hhead
    by_cases hc : c ∈ special
    · rw [head?_escaped hc] at hhead
      exact absurd (Option.some.inj hhead) (by decide)
    · rw [escaped_of_notMem hc] at hhead
      exact hc (Option.some.inj hhead ▸ by decide)
  induction a generalizing b with
  | nil =>
    cases b with
    | nil => exact ⟨rfl, (List.cons.inj h).2⟩
    | cons d b =>
      rw [List.flatMap_cons, List.append_assoc] at h
      exact absurd h (hquote d x _)
  | cons c a ih =>
    cases b with
    | nil =>
      rw [List.flatMap_cons, List.append_assoc] at h
      exact absurd h.symm (hquote c y _)
    | cons d b =>
      rw [List.flatMap_cons, List.flatMap_cons, List.append_assoc, List.append_assoc] at h
      obtain ⟨rfl, ht⟩ := escaped_append_inj h
      obtain ⟨rfl, hxy⟩ := ih ht
      exact ⟨rfl, hxy⟩

theorem literal_append_inj {s t : String} {x y : List Char}
    (h : (literal s).toList ++ x = (literal t).toList ++ y) : s = t ∧ x = y := by
  have he : ∀ (s : String) (x : List Char),
      (literal s).toList ++ x = '\x22' :: (s.toList.flatMap escaped ++ '\x22' :: x) := fun s x => by
    rw [literal, String.toList_ofList, List.cons_append, List.cons_append, List.append_assoc]
    rfl
  rw [he, he, List.cons.injEq] at h
  obtain ⟨hs, hx⟩ := flatMap_escaped_inj h.2
  exact ⟨String.toList_inj.1 hs, hx⟩

end Json

namespace Settings

theorem exists_compact_eq (s : Settings) : ∃ rest, s.json.compact.toList =
    "\x7b".toList ++ ((Json.literal "strict").toList ++ (":".toList ++
      ((if s.strict then "true" else "false").toList ++ (",".toList ++
        ((Json.literal "runtime_path").toList ++ (":".toList ++
          ((Json.literal s.support).toList ++ rest))))))) := by
  simp only [json, Json.compact, Json.compactFields, Json.brackets, String.intercalate_cons_cons,
    String.toList_append, List.append_assoc]
  exact ⟨_, rfl⟩

theorem eq_of_compact_eq {s t : Settings} (h : s.json.compact = t.json.compact) :
    s.strict = t.strict ∧ s.support = t.support := by
  obtain ⟨x, hs⟩ := exists_compact_eq s
  obtain ⟨y, ht⟩ := exists_compact_eq t
  have e := hs.symm.trans ((congrArg String.toList h).trans ht)
  replace e := List.append_cancel_left (List.append_cancel_left (List.append_cancel_left e))
  have hstrict : s.strict = t.strict := by
    have hhead := congrArg List.head? e
    cases hs : s.strict <;> cases ht : t.strict
    · rfl
    · rw [hs, ht] at hhead
      exact absurd (Option.some.inj hhead) (by decide)
    · rw [hs, ht] at hhead
      exact absurd (Option.some.inj hhead) (by decide)
    · rfl
  rw [hstrict] at e
  replace e := List.append_cancel_left (List.append_cancel_left (List.append_cancel_left
    (List.append_cancel_left e)))
  exact ⟨hstrict, (Json.literal_append_inj e).1⟩

end Settings

structure SourceUnit.Alike (u v : SourceUnit) : Prop where
  path : u.path = v.path
  resolved : u.resolved = v.resolved
  text : u.text = v.text
  embedded : u.embedded = v.embedded
  assetText : u.assetText = v.assetText

section Rendering

variable {u v : SourceUnit} (h : u.Alike v)
include h

theorem Wrapper.items_alike (w : Wrapper) (s : Support) : w.items s u = w.items s v := by
  have hs : sourceOf s u = sourceOf s v := by
    rw [sourceOf, sourceOf, h.embedded, h.text, h.assetText]
  rw [items, items, description, description, kernelSource, kernelSource, hs, h.path, h.resolved]

theorem Binding.artifact_alike (support : Support) (imports : List Host.Import) (ws : List Wrapper) :
    (⟨support, imports, ws, u⟩ : Binding).artifact = (⟨support, imports, ws, v⟩ : Binding).artifact := by
  have hi : (⟨support, imports, ws, u⟩ : Binding).items = (⟨support, imports, ws, v⟩ : Binding).items := by
    simp only [items, Wrapper.items_alike h]
  have hp : (⟨support, imports, ws, u⟩ : Binding).unit.path =
      (⟨support, imports, ws, v⟩ : Binding).unit.path := h.path
  rw [artifact, artifact, hi, hp]
  rfl

theorem renderUnit_alike (path : String) (a : Analysis) (r : Host.Reader) :
    renderUnit path u a r = renderUnit path v a r := by
  rw [renderUnit, renderUnit, Binding.ofAnalysis, Binding.ofAnalysis, h.path]
  cases readSupport path r with
  | error _ => rfl
  | ok support =>
    cases readImports r v.path a.imports with
    | error _ => rfl
    | ok imports =>
      cases readWrappers r a.kernels with
      | error _ => rfl
      | ok ws => exact Binding.artifact_alike h support imports ws

end Rendering

namespace Generator

def rendering? (g : Generator) (u : SourceUnit) : Option String :=
  match (Analysis.ofText u.text.toList).check g.settings.strict with
  | .error _ => none
  | .ok a => (renderUnit g.settings.support u a).toOption

def parts (g : Generator) (u : SourceUnit) : List (List UInt8) :=
  [g.settings.json.compact, u.path.display, u.resolved.display, u.assetText,
    if u.embedded then "embed" else "path", u.text].map Digest.bytesOf

theorem digest_eq (g : Generator) (u : SourceUnit) : g.digest u = Digest.ofParts (g.parts u) := rfl

theorem rendering?_eq_of_parts {g k : Generator} {u v : SourceUnit} (h : g.parts u = k.parts v) :
    g.rendering? u = k.rendering? v := by
  simp only [parts, List.map_cons, List.cons.injEq, Digest.bytesOf_inj] at h
  obtain ⟨hset, hpath, hres, hasset, hemb, htext, -⟩ := h
  obtain ⟨hstrict, hsupport⟩ := Settings.eq_of_compact_eq hset
  have hp : ∀ {p q : Path}, p.display = q.display → p = q := fun {p q} e =>
    congrArg Path.mk (String.ofList_injective e)
  have hflag : u.embedded = v.embedded := by
    cases hu : u.embedded <;> cases hv : v.embedded
    · rfl
    · rw [hu, hv] at hemb
      exact absurd hemb (by decide)
    · rw [hu, hv] at hemb
      exact absurd hemb (by decide)
    · rfl
  have halike : u.Alike v := ⟨hp hpath, hp hres, htext, hflag, hasset⟩
  rw [rendering?, rendering?, hstrict, hsupport, htext]
  simp only [renderUnit_alike halike]

end Generator

namespace Digest

/-- Lists of parts that are short enough to be framed and of which no two have the same digest. -/
structure Distinct (met : List (List UInt8) → Prop) : Prop where
  short : ∀ ps, met ps → ∀ p ∈ ps, p.length < 2 ^ 64
  unmistaken : ∀ ps qs, met ps → met qs →
    Blake3.digest (frame ps) = Blake3.digest (frame qs) → frame ps = frame qs

theorem Distinct.parts_eq {met : List (List UInt8) → Prop} (h : Distinct met)
    {ps qs : List (List UInt8)} (hp : met ps) (hq : met qs) (e : ofParts ps = ofParts qs) : ps = qs :=
  frame_inj (h.short ps hp) (h.short qs hq) (h.unmistaken ps qs hp hq e)

end Digest

end KernelWrap
