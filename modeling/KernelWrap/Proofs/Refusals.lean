import KernelWrap.Proofs.Accepted
import KernelWrap.Proofs.Parameters
import KernelWrap.Proofs.Reporting

/-! What binding refuses. The names of an analysis are words of the source, so that each of them can
be a name of the host language; what is left to go wrong is what is read as host code. The support
path comes first, then the imports, then the host types kernel by kernel and argument by argument, and
binding fails with the first of them that cannot be read. -/

namespace KernelWrap.Declaration
open Text

section Words

theorem isIdent_of_mem_tokenize {t : Token} {s : List Char} (h : t ∈ tokenize s)
    (hk : t.kind = .word) : isIdent t.text = true := by
  obtain ⟨x, c, z, -, -, rfl⟩ := exists_of_mem_tokenizeFrom h
  have hc := isIdentStart_of_tokenKind (.inr hk)
  simp only [tokenText, hc, if_true, isIdent, Bool.true_and, List.all_eq_true]
  exact fun d hd => List.mem_takeWhile_imp hd

theorem word_mem_parameterSymbols {p : Parameter} {ps : List Parameter} (h : p ∈ ps) :
    .word p.name ∈ parameterSymbols ps := by
  have hname : ∀ q : Parameter, Symbol.word q.name ∈ q.symbols := fun q => by
    simp [Parameter.symbols]
  induction ps with
  | nil => cases h
  | cons q qs ih =>
    cases qs with
    | nil => exact List.mem_singleton.1 h ▸ hname q
    | cons r rs =>
      show Symbol.word p.name ∈ q.symbols ++ .key .comma :: parameterSymbols (r :: rs)
      rcases List.mem_cons.1 h with rfl | h
      · exact List.mem_append_left _ (hname p)
      · exact List.mem_append_right _ (List.mem_cons_of_mem _ (ih h))

theorem exists_token_of_word {ss : List Symbol} {us : List Token} (h : Reads ss us) {w : List Char}
    (hw : .word w ∈ ss) : ∃ t ∈ us, t.kind = .word ∧ t.text = w := by
  obtain ⟨t, ht, hm⟩ := forall₂_mem_right h.flip hw
  exact ⟨t, ht, hm⟩

theorem isIdent_of_readLine {text : List Char} {line : Nat} {g : KernelSignature}
    (h : readLine text line = .ok (some g)) :
    isIdent g.name.toList = true ∧ ∀ p ∈ g.parameters, isIdent p.name.toList = true := by
  obtain ⟨d, rest, hd, rfl⟩ := readLine_eq_some.1 h
  obtain ⟨void, us, hs, -, hr⟩ := derives_of_readDeclaration hd
  have hword : ∀ w, .word w ∈ d.symbols void → isIdent w = true := by
    intro w hw
    obtain ⟨t, ht, hk, rfl⟩ := exists_token_of_word hr hw
    have hmem : t ∈ fromKernel (tokenize text) := hs ▸ List.mem_append_left rest ht
    exact isIdent_of_mem_tokenize ((fromKernel_suffix _).subset hmem) hk
  constructor
  · rw [DeclaredKernel.signature, String.toList_ofList]
    exact hword d.name (by simp [DeclaredKernel.symbols])
  · intro q hq
    obtain ⟨p, hp, rfl⟩ := List.mem_map.1 hq
    rw [Parameter.signature, String.toList_ofList]
    refine hword p.name ?_
    have hne : d.parameters ≠ [] := List.ne_nil_of_mem hp
    simp [DeclaredKernel.symbols, hne, word_mem_parameterSymbols hp]

end Words

end KernelWrap.Declaration

namespace KernelWrap
open Host Text Declaration

/-- A name that the host language takes as it is written: an identifier that is no keyword, in no
edition of the language, or a raw one that does not stand for a part of the program. -/
structure Host.Name.Legal (n : Name) : Prop where
  isIdent : isIdent n.text.toList = true
  plain : n.raw = false → n.text ∉ "gen" :: keywords
  raw : n.raw = true → n.text ∉ selfKeywords

section Names

theorem isNameStart_of_isIdentStart {c : Char} (h : isIdentStart c = true) :
    isNameStart c = true := by
  rw [isNameStart, if_pos (toNat_lt_of_isIdentChar (isIdentChar_of_isIdentStart h))]
  exact h

theorem isName_of_isIdent {s : List Char} (h : isIdent s = true) : isName s = true := by
  cases s with
  | nil => cases h
  | cons c s =>
    obtain ⟨hc, hs⟩ := Bool.and_eq_true_iff.1 h
    rw [isName, isNameStart_of_isIdentStart hc, Bool.true_and, List.all_eq_true]
    exact fun d hd => isNameChar_of_isIdentChar (List.all_eq_true.1 hs d hd)

theorem isIdent_append {s t : String} (h : isIdent s.toList = true)
    (ht : t.toList.all isIdentChar = true) : isIdent (s ++ t).toList = true :=
  headed_append rfl (fun _ _ => rfl) h ht

theorem hostName_of_isIdent {s : String} (h : isIdent s.toList = true) :
    ∃ n, hostName s = .ok n ∧ n.Legal := by
  simp only [hostName_eq_ok, Name.ofDialect?]
  by_cases hs : s ∈ selfKeywords
  · rw [if_pos (List.contains_iff_mem.2 hs)]
    refine ⟨_, rfl, isIdent_append h (by decide), fun _ => ?_, nofun⟩
    have hfree : ∀ s ∈ selfKeywords, s ++ "_" ∉ "gen" :: keywords := by decide
    exact hfree s hs
  · rw [if_neg fun hc => hs (List.contains_iff_mem.1 hc)]
    by_cases hg : s = "gen"
    · rw [if_pos hg]
      exact ⟨_, rfl, h, nofun, fun _ => hs⟩
    · rw [if_neg hg, if_pos (isName_of_isIdent h)]
      refine ⟨_, rfl, h, fun hc hm => ?_, fun _ => hs⟩
      rcases List.mem_cons.1 hm with hm | hm
      · exact hg hm
      · exact Bool.noConfusion (hc.symm.trans (List.contains_iff_mem.2 hm))

theorem hostNames_of_isIdent {ss : List String} (h : ∀ s ∈ ss, isIdent s.toList = true) :
    ∃ ns, hostNames ss = .ok ns ∧ ns.length = ss.length ∧ ∀ n ∈ ns, n.Legal := by
  induction ss with
  | nil => exact ⟨[], rfl, rfl, nofun⟩
  | cons s ss ih =>
    obtain ⟨hs, hss⟩ := List.forall_mem_cons.1 h
    obtain ⟨n, hn, hl⟩ := hostName_of_isIdent hs
    obtain ⟨ns, hns, hlength, hls⟩ := ih hss
    refine ⟨n :: ns, ?_, congrArg (· + 1) hlength, List.forall_mem_cons.2 ⟨hl, hls⟩⟩
    simp only [hostNames, hn, hns, bind, Except.bind, pure, Except.pure]

theorem isIdent_parameterNames {as : List Argument}
    (h : ∀ a ∈ as, isIdent a.identifier.toList = true) {s : String}
    (hs : s ∈ parameterNames [] as) : isIdent s.toList = true :=
  forall_parameterNames (P := fun s => isIdent s.toList = true) isIdent_append h hs

theorem isIdent_of_mem_kernels {text : List Char} {k : Kernel}
    (h : k ∈ (Analysis.ofText text).kernels) :
    isIdent k.name.toList = true ∧ ∀ a ∈ k.arguments, isIdent a.identifier.toList = true := by
  obtain ⟨g, hg, rfl⟩ := List.mem_map.1 h
  obtain ⟨i, l, -, hr⟩ := (mem_matchLines 1 _).1 g hg
  obtain ⟨hname, hparameters⟩ := isIdent_of_readLine hr
  refine ⟨hname, fun a ha => ?_⟩
  obtain ⟨i, hi, rfl⟩ := List.mem_mapIdx.1 ha
  exact hparameters _ (List.getElem_mem hi)

end Names

/-- Something that is read as host code: the support path, an import, or the host type of an argument
of a kernel. -/
inductive Demand where
  | support (path : String)
  | import (path : String)
  | type (kernel : String) (argument : Argument)
  deriving DecidableEq

namespace Demand

def accepted (r : Reader) : Demand → Bool
  | support p => (r.support? p).isSome
  | .import p => (r.imported? p).isSome
  | type _ a => (r.type? a.hostType).isSome

def error (source : Path) : Demand → BindError
  | support p => .support p
  | .import p => .import p source
  | type k a => .kernel k (.type a.hostType a.identifier k)

def ofKernel (k : Kernel) : List Demand := k.arguments.map (.type k.name)

def ofAnalysis (path : String) (a : Analysis) : List Demand :=
  .support path :: a.imports.map .import ++ a.kernels.flatMap ofKernel

def refused? (r : Reader) (ds : List Demand) : Option Demand := ds.find? fun d => !d.accepted r

end Demand

def refusal {ε α : Type} : Except ε α → Option ε
  | .ok _ => none
  | .error e => some e

section Order
open Demand

variable (r : Reader)

theorem refusal_bind {ε α β : Type} {x : Except ε α} {f : α → Except ε β} {o : Option ε}
    (h : ∀ a, x = .ok a → refusal (f a) = o) : refusal (x >>= f) = (refusal x).or o := by
  cases x with
  | error e => rfl
  | ok a => exact h a rfl

theorem refusal_map {ε α β : Type} (x : Except ε α) (g : α → β) :
    refusal (x >>= fun a => .ok (g a)) = refusal x := by
  cases x <;> rfl

theorem refused?_append (ds es : List Demand) :
    refused? r (ds ++ es) = (refused? r ds).or (refused? r es) := List.find?_append

theorem refused?_cons (d : Demand) (ds : List Demand) :
    refused? r (d :: ds) = if d.accepted r then refused? r ds else some d := by
  rw [refused?, List.find?_cons]
  cases d.accepted r <;> rfl

theorem refusal_readSupport (path : String) (source : Path) :
    refusal (readSupport path r) = (refused? r [.support path]).map (error source) := by
  rw [refused?_cons, accepted, readSupport]
  cases r.support? path <;> rfl

theorem refusal_readImports (source : Path) (is : List String) :
    refusal (readImports r source is) = (refused? r (is.map .import)).map (error source) := by
  induction is with
  | nil => rfl
  | cons i is ih =>
    rw [List.map_cons, refused?_cons, accepted, readImports]
    cases r.imported? i with
    | none => rfl
    | some u => exact (refusal_map (readImports r source is) (u :: ·)).trans ih

theorem refusal_readSlots (k : String) {as : List Argument} {ns : List Name}
    (h : ns.length = as.length) (source : Path) :
    (refusal (readSlots r k (as.zip ns))).map (.kernel k) =
      (refused? r (as.map (.type k))).map (error source) := by
  induction as generalizing ns with
  | nil => rfl
  | cons a as ih =>
    obtain ⟨n, ns, rfl⟩ := List.exists_cons_of_length_eq_add_one h
    rw [List.map_cons, refused?_cons, accepted, List.zip_cons_cons, readSlots, Slot.ofArgument]
    cases r.type? a.hostType with
    | none => rfl
    | some t =>
      have hrest := refusal_map (readSlots r k (as.zip ns)) (Slot.mk a.index a.passing n t :: ·)
      rw [if_pos Option.isSome_some, ← ih (Nat.succ.inj h), ← hrest]
      rfl

theorem refusal_ofKernel {k : Kernel} (hk : isIdent k.name.toList = true)
    (ha : ∀ a ∈ k.arguments, isIdent a.identifier.toList = true) (source : Path) :
    (refusal (Wrapper.ofKernel k r)).map (.kernel k.name) =
      (refused? r (Demand.ofKernel k)).map (error source) := by
  obtain ⟨n, hn, -⟩ := hostName_of_isIdent hk
  obtain ⟨ns, hns, hlength, -⟩ := hostNames_of_isIdent fun _ hs => isIdent_parameterNames ha hs
  rw [length_parameterNames] at hlength
  have hrest := refusal_map (readSlots r k.name (k.arguments.zip ns)) (Wrapper.mk n k.name k.line)
  rw [Demand.ofKernel, ← refusal_readSlots r k.name hlength source, ← hrest, Wrapper.ofKernel, hn, hns]
  rfl

theorem refusal_readWrappers {ks : List Kernel} (hk : ∀ k ∈ ks, isIdent k.name.toList = true)
    (ha : ∀ k ∈ ks, ∀ a ∈ k.arguments, isIdent a.identifier.toList = true) (source : Path) :
    refusal (readWrappers r ks) = (refused? r (ks.flatMap Demand.ofKernel)).map (error source) := by
  induction ks with
  | nil => rfl
  | cons k ks ih =>
    obtain ⟨hname, hnames⟩ := List.forall_mem_cons.1 hk
    obtain ⟨hargument, harguments⟩ := List.forall_mem_cons.1 ha
    have hfirst := refusal_ofKernel r hname hargument source
    rw [List.flatMap_cons, refused?_append, Option.map_or, ← hfirst, ← ih hnames harguments,
      readWrappers]
    cases Wrapper.ofKernel k r with
    | error e => rfl
    | ok w => exact refusal_map (readWrappers r ks) (w :: ·)

theorem refusal_ofAnalysis (path : String) (u : SourceUnit) (text : List Char) :
    refusal (Binding.ofAnalysis path u (Analysis.ofText text) r) =
      (refused? r (Demand.ofAnalysis path (Analysis.ofText text))).map (error u.path) := by
  have hnames : ∀ k ∈ (Analysis.ofText text).kernels, isIdent k.name.toList = true := fun k hk =>
    (isIdent_of_mem_kernels hk).1
  have hwrappers := refusal_readWrappers r hnames (fun k hk => (isIdent_of_mem_kernels hk).2) u.path
  rw [Demand.ofAnalysis, refused?_append, ← List.singleton_append, refused?_append, Option.map_or,
    Option.map_or, ← refusal_readSupport, ← refusal_readImports, ← hwrappers, Option.or_assoc]
  refine refusal_bind fun support _ => refusal_bind fun imports _ => ?_
  exact refusal_map (readWrappers r (Analysis.ofText text).kernels)
    (Binding.mk support imports · u)

theorem forall_mem_ofAnalysis {path : String} {a : Analysis} {P : Demand → Prop} :
    (∀ d ∈ Demand.ofAnalysis path a, P d) ↔ P (.support path) ∧ (∀ i ∈ a.imports, P (.import i)) ∧
      ∀ k ∈ a.kernels, ∀ x ∈ k.arguments, P (.type k.name x) := by
  simp only [Demand.ofAnalysis, Demand.ofKernel, List.forall_mem_cons, List.forall_mem_append,
    List.forall_mem_map, List.mem_flatMap, List.cons_append]
  refine and_congr_right fun _ => and_congr_right fun _ => ?_
  constructor
  · intro h k hk x hx
    exact h _ ⟨k, hk, List.mem_map_of_mem hx⟩
  · rintro h d ⟨k, hk, hd⟩
    obtain ⟨x, hx, rfl⟩ := List.mem_map.1 hd
    exact h k hk x hx

theorem refused?_eq_some_iff {ds : List Demand} {d : Demand} : refused? r ds = some d ↔
    ∃ before after, ds = before ++ d :: after ∧ (∀ x ∈ before, x.accepted r = true) ∧
      d.accepted r = false := by
  simp only [refused?, List.find?_eq_some_iff_append, Bool.not_eq_true', Bool.not_not]
  constructor
  · rintro ⟨hd, before, after, hs, hb⟩
    exact ⟨before, after, hs, hb, hd⟩
  · rintro ⟨before, after, hs, hb, hd⟩
    exact ⟨hd, before, after, hs, hb⟩

theorem refused?_eq_none_iff {ds : List Demand} :
    refused? r ds = none ↔ ∀ d ∈ ds, d.accepted r = true := by
  simp only [refused?, List.find?_eq_none, Bool.not_eq_true', Bool.not_eq_false]

theorem refusal_eq_some_iff {ε α : Type} {x : Except ε α} {e : ε} :
    refusal x = some e ↔ x = .error e := by
  cases x <;> simp [refusal]

theorem refusal_eq_none_iff {ε α : Type} {x : Except ε α} : refusal x = none ↔ ∃ a, x = .ok a := by
  cases x <;> simp [refusal]

/-- Binding fails just with the error of the first demand that is not accepted. -/
theorem ofAnalysis_eq_error_iff {path : String} {u : SourceUnit} {text : List Char} {e : BindError} :
    Binding.ofAnalysis path u (Analysis.ofText text) r = .error e ↔
      ∃ d, refused? r (Demand.ofAnalysis path (Analysis.ofText text)) = some d ∧
        error u.path d = e := by
  rw [← refusal_eq_some_iff, refusal_ofAnalysis, Option.map_eq_some_iff]

theorem exists_ofAnalysis_iff {path : String} {u : SourceUnit} {text : List Char} :
    (∃ b, Binding.ofAnalysis path u (Analysis.ofText text) r = .ok b) ↔
      ∀ d ∈ Demand.ofAnalysis path (Analysis.ofText text), d.accepted r = true := by
  rw [← refusal_eq_none_iff, refusal_ofAnalysis, Option.map_eq_none_iff, refused?_eq_none_iff]

theorem hostNames_of_mem_kernels {text : List Char} {k : Kernel}
    (hk : k ∈ (Analysis.ofText text).kernels) : (∃ n, hostName k.name = .ok n ∧ n.Legal) ∧
      ∃ ns, hostNames (parameterNames [] k.arguments) = .ok ns ∧ ns.length = k.arguments.length ∧
        ∀ n ∈ ns, n.Legal := by
  obtain ⟨hname, harguments⟩ := isIdent_of_mem_kernels hk
  obtain ⟨ns, hns, hlength, hlegal⟩ := hostNames_of_isIdent fun _ hs =>
    isIdent_parameterNames harguments hs
  rw [length_parameterNames] at hlength
  exact ⟨hostName_of_isIdent hname, ns, hns, hlength, hlegal⟩

theorem isFatal_error (d : Demand) (source : Path) : (d.error source).isFatal = false := by
  cases d <;> rfl

end Order

/-- Binding the analysis of a source, whatever the host language accepts. The kernel and the parameters
of its arguments get legal names of the host language, so that no text is ever met that is no name.
Binding succeeds just when the support path, every import and the host type of every argument of every
kernel are accepted, and otherwise it fails with the first of them that is not, in this order. -/
theorem Binding.ofAnalysis_refuses (r : Reader) (path : String) (u : SourceUnit) (text : List Char) :
    (∀ k ∈ (Analysis.ofText text).kernels, (∃ n, hostName k.name = .ok n ∧ n.Legal) ∧
      ∃ ns, hostNames (parameterNames [] k.arguments) = .ok ns ∧ ns.length = k.arguments.length ∧
        ∀ n ∈ ns, n.Legal) ∧
    (∀ e, Binding.ofAnalysis path u (Analysis.ofText text) r = .error e → e.isFatal = false) ∧
    ((∃ b, Binding.ofAnalysis path u (Analysis.ofText text) r = .ok b) ↔
      (r.support? path).isSome = true ∧
      (∀ i ∈ (Analysis.ofText text).imports, (r.imported? i).isSome = true) ∧
      ∀ k ∈ (Analysis.ofText text).kernels, ∀ a ∈ k.arguments,
        (r.type? a.hostType).isSome = true) ∧
    ∀ e, Binding.ofAnalysis path u (Analysis.ofText text) r = .error e ↔
      ∃ before d after, Demand.ofAnalysis path (Analysis.ofText text) = before ++ d :: after ∧
        (∀ x ∈ before, x.accepted r = true) ∧ d.accepted r = false ∧ e = d.error u.path := by
  refine ⟨fun k hk => hostNames_of_mem_kernels hk, fun e he => ?_, ?_, fun e => ?_⟩
  · obtain ⟨d, -, rfl⟩ := (ofAnalysis_eq_error_iff r).1 he
    exact isFatal_error d u.path
  · rw [exists_ofAnalysis_iff]
    exact forall_mem_ofAnalysis
  · rw [ofAnalysis_eq_error_iff]
    simp only [refused?_eq_some_iff]
    constructor
    · rintro ⟨d, ⟨before, after, hs, hb, hd⟩, rfl⟩
      exact ⟨before, d, after, hs, hb, hd, rfl⟩
    · rintro ⟨before, d, after, hs, hb, hd, rfl⟩
      exact ⟨d, ⟨before, after, hs, hb, hd⟩, rfl⟩

-- The second kernel has two types that are keywords, and the first of them is reported.
example (u : SourceUnit) :
    refusal (Binding.ofAnalysis "crate" u
      (Analysis.ofText "kernel void f(int gen)\nkernel void g(int a, fn self, impl b)".toList)) =
        some (.kernel "g" (.type "fn" "self" "g")) := by
  have hrefused : Demand.refused? pathReader (Demand.ofAnalysis "crate"
      (Analysis.ofText "kernel void f(int gen)\nkernel void g(int a, fn self, impl b)".toList)) =
        some (.type "g" ⟨1, "self", "fn", 0, .value, false, "fn"⟩) := by decide +kernel
  rw [refusal_ofAnalysis, hrefused]
  rfl

end KernelWrap
