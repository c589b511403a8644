import KernelWrap.Proofs.Lexeme
import KernelWrap.Proofs.Names
import Mathlib.Data.List.Induction
import Mathlib.Data.List.Nodup

/-! When the names of generated parameters differ. A name that is taken gets the index of its argument
and is not looked up again, and the keywords that cannot be raw get their underscore only after that.
So two parameters have one name in two cases only: an argument before has the name with the index,
or the name with the underscore is there as well. -/

namespace KernelWrap
open Host Text

/-- No two parameters get one name: a name that is taken is not taken with its index, and no keyword
stands beside the name that it is replaced by. -/
structure Unclashing (as : List Argument) : Prop where
  indexed : ∀ before a after, as = before ++ a :: after → a.freeName ∈ parameterNames [] before →
    ∀ b ∈ before, b.freeName ≠ a.freeName ++ "_" ++ toString a.index
  escaped : ∀ s ∈ selfKeywords, s ∈ parameterNames [] as → s ++ "_" ∉ parameterNames [] as

section Indices

theorem append_cons_inj_of_notMem_right {α : Type} {c : α} {a b x y : List α} (hx : c ∉ x)
    (hy : c ∉ y) (h : a ++ c :: x = b ++ c :: y) : a = b ∧ x = y := by
  rcases List.append_eq_append_iff.1 h with ⟨z, rfl, e⟩ | ⟨z, rfl, e⟩
  · cases z with
    | nil => exact ⟨(List.append_nil a).symm, (List.cons.inj e).2⟩
    | cons d z =>
      have hm : c ∈ x := (List.cons.inj e).2 ▸ List.mem_append_right z List.mem_cons_self
      exact absurd hm hx
  · cases z with
    | nil => exact ⟨List.append_nil b, (List.cons.inj e).2.symm⟩
    | cons d z =>
      have hm : c ∈ y := (List.cons.inj e).2 ▸ List.mem_append_right z List.mem_cons_self
      exact absurd hm hy

theorem isDigit_of_mem_toString {i : Nat} {c : Char} (h : c ∈ (toString i).toList) :
    c.isDigit = true := by
  rw [Nat.toString_eq_ofList_toDigits, String.toList_ofList] at h
  exact Nat.isDigit_of_mem_toDigits (by decide) (by decide) h

theorem index_of_indexed {s t : String} {i j : Nat}
    (h : s ++ "_" ++ toString i = t ++ "_" ++ toString j) : i = j := by
  have hn : ∀ k : Nat, '_' ∉ (toString k).toList := fun k hk => by
    have hd := isDigit_of_mem_toString hk
    revert hd
    decide
  have hl : s.toList ++ '_' :: (toString i).toList = t.toList ++ '_' :: (toString j).toList := by
    have e := congrArg String.toList h
    have hu : "_".toList = ['_'] := rfl
    simpa only [String.toList_append, List.append_assoc, hu, List.singleton_append] using e
  have hd := (append_cons_inj_of_notMem_right (hn i) (hn j) hl).2
  have hv := congrArg (fun ds => Nat.ofDigitChars 10 ds 0) hd
  simpa [Nat.toString_eq_ofList_toDigits] using hv

theorem forall_split_concat {α : Type} {P : List α → α → Prop} {as : List α} {a : α} :
    (∀ before b after, as ++ [a] = before ++ b :: after → P before b) ↔
      (∀ before b after, as = before ++ b :: after → P before b) ∧ P as a := by
  constructor
  · intro h
    exact ⟨fun before b after e => h before b (after ++ [a]) (by simp [e]), h as a [] rfl⟩
  · rintro ⟨h, ha⟩ before b after e
    rcases after.eq_nil_or_concat with rfl | ⟨after, c, rfl⟩
    · obtain ⟨rfl, hb⟩ := List.append_inj' e rfl
      rw [← List.singleton_inj.1 hb]
      exact ha
    · rw [List.concat_eq_append, ← List.cons_append, ← List.append_assoc] at e
      obtain ⟨rfl, -⟩ := List.append_inj' e rfl
      exact h before b after rfl

end Indices

section Taken

variable {as : List Argument}

theorem parameterNames_append (used : List String) (as bs : List Argument) :
    parameterNames used (as ++ bs) = parameterNames used as ++
      parameterNames ((parameterNames used as).reverse ++ used) bs := by
  induction as generalizing used with
  | nil => rfl
  | cons a as ih => simp [parameterNames, ih]

theorem parameterNames_concat (as : List Argument) (a : Argument) :
    parameterNames [] (as ++ [a]) = parameterNames [] as ++
      [if a.freeName ∈ parameterNames [] as then a.freeName ++ "_" ++ toString a.index
        else a.freeName] := by
  rw [parameterNames_append]
  simp [parameterNames]

theorem freeName_mem {a : Argument} (h : a ∈ as) : a.freeName ∈ parameterNames [] as := by
  induction as using List.reverseRecOn with
  | nil => cases h
  | append_singleton as b ih =>
    rw [parameterNames_concat]
    rcases List.mem_append.1 h with h | h
    · exact List.mem_append_left _ (ih h)
    · cases List.mem_singleton.1 h
      by_cases ht : a.freeName ∈ parameterNames [] as
      · exact List.mem_append_left _ ht
      · rw [if_neg ht]
        exact List.mem_append_right _ List.mem_cons_self

theorem exists_of_mem_parameterNames {used : List String} {s : String}
    (h : s ∈ parameterNames used as) :
    ∃ a ∈ as, s = a.freeName ∨ s = a.freeName ++ "_" ++ toString a.index := by
  fun_induction parameterNames used as with
  | case1 => cases h
  | case2 used a as n ih =>
    rcases List.mem_cons.1 h with rfl | h
    · refine ⟨a, List.mem_cons_self, ?_⟩
      show (if _ then _ else _) = _ ∨ (if _ then _ else _) = _
      split
      · exact .inr rfl
      · exact .inl rfl
    · obtain ⟨b, hb, e⟩ := ih h
      exact ⟨b, List.mem_cons_of_mem a hb, e⟩

theorem forall_parameterNames {P : String → Prop}
    (hP : ∀ {s t : String}, P s → t.toList.all isIdentChar = true → P (s ++ t))
    (h : ∀ a ∈ as, P a.identifier) {s : String} (hs : s ∈ parameterNames [] as) : P s := by
  have hparameter : ∀ a ∈ as, P a.parameterName := by
    intro a ha
    unfold Argument.parameterName
    split
    · exact hP (h a ha) (by decide)
    · exact h a ha
    · exact h a ha
  have hfree : ∀ a ∈ as, P a.freeName := by
    intro a ha
    unfold Argument.freeName
    split
    · exact hP (hparameter a ha) (by decide)
    · exact hparameter a ha
  obtain ⟨a, ha, rfl | rfl⟩ := exists_of_mem_parameterNames hs
  · exact hfree a ha
  · have hdigits : (toString a.index).toList.all isIdentChar = true :=
      List.all_eq_true.2 fun c hc =>
        Declaration.isIdentChar_of_isDigit (isDigit_of_mem_toString hc)
    exact hP (hP (hfree a ha) (by decide)) hdigits

theorem indexed_mem_iff {f : String} {i : Nat} (hi : ∀ a ∈ as, a.index ≠ i) :
    f ++ "_" ++ toString i ∈ parameterNames [] as ↔
      ∃ b ∈ as, b.freeName = f ++ "_" ++ toString i := by
  constructor
  · intro h
    obtain ⟨b, hb, e | e⟩ := exists_of_mem_parameterNames h
    · exact ⟨b, hb, e.symm⟩
    · exact absurd (index_of_indexed e).symm (hi b hb)
  · rintro ⟨b, hb, e⟩
    exact e ▸ freeName_mem hb

theorem nodup_parameterNames (hi : as.map Argument.index = List.range as.length) :
    (parameterNames [] as).Nodup ↔ ∀ before a after, as = before ++ a :: after →
      a.freeName ∈ parameterNames [] before →
        ∀ b ∈ before, b.freeName ≠ a.freeName ++ "_" ++ toString a.index := by
  induction as using List.reverseRecOn with
  | nil => simp [parameterNames]
  | append_singleton as a ih =>
    rw [List.map_append, List.length_append, List.length_singleton, List.range_succ] at hi
    obtain ⟨hi, ha⟩ := List.append_inj' hi rfl
    have hlt : ∀ b ∈ as, b.index ≠ a.index := by
      intro b hb
      have hr : b.index ∈ List.range as.length := hi ▸ List.mem_map_of_mem hb
      have hl := List.mem_range.1 hr
      have he : a.index = as.length := List.singleton_inj.1 ha
      omega
    have hn : (parameterNames [] (as ++ [a])).Nodup ↔ (parameterNames [] as).Nodup ∧
        (if a.freeName ∈ parameterNames [] as then a.freeName ++ "_" ++ toString a.index
          else a.freeName) ∉ parameterNames [] as := by
      rw [parameterNames_concat, List.nodup_append_comm, List.singleton_append, List.nodup_cons,
        and_comm]
    refine hn.trans (Iff.trans ?_ forall_split_concat.symm)
    rw [← ih hi]
    refine and_congr_right fun _ => ?_
    by_cases ht : a.freeName ∈ parameterNames [] as
    · rw [if_pos ht, indexed_mem_iff hlt]
      simp [ht]
    · rw [if_neg ht]
      simp [ht]

end Taken

section Printed

def printed (s : String) : String :=
  if s ∈ selfKeywords then s ++ "_" else if s = "gen" ∨ s ∈ keywords then "r#" ++ s else s

theorem printed_cases (s : String) : (s ∈ selfKeywords ∧ printed s = s ++ "_") ∨
    (s ∉ selfKeywords ∧ printed s = "r#" ++ s) ∨ (s ∉ selfKeywords ∧ printed s = s) := by
  unfold printed
  split
  · next h => exact .inl ⟨h, rfl⟩
  · next h =>
    split
    · exact .inr (.inl ⟨h, rfl⟩)
    · exact .inr (.inr ⟨h, rfl⟩)

theorem ofDialect?_of_isName {s : String} (h : isName s.toList = true) :
    ∃ n, Name.ofDialect? s = some n ∧ n.display = printed s := by
  unfold Name.ofDialect? printed
  by_cases hs : s ∈ selfKeywords
  · rw [if_pos (List.contains_iff_mem.2 hs), if_pos hs]
    exact ⟨_, rfl, rfl⟩
  · rw [if_neg fun hc => hs (List.contains_iff_mem.1 hc), if_neg hs]
    by_cases hg : s = "gen"
    · rw [if_pos hg, if_pos (.inl hg)]
      exact ⟨_, rfl, rfl⟩
    · rw [if_neg hg, if_pos h]
      refine ⟨_, rfl, ?_⟩
      rw [Name.display]
      simp only [hg, false_or, List.contains_iff_mem]

theorem hostNames_of_isName {ss : List String} (h : ∀ s ∈ ss, isName s.toList = true) :
    ∃ ns, hostNames ss = .ok ns ∧ ns.map Name.display = ss.map printed := by
  induction ss with
  | nil => exact ⟨[], rfl, rfl⟩
  | cons s ss ih =>
    obtain ⟨hs, hss⟩ := List.forall_mem_cons.1 h
    obtain ⟨n, hn, hd⟩ := ofDialect?_of_isName hs
    obtain ⟨ns, hns, he⟩ := ih hss
    refine ⟨n :: ns, ?_, by rw [List.map_cons, List.map_cons, hd, he]⟩
    simp only [hostNames, hostName_eq_ok.2 hn, hns, bind, Except.bind, pure, Except.pure]

theorem isNameChar_of_isIdentChar {c : Char} (h : isIdentChar c = true) : isNameChar c = true := by
  rw [isNameChar, if_pos (Declaration.toNat_lt_of_isIdentChar h)]
  exact h

theorem isNameChar_of_isNameStart {c : Char} (h : isNameStart c = true) : isNameChar c = true := by
  unfold isNameStart at h
  split at h
  · exact isNameChar_of_isIdentChar (Declaration.isIdentChar_of_isIdentStart h)
  · exact (Bool.and_eq_true_iff.1 h).1

/-- A word of a head and a tail of its own characters goes on with more of them. -/
theorem headed_append {f : List Char → Bool} {start tail : Char → Bool} (hnil : f [] = false)
    (hcons : ∀ c cs, f (c :: cs) = (start c && cs.all tail)) {s t : String} (h : f s.toList = true)
    (ht : t.toList.all tail = true) : f (s ++ t).toList = true := by
  rw [String.toList_append]
  cases e : s.toList with
  | nil => rw [e, hnil] at h; cases h
  | cons c cs =>
    rw [e, hcons] at h
    obtain ⟨hc, hcs⟩ := Bool.and_eq_true_iff.1 h
    rw [List.cons_append, hcons, hc, List.all_append, hcs, ht]
    rfl

theorem isNameChar_of_mem {s : List Char} (h : isName s = true) {c : Char} (hc : c ∈ s) :
    isNameChar c = true := by
  cases s with
  | nil => cases hc
  | cons d s =>
    obtain ⟨hd, hs⟩ := Bool.and_eq_true_iff.1 h
    rcases List.mem_cons.1 hc with rfl | hc
    · exact isNameChar_of_isNameStart hd
    · exact List.all_eq_true.1 hs c hc

theorem isName_append {s t : String} (h : isName s.toList = true)
    (ht : t.toList.all isNameChar = true) : isName (s ++ t).toList = true :=
  headed_append rfl (fun _ _ => rfl) h ht

theorem isName_parameterNames {as : List Argument}
    (h : ∀ a ∈ as, isName a.identifier.toList = true) {s : String}
    (hs : s ∈ parameterNames [] as) : isName s.toList = true := by
  refine forall_parameterNames (P := fun s => isName s.toList = true) (fun hn ht => ?_) h hs
  refine isName_append hn (List.all_eq_true.2 fun c hc => ?_)
  exact isNameChar_of_isIdentChar (List.all_eq_true.1 ht c hc)

theorem hash_notMem {s : String} (h : isName s.toList = true) : '#' ∉ s.toList := by
  intro hc
  have hn := isNameChar_of_mem h hc
  revert hn
  decide

theorem hash_mem_raw (s : String) : '#' ∈ ("r#" ++ s).toList := by
  rw [String.toList_append]
  exact List.mem_append_left _ (by decide)

/-- Different names are printed alike only when one of them is a keyword and the other one what it is
replaced by. -/
theorem eq_of_printed_eq {s t : String} (hs : isName s.toList = true) (ht : isName t.toList = true)
    (h : printed s = printed t) :
    s = t ∨ (s ∈ selfKeywords ∧ t = s ++ "_") ∨ (t ∈ selfKeywords ∧ s = t ++ "_") := by
  have hu : "_".toList.all isNameChar = true := by decide
  have hash : ∀ {a b : String}, isName a.toList = true → a ≠ "r#" ++ b := fun ha e =>
    hash_notMem ha (e ▸ hash_mem_raw _)
  rcases printed_cases s with ⟨ks, es⟩ | ⟨-, es⟩ | ⟨-, es⟩ <;>
    rcases printed_cases t with ⟨kt, et⟩ | ⟨-, et⟩ | ⟨-, et⟩ <;> rw [es, et] at h
  · exact .inl ((String.append_left_inj "_").1 h)
  · exact absurd h (hash (isName_append hs hu))
  · exact .inr (.inl ⟨ks, h.symm⟩)
  · exact absurd h.symm (hash (isName_append ht hu))
  · exact .inl ((String.append_right_inj "r#").1 h)
  · exact absurd h.symm (hash ht)
  · exact .inr (.inr ⟨kt, h⟩)
  · exact absurd h (hash hs)
  · exact .inl h

theorem printed_keyword {s : String} (h : s ∈ selfKeywords) : printed (s ++ "_") = printed s := by
  have hk : ∀ s ∈ selfKeywords, printed (s ++ "_") = printed s := by decide
  exact hk s h

theorem nodup_printed {ss : List String} (h : ∀ s ∈ ss, isName s.toList = true) :
    (ss.map printed).Nodup ↔ ss.Nodup ∧ ∀ s ∈ selfKeywords, s ∈ ss → s ++ "_" ∉ ss := by
  constructor
  · intro hn
    refine ⟨hn.of_map, fun s hk hs hu => ?_⟩
    have he := List.inj_on_of_nodup_map hn hu hs (printed_keyword hk)
    have hl := congrArg String.length he
    rw [String.length_append] at hl
    exact absurd hl (by simp)
  · rintro ⟨hn, hk⟩
    refine hn.map_on fun s hs t ht e => ?_
    rcases eq_of_printed_eq (h s hs) (h t ht) e with e | ⟨hs', rfl⟩ | ⟨ht', rfl⟩
    · exact e
    · exact absurd ht (hk s hs' hs)
    · exact absurd hs (hk t ht' ht)

theorem printed_notMem {s : String} (h : s ∉ reservedNames) :
    printed s ∉ "self" :: reservedNames := by
  have hr : ∀ r ∈ "self" :: reservedNames, '#' ∉ r.toList := by decide
  have hs : ∀ s ∈ selfKeywords, s ++ "_" ∉ "self" :: reservedNames := by decide
  rcases printed_cases s with ⟨hk, e⟩ | ⟨-, e⟩ | ⟨hk, e⟩ <;> rw [e]
  · exact hs s hk
  · exact fun hm => hr _ hm (hash_mem_raw s)
  · intro hm
    rcases List.mem_cons.1 hm with rfl | hm
    · exact hk (by decide)
    · exact h hm

end Printed

/-- The parameters of a kernel get names, none of them one that the methods use themselves, and they
are printed differently just when no two of them clash. -/
theorem hostNames_distinct {as : List Argument}
    (hi : as.map Argument.index = List.range as.length)
    (hn : ∀ a ∈ as, isName a.identifier.toList = true) :
    ∃ ns, hostNames (parameterNames [] as) = .ok ns ∧ ns.length = as.length ∧
      (∀ n ∈ ns, n.display ∉ "self" :: reservedNames) ∧
      ((ns.map Name.display).Nodup ↔ Unclashing as) := by
  have hnames : ∀ s ∈ parameterNames [] as, isName s.toList = true := fun s hs =>
    isName_parameterNames hn hs
  obtain ⟨ns, hns, hd⟩ := hostNames_of_isName hnames
  have hlength : ns.length = as.length := by
    have e := congrArg List.length hd
    rwa [List.length_map, List.length_map, length_parameterNames] at e
  have hreserved : ∀ n ∈ ns, n.display ∉ "self" :: reservedNames := by
    intro n h
    have hm : n.display ∈ (parameterNames [] as).map printed := hd ▸ List.mem_map_of_mem h
    obtain ⟨s, hs, e⟩ := List.mem_map.1 hm
    exact e ▸ printed_notMem (parameterNames_notMem hs)
  refine ⟨ns, hns, hlength, hreserved, ?_⟩
  rw [hd, nodup_printed hnames, nodup_parameterNames hi]
  exact ⟨fun h => ⟨h.1, h.2⟩, fun h => ⟨h.indexed, h.escaped⟩⟩

def valueArgument (index : Nat) (identifier : String) : Argument :=
  ⟨index, identifier, "int", 0, .value, false, "i32"⟩

def localArgument (index : Nat) (identifier : String) : Argument :=
  ⟨index, identifier, "float", 0, .localSize, true, "f32"⟩

def queueArguments : List Argument :=
  [valueArgument 0 "queue", localArgument 1 "buf", valueArgument 2 "buf_length",
    valueArgument 3 "fn"]

theorem hostNames_distinct_queue : ∃ ns, hostNames (parameterNames [] queueArguments) = .ok ns ∧
    ns.map Name.display = ["queue_arg", "buf_length", "buf_length_2", "r#fn"] ∧
      Unclashing queueArguments := by
  obtain ⟨ns, hns, -, -, hd⟩ := hostNames_distinct
    (show queueArguments.map Argument.index = List.range queueArguments.length by decide)
    (by decide)
  have hf : hostNames (parameterNames [] queueArguments) = .ok [.plain "queue_arg",
      .plain "buf_length", .plain "buf_length_2", ⟨"fn", true⟩] := by decide
  rw [hf] at hns
  cases hns
  exact ⟨_, hf, rfl, hd.1 (by decide)⟩

/-- The name with the index is not looked up again, and neither is a keyword with its underscore. -/
theorem hostNames_clash :
    (["buf_length_2", "buf", "buf_length"].Nodup ∧
      hostNames (parameterNames [] [valueArgument 0 "buf_length_2", localArgument 1 "buf",
        valueArgument 2 "buf_length"]) =
          .ok [.plain "buf_length_2", .plain "buf_length", .plain "buf_length_2"]) ∧
    (["self", "self_"].Nodup ∧
      hostNames (parameterNames [] [valueArgument 0 "self", valueArgument 1 "self_"]) =
        .ok [.plain "self_", .plain "self_"]) := by
  decide

end KernelWrap
