import KernelWrap.HostType

/-! Vector widths. A type name is split where a numeric base type and a width meet, if it has that
form, and is taken whole otherwise; so nothing of it is lost, and the host name of the two parts is
that of the name itself. The bases that are split off a width are among those whose vectors the
support library defines. -/

namespace KernelWrap.Declaration
open Text

section Splitting

theorem beforeSuffix?_eq_some {suffix name base : String} :
    beforeSuffix? suffix name = some base ↔ name = base ++ suffix := by
  rw [beforeSuffix?, Option.map_eq_some_iff]
  constructor
  · rintro ⟨s, hs, rfl⟩
    have hname := congrArg List.reverse (append_of_after? hs)
    rw [List.reverse_reverse, List.reverse_append, List.reverse_reverse] at hname
    rw [← String.toList_inj, String.toList_append, String.toList_ofList, hname]
  · rintro rfl
    refine ⟨base.toList.reverse, ?_, by rw [List.reverse_reverse, String.ofList_toList]⟩
    rw [String.toList_append, List.reverse_append]
    exact after?_append _ _

theorem ne_zero_of_mem_vectorWidths : ∀ w ∈ vectorWidths, w ≠ 0 := by decide

theorem mem_vectorForms {f : String × Nat} :
    f ∈ vectorForms ↔ f.1 ∈ numericBases ∧ f.2 ∈ vectorWidths := by
  obtain ⟨b, w⟩ := f
  simp only [vectorForms, List.mem_flatMap, List.mem_map, Prod.mk.injEq]
  constructor
  · rintro ⟨b', hb, w', hw, rfl, rfl⟩
    exact ⟨hb, hw⟩
  · rintro ⟨hb, hw⟩
    exact ⟨b, hb, w, hw, rfl, rfl⟩

theorem vectorName_of_mem {f : String × Nat} (h : f ∈ vectorForms) :
    vectorName f.1 f.2 = f.1 ++ toString f.2 :=
  if_neg (ne_zero_of_mem_vectorWidths _ (mem_vectorForms.1 h).2)

theorem split_eq_some {t : String} {w : Nat} {f : String × Nat} :
    (((beforeSuffix? (toString w) t).filter fun b => numericBases.contains b).map
      fun b => (b, w)) = some f ↔ f.2 = w ∧ f.1 ∈ numericBases ∧ t = f.1 ++ toString w := by
  rw [Option.map_eq_some_iff]
  constructor
  · rintro ⟨b, hb, rfl⟩
    obtain ⟨hsuffix, hbase⟩ := Option.filter_eq_some_iff.1 hb
    exact ⟨rfl, List.contains_iff_mem.1 hbase, beforeSuffix?_eq_some.1 hsuffix⟩
  · rintro ⟨rfl, hbase, ht⟩
    refine ⟨f.1, Option.filter_eq_some_iff.2 ⟨?_, List.contains_iff_mem.2 hbase⟩, rfl⟩
    exact beforeSuffix?_eq_some.2 ht

theorem splitWidth_cases (t : String) :
    (splitWidth t ∈ vectorForms ∧ vectorName (splitWidth t).1 (splitWidth t).2 = t) ∨
      (splitWidth t = (t, 0) ∧ ∀ f ∈ vectorForms, vectorName f.1 f.2 ≠ t) := by
  rw [splitWidth]
  cases h : vectorWidths.reverse.findSome? fun w =>
    ((beforeSuffix? (toString w) t).filter fun b => numericBases.contains b).map
      fun b => (b, w) with
  | some f =>
    obtain ⟨w, hw, hf⟩ := List.exists_of_findSome?_eq_some h
    obtain ⟨rfl, hb, ht⟩ := split_eq_some.1 hf
    have hm : f ∈ vectorForms := mem_vectorForms.2 ⟨hb, List.mem_reverse.1 hw⟩
    exact .inl ⟨hm, (vectorName_of_mem hm).trans ht.symm⟩
  | none =>
    refine .inr ⟨rfl, fun f hf ht => ?_⟩
    obtain ⟨hb, hw⟩ := mem_vectorForms.1 hf
    have hnone := List.findSome?_eq_none_iff.1 h f.2 (List.mem_reverse.2 hw)
    rw [vectorName_of_mem hf] at ht
    rw [split_eq_some.2 ⟨rfl, hb, ht.symm⟩] at hnone
    cases hnone

theorem vectorName_splitWidth (t : String) : vectorName (splitWidth t).1 (splitWidth t).2 = t := by
  rcases splitWidth_cases t with ⟨-, h⟩ | ⟨h, -⟩
  · exact h
  · rw [h]
    exact if_pos rfl

/-- A width is split off exactly those names that are a numeric base type with a width. -/
theorem splitWidth_ne_zero {t : String} :
    (splitWidth t).2 ≠ 0 ↔ ∃ b ∈ numericBases, ∃ w ∈ vectorWidths, t = b ++ toString w := by
  rcases splitWidth_cases t with ⟨hm, hn⟩ | ⟨h, hn⟩
  · obtain ⟨hb, hw⟩ := mem_vectorForms.1 hm
    rw [vectorName_of_mem hm] at hn
    exact ⟨fun _ => ⟨_, hb, _, hw, hn.symm⟩, fun _ => ne_zero_of_mem_vectorWidths _ hw⟩
  · refine ⟨fun hz => absurd (congrArg Prod.snd h) hz, ?_⟩
    rintro ⟨b, hb, w, hw, ht⟩
    have hm : (b, w) ∈ vectorForms := mem_vectorForms.2 ⟨hb, hw⟩
    exact absurd ((vectorName_of_mem hm).trans ht.symm) (hn _ hm)

end Splitting

section Hosts

theorem lookup_vectorName :
    ∀ f ∈ vectorForms, hostScalars.lookup (vectorName f.1 f.2) = none := by decide

theorem lookup_of_splitWidth {t : String} (h : (splitWidth t).2 ≠ 0) :
    hostScalars.lookup t = none := by
  rcases splitWidth_cases t with ⟨hm, hn⟩ | ⟨hs, -⟩
  · rw [← lookup_vectorName _ hm, hn]
  · exact absurd (congrArg Prod.snd hs) h

theorem hostVectorBases_of_numericBases : ∀ b ∈ numericBases, b ∈ hostVectorBases := by decide

theorem hostType_splitWidth (t : String) :
    hostType (splitWidth t).1 (splitWidth t).2 = (hostScalars.lookup t).getD t := by
  rcases splitWidth_cases t with ⟨hm, hn⟩ | ⟨h, -⟩
  · obtain ⟨hb, hw⟩ := mem_vectorForms.1 hm
    have hz := ne_zero_of_mem_vectorWidths _ hw
    have hl := lookup_vectorName _ hm
    rw [hn] at hl
    rw [vectorName, if_neg hz] at hn
    rw [hostType, if_neg hz, if_pos (hostVectorBases_of_numericBases _ hb), hn, hl, Option.getD_none]
  · rw [h]
    exact if_pos rfl

theorem lookup_of_mem : ∀ f ∈ hostScalars, hostScalars.lookup f.1 = some f.2 := by decide

end Hosts

/-- A type name is its base with its width behind it, and it has a width exactly if it is a numeric
base type with one of the vector widths. The host name of base and width is the type name itself if
it has a width or is not in the table of scalars, and what the table says otherwise. -/
theorem splitWidth_restores (t : String) :
    vectorName (splitWidth t).1 (splitWidth t).2 = t ∧
      ((splitWidth t).2 ≠ 0 ↔ ∃ b ∈ numericBases, ∃ w ∈ vectorWidths, t = b ++ toString w) ∧
      ((splitWidth t).2 ≠ 0 ∨ (∀ f ∈ hostScalars, f.1 ≠ t) →
        hostType (splitWidth t).1 (splitWidth t).2 = t) ∧
      ∀ h, (t, h) ∈ hostScalars →
        (splitWidth t).2 = 0 ∧ hostType (splitWidth t).1 (splitWidth t).2 = h := by
  refine ⟨vectorName_splitWidth t, splitWidth_ne_zero, fun ht => ?_, fun h hm => ?_⟩
  · have hnone : hostScalars.lookup t = none := by
      rcases ht with hz | hf
      · exact lookup_of_splitWidth hz
      · exact List.lookup_eq_none_iff.2 fun f hm => bne_iff_ne.2 (hf f hm).symm
    rw [hostType_splitWidth, hnone, Option.getD_none]
  · have hlookup := lookup_of_mem _ hm
    refine ⟨Decidable.byContradiction fun hz => ?_, ?_⟩
    · rw [lookup_of_splitWidth hz] at hlookup
      cases hlookup
    · rw [hostType_splitWidth, hlookup, Option.getD_some]

theorem splitWidth_restores_mixed :
    (splitWidth "uchar16" = ("uchar", 16) ∧ hostType "uchar" 16 = "uchar16") ∧
      hostType (splitWidth "int32_t").1 (splitWidth "int32_t").2 = "int32_t" ∧
      hostType (splitWidth "half4").1 (splitWidth "half4").2 = "half4" ∧
      (splitWidth "uint").2 = 0 ∧ hostType (splitWidth "uint").1 (splitWidth "uint").2 = "u32" := by
  have hvector : splitWidth "uchar16" = ("uchar", 16) := by decide
  have hsplit := (splitWidth_restores "uchar16").2.2.1 (.inl (by rw [hvector]; decide))
  rw [hvector] at hsplit
  exact ⟨⟨hvector, hsplit⟩, (splitWidth_restores "int32_t").2.2.1 (.inr (by decide)),
    (splitWidth_restores "half4").2.2.1 (.inr (by decide)),
    (splitWidth_restores "uint").2.2.2 "u32" (by decide)⟩

end KernelWrap.Declaration
