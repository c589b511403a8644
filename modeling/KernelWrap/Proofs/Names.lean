import KernelWrap.Proofs.Slots

/-! The names of generated parameters. None of them is a name that the methods use for parameters
and variables of their own: a clash is answered by a suffix, and a name that is used twice by an
index, which none of those names ends in. -/

namespace KernelWrap
open Host

def ownNames : List Name := (("self" :: reservedNames).map Name.plain)

section Generated

theorem freeName_notMem (a : Argument) : a.freeName ∉ reservedNames := by
  rw [Argument.freeName]
  split
  · next h =>
    have hs : ∀ s ∈ reservedNames, s ++ "_arg" ∉ reservedNames := by decide
    exact hs _ (List.contains_iff_mem.1 h)
  · next h => exact fun hm => h (List.contains_iff_mem.2 hm)

theorem indexed_notMem (s : String) (i : Nat) : s ++ "_" ++ toString i ∉ reservedNames := by
  have hr : ∀ s ∈ reservedNames, s.toList.getLast?.all (!·.isDigit) = true := by decide
  have hd : ∀ c ∈ (toString i).toList.getLast?, c.isDigit = true := by
    intro c hc
    rw [Nat.toString_eq_ofList_toDigits, String.toList_ofList] at hc
    exact Nat.isDigit_of_mem_toDigits (by decide) (by decide) (List.mem_of_mem_getLast? hc)
  have hn : (toString i).toList ≠ [] := by
    rw [Nat.toString_eq_ofList_toDigits, String.toList_ofList]
    exact Nat.toDigits_ne_nil
  intro h
  have hl : (s ++ "_" ++ toString i).toList.getLast? = (toString i).toList.getLast? := by
    rw [String.toList_append, List.getLast?_append_of_ne_nil _ hn]
  obtain ⟨c, hc⟩ := Option.isSome_iff_exists.1 (List.getLast?_isSome.2 hn)
  have h₁ := hr _ h
  rw [hl, hc, Option.all_some, hd c hc] at h₁
  cases h₁

theorem parameterNames_notMem {used : List String} {as : List Argument} {s : String}
    (h : s ∈ parameterNames used as) : s ∉ reservedNames := by
  fun_induction parameterNames used as with
  | case1 => cases h
  | case2 used a as n ih =>
    rcases List.mem_cons.1 h with rfl | h
    · show (if _ then _ else _) ∉ reservedNames
      split
      · exact indexed_notMem a.freeName a.index
      · exact freeName_notMem a
    · exact ih h

theorem ofDialect?_notMem {s : String} {n : Name} (h : Name.ofDialect? s = some n)
    (hs : s ∉ reservedNames) : n ∉ ownNames := by
  have raw : ∀ t, (⟨t, true⟩ : Name) ∉ ownNames := by
    intro t ht
    obtain ⟨r, -, e⟩ := List.mem_map.1 ht
    cases e
  unfold Name.ofDialect? at h
  split at h
  · next hk =>
    have hc : ∀ s ∈ selfKeywords, Name.plain (s ++ "_") ∉ ownNames := by decide
    cases h
    exact hc s (List.contains_iff_mem.1 hk)
  · next hk =>
    split at h
    · cases h
      exact raw s
    · split at h
      · cases h
        intro hm
        obtain ⟨r, hr, e⟩ := List.mem_map.1 hm
        obtain rfl : r = s := congrArg Name.text e
        rcases List.mem_cons.1 hr with rfl | hr
        · exact hk (by decide)
        · exact hs hr
      · unfold markedName? at h
        split at h
        · split at h
          · cases h
            exact raw _
          · cases h
        · cases h

theorem name_notMem_ownNames {r : Reader} {as : List Argument} {ts : List Slot}
    (h : SlotsFor r as ts) {t : Slot}
    (ht : t ∈ ts) : t.name ∉ ownNames := by
  have hm : some t.name ∈ (parameterNames [] as).map Name.ofDialect? :=
    h.name ▸ List.mem_map_of_mem ht
  obtain ⟨s, hs, e⟩ := List.mem_map.1 hm
  exact ofDialect?_notMem e (parameterNames_notMem hs)

end Generated

end KernelWrap
