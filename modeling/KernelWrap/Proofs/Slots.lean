import KernelWrap.Binding
import KernelWrap.Proofs.Grammar

/-! The slots of a wrapper. When binding succeeds every argument of the kernel has a slot in its
place, with the native index, the passing, the generated name and the host type of the argument. -/

namespace KernelWrap
open Host

structure Slot.Holds (r : Reader) (t : Slot) (a : Argument) (n : Name) : Prop where
  index : t.index = a.index
  passing : t.passing = a.passing
  name : t.name = n
  type : r.type? a.hostType = some t.type

section Reading

variable {r : Reader}

theorem hostName_eq_ok {s : String} {n : Name} : hostName s = .ok n ↔ Name.ofDialect? s = some n := by
  rw [hostName]
  cases Name.ofDialect? s <;> simp

theorem hostNames_eq_ok {ss : List String} {ns : List Name} (h : hostNames ss = .ok ns) :
    ss.map Name.ofDialect? = ns.map some := by
  induction ss generalizing ns with
  | nil =>
    cases h
    rfl
  | cons s ss ih =>
    simp only [hostNames, bind, Except.bind] at h
    split at h
    · cases h
    · next n hn =>
      split at h
      · cases h
      · next ns' hns =>
        cases h
        rw [List.map_cons, List.map_cons, hostName_eq_ok.1 hn, ih hns]

theorem holds_of_ofArgument {k : String} {a : Argument} {n : Name} {t : Slot}
    (h : Slot.ofArgument r k a n = .ok t) : t.Holds r a n := by
  unfold Slot.ofArgument at h
  split at h
  · next ty hty =>
    cases h
    exact ⟨rfl, rfl, rfl, hty⟩
  · cases h

theorem readSlots_eq_ok {k : String} {l : List (Argument × Name)} {ts : List Slot}
    (h : readSlots r k l = .ok ts) : List.Forall₂ (fun p t => t.Holds r p.1 p.2) l ts := by
  induction l generalizing ts with
  | nil =>
    cases h
    exact .nil
  | cons p l ih =>
    obtain ⟨a, n⟩ := p
    simp only [readSlots, bind, Except.bind] at h
    split at h
    · cases h
    · next t ht =>
      split at h
      · cases h
      · next ts' hts =>
        cases h
        exact .cons (holds_of_ofArgument ht) (ih hts)

theorem length_parameterNames (used : List String) (as : List Argument) :
    (parameterNames used as).length = as.length := by
  fun_induction parameterNames used as with
  | case1 => rfl
  | case2 used a as n ih => rw [List.length_cons, List.length_cons, ih]

structure SlotsFor (r : Reader) (as : List Argument) (ts : List Slot) : Prop where
  index : ts.map Slot.index = as.map Argument.index
  passing : ts.map Slot.passing = as.map Argument.passing
  name : ts.map (fun t => some t.name) = (parameterNames [] as).map Name.ofDialect?
  type : ts.map (fun t => some t.type) = as.map fun a => r.type? a.hostType

section Zip

variable {α : Type} {as : List Argument} {ns : List Name} {ts : List Slot}

theorem map_of_holds (h : List.Forall₂ (fun p t => t.Holds r p.1 p.2) (as.zip ns) ts) {f : Slot → α}
    {g : Argument × Name → α} (hf : ∀ a n t, t.Holds r a n → f t = g (a, n)) :
    ts.map f = (as.zip ns).map g := by
  generalize as.zip ns = l at h
  induction h with
  | nil => rfl
  | cons hp _ ih => rw [List.map_cons, List.map_cons, hf _ _ _ hp, ih]

variable (h : List.Forall₂ (fun p t => t.Holds r p.1 p.2) (as.zip ns) ts)
  (hl : as.length = ns.length)
include h hl

theorem map_of_argument {f : Slot → α} {g : Argument → α}
    (hf : ∀ a n t, t.Holds r a n → f t = g a) : ts.map f = as.map g := by
  have hm := map_of_holds h (g := fun p => g p.1) hf
  have hz : (as.zip ns).map Prod.fst = as := List.map_fst_zip (Nat.le_of_eq hl)
  rw [hm]
  exact (List.map_map ..).symm.trans (congrArg (List.map g) hz)

theorem map_of_name {f : Slot → α} {g : Name → α} (hf : ∀ a n t, t.Holds r a n → f t = g n) :
    ts.map f = ns.map g := by
  have hm := map_of_holds h (g := fun p => g p.2) hf
  have hz : (as.zip ns).map Prod.snd = ns := List.map_snd_zip (Nat.le_of_eq hl.symm)
  rw [hm]
  exact (List.map_map ..).symm.trans (congrArg (List.map g) hz)

end Zip

theorem slotsFor_ofKernel {k : Kernel} {w : Wrapper} (h : Wrapper.ofKernel k r = .ok w) :
    SlotsFor r k.arguments w.slots := by
  simp only [Wrapper.ofKernel, bind, Except.bind] at h
  split at h
  · cases h
  · split at h
    · cases h
    · next names hnames =>
      split at h
      · cases h
      · next ts hts =>
        cases h
        have hs := readSlots_eq_ok hts
        have hn := hostNames_eq_ok hnames
        have hl := congrArg List.length hn
        rw [List.length_map, List.length_map, length_parameterNames] at hl
        exact {
          index := map_of_argument hs hl fun _ _ _ ht => ht.index
          passing := map_of_argument hs hl fun _ _ _ ht => ht.passing
          name := (map_of_name hs hl fun _ _ _ ht => congrArg some ht.name).trans hn.symm
          type := map_of_argument hs hl fun _ _ _ ht => ht.type.symm }

theorem SlotsFor.length_eq {as : List Argument} {ts : List Slot} (h : SlotsFor r as ts) :
    ts.length = as.length := by
  have hl := congrArg List.length h.index
  rwa [List.length_map, List.length_map] at hl

theorem index_ofSignature (k : Declaration.KernelSignature) :
    (Kernel.ofSignature k).arguments.map Argument.index =
      List.range (Kernel.ofSignature k).arguments.length := by
  refine List.ext_getElem (by simp) fun i h₁ h₂ => ?_
  rw [List.getElem_map, List.getElem_range]
  simp only [Kernel.ofSignature, List.getElem_mapIdx]
  rfl

end Reading

end KernelWrap
