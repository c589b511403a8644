import KernelWrap.Descriptor
import KernelWrap.Proofs.Grammar
import KernelWrap.Proofs.Widths

/-! What a descriptor says about the declaration that it was made from. The type of an argument is
the declared one, split into a numeric base and a width where it has that form; its host type is the
one listed for the declared type, or that type itself. -/

namespace KernelWrap.Declaration

section Spaces

theorem Parameter.mem_spaces {p : Parameter} {s : AddressSpace} :
    s ∈ p.spaces ↔ .space s ∈ p.marks := by
  rw [Parameter.spaces, List.mem_filterMap]
  constructor
  · rintro ⟨m, hm, e⟩
    cases m <;> cases e
    exact hm
  · exact fun hm => ⟨_, hm, rfl⟩

theorem Parameter.Legal.getLast?_spaces {p : Parameter} (h : p.Legal) {s : AddressSpace} :
    p.spaces.getLast? = some s ↔ .space s ∈ p.marks := by
  have hl : p.spaces.length = p.marks.countP Mark.isSpace := by
    rw [Parameter.spaces]
    induction p.marks with
    | nil => rfl
    | cons m ms ih =>
      cases m with
      | qualifier q => exact ih
      | space s =>
        rw [List.countP_cons_of_pos rfl, ← ih]
        rfl
  rw [← Parameter.mem_spaces]
  have h1 := h.2
  rw [← hl] at h1
  match p.spaces, h1 with
  | [], _ => simp
  | [x], _ => simp [eq_comm]

end Spaces

end KernelWrap.Declaration

namespace KernelWrap
open Declaration

structure Argument.Describes (a : Argument) (i : Nat) (p : Parameter) : Prop where
  index : a.index = i
  identifier : a.identifier = String.ofList p.name
  buffer : a.passing = .buffer ↔
    .space .globalMem ∈ p.marks ∨ .space .constantMem ∈ p.marks
  localSize : a.passing = .localSize ↔ .space .localMem ∈ p.marks
  isPointer : a.isPointer = p.pointer.isSome
  type : vectorName a.dialectType a.vectorWidth = p.base.typeName
  vector : a.vectorWidth ≠ 0 → a.dialectType ∈ numericBases ∧ a.vectorWidth ∈ vectorWidths
  scalar : a.vectorWidth = 0 →
    ∀ b ∈ numericBases, ∀ w ∈ vectorWidths, p.base.typeName ≠ vectorName b w
  hostType : a.hostType = (hostScalars.lookup p.base.typeName).getD p.base.typeName

structure Kernel.Describes (k : Kernel) (d : DeclaredKernel) : Prop where
  name : k.name = String.ofList d.name
  count : k.arguments.length = d.parameters.length
  argument : ∀ (i : Nat) (a : Argument) (p : Parameter), k.arguments[i]? = some a →
    d.parameters[i]? = some p → a.Describes i p

theorem Passing.ofSpace_eq_buffer {s : Option AddressSpace} :
    ofSpace s = .buffer ↔ s = some .globalMem ∨ s = some .constantMem := by
  cases s with
  | none => simp [ofSpace]
  | some s => cases s <;> simp [ofSpace]

theorem Passing.ofSpace_eq_localSize {s : Option AddressSpace} :
    ofSpace s = .localSize ↔ s = some .localMem := by
  cases s with
  | none => simp [ofSpace]
  | some s => cases s <;> simp [ofSpace]

theorem Argument.describes_ofParameter {p : Parameter} (hp : p.Legal) (i : Nat) :
    (Argument.ofParameter i p.signature).Describes i p where
  index := rfl
  identifier := rfl
  buffer := by
    rw [← hp.getLast?_spaces, ← hp.getLast?_spaces]
    exact Passing.ofSpace_eq_buffer
  localSize := by
    rw [← hp.getLast?_spaces]
    exact Passing.ofSpace_eq_localSize
  isPointer := rfl
  type := vectorName_splitWidth _
  vector := by
    intro hw
    rcases splitWidth_cases p.base.typeName with ⟨hm, -⟩ | ⟨h, -⟩
    · exact mem_vectorForms.1 hm
    · exact absurd (congrArg Prod.snd h) hw
  scalar := by
    intro hw b hb w hm e
    rcases splitWidth_cases p.base.typeName with ⟨hf, -⟩ | ⟨-, hn⟩
    · exact ne_zero_of_mem_vectorWidths _ (mem_vectorForms.1 hf).2 hw
    · exact hn (b, w) (mem_vectorForms.2 ⟨hb, hm⟩) e.symm
  hostType := hostType_splitWidth _

theorem Kernel.describes_ofSignature {d : DeclaredKernel} (hd : ∀ p ∈ d.parameters, p.Legal)
    (line : Nat) : (Kernel.ofSignature (d.signature line)).Describes d where
  name := rfl
  count := by
    rw [Kernel.ofSignature, DeclaredKernel.signature, List.length_mapIdx, List.length_map]
  argument := by
    intro i a p ha hp
    simp only [Kernel.ofSignature, DeclaredKernel.signature, List.getElem?_mapIdx,
      List.getElem?_map, hp, Option.map_some, Option.some.injEq] at ha
    subst ha
    exact Argument.describes_ofParameter (hd p (List.mem_of_getElem? hp)) i

end KernelWrap
