import KernelWrap.Compute.Launch

/-! What a native runtime has recorded. Calls only add records; which objects were made and which
were released is read off them. A runtime is fresh when it never chooses a handle that it chose
before for an object of the same kind, and then all objects of a kind have different handles. -/

namespace KernelWrap.Compute

inductive Kind where
  | program | kernel | event
  deriving Repr, DecidableEq

def Call.makes : Call → Option Kind
  | buildProgram .. => some .program
  | createKernel .. => some .kernel
  | enqueue .. => some .event
  | _ => none

def Call.releases? : Kind → Call → Option Handle
  | .program, releaseProgram h => some h
  | .kernel, releaseKernel h => some h
  | .event, releaseEvent h => some h
  | _, _ => none

def made (o : Kind) (rs : List Record) : List Handle :=
  rs.filterMap fun r => if r.call.makes = some o then r.issued? else none

/-- The handles that were given to a release, whether the runtime refused it or not. -/
def released (o : Kind) (rs : List Record) : List Handle :=
  rs.filterMap fun r => r.call.releases? o

def since (n₀ n : Native) : List Record :=
  (n.records.take (n.records.length - n₀.records.length)).reverse

/-- No handle is chosen twice for objects of the same kind. -/
def Native.Fresh (n : Native) : Prop :=
  ∀ rs c o, c.makes = some o → ∀ r ∈ rs, r.call.makes = some o → r.issued? ≠ some (n.choose rs c)

section Lists

theorem made_append (o : Kind) (rs ss : List Record) :
    made o (rs ++ ss) = made o rs ++ made o ss := List.filterMap_append

theorem released_append (o : Kind) (rs ss : List Record) :
    released o (rs ++ ss) = released o rs ++ released o ss := List.filterMap_append

theorem mem_made {o : Kind} {rs : List Record} {h : Handle} :
    h ∈ made o rs ↔ ∃ r ∈ rs, r.call.makes = some o ∧ r.issued? = some h := by
  simp only [made, List.mem_filterMap, Option.ite_none_right_eq_some]

theorem mem_made_reverse {o : Kind} {rs : List Record} {h : Handle} :
    h ∈ made o rs.reverse ↔ h ∈ made o rs := by
  simp only [mem_made, List.mem_reverse]

theorem le_highest {rs : List Record} {r : Record} (hr : r ∈ rs) {h : Handle}
    (hi : r.issued? = some h) : h ≤ highest rs := by
  have hm : h ∈ rs.filterMap Record.issued? := List.mem_filterMap.2 ⟨r, hr, hi⟩
  rw [highest]
  generalize rs.filterMap Record.issued? = hs at hm
  induction hs with
  | nil => cases hm
  | cons x xs ih =>
    rcases List.mem_cons.1 hm with rfl | hm
    · exact Nat.le_max_left _ _
    · exact Nat.le_trans (ih hm) (Nat.le_max_right _ _)

theorem fresh_start (refuse : List Record → Call → Option Refusal) :
    (Native.start refuse).Fresh := by
  intro rs c o _ r hr _ hi
  have hl : highest rs + 1 ≤ highest rs := le_highest hr hi
  exact Nat.not_succ_le_self _ hl

end Lists

/-- A runtime after it added the records `rs`, the first in front. -/
structure Gains (n₀ n : Native) (rs : List Record) : Prop where
  records : n.records = rs.reverse ++ n₀.records
  choose : n.choose = n₀.choose
  fresh : n₀.Fresh → ∀ o, (made o rs).Nodup ∧ ∀ h ∈ made o rs, h ∉ made o n₀.records

namespace Gains

variable {n₀ n₁ n₂ : Native} {rs ss : List Record}

theorem since_eq (h : Gains n₀ n₁ rs) : since n₀ n₁ = rs := by
  have hl : n₁.records.length - n₀.records.length = rs.reverse.length := by
    rw [h.records, List.length_append, Nat.add_sub_cancel]
  rw [since, hl, h.records, List.take_left, List.reverse_reverse]

theorem fresh_iff (h : Gains n₀ n₁ rs) : n₁.Fresh ↔ n₀.Fresh := by
  rw [Native.Fresh, Native.Fresh, h.choose]

theorem refl (n : Native) : Gains n n [] where
  records := rfl
  choose := rfl
  fresh := fun _ _ => ⟨List.nodup_nil, fun _ h => absurd h List.not_mem_nil⟩

theorem trans (h : Gains n₀ n₁ rs) (h' : Gains n₁ n₂ ss) : Gains n₀ n₂ (rs ++ ss) where
  records := by
    rw [h'.records, h.records, List.reverse_append, List.append_assoc]
  choose := h'.choose.trans h.choose
  fresh := by
    intro hf o
    obtain ⟨hn, hd⟩ := h.fresh hf o
    obtain ⟨hn', hd'⟩ := h'.fresh (h.fresh_iff.2 hf) o
    rw [made_append]
    -- What is made later is in neither part of the records that are there by then.
    have hs : ∀ x ∈ made o ss, x ∉ made o rs ∧ x ∉ made o n₀.records := by
      intro x hx
      have hx' := hd' x hx
      rw [h.records, made_append, List.mem_append, mem_made_reverse, not_or] at hx'
      exact hx'
    refine ⟨List.nodup_append.2 ⟨hn, hn', fun a ha b hb e => ?_⟩, fun x hx => ?_⟩
    · exact (hs b hb).1 (e ▸ ha)
    · rcases List.mem_append.1 hx with hx | hx
      · exact hd x hx
      · exact (hs x hx).2

theorem of_not_issued {r : Record} (hr : r.issued? = none) (h : n₁.records = r :: n₀.records)
    (hc : n₁.choose = n₀.choose) : Gains n₀ n₁ [r] where
  records := h
  choose := hc
  fresh := by
    intro _ o
    have hm : made o [r] = [] := by
      refine List.filterMap_eq_nil_iff.2 fun x hx => ?_
      rw [List.mem_singleton.1 hx, hr, ite_self]
    rw [hm]
    exact ⟨List.nodup_nil, fun _ h => absurd h List.not_mem_nil⟩

end Gains

namespace Native

theorem perform_cases (n : Native) (c : Call) :
    (∃ n', n.perform c = (.ok (), n') ∧ Gains n n' [⟨c, .done⟩]) ∨
      (∃ why n', n.perform c = (.error why, n') ∧ Gains n n' [⟨c, .refused why⟩]) := by
  rw [perform]
  cases n.refuse n.records c with
  | none => exact .inl ⟨_, rfl, .of_not_issued rfl rfl rfl⟩
  | some why => exact .inr ⟨why, _, rfl, .of_not_issued rfl rfl rfl⟩

theorem issue_cases (n : Native) (c : Call) :
    (∃ h n', n.issue c = (.ok h, n') ∧ Gains n n' [⟨c, .issued h⟩]) ∨
      (∃ why n', n.issue c = (.error why, n') ∧ Gains n n' [⟨c, .refused why⟩]) := by
  rw [issue]
  cases n.refuse n.records c with
  | none =>
    refine .inl ⟨_, _, rfl, rfl, rfl, fun hf o => ?_⟩
    rw [made, List.filterMap_cons]
    by_cases ho : c.makes = some o
    · simp only [ho, if_true, Record.issued?, List.filterMap_nil]
      refine ⟨List.nodup_cons.2 ⟨List.not_mem_nil, List.nodup_nil⟩, fun h hh => ?_⟩
      rw [List.mem_singleton.1 hh, mem_made]
      rintro ⟨r, hr, hro, hri⟩
      exact hf _ c o ho r hr hro hri
    · simp only [ho, if_false, List.filterMap_nil]
      exact ⟨List.nodup_nil, fun _ h => absurd h List.not_mem_nil⟩
  | some why => exact .inr ⟨why, _, rfl, .of_not_issued rfl rfl rfl⟩

theorem attempt_gains (n : Native) (c : Call) : ∃ a, Gains n (n.attempt c) [⟨c, a⟩] := by
  rcases n.perform_cases c with ⟨n', h, hg⟩ | ⟨why, n', h, hg⟩
  · rw [attempt, h]
    exact ⟨_, hg⟩
  · rw [attempt, h]
    exact ⟨_, hg⟩

end Native

end KernelWrap.Compute
