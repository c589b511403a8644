import KernelWrap.Proofs.Outputs
import Mathlib.Data.List.Forall2

/-! Turns. Each turn of a generation that is neither done nor failed takes it a step further, and a
failure anywhere stops all of them for good; so a build in which every job has its turns either
fails or is done with all of its inputs. -/

namespace KernelWrap

open Progress

def Progress.rank : Progress → Nat
  | waiting => 0
  | started => 1
  | read _ => 2
  | analyzed _ _ => 3
  | placed _ _ => 4
  | rendered _ _ _ => 5
  | written _ _ => 6
  | done _ | failed _ => stepCount

theorem Progress.ended_of_rank {p : Progress} (h : stepCount ≤ p.rank) :
    (∃ a, p = .done a) ∨ ∃ e, p = .failed e := by
  cases p with
  | done a => exact .inl ⟨a, rfl⟩
  | failed e => exact .inr ⟨e, rfl⟩
  | _ => simp [rank, stepCount] at h

theorem Generator.Stepped.rank_lt {g : Generator} {i : Input} {d d' : Disk} {p p' : Progress}
    (h : g.Stepped i d p p' d') (hp : p.rank < stepCount) : p.rank < p'.rank := by
  cases h with
  | fail => exact hp
  | rest hr =>
    cases p with
    | done a => exact absurd hp (Nat.lt_irrefl _)
    | failed e => exact absurd hp (Nat.lt_irrefl _)
    | _ => simp [artifact?, error?] at hr
  | _ => simp [rank, stepCount]

/-- A schedule in which each of `n` jobs has as many turns as a generation has steps. -/
def Complete (schedule : List Nat) (n : Nat) : Prop := ∀ k < n, stepCount ≤ schedule.count k

theorem complete_roundRobin (n : Nat) : Complete (roundRobin n) n := by
  intro k hk
  have hc : (List.range n).count k = 1 :=
    List.count_eq_one_of_mem List.nodup_range (List.mem_range.2 hk)
  simp [roundRobin, List.count_flatten, hc]

theorem eq_map_of_forall₂ {α β : Type} {R R' : α → β → Prop} {f : β → β} {as : List α}
    {bs cs : List β} (h : List.Forall₂ R as bs) (h' : List.Forall₂ R' as cs)
    (hf : ∀ a ∈ as, ∀ b c, R a b → R' a c → c = f b) : cs = bs.map f := by
  induction h generalizing cs with
  | nil =>
    cases h'
    rfl
  | cons hab _ ih =>
    cases h' with
    | cons hac htail =>
      rw [List.map_cons, hf _ List.mem_cons_self _ _ hab hac,
        ih htail fun a ha => hf a (List.mem_cons_of_mem _ ha)]

namespace Build

variable {g : Generator} {b : Build}

theorem error?_eq_none : b.error? = none ↔ ∀ j ∈ b.jobs, j.progress.error? = none := by
  rw [error?, List.findSome?_eq_none_iff]

theorem advance_of_error (h : b.error? ≠ none) (n : Nat) : b.advance g n = b := by
  unfold advance
  split
  · next he _ => exact absurd he h
  · rfl

theorem run_of_error (h : b.error? ≠ none) (schedule : List Nat) : b.run g schedule = b := by
  induction schedule with
  | nil => rfl
  | cons n schedule ih =>
    show (b.advance g n).run g schedule = b
    rw [advance_of_error h, ih]

theorem advance_of_job {n : Nat} {j : Job} (he : b.error? = none) (hj : b.jobs[n]? = some j) :
    b.advance g n = ⟨(g.step j.input j.progress b.disk).2.1,
      b.jobs.set n ⟨j.input, (g.step j.input j.progress b.disk).1⟩,
      b.notices ++ (g.step j.input j.progress b.disk).2.2⟩ := by
  unfold advance
  rw [he, hj]

theorem run_concat (g : Generator) (schedule : List Nat) (n : Nat) (b : Build) :
    b.run g (schedule ++ [n]) = (b.run g schedule).advance g n :=
  run_append g schedule [n] b

theorem advance_of_none {n : Nat} (hj : b.jobs[n]? = none) : b.advance g n = b := by
  unfold advance
  rw [hj]
  split
  · next h => cases h
  · rfl

theorem rank_run {schedule : List Nat} (h : (b.run g schedule).error? = none) {k : Nat} {j : Job}
    (hj : b.jobs[k]? = some j) : ∃ j', (b.run g schedule).jobs[k]? = some j' ∧
      min stepCount (j.progress.rank + schedule.count k) ≤ j'.progress.rank := by
  induction schedule generalizing b j with
  | nil => exact ⟨j, hj, Nat.min_le_right _ _⟩
  | cons n schedule ih =>
    have he : b.error? = none := by
      by_contra he
      rw [run_of_error he] at h
      exact he h
    have hr : b.run g (n :: schedule) = (b.advance g n).run g schedule := rfl
    rw [hr] at h ⊢
    by_cases hn : n = k
    · subst hn
      have hb := advance_of_job (g := g) he hj
      have hget : (b.advance g n).jobs[n]? =
          some ⟨j.input, (g.step j.input j.progress b.disk).1⟩ := by
        rw [hb]
        exact List.getElem?_set_self (List.getElem?_eq_some_iff.1 hj).1
      obtain ⟨j', hj', hle⟩ := ih h hget
      refine ⟨j', hj', ?_⟩
      rw [List.count_cons_self]
      by_cases hp : j.progress.rank < stepCount
      · have hlt := (g.stepped j.input b.disk j.progress).rank_lt hp
        simp only at hle
        omega
      · have hrest : (g.step j.input j.progress b.disk).1 = j.progress := by
          obtain ⟨a, e⟩ | ⟨a, e⟩ := ended_of_rank (Nat.le_of_not_lt hp) <;> rw [e] <;> rfl
        simp only [hrest] at hle
        omega
    · have hget : (b.advance g n).jobs[k]? = some j := by
        cases hm : b.jobs[n]? with
        | none => rw [advance_of_none hm, hj]
        | some m => rw [advance_of_job he hm]; exact (List.getElem?_set_ne hn).trans hj
      obtain ⟨j', hj', hle⟩ := ih h hget
      refine ⟨j', hj', ?_⟩
      rwa [List.count_cons_of_ne hn]

def IsDone (b : Build) : Prop := ∀ j ∈ b.jobs, ∃ a, j.progress = .done a

instance : Decidable b.IsDone :=
  decidable_of_iff (∀ j ∈ b.jobs, j.progress.artifact?.isSome = true)
    (forall₂_congr fun j _ => by cases j.progress <;> simp [Progress.artifact?])

theorem isDone_of_complete {d : Disk} {inputs : List Input} {schedule : List Nat}
    (hs : Complete schedule inputs.length)
    (h : ((start d inputs).run g schedule).error? = none) :
    ((start d inputs).run g schedule).IsDone := by
  intro j hj
  obtain ⟨k, hk⟩ := List.mem_iff_getElem?.1 hj
  have hlength : ((start d inputs).run g schedule).jobs.length = inputs.length := by
    have hf := ((IsFor.start d inputs).run (g := g) schedule).1.inputs
    rw [← hf, List.length_map, hf]
  have hlt : k < inputs.length := hlength ▸ (List.getElem?_eq_some_iff.1 hk).1
  have hget : (start d inputs).jobs[k]? = some ⟨inputs[k], .waiting⟩ := by
    simp [start, hlt]
  obtain ⟨j', hj', hle⟩ := rank_run h hget
  rw [hk] at hj'
  cases hj'
  have hturns : min stepCount (rank .waiting + schedule.count k) = stepCount :=
    Nat.min_eq_left (Nat.le_trans (hs k hlt) (Nat.le_add_left _ _))
  obtain hd | ⟨e, he⟩ := ended_of_rank (hturns ▸ hle)
  · exact hd
  · have hn := error?_eq_none.1 h j hj
    rw [he] at hn
    cases hn

namespace IsDone

theorem result (h : b.IsDone) : b.result = .ok b.artifacts := by
  have he : b.error? = none := error?_eq_none.2 fun j hj => by
    obtain ⟨a, e⟩ := h j hj
    rw [e]
    rfl
  rw [Build.result, he]

theorem exists_job {inputs : List Input} (h : b.IsDone) (hf : b.IsFor inputs) {i : Input}
    (hi : i ∈ inputs) : ∃ j ∈ b.jobs, j.input = i ∧ ∃ a, j.progress = .done a := by
  rw [← hf.inputs] at hi
  obtain ⟨j, hj, rfl⟩ := List.mem_map.1 hi
  exact ⟨j, hj, rfl, h j hj⟩

theorem forall₂ {inputs : List Input} (h : b.IsDone) (hf : b.IsFor inputs)
    {R : Input → Artifact → Prop} (hR : ∀ j ∈ b.jobs, ∀ a, j.progress = .done a → R j.input a) :
    List.Forall₂ R inputs (b.jobs.filterMap fun j => j.progress.artifact?) := by
  rw [← hf.inputs]
  clear hf
  unfold IsDone at h
  generalize b.jobs = jobs at h hR
  induction jobs with
  | nil => exact .nil
  | cons j jobs ih =>
    obtain ⟨hj, hjobs⟩ := List.forall_mem_cons.1 h
    obtain ⟨hRj, hRjobs⟩ := List.forall_mem_cons.1 hR
    obtain ⟨a, e⟩ := hj
    have hhead : (j :: jobs).filterMap (fun j => j.progress.artifact?) =
        a :: jobs.filterMap fun j => j.progress.artifact? :=
      List.filterMap_cons_some (by rw [e]; rfl)
    rw [hhead]
    exact .cons (hRj a e) (ih hjobs hRjobs)

theorem map_input {inputs : List Input} (h : b.IsDone) (hf : b.IsFor inputs)
    (hi : ∀ j ∈ b.jobs, ∀ a, j.progress = .done a → j.input = a.input) :
    (b.jobs.filterMap fun j => j.progress.artifact?).map Artifact.input = inputs := by
  have hforall := h.forall₂ hf (R := fun i a => i = a.input) hi
  rw [← List.forall₂_map_right_iff, List.forall₂_eq_eq_eq] at hforall
  exact hforall.symm

end IsDone

end Build

end KernelWrap
