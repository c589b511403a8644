import KernelWrap.Discovery
import Mathlib.Data.Char
import Mathlib.Data.List.Lex
import Mathlib.Data.Prod.Lex

/-! The order of paths. Paths are compared by their components, component by component, so their
order is the lexicographic one, and paths that come neither before nor behind each other are the same.
Lists of different paths are therefore sorted in one way only, whatever order they come in. -/

namespace KernelWrap

namespace Component

variable {a b : Component}

def key (c : Component) : ℕ ×ₗ List Char :=
  toLex (c.rank, match c with | name n => n | _ => [])

theorem key_inj : a.key = b.key ↔ a = b := by
  cases a <;> cases b <;> simp [key, rank]

theorem less_iff : a.less b = true ↔ a.key < b.key := by
  cases a <;> cases b <;> simp [key, rank, less, Prod.Lex.toLex_lt_toLex]

end Component

namespace Path

variable {p q : Path}

def key (p : Path) : List (ℕ ×ₗ List Char) := p.components.map Component.key

theorem same_iff : p.same q = true ↔ p.key = q.key := by
  rw [same, beq_iff_eq, key, key]
  exact (List.map_inj_right fun _ _ => Component.key_inj.1).symm

theorem lessComponents_iff {as bs : List Component} :
    lessComponents as bs = true ↔ as.map Component.key < bs.map Component.key := by
  induction as generalizing bs with
  | nil => cases bs <;> simp [lessComponents]
  | cons a as ih =>
    cases bs with
    | nil => simp [lessComponents]
    | cons b bs =>
      rw [lessComponents, Bool.or_eq_true, Bool.and_eq_true, Component.less_iff, beq_iff_eq, ih,
        List.map_cons, List.map_cons, List.cons_lt_cons_iff, Component.key_inj]

theorem less_iff : p.less q = true ↔ p.key < q.key := lessComponents_iff

end Path

section Sorting

variable {α : Type} {path : α → Path} {xs ys : List α}

theorem sortByPath_perm (path : α → Path) (xs : List α) : (sortByPath path xs).Perm xs :=
  List.mergeSort_perm _ _

theorem sortByPath_map {f : α → α} (h : ∀ a, path (f a) = path a) (xs : List α) :
    sortByPath path (xs.map f) = (sortByPath path xs).map f := by
  rw [sortByPath, sortByPath]
  exact (List.map_mergeSort fun a _ b _ => by rw [h, h]).symm

theorem pairwise_sortByPath (path : α → Path) (xs : List α) :
    (sortByPath path xs).Pairwise fun a b => (path a).key ≤ (path b).key := by
  have hle : ∀ a b, (!(path b).less (path a)) = true ↔ (path a).key ≤ (path b).key := fun a b => by
    rw [Bool.not_eq_true', ← Bool.not_eq_true, Path.less_iff, not_lt]
  refine (List.pairwise_mergeSort ?_ ?_ xs).imp fun {a b} => (hle a b).1
  · exact fun a b c hab hbc => (hle a c).2 (((hle a b).1 hab).trans ((hle b c).1 hbc))
  · exact fun a b => Bool.or_eq_true _ _ ▸ (le_total _ _).imp (hle a b).2 (hle b a).2

theorem pairwise_less_sortByPath (h : xs.Pairwise fun a b => ¬(path a).same (path b) = true) :
    (sortByPath path xs).Pairwise fun a b => (path a).less (path b) = true := by
  have hne : (sortByPath path xs).Pairwise fun a b => (path a).key ≠ (path b).key := by
    refine (sortByPath_perm path xs).symm.pairwise (h.imp fun {a b} hn e => ?_) fun hn => hn.symm
    exact hn (Path.same_iff.2 e)
  exact (pairwise_sortByPath path xs).imp₂ (fun a b hle hn => Path.less_iff.2 (hle.lt_of_ne hn)) hne

theorem sortByPath_of_pairwise (h : xs.Pairwise fun a b => (path a).less (path b) = true) :
    sortByPath path xs = xs :=
  List.mergeSort_of_pairwise (h.imp fun {a b} hab => by
    rw [Bool.not_eq_true', ← Bool.not_eq_true, Path.less_iff]
    exact (Path.less_iff.1 hab).not_gt)

theorem sortByPath_eq_of_perm (h : xs.Pairwise fun a b => ¬(path a).same (path b) = true)
    (hp : xs.Perm ys) : sortByPath path xs = sortByPath path ys := by
  have h' : ys.Pairwise fun a b => ¬(path a).same (path b) = true :=
    hp.pairwise h fun hn e => hn (Path.same_iff.2 (Path.same_iff.1 e).symm)
  refine List.Perm.eq_of_pairwise (fun a b _ _ hab hba => ?_) (pairwise_less_sortByPath h)
    (pairwise_less_sortByPath h')
    ((sortByPath_perm path xs).trans (hp.trans (sortByPath_perm path ys).symm))
  exact absurd (Path.less_iff.1 hab) (Path.less_iff.1 hba).not_gt

end Sorting

end KernelWrap
