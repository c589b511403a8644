import KernelWrap.Proofs.Outputs

/-! Links. A link that is spelled by names leads from the output directory down to the place of its
artifact, whatever the text of the output directory is. So two such links have artifacts of one path
exactly when these lie at one place, and inputs that pass the check of their artifacts have artifacts
at different places. -/

namespace KernelWrap

theorem Component.ofName_inj {m n : List Char} (h : ofName m = ofName n) : m = n := by
  unfold ofName at h
  split at h <;> split at h <;> simp_all

theorem Place.foldl_enter (p : Place) {pieces : List (List Char)} (h : ['.', '.'] ∉ pieces) :
    pieces.foldl Place.enter p = p ++ pieces.filter fun n => n ≠ [] ∧ n ≠ ['.'] := by
  induction pieces generalizing p with
  | nil => simp
  | cons a pieces ih =>
    obtain ⟨ha, hp⟩ := not_or.1 (mt List.mem_cons.2 h)
    rw [List.foldl_cons, ih _ hp, List.filter_cons]
    by_cases hn : a = [] ∨ a = ['.']
    · rw [Place.enter, if_pos hn, if_neg (by simpa using fun h0 => hn.resolve_left h0)]
    · rw [Place.enter, if_neg hn, if_neg (Ne.symm ha), if_pos (by simpa using not_or.1 hn)]
      simp

namespace Path

variable {q : Path}

theorem target_join (here : Place) (p : Path) (hq : q.isAbsolute = false) :
    (p.join q).target here = q.target (p.target here) := by
  obtain ⟨s⟩ := p
  by_cases hs : s = []
  · subst hs
    rw [join_nil hq, target, target, hq]
    rfl
  obtain ⟨t, h, hj⟩ := join_relative (p := ⟨s⟩) hs hq
  have habs : ((⟨s⟩ : Path).join q).isAbsolute = (⟨s⟩ : Path).isAbsolute := by
    rw [isAbsolute, isAbsolute, hj]
    rcases h with rfl | rfl
    · obtain ⟨c, r, rfl⟩ := List.exists_cons_of_ne_nil hs
      rfl
    · cases t <;> rfl
  have htarget : (⟨s⟩ : Path).target here = (splitSlashes t).foldl Place.enter
      (if (⟨s⟩ : Path).isAbsolute then [] else here) := by
    rw [target]
    rcases h with rfl | rfl
    · rfl
    · rw [splitSlashes, Text.pieces_append, List.foldl_append]
      rfl
  rw [htarget, target, target, habs, hj, hq, splitSlashes, Text.pieces_append, List.foldl_append]
  rfl

theorem target_of_parts (here : Place) (hq : q.isAbsolute = false)
    (hup : ['.', '.'] ∉ parts q.chars) : q.target here = here ++ parts q.chars := by
  have hpieces : ['.', '.'] ∉ splitSlashes q.chars := fun h =>
    hup (List.mem_filter.2 ⟨h, by decide⟩)
  rw [target, hq, if_neg Bool.false_ne_true, Place.foldl_enter _ hpieces]
  rfl

end Path

namespace Input
open KernelWrap.Path

variable {i j : Input}

/-- The link is spelled by names: it is relative, and free of `.` and `..`. -/
def Linked (i : Input) : Prop := ∀ c ∈ i.link.components, ∃ n, c = .name n

instance : DecidablePred Linked := fun i =>
  decidable_of_iff (∀ c ∈ i.link.components, c.rank = 3) (forall₂_congr fun c _ => by
    cases c <;> simp [Component.rank])

namespace Linked

theorem lead_eq (h : i.Linked) : lead i.link.chars = [] := by
  have hstart : ∀ c, start i.link.chars = [c] → ∃ n, c = .name n := fun c e =>
    h c (by rw [components_eq, e]; exact List.mem_cons_self)
  rcases lead_cases i.link.chars with e | e | e
  · exact e
  · obtain ⟨n, hn⟩ := hstart .root (by simp [start, e])
    cases hn
  · obtain ⟨n, hn⟩ := hstart .here (by simp [start, e])
    cases hn

theorem lead_extended (h : i.Linked) : lead (i.link.extended ".rs").chars = [] := by
  have hl := h.lead_eq
  rw [extended]
  generalize i.link.chars = s at hl ⊢
  cases s with
  | nil => rfl
  | cons c s =>
    have hc : c ≠ '/' := by
      rintro rfl
      cases hl
    by_cases hh : c = '.'
    · subst hh
      cases s with
      | nil => cases hl
      | cons d s =>
        have hd : d ≠ '/' := by
          rintro rfl
          cases hl
        simp [lead, hd]
    · simp [lead, hc, hh]

theorem exists_parts (h : i.Linked) : parts (i.link.extended ".rs").chars ≠ [] ∧
    ['.', '.'] ∉ parts (i.link.extended ".rs").chars := by
  obtain ⟨init, last, hpieces⟩ := Text.exists_pieces_concat '/' i.link.chars
  have hlink : splitSlashes i.link.chars = init ++ [last] := by
    have e := hpieces [] List.not_mem_nil
    rwa [List.append_nil, List.append_nil] at e
  have hlong : ∀ n : List Char, n.length ≤ 2 → last ++ ".rs".toList ≠ n := fun n hn e => by
    have := congrArg List.length e
    rw [List.length_append, show ".rs".toList.length = 3 from rfl] at this
    omega
  have hparts : parts (i.link.extended ".rs").chars =
      (init.filter fun n => n ≠ [] ∧ n ≠ ['.']) ++ [last ++ ".rs".toList] := by
    rw [parts, extended, splitSlashes, hpieces _ (by decide), List.filter_append]
    congr 1
    exact List.filter_cons_of_pos
      (by simpa using (⟨hlong [] (by decide), hlong ['.'] (by decide)⟩ : _ ∧ _))
  rw [hparts]
  refine ⟨by simp, fun hup => ?_⟩
  rcases List.mem_append.1 hup with hup | hup
  · have hmem : ['.', '.'] ∈ parts i.link.chars := by
      rw [parts, hlink, List.filter_append]
      exact List.mem_append_left _ hup
    obtain ⟨n, hn⟩ := h .up (by
      rw [components_of_lead h.lead_eq]
      exact List.mem_map.2 ⟨_, hmem, rfl⟩)
    cases hn
  · exact hlong ['.', '.'] (by decide) (List.mem_singleton.1 hup).symm

theorem artifact_eq (h : i.Linked) (out : Path) :
    i.artifact out = out.join (i.link.extended ".rs") := by
  have hlink := isAbsolute_of_lead h.lead_eq
  have hextended := isAbsolute_of_lead h.lead_extended
  rw [artifact, join, join, hlink, hextended]
  cases out.chars.getLast? with
  | none => rfl
  | some c => simp [extended]

theorem target_artifact (h : i.Linked) (out : Path) (here : Place) :
    (i.artifact out).target here = out.target here ++ parts (i.link.extended ".rs").chars := by
  have habs := isAbsolute_of_lead h.lead_extended
  rw [h.artifact_eq, target_join here out habs, target_of_parts _ habs h.exists_parts.2]

theorem same_artifact_iff (hi : i.Linked) (hj : j.Linked) (out : Path) (here : Place) :
    (i.artifact out).same (j.artifact out) = true ↔
      (i.artifact out).target here = (j.artifact out).target here := by
  rw [same, beq_iff_eq, hi.target_artifact, hj.target_artifact, hi.artifact_eq, hj.artifact_eq,
    components_join out hi.lead_extended, components_join out hj.lead_extended,
    List.append_cancel_left_eq, List.append_cancel_left_eq, components_of_lead hi.lead_extended,
    components_of_lead hj.lead_extended]
  exact List.map_inj_right fun _ _ => Component.ofName_inj

end Linked

end Input

namespace Generator

variable {g : Generator} {inputs : List Input}

theorem clash?_eq_none {claimed : List (Path × Path)} : g.clash? claimed inputs = none ↔
    (∀ i ∈ inputs, ∀ c ∈ claimed, ¬c.1.same (i.artifact g.out) = true) ∧
      inputs.Pairwise fun i j => ¬(i.artifact g.out).same (j.artifact g.out) = true := by
  induction inputs generalizing claimed with
  | nil => simp [clash?]
  | cons i inputs ih =>
    rw [clash?]
    cases hf : claimed.find? fun c => c.1.same (i.artifact g.out) with
    | some c =>
      have hc := List.find?_some hf
      have hmem := List.mem_of_find?_eq_some hf
      exact iff_of_false nofun fun h => h.1 i List.mem_cons_self c hmem hc
    | none =>
      rw [List.find?_eq_none] at hf
      dsimp only
      rw [ih, List.pairwise_cons, List.forall_mem_cons]
      constructor
      · rintro ⟨hall, hpair⟩
        exact ⟨⟨hf, fun j hj c hc => hall j hj c (List.mem_cons_of_mem _ hc)⟩,
          fun j hj => hall j hj _ List.mem_cons_self, hpair⟩
      · rintro ⟨⟨-, hall⟩, hi, hpair⟩
        exact ⟨fun j hj => List.forall_mem_cons.2 ⟨hi j hj, hall j hj⟩, hpair⟩

theorem nodup_places (hlinks : ∀ i ∈ inputs, i.Linked) (h : g.clash? [] inputs = none)
    (here : Place) : (inputs.map (g.place here)).Nodup := by
  rw [List.Nodup, List.pairwise_map]
  refine (clash?_eq_none.1 h).2.imp_of_mem fun {i j} hi hj hne he => hne ?_
  exact ((hlinks i hi).same_artifact_iff (hlinks j hj) g.out here).2 he

theorem out_prefix {i : Input} (h : i.Linked) (here : Place) :
    g.out.target here <+: g.place here i ∧ g.out.target here <+: (g.place here i).digest := by
  rw [place, h.target_artifact]
  refine ⟨List.prefix_append _ _, ?_⟩
  rw [Place.digest, List.dropLast_append_of_ne_nil h.exists_parts.1, List.append_assoc]
  exact List.prefix_append _ _

end Generator

end KernelWrap
