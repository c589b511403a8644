import KernelWrap.Path
import KernelWrap.Proofs.Lines
import Mathlib.Data.List.Induction

/-! Paths below a directory. A path that is spelled by names alone has exactly these names as its
components, wherever it stands: behind a directory it adds them to the components of the directory,
and what is left of it below that directory is the path itself. -/

namespace KernelWrap

namespace Path

structure IsPart (n : List Char) : Prop where
  nonempty : n ≠ []
  unsplit : '/' ∉ n
  notHere : n ≠ ['.']

structure IsName (n : List Char) : Prop extends IsPart n where
  notUp : n ≠ ['.', '.']

theorem IsName.ofName {n : List Char} (h : IsName n) : Component.ofName n = .name n := if_neg h.notUp

namespace IsPart

variable {n : List Char}

theorem reverse (h : IsPart n) : IsPart n.reverse where
  nonempty := fun e => h.nonempty (List.reverse_eq_nil_iff.1 e)
  unsplit := fun m => h.unsplit (List.mem_reverse.1 m)
  notHere := fun e => h.notHere (by rw [← n.reverse_reverse, e]; rfl)

theorem cases_cons (h : IsPart n) : ∃ c r, n = c :: r ∧ c ≠ '/' ∧
    (c = '.' → ∃ d r', r = d :: r' ∧ d ≠ '/') := by
  obtain ⟨c, r, rfl⟩ := List.exists_cons_of_ne_nil h.nonempty
  refine ⟨c, r, rfl, fun e => h.unsplit (e ▸ List.mem_cons_self), fun e => ?_⟩
  cases r with
  | nil => exact absurd (e ▸ rfl) h.notHere
  | cons d r' =>
    exact ⟨d, r', rfl, fun e => h.unsplit (e ▸ List.mem_cons_of_mem c List.mem_cons_self)⟩

end IsPart

section Parts

variable {n : List Char} (h : IsPart n) (s : List Char)
include h

theorem lead_part : lead (n ++ s) = [] := by
  obtain ⟨c, r, rfl, hc, hd⟩ := h.cases_cons
  by_cases e : c = '.'
  · obtain ⟨d, r', rfl, hs⟩ := hd e
    subst e
    simp [lead, hs]
  · simp [lead, hc, e]

theorem trimFront_part : trimFront (n ++ s) = n ++ s := by
  obtain ⟨c, r, rfl, hc, hd⟩ := h.cases_cons
  by_cases e : c = '.'
  · obtain ⟨d, r', rfl, hs⟩ := hd e
    subst e
    simp [trimFront, hs]
  · simp [trimFront, hc, e]

theorem trimBack_part : trimBack (n.reverse ++ s) = n.reverse ++ s := by
  obtain ⟨c, r, hr, hc, hd⟩ := h.reverse.cases_cons
  rw [hr]
  by_cases e : c = '.'
  · obtain ⟨d, r', rfl, hs⟩ := hd e
    subst e
    simp [trimBack, hs]
  · simp [trimBack, hc, e]

theorem dropWhile_part : (n ++ '/' :: s).dropWhile (· != '/') = '/' :: s := by
  have hn : ∀ c ∈ n, (c != '/') = true := fun c hc => bne_iff_ne.2 fun e => h.unsplit (e ▸ hc)
  rw [List.dropWhile_append_of_pos hn, List.dropWhile_cons_of_neg (by decide)]

end Parts

def parts (s : List Char) : List (List Char) := (splitSlashes s).filter fun n => n ≠ [] ∧ n ≠ ['.']

def start (s : List Char) : List Component :=
  match lead s with
  | ['/'] => [.root]
  | ['.'] => [.here]
  | _ => []

theorem components_eq (p : Path) :
    p.components = start p.chars ++ (parts (body p.chars)).map .ofName := rfl

theorem lead_cases (s : List Char) : lead s = [] ∨ lead s = ['/'] ∨ lead s = ['.'] := by
  unfold lead
  split <;> simp

theorem length_start (s : List Char) : (start s).length = (lead s).length := by
  rw [start]
  obtain e | e | e := lead_cases s <;> simp [e]

theorem parts_append (a b : List Char) : parts (a ++ '/' :: b) = parts a ++ parts b := by
  rw [parts, splitSlashes, Text.pieces_append, List.filter_append]
  rfl

theorem parts_of_notMem {s : List Char} (h : '/' ∉ s) :
    parts s = if s ≠ [] ∧ s ≠ ['.'] then [s] else [] := by
  rw [parts, splitSlashes, Text.pieces_of_notMem h, List.filter_cons]
  simp only [decide_eq_true_eq, List.filter_nil]

theorem parts_part {n : List Char} (h : IsPart n) : parts n = [n] := by
  rw [parts_of_notMem h.unsplit, if_pos ⟨h.nonempty, h.notHere⟩]

theorem parts_ne_nil {s : List Char} (hs : s ≠ []) (hl : lead s = []) :
    parts (body s) ≠ [] := by
  have hb : body s = s := by rw [body, hl]; rfl
  rw [hb]
  by_cases hm : '/' ∈ s
  · obtain ⟨a, b, rfl, ha⟩ := List.eq_append_cons_of_mem hm
    have hn : a ≠ [] := fun e => by simp [e, lead] at hl
    have hd : a ≠ ['.'] := fun e => by simp [e, lead] at hl
    rw [parts_append, parts_of_notMem ha, if_pos ⟨hn, hd⟩]
    exact List.cons_ne_nil _ _
  · have hd : s ≠ ['.'] := fun e => by simp [e, lead] at hl
    rw [parts_of_notMem hm, if_pos ⟨hs, hd⟩]
    exact List.cons_ne_nil _ _

section Names

def below (dirs : List (List Char)) : List Char := dirs.flatMap fun n => n ++ ['/']

def ofNames (names : List (List Char)) : Path := ⟨List.intercalate ['/'] names⟩

theorem below_cons_append (n : List Char) (dirs : List (List Char)) (s : List Char) :
    below (n :: dirs) ++ s = n ++ '/' :: (below dirs ++ s) := by
  rw [below, List.flatMap_cons, ← below, List.append_assoc, List.append_assoc]
  rfl

theorem ofNames_concat (dirs : List (List Char)) (n : List Char) :
    ofNames (dirs ++ [n]) = ⟨below dirs ++ n⟩ := by
  induction dirs with
  | nil => exact congrArg Path.mk List.intercalate_singleton
  | cons a dirs ih =>
    obtain ⟨b, l, hb⟩ : ∃ b l, dirs ++ [n] = b :: l :=
      List.exists_cons_of_ne_nil (List.append_ne_nil_of_right_ne_nil _ (List.cons_ne_nil _ _))
    rw [ofNames, hb, Path.mk.injEq] at ih
    rw [ofNames, List.cons_append, hb, List.intercalate_cons_cons, ih, below_cons_append,
      List.append_assoc]
    rfl

section Below

variable {dirs : List (List Char)} (hd : ∀ n ∈ dirs, IsName n)
include hd

theorem parts_below (s : List Char) : parts (below dirs ++ s) = dirs ++ parts s := by
  induction dirs with
  | nil => rfl
  | cons a dirs ih =>
    rw [below_cons_append, parts_append, parts_part (hd a List.mem_cons_self).toIsPart,
      ih fun m hm => hd m (List.mem_cons_of_mem a hm)]
    rfl

variable {n : List Char} (hn : IsPart n)
include hn

theorem exists_below_eq : ∃ m s, IsPart m ∧ below dirs ++ n = m ++ s := by
  cases dirs with
  | nil => exact ⟨n, [], hn, (List.append_nil n).symm⟩
  | cons a dirs => exact ⟨a, _, (hd a List.mem_cons_self).toIsPart, below_cons_append a dirs n⟩

theorem lead_below : lead (below dirs ++ n) = [] := by
  obtain ⟨m, s, h, e⟩ := exists_below_eq hd hn
  rw [e, lead_part h]

theorem body_below : body (below dirs ++ n) = below dirs ++ n := by
  rw [body, lead_below hd hn]
  rfl

theorem trimFront_below : trimFront (below dirs ++ n) = below dirs ++ n := by
  obtain ⟨m, s, h, e⟩ := exists_below_eq hd hn
  rw [e, trimFront_part h]

omit hd in
theorem trimBack_below : (trimBack (below dirs ++ n).reverse).reverse = below dirs ++ n := by
  rw [List.reverse_append, trimBack_part hn, ← List.reverse_append, List.reverse_reverse]

theorem trimEnd_below : trimEnd (below dirs ++ n) = below dirs ++ n := by
  rw [trimEnd, lead_below hd hn, body_below hd hn, trimBack_below hn]
  rfl

theorem components_below :
    (⟨below dirs ++ n⟩ : Path).components = dirs.map .name ++ [.ofName n] := by
  have hm : dirs.map Component.ofName = dirs.map .name :=
    List.map_congr_left fun m h => (hd m h).ofName
  rw [components_eq, body_below hd hn, parts_below hd, parts_part hn, start, lead_below hd hn,
    List.map_append, hm]
  rfl

theorem isAbsolute_below : (⟨below dirs ++ n⟩ : Path).isAbsolute = false := by
  obtain ⟨m, s, h, e⟩ := exists_below_eq hd hn
  obtain ⟨c, r, rfl, hc, -⟩ := h.cases_cons
  rw [isAbsolute, e]
  exact beq_false_of_ne fun e => hc (Option.some.inj e)

end Below

variable {names : List (List Char)} (hn : ∀ n ∈ names, IsName n) (hne : names ≠ [])
include hn hne

theorem exists_ofNames_eq : ∃ dirs n, names = dirs ++ [n] ∧ (∀ m ∈ dirs, IsName m) ∧ IsName n ∧
    ofNames names = ⟨below dirs ++ n⟩ := by
  have e := List.dropLast_concat_getLast hne
  refine ⟨_, _, e.symm, fun m hm => hn m (List.dropLast_subset _ hm), hn _ (List.getLast_mem hne), ?_⟩
  rw [← ofNames_concat, e]

theorem trimFront_ofNames : trimFront (ofNames names).chars = (ofNames names).chars := by
  obtain ⟨dirs, n, -, hd, hn, e⟩ := exists_ofNames_eq hn hne
  rw [e, trimFront_below hd hn.toIsPart]

theorem trimBack_ofNames :
    (trimBack (ofNames names).chars.reverse).reverse = (ofNames names).chars := by
  obtain ⟨dirs, n, -, -, hn, e⟩ := exists_ofNames_eq hn hne
  rw [e, trimBack_below hn.toIsPart]

theorem components_ofNames : (ofNames names).components = names.map .name := by
  obtain ⟨dirs, n, rfl, hd, hn, e⟩ := exists_ofNames_eq hn hne
  rw [e, components_below hd hn.toIsPart, hn.ofName, List.map_append]
  rfl

theorem isAbsolute_ofNames : (ofNames names).isAbsolute = false := by
  obtain ⟨dirs, n, -, hd, hn, e⟩ := exists_ofNames_eq hn hne
  rw [e, isAbsolute_below hd hn.toIsPart]

end Names

section Join

variable {p q : Path}

theorem isAbsolute_of_lead (h : lead q.chars = []) : q.isAbsolute = false := by
  obtain ⟨s⟩ := q
  cases s with
  | nil => rfl
  | cons c s => exact beq_false_of_ne fun e => by cases e; cases h

theorem join_nil (hq : q.isAbsolute = false) : (⟨[]⟩ : Path).join q = q := by
  rw [join, hq]
  rfl

theorem join_relative (hp : p.chars ≠ []) (hq : q.isAbsolute = false) :
    ∃ s, (p.chars = s ∨ p.chars = s ++ ['/']) ∧ (p.join q).chars = s ++ '/' :: q.chars := by
  obtain ⟨r, c, hc⟩ : ∃ r c, p.chars = r ++ [c] := ⟨_, _, (List.dropLast_concat_getLast hp).symm⟩
  have hl : p.chars.getLast? = some c := by rw [hc, List.getLast?_concat]
  rw [join, hq, hl]
  by_cases e : c = '/'
  · exact ⟨r, .inr (e ▸ hc), by simp [hc, e]⟩
  · exact ⟨p.chars, .inl rfl, by simp [e]⟩

theorem lead_slash {s : List Char} (hs : s ≠ []) (t : List Char) : lead (s ++ '/' :: t) = lead s := by
  obtain ⟨c, r, rfl⟩ := List.exists_cons_of_ne_nil hs
  by_cases hc : c = '/'
  · subst hc
    rfl
  by_cases hd : c = '.'
  · subst hd
    cases r with
    | nil => rfl
    | cons d r =>
      by_cases he : d = '/'
      · subst he
        rfl
      · simp [lead, he]
  · simp [lead, hc, hd]

theorem body_slash {s : List Char} (hs : s ≠ []) (t : List Char) :
    body (s ++ '/' :: t) = body s ++ '/' :: t := by
  have hl := length_lead_add_body s
  rw [body, lead_slash hs, List.drop_append_of_le_length (by omega)]
  rfl

theorem body_join (hp : p.chars ≠ []) (hq : q.isAbsolute = false) :
    lead (p.join q).chars = lead p.chars ∧
      (parts (body p.chars) = [] ∧ body (p.join q).chars = q.chars ∨
        ∃ b, parts (body p.chars) = parts b ∧ body (p.join q).chars = b ++ '/' :: q.chars) := by
  obtain ⟨s, h, hj⟩ := join_relative hp hq
  rw [hj]
  rcases h with h | h
  · rw [h] at hp ⊢
    exact ⟨lead_slash hp _, .inr ⟨body s, rfl, body_slash hp _⟩⟩
  rw [h]
  by_cases hs : s = []
  · subst hs
    exact ⟨rfl, .inl ⟨rfl, rfl⟩⟩
  · refine ⟨(lead_slash hs _).trans (lead_slash hs []).symm, .inr ⟨body s, ?_, body_slash hs _⟩⟩
    rw [body_slash hs, parts_append]
    exact List.append_nil _

theorem components_of_lead (hq : lead q.chars = []) :
    q.components = (parts q.chars).map .ofName := by
  rw [components_eq, start, body, hq]
  rfl

theorem components_join (p : Path) (hq : lead q.chars = []) :
    (p.join q).components = p.components ++ q.components := by
  have habs := isAbsolute_of_lead hq
  obtain ⟨s⟩ := p
  by_cases hs : s = []
  · subst hs
    rw [join_nil habs]
    rfl
  obtain ⟨hl, hb⟩ := body_join (p := ⟨s⟩) hs habs
  rw [components_eq, components_eq ⟨s⟩, start, hl, ← start, List.append_assoc,
    components_of_lead hq]
  rcases hb with ⟨hp, hb⟩ | ⟨b, hp, hb⟩
  · rw [hb, hp]
    rfl
  · rw [hb, hp, parts_append, List.map_append]

variable {names : List (List Char)}

theorem lead_ofNames (hn : ∀ n ∈ names, IsName n) (hne : names ≠ []) :
    lead (ofNames names).chars = [] := by
  obtain ⟨dirs, n, -, hd, hn, e⟩ := exists_ofNames_eq hn hne
  rw [e, lead_below hd hn.toIsPart]

theorem components_join_ofNames (p : Path) (hn : ∀ n ∈ names, IsName n) (hne : names ≠ []) :
    (p.join (ofNames names)).components = p.components ++ names.map .name := by
  rw [components_join p (lead_ofNames hn hne), components_ofNames hn hne]

end Join

section Relative

theorem dropNames_slash (k : Nat) (s : List Char) : dropNames k ('/' :: s) = dropNames k s := by
  cases k <;> simp [dropNames, trimFront]

theorem dropNames_here (k : Nat) (s : List Char) : dropNames k ('.' :: '/' :: s) = dropNames k s := by
  cases k <;> simp [dropNames, trimFront]

theorem dropNames_parts (s t : List Char) :
    dropNames (parts s).length (s ++ '/' :: t) = trimFront t := by
  have piece : ∀ a r k, '/' ∉ a →
      dropNames ((parts a).length + k) (a ++ '/' :: r) = dropNames k r := by
    intro a r k ha
    by_cases hn : a ≠ [] ∧ a ≠ ['.']
    · have hp : IsPart a := ⟨hn.1, ha, hn.2⟩
      rw [parts_part hp, List.length_singleton, Nat.add_comm, dropNames, trimFront_part hp,
        dropWhile_part hp]
      rfl
    · rw [parts_of_notMem ha, if_neg hn, List.length_nil, Nat.zero_add]
      obtain rfl | rfl : a = [] ∨ a = ['.'] := by
        by_cases h : a = []
        · exact .inl h
        · exact .inr (not_not.1 fun e => hn ⟨h, e⟩)
      · exact dropNames_slash k r
      · exact dropNames_here k r
  induction s using Text.pieces_induction '/' with
  | last a ha => exact piece a t 0 ha
  | before a b ha ih =>
    rw [parts_append, List.length_append, List.append_assoc, List.cons_append, piece a _ _ ha, ih]

theorem relativeTo?_join {p : Path} (hp : p.chars ≠ []) {names : List (List Char)}
    (hn : ∀ n ∈ names, IsName n) (hne : names ≠ []) :
    (p.join (ofNames names)).relativeTo? p = some (ofNames names) := by
  have hc := components_join_ofNames p hn hne
  obtain ⟨hl, hb⟩ := body_join hp (isAbsolute_ofNames hn hne)
  have hk : p.components.length ≠ 0 := by
    rw [components_eq, List.length_append, List.length_map, length_start]
    intro h
    have h0 := Nat.eq_zero_of_add_eq_zero h
    exact parts_ne_nil hp (List.length_eq_zero_iff.1 h0.1) (List.length_eq_zero_iff.1 h0.2)
  have hd : p.components.length - (lead p.chars).length = (parts (body p.chars)).length := by
    rw [components_eq, List.length_append, List.length_map, length_start, Nat.add_sub_cancel_left]
  have hrest : dropNames (parts (body p.chars)).length (body (p.join (ofNames names)).chars) =
      (ofNames names).chars := by
    rcases hb with ⟨hp, hb⟩ | ⟨b, hp, hb⟩
    · rw [hb, hp]
      exact trimFront_ofNames hn hne
    · rw [hb, hp, dropNames_parts, trimFront_ofNames hn hne]
  rw [relativeTo?]
  simp only [hc, hl, hd, hrest, hk, trimBack_ofNames hn hne, if_false]
  rw [if_pos (List.isPrefixOf_iff_prefix.2 (List.prefix_append _ _))]

end Relative

end Path

end KernelWrap
