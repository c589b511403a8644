import KernelWrap.Proofs.Outputs

/-! The directories above a file. The parent of a path is a start of its text with a slash behind it,
so whoever follows a path steps through its parents. Directories that are made above a file are
therefore directories on every disk on which the path of the file leads to a place. -/

namespace KernelWrap

namespace Path

theorem lead_append_body (s : List Char) : lead s ++ body s = s := by
  have hp : lead s <+: s := by
    unfold lead
    split <;> simp
  exact List.prefix_iff_eq_append.1 hp

theorem lead_eq_here {s : List Char} (h : lead s = ['.']) : s = ['.'] ∨ ∃ t, s = '.' :: '/' :: t := by
  unfold lead at h
  split at h
  · cases h
  · exact .inl rfl
  · exact .inr ⟨_, rfl⟩
  · cases h

theorem trimBack_cases (s : List Char) : ∃ w, s = w ++ trimBack s ∧
    (trimBack s).head? ≠ some '/' ∧ (trimBack s ≠ [] → w = [] ∨ w.getLast? = some '/') := by
  fun_induction trimBack s with
  | case1 s ih =>
    obtain ⟨w, hs, hh, hw⟩ := ih
    refine ⟨'/' :: w, congrArg ('/' :: ·) hs, hh, fun hn => .inr ?_⟩
    rcases hw hn with rfl | hw
    · rfl
    · rw [List.getLast?_cons, hw]; rfl
  | case2 s ih =>
    obtain ⟨w, hs, hh, hw⟩ := ih
    refine ⟨'.' :: '/' :: w, congrArg ('.' :: '/' :: ·) hs, hh, fun hn => .inr ?_⟩
    rcases hw hn with rfl | hw
    · rfl
    · rw [List.getLast?_cons, List.getLast?_cons, hw]; rfl
  | case3 => exact ⟨['.'], rfl, by simp, fun h => absurd rfl h⟩
  | case4 s h₁ h₂ h₃ =>
    refine ⟨[], rfl, fun h => ?_, fun _ => .inl rfl⟩
    cases s with
    | nil => cases h
    | cons c s => cases h; exact h₁ s rfl

theorem lead_of_body {s : List Char} (h : body s ≠ []) :
    lead s = [] ∨ lead s = ['/'] ∨ lead s = ['.'] ∧ ∃ t, s = '.' :: '/' :: t := by
  rcases lead_cases s with e | e | e
  · exact .inl e
  · exact .inr (.inl e)
  · obtain rfl | hs := lead_eq_here e
    · exact absurd rfl h
    · exact .inr (.inr ⟨e, hs⟩)

theorem exists_name_of_trimBack {b : List Char}
    (h : trimBack ((b.dropWhile (· != '/')).drop 1) ≠ []) :
    ∃ rest, b.reverse = (trimBack ((b.dropWhile (· != '/')).drop 1)).reverse ++ '/' :: rest := by
  obtain ⟨w, hw, -, hcut⟩ := trimBack_cases ((b.dropWhile (· != '/')).drop 1)
  generalize trimBack ((b.dropWhile (· != '/')).drop 1) = z at h hw hcut
  obtain ⟨y, hy⟩ : ∃ y, b.dropWhile (· != '/') = '/' :: y := by
    have hnot := List.head?_dropWhile_not (· != '/') b
    cases hd : b.dropWhile (· != '/') with
    | nil =>
      rw [hd] at hw
      exact absurd (List.append_eq_nil_iff.1 hw.symm).2 h
    | cons c y =>
      rw [hd] at hnot
      exact ⟨y, by rw [show c = '/' by simpa using hnot]⟩
  have hsplit : b = b.takeWhile (· != '/') ++ '/' :: (w ++ z) := by
    rw [hy, List.drop_one, List.tail_cons] at hw
    rw [← hw, ← hy, List.takeWhile_append_dropWhile]
  generalize b.takeWhile (· != '/') = x at hsplit
  rcases hcut h with rfl | hlast
  · exact ⟨x.reverse, by simp [hsplit]⟩
  · obtain ⟨v, rfl⟩ := List.getLast?_eq_some_iff.1 hlast
    exact ⟨v.reverse ++ '/' :: x.reverse, by simp [hsplit]⟩

theorem not_endsWithSlash_trimBack {start s : List Char} (h : trimBack s ≠ []) :
    ¬Disk.endsWithSlash ⟨start ++ (trimBack s).reverse⟩ = true := by
  obtain ⟨-, -, hhead, -⟩ := trimBack_cases s
  intro he
  have hl := beq_iff_eq.1 he
  rw [List.getLast?_append, List.getLast?_reverse] at hl
  cases hs : trimBack s with
  | nil => exact h hs
  | cons c t =>
    rw [hs] at hl hhead
    exact hhead hl

/-- A parent is nothing, the root, or a start of the path that a slash ends. -/
theorem parent?_cases {p q : Path} (h : p.parent? = some q) : q.chars = [] ∨ q.chars = ['/'] ∨
    (q.chars ≠ [] ∧ ¬Disk.endsWithSlash q = true ∧ ∃ rest, p.chars = q.chars ++ '/' :: rest) := by
  unfold parent? at h
  obtain ⟨w, hb, -, -⟩ := trimBack_cases (body p.chars).reverse
  generalize trimBack (body p.chars).reverse = b at h hb
  cases b with
  | nil =>
    dsimp only at h
    split at h
    · cases h
      exact .inl rfl
    · cases h
    · next hn => cases hn
  | cons c b =>
    have hbody : body p.chars = (c :: b).reverse ++ w.reverse := by
      rw [← List.reverse_append, ← hb, List.reverse_reverse]
    obtain rfl := Option.some.inj h
    dsimp only
    by_cases hz : trimBack (((c :: b).dropWhile (· != '/')).drop 1) = []
    · -- The path is one name behind its lead.
      rw [hz, List.reverse_nil, List.append_nil]
      obtain e | e | ⟨e, t, ht⟩ := lead_of_body (s := p.chars) (by simp [hbody])
      · exact .inl e
      · exact .inr (.inl e)
      · rw [e]
        exact .inr (.inr ⟨by decide, by decide, t, ht⟩)
    · obtain ⟨rest, hrest⟩ := exists_name_of_trimBack hz
      have hnil : lead p.chars ++
          (trimBack (((c :: b).dropWhile (· != '/')).drop 1)).reverse ≠ [] :=
        List.append_ne_nil_of_right_ne_nil _ (mt List.reverse_eq_nil_iff.1 hz)
      refine .inr (.inr ⟨hnil, not_endsWithSlash_trimBack hz, rest ++ w.reverse, ?_⟩)
      calc p.chars = lead p.chars ++ ((c :: b).reverse ++ w.reverse) := by
            rw [← hbody, lead_append_body]
        _ = _ := by rw [hrest]; simp

/-- A path passes through a place when it is a directory wherever the path leads to a place. -/
def Passes (here : Place) (p : Path) (q : Place) : Prop :=
  ∀ d : Disk, d.here = here → ∀ r, d.locate p = .ok r → d.lookup q = some .directory

end Path

namespace Disk

variable {d d' d'' : Disk} {V : Place → Prop}

theorem follow_append {xs ys : List (List Char)} {q r : Place} :
    d.follow q (xs ++ ys) = .ok r ↔ ∃ m, d.follow q xs = .ok m ∧ d.follow m ys = .ok r := by
  induction xs generalizing q with
  | nil => simp [follow]
  | cons x xs ih =>
    rw [List.cons_append, follow, follow]
    split
    · simp
    · exact ih

theorem lookup_of_enter {q r : Place} {piece : List Char} (h : d.enter q piece = .ok r) :
    d.lookup q = some .directory := by
  unfold enter at h
  split at h
  · cases h
  · cases h
  · assumption

theorem passes_of_append {p q : Path} {rest : List Char} (hq : q.chars ≠ [])
    (h : p.chars = q.chars ++ '/' :: rest) (here : Place) : p.Passes here (q.target here) := by
  rintro d rfl r hr
  have habs : p.isAbsolute = q.isAbsolute := by
    obtain ⟨c, s, e⟩ := List.exists_cons_of_ne_nil hq
    rw [Path.isAbsolute, Path.isAbsolute, h, e]
    rfl
  have hf := (locate_eq_ok.1 hr).2
  rw [h, splitSlashes, Text.pieces_append, habs] at hf
  obtain ⟨m, hm, hrest⟩ := follow_append.1 hf
  obtain ⟨x, xs, e⟩ := List.exists_cons_of_ne_nil (Text.pieces_ne_nil '/' rest)
  rw [e, follow] at hrest
  split at hrest
  · cases hrest
  · next hx =>
    have ht : m = q.target d.here := follow_eq hm
    exact ht ▸ lookup_of_enter hx

def Opens (V : Place → Prop) (d d' : Disk) : Prop :=
  ∀ q, d'.lookup q = some .directory → d.lookup q = some .directory ∨ V q

namespace Opens

theorem refl (d : Disk) : Opens V d d := fun _ => .inl

theorem trans (h : Opens V d d') (h' : Opens V d' d'') : Opens V d d'' := by
  intro q hq
  rcases h' q hq with hq | hq
  · exact h q hq
  · exact .inr hq

theorem mono {U : Place → Prop} (h : Opens V d d') (hV : ∀ q, V q → U q) : Opens U d d' :=
  fun q hq => (h q hq).imp_right (hV q)

theorem put_file {p : Place} {content : ByteArray} (hp : d.lookup p ≠ some .directory) :
    Opens V d (d.put p (.file content)) := by
  intro q hq
  by_cases he : q = p
  · subst he
    have hn : q ≠ [] := fun e => hp (by rw [e]; rfl)
    rw [lookup_put_self d hn] at hq
    cases hq
  · rw [lookup_put_of_ne d he] at hq
    exact .inl hq

theorem put_directory {p : Place} (hp : V p) : Opens V d (d.put p .directory) := by
  intro q hq
  by_cases he : q = p
  · exact .inr (he ▸ hp)
  · rw [lookup_put_of_ne d he] at hq
    exact .inl hq

end Opens

def IsAbove (q p : Path) : Prop := q.chars = [] ∨ q.chars = ['/'] ∨
  (q.chars ≠ [] ∧ ¬endsWithSlash q = true ∧ ∃ rest, p.chars = q.chars ++ '/' :: rest)

theorem IsAbove.parent {p q r : Path} (h : IsAbove q p) (hr : q.parent? = some r) : IsAbove r p := by
  rcases Path.parent?_cases hr with e | e | ⟨hr0, hslash, rest', e⟩
  · exact .inl e
  · exact .inr (.inl e)
  · rcases h with h | h | ⟨-, -, rest, h⟩
    · rw [e] at h
      exact absurd h (by simp)
    · rw [e] at h
      obtain ⟨c, s, hc⟩ := List.exists_cons_of_ne_nil hr0
      rw [hc] at h
      exact absurd (congrArg List.length h) (by simp)
    · exact .inr (.inr ⟨hr0, hslash, rest' ++ '/' :: rest, by rw [h, e]; simp⟩)

theorem makeDirectory_opens {p q : Path} (h : IsAbove q p) (hm : d.makeDirectory q = .ok d') :
    Opens (p.Passes d.here) d d' := by
  unfold makeDirectory at hm
  split at hm
  · cases hm
  · next r hr =>
    split at hm
    · cases hm
    · next hn =>
      obtain rfl := Except.ok.inj hm
      rw [locateName] at hr
      rcases h with h | h | ⟨h0, hslash, rest, h⟩
      · rw [h] at hr
        exact absurd rfl (chars_ne_nil_of_locate hr)
      · -- The root is there already.
        rw [h] at hr
        have hroot : r = [] := locate_eq hr
        rw [hroot] at hn
        cases hn
      · rw [trimSlashes_of_not hslash] at hr
        exact .put_directory (locate_eq hr ▸ passes_of_append h0 h d.here)

theorem makeDirectories_opens {p : Path} (d : Disk) (q : Path) (h : IsAbove q p) :
    Opens (p.Passes d.here) d (d.makeDirectories q).2 := by
  fun_induction makeDirectories d q with
  | case1 => exact .refl _
  | case2 _ _ _ hm => exact makeDirectory_opens h hm
  | case3 => exact .refl _
  | case4 q _ _ r hr e d₁ hd ih => exact congrArg Prod.snd hd ▸ ih (h.parent hr)
  | case5 q _ _ r hr d₁ hd d₂ hm ih =>
    have habove := ih (h.parent hr)
    rw [hd] at habove
    have hhere : d₁.here = d.here := by
      have hp := makeDirectories_puts (W := fun _ => True) d r
      rw [hd] at hp
      exact hp.here
    exact habove.trans (hhere ▸ makeDirectory_opens h hm)
  | case6 q _ _ r hr d₁ hd e _ ih => exact congrArg Prod.snd hd ▸ ih (h.parent hr)
  | case7 => exact .refl _

theorem writeBytes_opens {p : Path} {content : ByteArray} (h : d.writeBytes p content = .ok d') :
    Opens V d d' := by
  obtain ⟨q, -, hq, rfl⟩ := writeBytes_eq h
  exact .put_file hq

theorem copy_opens (d : Disk) (s t : Path) : Opens V d (d.copy s t).2 := by
  unfold copy
  split
  · exact .refl d
  · exact .refl d
  · split
    · exact .refl d
    · next emptied he =>
      have h : Opens V d emptied := writeBytes_opens he
      split
      · exact h
      · split
        · exact h
        · next hc => exact h.trans (writeBytes_opens hc)

theorem exists_locate_of_writeBytes {p : Path} {content : ByteArray}
    (h : d.writeBytes p content = .ok d') : ∃ q, d'.locate p = .ok q := by
  obtain ⟨q, hq, -⟩ := writeBytes_eq h
  exact ⟨q, (writeBytes_puts h).locate hq⟩

theorem exists_locate_of_copy {s t : Path} (h : d.copy s t = (.ok (), d')) :
    ∃ q, d'.locate t = .ok q := by
  unfold copy at h
  split at h
  · cases h
  · cases h
  · split at h
    · cases h
    · split at h
      · cases h
      · split at h
        · cases h
        · next hc =>
          cases h
          exact exists_locate_of_writeBytes hc

end Disk

namespace Generator

variable {g : Generator} {i : Input} {d d' : Disk}

theorem makeParent_opens (d : Disk) (p : Path) :
    Disk.Opens (p.Passes d.here) d (makeParent d p).2 := by
  unfold makeParent
  split
  · exact .refl d
  · next q hq =>
    have h := Disk.makeDirectories_opens d q (Path.parent?_cases hq)
    split
    · next hm => exact congrArg Prod.snd hm ▸ h
    · next hm => exact congrArg Prod.snd hm ▸ h

theorem writeArtifact_opens (artifact : Path) (text : String) (d : Disk) :
    Disk.Opens (artifact.Passes d.here) d (writeArtifact artifact text d).2 := by
  have h := makeParent_opens d artifact
  unfold writeArtifact
  generalize makeParent d artifact = made at h ⊢
  obtain ⟨r, d₁⟩ := made
  cases r with
  | error e => exact h
  | ok _ =>
    dsimp only
    cases hw : d₁.writeText artifact text with
    | error e => exact h
    | ok d₂ => exact h.trans (Disk.writeBytes_opens hw)

theorem placeAsset_opens (g : Generator) (u : SourceUnit) (d : Disk) :
    Disk.Opens (fun q => ∃ p, g.asset? u = some p ∧ p.Passes d.here q) d (g.placeAsset u d).2 := by
  unfold placeAsset
  split
  · next assets ha he =>
    dsimp only
    have h := (makeParent_opens d (assets.join u.assetPath)).mono
      (U := fun q => ∃ p, g.asset? u = some p ∧ p.Passes d.here q) fun q hq =>
        ⟨_, by rw [asset?, ha, he], hq⟩
    generalize makeParent d (assets.join u.assetPath) = made at h ⊢
    obtain ⟨r, d₁⟩ := made
    cases r with
    | error e => exact h
    | ok _ =>
      have hc := Disk.copy_opens (V := fun q => ∃ p, g.asset? u = some p ∧ p.Passes d.here q) d₁
        u.path (assets.join u.assetPath)
      dsimp only
      split
      · next hcopy => exact h.trans (congrArg Prod.snd hcopy ▸ hc)
      · next hcopy => exact h.trans (congrArg Prod.snd hcopy ▸ hc)
  · exact .refl d

theorem exists_locate_of_placeAsset {u : SourceUnit} {p : Path}
    (h : g.placeAsset u d = (.ok (), d')) (hp : g.asset? u = some p) :
    ∃ q, d'.locate p = .ok q := by
  unfold asset? at hp
  split at hp
  · next assets ha he =>
    cases hp
    rw [placeAsset, ha, he] at h
    dsimp only at h
    generalize makeParent d (assets.join u.assetPath) = made at h
    obtain ⟨r, d₁⟩ := made
    cases r with
    | error e => cases h
    | ok _ =>
      dsimp only at h
      split at h
      · cases h
      · next hc =>
        cases h
        exact Disk.exists_locate_of_copy hc
  · cases hp

end Generator

end KernelWrap
