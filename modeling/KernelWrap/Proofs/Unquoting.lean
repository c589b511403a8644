import Mathlib.Data.Nat.Digits.Defs
import KernelWrap.Host.Token

/-! Reading a text between quotes by the rules of the host language: the escapes of one letter, a
code below 128 in two digits, the code of any character in braces, and a line end that is skipped
with the blanks behind it. The reader knows nothing of how texts are quoted. It reads back every
text that was quoted, and stops behind the closing quote. -/

namespace KernelWrap.Text

section Reading

def hexValue? (c : Char) : Option Nat :=
  if '0' ≤ c ∧ c ≤ '9' then some (c.toNat - 48)
  else if 'a' ≤ c ∧ c ≤ 'f' then some (c.toNat - 87)
  else if 'A' ≤ c ∧ c ≤ 'F' then some (c.toNat - 55)
  else none

/-- Up to six hexadecimal digits before a closing brace, behind `count` of them whose value is `n`.
Underscores may stand between and behind the digits. -/
def readDigits? (count n : Nat) : List Char → Option (Nat × List Char)
  | [] => none
  | c :: s =>
    if c = '\x7d' then if count = 0 then none else some (n, s)
    else if c = '_' then if count = 0 then none else readDigits? count n s
    else
      match hexValue? c with
      | some v => if count < 6 then readDigits? (count + 1) (16 * n + v) s else none
      | none => none

def isLineBlank (c : Char) : Bool := c == ' ' || c == '\t' || c == '\n' || c == '\r'

/-- What an escape stands for, behind its backslash, and what follows it. The end of a line stands
for nothing. -/
def readEscape? : List Char → Option (Option Char × List Char)
  | 'n' :: s => some (some '\n', s)
  | 'r' :: s => some (some '\r', s)
  | 't' :: s => some (some '\t', s)
  | '0' :: s => some (some '\x00', s)
  | '\\' :: s => some (some '\\', s)
  | '\x22' :: s => some (some '\x22', s)
  | '\x27' :: s => some (some '\x27', s)
  | 'x' :: high :: low :: s =>
    match hexValue? high, hexValue? low with
    | some a, some b => if a < 8 then some (some (Char.ofNat (16 * a + b)), s) else none
    | _, _ => none
  | 'u' :: '\x7b' :: s =>
    match readDigits? 0 0 s with
    | some (n, rest) => if n.isValidChar then some (some (Char.ofNat n), rest) else none
    | none => none
  | '\n' :: s => some (none, s.dropWhile isLineBlank)
  | _ => none

theorem length_of_readDigits? {count n : Nat} {s : List Char} {r : Nat × List Char}
    (h : readDigits? count n s = some r) : r.2.length ≤ s.length := by
  fun_induction readDigits? count n s with
  | case3 => cases h; exact Nat.le_succ _
  | case5 _ _ _ _ _ ih => exact (ih h).trans (Nat.le_succ _)
  | case6 _ _ _ _ _ _ _ _ _ ih => exact (ih h).trans (Nat.le_succ _)
  | _ => cases h

theorem length_of_readEscape? {s : List Char} {r : Option Char × List Char}
    (h : readEscape? s = some r) : r.2.length ≤ s.length := by
  unfold readEscape? at h
  split at h
  case h_8 =>
    split at h
    · split at h
      · cases h
        exact Nat.le_add_right _ 3
      · cases h
    · cases h
  case h_9 s =>
    split at h
    · next n rest hd =>
      split at h
      · cases h
        exact (length_of_readDigits? hd).trans (Nat.le_add_right _ 2)
      · cases h
    · cases h
  case h_10 s =>
    cases h
    exact (List.dropWhile_suffix _).length_le.trans (Nat.le_succ _)
  all_goals first
    | (cases h; exact Nat.le_succ _)
    | cases h

def readQuoted? : List Char → Option (List Char × List Char)
  | [] => none
  | c :: s =>
    if c = '\x22' then some ([], s)
    else if c = '\\' then
      match _h : readEscape? s with
      | some (d, rest) => (readQuoted? rest).map fun r => (d.toList ++ r.1, r.2)
      | none => none
    else if c = '\r' then none
    else (readQuoted? s).map fun r => (c :: r.1, r.2)
  termination_by s => s.length
  decreasing_by
    · exact Nat.lt_succ_of_le (length_of_readEscape? _h)
    · exact Nat.lt_succ_self _

def unquote? : List Char → Option (String × List Char)
  | '\x22' :: s => (readQuoted? s).map fun r => (String.ofList r.1, r.2)
  | _ => none

end Reading

section Digits

theorem hexValue?_digitChar : ∀ n < 16, hexValue? n.digitChar = some n := by decide

theorem readDigits?_digitChar {count n v : Nat} (hv : v < 16) (hc : count < 6) (s : List Char) :
    readDigits? count n (v.digitChar :: s) = readDigits? (count + 1) (16 * n + v) s := by
  have hclose : v.digitChar ≠ '\x7d' := Nat.digitChar_ne _ (by decide)
  have hscore : v.digitChar ≠ '_' := Nat.digitChar_ne _ (by decide)
  rw [readDigits?, if_neg hclose, if_neg hscore, hexValue?_digitChar v hv]
  exact if_pos hc

theorem readDigits?_hexDigits_low {n : Nat} (h : n < 16) (s : List Char) :
    readDigits? 0 0 (hexDigits n ++ s) = readDigits? 1 n s := by
  rw [hexDigits, Nat.toDigits_of_lt_base h, List.singleton_append,
    readDigits?_digitChar h (by decide)]
  simp only [Nat.mul_zero, Nat.zero_add]

theorem readDigits?_hexDigits (n : Nat) {k : Nat} (hn : n < 16 ^ (k + 1)) (hk : k < 6)
    (s : List Char) :
    ∃ count, 0 < count ∧ count ≤ k + 1 ∧
      readDigits? 0 0 (hexDigits n ++ s) = readDigits? count n s := by
  induction k generalizing n s with
  | zero => exact ⟨1, Nat.one_pos, le_rfl, readDigits?_hexDigits_low hn s⟩
  | succ k ih =>
    by_cases hlow : n < 16
    · exact ⟨1, Nat.one_pos, Nat.le_add_left 1 _, readDigits?_hexDigits_low hlow s⟩
    -- All digits but the last are those of the quotient, and the last is read with what follows.
    · have hdiv : n / 16 < 16 ^ (k + 1) := Nat.div_lt_of_lt_mul (by rw [← pow_succ']; exact hn)
      obtain ⟨count, hpos, hcount, hread⟩ := ih (n / 16) hdiv (by omega) ((n % 16).digitChar :: s)
      refine ⟨count + 1, Nat.succ_pos _, Nat.succ_le_succ hcount, ?_⟩
      rw [hexDigits, Nat.toDigits_of_base_le (by decide) (Nat.le_of_not_lt hlow), List.append_assoc,
        List.singleton_append]
      refine hread.trans ?_
      rw [readDigits?_digitChar (Nat.mod_lt _ (by decide)) (by omega), Nat.div_add_mod]

theorem readEscape?_codePoint (c : Char) (s : List Char) :
    readEscape? ('u' :: '\x7b' :: hexDigits c.toNat ++ ['\x7d'] ++ s) = some (some c, s) := by
  have hvalid : c.toNat.isValidChar := c.valid
  have hc : c.toNat < 16 ^ (5 + 1) := by
    simp only [Nat.isValidChar] at hvalid
    omega
  obtain ⟨count, hpos, -, hread⟩ := readDigits?_hexDigits c.toNat hc (by decide) ('\x7d' :: s)
  have hbrace : readDigits? count c.toNat ('\x7d' :: s) = some (c.toNat, s) := by
    rw [readDigits?, if_pos rfl, if_neg (Nat.ne_of_gt hpos)]
  have hall : 'u' :: '\x7b' :: hexDigits c.toNat ++ ['\x7d'] ++ s =
      'u' :: '\x7b' :: (hexDigits c.toNat ++ '\x7d' :: s) := by simp
  rw [hall, readEscape?, hread, hbrace]
  dsimp only
  rw [if_pos hvalid, Char.ofNat_toNat]

end Digits

section Quoting

theorem readQuoted?_escape {e s : List Char} {c : Char}
    (h : readEscape? (e ++ s) = some (some c, s)) :
    readQuoted? ('\\' :: e ++ s) = (readQuoted? s).map fun r => (c :: r.1, r.2) := by
  rw [List.cons_append, readQuoted?, if_neg (by decide), if_pos rfl]
  split
  · next d rest hd =>
    cases h.symm.trans hd
    rfl
  · next hd => cases h.symm.trans hd

theorem readQuoted?_quotedChar (c : Char) (next : Option Char) (s : List Char) :
    readQuoted? (quotedChar c next ++ s) = (readQuoted? s).map fun r => (c :: r.1, r.2) := by
  unfold quotedChar
  split_ifs with hnull hnext hquote hslash hfeed hreturn htab hcode
  · subst hnull
    exact readQuoted?_escape (e := ['x', '0', '0']) rfl
  · subst hnull
    exact readQuoted?_escape (e := ['0']) rfl
  · subst hquote
    exact readQuoted?_escape (e := ['\x22']) rfl
  · subst hslash
    exact readQuoted?_escape (e := ['\\']) rfl
  · subst hfeed
    exact readQuoted?_escape (e := ['n']) rfl
  · subst hreturn
    exact readQuoted?_escape (e := ['r']) rfl
  · subst htab
    exact readQuoted?_escape (e := ['t']) rfl
  · exact readQuoted?_escape (readEscape?_codePoint c s)
  · rw [List.singleton_append, readQuoted?, if_neg hquote, if_neg hslash, if_neg hreturn]

theorem readQuoted?_quotedChars (s rest : List Char) :
    readQuoted? (quotedChars s ++ '\x22' :: rest) = some (s, rest) := by
  induction s with
  | nil =>
    rw [quotedChars, List.nil_append, readQuoted?, if_pos rfl]
  | cons c s ih =>
    rw [quotedChars, List.append_assoc, readQuoted?_quotedChar, ih]
    rfl

theorem unquote?_quoted (s : String) (rest : List Char) :
    unquote? ((quoted s).toList ++ rest) = some (s, rest) := by
  rw [quoted, String.toList_ofList, List.cons_append, List.cons_append, List.append_assoc,
    List.singleton_append, unquote?, readQuoted?_quotedChars, Option.map_some, String.ofList_toList]

-- Spellings that no quoted text has are read as well.
example : unquote? "\"\\x41\\u\x7b1_F600\x7d\\\x27\\\n  b\" c".toList =
    some ("A😀\x27b", " c".toList) := by
  decide +kernel

end Quoting

end KernelWrap.Text
