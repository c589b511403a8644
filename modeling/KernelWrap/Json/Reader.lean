import KernelWrap.Json.Number
import KernelWrap.Text.Quoted

/-!
Reading JSON from bytes, from left to right, guided by what is expected at each place. Reading ends
with the first fault: the input ends early, it is no JSON, or a value has another type than the one
that is expected. A list or record of the wrong type is refused at its opening bracket, any other
value after it was read. A byte is represented by the character of its code.
-/

namespace KernelWrap.Json

inductive Found where
  | null
  | bool (b : Bool)
  | number (n : Number)
  | text (s : String)
  | list
  | record

def Found.shown : Found → String
  | null => "null"
  | bool b => s!"boolean `{b}`"
  | number n => n.text
  | text s => "string " ++ Text.shown s
  | list => "sequence"
  | record => "map"

inductive Fault where
  | ended
  | malformed
  | mismatch (found : Found) (expected : String)
  | unknownField (name : String) (known : List String)
  | duplicateField (name : String)

def Fault.detail? : Fault → Option String
  | ended | malformed => none
  | mismatch found expected => some s!"invalid type: {found.shown}, expected {expected}"
  | unknownField name known =>
    some (s!"unknown field `{name}`, expected one of " ++
      String.intercalate ", " (known.map fun k => "`" ++ k ++ "`"))
  | duplicateField name => some s!"duplicate field `{name}`"

abbrev Reading (α : Type) := Except Fault (α × List Char)

def ofBytes (b : ByteArray) : List Char := b.toList.map fun x => Char.ofNat x.toNat

def skipBlanks (s : List Char) : List Char :=
  s.dropWhile fun c => c == ' ' || c == '\n' || c == '\t' || c == '\r'

def readWord : List Char → List Char → Except Fault (List Char)
  | [], s => .ok s
  | _ :: _, [] => .error .ended
  | w :: ws, c :: s => if w = c then readWord ws s else .error .malformed

def hexValue? (c : Char) : Option Nat :=
  if isDigit c then some (digitValue c)
  else if 'a' ≤ c && c ≤ 'f' then some (c.toNat - 87)
  else if 'A' ≤ c && c ≤ 'F' then some (c.toNat - 55)
  else none

def hexNumber? (ds : List Char) : Option Nat :=
  ds.foldl (fun n c => n.bind fun n => (hexValue? c).map (16 * n + ·)) (some 0)

/-- Where the reader stands inside a text. A number in UTF-16 whose first half was read is
followed by an escape with the second half. -/
inductive TextState where
  | plain
  | escape
  | hex (digits : List Char) (first : Option Nat)
  | wantsEscape (first : Nat)
  | wantsHex (first : Nat)

def utf8 (n : Nat) : List Char := ofBytes (String.singleton (Char.ofNat n)).toByteArray

def shortEscape? (c : Char) : Option Char :=
  [('\x22', '\x22'), ('\\', '\\'), ('/', '/'), ('b', '\x08'), ('f', '\x0c'), ('n', '\n'),
   ('r', '\r'), ('t', '\t')].lookup c

def readUnit (n : Nat) (first : Option Nat) : Except Fault (TextState × List Char) :=
  match first with
  | some high =>
    if 0xDC00 ≤ n && n ≤ 0xDFFF then
      .ok (.plain, utf8 (0x10000 + (high - 0xD800) * 0x400 + (n - 0xDC00)))
    else .error .malformed
  | none =>
    if 0xDC00 ≤ n && n ≤ 0xDFFF then .error .malformed
    else if 0xD800 ≤ n && n ≤ 0xDBFF then .ok (.wantsEscape n, [])
    else .ok (.plain, utf8 n)

def TextState.step : TextState → Char → Except Fault (TextState × List Char)
  | .plain, c =>
    if c = '\\' then .ok (.escape, [])
    else if c.toNat < 32 then .error .malformed
    else .ok (.plain, [c])
  | .escape, c =>
    if c = 'u' then .ok (.hex [] none, [])
    else
      match shortEscape? c with
      | some d => .ok (.plain, [d])
      | none => .error .malformed
  | .hex ds first, c =>
    if ds.length < 3 then .ok (.hex (ds ++ [c]) first, [])
    else
      match hexNumber? (ds ++ [c]) with
      | some n => readUnit n first
      | none => .error .malformed
  | .wantsEscape n, c => if c = '\\' then .ok (.wantsHex n, []) else .error .malformed
  | .wantsHex n, c => if c = 'u' then .ok (.hex [] (some n), []) else .error .malformed

def readTextBytes : TextState → List Char → Reading (List Char)
  | _, [] => .error .ended
  | state, c :: s =>
    match state, c with
    | .plain, '\x22' => .ok ([], s)
    | state, c =>
      match state.step c with
      | .error f => .error f
      | .ok (next, added) =>
        match readTextBytes next s with
        | .error f => .error f
        | .ok (bytes, rest) => .ok (added ++ bytes, rest)

def readTextTail (s : List Char) : Reading String :=
  match readTextBytes .plain s with
  | .error f => .error f
  | .ok (bytes, rest) =>
    match String.fromUTF8? ⟨(bytes.map fun c => c.toNat.toUInt8).toArray⟩ with
    | none => .error .malformed
    | some t => .ok (t, rest)

def readDigits (s : List Char) : Reading (List Char) :=
  match s with
  | [] => .error .ended
  | c :: _ =>
    if isDigit c then .ok (s.takeWhile isDigit, s.dropWhile isDigit) else .error .malformed

def readFraction (s : List Char) : Reading (Option (List Char)) :=
  match s with
  | '.' :: s => (readDigits s).map fun (ds, s) => (some ds, s)
  | s => .ok (none, s)

def readExponent (s : List Char) : Reading (Option (Bool × List Char)) :=
  let tail (s : List Char) : Reading (Option (Bool × List Char)) :=
    match s with
    | '+' :: s => (readDigits s).map fun (ds, s) => (some (false, ds), s)
    | '-' :: s => (readDigits s).map fun (ds, s) => (some (true, ds), s)
    | s => (readDigits s).map fun (ds, s) => (some (false, ds), s)
  match s with
  | 'e' :: s => tail s
  | 'E' :: s => tail s
  | s => .ok (none, s)

def readNumber (negative : Bool) (s : List Char) : Except Fault (Number × List Char) := do
  let (whole, s) ← readDigits s
  if whole.head? = some '0' && whole.length ≠ 1 then throw .malformed
  let (fraction, s) ← readFraction s
  let (exponent, s) ← readExponent s
  match NumberText.number? ⟨negative, whole, fraction, exponent⟩ with
  | none => throw .malformed
  | some n => return (n, s)

def unexpected (expected : String) (s : List Char) : Fault :=
  let fault {α : Type} (found : α → Found) (r : Except Fault α) : Fault :=
    match r with
    | .error f => f
    | .ok a => .mismatch (found a) expected
  match s with
  | 'n' :: s => fault (fun _ => .null) (readWord ['u', 'l', 'l'] s)
  | 't' :: s => fault (fun _ => .bool true) (readWord ['r', 'u', 'e'] s)
  | 'f' :: s => fault (fun _ => .bool false) (readWord ['a', 'l', 's', 'e'] s)
  | '-' :: s => fault (fun (n, _) => .number n) (readNumber true s)
  | '\x22' :: s => fault (fun (t, _) => .text t) (readTextTail s)
  | '[' :: _ => .mismatch .list expected
  | '\x7b' :: _ => .mismatch .record expected
  | c :: s =>
    if isDigit c then fault (fun (n, _) => .number n) (readNumber false (c :: s)) else .malformed
  | [] => .malformed

def readBool (s : List Char) : Reading Bool :=
  match skipBlanks s with
  | [] => .error .ended
  | 't' :: s => (readWord ['r', 'u', 'e'] s).map fun s => (true, s)
  | 'f' :: s => (readWord ['a', 'l', 's', 'e'] s).map fun s => (false, s)
  | s => .error (unexpected "a boolean" s)

def readText (expected : String) (s : List Char) : Reading String :=
  match skipBlanks s with
  | [] => .error .ended
  | '\x22' :: s => readTextTail s
  | s => .error (unexpected expected s)

def readOption {α : Type} (read : List Char → Reading α) (s : List Char) : Reading (Option α) :=
  match skipBlanks s with
  | 'n' :: s => (readWord ['u', 'l', 'l'] s).map fun s => (none, s)
  | s => (read s).map fun (a, s) => (some a, s)

def nextItem (first : Bool) (s : List Char) : Except Fault (Option (List Char)) :=
  match skipBlanks s with
  | [] => .error .ended
  | ']' :: _ => .ok none
  | ',' :: s =>
    if first then .ok (some (',' :: s))
    else
      match skipBlanks s with
      | [] => .error .ended
      | ']' :: _ => .error .malformed
      | s => .ok (some s)
  | s => if first then .ok (some s) else .error .malformed

def closeList (s : List Char) : Except Fault (List Char) :=
  match skipBlanks s with
  | [] => .error .ended
  | ']' :: s => .ok s
  | _ => .error .malformed

def readItems {α : Type} (read : List Char → Reading α) : Nat → Bool → List Char → Reading (List α)
  | 0, _, _ => .error .ended
  | fuel + 1, first, s =>
    match nextItem first s with
    | .error f => .error f
    | .ok none => .ok ([], s)
    | .ok (some s) =>
      match read s with
      | .error f => .error f
      | .ok (a, s) => (readItems read fuel false s).map fun (rest, s) => (a :: rest, s)

def readList {α : Type} (read : List Char → Reading α) (s : List Char) :
    Except Fault (List α × List Char) :=
  match skipBlanks s with
  | [] => .error .ended
  | '[' :: s => do
    let (items, s) ← readItems read (s.length + 1) true s
    return (items, ← closeList s)
  | s => .error (unexpected "a sequence" s)

def nextField (first : Bool) (s : List Char) : Reading (Option String) :=
  match skipBlanks s with
  | [] => .error .ended
  | '\x7d' :: s => .ok (none, s)
  | ',' :: s =>
    if first then .error .malformed
    else
      match skipBlanks s with
      | [] => .error .ended
      | '\x22' :: s => (readTextTail s).map fun (t, s) => (some t, s)
      | _ => .error .malformed
  | '\x22' :: s => if first then (readTextTail s).map fun (t, s) => (some t, s) else .error .malformed
  | _ => .error .malformed

def readColon (s : List Char) : Except Fault (List Char) :=
  match skipBlanks s with
  | [] => .error .ended
  | ':' :: s => .ok s
  | _ => .error .malformed

def readEnd (s : List Char) : Except Fault Unit :=
  if (skipBlanks s).isEmpty then .ok () else .error .malformed

end KernelWrap.Json
