import ShapeSchema.Native.Basic
import ShapeSchema.Decimal.Reading

/-!
# Reading JSON

`Native.ofJson?` reads a JSON text strictly: no trailing comma, no comment, no leading zero, no
control character inside a string. Of a repeated key the last value counts.
-/

namespace ShapeSchema.Native.Json

/-- Drops spaces, tabs and line ends. -/
def skip (cs : List Char) : List Char :=
  cs.dropWhile fun c => c == ' ' || c == '\t' || c == '\n' || c == '\r'

/-- The value of four hexadecimal digits. -/
def hex4? : List Char → Option (Nat × List Char)
  | a :: b :: c :: d :: rest =>
    let ds := [a, b, c, d]
    if ds.all fun x => (Decimal.digitValue? 16 x).isSome then some (Decimal.natOfDigits 16 ds, rest)
    else none
  | _ => none

/-- The character of a code unit, joined with a following low surrogate; a lone surrogate becomes
`U+FFFD`. -/
def unitChar (n : Nat) (rest : List Char) : Char × List Char :=
  if 0xD800 ≤ n ∧ n < 0xDC00 then
    match rest with
    | '\\' :: 'u' :: more =>
      match hex4? more with
      | some (low, after) =>
        if 0xDC00 ≤ low ∧ low < 0xE000 then
          (Char.ofNat (0x10000 + (n - 0xD800) * 0x400 + (low - 0xDC00)), after)
        else (Char.ofNat 0xFFFD, rest)
      | none => (Char.ofNat 0xFFFD, rest)
    | _ => (Char.ofNat 0xFFFD, rest)
  else if 0xDC00 ≤ n ∧ n < 0xE000 then (Char.ofNat 0xFFFD, rest)
  else (Char.ofNat n, rest)

/-- Characters up to the closing quote. -/
def string? : Nat → List Char → Option (List Char × List Char)
  | 0, _ => none
  | _ + 1, [] => none
  | _ + 1, '"' :: rest => some ([], rest)
  | fuel + 1, '\\' :: c :: rest =>
    let simple (x : Char) := (string? fuel rest).map fun p => (x :: p.1, p.2)
    match c with
    | '"' => simple '"'
    | '\\' => simple '\\'
    | '/' => simple '/'
    | 'b' => simple (Char.ofNat 8)
    | 'f' => simple (Char.ofNat 12)
    | 'n' => simple '\n'
    | 'r' => simple '\r'
    | 't' => simple '\t'
    | 'u' =>
      match hex4? rest with
      | some (n, after) =>
        let (x, after) := unitChar n after
        (string? fuel after).map fun p => (x :: p.1, p.2)
      | none => none
    | _ => none
  | fuel + 1, c :: rest =>
    if c.toNat < 0x20 then none else (string? fuel rest).map fun p => (c :: p.1, p.2)

/-- A number: its whole part has no leading zero, and its fraction and exponent have digits. -/
def number? (cs : List Char) : Option (Double × List Char) :=
  let (neg, body) := match cs with
    | '-' :: rest => (true, rest)
    | _ => (false, cs)
  let (whole, rest) := Decimal.spanDigits body
  if whole.isEmpty || (whole.head? == some '0' && whole.length != 1) then none
  else
    let fraction := match rest with
      | '.' :: more =>
        let (ds, after) := Decimal.spanDigits more
        if ds.isEmpty then none else some (ds, after)
      | _ => some ([], rest)
    fraction.bind fun (ds, rest) =>
      (Decimal.readExponent rest).map fun (e, after) =>
        (Decimal.ofDigits neg (whole ++ ds) (e - ds.length), after)

mutual

/-- A value and the rest of the text. -/
def value? : Nat → List Char → Option (Native × List Char)
  | 0, _ => none
  | fuel + 1, cs =>
    match skip cs with
    | 'n' :: 'u' :: 'l' :: 'l' :: rest => some (.null, rest)
    | 't' :: 'r' :: 'u' :: 'e' :: rest => some (.bool true, rest)
    | 'f' :: 'a' :: 'l' :: 's' :: 'e' :: rest => some (.bool false, rest)
    | '"' :: rest => (string? rest.length.succ rest).map fun p => (.text (String.ofList p.1), p.2)
    | '[' :: rest =>
      match skip rest with
      | ']' :: after => some (.array [], after)
      | _ => (items? fuel rest).map fun p => (.array p.1, p.2)
    | '\x7b' :: rest =>
      match skip rest with
      | '\x7d' :: after => some (.object [], after)
      | _ => (members? fuel rest).map fun p => (record p.1, p.2)
    | other => (number? other).map fun p => (.number p.1, p.2)

/-- Items of an array up to its closing bracket. -/
def items? : Nat → List Char → Option (List Native × List Char)
  | 0, _ => none
  | fuel + 1, cs =>
    (value? fuel cs).bind fun (v, rest) =>
      match skip rest with
      | ',' :: more => (items? fuel more).map fun p => (v :: p.1, p.2)
      | ']' :: after => some ([v], after)
      | _ => none

/-- Members of an object up to its closing brace. -/
def members? : Nat → List Char → Option (List (String × Native) × List Char)
  | 0, _ => none
  | fuel + 1, cs =>
    match skip cs with
    | '"' :: rest =>
      (string? rest.length.succ rest).bind fun (key, rest) =>
        match skip rest with
        | ':' :: more =>
          (value? fuel more).bind fun (v, rest) =>
            match skip rest with
            | ',' :: more => (members? fuel more).map fun p => ((String.ofList key, v) :: p.1, p.2)
            | '\x7d' :: after => some ([(String.ofList key, v)], after)
            | _ => none
        | _ => none
    | _ => none

end

end ShapeSchema.Native.Json

namespace ShapeSchema.Native

/-- Reads a JSON text that is one value. -/
def ofJson? (s : String) : Option Native :=
  let cs := s.toList
  match Json.value? cs.length.succ cs with
  | some (v, rest) => if (Json.skip rest).isEmpty then some v else none
  | none => none

end ShapeSchema.Native
