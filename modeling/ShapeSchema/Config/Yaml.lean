import ShapeSchema.Native.Basic
import ShapeSchema.Decimal.Reading
import ShapeSchema.Text.Blank

/-!
# Reading simple YAML

The part of YAML that configuration files use: nested mappings by indentation, and scalars. A line
that gives its key no value opens a mapping; the lines below that are indented deeper belong to it.
Blank lines, comments and lines without a colon add nothing, but a line without a colon still ends
the mappings that are indented as deep as itself.
-/

namespace ShapeSchema.Yaml

/-- A mapping that is still open: the indentation of the line that opened it, the key it stands
under and what it holds so far. -/
structure Frame where
  indent : Nat
  key : String
  entries : List (String × Native)

/-- The root mapping's entries and the open mappings below it, the innermost first. -/
structure Reader where
  root : List (String × Native) := []
  frames : List Frame := []

/-- The mapping of some entries. -/
def mapping (entries : List (String × Native)) : Native := .object (Native.objectOrder entries)

/-- Sets a key of the innermost open mapping. -/
def Reader.put (r : Reader) (key : String) (v : Native) : Reader :=
  match r.frames with
  | [] => { r with root := Entries.insert r.root key v }
  | f :: fs => { r with frames := { f with entries := Entries.insert f.entries key v } :: fs }

/-- Closes the open mappings that are indented at least so deep, from the innermost on. A mapping
that is closed goes under its key into the one around it. -/
def closeFrames (root : List (String × Native)) (indent : Nat) :
    Option (String × Native) → List Frame → Reader
  | closed, [] => ⟨closed.elim root fun p => Entries.insert root p.1 p.2, []⟩
  | closed, f :: fs =>
    let entries := closed.elim f.entries fun p => Entries.insert f.entries p.1 p.2
    if indent ≤ f.indent then closeFrames root indent (some (f.key, mapping entries)) fs
    else ⟨root, { f with entries := entries } :: fs⟩

/-- Closes the open mappings that are indented at least so deep. -/
def Reader.close (r : Reader) (indent : Nat) : Reader := closeFrames r.root indent none r.frames

/-- Opens a mapping under a key. -/
def Reader.openMapping (r : Reader) (key : String) (indent : Nat) : Reader :=
  let r := r.put key (.object [])
  { r with frames := ⟨indent, key, []⟩ :: r.frames }

/-- What stands before and after the first colon. -/
def splitColon (cs : List Char) : Option (List Char × List Char) :=
  match cs.span (· != ':') with
  | (key, _ :: value) => some (key, value)
  | (_, []) => none

/-- Digits after an optional minus sign. -/
def signedDigits? (cs : List Char) : Option (Bool × List Char) :=
  let (neg, ds) := match cs with
    | '-' :: ds => (true, ds)
    | ds => (false, ds)
  if !ds.isEmpty && ds.all Decimal.isDigit then some (neg, ds) else none

/-- A number: digits, or digits on both sides of a point. -/
def number? (cs : List Char) : Option Double :=
  match cs.span (· != '.') with
  | (whole, []) => (signedDigits? whole).map fun (neg, ds) => Decimal.ofDigits neg ds 0
  | (whole, _ :: part) =>
    if !part.isEmpty && part.all Decimal.isDigit then
      (signedDigits? whole).map fun (neg, ds) => Decimal.ofDigits neg (ds ++ part) (-part.length)
    else none

/-- Does a text start and end with a quote? -/
def quotedBy (q : Char) (cs : List Char) : Bool := cs.head? == some q && cs.getLast? == some q

/-- The value that a text after a colon stands for. -/
def scalar (cs : List Char) : Native :=
  match String.ofList cs with
  | "true" => .bool true
  | "false" => .bool false
  | "null" => .null
  | s =>
    match number? cs with
    | some d => .number d
    | none =>
      if quotedBy '"' cs || quotedBy '\'' cs then .text (String.ofList (cs.drop 1).dropLast)
      else .text s

/-- A line that is neither blank nor a comment. -/
structure Line where
  indent : Nat
  /-- The key and its value; a key without a value opens a mapping. A line without a colon has no
  entry. -/
  entry : Option (String × Option Native)

/-- What a line says, unless it is blank or a comment. -/
def Line.of? (cs : List Char) : Option Line :=
  let content := Text.trimChars cs
  if content.isEmpty || content.head? == some '#' then none
  else some {
    indent := (cs.takeWhile Text.isBlank).length
    entry := (splitColon content).map fun p =>
      let value := Text.trimChars p.2
      (String.ofList (Text.trimChars p.1), if value.isEmpty then none else some (scalar value)) }

/-- Reads a line. -/
def Reader.take (r : Reader) (l : Line) : Reader :=
  let r := r.close l.indent
  match l.entry with
  | none => r
  | some (key, none) => r.openMapping key l.indent
  | some (key, some v) => r.put key v

/-- A text cut at its line ends. -/
def cutLines : List Char → List (List Char)
  | [] => [[]]
  | c :: cs =>
    if c = '\n' then [] :: cutLines cs
    else match cutLines cs with
      | [] => [[c]]
      | l :: ls => (c :: l) :: ls

/-- The lines of a text that are neither blank nor comments. -/
def lines (s : String) : List Line := (cutLines s.toList).filterMap Line.of?

/-- Reads a text. -/
def read (s : String) : Native :=
  mapping (((lines s).foldl Reader.take ({} : Reader)).close 0).root

end ShapeSchema.Yaml
