import ShapeSchema.Decimal.Reading

/-!
# Tokens of templates

A condition stands in a block of a template. Outside of blocks, places and comments a template is
plain data; inside, its tokens are quoted texts, numbers, words, brackets and operators. `tokens`
takes up a whole template, drops the blanks in code, and trims data beside a tag that asks for it by
a dash.
-/

namespace ShapeSchema.Expr

/-- Why an expression has no result. -/
inductive ExprError where
  | syntaxError
  | unknownFilter (name : String)
  | unknownTest (name : String)
  /-- An operation on a value of the wrong kind. -/
  | kind (operation : String)
deriving DecidableEq

def ExprError.message : ExprError → String
  | syntaxError => "malformed expression"
  | unknownFilter name => "unknown filter " ++ name
  | unknownTest name => "unknown test " ++ name
  | kind operation => "unsuitable value for " ++ operation

/-- A token; the tags of blocks, places and comments tell whether data beside them is trimmed. -/
inductive Token where
  | text (s : String)
  | number (d : Double)
  | bool (b : Bool)
  | none
  | pattern (body flags : List Char)
  | word (s : String)
  | opening (c : Char)
  | closing (c : Char)
  /-- A comma, colon, bar or other operator. -/
  | mark (s : String)
  | blockStart (trims : Bool)
  | blockEnd (trims : Bool)
  | placeStart (trims : Bool)
  | placeEnd (trims : Bool)
  | comment (trimsBefore trimsAfter : Bool)
  | data (cs : List Char)
  /-- The body of a block that is not looked into. -/
  | verbatim (cs : List Char)
deriving DecidableEq

/-! ## Code -/

def isSpace (c : Char) : Bool := c == ' ' || c == '\n' || c == '\t' || c == '\r' || c == '\xa0'

/-- Characters that end a word. -/
def isMark (c : Char) : Bool := "()[]\x7b\x7d%*-+~/#,:|.<>=!".toList.contains c

/-- Characters up to a closing quote, escapes resolved, and the rest. -/
def takeQuoted (quote : Char) : List Char → Option (List Char × List Char)
  | [] => Option.none
  | '\\' :: c :: rest =>
    let x := match c with
      | 'n' => '\n'
      | 't' => '\t'
      | 'r' => '\r'
      | c => c
    (takeQuoted quote rest).map fun p => (x :: p.1, p.2)
  | c :: rest =>
    if c = quote then some ([], rest) else (takeQuoted quote rest).map fun p => (c :: p.1, p.2)

/-- The body of a pattern up to its slash, and the rest; a slash behind a backslash ends nothing. -/
def takePattern : List Char → List Char × List Char
  | [] => ([], [])
  | '\\' :: '/' :: rest => let (body, rest) := takePattern rest; ('\\' :: '/' :: body, rest)
  | '/' :: rest => ([], rest)
  | c :: rest => let (body, rest) := takePattern rest; (c :: body, rest)

/-- The operator at the start: the longest one of up to three characters. -/
def takeMark : List Char → String × List Char
  | '=' :: '=' :: '=' :: rest => ("===", rest)
  | '!' :: '=' :: '=' :: rest => ("!==", rest)
  | '=' :: '=' :: rest => ("==", rest)
  | '!' :: '=' :: rest => ("!=", rest)
  | '<' :: '=' :: rest => ("<=", rest)
  | '>' :: '=' :: rest => (">=", rest)
  | '/' :: '/' :: rest => ("//", rest)
  | '*' :: '*' :: rest => ("**", rest)
  | c :: rest => (String.singleton c, rest)
  | [] => ("", [])

/-- The token that a word is, and the rest; digits may go on after a point. -/
def wordToken (word rest : List Char) : Token × List Char :=
  if word.all Decimal.isDigit then
    match rest with
    | '.' :: more =>
      let (part, rest) := Decimal.spanDigits more
      (.number (Decimal.ofDigits false (word ++ part) (-part.length)), rest)
    | _ => (.number (Decimal.ofDigits false word 0), rest)
  else match String.ofList word with
    | "true" => (.bool true, rest)
    | "false" => (.bool false, rest)
    | "none" | "null" => (.none, rest)
    | w => (.word w, rest)

/-- The next token of code, if it is no tag, and the rest. -/
def takeToken (c : Char) (cs : List Char) : Except ExprError (Token × List Char) :=
  if c = '"' ∨ c = '\'' then
    match takeQuoted c cs with
    | some (s, rest) => .ok (.text (String.ofList s), rest)
    | Option.none => .error .syntaxError
  else if c = 'r' ∧ cs.head? = some '/' then
    let (body, rest) := takePattern cs.tail
    let (flags, rest) := rest.span fun x => ['g', 'i', 'm', 'y'].contains x
    .ok (.pattern body flags, rest)
  else if c = '(' ∨ c = '[' ∨ c = '\x7b' then .ok (.opening c, cs)
  else if c = ')' ∨ c = ']' ∨ c = '\x7d' then .ok (.closing c, cs)
  else if isMark c then
    let (mark, rest) := takeMark (c :: cs)
    .ok (.mark mark, rest)
  else
    let (word, rest) := (c :: cs).span fun x => !(isSpace x || isMark x)
    .ok (wordToken word rest)

/-! ## Data -/

/-- Data up to a tag, and the rest; a comment's end must not stand in it. -/
def takeData : List Char → Except ExprError (List Char × List Char)
  | [] => .ok ([], [])
  | '#' :: '\x7d' :: _ => .error .syntaxError
  | c :: cs =>
    if c = '\x7b' ∧ (cs.head?.any fun x => x == '%' || x == '\x7b' || x == '#') then
      .ok ([], c :: cs)
    else do
      let (data, rest) ← takeData cs
      return (c :: data, rest)

/-- A comment's text up to its end, and the rest. -/
def takeComment : List Char → Except ExprError (List Char × List Char)
  | [] => .error .syntaxError
  | '#' :: '\x7d' :: rest => .ok ([], rest)
  | c :: cs => do
    let (body, rest) ← takeComment cs
    return (c :: body, rest)

/-- What stands behind a start of a text, if the text starts so. -/
def after? (start : List Char) (cs : List Char) : Option (List Char) :=
  if start.isPrefixOf cs then some (cs.drop start.length) else Option.none

/-- Is the tag here one that opens or closes a block of this name, with nothing else in it? True for
one that closes; with what is behind it. -/
def verbatimTag? (name : List Char) (cs : List Char) : Option (Bool × List Char) := do
  let inner ← after? ['\x7b', '%'] cs
  let inner := inner.dropWhile Text.isBlank
  let (closes, behind) ← match after? name inner with
    | some behind => some (false, behind)
    | Option.none => (after? ("end".toList ++ name) inner).map fun behind => (true, behind)
  let rest ← after? ['%', '\x7d'] (behind.dropWhile Text.isBlank)
  return (closes, rest)

/-- The first tag that opens or closes a block of this name: what stands before it, the tag itself,
whether it closes, and what stands behind it. -/
def findTag? (name : List Char) : List Char → Option (List Char × List Char × Bool × List Char)
  | [] => Option.none
  | c :: cs =>
    match verbatimTag? name (c :: cs) with
    | some (closes, rest) =>
      some ([], (c :: cs).take (cs.length + 1 - rest.length), closes, rest)
    | Option.none => (findTag? name cs).map fun (pre, rest) => (c :: pre, rest)

/-- The body of a block that is not looked into, and what stands behind it. Blocks of its name may
be nested; without any tag ahead the body ends at once. -/
def takeVerbatim (name : List Char) : Nat → Nat → List Char → List Char × List Char
  | 0, _, cs => ([], cs)
  | fuel + 1, level, cs =>
    match findTag? name cs with
    | Option.none => ([], cs)
    | some (pre, tag, closes, rest) =>
      if closes && level == 0 then (pre, rest)
      else
        let (body, rest) := takeVerbatim name fuel (if closes then level - 1 else level + 1) rest
        (pre ++ tag ++ body, rest)

/-- The start of a block that is not looked into: its name, whether data behind its tag is trimmed,
and what follows the tag. -/
def verbatimStart? (cs : List Char) : Option (String × Bool × List Char) :=
  let (word, rest) := (cs.dropWhile isSpace).span fun x => !(isSpace x || isMark x)
  let name := String.ofList word
  if name != "raw" && name != "verbatim" then Option.none
  else match rest.dropWhile isSpace with
    | '%' :: '\x7d' :: rest => some (name, false, rest)
    | '-' :: '%' :: '\x7d' :: rest => some (name, true, rest)
    | _ => Option.none

/-! ## Templates -/

/-- The tokens of a template from a place in code or in data on. -/
def scan : Nat → Bool → List Char → Except ExprError (List Token)
  | 0, _, _ => .error .syntaxError
  | _ + 1, _, [] => .ok []
  | fuel + 1, true, c :: cs =>
    let leave (t : Token) (rest : List Char) : Except ExprError (List Token) :=
      return t :: (← scan fuel false rest)
    if isSpace c then scan fuel true cs
    else match c, cs with
      | '%', '\x7d' :: rest => leave (.blockEnd false) rest
      | '-', '%' :: '\x7d' :: rest => leave (.blockEnd true) rest
      | '\x7d', '\x7d' :: rest => leave (.placeEnd false) rest
      | '-', '\x7d' :: '\x7d' :: rest => leave (.placeEnd true) rest
      | _, _ => do
        let (t, rest) ← takeToken c cs
        return t :: (← scan fuel true rest)
  | fuel + 1, false, '\x7b' :: '%' :: cs =>
    let (trims, cs) := match cs with
      | '-' :: cs => (true, cs)
      | cs => (false, cs)
    match verbatimStart? cs with
    | some (name, trimsEnd, rest) => do
      let (body, rest) := takeVerbatim name.toList (rest.length + 1) 0 rest
      let ts ← scan fuel false rest
      return .blockStart trims :: .word name :: .blockEnd trimsEnd :: .verbatim body :: ts
    | Option.none => return .blockStart trims :: (← scan fuel true cs)
  | fuel + 1, false, '\x7b' :: '\x7b' :: cs => do
    let (trims, cs) := match cs with
      | '-' :: cs => (true, cs)
      | cs => (false, cs)
    return .placeStart trims :: (← scan fuel true cs)
  | fuel + 1, false, '\x7b' :: '#' :: cs => do
    let (body, rest) ← takeComment cs
    let dash : Option Char → Bool := fun c => c == some '-'
    return .comment (dash body.head?) (dash body.getLast?) :: (← scan fuel false rest)
  | fuel + 1, false, cs => do
    let (data, rest) ← takeData cs
    return .data data :: (← scan fuel false rest)

def trimLeft (cs : List Char) : List Char := cs.dropWhile Text.isBlank

def trimRight (cs : List Char) : List Char := (cs.reverse.dropWhile Text.isBlank).reverse

/-- Does a token ask for the data before it to be trimmed? -/
def Token.trimsBefore : Token → Bool
  | .blockStart trims | .placeStart trims | .comment trims _ => trims
  | _ => false

/-- Trims data beside tags that ask for it; `pending` tells whether the data ahead is behind such a
tag. -/
def settleData (pending : Bool) : List Token → List Token
  | [] => []
  | t :: ts =>
    match t with
    | .data cs =>
      let cs := if pending then trimLeft cs else cs
      let cs := if ts.head?.any Token.trimsBefore then trimRight cs else cs
      .data cs :: settleData false ts
    | .blockEnd trims | .placeEnd trims | .comment _ trims => t :: settleData trims ts
    | .verbatim _ => t :: settleData pending ts
    | t => t :: settleData false ts

/-- The tokens of a whole template. -/
def tokens (template : String) : Except ExprError (List Token) :=
  let cs := template.toList
  (scan (2 * cs.length + 2) false cs).map (settleData false)

end ShapeSchema.Expr
