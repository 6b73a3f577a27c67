import ShapeSchema.Expr.Scalar
import ShapeSchema.Text.Case

/-!
# Methods of texts

Places in a text count its code units. A place before the start counts as the start and one behind
the end as the end, unless a method takes negative places from the end.
-/

namespace ShapeSchema.Expr

open Text (Units)

/-- A place within a length. -/
def clamped (n : Int) (length : Nat) : Nat := min n.toNat length

/-- A place within a length; a negative one counts from the end. -/
def relative (n : Int) (length : Nat) : Nat := clamped (if n < 0 then length + n else n) length

/-- The item at a place; a negative one counts from the end. -/
def itemAt? {α : Type} (xs : List α) (n : Int) : Option α :=
  let i := if n < 0 then xs.length + n else n
  if i < 0 then none else xs[i.toNat]?

/-- The items from one place to another. -/
def stretch {α : Type} (xs : List α) (start stop : Nat) : List α := (xs.take stop).drop start

/-- A text that is looked for; a pattern is none. -/
def sought (d : Datum) : Run Units := do
  match (← get).cell? d with
  | some (.pattern _ _) => refuse "search"
  | _ => d.say

/-- A text with one occurrence of another, at a place, replaced. In the replacement, a dollar sign
with a mark behind it stands for the sign itself, the occurrence, what is before it or behind it. -/
def substitution (whole part : Units) (place : Nat) : Units → Units
  | 0x24 :: mark :: us =>
    match mark with
    | 0x24 => 0x24 :: substitution whole part place us
    | 0x26 => part ++ substitution whole part place us
    | 0x60 => whole.take place ++ substitution whole part place us
    | 0x27 => whole.drop (place + part.length) ++ substitution whole part place us
    | mark => 0x24 :: substitution whole part place (mark :: us)
  | u :: us => u :: substitution whole part place us
  | [] => []

/-- The places of a text's occurrences in another, each behind the one before. -/
def occurrences (part whole : Units) : Nat → Nat → List Nat
  | 0, _ => []
  | fuel + 1, start =>
    if whole.length < start then []
    else match Text.indexFrom? part whole start with
      | none => []
      | some i => i :: occurrences part whole fuel (i + max part.length 1)

/-- A text with occurrences of another at some places replaced. -/
def replaceAt (whole part new : Units) (start : Nat) : List Nat → Units
  | [] => whole.drop start
  | i :: is =>
    stretch whole start i ++ substitution whole part i new
      ++ replaceAt whole part new (i + part.length) is

/-- A text brought to a length by a filling. -/
def padding (us : Units) (args : List Datum) : Run Units := do
  let length ← (argument args 0).whole
  let filling ← (argument args 1).sayOr [0x20]
  let missing := length.toNat - us.length
  if filling.isEmpty then return []
  else if 0x1fffffe8 < length.toNat then refuse "padding"
  else return (List.replicate (missing / filling.length + 1) filling).flatten.take missing

/-- What a method does with a text and its arguments. -/
abbrev TextAction := Units → List Datum → Run Datum

/-- A method that only changes the text. -/
def changing (f : Units → Units) : TextAction := fun us _ => return .text (f us)

/-- A method that is not offered here. -/
def unoffered : Action := fun _ _ => refuse "method"

namespace TextAction

def item : TextAction := fun us args => do
  match itemAt? us (← (argument args 0).whole) with
  | some u => return .text [u]
  | none => return .absent

/-- What is at a place, or `default` if nothing is there. -/
def unitAt (found : Nat → Datum) (default : Datum) : TextAction := fun us args => do
  let n ← (argument args 0).whole
  if n < 0 then return default else return (us[n.toNat]?.map found).getD default

def codePointAt : TextAction := fun us args => do
  let n ← (argument args 0).whole
  if n < 0 then return .absent
  else return match Text.points ((us.drop n.toNat).take 2) with
    | p :: _ => .ofInt p
    | [] => .absent

def concat : TextAction := fun us args => do return .text (us ++ (← args.mapM Datum.say).flatten)

def includes : TextAction := fun us args => do
  let part ← sought (argument args 0)
  let start := clamped (← (argument args 1).whole) us.length
  return .bool (Text.indexFrom? part us start).isSome

def startsWith : TextAction := fun us args => do
  let part ← sought (argument args 0)
  let start := clamped (← (argument args 1).whole) us.length
  return .bool (part.isPrefixOf (us.drop start))

def endsWith : TextAction := fun us args => do
  let part ← sought (argument args 0)
  let stop := clamped (← (argument args 1).wholeOr us.length) us.length
  return .bool (part.isSuffixOf (us.take stop))

def indexOf : TextAction := fun us args => do
  let part ← (argument args 0).say
  let start := clamped (← (argument args 1).whole) us.length
  return .ofInt ((Text.indexFrom? part us start).map Int.ofNat |>.getD (-1))

def lastIndexOf : TextAction := fun us args => do
  let part ← (argument args 0).say
  let limit ← (argument args 1).toNumber
  let limit := if limit.isNaN then us.length else clamped limit.truncated us.length
  return .ofInt ((Text.lastIndexOf? part us limit).map Int.ofNat |>.getD (-1))

/-- Padding in front or behind. -/
def pad (front : Bool) : TextAction := fun us args => do
  let filling ← padding us args
  return .text (if front then filling ++ us else us ++ filling)

def repeats : TextAction := fun us args => do
  let n ← (argument args 0).whole
  if n < 0 || 0x1fffffe8 < n.toNat * max us.length 1 then refuse "repeat"
  else return .text (List.replicate n.toNat us).flatten

/-- Replaces the first occurrence of a text, or every one. -/
def replace (every : Bool) : TextAction := fun us args => do
  let part ← sought (argument args 0)
  let new ← (argument args 1).say
  let places := occurrences part us (us.length + 1) 0
  return .text (replaceAt us part new 0 (if every then places else places.take 1))

def slice : TextAction := fun us args => do
  let start := relative (← (argument args 0).whole) us.length
  let stop := relative (← (argument args 1).wholeOr us.length) us.length
  return .text (stretch us start stop)

def substring : TextAction := fun us args => do
  let a := clamped (← (argument args 0).whole) us.length
  let b := clamped (← (argument args 1).wholeOr us.length) us.length
  return .text (stretch us (min a b) (max a b))

def substr : TextAction := fun us args => do
  let start := relative (← (argument args 0).whole) us.length
  let count ← (argument args 1).wholeOr us.length
  return .text ((us.drop start).take count.toNat)

def split : TextAction := fun us args => do
  let limit ← (argument args 1).wholeOr 0xffffffff
  let limit := (limit % 0x100000000).toNat
  if argument args 0 = .absent then alloc (.array ([Datum.text us].take limit))
  else do
    let sep ← sought (argument args 0)
    alloc (.array (((Text.split sep us).map .text).take limit))

end TextAction

/-- The methods of texts by name. -/
def textActions : List (String × TextAction) :=
  [("at", .item), ("charAt", .unitAt (fun u => .text [u]) (.text [])),
    ("charCodeAt", .unitAt (fun u => .ofInt u) (.number .nan)), ("codePointAt", .codePointAt),
    ("concat", .concat), ("endsWith", .endsWith), ("includes", .includes), ("indexOf", .indexOf),
    ("lastIndexOf", .lastIndexOf), ("padEnd", .pad false), ("padStart", .pad true),
    ("repeat", .repeats), ("replace", .replace false), ("replaceAll", .replace true),
    ("slice", .slice), ("split", .split), ("startsWith", .startsWith), ("substr", .substr),
    ("substring", .substring), ("toLocaleLowerCase", changing Text.lowerUnits),
    ("toLocaleUpperCase", changing Text.upperUnits), ("toLowerCase", changing Text.lowerUnits),
    ("toString", changing id), ("toUpperCase", changing Text.upperUnits),
    ("trim", changing Text.trimUnits), ("trimEnd", changing Text.trimBack),
    ("trimLeft", changing Text.trimFront), ("trimRight", changing Text.trimBack),
    ("trimStart", changing Text.trimFront), ("valueOf", changing id)]

/-- Names of texts' methods that are not offered here. -/
def unofferedTextNames : List String :=
  ["anchor", "big", "blink", "bold", "fixed", "fontcolor", "fontsize", "isWellFormed", "italics",
    "link", "localeCompare", "match", "matchAll", "normalize", "search", "small", "strike", "sub",
    "sup", "toWellFormed"]

/-- Makes a method work on the text of its receiver. -/
def TextAction.lift (f : TextAction) : Action := fun d args => do
  if d.isNothing then refuse "text" else f (← d.say) args

/-- All methods of texts. -/
def textMethods : List (String × Action) :=
  textActions.map (fun p => (p.1, p.2.lift)) ++ unofferedTextNames.map fun name => (name, unoffered)

end ShapeSchema.Expr
