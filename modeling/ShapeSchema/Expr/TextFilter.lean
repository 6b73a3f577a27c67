import ShapeSchema.Expr.Member
import ShapeSchema.Text.Markup

/-!
# Filters of texts

A filter takes the value in front of its bar and further arguments. Filters of texts take nothing
and the false value as the empty text, and most of them give markup back as markup.
-/

namespace ShapeSchema.Expr

open Text (Units)

/-- Is a value taken as the empty text? -/
def Datum.isVoid : Datum → Bool
  | .absent | .null | .bool false => true
  | _ => false

namespace Filter

/-- The text in front of a filter. -/
def inputText (d : Datum) : Run Units := do
  if d.isVoid then return []
  else match (← get).text? d with
    | some us => return us
    | none => refuse "text"

/-- A text, as markup if what it was made from is markup. -/
def keep (source : Datum) (us : Units) : Run Datum := do
  if (← get).isMarkup source then alloc (.markup us) else return .text us

/-- An argument, or another value if it does not count as true. -/
def orElse (d default : Datum) : Datum := if d.truthy then d else default

/-! ## Changes of text -/

/-- A filter that changes a text and gives a plain text. -/
def mapText (f : Units → Units) : Action := fun d _ => do return .text (f (← inputText d))

/-- A filter that changes a text and keeps markup. -/
def mapMarkup (f : Units → Units) : Action := fun d _ => do keep d (f (← inputText d))

/-- A word with its first unit in upper case and all others in lower case. -/
def capitalized (us : Units) : Units :=
  let low := Text.lowerUnits us
  Text.upperUnits (low.take 1) ++ low.drop 1

/-- All words that spaces part, capitalized. -/
def titled (us : Units) : Units :=
  Text.joined [0x20] ((Text.split [0x20] us).map capitalized)

/-- Trims a text; nothing is no text here. -/
def trim : Action := fun d _ => do
  match (← get).text? d with
  | some us => keep d (Text.trimUnits us)
  | none => refuse "trim"

/-- Puts spaces around a text up to a width. -/
def center : Action := fun d args => do
  let us ← inputText d
  let width ← (orElse (argument args 0) (.ofInt 80)).toNumber
  let length := Double.ofInt us.length
  if length.compare? width matches some .gt | some .eq then
    return if d.isVoid then .text [] else d
  else
    let spaces := width.sub length
    let half := spaces.div (.ofInt 2)
    let front ← repeatCount (half.sub (spaces.rem (.ofInt 2)))
    let back ← repeatCount half
    keep d (List.replicate front 0x20 ++ us ++ List.replicate back 0x20)

/-- Moves the lines behind the first, and on request the first as well. -/
def indent : Action := fun d args => do
  let us ← inputText d
  let width ← repeatCount (← (orElse (argument args 0) (.ofInt 4)).toNumber)
  let shift (l : Units) : Units := List.replicate width 0x20 ++ l
  match Text.split [0x0A] us with
  | [] => return .text []
  | l :: ls =>
    if us.isEmpty && !(← get).isMarkup d then return .text []
    else
      let first := if (argument args 1).truthy then shift l else l
      keep d (Text.joined [0x0A] (first :: ls.map shift))

/-- Writes line ends as tags. -/
def breakLines : Action := fun d _ => do
  match d, (← get).text? d with
  | .absent, _ | .null, _ => return .text []
  | d, some us =>
    let us := Text.joined [0x0A] (Text.split [0x0D, 0x0A] us)
    keep d (Text.joined (Text.units "<br />\n") (Text.split [0x0A] us))
  | _, none => refuse "text"

/-- Replaces a text by another, at most as often as told. -/
def replace : Action := fun d args => do
  let s ← get
  let old := match argument args 0 with
    | .number x => some (Text.units x.text)
    | .text us => some us
    | _ => none
  let d' := match d with
    | .number x => .ofString x.text
    | d => d
  let isInput := match d' with
    | .text _ => true
    | d' => s.isMarkup d'
  match old, s.text? d' with
  | none, _ =>
    if (s.family? (argument args 0)) matches some .pattern then refuse "replace" else return d
  | some old, some us =>
    if !isInput then return d
    else
      let new ← (argument args 1).say
      if old.isEmpty then
        let sep ← (argument args 1).sayOr [0x2C]
        keep d (new ++ Text.joined sep (Text.split [] us) ++ new)
      else if (argument args 2).same (.ofInt 0) || (Text.indexOf? old us).isNone then return d'
      else
        let most ← if argument args 2 = .absent || (argument args 2).same (.ofInt (-1)) then
          pure us.length
        else repeatCount (← (argument args 2).toNumber)
        keep d (Text.joined new (Text.pieces old most us))
  | some _, none => return d

/-- The text of markup; its lines are kept on request. -/
def strip : Action := fun d args => do
  keep d (Text.stripped (argument args 0).truthy (← inputText d))

/-- Cuts a text that is longer than told, at a space unless words may be cut. -/
def truncate : Action := fun d args => do
  let us ← inputText d
  let limit ← (orElse (argument args 0) (.ofInt 255)).toNumber
  let length := Double.ofInt us.length
  if length.compare? limit matches some .lt | some .eq then
    return if d.isVoid then .text [] else d
  else
    let stop := clamped limit.truncated us.length
    let stop := if (argument args 1).truthy then stop
      else (Text.lastIndexOf? [0x20] us (if limit.isNaN then us.length else stop)).getD stop
    let tail ← if (argument args 2).isNothing then pure (Text.units "...")
      else (argument args 2).say
    keep d (us.take stop ++ tail)

/-- How many words there are; nothing if there are none. -/
def countWords : Action := fun d _ => do
  let n := Text.wordCount (← inputText d)
  return if n = 0 then .null else .ofInt n

/-! ## Markup -/

/-- A datum as a text that counts as markup, escaped on request. -/
def markup (escapes : Bool) (d : Datum) : Run Datum := do
  let us ← if d.isNothing then pure [] else d.say
  alloc (.markup (if escapes then Text.escapeMarks us else us))

/-- Gives markup as it is, and anything else as markup. -/
def asMarkup (escapes : Bool) : Action := fun d _ => do
  if (← get).isMarkup d then return d else markup escapes d

/-- The text of a datum that has to be there. -/
def text : Action := fun d _ => do
  if d.isNothing then refuse "text" else keep d (← d.say)

/-- A part of an address. -/
def addressed (d : Datum) : Run Units := do
  match Text.addressed? (← d.say) with
  | some us => return us
  | none => refuse "address"

/-- The items of a pair that is an array or a text. -/
def pairItems (d : Datum) : Run (List Datum) := do
  let s ← get
  if (s.items? d).isSome || (s.text? d).isSome then return (s.listed d).map (·.2)
  else refuse "pairs"

/-- Writes a text, or pairs of texts, for an address. -/
def encode : Action := fun d _ => do
  let s ← get
  if s.isText d then return .text (← addressed d)
  else
    let pairs ← match s.items? d with
      | some items => items.mapM pairItems
      | none => pure ((s.listed d).map fun p => [.text p.1, p.2])
    let written ← pairs.mapM fun p => do
      return (← addressed (argument p 0)) ++ [0x3D] ++ (← addressed (argument p 1))
    return .text (Text.joined [0x26] written)

/-! ## Numbers in texts -/

/-- The value of an ASCII digit or letter in a base up to thirty-six. -/
def digitIn? (base : Nat) (c : Char) : Option Nat :=
  let n := c.toNat
  let v := if 48 ≤ n ∧ n ≤ 57 then some (n - 48)
    else if 97 ≤ n ∧ n ≤ 122 then some (n - 87)
    else if 65 ≤ n ∧ n ≤ 90 then some (n - 55)
    else none
  v.filter fun x => decide (x < base)

/-- The whole number at the start of a text, with its sign. -/
def leadingWhole (base : Int) (cs : List Char) : Double :=
  let (neg, cs) := Decimal.takeSign (cs.dropWhile Text.isBlank)
  let marked := (base = 0 || base = 16) && cs.head? = some '0'
    && (cs.tail.head?.any fun c => c == 'x' || c == 'X')
  let base := if marked then 16 else if base = 0 then 10 else base.toNat
  let ds := (if marked then cs.drop 2 else cs).map (digitIn? base)
  let ds := (ds.takeWhile Option.isSome).filterMap id
  if base < 2 || 36 < base || ds.isEmpty then .nan
  else Double.ofQuotient neg (ds.foldl (fun n d => n * base + d) 0) 1

/-- The decimal number at the start of a text. -/
def leadingNumber (cs : List Char) : Double :=
  let (neg, cs) := Decimal.takeSign (cs.dropWhile Text.isBlank)
  if "Infinity".toList.isPrefixOf cs then .infinity neg
  else
    let (whole, rest) := Decimal.spanDigits cs
    let (part, rest) := match rest with
      | '.' :: more => Decimal.spanDigits more
      | rest => ([], rest)
    let exponent := match rest with
      | 'e' :: more | 'E' :: more =>
        let (down, more) := Decimal.takeSign more
        let n : Int := Decimal.natOfDigits 10 (Decimal.spanDigits more).1
        if down then -n else n
      | _ => 0
    if whole.isEmpty && part.isEmpty then .nan
    else Decimal.ofDigits neg (whole ++ part) (exponent - part.length)

/-- A number, or another value if there is none. -/
def numberOr (d : Double) (default : Datum) : Datum := if d.isNaN then default else .number d

/-- The decimal number at the start of a text, or another value. -/
def float : Action := fun d args => do
  let cs := (Text.ofUnits (← d.say)).toList
  return numberOr (leadingNumber cs) (argument args 0)

end Filter

end ShapeSchema.Expr
