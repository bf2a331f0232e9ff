import RuleEngine.Format.Number
import RuleEngine.Format.Place
import RuleEngine.Value.Container

/-!
# Filling places

The places of a message take arguments in order, or take what an argument holds under their key. A
tuple supplies its items, anything else itself; what can be looked into also answers keys, and need
not be used up. A place shows its argument as text (`s`, `r`, `a`), as a whole number (`d`, `i`,
`u`, `o`, `x`, `X`), as a double (`e`, `f`, `g` and their capitals) or as one character (`c`), and
pads it to its width.

A message may also be made of octets, each of which is read as the character of its number. Its keys
are octets, `s` (or `b`) only shows octets, and `c` one octet.
-/

namespace RuleEngine.Format

/-- What a message is made of. -/
inductive MessageSort where
  | text
  | octets
  deriving DecidableEq, Repr

/-- What is left of the arguments of a message: those to be taken in order, and the one that answers
keys. -/
structure Supply where
  sort : MessageSort
  items : List Value
  source : Option Value
  deriving Repr

def flawed {α : Type} (f : FormatFlaw) : Except Fault α := .error (.format f)

namespace Supply

/-- The supply of an argument. Octets can be looked into for a text only. -/
def of (sort : MessageSort) (args : Value) : Supply :=
  match args with
  | .tuple xs => ⟨sort, xs, none⟩
  | .map _ | .list _ => ⟨sort, [args], some args⟩
  | .bytes _ | .buffer _ => ⟨sort, [args], if sort = .text then some args else none⟩
  | _ => ⟨sort, [args], none⟩

def take (s : Supply) : Except Fault (Value × Supply) :=
  match s.items with
  | [] => flawed .tooFew
  | x :: xs => .ok (x, { s with items := xs })

/-- The octets that stand for characters. -/
def octetsOf (cs : List Char) : List UInt8 := cs.map fun c => UInt8.ofNat c.toNat

def keyValue (s : Supply) (key : String) : Value :=
  match s.sort with
  | .text => .text key
  | .octets => .bytes (octetsOf key.toList)

/-- The supply for a place with this key. -/
def under (s : Supply) (key : PlaceKey) : Except Fault Supply :=
  match key, s.source with
  | .absent, _ => .ok s
  | _, none => flawed .noMap
  | .unclosed, some _ => flawed .openKey
  | .named k, some v => do return { s with items := [← v.item (s.keyValue k)] }

/-- Fails if arguments are left that had to be used. -/
def finish (s : Supply) : Except Fault Unit :=
  if s.items.isEmpty || s.source.isSome then .ok () else flawed .unused

/-- A number for a measure. -/
def takeWhole (s : Supply) (least greatest : Int) : Except Fault (Int × Supply) := do
  let (v, s) ← s.take
  match v.integer? with
  | none => flawed .notWhole
  | some n => if n < least ∨ greatest < n then flawed .outOfRange else return (n, s)

end Supply

def widthLimit : Nat := Nat.pow 2 63 - 1

/-- The greatest length of a text that can be held. -/
def textLimit : Nat := Nat.pow 2 36

def precisionLimit : Nat := Nat.pow 2 31 - 1

/-- The width of a place. A negative one asks for padding on the right. -/
def takeWidth (s : Supply) : Measure → Except Fault (Int × Supply)
  | .absent => .ok (0, s)
  | .fixed n => if widthLimit < n then flawed .width else .ok (n, s)
  | .supplied => s.takeWhole (-widthLimit - 1) widthLimit

/-- The precision of a place, if it has one. A negative one counts as none of any digits. -/
def takePrecision (s : Supply) : Measure → Except Fault (Option Nat × Supply)
  | .absent => .ok (none, s)
  | .fixed n => if precisionLimit < n then flawed (.precision (s.sort == .octets))
    else .ok (some n, s)
  | .supplied => do
    let (n, s) ← s.takeWhole (-precisionLimit - 1) precisionLimit
    return (some n.toNat, s)

/-- What a place shows, before it is padded. Zeros go between its prefix and its body. -/
structure Content where
  front : List Char
  body : List Char
  numeric : Bool
  deriving DecidableEq, Repr

namespace Content

def ofText (cs : List Char) : Content := ⟨[], cs, false⟩

/-- A number with its sign; a flag may ask for a sign or a blank where there is none. -/
def ofNumber (flags : List Char) (negative : Bool) (lead digits : List Char) : Content :=
  let sign := if negative then ['-'] else if flags.contains '+' then ['+']
    else if flags.contains ' ' then [' '] else []
  ⟨sign ++ lead, digits, true⟩

/-- The content padded to a width: on the right, with zeros, or on the left. -/
def padded (c : Content) (flags : List Char) (width : Int) : List Char :=
  let missing := width.natAbs - (c.front.length + c.body.length)
  if flags.contains '-' ∨ width < 0 then c.front ++ c.body ++ List.replicate missing ' '
  else if c.numeric ∧ flags.contains '0' then c.front ++ List.replicate missing '0' ++ c.body
  else List.replicate missing ' ' ++ c.front ++ c.body

end Content

/-- A character beyond ASCII by its numeric escape. -/
def escapeWide (c : Char) : List Char := if c.toNat < 128 then [c] else Text.numericEscape c.toNat

def textOf (conversion : Char) (v : Value) : List Char :=
  if conversion = 's' then v.display.toList
  else if conversion = 'r' then v.inspect.toList
  else v.inspect.toList.flatMap escapeWide

/-- The whole number a value is shown as. Only decimal digits also show what is left of a double
without its fraction. -/
def wholeOf (conversion : Char) (v : Value) : Except Fault Int :=
  match v.integer?, v with
  | some n, _ => .ok n
  | none, .float x =>
    if ['d', 'i', 'u'].contains conversion then
      match x, x.number.truncated? with
      | _, some n => .ok n
      | .nan, none => flawed .nanToWhole
      | _, none => flawed .infinityToWhole
    else flawed (.unsuitable conversion v.className)
  | none, _ => flawed (.unsuitable conversion v.className)

/-- The digits of a whole number, with the prefix that an alternate form puts before them. -/
def wholeDigits (conversion : Char) (n : Nat) : List Char × List Char :=
  if conversion = 'o' then (['0', 'o'], Nat.toDigits 8 n)
  else if conversion = 'x' then (['0', 'x'], Nat.toDigits 16 n)
  else if conversion = 'X' then (['0', 'X'], (Nat.toDigits 16 n).map Char.toUpper)
  else ([], decimal n)

def wholeContent (flags : List Char) (precision : Option Nat) (conversion : Char) (n : Int) :
    Content :=
  let (lead, digits) := wholeDigits conversion n.natAbs
  .ofNumber flags (n < 0) (if flags.contains '#' then lead else [])
    (zeroExtended (precision.getD 0) digits)

def doubleStyle (conversion : Char) : DoubleStyle :=
  if ['f', 'F'].contains conversion then .fixed
  else if ['e', 'E'].contains conversion then .scientific
  else .general

def doubleContent (flags : List Char) (precision : Option Nat) (conversion : Char) (x : Double) :
    Content :=
  let style := doubleStyle conversion
  let (negative, digits) := double style (flags.contains '#') (precision.getD 6) x
  .ofNumber flags negative [] (if conversion.isUpper then digits.map Char.toUpper else digits)

/-- The character a value is shown as: a text of one character, or a code point. -/
def charOf (v : Value) : Except Fault Char :=
  match v.text?, v.integer? with
  | some s, _ => match s.toList with
    | [c] => .ok c
    | _ => flawed (.unsuitable 'c' v.className)
  | none, some n => if 0 ≤ n ∧ n < 0x110000 then .ok (Char.ofNat n.toNat) else flawed .outOfRange
  | none, none => flawed (.unsuitable 'c' v.className)

/-- The octet a value is shown as: a single one, or its number. -/
def octetOf (v : Value) : Except Fault Char :=
  match v.octets?, v.integer? with
  | some [b], _ => .ok (Char.ofNat b.toNat)
  | none, some n => if 0 ≤ n ∧ n < 256 then .ok (Char.ofNat n.toNat) else flawed .outOfRange
  | _, _ => flawed (.unsuitable 'c' v.className)

/-- What a place of octets shows of a value as text. -/
def octetText (conversion : Char) (v : Value) : Except Fault (List Char) :=
  if ['r', 'a'].contains conversion then .ok (textOf 'a' v)
  else match v.octets? with
    | some bs => .ok (bs.map fun b => Char.ofNat b.toNat)
    | none => flawed (.unsuitable conversion v.className)

def textConversions (sort : MessageSort) : List Char :=
  ['s', 'r', 'a'] ++ (if sort = .octets then ['b'] else [])

/-- A value shown as a double. Octets do not tell a number that is too large from no number. -/
def doubleOf (sort : MessageSort) (conversion : Char) (v : Value) : Except Fault Double :=
  match v.toDouble?, sort with
  | some (.ok x), _ => .ok x
  | some (.error e), .text => .error e
  | some (.error _), .octets | none, _ => flawed (.unsuitable conversion v.className)

/-- Why nothing can be shown by a conversion. An octet beyond ASCII is read as a negative number,
which is no character, unless it stands right behind a digit. -/
def unknownConversion (sort : MessageSort) (c : Conversion) : FormatFlaw :=
  if sort = .octets ∧ 128 ≤ c.char.toNat ∧ !c.afterDigit then .outOfRange
  else .conversion (sort = .octets) c.char c.position

def content (sort : MessageSort) (flags : List Char) (precision : Option Nat) (c : Conversion)
    (v : Value) : Except Fault Content :=
  if (textConversions sort).contains c.char then do
    let text ← if sort = .octets then octetText c.char v else .ok (textOf c.char v)
    return .ofText (precision.elim text text.take)
  else if ['d', 'i', 'u', 'o', 'x', 'X'].contains c.char then
    (wholeOf c.char v).map (wholeContent flags precision c.char)
  else if ['e', 'E', 'f', 'F', 'g', 'G'].contains c.char then
    (doubleOf sort c.char v).map (doubleContent flags precision c.char)
  else if c.char = 'c' then
    (if sort = .octets then octetOf v else charOf v).map fun c => .ofText [c]
  else flawed (unknownConversion sort c)

def fillPlace (s : Supply) (p : Place) : Except Fault (List Char × Supply) := do
  let s ← s.under p.key
  let (width, s) ← takeWidth s p.width
  let (precision, s) ← takePrecision s p.precision
  match p.conversion with
  | none => flawed .unfinished
  | some c =>
    let (v, s) ← s.take
    let shown ← content s.sort p.flags precision c v
    if textLimit < width.natAbs then flawed .memory else return (shown.padded p.flags width, s)

/-- Fills the places among pieces in order. -/
def fillPieces (s : Supply) : List Piece → Except Fault (List Char)
  | [] => do
    s.finish
    return []
  | .plain c :: ps => do
    let rest ← fillPieces s ps
    return c :: rest
  | .place p :: ps => do
    let (shown, s) ← fillPlace s p
    let rest ← fillPieces s ps
    return shown ++ rest

/-- The message with its places filled. -/
def fill (message : String) (args : Value) : Except Fault String :=
  (fillPieces (Supply.of .text args) (pieces message.toList)).map String.ofList

/-- The message made of octets with its places filled. -/
def fillOctets (message : List UInt8) (args : Value) : Except Fault (List UInt8) :=
  (fillPieces (Supply.of .octets args)
    (pieces (message.map fun b => Char.ofNat b.toNat))).map Supply.octetsOf

end RuleEngine.Format
