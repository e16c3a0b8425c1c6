/-! Strings, numbers and dates of TOML documents. Of numbers only the way they are written matters
here: their size has no bounds. -/

namespace GateLevel.Toml

def isForbidden (c : Char) : Bool := (c.toNat < 0x20 && c ≠ '\t') || c.toNat = 0x7F

def hexValue? (c : Char) : Option Nat :=
  if c.isDigit then some (c.toNat - '0'.toNat)
  else if 'a' ≤ c ∧ c ≤ 'f' then some (c.toNat - 'a'.toNat + 10)
  else if 'A' ≤ c ∧ c ≤ 'F' then some (c.toNat - 'A'.toNat + 10)
  else none

def readHex : Nat → Nat → List Char → Option (Nat × List Char)
  | 0, value, text => some (value, text)
  | _ + 1, _, [] => none
  | count + 1, value, c :: rest => do readHex count (16 * value + (← hexValue? c)) rest

def readCode (count : Nat) (text : List Char) : Option (Char × List Char) := do
  let (code, rest) ← readHex count 0 text
  if code.isValidChar then return (Char.ofNat code, rest) else none

def readEscape : List Char → Option (Char × List Char)
  | 'b' :: rest => some ('\x08', rest)
  | 't' :: rest => some ('\t', rest)
  | 'n' :: rest => some ('\n', rest)
  | 'f' :: rest => some ('\x0c', rest)
  | 'r' :: rest => some ('\r', rest)
  | 'e' :: rest => some ('\x1b', rest)
  | '"' :: rest => some ('"', rest)
  | '\\' :: rest => some ('\\', rest)
  | 'x' :: rest => readCode 2 rest
  | 'u' :: rest => readCode 4 rest
  | 'U' :: rest => readCode 8 rest
  | _ => none

def attach (c : Char) (read : Option (List Char × List Char)) : Option (List Char × List Char) :=
  read.map fun (text, rest) => (c :: text, rest)

def readInside (quote : Char) : Nat → List Char → Option (List Char × List Char)
  | 0, _ => none
  | _, [] => none
  | fuel + 1, c :: rest =>
    if c = quote then some ([], rest)
    else if c = '\\' ∧ quote = '"' then do
      let (escaped, rest) ← readEscape rest
      attach escaped (readInside quote fuel rest)
    else if isForbidden c then none
    else attach c (readInside quote fuel rest)

def isSpace (c : Char) : Bool := c = ' ' || c = '\t'

def dropBlank : List Char → List Char
  | '\r' :: '\n' :: rest => dropBlank rest
  | c :: rest => if isSpace c || c = '\n' then dropBlank rest else c :: rest
  | [] => []

def skipLineEnd? (text : List Char) : Option (List Char) :=
  match text.dropWhile isSpace with
  | '\n' :: rest => some (dropBlank rest)
  | '\r' :: '\n' :: rest => some (dropBlank rest)
  | _ => none

/-- Reads the inside of a string of several lines up to its three closing quotes. Two quotes at
most can stand directly before those. -/
def readBlock (quote : Char) : Nat → List Char → Option (List Char × List Char)
  | 0, _ => none
  | _, [] => none
  | fuel + 1, c :: rest =>
    if c = quote then
      let quotes := 1 + (rest.takeWhile (· = quote)).length
      if quotes < 3 then attach c (readBlock quote fuel rest)
      else
        let inside := min 2 (quotes - 3)
        some (List.replicate inside quote, (c :: rest).drop (inside + 3))
    else if c = '\\' ∧ quote = '"' then
      match skipLineEnd? rest with
      | some next => readBlock quote fuel next
      | none => do
        let (escaped, rest) ← readEscape rest
        attach escaped (readBlock quote fuel rest)
    else if c = '\n' ∨ (c = '\r' ∧ rest.head? = some '\n') then
      attach c (readBlock quote fuel rest)
    else if isForbidden c then none
    else attach c (readBlock quote fuel rest)

def dropLineEnd : List Char → List Char
  | '\n' :: rest => rest
  | '\r' :: '\n' :: rest => rest
  | text => text

def readLineString (quote : Char) (text : List Char) : Option (String × List Char) :=
  (readInside quote (text.length + 1) text).map fun (inside, rest) => (String.ofList inside, rest)

def readBlockString (quote : Char) (text : List Char) : Option (String × List Char) :=
  (readBlock quote (text.length + 1) (dropLineEnd text)).map fun (inside, rest) =>
    (String.ofList inside, rest)

def isDigits (isDigit : Char → Bool) (text : List Char) : Bool :=
  (text.splitOn '_').all fun digits => !digits.isEmpty && digits.all isDigit

def dropSign : List Char → List Char
  | '+' :: rest => rest
  | '-' :: rest => rest
  | text => text

def isWhole (text : List Char) : Bool :=
  isDigits Char.isDigit text && (text.head? ≠ some '0' || text = ['0'])

def isAnyDigit (c : Char) : Bool := (hexValue? c).isSome

/-- Groups of digits with underscores between them, which is how a long whole number is written.
Only the ends of the groups are looked at: what stands at an underscore has to be a digit of some
base, and the first group is a whole number other than zero. A point or an exponent would make it
another kind of number, and a space would make it several. -/
def isGrouped (text : List Char) : Bool :=
  match text.splitOn '_' with
  | first :: groups =>
    isWhole first && first ≠ ['0'] && !groups.isEmpty &&
      groups.all (·.head?.any isAnyDigit) && groups.dropLast.all (·.getLast?.any isAnyDigit) &&
      !groups.any (·.any (· ∈ ['.', 'e', 'E', ' ']))
  | [] => false

def isDecimal (text : List Char) : Bool :=
  let (mantissa, exponent) := text.span fun c => c ≠ 'e' && c ≠ 'E'
  let (whole, fraction) := mantissa.span (· ≠ '.')
  isWhole whole && (fraction.isEmpty || isDigits Char.isDigit fraction.tail) &&
    (exponent.isEmpty || isDigits Char.isDigit (dropSign exponent.tail))

def isBased (base : Nat) (text : List Char) : Bool :=
  text.isEmpty || isDigits (fun c => (hexValue? c).any (· < base)) text

def isNumber (text : List Char) : Bool :=
  match text with
  | '0' :: 'x' :: digits => isBased 16 digits
  | '0' :: 'o' :: digits => isBased 8 digits
  | '0' :: 'b' :: digits => isBased 2 digits
  | text =>
    let number := dropSign text
    number = "inf".toList || number = "nan".toList || isDecimal number || isGrouped number

def decimalValue? (digits : List Char) : Option Nat :=
  if digits.all Char.isDigit then
    some (digits.foldl (fun value digit => 10 * value + (digit.toNat - '0'.toNat)) 0)
  else none

def isLeapYear (year : Nat) : Bool := year % 4 = 0 && (year % 100 ≠ 0 || year % 400 = 0)

def daysInMonth (year month : Nat) : Nat :=
  match month with
  | 2 => if isLeapYear year then 29 else 28
  | 4 | 6 | 9 | 11 => 30
  | _ => 31

def isDate : List Char → Bool
  | [y₁, y₂, y₃, y₄, '-', m₁, m₂, '-', d₁, d₂] =>
    match decimalValue? [y₁, y₂, y₃, y₄], decimalValue? [m₁, m₂], decimalValue? [d₁, d₂] with
    | some year, some month, some day =>
      1 ≤ month && month ≤ 12 && 1 ≤ day && day ≤ daysInMonth year month
    | _, _, _ => false
  | _ => false

def isField (last : Nat) (text : List Char) : Bool :=
  text.length = 2 && (decimalValue? text).any (· ≤ last)

def isSecond (text : List Char) : Bool :=
  let (second, fraction) := text.span (· ≠ '.')
  isField 60 second &&
    (fraction.isEmpty || (fraction.tail ≠ [] && fraction.tail.all Char.isDigit))

def isTime (text : List Char) : Bool :=
  match text.splitOn ':' with
  | [hour, minute] => isField 23 hour && isField 59 minute
  | [hour, minute, second] => isField 23 hour && isField 59 minute && isSecond second
  | _ => false

def isOffset : List Char → Bool
  | ['Z'] | ['z'] => true
  | '+' :: text | '-' :: text =>
    match text.splitOn ':' with
    | [hour, minute] => isField 23 hour && isField 59 minute
    | _ => false
  | _ => false

def isTimeOfDate (text : List Char) : Bool :=
  let (time, offset) := text.span fun c => c.isDigit || c = ':' || c = '.'
  isTime time && (offset.isEmpty || isOffset offset)

def isMoment (text : List Char) : Bool :=
  isDate text || isTime text ||
    match text.drop 10 with
    | 'T' :: time | 't' :: time | ' ' :: time => isDate (text.take 10) && isTimeOfDate time
    | _ => false

end GateLevel.Toml
