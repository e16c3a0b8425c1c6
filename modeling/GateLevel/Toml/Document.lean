import GateLevel.Toml.Scalar

/-! TOML documents. Numbers, dates and truth values are checked, but what they say is not kept. -/

namespace GateLevel.Toml

inductive Value
  | text (content : String)
  | plain
  | list (elements : List Value)
  | table (entries : List (List String × Value))

inductive Statement
  | header (path : List String)
  | entry (path : List String) (value : Value)

def isBare (c : Char) : Bool := c.isAlphanum || c = '_' || c = '-'

def readKey : List Char → Option (String × List Char)
  | '"' :: rest => readLineString '"' rest
  | '\'' :: rest => readLineString '\'' rest
  | text =>
    let word := text.takeWhile isBare
    if word.isEmpty then none else some (String.ofList word, text.dropWhile isBare)

/-- How many lists and tables can be open at once, and how many keys a path can have. -/
def depthLimit : Nat := 80

def readKeys : Nat → List Char → Option (List String × List Char)
  | 0, _ => none
  | count + 1, text => do
    let (key, rest) ← readKey text
    match rest.dropWhile isSpace with
    | '.' :: rest => do
      let (path, rest) ← readKeys count (rest.dropWhile isSpace)
      return (key :: path, rest)
    | rest => return ([key], rest)

def readPath (text : List Char) : Option (List String × List Char) := readKeys depthLimit text

def skipFiller (inComment : Bool) : List Char → Option (List Char)
  | [] => some []
  | '\n' :: rest => skipFiller false rest
  | '\r' :: '\n' :: rest => skipFiller false rest
  | c :: rest =>
    if inComment then if isForbidden c then none else skipFiller true rest
    else if isSpace c then skipFiller false rest
    else if c = '#' then skipFiller true rest
    else some (c :: rest)

def endsLine (text : List Char) : Bool :=
  match text.dropWhile isSpace with
  | [] | '\n' :: _ | '\r' :: '\n' :: _ | '#' :: _ => true
  | _ => false

def isWordChar (c : Char) : Bool :=
  c ∉ ['=', ',', '[', ']', '{', '}', '#', ' ', '\t', '\n', '\r']

def beginsWord (text : List Char) : Bool :=
  text.head?.any fun c => isWordChar c && c ≠ '"' && c ≠ '\''

def splitWords : List Char → List Char × List Char
  | [] => ([], [])
  | c :: rest =>
    if isWordChar c || (isSpace c && beginsWord (rest.dropWhile isSpace)) then
      let (words, rest) := splitWords rest
      (c :: words, rest)
    else ([], c :: rest)

def isPlain (words : List Char) : Bool :=
  words = "true".toList || words = "false".toList || isNumber words || isMoment words

def readPlain (text : List Char) : Option (Value × List Char) :=
  let (words, rest) := splitWords text
  if isPlain words then some (.plain, rest) else none

/-- Puts an entry before others. None of their paths leads to it, and it leads to none of them:
a table that is a value is closed, and one made by dotted keys can only be added to. -/
def addEntry (path : List String) (value : Value) (entries : List (List String × Value)) :
    Option (List (List String × Value)) :=
  if entries.any fun (other, _) => path.isPrefixOf other || other.isPrefixOf path then none
  else some ((path, value) :: entries)

mutual

def readValue : Nat → Nat → List Char → Option (Value × List Char)
  | 0, _, _ => none
  | fuel + 1, room, text =>
    match text, room with
    | '"' :: '"' :: '"' :: rest, _ =>
      (readBlockString '"' rest).map fun (s, rest) => (.text s, rest)
    | '\'' :: '\'' :: '\'' :: rest, _ =>
      (readBlockString '\'' rest).map fun (s, rest) => (.text s, rest)
    | '"' :: rest, _ => (readLineString '"' rest).map fun (s, rest) => (.text s, rest)
    | '\'' :: rest, _ => (readLineString '\'' rest).map fun (s, rest) => (.text s, rest)
    | '[' :: rest, room + 1 =>
      (readElements fuel room rest).map fun (values, rest) => (.list values, rest)
    | '{' :: rest, room + 1 =>
      (readEntries fuel room rest).map fun (entries, rest) => (.table entries, rest)
    | text, _ => readPlain text

def readElements : Nat → Nat → List Char → Option (List Value × List Char)
  | 0, _, _ => none
  | fuel + 1, room, text => do
    match ← skipFiller false text with
    | ']' :: rest => return ([], rest)
    | text => do
      let (value, rest) ← readValue fuel room text
      match ← skipFiller false rest with
      | ',' :: rest => do
        let (values, rest) ← readElements fuel room rest
        return (value :: values, rest)
      | ']' :: rest => return ([value], rest)
      | _ => none

def readEntries : Nat → Nat → List Char → Option (List (List String × Value) × List Char)
  | 0, _, _ => none
  | fuel + 1, room, text => do
    match ← skipFiller false text with
    | '}' :: rest => return ([], rest)
    | text => do
      let (path, rest) ← readPath text
      match ← skipFiller false rest with
      | '=' :: rest => do
        let (value, rest) ← readValue fuel room (← skipFiller false rest)
        match ← skipFiller false rest with
        | ',' :: rest => do
          let (entries, rest) ← readEntries fuel room rest
          return (← addEntry path value entries, rest)
        | '}' :: rest => return ([(path, value)], rest)
        | _ => none
      | _ => none

end

def readStatement : List Char → Option (Statement × List Char)
  | '[' :: rest => do
    let rest := rest.dropWhile isSpace
    match ← readPath rest with
    | (path, ']' :: rest) => return (.header path, rest)
    | _ => none
  | text => do
    match ← readPath text with
    | (path, '=' :: rest) => do
      let (value, rest) ← readValue (2 * rest.length + 2) depthLimit (rest.dropWhile isSpace)
      return (.entry path value, rest)
    | _ => none

def readStatements : Nat → List Char → Option (List Statement)
  | 0, _ => none
  | fuel + 1, text => do
    match ← skipFiller false text with
    | [] => return []
    | text => do
      let (statement, rest) ← readStatement text
      if endsLine rest then return statement :: (← readStatements fuel rest) else none

def dropMark : List Char → List Char
  | '\ufeff' :: rest => rest
  | text => text

def readDocument (text : String) : Option (List Statement) :=
  let text := dropMark text.toList
  readStatements (text.length + 1) text

end GateLevel.Toml
