import GateLevel.Gate

/-! Reads expressions whose gates are written between their operands, and puts them into reverse
Polish order. Two-operand gates all bind alike and group from left to right; `NOT` stands before
its operand. -/

namespace GateLevel.Source

inductive Atom
  | opening
  | closing
  | gate (kind : Gate)
  | operand (name : List Char)
  deriving DecidableEq, Repr

inductive Item
  | gate (kind : Gate)
  | operand (name : List Char)
  deriving DecidableEq, Repr

namespace Atom

def ofWord (word : List Char) : Atom :=
  if word = ['('] then opening
  else if word = [')'] then closing
  else
    match Gate.ofMnemonic? (String.ofList word) with
    | some kind => gate kind
    | none => operand word

end Atom

def peelEnd : List Char → List (List Char)
  | ')' :: c :: front => peelEnd (c :: front) ++ [[')']]
  | word => [word.reverse]

/-- Takes opening parentheses off the front of a word and closing ones off its end, one
character of the word at least being left. -/
def peel : List Char → List (List Char)
  | '(' :: c :: rest => ['('] :: peel (c :: rest)
  | word => peelEnd word.reverse

inductive Pending
  | opening
  | gate (kind : Gate)
  deriving DecidableEq, Repr

namespace Pending

def gates : List Pending → List Gate
  | gate kind :: below => kind :: gates below
  | _ => []

def beneath : List Pending → List Pending
  | gate _ :: below => beneath below
  | pending => pending

def flushed (pending : List Pending) : List Item := (gates pending).map .gate

end Pending

/-- Puts an expression into reverse Polish order; the head of `pending` waits least long.
`none` stands for mismatched parentheses. -/
def arrange : List Atom → List Pending → Option (List Item)
  | [], pending =>
    match Pending.beneath pending with
    | [] => some (Pending.flushed pending)
    | _ => none
  | .operand name :: rest, pending => (arrange rest pending).map (.operand name :: ·)
  | .opening :: rest, pending => arrange rest (.opening :: pending)
  | .closing :: rest, pending =>
    match Pending.beneath pending with
    | .opening :: below => (arrange rest below).map (Pending.flushed pending ++ ·)
    | _ => none
  | .gate .not :: rest, pending => arrange rest (.gate .not :: pending)
  | .gate (.binary gate) :: rest, pending =>
    (arrange rest (.gate (.binary gate) :: Pending.beneath pending)).map
      (Pending.flushed pending ++ ·)

def itemsOfWords (words : List (List Char)) : Option (List Item) :=
  arrange ((words.flatMap peel).map Atom.ofWord) []

end GateLevel.Source
