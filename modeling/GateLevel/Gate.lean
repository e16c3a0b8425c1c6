/-! Logic levels with an unknown, gates, their mnemonics, and what they do to levels. -/

namespace GateLevel

/-- The level of a wire. `unknown` stands for either of the other two. -/
inductive Level
  | low
  | high
  | unknown
  deriving DecidableEq, Repr

namespace Level

instance : Inhabited Level := ⟨unknown⟩

def ofBool : Bool → Level
  | false => low
  | true => high

def not : Level → Level
  | low => high
  | high => low
  | unknown => unknown

def and : Level → Level → Level
  | low, _ => low
  | _, low => low
  | high, high => high
  | _, _ => unknown

def or : Level → Level → Level
  | high, _ => high
  | _, high => high
  | low, low => low
  | _, _ => unknown

def xor : Level → Level → Level
  | unknown, _ => unknown
  | _, unknown => unknown
  | left, right => ofBool (left != right)

def toChar : Level → Char
  | low => '0'
  | high => '1'
  | unknown => 'x'

def ofChar? : Char → Option Level
  | '0' => some low
  | '1' => some high
  | 'x' | 'X' => some unknown
  | _ => none

def debugText : Level → String
  | low => "False"
  | high => "True"
  | unknown => "X"

end Level

inductive BinaryGate
  | and
  | or
  | xor
  | nand
  | nor
  | xnor
  deriving DecidableEq, Repr

inductive Gate
  | not
  | binary (gate : BinaryGate)
  deriving DecidableEq, Repr

namespace BinaryGate

def mnemonic : BinaryGate → String
  | and => "AND"
  | or => "OR"
  | xor => "XOR"
  | nand => "NAND"
  | nor => "NOR"
  | xnor => "XNOR"

def apply : BinaryGate → Level → Level → Level
  | and, left, right => left.and right
  | or, left, right => left.or right
  | xor, left, right => left.xor right
  | nand, left, right => (left.and right).not
  | nor, left, right => (left.or right).not
  | xnor, left, right => (left.xor right).not

end BinaryGate

namespace Gate

def all : List Gate :=
  [not, binary .and, binary .or, binary .xor, binary .nand, binary .nor, binary .xnor]

def arity : Gate → Nat
  | not => 1
  | binary _ => 2

def mnemonic : Gate → String
  | not => "NOT"
  | binary gate => gate.mnemonic

def ofMnemonic? (name : String) : Option Gate :=
  all.find? fun gate => gate.mnemonic == name

theorem mem_all (gate : Gate) : gate ∈ all := by
  rcases gate with _ | gate
  · simp [all]
  · cases gate <;> simp [all]

theorem ofMnemonic?_mnemonic (gate : Gate) : ofMnemonic? gate.mnemonic = some gate := by
  rcases gate with _ | gate
  · rfl
  · cases gate <;> rfl

theorem one_lt_length_mnemonic (gate : Gate) : 1 < gate.mnemonic.toList.length := by
  rcases gate with _ | gate
  · decide
  · cases gate <;> decide

/-- Mnemonics are written in the letters from `A` to `Z`. -/
theorem capital_of_mem_mnemonic {gate : Gate} {c : Char} (member : c ∈ gate.mnemonic.toList) :
    65 ≤ c.toNat ∧ c.toNat ≤ 90 := by
  have letters : gate.mnemonic.toList.all fun c => 65 ≤ c.toNat ∧ c.toNat ≤ 90 := by
    rcases gate with _ | gate
    · decide
    · cases gate <;> decide
  exact of_decide_eq_true (List.all_eq_true.mp letters c member)

end Gate

end GateLevel
