import MonkeyLang.Text.Blank
import MonkeyLang.Text.Digit

/-!
Decimal integers read from text: blanks around the number, a sign, digits of any script, and single
underscores between digits. A run of more than `maxDigits` digits is refused.
-/
namespace MonkeyLang.Text

def maxDigits : Nat := 4300

def ofDigits (digits : List Nat) : Nat :=
  digits.foldl (fun value digit => 10 * value + digit) 0

/-- Digits, with at most one underscore between two of them. -/
def spacedDigits? : List Char → Option (List Nat)
  | [] => none
  | [c] => (digitValue? c).map ([·])
  | c :: '_' :: rest => do return (← digitValue? c) :: (← spacedDigits? rest)
  | c :: d :: rest => do return (← digitValue? c) :: (← spacedDigits? (d :: rest))

def natural? (cs : List Char) : Option Nat := do
  let digits ← spacedDigits? cs
  if digits.length ≤ maxDigits then some (ofDigits digits) else none

def signed? : List Char → Option Int
  | '+' :: cs => (natural? cs).map Int.ofNat
  | '-' :: cs => (natural? cs).map fun n => -(n : Int)
  | cs => (natural? cs).map Int.ofNat

def integer? (text : String) : Option Int :=
  signed? (trimEnds (fun c => isBlank c && !isSeparatorMark c) text.toList)

end MonkeyLang.Text
