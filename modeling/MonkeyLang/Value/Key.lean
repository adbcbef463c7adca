import MonkeyLang.Text.Quoted
import MonkeyLang.Value.Basic

/-!
Map keys. Integers, booleans and strings are keys by their content; any other value only by the name
of its type, and is not usable as a key in a program. Keys are ordered by type, then by content.
-/
namespace MonkeyLang

namespace MapKey

def isUsable : MapKey → Bool
  | unusable _ => false
  | _ => true

def rank : MapKey → Nat
  | integer _ => 0
  | boolean _ => 1
  | string _ => 2
  | unusable _ => 3

def order : MapKey → MapKey → Ordering
  | integer a, integer b => compare a b
  | boolean a, boolean b => compare a b
  | string a, string b => compare a b
  | unusable a, unusable b => compare a.name b.name
  | a, b => compare a.rank b.rank

def display : MapKey → String
  | integer value => "MapKey(Integer, " ++ toString value ++ ")"
  | boolean value => "MapKey(Boolean, " ++ (if value then "True" else "False") ++ ")"
  | string value => "MapKey(String, " ++ Text.quoted value ++ ")"
  | unusable kind => "MapKey(Unusable, " ++ Text.quoted kind.name ++ ")"

end MapKey

namespace Value

def key? : Value → Option MapKey
  | integer value => some (.integer value)
  | boolean value => some (.boolean value)
  | string value => some (.string value)
  | value => value.kind?.map MapKey.unusable

end Value

/-- The entries of a map: each pair of a key and a value under the map key it was put in with. -/
abbrev Entries := List (MapKey × Value × Value)

namespace Entries

/-- Puts a pair in the place of the one with the same key, or at the end. -/
def insert (key : MapKey) (pair : Value × Value) : Entries → Entries
  | [] => [(key, pair)]
  | head :: rest => if head.1 = key then (key, pair) :: rest else head :: insert key pair rest

def find? (entries : Entries) (key : MapKey) : Option Value :=
  (List.lookup key entries).map Prod.snd

end Entries

end MonkeyLang
