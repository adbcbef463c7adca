/-!
Similarity of two words: twice the characters that they share in order, over the characters of both.
What they share is their longest common block together with what they share on either side of it.
-/
namespace MonkeyLang.CommandLine

def commonStart : List Char → List Char → Nat
  | a :: as, b :: bs => if a = b then commonStart as bs + 1 else 0
  | _, _ => 0

structure Block where
  left : Nat := 0
  right : Nat := 0
  size : Nat := 0

/-- The longest common block, the first one if there are several. -/
def longestBlock (a b : List Char) : Block :=
  (List.range a.length).foldl (fun best i =>
    (List.range b.length).foldl (fun best j =>
      let size := commonStart (a.drop i) (b.drop j)
      if best.size < size then ⟨i, j, size⟩ else best) best) {}

def sharedWithin : Nat → List Char → List Char → Nat
  | 0, _, _ => 0
  | n + 1, a, b =>
    let block := longestBlock a b
    if block.size = 0 then 0
    else
      sharedWithin n (a.take block.left) (b.take block.right) + block.size +
        sharedWithin n (a.drop (block.left + block.size)) (b.drop (block.right + block.size))

def similar (a b : String) : Bool :=
  3 * (a.length + b.length) ≤ 10 * sharedWithin (a.length + 1) a.toList b.toList

end MonkeyLang.CommandLine
