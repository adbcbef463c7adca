import MonkeyLang.Proofs.Syntax.Written
import MonkeyLang.Syntax.Print

/-!
Parentheses in trees. `erased` is a tree without its grouped expressions. `regrouped` is the tree
that the printed form of a program stands for: the parentheses of the program are gone, and every
operator and every index has its own. It is graded whatever the tree was.
-/
namespace MonkeyLang.Node

mutual

def erased : Node → Node
  | program statements => program (erasedAll statements)
  | block statements => block (erasedAll statements)
  | letBind name value => letBind name value.erased
  | returning value => returning value.erased
  | expression inner => expression inner.erased
  | prefixOp operator right => prefixOp operator right.erased
  | infixOp left operator right => infixOp left.erased operator right.erased
  | grouped inner => inner.erased
  | conditional condition consequence alternative =>
    conditional condition.erased consequence.erased alternative.erased
  | function parameters body => function parameters body.erased
  | call callee arguments => call callee.erased (erasedAll arguments)
  | array elements => array (erasedAll elements)
  | index collection position => index collection.erased position.erased
  | mapping entries => mapping (erasedEntries entries)
  | node => node

def erasedAll : List Node → List Node
  | [] => []
  | node :: rest => node.erased :: erasedAll rest

def erasedEntries : List (Node × Node) → List (Node × Node)
  | [] => []
  | (key, value) :: rest => (key.erased, value.erased) :: erasedEntries rest

end

mutual

/-- The tree with parentheses around operators and indices and nowhere else. -/
def regrouped : Node → Node
  | program statements => program (regroupedAll statements)
  | block statements => block (regroupedAll statements)
  | letBind name value => letBind name value.regrouped
  | returning value => returning value.regrouped
  | expression inner => expression inner.regrouped
  | prefixOp operator right => grouped (prefixOp operator right.regrouped)
  | infixOp left operator right => grouped (infixOp left.regrouped operator right.regrouped)
  | grouped inner => inner.regrouped
  | conditional condition consequence alternative =>
    conditional condition.regrouped consequence.regrouped alternative.regrouped
  | function parameters body => function parameters body.regrouped
  | call callee arguments => call callee.regrouped (regroupedAll arguments)
  | array elements => array (regroupedAll elements)
  | index collection position => grouped (index collection.regrouped position.regrouped)
  | mapping entries => mapping (regroupedEntries entries)
  | node => node

def regroupedAll : List Node → List Node
  | [] => []
  | node :: rest => node.regrouped :: regroupedAll rest

def regroupedEntries : List (Node × Node) → List (Node × Node)
  | [] => []
  | (key, value) :: rest => (key.regrouped, value.regrouped) :: regroupedEntries rest

end

/-! ### Regrouping keeps the tree -/

mutual

theorem erased_regrouped (node : Node) : node.regrouped.erased = node.erased := by
  cases node <;>
    simp only [regrouped, erased, erased_regrouped, erasedAll_regroupedAll,
      erasedEntries_regroupedEntries]

theorem erasedAll_regroupedAll (nodes : List Node) :
    erasedAll (regroupedAll nodes) = erasedAll nodes := by
  cases nodes <;> simp only [regroupedAll, erasedAll, erased_regrouped, erasedAll_regroupedAll]

theorem erasedEntries_regroupedEntries (entries : List (Node × Node)) :
    erasedEntries (regroupedEntries entries) = erasedEntries entries := by
  cases entries <;>
    simp only [regroupedEntries, erasedEntries, erased_regrouped, erasedEntries_regroupedEntries]

end

/-! ### Regrouped trees are graded -/

theorem level?_regrouped (node : Node) :
    node.regrouped.level? = none ∧ node.regrouped.isPrefixed = false := by
  cases node with
  | grouped inner =>
    rw [regrouped]
    exact level?_regrouped inner
  | _ => simp [regrouped, level?, isPrefixed]

mutual

theorem graded_regrouped (node : Node) : node.regrouped.Graded := by
  cases node with
  | program statements => simp only [regrouped, Graded, allGraded_regroupedAll]
  | block statements => simp only [regrouped, Graded, allGraded_regroupedAll]
  | array elements => simp only [regrouped, Graded, allGraded_regroupedAll]
  | mapping entries => simp only [regrouped, Graded, entriesGraded_regroupedEntries]
  | prefixOp operator right =>
    simp only [regrouped, Graded]
    exact ⟨(level?_regrouped right).1, graded_regrouped right⟩
  | infixOp left operator right =>
    simp only [regrouped, Graded, (level?_regrouped left).1, (level?_regrouped right).1]
    exact ⟨nofun, nofun, graded_regrouped left, graded_regrouped right⟩
  | call callee arguments =>
    obtain ⟨hlevel, hplain⟩ := level?_regrouped callee
    simp only [regrouped, Graded]
    exact ⟨hlevel, hplain, graded_regrouped callee, allGraded_regroupedAll arguments⟩
  | index collection position =>
    obtain ⟨hlevel, hplain⟩ := level?_regrouped collection
    simp only [regrouped, Graded]
    exact ⟨hlevel, hplain, graded_regrouped collection, graded_regrouped position⟩
  | conditional condition consequence alternative =>
    simp only [regrouped, Graded]
    exact ⟨graded_regrouped condition, graded_regrouped consequence, graded_regrouped alternative⟩
  | letBind name value | returning value | expression value | grouped value | function _ value =>
    simp only [regrouped, Graded]
    exact graded_regrouped value
  | _ => simp only [regrouped, Graded]

theorem allGraded_regroupedAll (nodes : List Node) : AllGraded (regroupedAll nodes) := by
  cases nodes with
  | nil => trivial
  | cons node rest => exact ⟨graded_regrouped node, allGraded_regroupedAll rest⟩

theorem entriesGraded_regroupedEntries (entries : List (Node × Node)) :
    EntriesGraded (regroupedEntries entries) := by
  cases entries with
  | nil => trivial
  | cons entry rest =>
    exact ⟨graded_regrouped entry.1, graded_regrouped entry.2, entriesGraded_regroupedEntries rest⟩

end

end MonkeyLang.Node
