import MonkeyLang.Eval.Trace
import MonkeyLang.Value.Basic

/-!
What the lines of a trace and the messages of errors say, read off their first words: the line of an
event shows a call exactly if the event is one, and a message says that a call was refused exactly
if the error does.
-/
namespace MonkeyLang

def beginsWith (start text : String) : Bool := start.toList.isPrefixOf text.toList

def showsCall (line : String) : Bool :=
  beginsWith (evaluatorLine "  Calling user-defined function") line ||
    beginsWith (evaluatorLine "  Calling builtin") line

def saysRefused (message : String) : Bool :=
  beginsWith "expected arity to be " message || beginsWith "not a function: " message

theorem beginsWith_iff {start text : String} :
    beginsWith start text ↔ start.toList <+: text.toList := List.isPrefixOf_iff_prefix

theorem beginsWith_self (text : String) : beginsWith text text :=
  beginsWith_iff.mpr (List.prefix_refl _)

theorem beginsWith_append {start text : String} (h : beginsWith start text) (rest : String) :
    beginsWith start (text ++ rest) := by
  rw [beginsWith_iff, String.toList_append]
  exact (beginsWith_iff.mp h).trans (List.prefix_append _ _)

theorem beginsWith_append_self (start rest : String) : beginsWith start (start ++ rest) :=
  beginsWith_append (beginsWith_self start) rest

theorem beginsWith_append_append (front start text : String) :
    beginsWith (front ++ start) (front ++ text) = beginsWith start text := by
  rw [Bool.eq_iff_iff, beginsWith_iff, beginsWith_iff, String.toList_append, String.toList_append,
    List.prefix_append_right_inj]

/-- Neither text begins with the other one. -/
def apart (a b : String) : Bool := !beginsWith a b && !beginsWith b a

theorem beginsWith_eq_false {start text message : String} (hapart : apart start text)
    (hmessage : beginsWith text message) : beginsWith start message = false := by
  obtain ⟨hstart, htext⟩ := Bool.and_eq_true_iff.mp hapart
  rw [Bool.not_eq_true', ← Bool.not_eq_true, beginsWith_iff] at hstart htext
  rw [← Bool.not_eq_true, beginsWith_iff]
  intro hprefix
  exact (List.prefix_or_prefix_of_prefix hprefix (beginsWith_iff.mp hmessage)).elim hstart htext

theorem beginsWith_or_eq_false {start start' text message : String} (hapart : apart start text)
    (hapart' : apart start' text) (hmessage : beginsWith text message) :
    (beginsWith start message || beginsWith start' message) = false := by
  rw [beginsWith_eq_false hapart hmessage, beginsWith_eq_false hapart' hmessage]
  rfl

def Event.isCall : Event → Bool
  | functionCall _ | builtinCall _ => true
  | _ => false

theorem Event.showsCall_line (event : Event) :
    showsCall (evaluatorLine event.message) = event.isCall := by
  have hshows : showsCall (evaluatorLine event.message) =
      (beginsWith "  Calling user-defined function" event.message ||
        beginsWith "  Calling builtin" event.message) :=
    congr (congrArg or (beginsWith_append_append _ _ _)) (beginsWith_append_append _ _ _)
  rw [hshows]
  -- The texts that events begin with differ before any data comes into them.
  cases event with
  | functionCall arguments =>
    exact Bool.or_eq_true_iff.mpr
      (Or.inl (beginsWith_append_self _ (": " ++ toString arguments ++ " args")))
  | builtinCall primitive =>
    exact Bool.or_eq_true_iff.mpr (Or.inr (beginsWith_append_self _ (": " ++ primitive.name)))
  | emptyPlace => exact beginsWith_or_eq_false (by decide) (by decide) (beginsWith_self _)
  | prefixNode | infixNode | unboundName | bound | programReturn | programError | completed =>
    exact beginsWith_or_eq_false (by decide) (by decide) (beginsWith_append_self _ _)
  | programNode | programStart | blockNode | callNode | mapNode | unknownNode =>
    exact beginsWith_or_eq_false (by decide) (by decide)
      (beginsWith_append (beginsWith_append_self _ _) _)
  | statement =>
    exact beginsWith_or_eq_false (by decide) (by decide)
      (beginsWith_append (beginsWith_append (beginsWith_append_self _ _) _) _)

def EvalError.isRefusedCall : EvalError → Bool
  | arity _ _ | notCallable _ => true
  | stated message => saysRefused message
  | _ => false

theorem EvalError.saysRefused_message (cause : EvalError) :
    saysRefused cause.message = cause.isRefusedCall := by
  have hsecond : ∀ a b c : String, beginsWith a (a ++ b ++ c) :=
    fun a b c => beginsWith_append (beginsWith_append_self a b) c
  have hthird : ∀ a b c d : String, beginsWith a (a ++ b ++ c ++ d) :=
    fun a b c d => beginsWith_append (hsecond a b c) d
  have hfifth : ∀ a b c d e f : String, beginsWith a (a ++ b ++ c ++ d ++ e ++ f) :=
    fun a b c d e f => beginsWith_append (beginsWith_append (hthird a b c d) e) f
  cases cause with
  | arity wanted got =>
    exact Bool.or_eq_true_iff.mpr (Or.inl (beginsWith_append (hthird _ _ _ _) _))
  | notCallable callee => exact Bool.or_eq_true_iff.mpr (Or.inr (beginsWith_append_self _ _))
  | stated message => rfl
  | tooDeep => exact beginsWith_or_eq_false (by decide) (by decide) (beginsWith_self _)
  | unboundName | unknownNode | unusableKey | notIndexable | noLength | negationOverflow =>
    exact beginsWith_or_eq_false (by decide) (by decide) (beginsWith_append_self _ _)
  | unknownPrefix | divisionByZero =>
    exact beginsWith_or_eq_false (by decide) (by decide) (hsecond _ _ _)
  | argumentCount | notArray =>
    exact beginsWith_or_eq_false (by decide) (by decide) (hthird _ _ _ _)
  | unknownInfix | typeMismatch | overflow =>
    exact beginsWith_or_eq_false (by decide) (by decide) (hfifth _ _ _ _ _ _)

end MonkeyLang
