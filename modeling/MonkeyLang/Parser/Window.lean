import MonkeyLang.Parser.Grammar

/-!
A window on a stream, between the token taken last and the token taken next. Forms are read from the
token taken last, and leave the window behind the last token that they took.
-/
namespace MonkeyLang

/-- The stream begins with the token taken last. -/
structure Window where
  stream : Stream

namespace Window

def ofScan (found : Lexer.Scan) : Window := ⟨.ofScan found⟩

def current (w : Window) : Token := w.stream.next

def upcoming (w : Window) : Token := w.stream.advance.next

/-- The window before the given rest of its stream. At the end of input it does not move on. -/
def before (w : Window) (rest : Stream) : Window :=
  let taken := w.stream.pending.length - rest.pending.length
  ⟨{ w.stream with pending := w.stream.pending.drop (taken - 1) }⟩

def slide (w : Window) : Window := w.before w.stream.advance.advance

def read {α : Type} (w : Window) (p : Parser α) : Option α × Window × List Diagnostic :=
  let o := p w.stream
  (o.value, w.before o.rest, o.reports)

def readAhead {α : Type} (w : Window) (p : Parser α) : Option α × Window × List Diagnostic :=
  w.read do
    let _ ← Parser.take
    p

def brokenOff? (w : Window) (found : Lexer.Scan) : Option Lexer.Oversized :=
  if w.upcoming = found.ending then found.oversized else none

end Window

end MonkeyLang
