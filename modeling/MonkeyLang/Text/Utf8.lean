import MonkeyLang.Text.Hex

/-!
Strict UTF-8. A byte sequence is refused at its first ill-formed part; the fault names the bytes
that could have begun a character. A text is refused at its first surrogates: such a text comes from
outside, where half of a surrogate pair can stand alone, and which characters stand for such halves
is given by the encoding.
-/
namespace MonkeyLang.Text

inductive DecodeReason where
  | invalidStart
  | invalidContinuation
  | unexpectedEnd
deriving DecidableEq

/-- The bytes from `start` up to `stop`, the first of which is `byte`, are no character. -/
structure DecodeFault where
  start : Nat
  stop : Nat
  byte : Nat
  reason : DecodeReason
deriving DecidableEq

def DecodeReason.text : DecodeReason → String
  | invalidStart => "invalid start byte"
  | invalidContinuation => "invalid continuation byte"
  | unexpectedEnd => "unexpected end of data"

def DecodeFault.message (f : DecodeFault) : String :=
  let place :=
    if f.stop = f.start + 1 then
      "byte 0x" ++ String.ofList (hex 2 f.byte) ++ " in position " ++ toString f.start
    else
      "bytes in position " ++ toString f.start ++ "-" ++ toString (f.stop - 1)
  "'utf-8' codec can't decode " ++ place ++ ": " ++ f.reason.text

def continuations? (byte : Nat) : Option (List (Nat × Nat)) :=
  let any := (0x80, 0xbf)
  if 0xc2 ≤ byte ∧ byte ≤ 0xdf then some [any]
  else if byte = 0xe0 then some [(0xa0, 0xbf), any]
  else if byte = 0xed then some [(0x80, 0x9f), any]
  else if 0xe1 ≤ byte ∧ byte ≤ 0xef then some [any, any]
  else if byte = 0xf0 then some [(0x90, 0xbf), any, any]
  else if byte = 0xf4 then some [(0x80, 0x8f), any, any]
  else if 0xf1 ≤ byte ∧ byte ≤ 0xf3 then some [any, any, any]
  else none

def leadBits (byte : Nat) : Nat :=
  if byte < 0xe0 then byte - 0xc0 else if byte < 0xf0 then byte - 0xe0 else byte - 0xf0

structure Partial where
  start : Nat
  byte : Nat
  code : Nat
  expected : List (Nat × Nat)

def decodeFrom : Nat → Option Partial → List UInt8 → Except DecodeFault (List Char)
  | _, none, [] => .ok []
  | position, some p, [] => .error ⟨p.start, position, p.byte, .unexpectedEnd⟩
  | position, none, byte :: rest =>
    let b := byte.toNat
    if b < 0x80 then do
      return Char.ofNat b :: (← decodeFrom (position + 1) none rest)
    else
      match continuations? b with
      | none => .error ⟨position, position + 1, b, .invalidStart⟩
      | some expected => decodeFrom (position + 1) (some ⟨position, b, leadBits b, expected⟩) rest
  | position, some p, byte :: rest =>
    let b := byte.toNat
    match p.expected with
    | [] => .error ⟨p.start, position, p.byte, .invalidContinuation⟩
    | range :: expected =>
      if range.1 ≤ b ∧ b ≤ range.2 then
        let code := 64 * p.code + (b - 0x80)
        if expected.isEmpty then do
          return Char.ofNat code :: (← decodeFrom (position + 1) none rest)
        else decodeFrom (position + 1) (some { p with code, expected }) rest
      else .error ⟨p.start, position, p.byte, .invalidContinuation⟩

def decodeUtf8 (bytes : List UInt8) : Except DecodeFault (List Char) := decodeFrom 0 none bytes

/-! ### Encoding -/

class Encoding where
  surrogate? : Char → Option Nat

instance utf8 : Encoding where
  surrogate? _ := none

/-- From `start` on a number of surrogates, the first of which is `code`, stand in a row. -/
structure EncodeFault where
  start : Nat
  count : Nat
  code : Nat
deriving DecidableEq

def EncodeFault.message (f : EncodeFault) : String :=
  let place :=
    if f.count = 1 then
      "character '\\u" ++ String.ofList (hex 4 f.code) ++ "' in position " ++ toString f.start
    else
      "characters in position " ++ toString f.start ++ "-" ++ toString (f.start + f.count - 1)
  "'utf-8' codec can't encode " ++ place ++ ": surrogates not allowed"

def encodeFault? [Encoding] (text : List Char) : Option EncodeFault :=
  let rest := text.dropWhile fun c => (Encoding.surrogate? c).isNone
  (rest.head?.bind Encoding.surrogate?).map fun code =>
    { start := text.length - rest.length
      count := (rest.takeWhile fun c => (Encoding.surrogate? c).isSome).length
      code }

def unifyLineEnds : List Char → List Char
  | '\r' :: '\n' :: rest => '\n' :: unifyLineEnds rest
  | '\r' :: rest => '\n' :: unifyLineEnds rest
  | c :: rest => c :: unifyLineEnds rest
  | [] => []

end MonkeyLang.Text
