import WireRecord.Source.Visible

/-!
Literals of source text: how a text is written as a string literal, which text a string literal
denotes, and which number an integer literal.
-/

namespace WireRecord

namespace Literal

def hex (n : Nat) : List Char := Nat.toDigits 16 n

/-- A character inside a string literal; `next` is the character after it. -/
def escape (c : Char) (next : Option Char) : List Char :=
  if c = '"' then ['\\', '"']
  else if c = '\\' then ['\\', '\\']
  else if c = '\n' then ['\\', 'n']
  else if c = '\r' then ['\\', 'r']
  else if c = '\t' then ['\\', 't']
  else if c.toNat = 0 then
    if next.any fun d => '0' ≤ d && d ≤ '7' then "\\x00".toList else "\\0".toList
  else if isVisible c then [c]
  else ['\\', 'u', '\x7b'] ++ hex c.toNat ++ ['\x7d']

def escapeAll : List Char → List Char
  | [] => []
  | c :: rest => escape c rest.head? ++ escapeAll rest

def quote (text : String) : String := String.ofList ('"' :: escapeAll text.toList ++ ['"'])

def hexValue? (c : Char) : Option Nat :=
  if '0' ≤ c && c ≤ '9' then some (c.toNat - '0'.toNat)
  else if 'a' ≤ c && c ≤ 'f' then some (c.toNat - 'a'.toNat + 10)
  else if 'A' ≤ c && c ≤ 'F' then some (c.toNat - 'A'.toNat + 10)
  else none

/-- The number written by digits in a base; underscores between them do not count. -/
def number (base : Nat) (digits : List Char) : Nat :=
  (digits.filterMap hexValue?).foldl (fun n d => base * n + d) 0

/-- The number that an integer literal without a suffix denotes. -/
def integerValue (literal : String) : Nat :=
  match literal.toList with
  | '0' :: 'x' :: digits => number 16 digits
  | '0' :: 'o' :: digits => number 8 digits
  | '0' :: 'b' :: digits => number 2 digits
  | digits => number 10 digits

def simpleEscape? : Char → Option Char
  | 'n' => some '\n'
  | 'r' => some '\r'
  | 't' => some '\t'
  | '0' => some (Char.ofNat 0)
  | '\\' => some '\\'
  | '\'' => some '\''
  | '"' => some '"'
  | _ => none

/-- Whether a character is dropped after a backslash at the end of a line. -/
def isContinuationBlank (c : Char) : Bool := c = ' ' || c = '\t' || c = '\n' || c = '\r'

/-- The text denoted by the characters up to the closing quote. The fuel is the number of
characters; every step takes at least one. -/
def unescape : Nat → List Char → Option (List Char)
  | 0, _ => none
  | fuel + 1, cs =>
    match cs with
    | [] => none
    | '"' :: _ => some []
    | '\r' :: '\n' :: rest => (unescape fuel rest).map ('\n' :: ·)
    | '\\' :: 'x' :: a :: b :: rest =>
      (unescape fuel rest).map (Char.ofNat (number 16 [a, b]) :: ·)
    | '\\' :: 'u' :: '\x7b' :: rest =>
      let digits := rest.takeWhile (· != '\x7d')
      (unescape fuel (rest.drop (digits.length + 1))).map (Char.ofNat (number 16 digits) :: ·)
    | '\\' :: c :: rest =>
      match simpleEscape? c with
      | some d => (unescape fuel rest).map (d :: ·)
      | none =>
        if isContinuationBlank c then unescape fuel (rest.dropWhile isContinuationBlank) else none
    | c :: rest => (unescape fuel rest).map (c :: ·)

/-- The characters before the first quote that is followed by so many number signs. -/
def untilQuote (hashes : Nat) : List Char → Option (List Char)
  | [] => none
  | c :: rest =>
    if c = '"' && rest.take hashes = List.replicate hashes '#' then some []
    else (untilQuote hashes rest).map (c :: ·)

/-- The text that a literal denotes, if it is a string literal. Byte and C strings are none. -/
def stringValue? (literal : String) : Option String :=
  match literal.toList with
  | '"' :: rest => (unescape (rest.length + 1) rest).map String.ofList
  | 'r' :: rest =>
    let hashes := (rest.takeWhile (· = '#')).length
    match rest.drop hashes with
    | '"' :: body => (untilQuote hashes body).map String.ofList
    | _ => none
  | _ => none

/-- The name that follows the closing quote of a string literal, or nothing. -/
def stringSuffix (literal : String) : String :=
  let chars := literal.toList.reverse.takeWhile fun c => c != '"' && c != '#'
  String.ofList chars.reverse

def isNumber (literal : String) : Bool := literal.toList.head?.any Char.isDigit

end Literal

end WireRecord
