import WireRecord.Source.Literal
import WireRecord.Source.Tree

/-!
From source text to token trees. Comments and blanks vanish, except that a documentation comment
stands for an attribute.
-/

namespace WireRecord

structure Located where
  char : Char
  place : Place

/-- A token, a documentation comment as the tokens that it stands for, or a delimiter. -/
inductive Lexeme where
  | trees (trees : List SourceTree)
  | opening (delimiter : Delimiter) (place : Place)
  | closing (place : Place)

namespace Lexer

def locate (place : Place) : List Char → List Located
  | [] => []
  | c :: rest => ⟨c, place⟩ :: locate (place.next c) rest

def placeAfter (chars : List Char) : Place := chars.foldl Place.next Place.first

def textOf (cs : List Located) : String := String.ofList (cs.map Located.char)

/-- The code points of the blanks outside ASCII, marks of writing direction included. -/
def wideBlanks : List Nat :=
  [0x85, 0xA0, 0x1680, 0x2000, 0x2001, 0x2002, 0x2003, 0x2004, 0x2005, 0x2006, 0x2007, 0x2008,
   0x2009, 0x200A, 0x200E, 0x200F, 0x2028, 0x2029, 0x202F, 0x205F, 0x3000]

def isBlank (c : Char) : Bool :=
  c = ' ' || (9 ≤ c.toNat && c.toNat ≤ 13) || wideBlanks.contains c.toNat

/-- Whether a character may begin a name. Outside ASCII every character that is not blank may:
valid text has no others outside literals and comments. -/
def beginsName (c : Char) : Bool :=
  c.isAlpha || c = '_' || (128 ≤ c.toNat && !wideBlanks.contains c.toNat)

def continuesName (c : Char) : Bool := beginsName c || c.isDigit

def isPunct (c : Char) : Bool := "~!@#$%^&*-=+|;:,<.>/?'".toList.contains c

def beginsWith : List Char → List Located → Bool
  | [], _ => true
  | c :: cs, l :: ls => c = l.char && beginsWith cs ls
  | _ :: _, [] => false

/-- Splits off the characters at the front that satisfy a test. -/
def splitWhile (p : Char → Bool) (cs : List Located) : List Located × List Located :=
  cs.span fun l => p l.char

/-- Splits off a name. A name that would be a keyword otherwise begins with `r#`. -/
def splitName (cs : List Located) : List Located × List Located :=
  let skip := if beginsWith ['r', '#'] cs then 2 else 0
  let (name, rest) := splitWhile continuesName (cs.drop skip)
  (cs.take skip ++ name, rest)

/-- Splits after the closing quote; a backslash hides the character after it. -/
def splitQuoted (quote : Char) : List Located → Option (List Located × List Located)
  | [] => none
  | l :: rest =>
    if l.char = quote then some ([l], rest)
    else if l.char = '\\' then
      match rest with
      | [] => none
      | hidden :: rest =>
        (splitQuoted quote rest).map fun (body, rest) => (l :: hidden :: body, rest)
    else (splitQuoted quote rest).map fun (body, rest) => (l :: body, rest)

/-- Splits after the first quote that is followed by so many number signs. -/
def splitRaw (hashes : Nat) : List Located → Option (List Located × List Located)
  | [] => none
  | l :: rest =>
    if beginsWith ('"' :: List.replicate hashes '#') (l :: rest) then
      some (l :: rest.take hashes, rest.drop hashes)
    else (splitRaw hashes rest).map fun (body, rest) => (l :: body, rest)

/-- Splits after the end of a block comment that is `depth` levels deep. -/
def splitBlock (depth : Nat) : List Located → Option (List Located × List Located)
  | [] => none
  | [_] => none
  | l :: m :: rest =>
    if l.char = '*' && m.char = '/' then
      if depth ≤ 1 then some ([l, m], rest)
      else (splitBlock (depth - 1) rest).map fun (body, rest) => (l :: m :: body, rest)
    else if l.char = '/' && m.char = '*' then
      (splitBlock (depth + 1) rest).map fun (body, rest) => (l :: m :: body, rest)
    else (splitBlock depth (m :: rest)).map fun (body, rest) => (l :: body, rest)

/-- Splits a line comment from the end of its line. -/
def splitLine (cs : List Located) : List Located × List Located :=
  let (line, rest) := splitWhile (· != '\n') cs
  match line.getLast?, rest with
  | some l, _ :: _ => if l.char = '\r' then (line.dropLast, l :: rest) else (line, rest)
  | _, _ => (line, rest)

/-- Splits a raw string that begins after its number signs are counted. -/
def splitRawString (cs : List Located) : Option (List Located × List Located) :=
  let (hashes, rest) := splitWhile (· = '#') cs
  match rest with
  | [] => none
  | q :: rest =>
    if q.char = '"' then
      (splitRaw hashes.length rest).map fun (body, rest) => (hashes ++ q :: body, rest)
    else none

def splitExponent (cs : List Located) : List Located × List Located :=
  match cs with
  | e :: rest =>
    if e.char = 'e' || e.char = 'E' then
      let (sign, rest) :=
        match rest with
        | s :: more => if s.char = '+' || s.char = '-' then ([s], more) else ([], rest)
        | [] => ([], rest)
      let (digits, rest) := splitWhile (fun c => c.isDigit || c = '_') rest
      if digits.any fun l => l.char.isDigit then (e :: sign ++ digits, rest) else ([], cs)
    else ([], cs)
  | [] => ([], [])

/-- Whether a point at the front belongs to the number before it. -/
def continuesNumber : List Located → Bool
  | point :: next :: _ =>
    point.char = '.' && !(next.char = '.') && !beginsName next.char
  | [point] => point.char = '.'
  | [] => false

def splitNumber (cs : List Located) : List Located × List Located :=
  if beginsWith ['0', 'x'] cs || beginsWith ['0', 'o'] cs || beginsWith ['0', 'b'] cs then
    splitWhile continuesName cs
  else
    let (whole, rest) := splitWhile (fun c => c.isDigit || c = '_') cs
    let (fraction, rest) :=
      if continuesNumber rest then
        let (digits, after) := splitWhile (fun c => c.isDigit || c = '_') (rest.drop 1)
        (rest.take 1 ++ digits, after)
      else ([], rest)
    let (exponent, rest) := splitExponent rest
    (whole ++ fraction ++ exponent, rest)

/-- Splits off a literal without its suffix, if there is one at the front. -/
def splitLiteral? (cs : List Located) : Option (List Located × List Located) :=
  let quoted (skip : Nat) (quote : Char) : Option (List Located × List Located) :=
    (splitQuoted quote (cs.drop skip)).map fun (body, rest) => (cs.take skip ++ body, rest)
  let rawString (skip : Nat) : Option (List Located × List Located) :=
    (splitRawString (cs.drop skip)).map fun (body, rest) => (cs.take skip ++ body, rest)
  match (cs.take 3).map Located.char with
  | '"' :: _ => quoted 1 '"'
  | 'r' :: _ => rawString 1
  | 'b' :: '"' :: _ => quoted 2 '"'
  | 'b' :: '\'' :: _ => quoted 2 '\''
  | 'b' :: 'r' :: _ => rawString 2
  | 'c' :: '"' :: _ => quoted 2 '"'
  | 'c' :: 'r' :: _ => rawString 2
  | '\'' :: '\\' :: _ => quoted 1 '\''
  | ['\'', _, '\''] => some (cs.take 3, cs.drop 3)
  | c :: _ => if c.isDigit then some (splitNumber cs) else none
  | [] => none

/-- Splits off a literal with its suffix, if there is one at the front. -/
def splitSuffixed? (cs : List Located) : Option (List Located × List Located) :=
  (splitLiteral? cs).map fun (body, rest) =>
    match rest with
    | l :: _ =>
      if beginsName l.char then
        let (suffix, rest) := splitWhile continuesName rest
        (body ++ suffix, rest)
      else (body, rest)
    | [] => (body, rest)

/-- The attribute that a documentation comment stands for. All its tokens are placed at the start
of the comment. -/
def documentation (text : String) (isInner : Bool) (place : Place) : List SourceTree :=
  .punct '#' false place :: (if isInner then [.punct '!' false place] else []) ++
    [.group .bracket place place
      [.name "doc" place, .punct '=' false place, .literal (Literal.quote text) place]]

/-- The content of a documentation comment and whether it is inner, if the comment is one. -/
def documentation? (comment : String) : Option (String × Bool) :=
  let cs := comment.toList
  let block (skip : Nat) : String := String.ofList ((cs.drop skip).take (cs.length - skip - 2))
  match cs with
  | '/' :: '/' :: '!' :: rest => some (String.ofList rest, true)
  | '/' :: '/' :: '/' :: rest =>
    if rest.head? = some '/' then none else some (String.ofList rest, false)
  | '/' :: '*' :: '!' :: _ => some (block 3, true)
  | '/' :: '*' :: '*' :: rest =>
    if rest.head? = some '*' || rest.head? = some '/' then none else some (block 3, false)
  | _ => none

/-- The lexeme for a comment: a documentation comment, or nothing. -/
def commentLexeme (comment : List Located) (place : Place) : Lexeme :=
  match documentation? (textOf comment) with
  | some (text, isInner) => .trees (documentation text isInner place)
  | none => .trees []

def opens? : Char → Option Delimiter
  | '(' => some .paren
  | '[' => some .bracket
  | '\x7b' => some .brace
  | _ => none

def closes (c : Char) : Bool := c = ')' || c = ']' || c = '\x7d'

/-- The first lexeme of a text and the text after it. -/
def next? (cs : List Located) : Option (Lexeme × List Located) :=
  match cs with
  | [] => none
  | l :: rest =>
    if isBlank l.char then some (.trees [], rest)
    else if beginsWith ['/', '/'] cs then
      let (comment, rest) := splitLine cs
      some (commentLexeme comment l.place, rest)
    else if beginsWith ['/', '*'] cs then
      (splitBlock 1 (cs.drop 2)).map fun (body, rest) =>
        (commentLexeme (cs.take 2 ++ body) l.place, rest)
    else if let some delimiter := opens? l.char then some (.opening delimiter l.place, rest)
    else if closes l.char then some (.closing l.place, rest)
    else if let some (literal, rest) := splitSuffixed? cs then
      some (.trees [.literal (textOf literal) l.place], rest)
    else if l.char = '\'' then
      let (label, rest) := splitName rest
      some (.trees [.lifetime (textOf (l :: label)) l.place], rest)
    else if beginsName l.char then
      let (name, rest) := splitName cs
      some (.trees [.name (textOf name) l.place], rest)
    else if isPunct l.char then
      let joint := match rest with
        | m :: _ =>
          isPunct m.char && !(beginsWith ['/', '/'] rest) && !(beginsWith ['/', '*'] rest)
        | [] => false
      some (.trees [.punct l.char joint l.place], rest)
    else none

/-- All lexemes of a text. The fuel is the number of characters; every lexeme takes at least
one. -/
def lexemes : Nat → List Located → Option (List Lexeme)
  | _, [] => some []
  | 0, _ => none
  | fuel + 1, cs => do
    let (lexeme, rest) ← next? cs
    let lexemes ← lexemes fuel rest
    return lexeme :: lexemes

/-- A group that has been opened: its delimiter, where it begins, and the trees before it, the last
one first. -/
structure OpenGroup where
  delimiter : Delimiter
  place : Place
  before : List SourceTree

/-- Builds trees from lexemes. `done` holds the trees of the innermost open group, the last one
first. -/
def build : List Lexeme → List SourceTree → List OpenGroup → Option (List SourceTree)
  | [], done, [] => some done.reverse
  | [], _, _ :: _ => none
  | .trees trees :: rest, done, groups => build rest (trees.reverse ++ done) groups
  | .opening delimiter place :: rest, done, groups =>
    build rest [] (⟨delimiter, place, done⟩ :: groups)
  | .closing place :: rest, done, group :: groups =>
    build rest (.group group.delimiter group.place place done.reverse :: group.before) groups
  | .closing _ :: _, _, [] => none

end Lexer

/-- The mark that may stand before the first character of a text. -/
def Lexer.orderMark : Char := '\uFEFF'

/-- The token trees of a text, and the place where the text ends. -/
def SourceTree.ofText? (text : String) : Option (List SourceTree × Place) := do
  let chars := text.toList
  let located := Lexer.locate Place.first chars
  let content := if Lexer.beginsWith [Lexer.orderMark] located then located.drop 1 else located
  let lexemes ← Lexer.lexemes chars.length content
  let trees ← Lexer.build lexemes [] []
  return (trees, Lexer.placeAfter chars)

end WireRecord
