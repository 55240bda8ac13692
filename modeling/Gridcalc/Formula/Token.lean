import Gridcalc.Grid.Address
import Gridcalc.Text.Blank

/-! # Tokens

The lexemes of a formula and the reader that splits a formula's text into them. A minus sign
directly before a digit belongs to the number, after an operand too: `A1-2` is a reference and
the number `-2`, and a subtraction needs a blank, `A1 - 2`. Positions count characters of the
trimmed text.
-/

namespace Gridcalc

inductive TokenKind where
  | number
  | text
  | operator
  | leftParen
  | rightParen
  | comma
  | colon
  | reference
  | name
  | finish
deriving DecidableEq, Repr

namespace TokenKind

def label : TokenKind → String
  | number => "NUMBER"
  | text => "STRING"
  | operator => "OPERATOR"
  | leftParen => "LPAREN"
  | rightParen => "RPAREN"
  | comma => "COMMA"
  | colon => "COLON"
  | reference => "CELL_REF"
  | name => "IDENTIFIER"
  | finish => "END"

end TokenKind

structure Token where
  kind : TokenKind
  text : String
  position : Int
deriving DecidableEq, Repr

inductive SyntaxFault where
  | unexpectedCharacter (c : Char)
  | unterminatedText
  | unexpectedToken (text : String)
  | unexpectedName (name : String)
  | expected (wanted found : TokenKind)
  /-- Only token lists that did not come from a text have these two. -/
  | notANumber (text : String)
  | missingEnd
deriving DecidableEq, Repr

def SyntaxFault.message : SyntaxFault → String
  | unexpectedCharacter c => "Unexpected character: " ++ c.toString
  | unterminatedText => "Unterminated string"
  | unexpectedToken text => "Unexpected token: " ++ text
  | unexpectedName name => "Unexpected identifier: " ++ name
  | expected wanted found => "Expected " ++ wanted.label ++ ", got " ++ found.label
  | notANumber text => "Not a number: " ++ text
  | missingEnd => "token list must end with an END token"

/-- Whether a text can have the fault, not only a list of tokens. -/
def SyntaxFault.isOfText : SyntaxFault → Bool
  | notANumber _ => false
  | missingEnd => false
  | _ => true

structure SyntaxError where
  fault : SyntaxFault
  position : Int
deriving DecidableEq, Repr

def SyntaxError.message (e : SyntaxError) : String :=
  "Formula parse error: " ++ e.fault.message ++ " (at position " ++ toString e.position ++ ")"

namespace Token

def isLetter (c : Char) : Bool :=
  (decide ('a' ≤ c) && decide (c ≤ 'z')) || (decide ('A' ≤ c) && decide (c ≤ 'Z'))

def isNameChar (c : Char) : Bool := isLetter c || Text.isAsciiDigit c || c == '_'

def punctuation? : Char → Option TokenKind
  | '(' => some .leftParen
  | ')' => some .rightParen
  | ',' => some .comma
  | ':' => some .colon
  | '+' => some .operator
  | '-' => some .operator
  | '*' => some .operator
  | '/' => some .operator
  | '^' => some .operator
  | _ => none

/-- Digits with at most one point among them. -/
def numberChars (seenPoint : Bool) : List Char → List Char
  | [] => []
  | c :: cs =>
    if Text.isAsciiDigit c then c :: numberChars seenPoint cs
    else if c = '.' ∧ seenPoint = false then c :: numberChars true cs
    else []

def markerChars : List Char → List Char
  | '$' :: _ => ['$']
  | _ => []

/-- The reference at the head of a text: letters and digits, each after an optional `$`. -/
def referenceChars? (cs : List Char) : Option (List Char) :=
  let columnMarker := markerChars cs
  let cs := cs.drop columnMarker.length
  let letters := cs.takeWhile Address.isColumnLetter
  let cs := cs.drop letters.length
  let rowMarker := markerChars cs
  let cs := cs.drop rowMarker.length
  let digits := cs.takeWhile Text.isDigit
  if letters ≠ [] ∧ digits ≠ [] then some (columnMarker ++ letters ++ rowMarker ++ digits)
  else none

def startsNumber (c : Char) (cs : List Char) : Bool :=
  Text.isAsciiDigit c || (c == '-' && (cs.head?.map Text.isAsciiDigit).getD false)

/-- A lexeme that takes its first character and `more` characters after it. -/
structure Lexeme where
  kind : TokenKind
  text : List Char
  more : Nat
deriving DecidableEq, Repr

/-- The lexeme at the head of a text that starts with `c` and goes on with `cs`. -/
def lexeme (c : Char) (cs : List Char) : Except SyntaxFault Lexeme :=
  if startsNumber c cs then
    let digits := numberChars false cs
    .ok ⟨.number, c :: digits, digits.length⟩
  else if c = '"' then
    let inner := cs.takeWhile (· != '"')
    if inner.length < cs.length then .ok ⟨.text, inner, inner.length + 1⟩
    else .error .unterminatedText
  else
    match punctuation? c with
    | some kind => .ok ⟨kind, [c], 0⟩
    | none =>
      if c = '$' ∨ isLetter c = true then
        match referenceChars? (c :: cs) with
        | some chars => .ok ⟨.reference, chars, chars.length - 1⟩
        | none =>
          if c = '$' then .error (.unexpectedCharacter c)
          else
            let rest := cs.takeWhile isNameChar
            .ok ⟨.name, c :: rest, rest.length⟩
      else .error (.unexpectedCharacter c)

/-- The tokens of a text whose first character stands at `position`, with the closing one. -/
def scan (position : Nat) : List Char → Except SyntaxError (List Token)
  | [] => .ok [⟨.finish, "", position⟩]
  | c :: cs =>
    if Text.isBlank c then scan (position + 1) cs
    else
      match lexeme c cs with
      | .error fault => .error ⟨fault, position⟩
      | .ok l =>
        match scan (position + 1 + l.more) (cs.drop l.more) with
        | .error e => .error e
        | .ok tokens => .ok (⟨l.kind, String.ofList l.text, position⟩ :: tokens)
termination_by cs => cs.length
decreasing_by all_goals simp only [List.length_cons, List.length_drop]; omega

end Token

def tokenize (s : String) : Except SyntaxError (List Token) := Token.scan 0 (Text.trimChars s.toList)

end Gridcalc
