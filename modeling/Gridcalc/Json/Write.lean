import Gridcalc.Json.Basic
import Gridcalc.Number.Layout

/-! # Writing JSON

Two forms: on one line, and indented by two blanks a level. Both are printable ASCII throughout;
other characters are written by their UTF-16 code units. Integers are written at any length; a
journal whose writer refuses long ones says so in its `refuses`.
-/

namespace Gridcalc.Json

/-- Doubles always look like doubles: a point or an exponent is never left out. -/
def floatLayout : Number.Layout where
  lowest := some (-4)
  highest := some 15
  pointZero := true
  exponentWidth := 2
  notNumber := "NaN"
  infinite := "Infinity"

def intChars (i : Int) : List Char := Number.Layout.signed (decide (i < 0)) (Nat.toDigits 10 i.natAbs)

def hexDigits4 (n : Nat) : List Char :=
  [n / 4096 % 16, n / 256 % 16, n / 16 % 16, n % 16].map Nat.digitChar

def unitChars (n : Nat) : List Char := '\\' :: 'u' :: hexDigits4 n

def charChars (c : Char) : List Char :=
  if c = '"' then ['\\', '"']
  else if c = '\\' then ['\\', '\\']
  else if c = '\n' then ['\\', 'n']
  else if c = '\r' then ['\\', 'r']
  else if c = '\t' then ['\\', 't']
  else if c = '\x08' then ['\\', 'b']
  else if c = '\x0c' then ['\\', 'f']
  else if ' ' ≤ c ∧ c ≤ '~' then [c]
  else if c.toNat < 0x10000 then unitChars c.toNat
  else
    let n := c.toNat - 0x10000
    unitChars (0xd800 + n / 0x400) ++ unitChars (0xdc00 + n % 0x400)

def textChars (s : String) : List Char := '"' :: s.toList.flatMap charChars ++ ['"']

def scalarChars : Json → List Char
  | .null => "null".toList
  | .bool true => "true".toList
  | .bool false => "false".toList
  | .int i => intChars i
  | .float v => floatLayout.chars v
  | .text s => textChars s
  | .list _ => "[]".toList
  | .object _ => "\x7b\x7d".toList

mutual
def lineChars : Json → List Char
  | .list items => '[' :: itemChars items ++ [']']
  | .object members => '{' :: memberChars members ++ ['}']
  | j => scalarChars j

def itemChars : List Json → List Char
  | [] => []
  | [j] => lineChars j
  | j :: js => lineChars j ++ ',' :: ' ' :: itemChars js

def memberChars : List (String × Json) → List Char
  | [] => []
  | [(k, v)] => textChars k ++ ':' :: ' ' :: lineChars v
  | (k, v) :: ms => textChars k ++ ':' :: ' ' :: lineChars v ++ ',' :: ' ' :: memberChars ms
end

def line (j : Json) : String := String.ofList (lineChars j)

def newLine (level : Nat) : List Char := '\n' :: List.replicate (2 * level) ' '

mutual
def treeChars (level : Nat) : Json → List Char
  | .list (j :: js) => '[' :: newLine (level + 1) ++ treeItemChars (level + 1) (j :: js) ++
      newLine level ++ [']']
  | .object (m :: ms) => '{' :: newLine (level + 1) ++ treeMemberChars (level + 1) (m :: ms) ++
      newLine level ++ ['}']
  | j => scalarChars j

def treeItemChars (level : Nat) : List Json → List Char
  | [] => []
  | [j] => treeChars level j
  | j :: js => treeChars level j ++ ',' :: newLine level ++ treeItemChars level js

def treeMemberChars (level : Nat) : List (String × Json) → List Char
  | [] => []
  | [(k, v)] => textChars k ++ ':' :: ' ' :: treeChars level v
  | (k, v) :: ms => textChars k ++ ':' :: ' ' :: treeChars level v ++ ',' :: newLine level ++
      treeMemberChars level ms
end

def indented (j : Json) : String := String.ofList (treeChars 0 j)

end Gridcalc.Json
