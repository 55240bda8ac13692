import Gridcalc.Json.Basic
import Gridcalc.Number.Numeral

/-! # Reading JSON

A reader from text to value. Besides the standard it takes the words `NaN` and `Infinity`; of
members with one key the last value counts, in the place of the first. Each reader hands back
the text that follows, which is shorter than the text it was given.
-/

namespace Gridcalc.Json

def isSpace (c : Char) : Bool := c == ' ' || c == '\t' || c == '\n' || c == '\r'

def skipSpace (cs : List Char) : List Char := cs.dropWhile isSpace

theorem length_skipSpace_le (cs : List Char) : (skipSpace cs).length ≤ cs.length :=
  (List.dropWhile_sublist _).length_le

def hexValue? (c : Char) : Option Nat :=
  if '0' ≤ c ∧ c ≤ '9' then some (c.toNat - 48)
  else if 'a' ≤ c ∧ c ≤ 'f' then some (c.toNat - 87)
  else if 'A' ≤ c ∧ c ≤ 'F' then some (c.toNat - 55)
  else none

def hexUnit? (a b c d : Char) : Option Nat := do
  return (← hexValue? a) * 4096 + (← hexValue? b) * 256 + (← hexValue? c) * 16 + (← hexValue? d)

def shortEscape? (c : Char) : Option Nat :=
  if c = '"' ∨ c = '\\' ∨ c = '/' then some c.toNat
  else if c = 'n' then some 10
  else if c = 'r' then some 13
  else if c = 't' then some 9
  else if c = 'b' then some 8
  else if c = 'f' then some 12
  else none

/-- The characters of a text as code points or UTF-16 code units, up to the closing quote. -/
def readUnits : List Char → Option (List Nat × List Char)
  | [] => none
  | '"' :: rest => some ([], rest)
  | '\\' :: 'u' :: a :: b :: c :: d :: rest => do
    let unit ← hexUnit? a b c d
    let (units, rest) ← readUnits rest
    return (unit :: units, rest)
  | '\\' :: c :: rest => do
    let unit ← shortEscape? c
    let (units, rest) ← readUnits rest
    return (unit :: units, rest)
  | c :: rest =>
    if c.toNat < 0x20 then none
    else do
      let (units, rest) ← readUnits rest
      return (c.toNat :: units, rest)

theorem length_readUnits_lt {cs : List Char} {units : List Nat} {rest : List Char}
    (h : readUnits cs = some (units, rest)) : rest.length < cs.length := by
  fun_induction readUnits cs generalizing units rest with
  | case1 => simp at h
  | case2 => simp_all
  | case3 a b c d rest ih =>
    simp only [Option.bind_eq_bind, Option.bind_eq_some_iff, Option.pure_def] at h
    obtain ⟨_, _, ⟨_, _⟩, hp, h⟩ := h
    have := ih hp
    simp_all
    omega
  | case4 c rest _ ih =>
    simp only [Option.bind_eq_bind, Option.bind_eq_some_iff, Option.pure_def] at h
    obtain ⟨_, _, ⟨_, _⟩, hp, h⟩ := h
    have := ih hp
    simp_all
    omega
  | case5 => simp at h
  | case6 c rest _ _ _ _ ih =>
    simp only [Option.bind_eq_bind, Option.bind_eq_some_iff, Option.pure_def] at h
    obtain ⟨⟨_, _⟩, hp, h⟩ := h
    have := ih hp
    simp_all
    omega

/-- Joins surrogate pairs; a surrogate that stands alone becomes the replacement character. -/
def joinUnits : List Nat → List Char
  | high :: low :: rest =>
    if 0xd800 ≤ high ∧ high < 0xdc00 ∧ 0xdc00 ≤ low ∧ low < 0xe000 then
      Char.ofNat (0x10000 + (high - 0xd800) * 0x400 + (low - 0xdc00)) :: joinUnits rest
    else lone high :: joinUnits (low :: rest)
  | [unit] => [lone unit]
  | [] => []
where
  lone (unit : Nat) : Char :=
    if 0xd800 ≤ unit ∧ unit < 0xe000 then '\ufffd' else Char.ofNat unit

/-- The digits before the point: a zero stands alone. -/
def takeWhole : List Char → List Char
  | '0' :: _ => ['0']
  | cs => cs.takeWhile Text.isAsciiDigit

def takePlaces : List Char → List Char
  | '.' :: cs => cs.takeWhile Text.isAsciiDigit
  | _ => []

/-- A number without sign. It is an integer unless it has a fraction or an exponent. -/
def readNumber? (negative : Bool) (cs : List Char) : Option (Json × List Char) :=
  let whole := takeWhole cs
  if whole = [] then none
  else
    let rest := cs.drop whole.length
    let places := takePlaces rest
    let rest := if places = [] then rest else rest.drop (places.length + 1)
    match places, Number.takeExponent? Text.isAsciiDigit rest with
    | [], none => some (.int (Number.signedInt negative (Text.digitsValue whole)), rest)
    | _, power =>
      let (exponent, rest) := power.getD (0, rest)
      let d : Number.Decimal := ⟨Text.digitsValue (whole ++ places), exponent - places.length⟩
      some (.float (d.toFloat negative), rest)

def words : List (List Char × Json) := [
  ("null".toList, .null), ("true".toList, .bool true), ("false".toList, .bool false),
  ("NaN".toList, .float Number.notNumber), ("Infinity".toList, .float (Number.infinity false)),
  ("-Infinity".toList, .float (Number.infinity true))]

def readScalar? (cs : List Char) : Option (Json × List Char) :=
  match words.find? (·.1.isPrefixOf cs) with
  | some (word, j) => some (j, cs.drop word.length)
  | none =>
    match cs with
    | '"' :: cs => do
      let (units, rest) ← readUnits cs
      return (.text (String.ofList (joinUnits units)), rest)
    | '-' :: cs => readNumber? true cs
    | cs => readNumber? false cs

/-- Something read from the head of `input`, and the shorter text after it. -/
structure Step (α : Type) (input : List Char) where
  value : α
  rest : List Char
  shorter : rest.length < input.length

namespace Step

def widen {α : Type} {cs ds : List Char} (s : Step α cs) (h : cs.length ≤ ds.length) :
    Step α ds :=
  ⟨s.value, s.rest, Nat.lt_of_lt_of_le s.shorter h⟩

def ofPair? {α : Type} {cs : List Char} (p : α × List Char) : Option (Step α cs) :=
  if h : p.2.length < cs.length then some ⟨p.1, p.2, h⟩ else none

end Step

mutual
def readValue (cs : List Char) : Option (Step Json cs) :=
  match cs with
  | '[' :: tail =>
    match h : skipSpace tail with
    | ']' :: rest =>
      have := length_skipSpace_le tail
      some ⟨.list [], rest, by simp_all; omega⟩
    | start =>
      have hle : start.length ≤ tail.length := h ▸ length_skipSpace_le tail
      (readItems start).map fun s => ⟨.list s.value, s.rest, by
        have := s.shorter; simp only [List.length_cons]; omega⟩
  | '{' :: tail =>
    match h : skipSpace tail with
    | '}' :: rest =>
      have := length_skipSpace_le tail
      some ⟨.object [], rest, by simp_all; omega⟩
    | start =>
      have hle : start.length ≤ tail.length := h ▸ length_skipSpace_le tail
      (readMembers [] start).map fun s => ⟨.object s.value, s.rest, by
        have := s.shorter; simp only [List.length_cons]; omega⟩
  | cs => (readScalar? cs).bind Step.ofPair?
termination_by 2 * cs.length
decreasing_by all_goals (simp_all; omega)

def readItems (cs : List Char) : Option (Step (List Json) cs) := do
  let s ← readValue cs
  have := s.shorter
  match h : skipSpace s.rest with
  | ']' :: rest =>
    have := length_skipSpace_le s.rest
    return ⟨[s.value], rest, by simp_all; omega⟩
  | ',' :: tail =>
    have := length_skipSpace_le s.rest
    have := length_skipSpace_le tail
    have htail : (skipSpace tail).length < cs.length := by simp_all; omega
    let t ← readItems (skipSpace tail)
    return ⟨s.value :: t.value, t.rest, Nat.lt_trans t.shorter htail⟩
  | _ => none
termination_by 2 * cs.length + 1
decreasing_by all_goals simp_all

def readMembers (before : List (String × Json)) (cs : List Char) :
    Option (Step (List (String × Json)) cs) :=
  match cs with
  | '"' :: start =>
    match hkey : readUnits start with
    | none => none
    | some (units, rest) =>
      have := length_readUnits_lt hkey
      match hcolon : skipSpace rest with
      | ':' :: tail => do
        have := length_skipSpace_le rest
        have := length_skipSpace_le tail
        have hvalue : (skipSpace tail).length < start.length := by simp_all; omega
        let s ← readValue (skipSpace tail)
        have := s.shorter
        let members := setMember (String.ofList (joinUnits units)) s.value before
        match hend : skipSpace s.rest with
        | '}' :: after =>
          have := length_skipSpace_le s.rest
          return ⟨members, after, by simp_all; omega⟩
        | ',' :: more =>
          have := length_skipSpace_le s.rest
          have := length_skipSpace_le more
          have hmore : (skipSpace more).length < start.length := by simp_all; omega
          let t ← readMembers members (skipSpace more)
          return ⟨t.value, t.rest, by have := t.shorter; simp only [List.length_cons]; omega⟩
        | _ => none
      | _ => none
  | _ => none
termination_by 2 * cs.length + 1
decreasing_by all_goals (simp_all; omega)
end

def parse? (s : String) : Option Json := do
  let step ← readValue (skipSpace s.toList)
  if skipSpace step.rest = [] then some step.value else none

end Gridcalc.Json
