import Gridcalc.Formula.Basic
import Gridcalc.Formula.Token
import Gridcalc.Number.Numeral
import Gridcalc.Text.Reading
import Gridcalc.Text.Upper

/-! # Parsing formulas

    expression := term (('+' | '-') term)*
    term       := factor (('*' | '/') factor)*
    factor     := primary ('^' factor)?
    primary    := number | text | '(' expression ')' | reference (':' reference)?
                | name '(' (expression (',' expression)*)? ')'

Sums and products group to the left, powers to the right. Each rule is a reader of tokens. A host
that bounds the calls open at a time can break a parse off; here there is no such bound, and
`parseWithin` has one.
-/

namespace Gridcalc

namespace Token

/-- Whether `part` stands somewhere in `whole`. -/
def occursIn (part : List Char) : List Char → Bool
  | [] => part.isEmpty
  | c :: cs => part.isPrefixOf (c :: cs) || occursIn part cs

/-- An operator belongs to a level of the grammar if its text occurs among the level's own. -/
def isOperatorOf (level : List Char) (t : Token) : Bool :=
  t.kind == .operator && occursIn t.text.toList level

end Token

namespace Formula

def sumOperators : List Char := ['+', '-']
def productOperators : List Char := ['*', '/']
def powerOperators : List Char := ['^']

def expect (kind : TokenKind) : (ts : List Token) → Except SyntaxError (Reading Unit ts)
  | [] => .error ⟨.missingEnd, 0⟩
  | t :: ts =>
    if t.kind = kind then .ok ⟨(), ts, by simp⟩
    else .error ⟨.expected kind t.kind, t.position⟩

mutual
def expression (ts : List Token) : Except SyntaxError (Reading Formula ts) :=
  match term ts with
  | .error e => .error e
  | .ok left =>
    have := left.shorter
    sums left
termination_by 6 * ts.length + 4
decreasing_by all_goals omega

def sums {input : List Token} (left : Reading Formula input) :
    Except SyntaxError (Reading Formula input) :=
  match h : left.rest with
  | [] => .ok left
  | t :: tail =>
    if t.isOperatorOf sumOperators then
      have htail : tail.length < left.rest.length := by simp [h]
      match term tail with
      | .error e => .error e
      | .ok right =>
        have hright := Nat.lt_trans right.shorter htail
        sums ⟨.binary t.text left.value right.value, right.rest,
          Nat.lt_trans hright left.shorter⟩
    else .ok left
termination_by 6 * left.rest.length + 5
decreasing_by all_goals omega

def term (ts : List Token) : Except SyntaxError (Reading Formula ts) :=
  match factor ts with
  | .error e => .error e
  | .ok left =>
    have := left.shorter
    products left
termination_by 6 * ts.length + 3
decreasing_by all_goals omega

def products {input : List Token} (left : Reading Formula input) :
    Except SyntaxError (Reading Formula input) :=
  match h : left.rest with
  | [] => .ok left
  | t :: tail =>
    if t.isOperatorOf productOperators then
      have htail : tail.length < left.rest.length := by simp [h]
      match factor tail with
      | .error e => .error e
      | .ok right =>
        have hright := Nat.lt_trans right.shorter htail
        products ⟨.binary t.text left.value right.value, right.rest,
          Nat.lt_trans hright left.shorter⟩
    else .ok left
termination_by 6 * left.rest.length + 4
decreasing_by all_goals omega

def factor (ts : List Token) : Except SyntaxError (Reading Formula ts) :=
  match primary ts with
  | .error e => .error e
  | .ok left =>
    match h : left.rest with
    | [] => .ok left
    | t :: tail =>
      if t.isOperatorOf powerOperators then
        have htail : tail.length < ts.length :=
          Nat.lt_trans (by simp [h]) left.shorter
        match factor tail with
        | .error e => .error e
        | .ok right =>
          .ok ⟨.binary "^" left.value right.value, right.rest,
            Nat.lt_trans right.shorter htail⟩
      else .ok left
termination_by 6 * ts.length + 2
decreasing_by all_goals omega

def primary (ts : List Token) : Except SyntaxError (Reading Formula ts) :=
  match ts with
  | [] => .error ⟨.missingEnd, 0⟩
  | t :: ts =>
    match t.kind with
    | .number =>
      match Number.float? t.text with
      | some v => .ok ⟨.number v, ts, by simp⟩
      | none => .error ⟨.notANumber t.text, t.position⟩
    | .text => .ok ⟨.text t.text, ts, by simp⟩
    | .leftParen =>
      match expression ts with
      | .error e => .error e
      | .ok inner =>
        match expect .rightParen inner.rest with
        | .error e => .error e
        | .ok close => .ok ⟨inner.value, close.rest, by
            have := inner.shorter; have := close.shorter; simp; omega⟩
    | .reference =>
      match ts with
      | [] => .ok ⟨.cell t.text, [], by simp⟩
      | u :: us =>
        if u.kind = .colon then
          match us with
          | [] => .error ⟨.missingEnd, 0⟩
          | v :: vs =>
            if v.kind = .reference then .ok ⟨.range t.text v.text, vs, by simp; omega⟩
            else .error ⟨.expected .reference v.kind, v.position⟩
        else .ok ⟨.cell t.text, u :: us, by simp⟩
    | .name =>
      match ts with
      | [] => .error ⟨.unexpectedName t.text, t.position⟩
      | u :: us =>
        if u.kind = .leftParen then
          match us with
          | [] => .error ⟨.missingEnd, 0⟩
          | v :: vs =>
            if v.kind = .rightParen then .ok ⟨.call (Text.upper t.text) [], vs, by simp; omega⟩
            else
              match arguments (v :: vs) with
              | .error e => .error e
              | .ok args => .ok ⟨.call (Text.upper t.text) args.value, args.rest, by
                  have := args.shorter; simp_all; omega⟩
        else .error ⟨.unexpectedName t.text, t.position⟩
    | _ => .error ⟨.unexpectedToken t.text, t.position⟩
termination_by 6 * ts.length + 1
decreasing_by all_goals (simp_all; omega)

/-- The arguments of a call from the first one on, and the closing parenthesis. -/
def arguments (ts : List Token) : Except SyntaxError (Reading (List Formula) ts) :=
  match expression ts with
  | .error e => .error e
  | .ok first =>
    match h : first.rest with
    | [] => .error ⟨.missingEnd, 0⟩
    | t :: tail =>
      have htail : tail.length < ts.length := Nat.lt_trans (by simp [h]) first.shorter
      if t.kind = .comma then
        match arguments tail with
        | .error e => .error e
        | .ok others =>
          .ok ⟨first.value :: others.value, others.rest, Nat.lt_trans others.shorter htail⟩
      else if t.kind = .rightParen then .ok ⟨[first.value], tail, htail⟩
      else .error ⟨.expected .rightParen t.kind, t.position⟩
termination_by 6 * ts.length + 5
decreasing_by all_goals omega
end

def ofTokens (ts : List Token) : Except SyntaxError Formula :=
  if (ts.getLast?.map Token.kind) = some .finish then
    match expression ts with
    | .error e => .error e
    | .ok r =>
      match r.rest with
      | [] => .error ⟨.missingEnd, 0⟩
      | t :: _ =>
        if t.kind = .finish then .ok r.value else .error ⟨.unexpectedToken t.text, t.position⟩
  else .error ⟨.missingEnd, 0⟩

/-- The body of a formula's text: trimmed, and one `=` at its head taken off. -/
def body (s : String) : String :=
  match (Text.trim s).toList with
  | '=' :: cs => String.ofList cs
  | cs => String.ofList cs

def parse (s : String) : Except SyntaxError Formula :=
  match tokenize (body s) with
  | .error e => .error e
  | .ok ts => ofTokens ts

end Formula

end Gridcalc
