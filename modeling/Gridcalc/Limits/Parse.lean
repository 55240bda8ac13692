import Gridcalc.Formula.Parse
import Gridcalc.Limits.Basic

/-! # Parsing within limits

Each rule of the grammar is a call, and so is what reads the arguments after a function's name. A
rule that is to be tried when no more calls may be open breaks the parse off, and no rule catches
that. The loops over the operands of a sum or a product, and over arguments, are not calls.
-/

namespace Gridcalc.Formula

mutual
/-- Reads an expression with at most `n` calls open, its own among them. -/
def expressionWithin (n : Nat) (ts : List Token) :
    Except (Halt SyntaxError) (Reading Formula ts) :=
  match n with
  | 0 => .error (.overrun .depth)
  | n + 1 =>
    match termWithin n ts with
    | .error e => .error e
    | .ok left =>
      have := left.shorter
      sumsWithin n left
termination_by 6 * ts.length + 4
decreasing_by all_goals omega

def sumsWithin (n : Nat) {input : List Token} (left : Reading Formula input) :
    Except (Halt SyntaxError) (Reading Formula input) :=
  match h : left.rest with
  | [] => .ok left
  | t :: tail =>
    if t.isOperatorOf sumOperators then
      have htail : tail.length < left.rest.length := by simp [h]
      match termWithin n tail with
      | .error e => .error e
      | .ok right =>
        have hright := Nat.lt_trans right.shorter htail
        sumsWithin n ⟨.binary t.text left.value right.value, right.rest,
          Nat.lt_trans hright left.shorter⟩
    else .ok left
termination_by 6 * left.rest.length + 5
decreasing_by all_goals omega

def termWithin (n : Nat) (ts : List Token) : Except (Halt SyntaxError) (Reading Formula ts) :=
  match n with
  | 0 => .error (.overrun .depth)
  | n + 1 =>
    match factorWithin n ts with
    | .error e => .error e
    | .ok left =>
      have := left.shorter
      productsWithin n left
termination_by 6 * ts.length + 3
decreasing_by all_goals omega

def productsWithin (n : Nat) {input : List Token} (left : Reading Formula input) :
    Except (Halt SyntaxError) (Reading Formula input) :=
  match h : left.rest with
  | [] => .ok left
  | t :: tail =>
    if t.isOperatorOf productOperators then
      have htail : tail.length < left.rest.length := by simp [h]
      match factorWithin n tail with
      | .error e => .error e
      | .ok right =>
        have hright := Nat.lt_trans right.shorter htail
        productsWithin n ⟨.binary t.text left.value right.value, right.rest,
          Nat.lt_trans hright left.shorter⟩
    else .ok left
termination_by 6 * left.rest.length + 4
decreasing_by all_goals omega

def factorWithin (n : Nat) (ts : List Token) : Except (Halt SyntaxError) (Reading Formula ts) :=
  match n with
  | 0 => .error (.overrun .depth)
  | n + 1 =>
    match primaryWithin n ts with
    | .error e => .error e
    | .ok left =>
      match h : left.rest with
      | [] => .ok left
      | t :: tail =>
        if t.isOperatorOf powerOperators then
          have htail : tail.length < ts.length :=
            Nat.lt_trans (by simp [h]) left.shorter
          match factorWithin n tail with
          | .error e => .error e
          | .ok right =>
            .ok ⟨.binary "^" left.value right.value, right.rest,
              Nat.lt_trans right.shorter htail⟩
        else .ok left
termination_by 6 * ts.length + 2
decreasing_by all_goals omega

def primaryWithin (n : Nat) (ts : List Token) : Except (Halt SyntaxError) (Reading Formula ts) :=
  match n, ts with
  | 0, _ => .error (.overrun .depth)
  | _ + 1, [] => .error (.error ⟨.missingEnd, 0⟩)
  | n + 1, t :: ts =>
    match t.kind with
    | .leftParen =>
      match expressionWithin n ts with
      | .error e => .error e
      | .ok inner =>
        match expect .rightParen inner.rest with
        | .error e => .error (.error e)
        | .ok close => .ok ⟨inner.value, close.rest, by
            have := inner.shorter; have := close.shorter; simp; omega⟩
    | .name =>
      match ts with
      | [] => .error (.error ⟨.unexpectedName t.text, t.position⟩)
      | u :: us =>
        if u.kind = .leftParen then
          match n, us with
          | 0, _ => .error (.overrun .depth)
          | _ + 1, [] => .error (.error ⟨.missingEnd, 0⟩)
          | n + 1, v :: vs =>
            if v.kind = .rightParen then .ok ⟨.call (Text.upper t.text) [], vs, by simp; omega⟩
            else
              match argumentsWithin n (v :: vs) with
              | .error e => .error e
              | .ok args => .ok ⟨.call (Text.upper t.text) args.value, args.rest, by
                  have := args.shorter; simp_all; omega⟩
        else .error (.error ⟨.unexpectedName t.text, t.position⟩)
    -- no rule is tried for the other tokens
    | _ => (primary (t :: ts)).mapError .error
termination_by 6 * ts.length + 1
decreasing_by all_goals (simp_all; omega)

/-- Reads arguments in the call that the function's name made. -/
def argumentsWithin (n : Nat) (ts : List Token) :
    Except (Halt SyntaxError) (Reading (List Formula) ts) :=
  match expressionWithin n ts with
  | .error e => .error e
  | .ok first =>
    match h : first.rest with
    | [] => .error (.error ⟨.missingEnd, 0⟩)
    | t :: tail =>
      have htail : tail.length < ts.length := Nat.lt_trans (by simp [h]) first.shorter
      if t.kind = .comma then
        match argumentsWithin n tail with
        | .error e => .error e
        | .ok others =>
          .ok ⟨first.value :: others.value, others.rest, Nat.lt_trans others.shorter htail⟩
      else if t.kind = .rightParen then .ok ⟨[first.value], tail, htail⟩
      else .error (.error ⟨.expected .rightParen t.kind, t.position⟩)
termination_by 6 * ts.length + 5
decreasing_by all_goals omega
end

def ofTokensWithin (n : Nat) (ts : List Token) : Except (Halt SyntaxError) Formula :=
  if (ts.getLast?.map Token.kind) = some .finish then
    match expressionWithin n ts with
    | .error e => .error e
    | .ok r =>
      match r.rest with
      | [] => .error (.error ⟨.missingEnd, 0⟩)
      | t :: _ =>
        if t.kind = .finish then .ok r.value
        else .error (.error ⟨.unexpectedToken t.text, t.position⟩)
  else .error (.error ⟨.missingEnd, 0⟩)

def parseWithin (n : Nat) (s : String) : Except (Halt SyntaxError) Formula :=
  match tokenize (body s) with
  | .error e => .error (.error e)
  | .ok ts => ofTokensWithin n ts

end Gridcalc.Formula
