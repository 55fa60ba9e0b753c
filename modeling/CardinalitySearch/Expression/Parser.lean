/-
CardinalitySearch.Expression.Parser — reading a written constraint.

An expression is an optional range `[least,greatest]` and then literals
separated by bars.  A literal is a name after any number of exclamation marks,
each of which negates it.  Blanks may stand between all of these, but not in a
name.

Errors are found from left to right.  A fault of the range comes first, then
the lack of literals, then the first faulty place between bars.  The draft is
touched only once the whole expression has been read.
-/
import CardinalitySearch.Expression.Basic
import CardinalitySearch.Text.Blank
import CardinalitySearch.Text.Numeral
import CardinalitySearch.Text.Pieces

namespace CardinalitySearch.Expression

open Text

/-- Whether a character may stand in a name. -/
def isNameChar (c : Char) : Bool :=
  !isBlank c && c ≠ '!' && c ≠ '|' && c ≠ '[' && c ≠ ']' && c ≠ '#'

/-- Whether a character may stand between the first exclamation mark and the
name: another mark or a blank. -/
def isMark (c : Char) : Bool :=
  c = '!' || isBlank c

/-- Reads what stands between the brackets of a range: two numerals with the
first comma between them. -/
def range? (inside : List Char) : Option (Nat × Nat) :=
  match cut ',' inside with
  | (least, _ :: greatest) =>
    match numeral? maxWord32 (trim least), numeral? maxWord32 (trim greatest) with
    | some atLeast, some atMost => some (atLeast, atMost)
    | _, _ => none
  | (_, []) => none

/-- Splits off the range if the first character that is not blank opens one;
gives the rest as well. -/
def splitRange (text : List Char) :
    Except ExpressionError (Option (Nat × Nat) × List Char) :=
  match trimLeft text with
  | '[' :: opened =>
    match cut ']' opened with
    | (_, []) => .error (.malformedRange (String.ofList (trim text)))
    | (inside, _ :: body) =>
      match range? inside with
      | some range => .ok (some range, body)
      | none => .error (.malformedRange (String.ofList ('[' :: inside ++ [']'])))
  | _ => .ok (none, text)

/-- Reads the literal at one place, which starts at byte offset `start`. -/
def parseLiteral (start : Nat) (place : List Char) : Except ExpressionError SignedName :=
  let literal := trim place
  let marks := literal.takeWhile isMark
  let name := literal.dropWhile isMark
  if literal.isEmpty then .error (.missingLiteral start)
  else if name.isEmpty then
    .error (.danglingNegation (start + byteLength (place.takeWhile isBlank)))
  else if name.all isNameChar then
    .ok ⟨String.ofList name, marks.count '!' % 2 == 0⟩
  else .error (.invalidName (String.ofList name))

/-- Reads the literals at a list of places, the first of which starts at byte
offset `start`; a bar of one byte stands between two places. -/
def parseLiterals (start : Nat) : List (List Char) → Except ExpressionError (List SignedName)
  | [] => .ok []
  | place :: rest =>
    match parseLiteral start place with
    | .error e => .error e
    | .ok literal =>
      match parseLiterals (start + byteLength place + 1) rest with
      | .error e => .error e
      | .ok literals => .ok (literal :: literals)

/-- Reads an expression. -/
def parse (text : List Char) : Except ExpressionError Expression :=
  match splitRange text with
  | .error e => .error e
  | .ok (range, body) =>
    if body.all isBlank then .error .empty
    else
      match parseLiterals (byteLength text - byteLength body) (pieces '|' body) with
      | .error e => .error e
      | .ok literals => .ok ⟨range, literals⟩

end CardinalitySearch.Expression

namespace CardinalitySearch.Draft

/-- Reads an expression and adds its constraint; gives its number. -/
def parseExpression (d : Draft) (text : List Char) (A : Arithmetic := .unlimited) :
    Except ExpressionError Nat × Draft :=
  match Expression.parse text with
  | .error e => (.error e, d)
  | .ok e =>
    match d.addExpression e A with
    | (.ok id, d) => (.ok id, d)
    | (.error cause, d) => (.error (.refused cause), d)

end CardinalitySearch.Draft
