/-
CardinalitySearch.Expression.Sliced — reading a written constraint by offsets.

The same reader as `parse`, written for a text that is stored as bytes.  Where
`parse` takes a text apart, this one computes a byte offset and cuts the text
there, and it carries the offset of the rest along instead of comparing
lengths.  It has no result where a cut falls within a character, an offset
would be negative, or the draft is handed a literal over a proposition that does
not exist.
-/
import CardinalitySearch.Expression.Parser
import CardinalitySearch.Text.Slice

namespace CardinalitySearch.Expression

open Text

/-- `splitRange` by offsets; gives the offset of the rest as well. -/
def splitRangeSliced? (text : List Char) :
    Option (Except ExpressionError (Option (Nat × Nat) × List Char × Nat)) := do
  let blanks ← difference? (byteLength text) (byteLength (trimLeft text))
  match ← from? blanks text with
  | '[' :: opened =>
    match offset? ']' opened with
    | none => return .error (.malformedRange (String.ofList (trim text)))
    | some closing =>
      let inside ← upTo? closing opened
      match range? inside with
      | none => return .error (.malformedRange (String.ofList ('[' :: inside ++ [']'])))
      | some range =>
        let start := blanks + closing + 2
        let body ← from? start text
        return .ok (some range, body, start)
  | _ => return .ok (none, text, 0)

/-- `parseLiteral` by offsets. -/
def parseLiteralSliced? (start : Nat) (place : List Char) :
    Option (Except ExpressionError SignedName) := do
  let literal := trim place
  if literal.isEmpty then
    return .error (.missingLiteral start)
  let position ← difference? (start + byteLength place) (byteLength (trimLeft place))
  let name := literal.dropWhile isMark
  if name.isEmpty then
    return .error (.danglingNegation position)
  if name.all isNameChar then
    return .ok ⟨String.ofList name, (literal.takeWhile isMark).count '!' % 2 == 0⟩
  return .error (.invalidName (String.ofList name))

/-- `parseLiterals` by offsets. -/
def parseLiteralsSliced? (start : Nat) :
    List (List Char) → Option (Except ExpressionError (List SignedName))
  | [] => some (.ok [])
  | place :: rest => do
    match ← parseLiteralSliced? start place with
    | .error e => return .error e
    | .ok literal =>
      match ← parseLiteralsSliced? (start + byteLength place + 1) rest with
      | .error e => return .error e
      | .ok literals => return .ok (literal :: literals)

/-- `parse` by offsets. -/
def parseSliced? (text : List Char) : Option (Except ExpressionError Expression) := do
  match ← splitRangeSliced? text with
  | .error e => return .error e
  | .ok (range, body, start) =>
    if (trim body).isEmpty then
      return .error .empty
    match ← parseLiteralsSliced? start (pieces '|' body) with
    | .error e => return .error e
    | .ok literals => return .ok ⟨range, literals⟩

end CardinalitySearch.Expression

namespace CardinalitySearch.Draft

/-- `addConstraint` for literals over propositions that exist. -/
def addConstraintKnown? (d : Draft) (literals : List Literal) (atLeast atMost : Nat) :
    Option (Except ConstraintError Nat × Draft) :=
  match d.addConstraint literals atLeast atMost with
  | (.error (.unknownProposition _), _) => none
  | result => some result

/-- `parseExpression` by offsets. -/
def parseExpressionSliced? (d : Draft) (text : List Char) :
    Option (Except ExpressionError Nat × Draft) := do
  match ← Expression.parseSliced? text with
  | .error e => return (.error e, d)
  | .ok e =>
    let (literals, d) := d.internLiterals e.literals
    match ← d.addConstraintKnown? literals e.bounds.1 e.bounds.2 with
    | (.ok id, d) => return (.ok id, d)
    | (.error cause, d) => return (.error (.refused cause), d)

end CardinalitySearch.Draft
