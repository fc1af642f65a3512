import StageFlow.Yaml.Cursor

/-!
# Plain YAML scalars

Reading scalars without quotes. A scalar goes on over a line break that follows its text directly, if the line
below is indented by more than the surroundings; blanks in front of a line break end it.

## Contents
- **Ends.** `startsPlain` and `endsPlain`.
- **Reading.** `readPlain`.
-/

namespace StageFlow.Yaml

/-! ## Ends -/

/-- Characters that start something other than a plain scalar. -/
def isIndicator (c : Char) : Bool :=
  isFlowMark c || c = '#' || c = '&' || c = '*' || c = '!' || c = '|' || c = '>' || c = '\'' || c = '"'

/-- Does a plain scalar start here? -/
def startsPlain (inFlow : Bool) : List Char → Bool
  | [] => false
  | c :: rest =>
    if c = '-' || c = '?' || c = ':' then !endsWord rest && !(inFlow && rest.head?.any isFlowMark)
    else !(isIndicator c || isBlank c || isBreak c)

/-- Does a plain scalar end in front of this text? `afterBlank` says whether a blank stands before it. A colon
ends it in front of white space, but not at the end of the text. -/
def endsPlain (inFlow afterBlank : Bool) : List Char → Bool
  | [] => true
  | c :: rest =>
    (c = '#' && afterBlank) || (inFlow && isFlowMark c) ||
      (c = ':' && rest.head?.any fun x => isBlank x || isBreak x || (inFlow && isFlowEnd x))

/-! ## Reading -/

/-- Reads the rest of a plain scalar; the text read so far is reversed. -/
def readPlain (inFlow : Bool) (indent : Int) : (fuel : Nat) → List Char → Cursor → List Char × Cursor
  | 0, soFar, c => (soFar.reverse, c)
  | fuel + 1, soFar, c =>
    match c.rest with
    | [] => (soFar.reverse, c)
    | x :: _ =>
      if isBlank x then
        let behind := c.skipBlanks
        if behind.atBreak || endsPlain inFlow true behind.rest then (soFar.reverse, c)
        else readPlain inFlow indent fuel ((c.rest.takeWhile isBlank).reverse ++ soFar) behind
      else if isBreak x then
        let (breaks, column, behind) := skipBreaks (fuel + 1) c
        if column ≤ indent || behind.isMarker || endsPlain inFlow true behind.rest then (soFar.reverse, c)
        else readPlain inFlow indent fuel ((folded breaks).reverse ++ soFar) behind
      else if endsPlain inFlow false c.rest then (soFar.reverse, c)
      else readPlain inFlow indent fuel (x :: soFar) c.next

end StageFlow.Yaml
