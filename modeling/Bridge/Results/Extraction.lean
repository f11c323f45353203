import Bridge.Lib.Texts

/-!
# What is looked for in an output

The regular expressions of the validator and the merger, each as the scan it stands for. They all
are global or tests, so a scan goes once through the text, and what it has matched is behind it.
-/

namespace Bridge.Results

open Lib Utf16

/-- What ends a line for `^`, `$` and `.`. -/
def isLineTerminator (u : UInt16) : Bool := u == 0x0A || u == 0x0D || u == 0x2028 || u == 0x2029

def isTick (u : UInt16) : Bool := u == 0x60

def ticks : Units := [0x60, 0x60, 0x60]

/-- The matches of three ticks, as little as possible, and three ticks. `block` is the block the
scan is in, if it is in one. -/
def codeBlocksFrom : Option Units → Units → List Units
  | none, u :: v :: x :: s =>
    if isTick u && isTick v && isTick x then codeBlocksFrom (some ticks) s
    else codeBlocksFrom none (v :: x :: s)
  | some block, u :: v :: x :: s =>
    if isTick u && isTick v && isTick x then (block ++ ticks) :: codeBlocksFrom none s
    else codeBlocksFrom (some (block ++ [u])) (v :: x :: s)
  | _, _ => []

section Outputs

variable (output : Units)

def codeBlocks : List Units := codeBlocksFrom none output

/-- `[.!?]` -/
def isStop (u : UInt16) : Bool := u == 0x2E || u == 0x21 || u == 0x3F

/-- The matches of `[^.!?]+[.!?]+`. `sentence` is the one the scan is in, and `stopped` whether it
is at the stops already. -/
def sentencesFrom (sentence : Units) (stopped : Bool) : Units → List Units
  | [] => if stopped then [sentence] else []
  | u :: s =>
    if isStop u then
      -- a sentence does not start with a stop
      if sentence = [] then sentencesFrom [] false s else sentencesFrom (sentence ++ [u]) true s
    else if stopped then sentence :: sentencesFrom [u] false s
    else sentencesFrom (sentence ++ [u]) false s

def sentences : List Units := sentencesFrom [] false output

/-- `extractKeyElements` -/
def extractKeyElements : List Units := sentences output ++ codeBlocks output

/-- `output.split('\n\n')` -/
def splitParagraphs : Units → List Units
  | u :: v :: s =>
    if u == 0x0A && v == 0x0A then [] :: splitParagraphs s
    else (splitParagraphs (v :: s)).modifyHead (u :: ·)
  | s => [s]

def paragraphs : List Units := (splitParagraphs output).filter fun p => trim p ≠ []

/-- How much of a text `\s+.+$` matches. The space takes all it can; only if nothing is left for the
rest does it give back its last character that is not the end of a line. -/
def itemLength (s : Units) : Option Nat :=
  let space := s.takeWhile isSpace
  let rest := s.dropWhile isSpace
  if space = [] then none
  else if rest = [] then
    let kept := space.reverse.dropWhile isLineTerminator
    if 2 ≤ kept.length then some kept.length else none
  else some (space.length + (rest.takeWhile (!isLineTerminator ·)).length)

/-- `[\*\-\+]` -/
def isBullet (u : UInt16) : Bool := u == 0x2A || u == 0x2D || u == 0x2B

/-- The matches of `^[\*\-\+]\s+.+$`. `lineStart` is whether the scan is at the start of a line, and
`matched` how much of the text belongs to the last match. -/
def listItemsFrom (lineStart : Bool) (matched : Nat) : Units → List Units
  | [] => []
  | u :: s =>
    if matched ≠ 0 then listItemsFrom (isLineTerminator u) (matched - 1) s
    else
      match (if lineStart && isBullet u then itemLength s else none) with
      | some n => (u :: s.take n) :: listItemsFrom false n s
      | none => listItemsFrom (isLineTerminator u) 0 s

def listItems : List Units := listItemsFrom true 0 output

/-- A match of `^\s{2,}`. -/
def hasIndentationFrom (lineStart : Bool) : Units → Bool
  | u :: v :: s => (lineStart && isSpace u && isSpace v) || hasIndentationFrom (isLineTerminator u)
    (v :: s)
  | _ => false

def hasIndentation : Bool := hasIndentationFrom true output

/-- `output.split('\n')` -/
def splitLines : List Units := output.splitOn 0x0A

end Outputs

example : sentences (ofString "?Yes. No!? And then") = [ofString "Yes.", ofString " No!?"] := by
  decide +kernel

end Bridge.Results
