import MonkeyLang.Decimal
import MonkeyLang.Settings.Yaml.Reader

/-!
# Scalars of YAML

A scalar is written plainly, between quotes, or as a block of lines.  Plain and
quoted scalars may go on over several lines; the end of a line between two words
counts as a space, and each further one as a newline.  Every function here gives
the text that is meant and the reader after it.
-/

namespace MonkeyLang.Yaml

/-- What stands between two words of a scalar. -/
structure Gap where
  /-- The blanks, as long as no line ended. -/
  blanks : List Char
  /-- A line ended. -/
  broken : Bool
  /-- The first end of a line that counts. -/
  first : List Char
  /-- The further ends of lines. -/
  more : List Char

namespace Gap

/-- The gap with nothing in it. -/
def empty : Gap := ⟨[], false, [], []⟩

/-- What a gap counts as. -/
def text (g : Gap) : List Char :=
  if !g.broken then g.blanks
  else if g.first.head? == some '\n' then (if g.more.isEmpty then [' '] else g.more)
  else g.first ++ g.more

/-- Reads a gap, with the given number of steps.  On a new line no tab may stand
before the given column. -/
def read? (column : Int) : Nat → Gap → Reader → Option (Gap × Reader)
  | 0, g, r => some (g, r)
  | n + 1, g, r =>
    match r.rest with
    | [] => some (g, r)
    | c :: _ =>
      if isBlank c then
        if g.broken && r.column < column && c == '\t' then none
        else if g.broken then read? column n g r.skip
        else read? column n { g with blanks := g.blanks ++ [c] } r.skip
      else if isBreak c then
        let (ending, after) := r.readBreak
        if g.broken then read? column n { g with more := g.more ++ ending } after
        else read? column n { g with blanks := [], broken := true, first := ending } after
      else some (g, r)

end Gap

/-- The length of the word at the start of a plain scalar.  A colon before a blank
ends it, and in a flow collection so do the marks of such collections. -/
def wordLength (inFlow : Bool) : List Char → Nat
  | [] => 0
  | c :: rest =>
    if isBlank c || isBreak c then 0
    else if c == ':' && endsWord rest then 0
    else if inFlow && ",?[]\x7b\x7d".toList.contains c then 0
    else wordLength inFlow rest + 1

/-- Reads a plain scalar, with the given number of steps, after some text and a gap.
Outside of flow collections its lines start at the given column or behind it.  Also
tells whether it ends on a later line than its last word. -/
def plain? (inFlow : Bool) (column : Int) :
    Nat → List Char → Gap → Reader → Option (List Char × Bool × Reader)
  | 0, _, _, _ => none
  | n + 1, text, gap, r =>
    if r.atBoundary || r.sees '#' then some (text, gap.broken, r)
    else
      let width := wordLength inFlow r.rest
      let (text, gap) :=
        if width = 0 then (text, gap)
        else (text ++ gap.text ++ r.rest.take width, Gap.empty)
      let r := r.advance width
      if r.rest.isEmpty || !endsWord r.rest then some (text, gap.broken, r)
      else do
        let (gap, r) ← Gap.read? column (r.rest.length + 1) gap r
        if !inFlow && r.column < column then some (text, gap.broken, r)
        else plain? inFlow column n text gap r

/-- What a backslash and the character after it stand for. -/
def escape? : Char → Option Char
  | '0' => some '\x00'
  | 'a' => some '\x07'
  | 'b' => some '\x08'
  | 't' => some '\t'
  | '\t' => some '\t'
  | 'n' => some '\n'
  | 'v' => some '\x0b'
  | 'f' => some '\x0c'
  | 'r' => some '\r'
  | 'e' => some '\x1b'
  | ' ' => some ' '
  | '"' => some '"'
  | '\x27' => some '\x27'
  | '\\' => some '\\'
  | 'N' => some '\u0085'
  | '_' => some '\u00a0'
  | 'L' => some '\u2028'
  | 'P' => some '\u2029'
  | _ => none

/-- The number of hexadecimal digits after a backslash and the given letter. -/
def hexWidth : Char → Nat
  | 'x' => 2
  | 'u' => 4
  | 'U' => 8
  | _ => 0

/-- Reads the word at hand of a scalar in single quotes, with the given number of
steps.  A single quote inside is written twice. -/
def singleWord : Nat → Reader → List Char × Reader
  | 0, r => ([], r)
  | n + 1, r =>
    match r.rest with
    | [] => ([], r)
    | '\x27' :: '\x27' :: _ =>
      let (word, after) := singleWord n (r.advance 2)
      ('\x27' :: word, after)
    | '\x27' :: _ => ([], r)
    | c :: _ =>
      if isBlank c || isBreak c then ([], r)
      else
        let (word, after) := singleWord n r.skip
        (c :: word, after)

/-- Reads the word at hand of a scalar in double quotes, with the given number of
steps.  Also tells whether a backslash at the end of a line ended it. -/
def doubleWord? : Nat → Reader → Option (List Char × Bool × Reader)
  | 0, r => some ([], false, r)
  | n + 1, r =>
    match r.rest with
    | [] => some ([], false, r)
    | '"' :: _ => some ([], false, r)
    | '\\' :: e :: more =>
      if isBreak e then some ([], true, r.skip.skipBreak)
      else
        let width := hexWidth e
        if width = 0 then do
          let c ← escape? e
          let (word, cut, after) ← doubleWord? n (r.advance 2)
          return (c :: word, cut, after)
        else do
          let digits := more.take width
          let c ← if digits.length = width then codePoint? digits else none
          let (word, cut, after) ← doubleWord? n (r.advance (2 + width))
          return (c :: word, cut, after)
    | ['\\'] => none
    | c :: _ =>
      if isBlank c || isBreak c then some ([], false, r)
      else do
        let (word, cut, after) ← doubleWord? n r.skip
        return (c :: word, cut, after)

/-- Reads a quoted scalar after its opening quote, with the given number of steps. -/
def quoted? (quote : Char) : Nat → List Char → Reader → Option (List Char × Reader)
  | 0, _, _ => none
  | n + 1, text, r =>
    if r.atBoundary || r.rest.isEmpty then none
    else do
      let (word, cut, r) ←
        if quote = '"' then doubleWord? (r.rest.length + 1) r
        else
          let (word, after) := singleWord (r.rest.length + 1) r
          some (word, false, after)
      if r.sees quote then some (text ++ word, r.skip)
      else
        let (gap, r) ← Gap.read? 0 (r.rest.length + 1) { Gap.empty with broken := cut } r
        quoted? quote n (text ++ word ++ gap.text) r

/-- How the ends of lines behind a block of lines are treated. -/
inductive Chomping where
  | strip
  | clip
  | keep

/-- The header of a block of lines: how its end is treated and how far it is indented,
zero if that is not said. -/
def blockHeader? (r : Reader) : Option (Chomping × Nat × Reader) :=
  let chomping? (c : Char) : Option Chomping :=
    if c = '+' then some .keep else if c = '-' then some .strip else none
  let indent? (c : Char) : Option Nat := if c.isDigit then some (c.toNat - '0'.toNat) else none
  let (chomping, indent, r) : Option Chomping × Option Nat × Reader :=
    match r.head?.bind chomping? with
    | some chomping =>
      match r.skip.head?.bind indent? with
      | some indent => (some chomping, some indent, r.skip.skip)
      | none => (some chomping, none, r.skip)
    | none =>
      match r.head?.bind indent? with
      | some indent =>
        match r.skip.head?.bind chomping? with
        | some chomping => (some chomping, some indent, r.skip.skip)
        | none => (none, some indent, r.skip)
      | none => (none, none, r)
  if indent = some 0 then none
  else
    let r := r.skipWhile isBlank
    let r := if r.sees '#' then r.skipLine else r
    if endsLine r.rest then some (chomping.getD .clip, indent.getD 0, r.skipBreak) else none

/-- Passes the indentation and the empty lines before a line of a block, with the
given number of steps, and gives the ends of those lines and the deepest column seen.
No tab may stand in the indentation, which is open when it is zero. -/
def blockGap? (indent : Nat) :
    Nat → List Char → Nat → Reader → Option (List Char × Nat × Reader)
  | 0, _, _, _ => none
  | n + 1, breaks, deepest, r =>
    let spaces := (r.rest.takeWhile (· == ' ')).length
    let r := r.advance (if indent = 0 then spaces else min spaces (indent - r.column))
    let deepest := max deepest r.column
    if (indent = 0 || r.column < indent) && r.sees '\t' then none
    else if r.head?.any isBreak then
      let (ending, after) := r.readBreak
      blockGap? indent n (breaks ++ ending) deepest after
    else some (breaks, deepest, r)

/-- Reads the lines of a block, with the given number of steps, after some text, the
end of the last line and the ends of empty lines behind it.  Folding joins two lines
by a space, unless one of them starts with a blank. -/
def blockLines? (folds : Bool) (indent : Nat) :
    Nat → List Char → List Char → List Char → Bool → Reader →
      Option (List Char × List Char × List Char × Reader)
  | 0, _, _, _, _, _ => none
  | n + 1, text, ending, breaks, afterBlank, r =>
    if r.column = indent && !r.rest.isEmpty then
      let startsBlank := r.head?.any isBlank
      let joint :=
        if folds && !afterBlank && !startsBlank && ending.head? == some '\n' then
          (if breaks.isEmpty then [' '] else [])
        else ending
      let (line, r) := r.readWhile fun c => !isBreak c
      let (ending, r) := r.readBreak
      do
        let (after, _, r) ← blockGap? indent (r.rest.length + 1) [] 0 r
        blockLines? folds indent n (text ++ joint ++ breaks ++ line) ending after startsBlank r
    else some (text, ending, breaks, r)

/-- Reads a block of lines after its mark, inside a collection of the given
indentation. -/
def block? (folds : Bool) (outer : Int) (r : Reader) : Option (List Char × Reader) := do
  let steps := r.rest.length + 2
  let (chomping, increment, r) ← blockHeader? r
  let given := if increment = 0 then 0 else (max outer 0).toNat + increment
  let (breaks, deepest, r) ← blockGap? given steps [] 0 r
  let indent := if given = 0 then max deepest (max (outer + 1).toNat 1) else given
  let (text, ending, breaks, r) ← blockLines? folds indent steps [] [] breaks false r
  match chomping with
  | .strip => return (text, r)
  | .clip => return (text ++ ending, r)
  | .keep => return (text ++ ending ++ breaks, r)

end MonkeyLang.Yaml
