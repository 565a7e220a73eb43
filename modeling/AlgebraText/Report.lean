import AlgebraText.Span

/-!
# Reports

A report explains an error against the source text: one message, labels attached to spans, and
possibly a line of help. What an error has to say is a `Notice`; where it applies is a list of
spans; pairing the two gives the report.

## What this module delivers

* `highlight`, the color of expressions in messages, and `withoutColors`, which takes colors out;
* `Notice` and `Report`, and `Notice.report`, which pairs labels with spans in order;
* the notices that any program working on expressions can raise: `Notice.missingOperand`,
  `Notice.unknownFunction`, `Notice.somethingWrong`.
-/

set_option autoImplicit false
set_option linter.unusedVariables false

namespace AlgebraText

/-- Wraps a word in the terminal codes for the color of expressions, red 52, green 235, blue 152,
and back to the default color. -/
def highlight (word : String) : String := "\x1b[38;2;52;235;152m" ++ word ++ "\x1b[0m"

/-! ## Taking colors out -/

/-- The characters between the opening and the final letter of a color code. -/
def isColorParameter (c : Char) : Bool := c.isDigit || c == ';'

/-- What follows a color code whose escape character has been read: a bracket, numbers with
semicolons, and the letter `m`. -/
def afterColor? : List Char → Option (List Char)
  | '[' :: rest =>
    match rest.dropWhile isColorParameter with
    | 'm' :: after => some after
    | _ => none
  | _ => none

/-- A color code is not empty. -/
theorem afterColor?_length_lt {text after : List Char} (h : afterColor? text = some after) :
    after.length < text.length := by
  unfold afterColor? at h
  split at h
  · rename_i rest
    have whole : rest.takeWhile isColorParameter ++ rest.dropWhile isColorParameter = rest :=
      List.takeWhile_append_dropWhile
    split at h
    · rename_i later shape
      cases h
      have lengths := congrArg List.length whole
      rw [shape, List.length_append, List.length_cons] at lengths
      rw [List.length_cons]
      omega
    · cases h
  · cases h

/-- A text without its color codes. An escape character that starts no color code stays. -/
def withoutColors : List Char → List Char
  | [] => []
  | c :: cs =>
    if c = '\x1b' then
      match h : afterColor? cs with
      | some after => withoutColors after
      | none => c :: withoutColors cs
    else c :: withoutColors cs
termination_by text => text.length
decreasing_by
  · have shorter := afterColor?_length_lt h
    rw [List.length_cons]
    omega
  · simp
  · simp

/-! ## Notices and reports -/

/-- What an error has to say, apart from where. -/
structure Notice where
  /-- What went wrong. -/
  message : String
  /-- One text for each place the error points at. An error that labels nothing highlights one
  place without a text. -/
  labels : List String := [""]
  /-- How to mend it. -/
  help : Option String := none
deriving DecidableEq, Repr

/-- A notice placed in a source text. -/
structure Report where
  /-- What went wrong. -/
  message : String
  /-- The places it points at, each with its text. -/
  labels : List (Span × String)
  /-- How to mend it. -/
  help : Option String
deriving DecidableEq, Repr

namespace Notice

/-- Label `i` goes with span `i`; labels without a span and spans without a label are dropped. Help
stands below the labels, so a report without labels has none. -/
def report (notice : Notice) (spans : List Span) : Report :=
  let labels := spans.zip notice.labels
  ⟨notice.message, labels, if labels.isEmpty then none else notice.help⟩

/-- An operator lacks an operand. -/
def missingOperand : Notice where
  message := "unexpected end of input"
  labels := ["add an operand here"]
  help := some "every operator needs an operand on both sides"

/-- A function is not known under its name. -/
def unknownFunction (name argument : String) : Notice where
  message := "unknown function `" ++ name ++ "`"
  labels := ["this function", "called with " ++ argument ++ " here"]

/-- An error with nothing more to say. -/
def somethingWrong : Notice where
  message := "something went wrong"

end Notice

namespace Report

/-- A line without a carriage return at its end. -/
def trimReturn (line : List Char) : List Char :=
  if line.getLast? = some '\r' then line.dropLast else line

/-- The first line of a printed text, without its line end and without colors. -/
def firstLine (text : String) : String :=
  String.ofList (withoutColors (trimReturn (text.toList.takeWhile (· ≠ '\n'))))

/-- The line that opens a printed report, without colors. -/
def headline (report : Report) : String := firstLine ("Error: " ++ report.message)

end Report

end AlgebraText
