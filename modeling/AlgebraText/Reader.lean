import AlgebraText.Expr.Builder
import AlgebraText.Parser.Grammar

/-!
# Reading expressions

A text is read in two stages: the grammar turns it into a parse tree, and the builder turns the
tree into an expression. A file is read as the text that its bytes encode in UTF-8.

## What this module delivers

* `FileError`, the ways in which a file cannot be read;
* `ReadFailure`, a failure of any stage, with its message and the first line of its printed form;
* `parse` and `parseFile`, the readers, and `parseEvents`, the log of a run of `parse`.
-/

set_option autoImplicit false

namespace AlgebraText

/-- Why the text of a file is not available. -/
inductive FileError where
  /-- There is no such file. -/
  | notFound
  /-- The path names a directory. -/
  | isDirectory
  /-- The bytes are not UTF-8. -/
  | invalidData
deriving DecidableEq, Repr

namespace FileError

/-- The name of an error. -/
def label : FileError → String
  | notFound => "NotFound"
  | isDirectory => "IsADirectory"
  | invalidData => "InvalidData"

/-- The wording of an error. -/
def message : FileError → String
  | notFound => "No such file or directory (os error 2)"
  | isDirectory => "Is a directory (os error 21)"
  | invalidData => "stream did not contain valid UTF-8"

end FileError

/-- Why no expression could be read. -/
inductive ReadFailure where
  /-- The text does not match the grammar. -/
  | parse (failure : ParseFailure)
  /-- The parse tree is no expression. -/
  | build (failure : BuildFailure)
  /-- The file could not be read. -/
  | file (error : FileError)
deriving DecidableEq, Repr

namespace ReadFailure

/-- The one-line message of a failure. -/
def message : ReadFailure → String
  | parse failure => failure.message
  | build failure => failure.message
  | file error => "could not read the source file: " ++ error.message

/-- The message of the failure underneath. -/
def source : ReadFailure → String
  | parse failure => failure.message
  | build failure => failure.message
  | file error => error.message

/-- The report of a failure. A file that cannot be read has no text to report against. -/
def report? : ReadFailure → Option Report
  | parse failure => some failure.report
  | build failure => some failure.report
  | file _ => none

/-- The first line of a failure as it is printed for the source of the given name. -/
def headline (sourceName : String) : ReadFailure → String
  | parse failure => failure.report.headline
  | build failure => failure.report.headline
  | file error =>
    Report.firstLine ("error: could not read " ++ sourceName ++ ": " ++ error.message)

end ReadFailure

/-- The expression of a text. -/
def parse (text : String) : Except ReadFailure Expr :=
  match parseTree text with
  | .error failure => .error (.parse failure)
  | .ok tree =>
    match tree.build with
    | .error failure => .error (.build failure)
    | .ok e => .ok e

/-- The log of reading a text: the parser's events, then the builder's, then the summary. -/
def parseEvents (text : String) : List Event :=
  match runParser text with
  | (.error _, events) => events
  | (.ok tree, events) =>
    match tree.build with
    | .error _ => events ++ tree.buildEvents
    | .ok e => events ++ tree.buildEvents ++ [.parsed text.utf8ByteSize e.kind]

/-- The expression of a file, given what reading its bytes gave. -/
def parseFile (contents : Except FileError ByteArray) : Except ReadFailure Expr :=
  match contents with
  | .error error => .error (.file error)
  | .ok bytes =>
    match String.fromUTF8? bytes with
    | none => .error (.file .invalidData)
    | some text => parse text

end AlgebraText
