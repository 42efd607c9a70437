namespace DecompConfig.CommandLine

/-- Why a command failed: what it was about to do, and the causes, each the cause of the one before. -/
structure Report where
  title : String
  causes : List String
  deriving Repr, DecidableEq

namespace Report

/-- A text with its first line after `first` and its other lines after `other`. -/
def indented (first other : List Char) (s : String) : List Char :=
  first ++ s.toList.flatMap fun c => if c == '\n' then '\n' :: other else [c]

/-- The mark of the cause with index `i`, five columns wide. -/
def causeMark (i : Nat) : List Char :=
  let digits := Nat.toDigits 10 i
  List.replicate (5 - digits.length) ' ' ++ digits ++ [':', ' ']

/-- The lines of several causes, from the index `i` on. -/
def numbered (i : Nat) : List String → List Char
  | [] => []
  | cause :: rest =>
    '\n' :: indented (causeMark i) (List.replicate 7 ' ') cause ++ numbered (i + 1) rest

/-- The part of a report that names the causes. -/
def causesText : List String → List Char
  | [] => []
  | [cause] =>
    let margin := List.replicate 4 ' '
    "\n\nCaused by:\n".toList ++ indented margin margin cause
  | causes => "\n\nCaused by:".toList ++ numbered 0 causes

/-- A report as it is shown, without the final newline. -/
def text (r : Report) : String := "Error: " ++ r.title ++ .ofList (causesText r.causes)

end Report

/-- How a command fails. -/
inductive Failure where
  /-- It reports what it could not do. -/
  | reported (report : Report)
  /-- The standard output refuses a line. The command breaks off there. -/
  | refused
  deriving Repr, DecidableEq

namespace Failure

/-- The exit status of a command that fails. -/
def status : Failure → Nat
  | reported _ => 1
  | refused => 101

def text : Failure → String
  | reported report => report.text
  | refused => "failed printing to stdout"

end Failure

end DecompConfig.CommandLine
