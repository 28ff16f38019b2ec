import Phrasebook.CommandLine.Style
import Phrasebook.Extraction

/-!
What is shown of an extraction: the issues and failures, and a summary with a line for each catalog
directory and one for the total.
-/

set_option autoImplicit false

namespace Phrasebook.CommandLine

def successMark : String := "✓"

def failureMark : String := "✘"

def counted (count : Nat) (one many : String) : String :=
  toString count ++ " " ++ (if count = 1 then one else many)

def errorLine (colored : Bool) (text : String) : String :=
  Style.boldRed.paint colored "error:" ++ " " ++ text ++ "\n"

/-- The lines for an issue: its message, its place and the first line of the source there. -/
def issueLines (colored : Bool) (issue : Script.Issue) : String :=
  let source := match Text.lines issue.snippet.toList with
    | [] => ""
    | first :: _ => "   " ++ Style.blue.paint colored "|" ++ " " ++ String.ofList first ++ "\n"
  Style.boldYellow.paint colored "warning:" ++ " " ++ issue.defect.message ++ "\n  "
    ++ Style.blue.paint colored "-->" ++ " " ++ issue.path ++ ":" ++ toString issue.line ++ "\n"
    ++ source

def failureLine (colored : Bool) (failure : Extraction.Failure) : String :=
  errorLine colored (failure.path ++ ": " ++ failure.cause.message)

def diagnostics (colored : Bool) (report : Extraction.Report) : String :=
  String.join (report.issues.map (issueLines colored))
    ++ String.join (report.failures.map (failureLine colored))

def writtenText (report : Extraction.DirectoryReport) : String :=
  if report.written.isEmpty then "no messages, nothing written"
  else
    counted report.entries "message" "messages" ++ " written to "
      ++ counted report.written.length "catalog" "catalogs"
      ++ " (" ++ String.intercalate ", " report.written ++ ")"

def directoryLine (colored : Bool) (report : Extraction.DirectoryReport) : String :=
  Style.green.paint colored successMark ++ " " ++ Style.bold.paint colored report.directory ++ ": "
    ++ writtenText report ++ "\n"

def totalMark (colored : Bool) (report : Extraction.Report) : String :=
  if report.hasFailures then Style.red.paint colored failureMark
  else Style.green.paint colored successMark

def totalLine (colored : Bool) (report : Extraction.Report) : String :=
  let skipped :=
    if report.issues.isEmpty then ""
    else ", " ++ counted report.issues.length "call" "calls" ++ " skipped"
  let failed :=
    if report.hasFailures then ", " ++ counted report.failures.length "file" "files" ++ " failed"
    else ""
  totalMark colored report ++ " Scanned " ++ counted report.scanned "source file" "source files"
    ++ skipped ++ failed ++ "\n"

def summary (colored : Bool) (report : Extraction.Report) : String :=
  if report.scanned = 0 ∧ !report.hasFailures then
    Style.yellow.paint colored "No source files found" ++ "\n"
  else
    String.join (report.directories.map (directoryLine colored)) ++ totalLine colored report

end Phrasebook.CommandLine
