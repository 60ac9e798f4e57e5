import DocCoverage.Decimal.Layout
import DocCoverage.Report.Basic
/-!
# Reports — for the terminal

A report is shown as a summary with a bar and, if there are gaps, a list of
them by priority, the most urgent first. Of each priority only some gaps are
listed unless all are asked for. Colours are switched on by an escape
sequence in front of a text and off by one behind it.
-/

namespace DocCoverage

/-- How a text is set off. -/
inductive Style where
  | bold
  | red
  | green
  | yellow
  | dimmed
  | boldRed
  | boldGreen
deriving DecidableEq, Repr

namespace Style

/-- The code of a style. -/
def code : Style → String
  | bold => "1"
  | red => "31"
  | green => "32"
  | yellow => "33"
  | dimmed => "2"
  | boldRed => "1;31"
  | boldGreen => "1;32"

/-- A text in a style, if colours are on. -/
def paint (colours : Bool) (style : Style) (text : String) : String :=
  if colours then "\x1b[" ++ style.code ++ "m" ++ text ++ "\x1b[0m" else text

/-- The style of the heading of a priority. -/
def ofPriority : Priority → Style
  | .critical => boldRed
  | .high => red
  | .medium => yellow
  | .low => dimmed

end Style

/-- How a report is shown. -/
structure View where
  colours : Bool
  /-- Whether all gaps are listed. -/
  verbose : Bool
deriving DecidableEq, Repr, Inhabited

namespace View

/-! ## The bar -/

/-- The cells of the bar. -/
def barCells : Nat := 20

/-- The cells that are filled: the share of the cells, to the nearest whole
one. What is not a number fills none. -/
def filledCells (coverage : Float) : Nat :=
  (Binary.of (Measure.clamp coverage 0.0 100.0 / 100.0 * 20.0)).toCount

/-- The style of the bar: good at the floor, fair at three quarters of
it. -/
def barStyle (coverage floor : Float) : Style :=
  if floor ≤ coverage then .green else if floor * 0.75 ≤ coverage then .yellow else .red

/-- The bar and the percentage. -/
def bar (coverage : Float) : String :=
  let filled := filledCells coverage
  "[" ++ String.ofList (List.replicate filled '#' ++ List.replicate (barCells - filled) '-') ++
    "] " ++ Decimal.padLeft 5 (Decimal.fixedText 1 coverage) ++ "%"

/-! ## Lines -/

/-- The gaps of a priority that are listed unless all are asked for. -/
def listedGaps : Nat := 10

/-- The summary. -/
def summary (view : View) (report : Report) (floor : Float) : List String :=
  [ "",
    Style.bold.paint view.colours "Documentation Coverage",
    String.ofList (List.replicate 60 '='),
    "   Coverage: " ++
      (barStyle report.coverage floor).paint view.colours (bar report.coverage) ++
      " (minimum " ++ Decimal.fixedText 1 floor ++ "%)",
    "   Quality:  " ++ Decimal.fixedText 2 report.quality,
    "   Required: " ++ toString report.total ++ " | Documented: " ++
      toString report.documented ++ " | Adequate: " ++ toString report.adequate ++
      " | Missing: " ++ toString report.missing ++ " | Inadequate: " ++
      toString report.inadequate,
    "" ]

/-- What is wrong with a weak document. -/
def complaint (issues : List String) : String :=
  if issues.isEmpty then "low quality score" else "missing " ++ ", ".intercalate issues

/-- The line of a gap. -/
def gapLine (view : View) (gap : Gap) : String :=
  let effort := " (effort: " ++ gap.effort.key ++ ")"
  let file := gap.codeFile.text ++ " [" ++ gap.fileType.key ++ "] "
  match gap.kind with
  | .missing =>
    "     " ++ Style.red.paint view.colours "x" ++ " " ++ file ++ "create " ++
      gap.document.text ++ effort
  | .inadequate =>
    "     " ++ Style.yellow.paint view.colours "!" ++ " " ++ file ++ "improve " ++
      gap.document.text ++ ": " ++ complaint gap.issues ++ effort

/-- The lines of the gaps of one priority, if there are any. -/
def priorityLines (view : View) (report : Report) (priority : Priority) : List String :=
  let gaps := report.gaps.filter fun gap => gap.priority == priority
  if gaps.isEmpty then []
  else
    let shown := if view.verbose then gaps else gaps.take listedGaps
    let left := gaps.length - shown.length
    let heading := priority.heading ++ " (" ++ toString gaps.length ++ ")"
    ("   " ++ (Style.ofPriority priority).paint view.colours heading) ::
      (shown.map view.gapLine ++
        if left = 0 then []
        else ["     ... " ++ toString left ++ " more (use --verbose to show)"])

/-- The list of gaps. -/
def gapLines (view : View) (report : Report) : List String :=
  ("   " ++ Style.bold.paint view.colours "Gaps by priority:") ::
    (Priority.all.flatMap (view.priorityLines report) ++ [""])

/-- All lines of a report. -/
def lines (view : View) (report : Report) (floor : Float) : List String :=
  view.summary report floor ++ if report.gaps.isEmpty then [] else view.gapLines report

/-- The text of a report, each line with a line feed behind it. -/
def render (view : View) (report : Report) (floor : Float) : String :=
  String.join ((view.lines report floor).map fun line => line ++ "\n")

end View

namespace Report

/-- The report in one line. -/
def brief (report : Report) : String :=
  "coverage: " ++ Decimal.fixedText 1 report.coverage ++ "% (" ++ toString report.adequate ++
    "/" ++ toString report.total ++ " adequate, " ++ toString report.gaps.length ++ " gaps)"

end Report

end DocCoverage
