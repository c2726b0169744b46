import EvidenceLock.Cli.Markup
import EvidenceLock.Decimal.Rounded
import EvidenceLock.Run
import EvidenceLock.Text.Cells

/-
  The result of a run as a reader sees it on the terminal: a headline, a table of
  measurements, the issues with their evidence, and for each fix its verdict in a
  frame and its patch. Each block is a list of lines; a block whose style tags do
  not fit together cannot be shown.
-/

namespace EvidenceLock.Screen

open EvidenceLock.Text

/-- The lines of a block, unless it cannot be shown. -/
abbrev Block := Option (List (List Char))

/-- A text with style tags. -/
def text (markup : String) : Block :=
  (Markup.plain? markup).map fun cs => (splitOnChar '\n' cs).map (expandTabs 8)

/-- An empty line. -/
def emptyLine : Block := some [[]]

/-- A table with a label and a number in each row, under a heading. -/
def table (heading : String × String) (rows : List (String × String)) : Block :=
  let all := heading :: rows
  let width (f : String × String → String) : Nat :=
    (all.map fun r => cells (f r).toList).foldl max 0
  let left := width Prod.fst
  let right := width Prod.snd
  some <| all.map fun (label, number) =>
    "  ".toList ++ padEnd left label.toList ++ "    ".toList ++ padStart right number.toList

/-- A text in a frame with a title at its left. -/
def frame (title body : String) : Block := do
  let title ← Markup.plain? title
  let lines ← text body
  let inner := max ((lines.map cells).foldl max 0 + 2) (cells title + 4)
  let bar (n : Nat) : List Char := List.replicate n '─'
  let top := '╭' :: '─' :: ' ' :: title ++ ' ' :: bar (inner - 3 - cells title) ++ ['╮']
  let middle := lines.map fun l => '│' :: ' ' :: padEnd (inner - 2) l ++ [' ', '│']
  some (top :: middle ++ ['╰' :: bar inner ++ ['╯']])

/-- Line feeds in place of carriage returns, with or without a line feed of their own. -/
def unixFeeds : List Char → List Char
  | [] => []
  | '\r' :: '\n' :: r => '\n' :: unixFeeds r
  | '\r' :: r => '\n' :: unixFeeds r
  | c :: r => c :: unixFeeds r

/-- The lines of a patch as they stand, but without the line feeds at the end. -/
def patch (diff : String) : Block :=
  let cs := (expandTabs 4 (unixFeeds diff.toList)).filter fun c => !Markup.isControl c
  some (splitOnChar '\n' cs)

/-- What the measurements of a run are called, and how they are written. -/
def measurements (r : RunReport) : List (String × String) :=
  let m := r.analysis.metrics
  [("Max function length", toString m.maxLength),
   ("Avg function length", Decimal.fixedText 2 m.averageLength.toFloat),
   ("Duplicate blocks", toString m.duplicateBlocks),
   ("Import cycles", toString r.analysis.dependencies.cycles)]

/-- The headline of a run. -/
def headline (r : RunReport) : Block :=
  text <|
    s!"[bold cyan]coderoast[/bold cyan] · {r.files.length} files · " ++
      s!"{r.analysis.metrics.functions} functions · {r.analysis.dependencies.edges} import edges"

/-- A cited place on one line. -/
def item (i : EvidenceItem) : Block :=
  let metrics := Text.joinWith ", " <|
    (i.metrics.getD []).map fun m => s!"{m.kind.text}={m.value.text}"
  text s!"    {i.file.text}:{i.first.text}-{i.last.text}  [dim]{metrics}[/dim]"

/-- How many places of an issue are shown at most unless everything is. -/
def itemCount : Nat := 3

/-- An issue: its heading, and the places it rests on or what they lack. -/
def issue (everything : Bool) (i : GuardedIssue) : List Block :=
  let colour := if i.confidence = "high" then "red" else "yellow"
  let heading := text <|
    s!"[{colour}]●[/{colour}] [bold]{i.signal}[/bold] " ++
      s!"[dim]({i.category}, {i.confidence} confidence)[/dim]"
  if !i.complete then
    let lack := i.lack.getD "None"
    [heading, text s!"    [dim]{lack}[/dim]"]
  else
    let items := if everything then i.evidence else i.evidence.take itemCount
    let left := i.evidence.length - items.length
    heading :: items.map item ++
      (if 0 < left then [text s!"    [dim]+{left} more (use --verbose)[/dim]"] else [])

/-- A suggestion: its verdict in a frame, and its patch if there is one. -/
def suggestion (s : Suggestion) : List Block :=
  let status := if s.verified then "[green]verified[/green]" else "[red]rejected[/red]"
  let details := match s.details with | some d => "\n" ++ d | none => ""
  frame s!"Fix {s.id} · {s.signal} · {status}" (s.message ++ details) ::
    (if s.patch.isEmpty then [] else [patch s.patch])

/-- What a fix changes, on one line. -/
def preview (p : FixPreview) : Block :=
  let d := p.delta
  let changes : List (String × Float) :=
    [("maxFunctionLength", Decimal.ofInt d.maxLength),
     ("avgFunctionLength", d.averageLength.toFloat),
     ("duplicateBlocks", Decimal.ofInt d.duplicateBlocks),
     ("totalFunctions", Decimal.ofInt d.functions)]
  text <|
    s!"[bold]Preview (fix {p.id}):[/bold] " ++
      Text.joinWith ", " (changes.map fun (name, x) => s!"{name} {Decimal.signedGeneralText x}")

/-- The outcome of fixing. -/
def fixes (r : FixResult) : List Block :=
  if r.suggestions.isEmpty then [emptyLine, text "[dim]No fix suggestions were produced.[/dim]"]
  else emptyLine :: r.suggestions.flatMap suggestion ++ (r.preview.map preview).toList

/-- The result of a run. -/
def result (everything : Bool) (r : RunResult) : List Block :=
  [emptyLine, headline r.report, table ("Metric", "Value") (measurements r.report), emptyLine] ++
    (if r.report.issues.isEmpty then [text "[green]No issues found.[/green]"] else []) ++
    r.report.issues.flatMap (issue everything) ++
    ((r.fixes.map fixes).getD []) ++ [emptyLine]

/-- The lines of the blocks before the first one that cannot be shown, and whether all can be. -/
def lines (blocks : List Block) : List (List Char) × Bool :=
  ((blocks.takeWhile Option.isSome).flatMap fun b => b.getD [], blocks.all Option.isSome)

/-- Lines with a line feed after each. -/
def output (ls : List (List Char)) : String := String.ofList (ls.flatMap fun l => l ++ ['\n'])

end EvidenceLock.Screen
