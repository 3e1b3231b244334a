import TeamRoles.Problem.Render
import TeamRoles.Styled

/-!
Notices with the source line that they point to, and carets below it.
-/

namespace TeamRoles

structure SourceLine where
  number : Nat
  /-- The byte offset of the line's first character. -/
  start : Nat
  chars : List Char
  deriving DecidableEq

namespace SourceLine

def size (cs : List Char) : Nat := cs.foldl (fun n c => n + c.utf8Size) 0

/-- The lines of a text, each with its line end. -/
def split (number start : Nat) (line : List Char) : List Char → List SourceLine
  | [] => [⟨number, start, line.reverse⟩]
  | c :: rest =>
    if c == '\n' then
      let here : SourceLine := ⟨number, start, (c :: line).reverse⟩
      here :: split (number + 1) (start + size here.chars) [] rest
    else split number start (c :: line) rest

/-- The last line that starts at or before an offset. -/
def containing (text : String) (offset : Nat) : SourceLine :=
  let all := split 1 0 [] text.toList
  ((all.takeWhile (·.start ≤ offset)).getLast?).getD ⟨1, 0, []⟩

/-- The column of an offset: one more than the characters of the line that end at or before it. -/
def column (l : SourceLine) (offset : Nat) : Nat := go (offset - l.start) l.chars + 1
where
  go (bytes : Nat) : List Char → Nat
    | [] => 0
    | c :: rest => if c.utf8Size ≤ bytes then go (bytes - c.utf8Size) rest + 1 else 0

def visible (l : SourceLine) : List Char :=
  (l.chars.reverse.dropWhile fun c => c == '\n' || c == '\r' || c == '\x00').reverse

end SourceLine

/-- A character at its place in a line, as wide as it is shown. -/
structure Cell where
  char : Char
  /-- The bytes of the line that it takes. -/
  start : Nat
  stop : Nat
  width : Nat

namespace Cell

def tabWidth : Nat := 4

/-- Control characters are not shown, and a tab reaches to the next tab stop. -/
def widthAt (column : Nat) (c : Char) : Nat :=
  if c == '\t' then tabWidth - column % tabWidth
  else if c.toNat < 0x20 || (0x7f ≤ c.toNat && c.toNat < 0xa0) then 0
  else 1

def ofChars (offset column : Nat) : List Char → List Cell
  | [] => []
  | c :: rest =>
    let width := widthAt column c
    ⟨c, offset, offset + c.utf8Size, width⟩ :: ofChars (offset + c.utf8Size) (column + width) rest

def atEnd (cs : List Char) : Cell := ⟨' ', SourceLine.size cs, SourceLine.size cs + 1, 1⟩

def overlaps (c : Cell) (start stop : Nat) : Bool := max c.start start < min c.stop stop

def fill (c : Cell) (mark : Char) : String := String.ofList (List.replicate c.width mark)

def shown (c : Cell) : String := if c.char == '\t' then c.fill ' ' else c.char.toString

end Cell

namespace Styled

def merge : Styled → Styled
  | [] => []
  | (s, text) :: rest => match merge rest with
    | (s', text') :: rest => if s = s' then (s, text ++ text') :: rest
      else (s, text) :: (s', text') :: rest
    | [] => [(s, text)]

end Styled

namespace Severity

def noticeWord : Severity → String
  | .error => "error"
  | .warning => "warning"
  | .info => "note"

def color : Severity → Color
  | .error => .red
  | .warning => .yellow
  | .info => .green

end Severity

namespace Notice

def border : Style := { color := some .blue }

def newline : Styled := .plain "\n"

def header (n : Notice) : Styled :=
  let severity : Style := { color := some n.severity.color, bold := true, bright := true }
  Styled.styled severity (n.severity.noticeWord ++ "[" ++ n.code ++ "]") ++
    Styled.styled { bold := true } (": " ++ n.message) ++ newline

/-- The blank space in front of a line without a number. -/
def gutter (width : Nat) : Styled := .plain (String.ofList (List.replicate (width + 1) ' '))

/-- The source line below its place, and carets below the label. -/
def snippet (n : Notice) (name text : String) (label : Label) : Styled :=
  let line := SourceLine.containing text label.start
  let number := line.number.repr
  let start := label.start - line.start
  let stop := max (label.stop - line.start) (start + 1)
  let mark : Style := { color := some n.severity.color }
  let bar := Styled.styled border "│"
  let cells := Cell.ofChars 0 0 line.visible
  let source := cells.map fun c => (if c.overlaps start stop then some mark else none, c.shown)
  let carets := (cells ++ [Cell.atEnd line.visible]).map fun c =>
    if c.overlaps start stop then (some mark, c.fill '^')
    else (none, if c.start < stop then c.fill ' ' else "")
  let place := name ++ ":" ++ number ++ ":" ++ (line.column label.start).repr
  gutter number.length ++ Styled.styled border "┌─" ++ Styled.plain (" " ++ place ++ "\n") ++
    gutter number.length ++ bar ++ newline ++
    Styled.styled border number ++ Styled.plain " " ++ bar ++ Styled.plain " " ++
      Styled.merge source ++ newline ++
    gutter number.length ++ bar ++ Styled.plain " " ++ Styled.merge carets ++ newline

/-- A note stands behind a bullet, its further lines below. -/
def note (text : String) : Styled :=
  let bullet := fun (line : String) (i : Nat) =>
    Styled.plain " " ++ (if i = 0 then Styled.styled border "=" else Styled.plain " ") ++
      Styled.plain (" " ++ line ++ "\n")
  ((lines text).zipIdx.map fun (line, i) => bullet line i).flatten
where
  lines (text : String) : List String :=
    let all := text.splitOn "\n"
    all.dropLast.map (fun l => String.ofList (dropReturn l.toList.reverse).reverse) ++
      (all.getLast?.toList.filter (· != ""))
  dropReturn : List Char → List Char
    | '\r' :: rest => rest
    | cs => cs

/-- The whole notice, with a blank line behind it. -/
def render (sources : Sources) (n : Notice) : Styled :=
  let snippets := n.labels.filterMap fun label => do
    let (name, text) ← sources.files[label.file]?
    return n.snippet name text label
  n.header ++ snippets.flatten ++ (n.notes.map note).flatten ++ newline

end Notice

end TeamRoles
