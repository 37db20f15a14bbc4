/-!
Laying out text of limited width. A layout is text with places where a line may end, in nested
groups: a group whose text fits on the rest of the line is written on it, up to the next place
behind the group where the line may end; any other group ends lines inside itself.
-/
namespace Graphwright.Text

/-- A place where a line may end. -/
structure Break where
  /-- Blanks that are written if the line goes on. -/
  blanks : Nat
  /-- Whether the line always ends here. -/
  isHard : Bool := false
  /-- Whether the line never ends here. -/
  isSolid : Bool := false
  /-- How much deeper than its group the next line starts. -/
  offset : Int := 0
  /-- Text before the line end, at the start of the next line, and in place of both. -/
  before : String := ""
  after : String := ""
  inLine : String := ""
  deriving Repr

inductive Layout
  | text (s : String)
  | break (b : Break)
  /-- A group that ends lines at all of its places if it does not fit, or else only where the next
  part does not fit. Its lines start `indent` deeper, and it fits on a line only within `limit`. -/
  | group (endsAll : Bool) (indent : Int) (limit : Option Nat) (parts : List Layout)
  deriving Repr

namespace Layout

/-- A width; `none` stands for text that ends a line. -/
abbrev Width := Option Nat

def Width.add : Width → Width → Width
  | some m, some n => some (m + n)
  | _, _ => none

mutual

/-- The width of a layout on one line. -/
def width : Layout → Width
  | text s => some s.utf8ByteSize
  | .break b => if b.isHard then none else some b.blanks
  | group _ _ limit parts =>
    match widthAll parts, limit with
    | some n, some most => if n ≤ most then some n else none
    | w, _ => w

def widthAll : List Layout → Width
  | [] => some 0
  | d :: ds => (width d).add (widthAll ds)

end

/-- The width of what stands before the first place where the line may end; `after` is the width
behind all parts. -/
def lead (after : Width) : List Layout → Width
  | [] => after
  | .break _ :: _ => some 0
  | d :: ds => (width d).add (lead after ds)

/-- Whether a width fits into the space left on a line. -/
def Width.fits (space : Int) : Width → Bool
  | some n => n ≤ space
  | none => false

/-- How the group around a part is written. -/
inductive Mode
  | onLine
  | broken (endsAll : Bool)
  deriving DecidableEq, Repr

/-- What is written so far, the space left on the line, and blanks that are written before the next
text. -/
structure Page where
  written : String
  space : Int
  pending : Nat
  deriving Repr

namespace Page

/-- Lines are 89 columns wide. -/
def margin : Int := 89

/-- The width that is used at least, however deep a line starts. -/
def least : Int := 60

def empty : Page := ⟨"", margin, 0⟩

/-- Pending blanks are written with the text that follows them. -/
def write (page : Page) (s : String) : Page :=
  if s = "" then page
  else
    ⟨page.written ++ String.ofList (List.replicate page.pending ' ') ++ s,
      page.space - s.utf8ByteSize, 0⟩

/-- Goes on with the line. -/
def goOn (page : Page) (b : Break) : Page :=
  ({ page with pending := page.pending + b.blanks, space := page.space - b.blanks }).write b.inLine

/-- Ends the line; the next one starts at `column`. -/
def endLine (page : Page) (b : Break) (column : Int) : Page :=
  let page := page.write b.before
  ({ written := page.written.push '\n', space := max (margin - column) least,
     pending := column.toNat } : Page).write b.after

end Page

mutual

/-- Writes a layout inside a group that starts lines at `indent`; `after` is the width up to the
next place behind it where the line may end. -/
def write (mode : Mode) (indent : Int) (after : Width) (page : Page) : Layout → Page
  | text s => page.write s
  | .break b =>
    let goesOn := b.isSolid || match mode with
      | .onLine => true
      | .broken true => false
      | .broken false => ((width (.break b)).add after).fits page.space
    if goesOn then page.goOn b else page.endLine b (indent + b.offset)
  | group endsAll deeper limit parts =>
    if ((width (group endsAll deeper limit parts)).add after).fits page.space then
      writeAll .onLine indent after page parts
    else writeAll (.broken endsAll) (indent + deeper) after page parts

def writeAll (mode : Mode) (indent : Int) (after : Width) (page : Page) : List Layout → Page
  | [] => page
  | d :: ds => writeAll mode indent after (write mode indent (lead after ds) page d) ds

end

/-- The text of a layout whose outermost lines all end where they may. -/
def render (parts : List Layout) : String :=
  (writeAll (.broken true) 0 (some 0) Page.empty parts).written

end Layout

end Graphwright.Text
