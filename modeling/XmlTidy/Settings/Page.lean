import XmlTidy.Layout.Render
import XmlTidy.Number.Measure
import XmlTidy.Settings.Profile

/-!
Printing for the layout section of a profile. With whole widths the section means a page. But its widths are
numbers of any kind that passed the check of the section, so they may lie between columns, be
infinite, or be no number at all; then columns are measured as the numbers come. Indentation by blanks
needs a whole number of them, no more than can be counted and no more than there is room for; tabs can be
set anywhere. How much room there is depends on the machine, and without a limit all that can be counted
can be stored.
-/

namespace XmlTidy

/-- Why nothing can be printed for a profile. -/
inductive PageFault where
  | blanksNotWhole
  | blanksNotCountable
  | blanksNotStorable
  | lineNotMeasurable
  | lineEndNotNamed
deriving DecidableEq, Repr

def PageFault.message : PageFault → String
  | .blanksNotWhole => "indentation is not a whole number of blanks"
  | .blanksNotCountable => "indentation has more blanks than can be counted"
  | .blanksNotStorable => "indentation has more blanks than can be stored"
  | .lineNotMeasurable => "a width is too large to be measured"
  | .lineEndNotNamed => "the line end is not a name"

/-- Why a layout cannot be printed for a profile. -/
inductive PrintFault where
  | stray (value : Stray)
  | page (fault : PageFault)
deriving DecidableEq, Repr

def PrintFault.ofRender : RenderFault → PrintFault
  | .stray value => .stray value
  | .immeasurable => .page .lineNotMeasurable

/-- A value as a measure. Truth values count as zero and one; what is no scalar is no number. -/
def Json.measure : Json → Measure
  | .scalar (.int n) => .whole n
  | .scalar (.bool b) => .whole (if b then 1 else 0)
  | .scalar (.real negative size) =>
      match size.binary? with
      | some b => .real (.finite (if negative then -(b.mantissa : Int) else b.mantissa) b.exponent)
      | none => .real (.infinite negative)
  | .scalar (.infinite negative) => .real (.infinite negative)
  | _ => .real .nan

namespace Profile

/-- The most blanks that can be counted. -/
def countableBlanks : Int := 9223372036854775807

def useTabs (p : Profile) : Bool := !(p.layout .useTabs).isVoid

def lineEnd (p : Profile) : Except PageFault LineEnd :=
  match p.layout .endOfLine with
  | .str key => .ok ((LineEnd.ofKey? key).getD .lf)
  | _ => .error .lineEndNotNamed

/-- Whether lines can be indented where there is room for so many blanks. -/
def checkIndentation (p : Profile) (room : Int := countableBlanks) : Except PageFault Unit :=
  if p.useTabs then .ok ()
  else
    match (p.layout .tabWidth).measure with
    | .real _ => .error .blanksNotWhole
    | .whole n =>
        if countableBlanks < n then .error .blanksNotCountable
        else if room < n then .error .blanksNotStorable
        else .ok ()

/-- The blanks at the start of a line at a depth of indentation. -/
def indentation (p : Profile) (depth : Nat) : Text :=
  match (p.layout .tabWidth).measure with
  | .whole n => blanks p.useTabs n.toNat depth
  | .real _ => blanks true 0 depth

/-- Lines as the widths of a profile measure them. Where lines start is at hand up to the depth of
indentation that is expected. -/
def ruler (p : Profile) (expected : Nat) : Ruler Measure :=
  let unit := (p.layout .tabWidth).measure
  let starts := unit.multiples expected
  { left := fun column => (p.layout .printWidth).measure.sub? column
    start := fun depth => starts[depth]?.getD (unit.times depth)
    indentation := p.indentation }

/-- The text of a line starts one tab width further with each level of indentation. -/
theorem start_ruler (p : Profile) (expected depth : Nat) :
    (p.ruler expected).start depth = (p.layout .tabWidth).measure.times depth :=
  Measure.getD_multiples ..

/-- The page of a profile with whole widths. A line end that is not named counts as a newline. -/
def page? (p : Profile) : Option Page :=
  match (p.layout .printWidth).measure, (p.layout .tabWidth).measure with
  | .whole width, .whole tabWidth =>
      if h : 0 < width.toNat ∧ 0 < tabWidth.toNat then
        some
          { width := width.toNat
            tabWidth := tabWidth.toNat
            useTabs := p.useTabs
            lineEnd := p.lineEnd.toOption.getD .lf
            width_pos := h.1
            tabWidth_pos := h.2 }
      else none
  | _, _ => none

/-- The text of a layout, with a newline at the end of each line. -/
def printLines (p : Profile) (d : Doc) : Except RenderFault Text :=
  match p.page? with
  | some page => page.ruler.print d
  | none => (p.ruler d.depth).print d

/-- The text of a layout. The line end is looked at last. -/
def print (p : Profile) (d : Doc) (room : Int := countableBlanks) : Except PrintFault Text := do
  (p.checkIndentation room).mapError .page
  let lines ← (p.printLines d).mapError .ofRender
  let lineEnd ← p.lineEnd.mapError .page
  return lines.withLineEnds lineEnd.image

end Profile

end XmlTidy
