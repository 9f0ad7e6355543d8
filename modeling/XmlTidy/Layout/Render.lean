import XmlTidy.Layout.Doc
import XmlTidy.Layout.Page
import XmlTidy.Text.Width

/-!
Printing a layout document on a page. A stack holds the documents still to be printed, each with its
indentation depth and its mode: in flat mode lines are not broken, in broken mode they are. A group
is printed flat if it fits, that is if it and what follows it up to the next line break stay within
the width. What is printed is kept as a list of pieces, from whose end blanks are taken at a line break.
Columns are measured with a ruler, and `Ruler.print` first marks the groups that have to break; `Page.render`
does so with the ruler of a page.
-/

namespace XmlTidy

inductive Mode where
  | flat
  | broken
deriving DecidableEq, Repr

/-- A document to be printed at a depth of indentation and in a mode. -/
structure Command where
  depth : Nat
  mode : Mode
  doc : Doc
deriving Repr

/-- The branch of an `ifBreak` for a mode. -/
def Mode.choose (mode : Mode) (broken flat : Doc) : Doc :=
  match mode with
  | .broken => broken
  | .flat => flat

namespace Command

def stackSize : List Command → Nat
  | [] => 0
  | c :: stack => c.doc.size + stackSize stack

/-- The parts of a document as commands in front of a stack. -/
def push (depth : Nat) (mode : Mode) (parts : List Doc) (stack : List Command) : List Command :=
  parts.map (⟨depth, mode, ·⟩) ++ stack

theorem stackSize_push (depth : Nat) (mode : Mode) (parts : List Doc) (stack : List Command) :
    stackSize (push depth mode parts stack) + parts.length = Doc.sizeAll parts + stackSize stack := by
  induction parts with
  | nil => simp [push, Doc.sizeAll]
  | cons doc parts ih =>
      simp only [push, List.map_cons, List.cons_append, stackSize, List.length_cons,
        Doc.sizeAll] at ih ⊢
      omega

theorem stackSize_append (s t : List Command) :
    stackSize (s ++ t) = stackSize s + stackSize t := by
  induction s with
  | nil => simp [stackSize]
  | cons c s ih => simp [stackSize, ih, Nat.add_assoc]

end Command

theorem Doc.size_pos (doc : Doc) : 0 < doc.size := by
  cases doc <;> rw [Doc.size] <;> omega

theorem Mode.size_choose_le (mode : Mode) (broken flat : Doc) :
    (mode.choose broken flat).size ≤ broken.size + flat.size := by
  cases mode <;> simp [Mode.choose]

/-- Whether what a stack prints, up to its first line break, takes at most `width` columns. With
`mustBeFlat`, a group that has to break does not fit. -/
def fits {α : Type} [Sub α] [NatCast α] [OfNat α 0] [LE α] [DecidableLE α] (mustBeFlat : Bool)
    (width : α) (stack : List Command) : Except Stray Bool :=
  if 0 ≤ width then
    match stack with
    | [] => .ok true
    | ⟨depth, mode, doc⟩ :: rest =>
        match doc with
        | .text t => fits mustBeFlat (width - t.width) rest
        | .concat parts | .fill parts => fits mustBeFlat width (Command.push depth mode parts rest)
        | .indent contents => fits mustBeFlat width (⟨depth, mode, contents⟩ :: rest)
        | .group contents forced =>
            if mustBeFlat && forced then .ok false
            else
              fits mustBeFlat width
                (⟨depth, if forced then .broken else mode, contents⟩ :: rest)
        | .ifBreak broken flat =>
            let chosen := mode.choose broken flat
            if chosen.isVoid then fits mustBeFlat width rest
            else fits mustBeFlat width (⟨depth, mode, chosen⟩ :: rest)
        | .line l =>
            if mode = .broken || l.hard then .ok true
            else fits mustBeFlat (if l.soft then width else width - (1 : Nat)) rest
        | .breakParent => fits mustBeFlat width rest
        | .stray value => .error value
  else .ok false
termination_by Command.stackSize stack
decreasing_by
  all_goals simp only [Command.stackSize, Doc.size]
  · omega
  · have := Command.stackSize_push depth mode parts rest
    omega
  · have := Command.stackSize_push depth mode parts rest
    omega
  · omega
  · omega
  · omega
  · have := mode.size_choose_le broken flat
    omega
  · omega
  · omega

/-- How the front of a fill is printed, given the columns that are left on the line. Its first content
stays flat if it fits, and the separator behind it if the next content fits as well. -/
def fillFront {α : Type} [Sub α] [NatCast α] [OfNat α 0] [LE α] [DecidableLE α] (remaining : α)
    (depth : Nat) (mode : Mode) : List Doc → Except Stray (List Command)
  | [] => .ok []
  | [content] =>
      match fits true remaining [⟨depth, .flat, content⟩] with
      | .error e => .error e
      | .ok contentFits =>
          .ok [⟨depth, if contentFits then .flat else .broken, content⟩]
  | [content, separator] =>
      match fits true remaining [⟨depth, .flat, content⟩] with
      | .error e => .error e
      | .ok contentFits =>
          let inner := if contentFits then Mode.flat else Mode.broken
          .ok [⟨depth, inner, content⟩, ⟨depth, inner, separator⟩]
  | content :: separator :: next :: rest =>
      match fits true remaining [⟨depth, .flat, content⟩] with
      | .error e => .error e
      | .ok contentFits =>
          match fits true remaining
              [⟨depth, .flat, content⟩, ⟨depth, .flat, separator⟩, ⟨depth, .flat, next⟩] with
          | .error e => .error e
          | .ok pairFits =>
              .ok
                [⟨depth, if pairFits || contentFits then .flat else .broken, content⟩,
                 ⟨depth, if pairFits then .flat else .broken, separator⟩,
                 ⟨depth, mode, .fill (next :: rest)⟩]

theorem stackSize_fillFront {α : Type} [Sub α] [NatCast α] [OfNat α 0] [LE α] [DecidableLE α]
    {remaining : α} {depth : Nat} {mode : Mode} {parts : List Doc} {front : List Command}
    (h : fillFront remaining depth mode parts = .ok front) :
    Command.stackSize front < (Doc.fill parts).size := by
  unfold fillFront at h
  split at h
  · simp only [Except.ok.injEq] at h
    simp [← h, Command.stackSize, Doc.size, Doc.sizeAll]
  · split at h
    · simp at h
    · simp only [Except.ok.injEq] at h
      simp only [← h, Command.stackSize, Doc.size, Doc.sizeAll]
      omega
  · split at h
    · simp at h
    · simp only [Except.ok.injEq] at h
      simp only [← h, Command.stackSize, Doc.size, Doc.sizeAll]
      omega
  · split at h
    · simp at h
    · split at h
      · simp at h
      · simp only [Except.ok.injEq] at h
        simp only [← h, Command.stackSize, Doc.size, Doc.sizeAll]
        omega

/-! ### What has been printed -/

/-- How printed text is kept: it grows at its end, and can be freed of the blanks at its end. -/
class Output (ω : Type) where
  empty : ω
  append : ω → Text → ω
  trim : ω → ω

/-- Pieces of text as they were printed, the last one first. -/
structure Chunks where
  pieces : List Text
deriving DecidableEq, Repr

namespace Chunks

/-- Takes the blanks at the end away. A piece of nothing but blanks goes as a whole, and then the piece before
it is the last; the first piece that holds something else loses its blanks and is the last one. -/
def trimPieces : List Text → List Text
  | [] => []
  | last :: pieces =>
      let stripped := last.dropEndWhile isPadding
      if stripped.isEmpty then trimPieces pieces else stripped :: pieces

instance : Output Chunks where
  empty := ⟨[]⟩
  append out t := ⟨t :: out.pieces⟩
  trim out := ⟨trimPieces out.pieces⟩

/-- The text that the pieces make up. -/
def text (out : Chunks) : Text := out.pieces.reverse.flatten

end Chunks

/-- What has been printed, with its end in front, and the column reached. After a hard line in flat mode the
next group is measured even though it stands in flat mode. -/
structure Printed (ω α : Type) where
  reversed : ω
  column : α
  remeasure : Bool
deriving DecidableEq, Repr

namespace Printed

variable {ω α : Type} [Output ω]

def empty [OfNat α 0] : Printed ω α := ⟨Output.empty, 0, false⟩

def write [Add α] [NatCast α] (p : Printed ω α) (t : Text) : Printed ω α where
  reversed := Output.append p.reversed t
  column := if t.hasNewline then t.lastLine.width else p.column + t.width
  remeasure := p.remeasure

/-- A line that is not broken. -/
def writeFlatLine [Add α] [NatCast α] (p : Printed ω α) (l : Line) : Printed ω α :=
  if l.soft then p
  else { p with reversed := Output.append p.reversed [' '], column := p.column + (1 : Nat) }

/-- A line break. Unless it is literal, the line that ends loses its trailing blanks and the new one is
indented. -/
def breakLine [OfNat α 0] (ruler : Ruler α) (depth : Nat) (mode : Mode) (l : Line) (p : Printed ω α) :
    Printed ω α :=
  let remeasure := p.remeasure || mode = .flat
  if l.literal then ⟨Output.append p.reversed ['\n'], 0, remeasure⟩
  else
    ⟨Output.append (Output.trim p.reversed) ('\n' :: ruler.indentation depth), ruler.start depth,
      remeasure⟩

end Printed

/-- Why a document cannot be printed: a value in it is no document, or it cannot be told how much is
left on a line. -/
inductive RenderFault where
  | stray (value : Stray)
  | immeasurable
deriving DecidableEq, Repr

/-- Prints all of a stack. -/
def printStack {ω α : Type} [Output ω] [Add α] [Sub α] [NatCast α] [OfNat α 0] [LE α] [DecidableLE α]
    (ruler : Ruler α) (p : Printed ω α) (stack : List Command) : Except RenderFault (Printed ω α) :=
  match stack with
  | [] => .ok p
  | ⟨depth, mode, doc⟩ :: rest =>
      match doc with
      | .text t => printStack ruler (p.write t) rest
      | .concat parts => printStack ruler p (Command.push depth mode parts rest)
      | .indent contents => printStack ruler p (⟨depth + 1, mode, contents⟩ :: rest)
      | .group contents forced =>
          if mode = .flat && !p.remeasure then
            printStack ruler p (⟨depth, if forced then .broken else .flat, contents⟩ :: rest)
          else
            let p := { p with remeasure := false }
            if forced then printStack ruler p (⟨depth, .broken, contents⟩ :: rest)
            else
              match ruler.left p.column with
              | none => .error .immeasurable
              | some width =>
                  match fits false width (⟨depth, .flat, contents⟩ :: rest) with
                  | .error e => .error (.stray e)
                  | .ok flat =>
                      printStack ruler p
                        (⟨depth, if flat then .flat else .broken, contents⟩ :: rest)
      | .fill parts =>
          match ruler.left p.column with
          | none => .error .immeasurable
          | some width =>
              match _h : fillFront width depth mode parts with
              | .error e => .error (.stray e)
              | .ok front => printStack ruler p (front ++ rest)
      | .ifBreak broken flat =>
          let chosen := mode.choose broken flat
          if chosen.isVoid then printStack ruler p rest
          else printStack ruler p (⟨depth, mode, chosen⟩ :: rest)
      | .line l =>
          if mode = .flat && !l.hard then printStack ruler (p.writeFlatLine l) rest
          else printStack ruler (p.breakLine ruler depth mode l) rest
      | .breakParent => printStack ruler p rest
      | .stray value => .error (.stray value)
termination_by Command.stackSize stack
decreasing_by
  all_goals simp only [Command.stackSize, Doc.size]
  · omega
  · have := Command.stackSize_push depth mode parts rest
    omega
  · omega
  · omega
  · omega
  · omega
  · have := stackSize_fillFront _h
    simp only [Doc.size] at this
    rw [Command.stackSize_append]
    omega
  · omega
  · have := mode.size_choose_le broken flat
    omega
  · omega
  · omega
  · omega

/-- The text of a document, with a newline at the end of each line. It is printed in pieces. -/
def Ruler.print {α : Type} [Add α] [Sub α] [NatCast α] [OfNat α 0] [LE α] [DecidableLE α]
    (ruler : Ruler α) (doc : Doc) : Except RenderFault Text :=
  (printStack ruler (.empty : Printed Chunks α) [⟨0, .broken, doc.settled⟩]).map fun p => p.reversed.text

/-- The text of a document on a page. -/
def Page.render (page : Page) (doc : Doc) : Except RenderFault Text :=
  (page.ruler.print doc).map (·.withLineEnds page.lineEnd.image)

/-- What is said of a value that is no document. -/
def invalidDocMessage (typeName : String) : String :=
  "Unexpected layout document type: " ++ typeName

end XmlTidy
