import XmlTidy.Layout.Render

/-!
Printing in pieces. What is printed is a list of pieces, and a line break takes blanks from its end, piece by piece.
The pieces put together are one text, and what the text loses is its trailing blanks, however they are spread over
the pieces. So printing can be followed on the text alone, kept in reverse: everything that printing does to pieces
is what it does to their text.
-/

namespace XmlTidy

/-- A text that goes on with another one loses the end of the other one, or all of it and its own end. -/
theorem Text.dropEndWhile_append (p : Char → Bool) (s t : Text) :
    dropEndWhile p (s ++ t) = if (t.dropEndWhile p).isEmpty then s.dropEndWhile p else s ++ t.dropEndWhile p := by
  rw [dropEndWhile, List.reverse_append, List.dropWhile_append, dropEndWhile, List.isEmpty_reverse]
  split
  · rfl
  · rw [List.reverse_append, List.reverse_reverse]

namespace Chunks

theorem text_cons (t : Text) (pieces : List Text) : text ⟨t :: pieces⟩ = text ⟨pieces⟩ ++ t := by
  rw [text, List.reverse_cons, List.flatten_append, ← text, List.flatten_singleton]

/-- Taking blanks from the end of the pieces takes the trailing blanks from their text, and nothing else. -/
theorem text_trimPieces (pieces : List Text) :
    text ⟨trimPieces pieces⟩ = (text ⟨pieces⟩).dropEndWhile isPadding := by
  induction pieces with
  | nil => rfl
  | cons last pieces ih =>
      rw [trimPieces, text_cons, Text.dropEndWhile_append]
      split
      · -- the last piece goes, and the loop goes on with the one before it
        exact ih
      · -- the loop stops here
        exact text_cons _ _

end Chunks

/-! ### Texts in place of pieces -/

/-- A text that is kept in reverse. -/
instance : Output Text where
  empty := []
  append out t := t.reverse ++ out
  trim out := out.dropWhile isPadding

/-- A translation between two ways of keeping text that respects what is done to it. -/
structure Output.Respects {ω ω' : Type} [Output ω] [Output ω'] (f : ω → ω') : Prop where
  empty : f Output.empty = Output.empty
  append : ∀ out t, f (Output.append out t) = Output.append (f out) t
  trim : ∀ out, f (Output.trim out) = Output.trim (f out)

/-- The text of pieces, in reverse. -/
def Chunks.reversed (out : Chunks) : Text := out.text.reverse

theorem Chunks.respects_reversed : Output.Respects Chunks.reversed where
  empty := rfl
  append out t := by
    show (text ⟨t :: out.pieces⟩).reverse = t.reverse ++ out.text.reverse
    rw [text_cons, List.reverse_append]
  trim out := by
    show (text ⟨trimPieces out.pieces⟩).reverse = out.text.reverse.dropWhile isPadding
    rw [text_trimPieces, Text.dropEndWhile, List.reverse_reverse]

namespace Printed

variable {ω ω' α : Type}

def map (f : ω → ω') (p : Printed ω α) : Printed ω' α := ⟨f p.reversed, p.column, p.remeasure⟩

@[simp] theorem map_column (f : ω → ω') (p : Printed ω α) : (p.map f).column = p.column := rfl

@[simp] theorem map_remeasure (f : ω → ω') (p : Printed ω α) : (p.map f).remeasure = p.remeasure := rfl

variable [Output ω] [Output ω'] {f : ω → ω'}

theorem map_empty [OfNat α 0] (h : Output.Respects f) : (empty : Printed ω α).map f = empty := by
  rw [map, empty, empty, h.empty]

theorem map_write [Add α] [NatCast α] (h : Output.Respects f) (p : Printed ω α) (t : Text) :
    (p.write t).map f = (p.map f).write t := by
  rw [map, write, h.append]
  rfl

theorem map_writeFlatLine [Add α] [NatCast α] (h : Output.Respects f) (p : Printed ω α) (l : Line) :
    (p.writeFlatLine l).map f = (p.map f).writeFlatLine l := by
  rw [writeFlatLine, writeFlatLine]
  split
  · rfl
  · rw [map, h.append]
    rfl

theorem map_breakLine [OfNat α 0] (h : Output.Respects f) (ruler : Ruler α) (depth : Nat) (mode : Mode) (l : Line)
    (p : Printed ω α) : (p.breakLine ruler depth mode l).map f = (p.map f).breakLine ruler depth mode l := by
  rw [breakLine, breakLine]
  split
  · rw [map, h.append]
    rfl
  · rw [map, h.append, h.trim]
    rfl

/-! ### Printing on a text -/

/-- The text that has been printed. -/
def text (p : Printed Text α) : Text := p.reversed.reverse

theorem empty_text [OfNat α 0] : (empty : Printed Text α) = ⟨[], 0, false⟩ := rfl

theorem write_text [Add α] [NatCast α] (p : Printed Text α) (t : Text) :
    p.write t =
      ⟨t.reverse ++ p.reversed, if t.hasNewline then t.lastLine.width else p.column + t.width, p.remeasure⟩ := rfl

theorem writeFlatLine_text [Add α] [NatCast α] (p : Printed Text α) (l : Line) :
    p.writeFlatLine l =
      if l.soft then p else { p with reversed := ' ' :: p.reversed, column := p.column + (1 : Nat) } := rfl

theorem breakLine_text [OfNat α 0] (ruler : Ruler α) (depth : Nat) (mode : Mode) (l : Line) (p : Printed Text α) :
    p.breakLine ruler depth mode l =
      if l.literal then ⟨'\n' :: p.reversed, 0, p.remeasure || mode = .flat⟩
      else
        ⟨(ruler.indentation depth).reverse ++ '\n' :: p.reversed.dropWhile isPadding, ruler.start depth,
          p.remeasure || mode = .flat⟩ := by
  have happend : (Output.append (Output.trim p.reversed) ('\n' :: ruler.indentation depth) : Text) =
      (ruler.indentation depth).reverse ++ '\n' :: p.reversed.dropWhile isPadding := by
    show ('\n' :: ruler.indentation depth).reverse ++ p.reversed.dropWhile isPadding = _
    rw [List.reverse_cons, List.append_assoc, List.singleton_append]
  rw [breakLine, happend]
  rfl

end Printed

section Loop

variable {ω ω' α : Type} [Output ω] [Output ω'] [Add α] [Sub α] [NatCast α] [OfNat α 0] [LE α] [DecidableLE α]

/-- The loop does the same whatever the printed text is kept as. -/
theorem printStack_map {f : ω → ω'} (h : Output.Respects f) (ruler : Ruler α) (p : Printed ω α)
    (stack : List Command) :
    printStack ruler (p.map f) stack = (printStack ruler p stack).map (Printed.map f) := by
  fun_induction printStack ruler p stack with
  | case1 p => rw [printStack]; rfl
  | case2 p depth mode rest t ih => rw [printStack, ← Printed.map_write h, ih]
  | case3 p depth mode rest parts ih => rw [printStack, ih]
  | case4 p depth mode rest contents ih => rw [printStack, ih]
  | case5 p depth mode rest contents forced hflat ih =>
      simp only [printStack, Printed.map_remeasure, hflat, if_true]
      exact ih
  | case6 p depth mode rest contents hflat p' ih =>
      simp only [printStack, Printed.map_remeasure, hflat, if_true]
      exact ih
  | case7 p depth mode rest contents forced hflat p' hforced hleft =>
      have hleft : ruler.left (p.map f).column = none := hleft
      simp only [printStack, Printed.map_remeasure, hflat, hforced, hleft]
      rfl
  | case8 p depth mode rest contents forced hflat p' hforced width hleft e hfits =>
      have hleft : ruler.left (p.map f).column = some width := hleft
      simp only [printStack, Printed.map_remeasure, hflat, hforced, hleft, hfits]
      rfl
  | case9 p depth mode rest contents forced hflat p' hforced width hleft flat hfits ih =>
      have hleft : ruler.left (p.map f).column = some width := hleft
      simp only [printStack, Printed.map_remeasure, hflat, hforced, hleft, hfits]
      exact ih
  | case10 p depth mode rest parts hleft =>
      simp only [printStack, Printed.map_column, hleft]
      rfl
  | case11 p depth mode rest parts width hleft e hfront =>
      simp only [printStack, Printed.map_column, hleft]
      split
      · next e' he =>
          cases he.symm.trans hfront
          rfl
      · next front hfront' => cases hfront'.symm.trans hfront
  | case12 p depth mode rest parts width hleft front hfront ih =>
      simp only [printStack, Printed.map_column, hleft]
      split
      · next e he => cases he.symm.trans hfront
      · next front' hfront' =>
          cases hfront'.symm.trans hfront
          exact ih
  | case13 p depth mode rest broken flat chosen hvoid ih => rw [printStack, if_pos hvoid, ih]
  | case14 p depth mode rest broken flat chosen hvoid ih => rw [printStack, if_neg hvoid, ih]
  | case15 p depth mode rest l hflat ih => rw [printStack, if_pos hflat, ← Printed.map_writeFlatLine h, ih]
  | case16 p depth mode rest l hflat ih => rw [printStack, if_neg hflat, ← Printed.map_breakLine h, ih]
  | case17 p depth mode rest ih => rw [printStack, ih]
  | case18 p depth mode rest value => rw [printStack]; rfl

/-- What is printed in pieces is what is printed as one text. -/
theorem Ruler.print_eq (ruler : Ruler α) (doc : Doc) :
    ruler.print doc =
      (printStack ruler (.empty : Printed Text α) [⟨0, .broken, doc.settled⟩]).map Printed.text := by
  have hmap := printStack_map (α := α) Chunks.respects_reversed ruler .empty [⟨0, .broken, doc.settled⟩]
  rw [Printed.map_empty Chunks.respects_reversed] at hmap
  rw [print, hmap]
  cases printStack ruler (.empty : Printed Chunks α) [⟨0, .broken, doc.settled⟩] with
  | error fault => rfl
  | ok p => exact congrArg Except.ok (List.reverse_reverse _).symm

end Loop

/-- The text of a document is that of the pieces that were printed. -/
theorem Page.exists_chunks {page : Page} {doc : Doc} {t : Text} (h : page.render doc = .ok t) :
    ∃ p : Printed Chunks Int, printStack page.ruler .empty [⟨0, .broken, doc.settled⟩] = .ok p ∧
      t = p.reversed.text.withLineEnds page.lineEnd.image := by
  rw [render, Ruler.print] at h
  cases hp : printStack page.ruler (.empty : Printed Chunks Int) [⟨0, .broken, doc.settled⟩] with
  | error fault =>
      rw [hp] at h
      cases h
  | ok p =>
      rw [hp] at h
      exact ⟨p, rfl, (Except.ok.inj h).symm⟩

end XmlTidy
