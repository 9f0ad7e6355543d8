import XmlTidy.Markup.Doctype

/-!
Reading a document. Content is read as a sequence of events (a leaf, a start tag, an end tag), and the
elements that are still open wait in a stack of frames. `Document.read` reads a whole text; it keeps
every character of it, so that the spans of the tree tile the text.
-/

namespace XmlTidy

/-- An element whose end tag has not been read; its children so far are in reverse. -/
structure Frame where
  name : Text
  attributes : List Attribute
  start : Nat
  contentStart : Nat
  children : List Node
deriving Repr

namespace Frame

def add (f : Frame) (node : Node) : Frame :=
  { f with children := node :: f.children }

/-- The element of a frame whose end tag runs from `contentStop` up to `stop`. -/
def close (src : Source) (f : Frame) (endName : Text) (contentStop stop : Nat) : Element where
  tag :=
    { name := f.name
      attributes := f.attributes
      selfClosing := false
      endName := some endName
      span := src.span f.start stop
      contentSpan := some (src.span f.contentStart contentStop) }
  children := f.children.reverse

end Frame

/-- What stands next in the content of an element. -/
inductive Event where
  | leaf (l : Leaf)
  | selfClosed (tag : Tag)
  | opening (frame : Frame)
  | closing (endName : Text)
deriving Repr

namespace Cursor

def sectionStart : Text := ['<', '!', '[', 'C', 'D', 'A', 'T', 'A', '[']

/-- A start tag, given a cursor on its angle bracket: a whole element, or the frame of one. -/
def startTag (src : Source) (c : Cursor) : Except Failure ((Tag ⊕ Frame) × Cursor) :=
  let c₁ := c.past ['<'] (c.rest.drop 1)
  match c₁.name .missingElementName with
  | .error e => .error e
  | .ok (name, c₂) =>
      match c₂.attrs src [(['/', '>'], true), (['>'], false)]
          ⟨.unterminatedStartTag name, c.offset⟩ .missingBlankBeforeAttribute with
      | .error e => .error e
      | .ok (attributes, true, d) =>
          .ok (.inl
            { name, attributes, selfClosing := true, endName := none,
              span := src.span c.offset d.offset, contentSpan := none }, d)
      | .ok (attributes, false, d) =>
          .ok (.inr ⟨name, attributes, c.offset, d.offset, []⟩, d)

/-- An end tag with the given name, given a cursor behind its `</`. -/
def endTag (expected : Text) (start : Nat) (c : Cursor) : Except Failure (Event × Cursor) :=
  match c.name .missingEndName with
  | .error e => .error e
  | .ok (found, c₁) =>
      if found ≠ expected then .error ⟨.mismatchedEndTag expected found, start⟩
      else
        let c₂ := c₁.skipBlanks
        match c₂.skip? ['>'] with
        | none => c₂.fail .unclosedEndTag
        | some d => .ok (.closing found, d)

def reference (src : Source) (c : Cursor) : Except Failure (Event × Cursor) :=
  match Reference.split? c.rest with
  | none => c.fail .malformedReference
  | some (kind, image, rest) =>
      let d := c.past image rest
      .ok (.leaf (.reference ⟨image, kind, src.span c.offset d.offset⟩), d)

def isTextChar (ch : Char) : Bool :=
  ch != '<' && ch != '&'

/-- A run of character data: blanks, or else text up to the next markup or reference. -/
def charData (src : Source) (c : Cursor) : Event × Cursor :=
  let blanks := c.rest.takeWhile isBlank
  if blanks = [] then
    let d := c.past (c.rest.takeWhile isTextChar) (c.rest.dropWhile isTextChar)
    (.leaf (.charData ⟨c.rest.takeWhile isTextChar, false, src.span c.offset d.offset⟩), d)
  else
    let d := c.skipBlanks
    (.leaf (.charData ⟨blanks, true, src.span c.offset d.offset⟩), d)

/-- A token as a leaf. -/
def tokenEvent (leaf : Token → Leaf) :
    Except Failure (Token × Cursor) → Except Failure (Event × Cursor)
  | .error e => .error e
  | .ok (tok, d) => .ok (.leaf (leaf tok), d)

/-- A start tag as an event. -/
def startEvent : Except Failure ((Tag ⊕ Frame) × Cursor) → Except Failure (Event × Cursor)
  | .error e => .error e
  | .ok (.inl tag, d) => .ok (.selfClosed tag, d)
  | .ok (.inr frame, d) => .ok (.opening frame, d)

/-- What stands next in the content of the element `parent` that starts at `start`. -/
def event (src : Source) (parent : Text) (start : Nat) (c : Cursor) :
    Except Failure (Event × Cursor) :=
  if c.atEnd then .error ⟨.unclosedElement parent, start⟩
  else
    match c.skip? ['<', '/'] with
    | some d => d.endTag parent c.offset
    | none =>
        if Text.startsWith commentStart c.rest then tokenEvent .comment (c.comment src)
        else if Text.startsWith sectionStart c.rest then tokenEvent .cdata (c.cdata src)
        else if Text.startsWith ['<', '?'] c.rest then tokenEvent .instruction (c.instruction src)
        else if Text.startsWith ['<', '!'] c.rest then c.fail .unexpectedDeclaration
        else if Text.startsWith ['<'] c.rest then startEvent (c.startTag src)
        else if Text.startsWith ['&'] c.rest then c.reference src
        else .ok (c.charData src)

/-! ### Reading leaves less text -/

theorem length_startTag_lt {src : Source} {c d : Cursor} {opened : Tag ⊕ Frame}
    (h : c.startTag src = .ok (opened, d)) : d.rest.length < c.rest.length := by
  have hdrop : (c.past ['<'] (c.rest.drop 1)).rest.length ≤ c.rest.length := by simp [past]
  simp only [startTag] at h
  split at h
  · simp at h
  · next name c₂ hname =>
      have hlt := length_name_lt hname
      split at h
      · simp at h
      · next hattrs =>
          have hle := length_attrs_le hattrs
          simp only [Except.ok.injEq, Prod.mk.injEq] at h
          rw [← h.2]
          omega
      · next hattrs =>
          have hle := length_attrs_le hattrs
          simp only [Except.ok.injEq, Prod.mk.injEq] at h
          rw [← h.2]
          omega

theorem length_endTag_lt {expected : Text} {start : Nat} {c d : Cursor} {ev : Event}
    (h : c.endTag expected start = .ok (ev, d)) : d.rest.length < c.rest.length := by
  simp only [endTag] at h
  split at h
  · simp at h
  · next found c₁ hname =>
      have hlt := length_name_lt hname
      have hle := length_skipBlanks_le c₁
      split at h
      · simp at h
      · split at h
        · simp [fail] at h
        · next d' hskip =>
            have hlen := length_skip? hskip
            simp only [Except.ok.injEq, Prod.mk.injEq] at h
            rw [← h.2]
            omega

theorem length_reference_lt {src : Source} {c d : Cursor} {ev : Event}
    (h : c.reference src = .ok (ev, d)) : d.rest.length < c.rest.length := by
  simp only [reference] at h
  split at h
  · simp [fail] at h
  · next kind image rest hsplit =>
      have happ := congrArg List.length (XmlTidy.Reference.eq_append_of_split? hsplit)
      have hpos := List.length_pos_iff.2 (XmlTidy.Reference.ne_nil_of_split? hsplit)
      simp only [Except.ok.injEq, Prod.mk.injEq] at h
      rw [← h.2]
      simp only [List.length_append, past] at happ ⊢
      omega

theorem length_charData_lt {src : Source} {c : Cursor} (hend : ¬ c.atEnd)
    (hlt : ¬ Text.startsWith ['<'] c.rest) (hamp : ¬ Text.startsWith ['&'] c.rest) :
    (c.charData src).2.rest.length < c.rest.length := by
  obtain ⟨offset, rest⟩ := c
  cases rest with
  | nil => simp [atEnd] at hend
  | cons ch t =>
      simp only [charData]
      split
      · have hch : isTextChar ch = true := by
          simp only [Text.startsWith, Text.after?] at hlt hamp
          simp only [isTextChar, bne_iff_ne, ne_eq, Bool.and_eq_true]
          constructor
          · intro heq
            simp [heq] at hlt
          · intro heq
            simp [heq] at hamp
        have hle := (List.dropWhile_suffix isTextChar (l := t)).length_le
        simp only [past, List.dropWhile_cons, hch, if_true, List.length_cons]
        omega
      · next hblank =>
          have hch : isBlank ch = true := by
            by_cases hb : isBlank ch
            · exact hb
            · simp [hb] at hblank
          have hle := (List.dropWhile_suffix isBlank (l := t)).length_le
          simp only [skipBlanks, past, List.dropWhile_cons, hch, if_true, List.length_cons]
          omega

theorem length_tokenEvent_lt {leaf : Token → Leaf} {c d : Cursor} {ev : Event}
    {r : Except Failure (Token × Cursor)}
    (hr : ∀ tok d', r = .ok (tok, d') → d'.rest.length < c.rest.length)
    (h : tokenEvent leaf r = .ok (ev, d)) : d.rest.length < c.rest.length := by
  simp only [tokenEvent] at h
  split at h
  · simp at h
  · next tok d' =>
      simp only [Except.ok.injEq, Prod.mk.injEq] at h
      rw [← h.2]
      exact hr tok d' rfl

theorem length_startEvent_lt {src : Source} {c d : Cursor} {ev : Event}
    (h : startEvent (c.startTag src) = .ok (ev, d)) : d.rest.length < c.rest.length := by
  simp only [startEvent] at h
  split at h
  · simp at h
  · next hstart =>
      simp only [Except.ok.injEq, Prod.mk.injEq] at h
      rw [← h.2]
      exact length_startTag_lt hstart
  · next hstart =>
      simp only [Except.ok.injEq, Prod.mk.injEq] at h
      rw [← h.2]
      exact length_startTag_lt hstart

theorem length_event_lt {src : Source} {parent : Text} {start : Nat} {c d : Cursor} {ev : Event}
    (h : c.event src parent start = .ok (ev, d)) : d.rest.length < c.rest.length := by
  simp only [event] at h
  split at h
  · simp at h
  · next hend =>
      split at h
      · next c₁ hskip =>
          have hlen := length_skip? hskip
          have hlt := length_endTag_lt h
          omega
      · split at h
        · exact length_tokenEvent_lt (fun _ _ hr => length_token_lt (by simp) hr) h
        · split at h
          · exact length_tokenEvent_lt (fun _ _ hr => length_token_lt (by simp) hr) h
          · split at h
            · exact length_tokenEvent_lt (fun _ _ hr => length_instruction_lt hr) h
            · split at h
              · simp [fail] at h
              · split at h
                · exact length_startEvent_lt h
                · next hangle =>
                    split at h
                    · exact length_reference_lt h
                    · next hamp =>
                        simp only [Except.ok.injEq] at h
                        have hlt := @length_charData_lt src c hend hangle hamp
                        rw [h] at hlt
                        exact hlt

/-! ### Elements -/

/-- Reads on inside the element of `frame`, which stands inside those of `outer`, up to the end tag of
the outermost one. -/
def content (src : Source) (frame : Frame) (outer : List Frame) (c : Cursor) :
    Except Failure (Element × Cursor) :=
  match _h : c.event src frame.name frame.start with
  | .error e => .error e
  | .ok (.leaf l, d) => content src (frame.add (.leaf l)) outer d
  | .ok (.selfClosed tag, d) => content src (frame.add (.element tag [])) outer d
  | .ok (.opening inner, d) => content src inner (frame :: outer) d
  | .ok (.closing endName, d) =>
      let element := frame.close src endName c.offset d.offset
      match outer with
      | [] => .ok (element, d)
      | parent :: outer => content src (parent.add element.toNode) outer d
termination_by c.rest.length
decreasing_by
  all_goals exact length_event_lt _h

theorem length_content_le {src : Source} {frame : Frame} {outer : List Frame} {c d : Cursor}
    {e : Element} (h : content src frame outer c = .ok (e, d)) :
    d.rest.length ≤ c.rest.length := by
  unfold content at h
  split at h
  · simp at h
  · next hev =>
      exact Nat.le_trans (length_content_le h) (Nat.le_of_lt (length_event_lt hev))
  · next hev =>
      exact Nat.le_trans (length_content_le h) (Nat.le_of_lt (length_event_lt hev))
  · next hev =>
      exact Nat.le_trans (length_content_le h) (Nat.le_of_lt (length_event_lt hev))
  · next hev =>
      split at h
      · simp only [Except.ok.injEq, Prod.mk.injEq] at h
        rw [← h.2]
        exact Nat.le_of_lt (length_event_lt hev)
      · exact Nat.le_trans (length_content_le h) (Nat.le_of_lt (length_event_lt hev))
termination_by c.rest.length
decreasing_by
  all_goals exact length_event_lt ‹_›

/-- An element, given a cursor on its angle bracket. -/
def element (src : Source) (c : Cursor) : Except Failure (Element × Cursor) :=
  match c.startTag src with
  | .error e => .error e
  | .ok (.inl tag, d) => .ok (⟨tag, []⟩, d)
  | .ok (.inr frame, d) => content src frame [] d

theorem length_element_lt {src : Source} {c d : Cursor} {e : Element}
    (h : c.element src = .ok (e, d)) : d.rest.length < c.rest.length := by
  simp only [element] at h
  split at h
  · simp at h
  · next hstart =>
      simp only [Except.ok.injEq, Prod.mk.injEq] at h
      rw [← h.2]
      exact length_startTag_lt hstart
  · next hstart =>
      exact Nat.lt_of_le_of_lt (length_content_le h) (length_startTag_lt hstart)

end Cursor

/-! ### Documents -/

/-- The top-level nodes read so far; the miscellaneous ones are in reverse. -/
structure Draft where
  prolog : Option Prolog := none
  doctype : Option Doctype := none
  misc : List Misc := []
  root : Option Element := none
deriving Repr

namespace Draft

def addMisc (draft : Draft) (kind : MiscKind) (tok : Token) : Draft :=
  { draft with misc := ⟨tok.image, kind, tok.span⟩ :: draft.misc }

def toDocument (draft : Draft) (span : Span) : Document :=
  ⟨draft.prolog, draft.doctype, draft.misc.reverse, draft.root, span⟩

end Draft

namespace Cursor

/-- Reads the top-level nodes from a cursor to the end of the text. -/
def topLevel (src : Source) (draft : Draft) (c : Cursor) : Except Failure Draft :=
  let c₁ := c.skipBlanks
  if c₁.atEnd then .ok draft
  else if Text.startsWith commentStart c₁.rest then
    match _h : c₁.comment src with
    | .error e => .error e
    | .ok (tok, d) => topLevel src (draft.addMisc .comment tok) d
  else if Text.startsWith doctypeStart c₁.rest then
    if draft.doctype.isSome || draft.root.isSome then c₁.fail .unexpectedDoctype
    else
      match _h : c₁.doctype src with
      | .error e => .error e
      | .ok (decl, d) => topLevel src { draft with doctype := some decl } d
  else if Text.startsWith ['<', '?'] c₁.rest then
    match _h : c₁.instruction src with
    | .error e => .error e
    | .ok (tok, d) => topLevel src (draft.addMisc .instruction tok) d
  else if Text.startsWith ['<'] c₁.rest then
    if draft.root.isSome then c₁.fail .secondRoot
    else
      match _h : c₁.element src with
      | .error e => .error e
      | .ok (root, d) => topLevel src { draft with root := some root } d
  else c₁.fail .textOutsideRoot
termination_by c.rest.length
decreasing_by
  · exact Nat.lt_of_lt_of_le (length_token_lt (by simp) _h) (length_skipBlanks_le c)
  · exact Nat.lt_of_lt_of_le (length_doctype_lt _h) (length_skipBlanks_le c)
  · exact Nat.lt_of_lt_of_le (length_instruction_lt _h) (length_skipBlanks_le c)
  · exact Nat.lt_of_lt_of_le (length_element_lt _h) (length_skipBlanks_le c)

def prologStart : Text := ['<', '?', 'x', 'm', 'l']

/-- The cursor behind `<?xml` if a blank follows it. -/
def prologStart? (c : Cursor) : Option Cursor :=
  match c.skip? prologStart with
  | some d => if (d.rest.head?.map isBlank).getD false then some d else none
  | none => none

/-- The XML declaration, if the text starts with one. -/
def prolog? (src : Source) (c : Cursor) : Except Failure (Option Prolog × Cursor) :=
  match c.prologStart? with
  | none => .ok (none, c)
  | some c₁ =>
      match c₁.attrs src [(['?', '>'], ())] ⟨.unterminatedDeclaration, c.offset⟩
          .missingBlankInDeclaration with
      | .error e => .error e
      | .ok (attributes, (), d) => .ok (some ⟨attributes, src.span c.offset d.offset⟩, d)

/-- All top-level nodes of a text. -/
def draft (src : Source) (c : Cursor) : Except Failure Draft :=
  match c.prolog? src with
  | .error e => .error e
  | .ok (prolog, d) => topLevel src { prolog } d

end Cursor

namespace Document

/-- Reads a whole text as a document. -/
def read (t : Text) : Except SyntaxError Document :=
  let src := Source.ofText t
  match (Cursor.ofText t).draft src with
  | .error e => .error (.ofFailure src e)
  | .ok draft => .ok (draft.toDocument (src.span 0 t.length))

end Document

end XmlTidy
