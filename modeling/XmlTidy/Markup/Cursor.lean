import XmlTidy.Markup.Fault
import XmlTidy.Markup.Node

/-!
Reading the pieces of markup off the front of a text. A cursor is the offset reached and what is left
of the text there; a reader either fails with a fault or yields a piece and the cursor behind it.
Each reader of a whole piece leaves less text than it was given, which is what makes reading a
document end.
-/

namespace XmlTidy

structure Cursor where
  offset : Nat
  rest : Text
deriving DecidableEq, Repr

namespace Cursor

def ofText (t : Text) : Cursor := ⟨0, t⟩

def atEnd (c : Cursor) : Bool := c.rest.isEmpty

/-- The cursor behind `image` when `rest` is what follows it. -/
def past (c : Cursor) (image rest : Text) : Cursor :=
  ⟨c.offset + image.length, rest⟩

/-- The cursor behind the blanks that stand at a cursor. -/
def skipBlanks (c : Cursor) : Cursor :=
  c.past (c.rest.takeWhile isBlank) (c.rest.dropWhile isBlank)

/-- The cursor behind a fixed text, if that text stands there. -/
def skip? (c : Cursor) (lead : Text) : Option Cursor :=
  (Text.after? lead c.rest).map (c.past lead)

def fail {α : Type} (c : Cursor) (fault : Fault) : Except Failure α :=
  .error ⟨fault, c.offset⟩

theorem length_skipBlanks_le (c : Cursor) : c.skipBlanks.rest.length ≤ c.rest.length := by
  simpa [skipBlanks, past] using (List.dropWhile_suffix isBlank).length_le

theorem length_skip? {c d : Cursor} {lead : Text} (h : c.skip? lead = some d) :
    c.rest.length = lead.length + d.rest.length := by
  simp only [skip?, Option.map_eq_some_iff] at h
  obtain ⟨rest, hrest, rfl⟩ := h
  rw [Text.after?_eq_some_iff.1 hrest]
  simp [past]

/-! ### Names and attributes -/

def name (c : Cursor) (missing : Fault) : Except Failure (Text × Cursor) :=
  match Name.split? c.rest with
  | some (image, rest) => .ok (image, c.past image rest)
  | none => c.fail missing

theorem length_name_lt {c d : Cursor} {missing : Fault} {image : Text}
    (h : c.name missing = .ok (image, d)) : d.rest.length < c.rest.length := by
  simp only [name] at h
  split at h
  · next image' rest hsplit =>
      simp only [Except.ok.injEq, Prod.mk.injEq] at h
      obtain ⟨rfl, rfl⟩ := h
      have happ := Name.eq_append_of_split? hsplit
      have hne := List.length_pos_iff.2 (Name.ne_nil_of_split? hsplit)
      simp [past, happ]
      omega
  · simp [fail] at h

/-- An attribute: a name, an equals sign and a quoted value, with blanks around the sign. -/
def attr (src : Source) (c : Cursor) : Except Failure (Attribute × Cursor) :=
  match c.name .missingAttributeName with
  | .error e => .error e
  | .ok (name, c₁) =>
      let c₂ := c₁.skipBlanks
      match c₂.skip? ['='] with
      | none => c₂.fail .missingEquals
      | some c₃ =>
          let c₄ := c₃.skipBlanks
          match Literal.value? c₄.rest with
          | none => c₄.fail (.missingValue name)
          | some (value, rest) =>
              let c₅ := c₄.past value rest
              .ok (⟨name, value, src.span c.offset c₅.offset⟩, c₅)

theorem length_attr_lt {src : Source} {c d : Cursor} {a : Attribute}
    (h : c.attr src = .ok (a, d)) : d.rest.length < c.rest.length := by
  simp only [attr] at h
  split at h
  · simp at h
  · next name c₁ hname =>
      have h₁ := length_name_lt hname
      have h₂ := length_skipBlanks_le c₁
      split at h
      · simp [fail] at h
      · next c₃ hskip =>
          have h₃ := length_skip? hskip
          have h₄ := length_skipBlanks_le c₃
          split at h
          · simp [fail] at h
          · next value rest hvalue =>
              have h₅ := congrArg List.length (Literal.eq_append_of_split? hvalue)
              simp only [Except.ok.injEq, Prod.mk.injEq] at h
              rw [← h.2]
              simp only [List.length_append, past] at h₅ ⊢
              omega

/-- The first of several closing texts that stands at a cursor, with what it stands for. -/
def closer? {α : Type} (c : Cursor) : List (Text × α) → Option (α × Cursor)
  | [] => none
  | (image, a) :: rest =>
      match c.skip? image with
      | some d => some (a, d)
      | none => closer? c rest

theorem length_closer?_le {α : Type} {c d : Cursor} {closers : List (Text × α)} {a : α}
    (h : c.closer? closers = some (a, d)) : d.rest.length ≤ c.rest.length := by
  induction closers with
  | nil => simp [closer?] at h
  | cons head tail ih =>
      simp only [closer?] at h
      split at h
      · next d' hskip =>
          simp only [Option.some.injEq, Prod.mk.injEq] at h
          have hlen := length_skip? hskip
          rw [← h.2]
          omega
      · exact ih h

/-- Attributes, each behind blanks, up to one of the closing texts. -/
def attrs {α : Type} (src : Source) (closers : List (Text × α)) (unterminated : Failure)
    (missingBlank : Fault) (c : Cursor) : Except Failure (List Attribute × α × Cursor) :=
  let c₁ := c.skipBlanks
  match c₁.closer? closers with
  | some (b, d) => .ok ([], b, d)
  | none =>
      if c₁.atEnd then .error unterminated
      else if c₁.offset = c.offset then c₁.fail missingBlank
      else
        match _h : c₁.attr src with
        | .error e => .error e
        | .ok (a, c₂) =>
            match attrs src closers unterminated missingBlank c₂ with
            | .error e => .error e
            | .ok (as, b, d) => .ok (a :: as, b, d)
termination_by c.rest.length
decreasing_by
  exact Nat.lt_of_lt_of_le (length_attr_lt _h) (length_skipBlanks_le c)

theorem length_attrs_le {α : Type} {src : Source} {closers : List (Text × α)}
    {unterminated : Failure} {missingBlank : Fault} {c d : Cursor} {as : List Attribute} {b : α}
    (h : c.attrs src closers unterminated missingBlank = .ok (as, b, d)) :
    d.rest.length ≤ c.rest.length := by
  unfold attrs at h
  simp only at h
  split at h
  · next b' d' hclose =>
      simp only [Except.ok.injEq, Prod.mk.injEq] at h
      rw [← h.2.2]
      exact Nat.le_trans (length_closer?_le hclose) (length_skipBlanks_le _)
  · split at h
    · simp at h
    · split at h
      · simp [fail] at h
      · split at h
        · simp at h
        · next a c₂ hattr =>
            split at h
            · simp at h
            · next as' b' d' htail =>
                simp only [Except.ok.injEq, Prod.mk.injEq] at h
                have hlt := Nat.lt_of_lt_of_le (length_attr_lt hattr) (length_skipBlanks_le c)
                rw [← h.2.2]
                exact Nat.le_trans (length_attrs_le htail) (Nat.le_of_lt hlt)
termination_by c.rest.length

/-! ### Tokens -/

/-- A token that reaches to the first `stop` at or behind its own start. -/
def token (src : Source) (c : Cursor) (stop : Text) (unterminated : Fault) :
    Except Failure (Token × Cursor) :=
  match Text.through? stop c.rest with
  | none => c.fail unterminated
  | some (image, rest) =>
      let d := c.past image rest
      .ok (⟨image, src.span c.offset d.offset⟩, d)

def comment (src : Source) (c : Cursor) : Except Failure (Token × Cursor) :=
  c.token src ['-', '-', '>'] .unterminatedComment

def cdata (src : Source) (c : Cursor) : Except Failure (Token × Cursor) :=
  c.token src [']', ']', '>'] .unterminatedSection

/-- Whether a name spells `xml` in any case. -/
def isReserved (target : Text) : Bool :=
  target.map Char.toLower == ['x', 'm', 'l']

/-- A processing instruction has a target, which must not spell `xml`. -/
def instruction (src : Source) (c : Cursor) : Except Failure (Token × Cursor) :=
  match c.token src ['?', '>'] .unterminatedInstruction with
  | .error e => .error e
  | .ok (tok, d) =>
      match Name.split? (tok.image.drop 2) with
      | none => .error ⟨.missingTarget, c.offset + 2⟩
      | some (target, _) =>
          if isReserved target then c.fail .misplacedDeclaration else .ok (tok, d)

theorem length_token_lt {src : Source} {c d : Cursor} {stop : Text} {unterminated : Fault}
    {tok : Token} (hstop : stop ≠ []) (h : c.token src stop unterminated = .ok (tok, d)) :
    d.rest.length < c.rest.length := by
  simp only [token] at h
  split at h
  · simp [fail] at h
  · next image rest hthrough =>
      simp only [Except.ok.injEq, Prod.mk.injEq] at h
      have happ := Text.eq_append_of_through? hthrough
      have hne := Text.ne_nil_of_through? hstop hthrough
      have hpos := List.length_pos_iff.2 hne
      rw [← h.2]
      simp only [past, happ, List.length_append]
      omega

theorem length_instruction_lt {src : Source} {c d : Cursor} {tok : Token}
    (h : c.instruction src = .ok (tok, d)) : d.rest.length < c.rest.length := by
  simp only [instruction] at h
  split at h
  · simp at h
  · next tok' d' htoken =>
      split at h
      · simp at h
      · split at h
        · simp [fail] at h
        · simp only [Except.ok.injEq, Prod.mk.injEq] at h
          rw [← h.2]
          exact length_token_lt (by simp) htoken

end Cursor

end XmlTidy
