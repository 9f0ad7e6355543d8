import XmlTidy.Markup.Cursor

/-!
Reading a document type declaration: a name, an optional external identifier and an optional
internal subset, which is kept as written. The subset ends at the first closing bracket that stands
neither in a quoted literal nor in a comment.
-/

namespace XmlTidy

namespace Cursor

def commentStart : Text := ['<', '!', '-', '-']

def doctypeStart : Text := ['<', '!', 'D', 'O', 'C', 'T', 'Y', 'P', 'E']

inductive ExternalKeyword where
  | systemId
  | publicId
deriving DecidableEq, Repr

def ExternalKeyword.image : ExternalKeyword → Text
  | .systemId => ['S', 'Y', 'S', 'T', 'E', 'M']
  | .publicId => ['P', 'U', 'B', 'L', 'I', 'C']

def externalKeyword? (c : Cursor) : Option (ExternalKeyword × Cursor) :=
  c.closer? [(ExternalKeyword.systemId.image, .systemId), (ExternalKeyword.publicId.image, .publicId)]

def quoted (c : Cursor) (missing : Fault) : Except Failure (Text × Cursor) :=
  match Literal.quoted? c.rest with
  | some (image, rest) => .ok (image, c.past image rest)
  | none => c.fail missing

/-- A literal behind blanks. Without one the cursor stays where it is. -/
def spacedLiteral? (c : Cursor) : Option Text × Cursor :=
  let c₁ := c.skipBlanks
  if c₁.offset = c.offset then (none, c)
  else
    match Literal.quoted? c₁.rest with
    | some (image, rest) => (some image, c₁.past image rest)
    | none => (none, c)

/-- The literals of an external identifier: a system literal, or a public identifier that a system
literal may follow. -/
def externalLiterals (keyword : ExternalKeyword) (c : Cursor) :
    Except Failure (Option Text × Option Text × Cursor) :=
  match keyword with
  | .systemId =>
      match c.quoted .missingSystemLiteral with
      | .error e => .error e
      | .ok (literal, d) => .ok (none, some literal, d)
  | .publicId =>
      match c.quoted .missingPublicIdentifier with
      | .error e => .error e
      | .ok (literal, c₁) =>
          let (systemLiteral, d) := c₁.spacedLiteral?
          .ok (some literal, systemLiteral, d)

def externalId? (src : Source) (c : Cursor) : Except Failure (Option ExternalId × Cursor) :=
  match c.externalKeyword? with
  | none => .ok (none, c)
  | some (keyword, c₁) =>
      let c₂ := c₁.skipBlanks
      if c₂.offset = c₁.offset then c₂.fail (.missingBlankAfterKeyword keyword.image)
      else
        match externalLiterals keyword c₂ with
        | .error e => .error e
        | .ok (publicLiteral, systemLiteral, d) =>
            .ok (some ⟨keyword.image, publicLiteral, systemLiteral, src.span c.offset d.offset⟩, d)

/-- The cursor behind the bracket that closes a subset opened at `start`. -/
def subsetEnd (src : Source) (start : Nat) (c : Cursor) : Except Failure Cursor :=
  match _hc : c.rest with
  | [] => .error ⟨.unterminatedSubset, start⟩
  | ch :: t =>
      if Text.startsWith commentStart c.rest then
        match _h : c.comment src with
        | .error e => .error e
        | .ok (_, d) => subsetEnd src start d
      else if Literal.isQuote ch then
        match _h : Text.through? [ch] t with
        | none => c.fail .unterminatedSubsetLiteral
        | some (image, rest) => subsetEnd src start (c.past (ch :: image) rest)
      else if ch = ']' then .ok (c.past [ch] t)
      else subsetEnd src start (c.past [ch] t)
termination_by c.rest.length
decreasing_by
  · exact length_token_lt (by simp) _h
  · simp only [past, _hc, Text.eq_append_of_through? _h, List.length_cons, List.length_append]
    omega
  · simp [past, _hc]

def subset? (src : Source) (c : Cursor) : Except Failure (Option Text × Cursor) :=
  match c.skip? ['['] with
  | none => .ok (none, c)
  | some c₁ =>
      match subsetEnd src c.offset c₁ with
      | .error e => .error e
      | .ok d => .ok (some (c.rest.take (d.offset - c.offset)), d)

def doctype (src : Source) (c : Cursor) : Except Failure (Doctype × Cursor) :=
  let c₁ := c.past doctypeStart (c.rest.drop doctypeStart.length)
  let c₂ := c₁.skipBlanks
  if c₂.offset = c₁.offset then c₂.fail .missingBlankAfterDoctype
  else
    match c₂.name .missingDoctypeName with
    | .error e => .error e
    | .ok (name, c₃) =>
        match c₃.skipBlanks.externalId? src with
        | .error e => .error e
        | .ok (externalId, c₄) =>
            match c₄.skipBlanks.subset? src with
            | .error e => .error e
            | .ok (internalSubset, c₅) =>
                let c₆ := c₅.skipBlanks
                match c₆.skip? ['>'] with
                | none => c₆.fail .unclosedDoctype
                | some d => .ok (⟨name, externalId, internalSubset, src.span c.offset d.offset⟩, d)

/-! ### Reading leaves less text -/

theorem length_quoted_le {c d : Cursor} {missing : Fault} {image : Text}
    (h : c.quoted missing = .ok (image, d)) : d.rest.length ≤ c.rest.length := by
  simp only [quoted] at h
  split at h
  · next image' rest hquoted =>
      simp only [Except.ok.injEq, Prod.mk.injEq] at h
      have happ := congrArg List.length (Literal.eq_append_of_split? hquoted)
      rw [← h.2]
      simp only [List.length_append, past] at happ ⊢
      omega
  · simp [fail] at h

theorem length_spacedLiteral?_le (c : Cursor) :
    c.spacedLiteral?.2.rest.length ≤ c.rest.length := by
  have hblank := length_skipBlanks_le c
  simp only [spacedLiteral?]
  split
  · exact Nat.le_refl _
  · split
    · next image rest hquoted =>
        have happ := congrArg List.length (Literal.eq_append_of_split? hquoted)
        simp only [List.length_append, past] at happ ⊢
        omega
    · exact Nat.le_refl _

theorem length_externalLiterals_le {keyword : ExternalKeyword} {c d : Cursor}
    {publicLiteral systemLiteral : Option Text}
    (h : externalLiterals keyword c = .ok (publicLiteral, systemLiteral, d)) :
    d.rest.length ≤ c.rest.length := by
  simp only [externalLiterals] at h
  split at h
  · split at h
    · simp at h
    · next literal d' hquoted =>
        simp only [Except.ok.injEq, Prod.mk.injEq] at h
        rw [← h.2.2]
        exact length_quoted_le hquoted
  · split at h
    · simp at h
    · next literal c₁ hquoted =>
        simp only [Except.ok.injEq, Prod.mk.injEq] at h
        rw [← h.2.2]
        exact Nat.le_trans (length_spacedLiteral?_le c₁) (length_quoted_le hquoted)

theorem length_externalId?_le {src : Source} {c d : Cursor} {externalId : Option ExternalId}
    (h : c.externalId? src = .ok (externalId, d)) : d.rest.length ≤ c.rest.length := by
  simp only [externalId?] at h
  split at h
  · simp only [Except.ok.injEq, Prod.mk.injEq] at h
    exact Nat.le_of_eq (congrArg (·.rest.length) h.2.symm)
  · next keyword c₁ hkeyword =>
      have h₁ := length_closer?_le hkeyword
      have h₂ := length_skipBlanks_le c₁
      split at h
      · simp [fail] at h
      · split at h
        · simp at h
        · next hliterals =>
            have h₃ := length_externalLiterals_le hliterals
            simp only [Except.ok.injEq, Prod.mk.injEq] at h
            rw [← h.2]
            omega

theorem length_subsetEnd_le {src : Source} {start : Nat} {c d : Cursor}
    (h : subsetEnd src start c = .ok d) : d.rest.length ≤ c.rest.length := by
  unfold subsetEnd at h
  split at h
  · simp at h
  · next ch t hc =>
      split at h
      · split at h
        · simp at h
        · next tok d' hcomment =>
            have hlt : d'.rest.length < c.rest.length := length_token_lt (by simp) hcomment
            exact Nat.le_trans (length_subsetEnd_le h) (Nat.le_of_lt hlt)
      · split at h
        · split at h
          · simp [fail] at h
          · next image rest hthrough =>
              have hlt : (c.past (ch :: image) rest).rest.length < c.rest.length := by
                simp only [past, hc, Text.eq_append_of_through? hthrough, List.length_cons,
                  List.length_append]
                omega
              exact Nat.le_trans (length_subsetEnd_le h) (Nat.le_of_lt hlt)
        · have hlt : (c.past [ch] t).rest.length < c.rest.length := by simp [past, hc]
          split at h
          · simp only [Except.ok.injEq] at h
            rw [← h]
            exact Nat.le_of_lt hlt
          · exact Nat.le_trans (length_subsetEnd_le h) (Nat.le_of_lt hlt)
termination_by c.rest.length
decreasing_by
  all_goals assumption

theorem length_subset?_le {src : Source} {c d : Cursor} {internalSubset : Option Text}
    (h : c.subset? src = .ok (internalSubset, d)) : d.rest.length ≤ c.rest.length := by
  simp only [subset?] at h
  split at h
  · simp only [Except.ok.injEq, Prod.mk.injEq] at h
    exact Nat.le_of_eq (congrArg (·.rest.length) h.2.symm)
  · next c₁ hskip =>
      split at h
      · simp at h
      · next d' hend =>
          have h₁ := length_skip? hskip
          have h₂ := length_subsetEnd_le hend
          simp only [Except.ok.injEq, Prod.mk.injEq] at h
          rw [← h.2]
          omega

theorem length_doctype_lt {src : Source} {c d : Cursor} {decl : Doctype}
    (h : c.doctype src = .ok (decl, d)) : d.rest.length < c.rest.length := by
  simp only [doctype] at h
  split at h
  · simp [fail] at h
  · split at h
    · simp at h
    · next name c₃ hname =>
        have h₁ := length_name_lt hname
        split at h
        · simp at h
        · next externalId c₄ hexternal =>
            have h₂ := length_externalId?_le hexternal
            split at h
            · simp at h
            · next internalSubset c₅ hsubset =>
                have h₃ := length_subset?_le hsubset
                split at h
                · simp [fail] at h
                · next d' hskip =>
                    have h₄ := length_skip? hskip
                    simp only [Except.ok.injEq, Prod.mk.injEq] at h
                    rw [← h.2]
                    have b₁ := length_skipBlanks_le
                      (c.past doctypeStart (c.rest.drop doctypeStart.length))
                    have b₂ := length_skipBlanks_le c₃
                    have b₃ := length_skipBlanks_le c₄
                    have b₄ := length_skipBlanks_le c₅
                    have b₅ : (c.past doctypeStart (c.rest.drop doctypeStart.length)).rest.length ≤
                        c.rest.length := by simp [past]
                    omega

end Cursor

end XmlTidy
