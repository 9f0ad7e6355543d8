import XmlTidy.Proofs.ReadContent

/-!
Reading documents, in both directions: the text of a well-formed spelling reads as the document that the
spelling stands for, and every text that can be read is the text of such a spelling.
-/

namespace XmlTidy

theorem Spelled.External.Spaced.stops {gap literal : Text} (h : External.Spaced gap literal)
    (rest : Text) : Stops isBlank (literal ++ rest) :=
  h.literal.stops fun _ hq => Literal.isBlank_of_isQuote hq

theorem Spelled.SubsetBody.bracket_mem {body : Text} (h : SubsetBody body) : ']' ∈ body := by
  induction h with
  | close => simp
  | comment _ _ ih => simp [ih]
  | literal _ _ _ ih => simp [ih]
  | other _ _ _ _ ih => simp [ih]

namespace Cursor

open Spelled

variable {src : Source} {c d : Cursor}

/-! ### External identifiers -/

theorem quoted_append {literal : Text} (h : Literal.IsLiteral (fun _ => true) literal) (n : Nat)
    (rest : Text) (missing : Fault) :
    quoted ⟨n, literal ++ rest⟩ missing = .ok (literal, ⟨n + literal.length, rest⟩) := by
  have hsplit : Literal.quoted? (literal ++ rest) = some (literal, rest) := h.split?_append rest
  rw [quoted]
  simp only [hsplit, past]

theorem of_quoted {missing : Fault} {literal : Text} (h : c.quoted missing = .ok (literal, d)) :
    Literal.IsLiteral (fun _ => true) literal ∧ c.Took literal d := by
  simp only [quoted] at h
  split at h
  · next image rest hquoted =>
      simp only [Except.ok.injEq, Prod.mk.injEq] at h
      obtain ⟨rfl, rfl⟩ := h
      exact ⟨Literal.isLiteral_of_split? hquoted, .past (Literal.eq_append_of_split? hquoted)⟩
  · simp [fail] at h

/-- Reading on behind blanks is noticed by the offset. -/
theorem add_length_ne {gap : Text} (hne : gap ≠ []) (n : Nat) : ¬ n + gap.length = n := by
  simpa using hne

theorem spacedLiteral?_append {gap literal : Text} (h : External.Spaced gap literal) (n : Nat)
    (rest : Text) : spacedLiteral? ⟨n, gap ++ (literal ++ rest)⟩ =
      (some literal, ⟨n + gap.length + literal.length, rest⟩) := by
  have hsplit : Literal.quoted? (literal ++ rest) = some (literal, rest) :=
    h.literal.split?_append rest
  rw [spacedLiteral?]
  simp only [skipBlanks_append h.blanks (h.stops rest), add_length_ne h.ne_nil, if_false, hsplit, past]

/-- The brackets that end the part of a document type declaration in front of them. -/
def IsBracket (ch : Char) : Prop := ch = '[' ∨ ch = '>'

theorem IsBracket.stops {ch : Char} (h : IsBracket ch) (t : Text) : Stops isBlank (ch :: t) := by
  rcases h with rfl | rfl <;> exact stops_cons.2 (by decide)

theorem spacedLiteral?_bracket {gap t : Text} {ch : Char} (hgap : Blanks gap) (hch : IsBracket ch)
    (n : Nat) : spacedLiteral? ⟨n, gap ++ ch :: t⟩ = (none, ⟨n, gap ++ ch :: t⟩) := by
  have hsplit : Literal.quoted? (ch :: t) = none := by
    rcases hch with rfl | rfl <;> simp [Literal.quoted?, Literal.split?, Literal.isQuote]
  rw [spacedLiteral?]
  simp only [skipBlanks_append hgap (hch.stops t), hsplit]
  split <;> rfl

theorem of_spacedLiteral? {literal : Option Text} (h : c.spacedLiteral? = (literal, d)) :
    (literal = none ∧ d = c) ∨
      ∃ gap image, External.Spaced gap image ∧ literal = some image ∧ c.Took (gap ++ image) d := by
  obtain ⟨gap, hgap, htook, -⟩ := exists_skipBlanks c
  simp only [spacedLiteral?] at h
  split at h
  · simp only [Prod.mk.injEq] at h
    exact .inl ⟨h.1.symm, h.2.symm⟩
  · next hmoved =>
      split at h
      · next image rest hquoted =>
          simp only [Prod.mk.injEq] at h
          obtain ⟨rfl, rfl⟩ := h
          exact .inr ⟨gap, image, ⟨hgap, htook.ne_nil hmoved, Literal.isLiteral_of_split? hquoted⟩, rfl,
            htook.trans (.past (Literal.eq_append_of_split? hquoted))⟩
      · simp only [Prod.mk.injEq] at h
        exact .inl ⟨h.1.symm, h.2.symm⟩

theorem externalId?_append {e : External} (he : e.WellFormed) {gap t : Text} {ch : Char}
    (hgap : Blanks gap) (hch : IsBracket ch) (n : Nat) :
    externalId? src ⟨n, e.text ++ (gap ++ ch :: t)⟩ =
      .ok (some (e.locate src n), ⟨n + e.text.length, gap ++ ch :: t⟩) := by
  have hkeyword : ∀ rest : Text, externalKeyword? ⟨n, e.keyword.image ++ rest⟩ =
      some (e.keyword, ⟨n + e.keyword.image.length, rest⟩) := by
    intro rest
    cases e <;> simp [External.keyword, externalKeyword?, closer?, skip?, ExternalKeyword.image,
      Text.after?, past]
  rw [External.text, List.append_assoc, externalId?, hkeyword]
  cases e with
  | systemId lead literal =>
      have hspaced : External.Spaced lead literal := he
      simp only [External.literals, List.append_assoc,
        skipBlanks_append hspaced.blanks (hspaced.stops _), add_length_ne hspaced.ne_nil, if_false,
        External.keyword, externalLiterals, quoted_append hspaced.literal]
      simp [External.locate, External.text, External.literals, External.keyword,
        External.publicLiteral, External.systemLiteral, Nat.add_assoc]
  | publicId lead literal system =>
      obtain ⟨hspaced, hsystem⟩ : External.Spaced lead literal ∧
        ∀ s ∈ system, External.Spaced s.1 s.2 := he
      simp only [External.literals, List.append_assoc,
        skipBlanks_append hspaced.blanks (hspaced.stops _), add_length_ne hspaced.ne_nil, if_false,
        External.keyword, externalLiterals, quoted_append hspaced.literal]
      cases system with
      | none =>
          simp only [External.optionText, List.nil_append, spacedLiteral?_bracket hgap hch]
          simp [External.locate, External.text, External.literals, External.keyword,
            External.publicLiteral, External.systemLiteral, External.optionText, Nat.add_assoc]
      | some s =>
          obtain ⟨gap', literal'⟩ := s
          have hs : External.Spaced gap' literal' := hsystem _ rfl
          simp only [External.optionText, List.append_assoc, spacedLiteral?_append hs]
          simp [External.locate, External.text, External.literals, External.keyword,
            External.publicLiteral, External.systemLiteral, External.optionText, Nat.add_assoc]

theorem externalId?_bracket {ch : Char} (hch : IsBracket ch) (t : Text) (n : Nat) :
    externalId? src ⟨n, ch :: t⟩ = .ok (none, ⟨n, ch :: t⟩) := by
  rcases hch with rfl | rfl <;>
    simp [externalId?, externalKeyword?, closer?, skip?, Text.after?, ExternalKeyword.image]

theorem of_externalKeyword? {keyword : ExternalKeyword}
    (h : c.externalKeyword? = some (keyword, d)) : c.Took keyword.image d := by
  obtain ⟨close, hmem, hskip⟩ := of_closer? h
  have hclose : close = keyword.image := by
    simp only [List.mem_cons, Prod.mk.injEq, List.not_mem_nil, or_false] at hmem
    rcases hmem with ⟨rfl, rfl⟩ | ⟨rfl, rfl⟩ <;> rfl
  rw [hclose] at hskip
  exact skip?_eq_some_iff.1 hskip

/-- The literals behind a keyword and its blanks have a spelling. -/
theorem of_externalLiterals {keyword : ExternalKeyword} {b : Cursor} {gap : Text} (hgap : Blanks gap)
    (hne : gap ≠ []) (htook : b.Took gap c) {publicLiteral systemLiteral : Option Text}
    (h : externalLiterals keyword c = .ok (publicLiteral, systemLiteral, d)) :
    ∃ e : External, e.WellFormed ∧ e.keyword = keyword ∧ e.publicLiteral = publicLiteral ∧
      e.systemLiteral = systemLiteral ∧ b.Took e.literals d := by
  revert h
  fun_cases externalLiterals keyword c with
  | case1 => simp
  | case2 literal d' hquoted =>
      obtain ⟨hliteral, htook'⟩ := of_quoted hquoted
      rintro ⟨⟩
      exact ⟨.systemId gap literal, ⟨hgap, hne, hliteral⟩, rfl, rfl, rfl, htook.trans htook'⟩
  | case3 => simp
  | case4 literal c₁ hquoted system d' hsystem =>
      obtain ⟨hliteral, htook'⟩ := of_quoted hquoted
      have hspaced : External.Spaced gap literal := ⟨hgap, hne, hliteral⟩
      rintro ⟨⟩
      obtain ⟨rfl, rfl⟩ | ⟨gap', image, himage, rfl, htook''⟩ := of_spacedLiteral? hsystem
      · exact ⟨.publicId gap literal none, ⟨hspaced, by simp⟩, rfl, rfl, rfl,
          (htook.trans htook').of_eq (by simp [External.literals, External.optionText])⟩
      · exact ⟨.publicId gap literal (some (gap', image)), ⟨hspaced, by simpa using himage⟩, rfl, rfl, rfl,
          htook.trans (htook'.trans htook'')⟩

theorem of_externalId? {externalId : Option ExternalId}
    (h : c.externalId? src = .ok (externalId, d)) :
    (externalId = none ∧ d = c) ∨
      ∃ e : External, e.WellFormed ∧ externalId = some (e.locate src c.offset) ∧ c.Took e.text d := by
  revert h
  fun_cases externalId? src c with
  | case1 =>
      rintro ⟨⟩
      exact .inl ⟨rfl, rfl⟩
  | case2 => simp [fail]
  | case3 => simp
  | case4 keyword c₁ hkeyword c₂ hmoved publicLiteral systemLiteral d' hliterals =>
      obtain ⟨gap, hgap, htook, -⟩ := exists_skipBlanks c₁
      obtain ⟨e, he, rfl, rfl, rfl, htook'⟩ := of_externalLiterals hgap (htook.ne_nil hmoved) htook hliterals
      have htext : c.Took e.text d' := (of_externalKeyword? hkeyword).trans htook'
      rintro ⟨⟩
      refine .inr ⟨e, he, ?_, htext⟩
      rw [External.locate, htext.offset]

/-! ### Internal subsets -/

theorem comment_append {image : Text} (h : LeafClass.Image .comment image) (n : Nat) (rest : Text) :
    comment src ⟨n, image ++ rest⟩ =
      .ok (⟨image, src.span n (n + image.length)⟩, ⟨n + image.length, rest⟩) := by
  rw [comment, token]
  simp only [h.2.append (by simp) rest, past]

section Subset

variable {start : Nat} {ch : Char} {t : Text}

theorem subsetEnd_of_comment {tok : Token} (hstart : Text.startsWith commentStart c.rest = true)
    (h : c.comment src = .ok (tok, d)) : subsetEnd src start c = subsetEnd src start d := by
  obtain ⟨t, ht⟩ := Text.startsWith_iff.1 hstart
  rw [subsetEnd]
  split
  · next hnil => simp [hnil, commentStart] at ht
  · rw [if_pos hstart]
    split <;> simp_all

theorem subsetEnd_of_literal {image rest : Text} (hc : c.rest = ch :: t)
    (hstart : Text.startsWith commentStart c.rest = false) (hq : Literal.isQuote ch = true)
    (h : Text.through? [ch] t = some (image, rest)) :
    subsetEnd src start c = subsetEnd src start (c.past (ch :: image) rest) := by
  rw [subsetEnd]
  split
  · next hnil => simp [hnil] at hc
  · next ch' t' hc' =>
      obtain ⟨rfl, rfl⟩ := List.cons.inj (hc.symm.trans hc')
      rw [if_neg (by simp [hstart]), if_pos hq]
      split <;> simp_all

theorem subsetEnd_of_other (hc : c.rest = ch :: t) (hstart : Text.startsWith commentStart c.rest = false)
    (hq : Literal.isQuote ch = false) (hch : ch ≠ ']') :
    subsetEnd src start c = subsetEnd src start (c.past [ch] t) := by
  rw [subsetEnd]
  split
  · next hnil => simp [hnil] at hc
  · next ch' t' hc' =>
      obtain ⟨rfl, rfl⟩ := List.cons.inj (hc.symm.trans hc')
      rw [if_neg (by simp [hstart]), if_neg (by simp [hq]), if_neg hch]

end Subset

theorem subsetEnd_append {body : Text} (h : SubsetBody body) (start n : Nat) (rest : Text) :
    subsetEnd src start ⟨n, body ++ rest⟩ = .ok ⟨n + body.length, rest⟩ := by
  induction h generalizing n with
  | close =>
      rw [subsetEnd]
      simp [commentStart, Text.startsWith, Text.after?, Literal.isQuote, past]
  | @comment image body himage hbody ih =>
      have hstart := Text.startsWith_append_of (body ++ rest) himage.1
      rw [List.append_assoc, subsetEnd_of_comment hstart (comment_append himage n (body ++ rest)), ih,
        List.length_append, Nat.add_assoc]
  | @literal q inner body hq hinner hbody ih =>
      have hstart : Text.startsWith commentStart (q :: (inner ++ (body ++ rest))) = false := by
        refine Text.startsWith_cons_ne ?_
        rintro rfl
        simp [Literal.isQuote] at hq
      rw [List.cons_append, List.append_assoc,
        subsetEnd_of_literal rfl hstart hq (hinner.append (by simp) (body ++ rest)), past, ih]
      simp only [List.length_cons, List.length_append, Except.ok.injEq, mk.injEq, and_true]
      omega
  | @other ch body hq hch hstart hbody ih =>
      -- the opening of a comment has no bracket, so it would lie within the body
      have hstart' : Text.startsWith commentStart (ch :: (body ++ rest)) = false := by
        by_contra hpos
        rw [Bool.not_eq_false, ← List.cons_append] at hpos
        have := Text.startsWith_of_append hpos (x := ']') (by simp [hbody.bracket_mem]) (by decide)
        rw [hstart] at this
        exact Bool.noConfusion this
      rw [List.cons_append, subsetEnd_of_other rfl hstart' hq hch, past, ih]
      simp only [List.length_cons, List.length_nil, Except.ok.injEq, mk.injEq, and_true]
      omega

theorem of_subsetEnd {start : Nat} (h : subsetEnd src start c = .ok d) :
    ∃ body, SubsetBody body ∧ c.Took body d := by
  revert h
  fun_induction subsetEnd src start c
  case case3 c ch t hc hstart tok c₁ hcomment ih =>
    intro h
    obtain ⟨hends, htook, -⟩ := of_token (by simp) hcomment
    obtain ⟨body, hbody, htook'⟩ := ih h
    rw [htook.rest] at hstart
    exact ⟨tok.image ++ body, .comment ⟨startsWith_token hends hstart (by simp) (by decide), hends⟩ hbody,
      htook.trans htook'⟩
  case case5 c ch t hc hstart hq image rest hthrough ih =>
    intro h
    obtain ⟨body, hbody, htook'⟩ := ih h
    have htook : c.Took (ch :: image) (c.past (ch :: image) rest) :=
      .past (by rw [hc, Text.eq_append_of_through? hthrough]; rfl)
    exact ⟨ch :: (image ++ body), .literal hq (Text.endsAt_of_through? (by simp) hthrough) hbody,
      htook.trans htook'⟩
  case case6 c t hstart hc hq =>
    rintro ⟨⟩
    exact ⟨[']'], .close, .past hc⟩
  case case7 c ch t hc hstart hq hclose ih =>
    intro h
    obtain ⟨body, hbody, htook'⟩ := ih h
    have htook : c.Took (ch :: body) d := Took.trans (.past hc) htook'
    refine ⟨ch :: body, .other (by simpa using hq) hclose ?_ hbody, htook⟩
    by_contra hpos
    rw [Bool.not_eq_false] at hpos
    refine hstart ?_
    rw [htook.rest]
    exact Text.startsWith_append_of d.rest hpos
  all_goals simp [fail]

/-! ### Document type declarations -/

theorem subset?_append {s : Option Text} (hs : ∀ t ∈ s, ∃ body, t = '[' :: body ∧ SubsetBody body)
    {tail rest : Text} (htail : Blanks tail) (n : Nat) :
    subset? src ⟨n, s.getD [] ++ (tail ++ '>' :: rest)⟩ =
      .ok (s, ⟨n + (s.getD []).length, tail ++ '>' :: rest⟩) := by
  cases s with
  | none =>
      have hskip : skip? ⟨n, tail ++ '>' :: rest⟩ ['['] = none := by
        cases tail with
        | nil => simp [skip?, Text.after?]
        | cons b tail =>
            have hb : '[' ≠ b := by
              rintro rfl
              exact absurd (htail '[' (by simp)) (by decide)
            simp [skip?, Text.after?, hb]
      simp [subset?, hskip]
  | some t =>
      obtain ⟨body, rfl, hbody⟩ := hs t rfl
      have hskip : skip? ⟨n, '[' :: body ++ (tail ++ '>' :: rest)⟩ ['['] =
          some ⟨n + 1, body ++ (tail ++ '>' :: rest)⟩ := skip?_append n ['['] _
      rw [subset?, Option.getD_some, hskip]
      simp only [subsetEnd_append hbody]
      have hlen : n + 1 + body.length - n = ('[' :: body).length := by
        simp only [List.length_cons]
        omega
      rw [hlen, List.take_left]
      simp only [List.length_cons, Except.ok.injEq, Prod.mk.injEq, mk.injEq, and_true, true_and]
      omega

theorem of_subset? {s : Option Text} (h : c.subset? src = .ok (s, d)) :
    (∀ t ∈ s, ∃ body, t = '[' :: body ∧ SubsetBody body) ∧ c.Took (s.getD []) d := by
  revert h
  fun_cases subset? src c with
  | case1 =>
      rintro ⟨⟩
      exact ⟨by simp, .refl c⟩
  | case2 => simp
  | case3 c₁ hskip c₂ hend =>
      obtain ⟨body, hbody, htook⟩ := of_subsetEnd hend
      have htext : c.Took ('[' :: body) c₂ := (skip?_eq_some_iff.1 hskip).trans htook
      have htake : c.rest.take (c₂.offset - c.offset) = '[' :: body := by
        rw [htext.offset, Nat.add_sub_cancel_left, htext.rest, List.take_left]
      rw [htake]
      rintro ⟨⟩
      exact ⟨by simpa using hbody, htext⟩

theorem isBracket_subsetText {decl : TypeDecl} (h : decl.WellFormed) (rest : Text) :
    ∃ (gap : Text) (ch : Char) (t : Text), Blanks gap ∧ IsBracket ch ∧
      decl.before ++ (decl.subsetText ++ (decl.tail ++ '>' :: rest)) = gap ++ ch :: t := by
  rw [TypeDecl.subsetText]
  cases hs : decl.subset with
  | none =>
      exact ⟨decl.before ++ decl.tail, '>', rest, h.before_blanks.append h.tail_blanks, .inr rfl,
        by simp⟩
  | some s =>
      obtain ⟨body, rfl, -⟩ := h.subset s hs
      exact ⟨decl.before, '[', body ++ (decl.tail ++ '>' :: rest), h.before_blanks, .inl rfl,
        by simp⟩

/-- Behind the external identifier: blanks, the subset, and blanks up to the closing bracket. -/
theorem subset?_tail {decl : TypeDecl} (h : decl.WellFormed) (src : Source) (n : Nat) (rest : Text) :
    ∃ c : Cursor, subset? src (skipBlanks
        ⟨n, decl.before ++ (decl.subsetText ++ (decl.tail ++ '>' :: rest))⟩) = .ok (decl.subset, c) ∧
      c.skipBlanks = ⟨n + decl.before.length + decl.subsetText.length + decl.tail.length,
        '>' :: rest⟩ := by
  have hclose : Stops isBlank ('>' :: rest) := stops_cons.2 (by decide)
  have hsubset := h.subset
  rw [TypeDecl.subsetText]
  cases hs : decl.subset with
  | none =>
      refine ⟨⟨n + (decl.before ++ decl.tail).length, '>' :: rest⟩, ?_, ?_⟩
      · rw [Option.getD_none, List.nil_append, ← List.append_assoc,
          skipBlanks_append (h.before_blanks.append h.tail_blanks) hclose]
        exact subset?_append (s := none) (by simp) blanks_nil _
      · rw [skipBlanks_of_stops hclose]
        simp [Nat.add_assoc]
  | some s =>
      obtain ⟨body, rfl, hbody⟩ := hsubset s hs
      have hopen : Stops isBlank ('[' :: body ++ (decl.tail ++ '>' :: rest)) :=
        stops_cons.2 (by decide)
      refine ⟨⟨n + decl.before.length + ('[' :: body).length, decl.tail ++ '>' :: rest⟩, ?_, ?_⟩
      · rw [Option.getD_some, skipBlanks_append h.before_blanks hopen]
        exact subset?_append (s := some ('[' :: body))
          (by rintro t ht; cases ht; exact ⟨body, rfl, hbody⟩) h.tail_blanks _
      · rw [skipBlanks_append h.tail_blanks hclose]
        rfl

theorem skipBlanks_idem (c : Cursor) : c.skipBlanks.skipBlanks = c.skipBlanks := by
  obtain ⟨-, -, -, hstops⟩ := exists_skipBlanks c
  exact skipBlanks_of_stops hstops _

theorem stops_isInner_doctype {decl : TypeDecl} (h : decl.WellFormed) (rest : Text) :
    Stops Name.isInner
      (decl.externalText ++ (decl.before ++ (decl.subsetText ++ (decl.tail ++ '>' :: rest)))) := by
  obtain ⟨gap, ch, t, hgap, hch, htext⟩ := isBracket_subsetText h rest
  have hbracket : Stops Name.isInner (ch :: t) := by
    rcases hch with rfl | rfl <;> exact stops_cons.2 (by decide)
  rw [htext, TypeDecl.externalText]
  split
  · rw [List.nil_append]
    exact Name.stops_isInner_of_blanks hgap hbracket
  · next lead e he =>
      obtain ⟨hlead, hne, -⟩ := h.external _ he
      rw [List.append_assoc, stops_append hne]
      obtain ⟨b, s, rfl⟩ := List.exists_cons_of_ne_nil hne
      exact stops_cons.2 (Name.isInner_of_isBlank (hlead b (by simp)))

theorem keyword_stops (e : External) (rest : Text) : Stops isBlank (e.text ++ rest) := by
  cases e <;> exact stops_cons.2 (by decide)

/-- Behind the name: the external identifier, if there is one, up to the blanks that follow it. -/
theorem externalId?_name {decl : TypeDecl} (h : decl.WellFormed) (src : Source) (n : Nat)
    (rest : Text) :
    ∃ c : Cursor, externalId? src (skipBlanks ⟨n, decl.externalText ++
        (decl.before ++ (decl.subsetText ++ (decl.tail ++ '>' :: rest)))⟩) =
        .ok (decl.external.map fun (gap, e) => e.locate src (n + gap.length), c) ∧
      c.skipBlanks = skipBlanks ⟨n + decl.externalText.length,
        decl.before ++ (decl.subsetText ++ (decl.tail ++ '>' :: rest))⟩ := by
  obtain ⟨gap, ch, t, hgap, hch, htext⟩ := isBracket_subsetText h rest
  rw [htext, TypeDecl.externalText]
  cases he : decl.external with
  | none =>
      refine ⟨skipBlanks ⟨n, gap ++ ch :: t⟩, ?_, skipBlanks_idem _⟩
      rw [List.nil_append, skipBlanks_append hgap (hch.stops t), externalId?_bracket hch]
      rfl
  | some part =>
      obtain ⟨lead, e⟩ := part
      obtain ⟨hlead, hne, hwf⟩ := h.external _ he
      refine ⟨⟨n + (lead ++ e.text).length, gap ++ ch :: t⟩, ?_, rfl⟩
      simp only [List.append_assoc]
      rw [skipBlanks_append hlead (keyword_stops e _), externalId?_append hwf hgap hch]
      simp [Nat.add_assoc]

theorem doctype_append {decl : TypeDecl} (h : decl.WellFormed) (src : Source) (n : Nat)
    (rest : Text) :
    doctype src ⟨n, decl.text ++ rest⟩ =
      .ok (decl.locate src n, ⟨n + decl.text.length, rest⟩) := by
  have hdrop : (decl.text ++ rest).drop doctypeStart.length = decl.lead ++ (decl.name ++
      (decl.externalText ++ (decl.before ++ (decl.subsetText ++ (decl.tail ++ '>' :: rest))))) := by
    rw [TypeDecl.text, List.append_assoc, List.drop_left]
    simp
  have hname : Stops isBlank (decl.name ++ (decl.externalText ++ (decl.before ++
      (decl.subsetText ++ (decl.tail ++ '>' :: rest))))) := by
    obtain ⟨ch, s, hcons, hstart, -⟩ := h.name
    rw [hcons]
    refine stops_cons.2 ?_
    by_contra hblank
    rw [Bool.not_eq_false] at hblank
    have := Name.isInner_of_isBlank hblank
    rw [Name.isInner_of_isStart hstart] at this
    exact Bool.noConfusion this
  have hlen : decl.text.length = doctypeStart.length + decl.lead.length + decl.name.length +
      decl.externalText.length + decl.before.length + decl.subsetText.length +
      decl.tail.length + 1 := by
    simp only [TypeDecl.text, List.length_append, List.length_cons, List.length_nil]
    omega
  obtain ⟨c₄, hexternal, hskip₄⟩ := externalId?_name h src
    (n + doctypeStart.length + decl.lead.length + decl.name.length) rest
  obtain ⟨c₅, hsubset, hskip₅⟩ := subset?_tail h src
    (n + doctypeStart.length + decl.lead.length + decl.name.length + decl.externalText.length) rest
  rw [doctype]
  simp only [past, hdrop, skipBlanks_append h.lead_blanks hname, add_length_ne h.lead_ne_nil,
    if_false, name_append h.name (stops_isInner_doctype h rest), hexternal, hskip₄, hsubset, hskip₅]
  have hstop : n + doctypeStart.length + decl.lead.length + decl.name.length +
      decl.externalText.length + decl.before.length + decl.subsetText.length + decl.tail.length + 1 =
      n + decl.text.length := by
    rw [hlen]
    omega
  have hclose := skip?_append (n + doctypeStart.length + decl.lead.length + decl.name.length +
    decl.externalText.length + decl.before.length + decl.subsetText.length + decl.tail.length)
    ['>'] rest
  rw [List.singleton_append, List.length_singleton, hstop] at hclose
  simp only [hclose]
  simp only [TypeDecl.locate, TypeDecl.externalStart, Nat.add_assoc]

/-- Behind the name: an external identifier with blanks in front of it, or else only blanks. Without a
blank a keyword would belong to the name. -/
theorem of_externalPart {externalId : Option ExternalId} (hstops : Stops Name.isInner c.rest)
    (h : c.skipBlanks.externalId? src = .ok (externalId, d)) :
    (externalId = none ∧ ∃ gap, Blanks gap ∧ c.Took gap d) ∨
      ∃ gap e, (Blanks gap ∧ gap ≠ [] ∧ External.WellFormed e) ∧
        externalId = some (e.locate src (c.offset + gap.length)) ∧ c.Took (gap ++ e.text) d := by
  obtain ⟨gap, hgap, htook, -⟩ := exists_skipBlanks c
  obtain ⟨rfl, rfl⟩ | ⟨e, he, rfl, htook'⟩ := of_externalId? h
  · exact .inl ⟨rfl, gap, hgap, htook⟩
  · have hne : gap ≠ [] := by
      rintro rfl
      rw [htook.rest, htook'.rest] at hstops
      cases e <;> exact absurd (stops_cons.1 hstops) (by decide)
    exact .inr ⟨gap, e, ⟨hgap, hne, he⟩, by rw [htook.offset], htook.trans htook'⟩

theorem of_doctype {decl : Doctype} (hc : Text.startsWith doctypeStart c.rest = true)
    (h : c.doctype src = .ok (decl, d)) :
    ∃ s : TypeDecl, s.WellFormed ∧ c.Took s.text d ∧ decl = s.locate src c.offset := by
  obtain ⟨rest, hrest⟩ := Text.startsWith_iff.1 hc
  have hkeyword : c.Took doctypeStart (c.past doctypeStart (c.rest.drop doctypeStart.length)) :=
    .past (by rw [hrest, List.drop_left])
  revert h
  fun_cases doctype src c with
  | case1 => simp [fail]
  | case2 => simp
  | case3 => simp
  | case4 => simp
  | case5 => simp [fail]
  | case6 c₁ c₂ hmoved name c₃ hname externalId c₄ hexternal subset c₅ hsubset c₆ _ hclose =>
      obtain ⟨lead, hlead, htook₁, -⟩ := exists_skipBlanks c₁
      obtain ⟨hisName, htook₂, hstops⟩ := of_name hname
      obtain ⟨before, hbefore, htook₄, -⟩ := exists_skipBlanks c₄
      obtain ⟨hs, htook₅⟩ := of_subset? hsubset
      obtain ⟨tail, htail, htook₆, -⟩ := exists_skipBlanks c₅
      have hne := htook₁.ne_nil hmoved
      have hfront : c.Took (doctypeStart ++ (lead ++ name)) c₃ := hkeyword.trans (htook₁.trans htook₂)
      rintro ⟨⟩
      have hback : c₄.Took (before ++ (subset.getD [] ++ (tail ++ ['>']))) d :=
        htook₄.trans (htook₅.trans (htook₆.trans (skip?_eq_some_iff.1 hclose)))
      obtain ⟨rfl, gap, hgap, htook₃⟩ | ⟨gap, e, he, rfl, htook₃⟩ := of_externalPart hstops hexternal
      · have htext : c.Took (TypeDecl.text ⟨lead, name, none, gap ++ before, subset, tail⟩) d :=
          (hfront.trans (htook₃.trans hback)).of_eq
            (by simp [TypeDecl.text, TypeDecl.externalText, TypeDecl.subsetText])
        refine ⟨_, ⟨hlead, hne, hisName, by simp, hgap.append hbefore, hs, htail⟩, htext, ?_⟩
        rw [htext.offset]
        rfl
      · have htext : c.Took (TypeDecl.text ⟨lead, name, some (gap, e), before, subset, tail⟩) d :=
          (hfront.trans (htook₃.trans hback)).of_eq
            (by simp [TypeDecl.text, TypeDecl.externalText, TypeDecl.subsetText])
        refine ⟨_, ⟨hlead, hne, hisName, by simpa using he, hbefore, hs, htail⟩, htext, ?_⟩
        rw [htext.offset, hfront.offset]
        simp only [TypeDecl.locate, TypeDecl.externalStart, Option.map_some, List.length_append, Nat.add_assoc]

/-! ### The top level -/

/-- Whether a node may be added to a draft. -/
def Admits (draft : Draft) : Top → Prop
  | .misc .. => True
  | .doctype _ => draft.doctype = none ∧ draft.root = none
  | .root _ => draft.root = none

theorem element_head {item : Item} (helement : item.IsElement) (h : item.WellFormed) :
    ∃ ch t, item.text = '<' :: ch :: t ∧ Name.isStart ch = true := by
  cases item with
  | leaf cls image => exact helement.elim
  | empty tag =>
      rw [Item.WellFormed] at h
      obtain ⟨ch, s, hname, hstart, -⟩ := h.name
      exact ⟨ch, _, by rw [Item.text, Open.text, hname]; rfl, hstart⟩
  | full tag children endTail =>
      rw [Item.WellFormed] at h
      obtain ⟨ch, s, hname, hstart, -⟩ := h.1.name
      exact ⟨ch, _, by rw [Item.text, Open.text, hname]; rfl, hstart⟩

theorem angle_of_top {top : Top} (h : top.WellFormed) : ∃ t, top.text = '<' :: t := by
  cases top with
  | misc kind image =>
      cases kind with
      | comment =>
          obtain ⟨t, rfl⟩ := Text.startsWith_iff.1 h.1
          exact ⟨_, rfl⟩
      | instruction =>
          obtain ⟨t, rfl⟩ := Text.startsWith_iff.1 h.1
          exact ⟨_, rfl⟩
  | doctype decl => exact ⟨_, rfl⟩
  | root item =>
      obtain ⟨ch, t, htext, -⟩ := element_head h.1 h.2
      exact ⟨_, htext⟩

theorem topLevel_end {tail : Text} (h : Blanks tail) (src : Source) (draft : Draft) (n : Nat) :
    topLevel src draft ⟨n, tail⟩ = .ok draft := by
  have hskip := skipBlanks_append h (stops_nil isBlank) n
  rw [List.append_nil] at hskip
  rw [topLevel, hskip]
  rfl

section Steps

variable {draft : Draft}

theorem atEnd_of_startsWith {ch : Char} {lead : Text} (h : Text.startsWith (ch :: lead) c.rest = true) :
    c.atEnd = false := by
  obtain ⟨t, ht⟩ := Text.startsWith_iff.1 h
  simp [atEnd, ht]

theorem topLevel_of_comment {tok : Token} (hstart : Text.startsWith commentStart c.skipBlanks.rest = true)
    (h : c.skipBlanks.comment src = .ok (tok, d)) :
    topLevel src draft c = topLevel src (draft.addMisc .comment tok) d := by
  rw [topLevel]
  simp only [atEnd_of_startsWith hstart, hstart, Bool.false_eq_true, if_false, if_true]
  split <;> simp_all

theorem topLevel_of_doctype {decl : Doctype} (hstart : Text.startsWith doctypeStart c.skipBlanks.rest = true)
    (hfree : draft.doctype = none ∧ draft.root = none) (h : c.skipBlanks.doctype src = .ok (decl, d)) :
    topLevel src draft c = topLevel src { draft with doctype := some decl } d := by
  obtain ⟨t, ht⟩ := Text.startsWith_iff.1 hstart
  have hcomment : Text.startsWith commentStart c.skipBlanks.rest = false := by
    rw [ht]
    rfl
  rw [topLevel]
  simp only [atEnd_of_startsWith hstart, hcomment, hstart, hfree, Option.isSome_none, Bool.or_self,
    Bool.false_eq_true, if_false, if_true]
  split <;> simp_all

theorem topLevel_of_instruction {tok : Token} (hstart : Text.startsWith ['<', '?'] c.skipBlanks.rest = true)
    (h : c.skipBlanks.instruction src = .ok (tok, d)) :
    topLevel src draft c = topLevel src (draft.addMisc .instruction tok) d := by
  obtain ⟨t, ht⟩ := Text.startsWith_iff.1 hstart
  have hcomment : Text.startsWith commentStart c.skipBlanks.rest = false := by
    rw [ht]
    rfl
  have hdoctype : Text.startsWith doctypeStart c.skipBlanks.rest = false := by
    rw [ht]
    rfl
  rw [topLevel]
  simp only [atEnd_of_startsWith hstart, hcomment, hdoctype, hstart, Bool.false_eq_true, if_false, if_true]
  split <;> simp_all

theorem topLevel_of_element {ch : Char} {t : Text} (hc : c.skipBlanks.rest = '<' :: ch :: t)
    (hstart : Name.isStart ch = true) (hfree : draft.root = none) {e : Element}
    (h : c.skipBlanks.element src = .ok (e, d)) :
    topLevel src draft c = topLevel src { draft with root := some e } d := by
  have hne : ∀ x : Char, Name.isStart x = false → x ≠ ch := by
    rintro x hx rfl
    rw [hx] at hstart
    exact Bool.noConfusion hstart
  have hcomment : Text.startsWith commentStart c.skipBlanks.rest = false := by
    simp [hc, commentStart, Text.startsWith, Text.after?, hne '!' (by decide)]
  have hdoctype : Text.startsWith doctypeStart c.skipBlanks.rest = false := by
    simp [hc, doctypeStart, Text.startsWith, Text.after?, hne '!' (by decide)]
  have hquestion : Text.startsWith ['<', '?'] c.skipBlanks.rest = false := by
    simp [hc, Text.startsWith, Text.after?, hne '?' (by decide)]
  have hangle : Text.startsWith ['<'] c.skipBlanks.rest = true := by
    simp [hc, Text.startsWith, Text.after?]
  rw [topLevel]
  simp only [atEnd_of_startsWith hangle, hcomment, hdoctype, hquestion, hangle, hfree, Option.isSome_none,
    Bool.false_eq_true, if_false, if_true]
  split <;> simp_all

end Steps

/-- Reading one node adds it to the draft. -/
theorem topLevel_top {top : Top} (h : top.WellFormed) {draft : Draft} (hadmits : Admits draft top)
    {gap : Text} (hgap : Blanks gap) (src : Source) (n : Nat) (rest : Text) :
    topLevel src draft ⟨n, gap ++ (top.text ++ rest)⟩ =
      topLevel src (top.addTo src (n + gap.length) draft)
        ⟨n + gap.length + top.text.length, rest⟩ := by
  obtain ⟨t, ht⟩ := angle_of_top h
  have hskip : skipBlanks ⟨n, gap ++ (top.text ++ rest)⟩ = ⟨n + gap.length, top.text ++ rest⟩ := by
    refine skipBlanks_append hgap ?_ n
    rw [ht]
    exact stops_cons.2 (by decide)
  cases top with
  | misc kind image =>
      cases kind with
      | comment =>
          refine topLevel_of_comment ?_ ?_
          · rw [hskip]
            exact Text.startsWith_append_of rest h.1
          · rw [hskip]
            exact comment_append h _ rest
      | instruction =>
          refine topLevel_of_instruction ?_ ?_
          · rw [hskip]
            exact Text.startsWith_append_of rest h.1
          · rw [hskip]
            exact instruction_append h
  | doctype decl =>
      refine topLevel_of_doctype ?_ hadmits ?_
      · rw [hskip]
        rfl
      · rw [hskip]
        exact doctype_append h src _ rest
  | root item =>
      obtain ⟨helement, hwf⟩ : item.IsElement ∧ item.WellFormed := h
      obtain ⟨ch, s, hs, hstart⟩ := element_head helement hwf
      obtain ⟨e, he, hread⟩ := element_append helement hwf src (n + gap.length) rest
      rw [Top.addTo, ← he]
      have hrest : (skipBlanks ⟨n, gap ++ (item.text ++ rest)⟩).rest = '<' :: ch :: (s ++ rest) := by
        rw [show skipBlanks ⟨n, gap ++ (item.text ++ rest)⟩ = _ from hskip, Top.text, hs]
        rfl
      refine topLevel_of_element hrest hstart hadmits ?_
      rw [show skipBlanks ⟨n, gap ++ (item.text ++ rest)⟩ = _ from hskip]
      exact hread

theorem admits_addTo {draft : Draft} {top next : Top} {src : Source} {n : Nat} (h : top.WellFormed) :
    Admits (top.addTo src n draft) next ↔ Admits draft next ∧ top.Before next := by
  cases top with
  | misc kind image => cases next <;> simp [Admits, Top.addTo, Top.Before, Draft.addMisc]
  | doctype decl => cases next <;> simp [Admits, Top.addTo, Top.Before]
  | root item =>
      obtain ⟨helement, -⟩ : item.IsElement ∧ item.WellFormed := h
      cases item with
      | leaf cls image => exact helement.elim
      | empty tag =>
          cases next <;> simp [Admits, Top.addTo, Top.Before, Item.locate, Node.element?]
      | full tag children endTail =>
          cases next <;> simp [Admits, Top.addTo, Top.Before, Item.locate, Node.element?]

theorem topLevel_append {tops : List (Text × Top)} (h : ∀ top ∈ tops, Blanks top.1 ∧ top.2.WellFormed)
    (horder : (tops.map Prod.snd).Pairwise Top.Before) {draft : Draft}
    (hadmits : ∀ top ∈ tops, Admits draft top.2) {tail : Text} (htail : Blanks tail) (src : Source)
    (n : Nat) :
    topLevel src draft ⟨n, Whole.topsText tops ++ tail⟩ = .ok (Whole.addTops src n draft tops) := by
  induction tops generalizing draft n with
  | nil => exact topLevel_end htail src draft n
  | cons first rest ih =>
      obtain ⟨gap, top⟩ := first
      obtain ⟨hgap, htop⟩ := h (gap, top) (by simp)
      rw [List.map_cons, List.pairwise_cons] at horder
      have hstep := topLevel_top htop (hadmits (gap, top) (by simp)) hgap src n
        (Whole.topsText rest ++ tail)
      have htext : Whole.topsText ((gap, top) :: rest) ++ tail =
          gap ++ (top.text ++ (Whole.topsText rest ++ tail)) := by simp [Whole.topsText]
      rw [htext, hstep, Whole.addTops]
      refine ih (fun next hnext => h next (by simp [hnext])) horder.2 (fun next hnext => ?_) _
      exact (admits_addTo htop).2 ⟨hadmits next (by simp [hnext]),
        horder.1 next.2 (List.mem_map_of_mem hnext)⟩

theorem addMisc_eq_addTo {tok : Token} {n : Nat} (h : tok.span = src.span n (n + tok.image.length))
    {draft : Draft} {kind : MiscKind} :
    draft.addMisc kind tok = (Top.misc kind tok.image).addTo src n draft := by
  rw [Top.addTo, Draft.addMisc, Draft.addMisc, h]

/-- Nodes that are read to the end of a text. -/
structure ReadsTops (src : Source) (draft result : Draft) (c : Cursor) (tops : List (Text × Top)) (tail : Text) :
    Prop where
  wellFormed : ∀ top ∈ tops, Blanks top.1 ∧ top.2.WellFormed
  order : (tops.map Prod.snd).Pairwise Top.Before
  admits : ∀ top ∈ tops, Admits draft top.2
  tail_blanks : Blanks tail
  rest : c.rest = Whole.topsText tops ++ tail
  result_eq : result = Whole.addTops src c.offset draft tops

/-- One node in front of what the rest of the text gives. -/
theorem ReadsTops.cons {draft result : Draft} {tops : List (Text × Top)} {tail : Text} {top : Top}
    (htop : top.WellFormed) (hadmits : Admits draft top) (htook : c.skipBlanks.Took top.text d)
    (h : ReadsTops src (top.addTo src c.skipBlanks.offset draft) result d tops tail) :
    ∃ gap, ReadsTops src draft result c ((gap, top) :: tops) tail := by
  obtain ⟨gap, hgap, hblanks, -⟩ := exists_skipBlanks c
  refine ⟨gap, List.forall_mem_cons.2 ⟨⟨hgap, htop⟩, h.wellFormed⟩, ?_, ?_, h.tail_blanks, ?_, ?_⟩
  · rw [List.map_cons, List.pairwise_cons]
    refine ⟨fun next hnext => ?_, h.order⟩
    obtain ⟨pair, hpair, rfl⟩ := List.mem_map.1 hnext
    exact ((admits_addTo htop).1 (h.admits pair hpair)).2
  · exact List.forall_mem_cons.2 ⟨hadmits, fun next hnext => ((admits_addTo htop).1 (h.admits next hnext)).1⟩
  · rw [(hblanks.trans htook).rest, h.rest]
    simp [Whole.topsText]
  · rw [h.result_eq, Whole.addTops, htook.offset, hblanks.offset]

/-- Whatever is read at the top level is spelled by nodes in an order that is allowed. -/
theorem of_topLevel {draft result : Draft} (h : topLevel src draft c = .ok result) :
    ∃ tops tail, ReadsTops src draft result c tops tail := by
  revert h
  fun_induction topLevel src draft c
  case case1 draft c c₁ hend =>
    rintro ⟨⟩
    obtain ⟨gap, hgap, hblanks, -⟩ := exists_skipBlanks c
    have hnil : c.skipBlanks.rest = [] := by simpa [atEnd] using hend
    refine ⟨[], gap, by simp, by simp, by simp, hgap, ?_, rfl⟩
    rw [hblanks.rest, hnil]
    simp [Whole.topsText]
  case case3 draft c c₁ hend hstart tok d htok ih =>
    intro h
    obtain ⟨hends, htook, hspan⟩ := of_token (by simp) htok
    rw [htook.rest] at hstart
    rw [htook.offset] at hspan
    obtain ⟨tops, tail, htops⟩ := ih h
    rw [addMisc_eq_addTo hspan] at htops
    have himage : Top.WellFormed (.misc .comment tok.image) :=
      ⟨startsWith_token hends hstart (by simp) (by decide), hends⟩
    obtain ⟨gap, hcons⟩ := htops.cons himage trivial htook
    exact ⟨_, tail, hcons⟩
  case case6 draft c c₁ hend hcomment hstart hfree decl d hdecl ih =>
    intro h
    obtain ⟨s, hs, htook, rfl⟩ := of_doctype hstart hdecl
    obtain ⟨tops, tail, htops⟩ := ih h
    have hadmits : Admits draft (.doctype s) := by simpa [Admits] using hfree
    have hwf : Top.WellFormed (.doctype s) := hs
    obtain ⟨gap, hcons⟩ := ReadsTops.cons hwf hadmits htook htops
    exact ⟨_, tail, hcons⟩
  case case8 draft c c₁ hend hcomment hdoctype hstart tok d htok ih =>
    intro h
    obtain ⟨hends, htarget, htook, hspan⟩ := of_instruction htok
    rw [htook.rest] at hstart
    rw [htook.offset] at hspan
    obtain ⟨tops, tail, htops⟩ := ih h
    rw [addMisc_eq_addTo hspan] at htops
    have himage : Top.WellFormed (.misc .instruction tok.image) :=
      ⟨startsWith_token hends hstart (by simp) (by decide), hends, htarget⟩
    obtain ⟨gap, hcons⟩ := htops.cons himage trivial htook
    exact ⟨_, tail, hcons⟩
  case case11 draft c c₁ hend hcomment hdoctype hinstruction hstart hfree root d hroot ih =>
    intro h
    obtain ⟨t, ht⟩ := Text.startsWith_iff.1 hstart
    obtain ⟨item, helement, hitem, htook, hnode⟩ := of_element ht hroot
    obtain ⟨tops, tail, htops⟩ := ih h
    have hadmits : Admits draft (.root item) := by simpa [Admits] using hfree
    have hadd : { draft with root := some root } = Top.addTo src c₁.offset draft (.root item) := by
      rw [Top.addTo, ← hnode]
      rfl
    rw [hadd] at htops
    have hwf : Top.WellFormed (.root item) := ⟨helement, hitem⟩
    obtain ⟨gap, hcons⟩ := htops.cons hwf hadmits htook
    exact ⟨_, tail, hcons⟩
  all_goals simp [fail]

/-! ### The XML declaration -/

def prologClosers : List (Text × Unit) := [(['?', '>'], ())]

theorem closes_question : Closes prologClosers ['?', '>'] () where
  found n rest := by simp [prologClosers, closer?, skip?, Text.after?, past]
  not_name n ch s hch := by
    have hne : '?' ≠ ch := by
      rintro rfl
      exact absurd hch (by decide)
    simp [prologClosers, closer?, skip?, Text.after?, hne]
  stops rest := stops_cons.2 (by decide)

/-- A blank follows the target of a declaration. -/
theorem exists_blank {decl : Declaration} (h : decl.WellFormed) (rest : Text) :
    ∃ b t, Attr.textAll decl.attributes ++ (decl.tail ++ rest) = b :: t ∧ isBlank b = true := by
  cases has : decl.attributes with
  | nil =>
      obtain ⟨b, t, htail⟩ := List.exists_cons_of_ne_nil (h.tail_ne_nil has)
      exact ⟨b, _, by rw [htail]; rfl, h.tail_blanks b (by simp [htail])⟩
  | cons a as =>
      have ha := h.attributes a (by simp [has])
      obtain ⟨b, t, hlead⟩ := List.exists_cons_of_ne_nil ha.lead_ne_nil
      exact ⟨b, _, by rw [Attr.textAll, List.flatMap_cons, Attr.text, hlead]; rfl,
        ha.lead_blanks b (by simp [hlead])⟩

theorem prologStart?_append {decl : Declaration} (h : decl.WellFormed) (n : Nat) (rest : Text) :
    prologStart? ⟨n, decl.text ++ rest⟩ = some ⟨n + prologStart.length,
      Attr.textAll decl.attributes ++ (decl.tail ++ (['?', '>'] ++ rest))⟩ := by
  have htext : decl.text ++ rest = prologStart ++
      (Attr.textAll decl.attributes ++ (decl.tail ++ (['?', '>'] ++ rest))) := by
    simp [Declaration.text]
  obtain ⟨b, t, hcons, hb⟩ := exists_blank h (['?', '>'] ++ rest)
  rw [prologStart?, htext, skip?_append, hcons]
  simp [hb]

theorem of_prologStart? (h : c.prologStart? = some d) :
    c.Took prologStart d ∧ ∃ b t, d.rest = b :: t ∧ isBlank b = true := by
  revert h
  fun_cases prologStart? c with
  | case1 c₁ hskip hblank =>
      rintro ⟨⟩
      refine ⟨skip?_eq_some_iff.1 hskip, ?_⟩
      cases hd : d.rest with
      | nil => simp [hd] at hblank
      | cons b t => exact ⟨b, t, rfl, by simpa [hd] using hblank⟩
  | case2 => simp
  | case3 => simp

theorem prolog?_append {decl : Declaration} (h : decl.WellFormed) (src : Source) (n : Nat)
    (rest : Text) : prolog? src ⟨n, decl.text ++ rest⟩ =
      .ok (some (decl.locate src n), ⟨n + decl.text.length, rest⟩) := by
  have hattrs := attrs_append closes_question h.attributes h.tail_blanks src
    ⟨.unterminatedDeclaration, n⟩ .missingBlankInDeclaration (n + prologStart.length) rest
  have hlen : n + prologStart.length + (Attr.textAll decl.attributes).length + decl.tail.length +
      ['?', '>'].length = n + decl.text.length := by
    simp only [Declaration.text, List.length_append]
    omega
  rw [prologClosers, hlen] at hattrs
  rw [prolog?, prologStart?_append h]
  simp only [hattrs]
  rfl

theorem of_prolog? {prolog : Option Prolog} (h : c.prolog? src = .ok (prolog, d)) :
    (prolog = none ∧ d = c) ∨
      ∃ decl : Declaration, decl.WellFormed ∧ prolog = some (decl.locate src c.offset) ∧ c.Took decl.text d := by
  revert h
  fun_cases prolog? src c with
  | case1 =>
      rintro ⟨⟩
      exact .inl ⟨rfl, rfl⟩
  | case2 => simp
  | case3 c₁ hstart attributes d' hattrs =>
      obtain ⟨htarget, b, t, hcons, hb⟩ := of_prologStart? hstart
      obtain ⟨ss, tail, close, hss, htail, hclose, htook, rfl⟩ := of_attrs hattrs
      obtain rfl : close = ['?', '>'] := by simpa using hclose
      have htext : c.Took (Declaration.mk ss tail).text d' := htarget.trans htook
      rintro ⟨⟩
      refine .inr ⟨⟨ss, tail⟩, ⟨hss, htail, ?_⟩, ?_, htext⟩
      · -- with neither attributes nor blanks, `?` would follow the target
        rintro (rfl : ss = []) (rfl : tail = [])
        rw [htook.rest] at hcons
        obtain rfl : '?' = b := (List.cons.inj hcons).1
        exact absurd hb (by decide)
      · rw [Declaration.locate, htext.offset, htarget.offset]

/-- The target of an instruction is read off whatever follows the instruction. -/
theorem split?_instruction {image : Text} (h : LeafClass.Image .instruction image) (rest : Text) :
    ∃ target r, Name.split? ((image ++ rest).drop 2) = some (target, r) ∧ isReserved target = false := by
  obtain ⟨hlead, hend, target, ⟨hname, s, happ, hstops⟩, hreserved⟩ := h
  obtain ⟨body, rfl⟩ := Text.startsWith_iff.1 hlead
  obtain ⟨u, hu⟩ := hend.suffix
  have hbody : ['<', '?'] ++ body = '<' :: '?' :: body := rfl
  simp only [hbody, List.drop_succ_cons, List.drop_zero, List.cons_append] at happ ⊢
  have hne : s ≠ [] := by
    rintro rfl
    rw [List.append_nil] at happ
    -- the name cannot reach to the closing bracket
    have hlast : ('<' :: '?' :: body).getLast? = some '>' := by
      rw [← hbody, hu]
      simp
    have hmem : '>' ∈ body := by
      cases body with
      | nil => simp at hlast
      | cons x xs =>
          simp only [List.getLast?_cons_cons] at hlast
          exact List.mem_of_getLast? hlast
    rw [happ] at hmem
    exact hname.not_mem (by decide) hmem
  refine ⟨target, s ++ rest, ?_, hreserved⟩
  rw [happ, List.append_assoc]
  exact hname.split?_append ((stops_append hne).2 hstops)

theorem isName_xml : Name.IsName ['x', 'm', 'l'] :=
  ⟨'x', ['m', 'l'], rfl, by decide, List.all_eq_true.1 rfl⟩

/-- No node of the top level starts with the target of a declaration and the end of a name. -/
theorem top_ne_prologStart {top : Top} (h : top.WellFormed) {b : Char} (hb : Name.isInner b = false)
    (rest t : Text) : top.text ++ rest ≠ prologStart ++ b :: t := by
  intro heq
  cases top with
  | misc kind image =>
      cases kind with
      | comment =>
          obtain ⟨s, hs⟩ := Text.startsWith_iff.1 h.1
          rw [Top.text, hs] at heq
          cases heq
      | instruction =>
          obtain ⟨target, r, hr, hreserved⟩ := split?_instruction h rest
          have hdrop : (image ++ rest).drop 2 = ['x', 'm', 'l'] ++ b :: t := congrArg (List.drop 2) heq
          rw [hdrop, isName_xml.split?_append (stops_cons.2 hb)] at hr
          cases hr
          exact absurd hreserved (by decide)
  | doctype decl => cases heq
  | root item =>
      obtain ⟨ch, s, hs, hstart⟩ := element_head h.1 h.2
      rw [Top.text, hs] at heq
      obtain rfl : ch = '?' := (List.cons.inj (List.cons.inj heq).2).1
      exact absurd hstart (by decide)

theorem topsText_ne_prologStart {tops : List (Text × Top)}
    (h : ∀ top ∈ tops, Blanks top.1 ∧ top.2.WellFormed) {tail : Text} (htail : Blanks tail) {b : Char}
    (hb : Name.isInner b = false) (t : Text) : Whole.topsText tops ++ tail ≠ prologStart ++ b :: t := by
  have hblank : ∀ {x : Char} {s : Text}, isBlank x = true → x :: s ≠ prologStart ++ b :: t := by
    rintro x s hx ⟨⟩
    exact absurd hx (by decide)
  cases tops with
  | nil =>
      cases tail with
      | nil => simp [Whole.topsText, prologStart]
      | cons x s => exact hblank (htail x (by simp))
  | cons first rest =>
      obtain ⟨gap, top⟩ := first
      obtain ⟨hgap, htop⟩ := h (gap, top) (by simp)
      have htext : Whole.topsText ((gap, top) :: rest) ++ tail =
          gap ++ (top.text ++ (Whole.topsText rest ++ tail)) := by simp [Whole.topsText]
      rw [htext]
      cases gap with
      | nil => exact top_ne_prologStart htop hb _ t
      | cons x s => exact hblank (hgap x (by simp))

theorem prologStart?_tops {tops : List (Text × Top)}
    (h : ∀ top ∈ tops, Blanks top.1 ∧ top.2.WellFormed) {tail : Text} (htail : Blanks tail)
    (n : Nat) : prologStart? ⟨n, Whole.topsText tops ++ tail⟩ = none := by
  rw [Option.eq_none_iff_forall_ne_some]
  intro d hd
  obtain ⟨htook, b, t, hcons, hb⟩ := of_prologStart? hd
  have htext := htook.rest
  rw [hcons] at htext
  exact topsText_ne_prologStart h htail (Name.isInner_of_isBlank hb) t htext

/-- A text cannot start with a declaration that has neither attributes nor a blank. -/
theorem text_ne_bare {w : Whole} (h : w.WellFormed) (rest : Text) : w.text ≠ prologStart ++ '?' :: rest := by
  obtain ⟨declaration, tops, tail⟩ := w
  cases declaration with
  | none => exact topsText_ne_prologStart h.tops h.tail_blanks (by decide) rest
  | some decl =>
      intro heq
      obtain ⟨b, t, hcons, hb⟩ := exists_blank (h.declaration decl rfl)
        (['?', '>'] ++ (Whole.topsText tops ++ tail))
      have htext : Whole.text ⟨some decl, tops, tail⟩ = prologStart ++ b :: t := by
        rw [← hcons]
        simp [Whole.text, Whole.declarationText, Declaration.text]
      rw [htext, List.append_cancel_left_eq] at heq
      cases heq
      exact absurd hb (by decide)

end Cursor

/-! ### Documents -/

open Spelled

theorem draft_text {w : Whole} (h : w.WellFormed) (src : Source) :
    (Cursor.ofText w.text).draft src = .ok (w.draft src) := by
  have hprolog : ∀ top : Top, Cursor.Admits { prolog := w.declaration.map (·.locate src 0) } top := by
    intro top
    cases top <;> simp [Cursor.Admits]
  have htops := Cursor.topLevel_append h.tops h.order (fun top _ => hprolog top.2) h.tail_blanks src
    w.declarationText.length
  rw [Cursor.draft, Cursor.ofText, Whole.text, Whole.draft]
  cases hd : w.declaration with
  | none =>
      have hnone : w.declarationText = [] := by rw [Whole.declarationText, hd]
      simp only [hnone, hd, List.nil_append, List.length_nil, Option.map_none] at htops ⊢
      rw [Cursor.prolog?, Cursor.prologStart?_tops h.tops h.tail_blanks]
      exact htops
  | some decl =>
      have hsome : w.declarationText = decl.text := by rw [Whole.declarationText, hd]
      simp only [hsome, hd, Option.map_some] at htops ⊢
      rw [Cursor.prolog?_append (h.declaration decl hd), Nat.zero_add]
      exact htops

/-- The text of a well-formed spelling reads as the document it stands for. -/
theorem read_text {w : Whole} (h : w.WellFormed) : Document.read w.text = .ok w.locate := by
  rw [Document.read]
  simp only [draft_text h]
  rfl

/-- Every text that can be read is spelled in a well-formed way. -/
theorem exists_spelling {t : Text} {d : Document} (h : Document.read t = .ok d) :
    ∃ w : Whole, w.WellFormed ∧ t = w.text ∧ d = w.locate := by
  simp only [Document.read] at h
  split at h
  · simp at h
  · next draft hdraft =>
      simp only [Except.ok.injEq] at h
      subst h
      simp only [Cursor.draft] at hdraft
      split at hdraft
      · simp at hdraft
      · next prolog c hprolog =>
          obtain ⟨tops, tail, htops⟩ := Cursor.of_topLevel hdraft
          obtain ⟨rfl, rfl⟩ | ⟨decl, hdecl, rfl, htook⟩ := Cursor.of_prolog? hprolog
          · have htext : t = (Whole.mk none tops tail).text := htops.rest
            refine ⟨⟨none, tops, tail⟩, ⟨by simp, htops.wellFormed, htops.order, htops.tail_blanks⟩, htext, ?_⟩
            rw [Whole.locate, ← htext, htops.result_eq]
            rfl
          · have htext : t = (Whole.mk (some decl) tops tail).text := by
              rw [show t = decl.text ++ c.rest from htook.rest, htops.rest]
              rfl
            refine ⟨⟨some decl, tops, tail⟩,
              ⟨by simpa using hdecl, htops.wellFormed, htops.order, htops.tail_blanks⟩, htext, ?_⟩
            rw [Whole.locate, ← htext, Whole.draft, htops.result_eq, htook.offset]
            simp [Whole.declarationText, Cursor.ofText]

/-- What is read from a text can be tested. -/
theorem exists_ok_of_any {ε α : Type} {e : Except ε α} {p : α → Bool} (h : e.toOption.any p = true) :
    ∃ a, e = .ok a ∧ p a = true := by
  cases e with
  | error e => cases h
  | ok a => exact ⟨a, rfl, h⟩

end XmlTidy
