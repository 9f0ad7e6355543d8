import XmlTidy.Proofs.Spelling

/-!
Reading tags. Attributes and start tags are read back from their spelling, whatever follows it, and
whatever is read as attributes or as a start tag has a spelling in the text that was read.
-/

namespace XmlTidy

namespace Cursor

open Spelled

/-! ### What is taken from a text -/

/-- What stands between two cursors of a text. -/
structure Took (c : Cursor) (t : Text) (d : Cursor) : Prop where
  rest : c.rest = t ++ d.rest
  offset : d.offset = c.offset + t.length

namespace Took

variable {c d e : Cursor} {s t : Text}

theorem refl (c : Cursor) : c.Took [] c := ⟨rfl, rfl⟩

theorem trans (h : c.Took s d) (h' : d.Took t e) : c.Took (s ++ t) e := by
  constructor
  · rw [h.rest, h'.rest, List.append_assoc]
  · rw [h'.offset, h.offset, List.length_append, Nat.add_assoc]

theorem of_eq (h : c.Took s d) (heq : s = t) : c.Took t d := heq ▸ h

theorem past {rest : Text} (h : c.rest = t ++ rest) : c.Took t (c.past t rest) := ⟨h, rfl⟩

/-- Reading on is noticed by the offset. -/
theorem ne_nil (h : c.Took t d) (hmoved : ¬ d.offset = c.offset) : t ≠ [] := by
  rintro rfl
  exact hmoved h.offset

end Took

theorem skipBlanks_append {b rest : Text} (hb : Blanks b) (hrest : Stops isBlank rest) (n : Nat) :
    skipBlanks ⟨n, b ++ rest⟩ = ⟨n + b.length, rest⟩ := by
  simp only [skipBlanks, past, takeWhile_append_stops hb hrest, dropWhile_append_stops hb hrest]

theorem skipBlanks_of_stops {rest : Text} (hrest : Stops isBlank rest) (n : Nat) :
    skipBlanks ⟨n, rest⟩ = ⟨n, rest⟩ := by
  simpa using skipBlanks_append blanks_nil hrest n

/-- The blanks at a cursor, as a text. -/
theorem exists_skipBlanks (c : Cursor) :
    ∃ b, Blanks b ∧ c.Took b c.skipBlanks ∧ Stops isBlank c.skipBlanks.rest :=
  ⟨c.rest.takeWhile isBlank, blanks_takeWhile _, .past List.takeWhile_append_dropWhile.symm,
    stops_dropWhile isBlank c.rest⟩

theorem skip?_append (n : Nat) (lead rest : Text) :
    skip? ⟨n, lead ++ rest⟩ lead = some ⟨n + lead.length, rest⟩ := by
  simp [skip?, Text.after?_append, past]

theorem skip?_eq_some_iff {c d : Cursor} {lead : Text} : c.skip? lead = some d ↔ c.Took lead d := by
  simp only [skip?, Option.map_eq_some_iff, Text.after?_eq_some_iff]
  constructor
  · rintro ⟨rest, hrest, rfl⟩
    exact .past hrest
  · rintro ⟨hrest, hoffset⟩
    exact ⟨d.rest, hrest, by rw [past, ← hoffset]⟩

theorem name_append {name rest : Text} (hname : Name.IsName name)
    (hrest : Stops Name.isInner rest) (n : Nat) (missing : Fault) :
    Cursor.name ⟨n, name ++ rest⟩ missing = .ok (name, ⟨n + name.length, rest⟩) := by
  simp only [Cursor.name, hname.split?_append hrest, past]

theorem of_name {c d : Cursor} {missing : Fault} {name : Text} (h : c.name missing = .ok (name, d)) :
    Name.IsName name ∧ c.Took name d ∧ Stops Name.isInner d.rest := by
  simp only [Cursor.name] at h
  split at h
  · next image rest hsplit =>
      simp only [Except.ok.injEq, Prod.mk.injEq] at h
      obtain ⟨rfl, rfl⟩ := h
      obtain ⟨hname, hstop⟩ := Name.isName_of_split? hsplit
      exact ⟨hname, .past (Name.eq_append_of_split? hsplit), hstop⟩
  · simp [fail] at h

/-! ### Attributes -/

theorem attr_append {a : Attr} (ha : a.WellFormed) (src : Source) (n : Nat) (rest : Text) :
    attr src ⟨n + a.lead.length, a.name ++ (a.before ++ '=' :: (a.behind ++ a.value)) ++ rest⟩ =
      .ok (a.locate src n, ⟨n + a.text.length, rest⟩) := by
  have hequals : Stops isBlank ('=' :: (a.behind ++ a.value ++ rest)) := stops_cons.2 (by decide)
  have hname : Stops Name.isInner (a.before ++ '=' :: (a.behind ++ a.value ++ rest)) :=
    Name.stops_isInner_of_blanks ha.before_blanks (stops_cons.2 (by decide))
  have hvalue : Stops isBlank (a.value ++ rest) :=
    ha.value.stops fun q hq => Literal.isBlank_of_isQuote hq
  have htext : a.name ++ (a.before ++ '=' :: (a.behind ++ a.value)) ++ rest =
      a.name ++ (a.before ++ '=' :: (a.behind ++ a.value ++ rest)) := by simp
  have hsign : ('=' :: (a.behind ++ a.value ++ rest)) = ['='] ++ (a.behind ++ (a.value ++ rest)) := by
    simp
  rw [htext]
  simp only [attr, name_append ha.name hname, skipBlanks_append ha.before_blanks hequals]
  rw [hsign, skip?_append]
  simp only [skipBlanks_append ha.behind_blanks hvalue, Literal.value?,
    ha.value.split?_append rest, past]
  have hlen : n + a.lead.length + a.name.length + a.before.length + ['='].length + a.behind.length +
      a.value.length = n + a.text.length := by
    simp only [Attr.text, List.length_append, List.length_cons, List.length_nil]
    omega
  simp only [hlen, Attr.locate]

/-- What is read as an attribute behind blanks has a spelling. -/
theorem of_attr {src : Source} {b c d : Cursor} {a : Attribute} {lead : Text} (hlead : Blanks lead)
    (hne : lead ≠ []) (htook : b.Took lead c) (h : c.attr src = .ok (a, d)) :
    ∃ s : Attr, s.WellFormed ∧ b.Took s.text d ∧ a = s.locate src b.offset := by
  revert h
  fun_cases attr src c with
  | case1 => simp
  | case2 => simp [fail]
  | case3 => simp [fail]
  | case4 name c₁ hname c₂ c₃ hsign c₄ value rest hvalue c₅ =>
      obtain ⟨hisName, hname, -⟩ := of_name hname
      obtain ⟨before, hbefore, hblanks, -⟩ := exists_skipBlanks c₁
      obtain ⟨behind, hbehind, hblanks', -⟩ := exists_skipBlanks c₃
      have hliteral : c₄.Took value c₅ := .past (Literal.eq_append_of_split? hvalue)
      have htext : b.Took (Attr.text ⟨lead, name, before, behind, value⟩) c₅ :=
        (htook.trans (hname.trans (hblanks.trans ((skip?_eq_some_iff.1 hsign).trans
          (hblanks'.trans hliteral))))).of_eq (by simp [Attr.text])
      intro h
      obtain ⟨rfl, rfl⟩ := Prod.mk.inj (Except.ok.inj h)
      refine ⟨⟨lead, name, before, behind, value⟩,
        ⟨hlead, hne, hisName, hbefore, hbehind, Literal.isLiteral_of_split? hvalue⟩, htext, ?_⟩
      rw [Attr.locate, ← htext.offset, ← htook.offset]

theorem of_closer? {α : Type} {c d : Cursor} {closers : List (Text × α)} {b : α}
    (h : c.closer? closers = some (b, d)) : ∃ close, (close, b) ∈ closers ∧ c.skip? close = some d := by
  induction closers with
  | nil => simp [closer?] at h
  | cons head tail ih =>
      simp only [closer?] at h
      split at h
      · next d' hskip =>
          simp only [Option.some.injEq, Prod.mk.injEq] at h
          obtain ⟨rfl, rfl⟩ := h
          exact ⟨head.1, by simp, hskip⟩
      · obtain ⟨close, hmem, hskip⟩ := ih h
        exact ⟨close, by simp [hmem], hskip⟩

/-- A closing text among several: it is found where it stands, and none is found where a name starts. -/
structure Closes {α : Type} (closers : List (Text × α)) (close : Text) (b : α) : Prop where
  found : ∀ n rest, closer? ⟨n, close ++ rest⟩ closers = some (b, ⟨n + close.length, rest⟩)
  not_name : ∀ n c s, Name.isStart c = true → closer? ⟨n, c :: s⟩ closers = none
  stops : ∀ rest, Stops isBlank (close ++ rest)

theorem attrs_append {α : Type} {closers : List (Text × α)} {close : Text} {b : α}
    (hclose : Closes closers close b) {as : List Attr} (has : ∀ a ∈ as, a.WellFormed)
    {tail : Text} (htail : Blanks tail) (src : Source) (unterminated : Failure)
    (missingBlank : Fault) (n : Nat) (rest : Text) :
    attrs src closers unterminated missingBlank
        ⟨n, Attr.textAll as ++ (tail ++ (close ++ rest))⟩ =
      .ok (Attr.locateAll src n as, b,
        ⟨n + (Attr.textAll as).length + tail.length + close.length, rest⟩) := by
  induction as generalizing n with
  | nil =>
      rw [attrs]
      simp only [Attr.textAll, List.flatMap_nil, List.nil_append,
        skipBlanks_append htail (hclose.stops rest), hclose.found, Attr.locateAll, List.length_nil,
        Nat.add_zero]
  | cons a as ih =>
      have ha := has a (by simp)
      have hnext := ih (fun a' h => has a' (by simp [h])) (n + a.text.length)
      have htext : Attr.textAll (a :: as) ++ (tail ++ (close ++ rest)) =
          a.lead ++ (a.name ++ (a.before ++ '=' :: (a.behind ++ a.value)) ++
            (Attr.textAll as ++ (tail ++ (close ++ rest)))) := by
        simp [Attr.textAll, Attr.text]
      obtain ⟨c, s, hname, hstart, -⟩ := ha.name
      have hblank : isBlank c = false := by
        cases hb : isBlank c with
        | false => rfl
        | true => exact absurd (Name.isInner_of_isStart hstart) (by simp [Name.isInner_of_isBlank hb])
      have hstops : Stops isBlank (a.name ++ (a.before ++ '=' :: (a.behind ++ a.value)) ++
          (Attr.textAll as ++ (tail ++ (close ++ rest)))) := by
        rw [hname]
        exact stops_cons.2 hblank
      have hnone : closer? ⟨n + a.lead.length, a.name ++ (a.before ++ '=' :: (a.behind ++ a.value)) ++
          (Attr.textAll as ++ (tail ++ (close ++ rest)))⟩ closers = none := by
        rw [hname]
        exact hclose.not_name _ _ _ hstart
      have hend : atEnd ⟨n + a.lead.length, a.name ++ (a.before ++ '=' :: (a.behind ++ a.value)) ++
          (Attr.textAll as ++ (tail ++ (close ++ rest)))⟩ = false := by
        rw [hname]
        rfl
      have hlead : n + a.lead.length ≠ n := by
        have := List.length_pos_iff.2 ha.lead_ne_nil
        omega
      rw [htext, attrs, skipBlanks_append ha.lead_blanks hstops]
      simp only [hnone, hend, Bool.false_eq_true, if_false, if_neg hlead]
      split
      · next e he =>
          rw [attr_append ha] at he
          cases he
      · next a' c₂ he =>
          simp only [attr_append ha, Except.ok.injEq, Prod.mk.injEq] at he
          obtain ⟨rfl, rfl⟩ := he
          rw [hnext]
          simp [Attr.locateAll, Attr.textAll, Nat.add_assoc]

/-- What is read as attributes has a spelling, up to one of the closing texts. -/
theorem of_attrs {α : Type} {src : Source} {closers : List (Text × α)} {unterminated : Failure}
    {missingBlank : Fault} {c d : Cursor} {as : List Attribute} {b : α}
    (h : c.attrs src closers unterminated missingBlank = .ok (as, b, d)) :
    ∃ (ss : List Attr) (tail close : Text), (∀ s ∈ ss, s.WellFormed) ∧ Blanks tail ∧
      (close, b) ∈ closers ∧ c.Took (Attr.textAll ss ++ (tail ++ close)) d ∧
      as = Attr.locateAll src c.offset ss := by
  revert as
  fun_induction attrs src closers unterminated missingBlank c
  case case1 c c₁ b' d' hcloser =>
    rintro as ⟨⟩
    obtain ⟨lead, hlead, hblanks, -⟩ := exists_skipBlanks c
    obtain ⟨close, hmem, hskip⟩ := of_closer? hcloser
    exact ⟨[], lead, close, by simp, hlead, hmem, hblanks.trans (skip?_eq_some_iff.1 hskip), rfl⟩
  case case6 c c₁ _ _ hmoved a c₂ hattr as' b' d' hrest ih =>
    rintro as ⟨⟩
    obtain ⟨lead, hlead, hblanks, -⟩ := exists_skipBlanks c
    obtain ⟨s, hs, htook, rfl⟩ := of_attr hlead (hblanks.ne_nil hmoved) hblanks hattr
    obtain ⟨ss, tail, close, hss, htail, hmem, htook', rfl⟩ := ih hrest
    refine ⟨s :: ss, tail, close, List.forall_mem_cons.2 ⟨hs, hss⟩, htail, hmem, ?_, ?_⟩
    · exact (htook.trans htook').of_eq (by simp [Attr.textAll])
    · rw [Attr.locateAll, htook.offset]
  all_goals simp [fail]

/-! ### Tags -/

/-- How a start tag ends. -/
def tagClosers : List (Text × Bool) := [(['/', '>'], true), (['>'], false)]

theorem closes_slash : Closes tagClosers ['/', '>'] true where
  found n rest := by simp [tagClosers, closer?, skip?, Text.after?, past]
  not_name n c s hc := by
    have h₁ : '/' ≠ c := by
      rintro rfl
      exact absurd hc (by decide)
    have h₂ : '>' ≠ c := by
      rintro rfl
      exact absurd hc (by decide)
    simp [tagClosers, closer?, skip?, Text.after?, h₁, h₂]
  stops rest := stops_cons.2 (by decide)

theorem closes_bracket : Closes tagClosers ['>'] false where
  found n rest := by simp [tagClosers, closer?, skip?, Text.after?, past]
  not_name := closes_slash.not_name
  stops rest := stops_cons.2 (by decide)

theorem stops_isInner_textAll {as : List Attr} (has : ∀ a ∈ as, a.WellFormed) {rest : Text}
    (hrest : Stops Name.isInner rest) : Stops Name.isInner (Attr.textAll as ++ rest) := by
  cases as with
  | nil => exact hrest
  | cons a as =>
      have ha := has a (by simp)
      have htext : Attr.textAll (a :: as) ++ rest = a.lead ++
          (a.name ++ (a.before ++ '=' :: (a.behind ++ a.value)) ++ (Attr.textAll as ++ rest)) := by
        simp [Attr.textAll, Attr.text]
      obtain ⟨c, s, hlead⟩ := List.exists_cons_of_ne_nil ha.lead_ne_nil
      rw [htext, hlead]
      exact stops_cons.2 (Name.isInner_of_isBlank (ha.lead_blanks c (by simp [hlead])))

/-- The attributes of a start tag are read back, and so is how it ends. -/
theorem open_append {tag : Open} (htag : tag.WellFormed) {close : Text} {b : Bool}
    (hclose : Closes tagClosers close b) (hinner : ∀ rest, Stops Name.isInner (close ++ rest))
    (src : Source) (n : Nat) (rest : Text) (missing : Fault) (unterminated : Failure)
    (missingBlank : Fault) :
    Cursor.name ⟨n + 1, (tag.text ++ (close ++ rest)).drop 1⟩ missing =
        .ok (tag.name, ⟨n + 1 + tag.name.length,
          Attr.textAll tag.attributes ++ (tag.tail ++ (close ++ rest))⟩) ∧
      attrs src tagClosers unterminated missingBlank ⟨n + 1 + tag.name.length,
          Attr.textAll tag.attributes ++ (tag.tail ++ (close ++ rest))⟩ =
        .ok (tag.locate src n, b, ⟨n + (tag.text.length + close.length), rest⟩) := by
  constructor
  · have htext : (tag.text ++ (close ++ rest)).drop 1 =
        tag.name ++ (Attr.textAll tag.attributes ++ (tag.tail ++ (close ++ rest))) := by
      simp [Open.text]
    rw [htext]
    exact name_append htag.name (stops_isInner_textAll htag.attributes
      (Name.stops_isInner_of_blanks htag.tail_blanks (hinner rest))) _ _
  · rw [attrs_append hclose htag.attributes htag.tail_blanks]
    have hlen : n + 1 + tag.name.length + (Attr.textAll tag.attributes).length + tag.tail.length +
        close.length = n + (tag.text.length + close.length) := by
      simp only [Open.text, List.length_cons, List.length_append]
      omega
    rw [hlen, Open.locate]

theorem startTag_empty {tag : Open} (htag : tag.WellFormed) (src : Source) (n : Nat) (rest : Text) :
    startTag src ⟨n, tag.text ++ (['/', '>'] ++ rest)⟩ =
      .ok (.inl (tag.emptyTag src n), ⟨n + (tag.text.length + 2), rest⟩) := by
  obtain ⟨hname, hattrs⟩ := open_append htag closes_slash (fun _ => stops_cons.2 (by decide)) src n
    rest .missingElementName ⟨.unterminatedStartTag tag.name, n⟩ .missingBlankBeforeAttribute
  simp only [startTag, past, List.length_cons, List.length_nil, Nat.zero_add] at hname hattrs ⊢
  rw [hname]
  simp only [tagClosers] at hattrs
  simp only [hattrs, Open.emptyTag]

theorem startTag_full {tag : Open} (htag : tag.WellFormed) (src : Source) (n : Nat) (rest : Text) :
    startTag src ⟨n, tag.text ++ (['>'] ++ rest)⟩ =
      .ok (.inr (tag.frame src n), ⟨n + (tag.text.length + 1), rest⟩) := by
  obtain ⟨hname, hattrs⟩ := open_append htag closes_bracket (fun _ => stops_cons.2 (by decide)) src n
    rest .missingElementName ⟨.unterminatedStartTag tag.name, n⟩ .missingBlankBeforeAttribute
  simp only [startTag, past, List.length_cons, List.length_nil, Nat.zero_add] at hname hattrs ⊢
  rw [hname]
  simp only [tagClosers] at hattrs
  simp only [hattrs, Open.frame]

/-- A name and attributes behind an angle bracket have a spelling, up to what closes them. -/
theorem of_open {α : Type} {src : Source} {closers : List (Text × α)} {missing : Fault} {unterminated : Failure}
    {missingBlank : Fault} {c c₁ c₂ d : Cursor} {name : Text} {attributes : List Attribute} {b : α}
    (hangle : c.Took ['<'] c₁) (hname : c₁.name missing = .ok (name, c₂))
    (hattrs : c₂.attrs src closers unterminated missingBlank = .ok (attributes, b, d)) :
    ∃ (tag : Open) (close : Text), tag.WellFormed ∧ tag.name = name ∧ tag.locate src c.offset = attributes ∧
      (close, b) ∈ closers ∧ c.Took (tag.text ++ close) d := by
  obtain ⟨hisName, hname, -⟩ := of_name hname
  obtain ⟨ss, tail, close, hss, htail, hmem, htook, rfl⟩ := of_attrs hattrs
  refine ⟨⟨name, ss, tail⟩, close, ⟨hisName, hss, htail⟩, rfl, ?_, hmem, ?_⟩
  · have hstart := (hangle.trans hname).offset
    rw [List.length_append, ← Nat.add_assoc] at hstart
    rw [Open.locate, hstart]
    rfl
  · exact (hangle.trans (hname.trans htook)).of_eq (by simp [Open.text])

/-- What is read as a start tag has a spelling. -/
theorem of_startTag {src : Source} {c d : Cursor} {opened : Tag ⊕ Frame} {t : Text}
    (hc : c.rest = '<' :: t) (h : c.startTag src = .ok (opened, d)) :
    ∃ tag : Open, tag.WellFormed ∧
      ((c.Took (tag.text ++ ['/', '>']) d ∧ opened = .inl (tag.emptyTag src c.offset)) ∨
        (c.Took (tag.text ++ ['>']) d ∧ opened = .inr (tag.frame src c.offset))) := by
  have hangle : c.Took ['<'] (c.past ['<'] (c.rest.drop 1)) := .past (by rw [hc]; rfl)
  revert h
  fun_cases startTag src c with
  | case1 => simp
  | case2 => simp
  | case3 c₁ name c₂ hname attributes d' hattrs =>
      obtain ⟨tag, close, htag, rfl, rfl, hmem, htook⟩ := of_open hangle hname hattrs
      obtain rfl : close = ['/', '>'] := by simpa using hmem
      rintro ⟨⟩
      refine ⟨tag, htag, .inl ⟨htook, ?_⟩⟩
      rw [Open.emptyTag, htook.offset, List.length_append]
      rfl
  | case4 c₁ name c₂ hname attributes d' hattrs =>
      obtain ⟨tag, close, htag, rfl, rfl, hmem, htook⟩ := of_open hangle hname hattrs
      obtain rfl : close = ['>'] := by simpa using hmem
      rintro ⟨⟩
      refine ⟨tag, htag, .inr ⟨htook, ?_⟩⟩
      rw [Open.frame, htook.offset, List.length_append]
      rfl

theorem endTag_append {name endTail : Text} (hname : Name.IsName name) (hend : Blanks endTail)
    (start n : Nat) (rest : Text) :
    endTag name start ⟨n, name ++ (endTail ++ '>' :: rest)⟩ =
      .ok (.closing name, ⟨n + (name.length + endTail.length + 1), rest⟩) := by
  have hstop : Stops Name.isInner (endTail ++ '>' :: rest) :=
    Name.stops_isInner_of_blanks hend (stops_cons.2 (by decide))
  have hblank : Stops isBlank ('>' :: rest) := stops_cons.2 (by decide)
  simp only [endTag, name_append hname hstop, ne_eq, not_true_eq_false, if_false,
    skipBlanks_append hend hblank]
  have hskip := skip?_append (n + name.length + endTail.length) ['>'] rest
  rw [List.cons_append, List.nil_append] at hskip
  rw [hskip]
  simp only [List.length_cons, List.length_nil, Nat.add_assoc]

theorem of_endTag {expected : Text} {start : Nat} {c d : Cursor} {ev : Event}
    (h : c.endTag expected start = .ok (ev, d)) :
    ∃ endTail, Blanks endTail ∧ c.Took (expected ++ (endTail ++ ['>'])) d ∧ ev = .closing expected := by
  revert h
  fun_cases endTag expected start c with
  | case1 => simp
  | case2 => simp
  | case3 => simp [fail]
  | case4 found c₁ hname hfound c₂ d' hskip =>
      obtain rfl : found = expected := not_not.1 hfound
      obtain ⟨-, hname, -⟩ := of_name hname
      obtain ⟨endTail, hblanks, htook, -⟩ := exists_skipBlanks c₁
      rintro ⟨⟩
      exact ⟨endTail, hblanks, hname.trans (htook.trans (skip?_eq_some_iff.1 hskip)), rfl⟩

end Cursor

end XmlTidy
