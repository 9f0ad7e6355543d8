import XmlTidy.Proofs.FailureOffsets
import XmlTidy.Proofs.Formattable
import XmlTidy.Proofs.Lossless

/-!
Positions are exact. The line of an offset is told by the newlines in front of it, and its column by the
characters between it and the last of them; bisecting the table of line starts finds both. Every part of a
document that is read has the positions of its first and its last character, and a text that is refused is
refused at the position of one of its characters.
-/

namespace XmlTidy

/-! ### Lines and columns -/

/-- Where the line of an offset starts: behind the last newline in front of the offset, or with the text. -/
structure Text.LineStart (t : Text) (offset start : Nat) : Prop where
  le : start ≤ offset
  behind_newline : start ≠ 0 → t[start - 1]? = some '\n'
  no_newline : ∀ i, start ≤ i → i < offset → t[i]? ≠ some '\n'

/-- The line and the column of an offset, both counted from one. -/
structure Position.Marks (p : Position) (t : Text) (offset : Nat) : Prop where
  line : p.line = 1 + (t.take offset).count '\n'
  column : ∃ start, t.LineStart offset start ∧ p.column = (offset : Int) - start + 1

namespace Position

variable {t : Text} {n : Nat} {c : Char}

theorem of_succ (hc : t[n]? = some c) : of t (n + 1) = (of t n).next c := by
  rw [of, of, List.take_add_one, hc, List.foldl_append]
  rfl

theorem marks_origin (t : Text) : origin.Marks t 0 := by
  refine ⟨by simp [origin], 0, ⟨Nat.le_refl 0, fun h => absurd rfl h, fun i _ hi => ?_⟩, rfl⟩
  exact absurd hi (Nat.not_lt_zero i)

/-- A newline ends its line, and any other character goes on with it. -/
theorem Marks.next {p : Position} (h : p.Marks t n) (hc : t[n]? = some c) : (p.next c).Marks t (n + 1) := by
  have htake : t.take (n + 1) = t.take n ++ [c] := by rw [List.take_add_one, hc, Option.toList_some]
  obtain ⟨start, hstart, hcolumn⟩ := h.column
  rw [Position.next]
  split
  · next hnewline =>
      subst hnewline
      refine ⟨?_, n + 1, ⟨Nat.le_refl _, fun _ => hc, fun i _ _ => by omega⟩, by simp⟩
      rw [htake, List.count_append, List.count_singleton_self, h.line, Nat.add_assoc]
  · next hother =>
      refine ⟨?_, start, ⟨Nat.le_succ_of_le hstart.le, hstart.behind_newline, fun i hi hlt => ?_⟩, ?_⟩
      · rw [htake, List.count_append, List.count_singleton, if_neg (by simpa using hother), Nat.add_zero, h.line]
      · rcases Nat.lt_succ_iff_lt_or_eq.1 hlt with hlt | rfl
        · exact hstart.no_newline i hi hlt
        · rw [hc]
          exact fun heq => hother (Option.some.inj heq)
      · show p.column + 1 = ((n + 1 : Nat) : Int) - start + 1
        omega

/-- Counting character by character finds every offset of a text. -/
theorem marks_of (h : n ≤ t.length) : (of t n).Marks t n := by
  induction n with
  | zero => exact marks_origin t
  | succ n ih =>
      have hc : t[n]? = some t[n] := List.getElem?_eq_getElem h
      rw [of_succ hc]
      exact (ih (Nat.le_of_succ_le h)).next hc

end Position

/-- The table of line starts finds every offset of a text. -/
theorem Source.marks_position {t : Text} {n : Nat} (h : n ≤ t.length) : ((ofText t).position n).Marks t n := by
  rw [position_ofText h]
  exact Position.marks_of h

/-! ### Spans -/

namespace Span

/-- A span of a text with the positions of its first and its last character. -/
structure Exact (t : Text) (s : Span) : Prop where
  last_lt : s.last < t.length
  start : s.start.Marks t s.first
  stop : s.stop.Marks t s.last.toNat

/-- A span that was made from two offsets of a text. -/
def CutFrom (t : Text) (s : Span) : Prop :=
  ∃ first stop, s = (Source.ofText t).span first stop ∧ stop ≤ t.length

theorem CutFrom.exact {t : Text} {s : Span} (h : s.CutFrom t) (hne : s.first ≤ s.last) : s.Exact t := by
  obtain ⟨first, stop, rfl, hstop⟩ := h
  simp only [Source.span] at hne
  have hmax : max (stop - 1) first = ((stop : Int) - 1).toNat := by omega
  refine ⟨?_, ?_, ?_⟩
  · simp only [Source.span]
    omega
  · show ((Source.ofText t).position first).Marks t first
    exact Source.marks_position (by omega)
  · show ((Source.ofText t).position (max (stop - 1) first)).Marks t _
    rw [hmax]
    exact Source.marks_position (by omega)

end Span

/-- Where a part of a document stands. -/
def Part.span? : Part → Option Span
  | .document d => some d.span
  | .prolog p => some p.span
  | .doctype d => some d.span
  | .externalId e => some e.span
  | .misc m => some m.span
  | .element e => some e.tag.span
  | .content c => some c.span
  | .attr a => some a.span
  | .charData c => some c.span
  | .reference r => some r.span
  | .token t => some t.span
  | .other _ => none

/-- A part whose span, if it has one, was made from two offsets of a text. -/
def Part.CutFrom (t : Text) (part : Part) : Prop :=
  ∀ s ∈ part.span?, s.CutFrom t

theorem Part.cutFrom_of_span {t : Text} {part : Part} {s : Span} (hs : part.span? = some s) (h : s.CutFrom t) :
    part.CutFrom t := by
  intro s' hs'
  rw [hs, Option.mem_some_iff] at hs'
  exact hs' ▸ h

theorem Node.span?_part (node : Node) : node.part.span? = some node.span := by
  cases node with
  | leaf l => cases l <;> rfl
  | element tag children => rfl

/-- An element with its attributes, its content and its children. -/
theorem Element.cutFrom_parts {t : Text} {e : Element} (htag : e.tag.span.CutFrom t)
    (hattributes : ∀ a ∈ e.tag.attributes, a.span.CutFrom t) (hcontent : ∀ s ∈ e.tag.contentSpan, s.CutFrom t)
    (hchildren : ∀ node ∈ e.children, node.span.CutFrom t) : ∀ part ∈ e.parts, part.CutFrom t := by
  simp only [Element.parts, List.forall_mem_append, List.forall_mem_cons, List.forall_mem_map]
  refine ⟨⟨⟨Part.cutFrom_of_span rfl htag, fun a ha => Part.cutFrom_of_span rfl (hattributes a ha)⟩,
    fun content hc => ?_⟩, fun node hnode => Part.cutFrom_of_span node.span?_part (hchildren node hnode)⟩
  rw [Option.mem_toList, Element.content?, Option.map_eq_some_iff] at hc
  obtain ⟨s, hs, rfl⟩ := hc
  exact Part.cutFrom_of_span rfl (hcontent s hs)

namespace Spelled

variable {t : Text} {n : Nat}

theorem cutFrom_locateAll {as : List Attr} (h : n + (Attr.textAll as).length ≤ t.length) :
    ∀ a ∈ Attr.locateAll (.ofText t) n as, a.span.CutFrom t := by
  induction as generalizing n with
  | nil => simp [Attr.locateAll]
  | cons a as ih =>
      rw [Attr.textAll, List.flatMap_cons, List.length_append] at h
      rw [Attr.locateAll, List.forall_mem_cons]
      exact ⟨⟨_, _, rfl, by omega⟩, ih (by rw [Attr.textAll]; omega)⟩

theorem cutFrom_locate_open {o : Open} (h : n + o.text.length ≤ t.length) :
    ∀ a ∈ o.locate (.ofText t) n, a.span.CutFrom t := by
  refine cutFrom_locateAll ?_
  simp only [Open.text, List.length_cons, List.length_append] at h
  omega

theorem cutFrom_locate {item : Item} (h : n + item.text.length ≤ t.length) :
    (item.locate (.ofText t) n).span.CutFrom t :=
  ⟨n, _, span_locate _ n item, h⟩

/-- An element that is spelled in a text. -/
theorem cutFrom_element {item : Item} (h : n + item.text.length ≤ t.length) {e : Element}
    (he : item.locate (.ofText t) n = e.toNode) : ∀ part ∈ e.parts, part.CutFrom t := by
  have hspan := cutFrom_locate h
  obtain ⟨eTag, eChildren⟩ := e
  rw [he] at hspan
  cases item with
  | leaf cls image => cases he
  | empty tag =>
      rw [Item.locate, Element.toNode, Node.element.injEq] at he
      obtain ⟨rfl, rfl⟩ := he
      rw [Item.text, List.length_append] at h
      exact Element.cutFrom_parts hspan (cutFrom_locate_open (by omega)) (by rintro _ ⟨⟩) (by simp)
  | full tag children endTail =>
      rw [Item.locate, Element.toNode, Node.element.injEq] at he
      obtain ⟨rfl, rfl⟩ := he
      rw [Item.text, List.length_append, List.length_cons, List.length_append] at h
      refine Element.cutFrom_parts hspan (cutFrom_locate_open (by omega)) ?_ fun node hnode => ?_
      · rintro _ ⟨⟩
        exact ⟨_, _, rfl, by omega⟩
      · obtain ⟨before, item, after, rfl, rfl⟩ := exists_of_mem_locateAll hnode
        rw [textAll_append, Item.textAll, List.length_append, List.length_append] at h
        exact cutFrom_locate (by omega)

theorem cutFrom_external {decl : TypeDecl} (h : n + decl.text.length ≤ t.length) :
    ∀ e ∈ (decl.locate (.ofText t) n).externalId, e.span.CutFrom t := by
  intro e he
  rw [TypeDecl.locate, Option.mem_map] at he
  obtain ⟨⟨gap, external⟩, hexternal, rfl⟩ := he
  refine ⟨_, _, rfl, ?_⟩
  rw [TypeDecl.text, TypeDecl.externalText, Option.mem_def.1 hexternal] at h
  simp only [List.length_append] at h
  simp only [TypeDecl.externalStart]
  omega

/-- A part of a text ends within it. -/
theorem place_le {pre u post : Text} (h : t = pre ++ (u ++ post)) : pre.length + u.length ≤ t.length := by
  rw [h, List.length_append, List.length_append]
  omega

/-- All parts of the document that a spelling stands for. -/
theorem cutFrom_parts {w : Whole} (hw : w.WellFormed) : ∀ part ∈ w.locate.parts, part.CutFrom w.text := by
  simp only [Document.parts, List.forall_mem_append, List.forall_mem_cons, List.forall_mem_map,
    List.forall_mem_flatMap, Option.mem_toList]
  refine ⟨⟨⟨⟨Part.cutFrom_of_span rfl ⟨0, _, rfl, Nat.le_refl _⟩, fun p hp => ?_⟩, fun decl hdecl => ?_⟩,
    fun m hm => ?_⟩, fun e he => ?_⟩
  · rw [prolog_locate, Option.map_eq_some_iff] at hp
    obtain ⟨d, hd, rfl⟩ := hp
    have hle : 0 + d.text.length ≤ w.text.length := by
      have htext : w.declarationText = d.text := by rw [Whole.declarationText, hd]
      rw [Whole.text, htext, List.length_append]
      omega
    refine ⟨Part.cutFrom_of_span rfl ⟨0, _, rfl, hle⟩, fun a ha => Part.cutFrom_of_span rfl ?_⟩
    refine cutFrom_locateAll ?_ a ha
    simp only [Declaration.text, List.length_append] at hle ⊢
    omega
  · obtain ⟨pre, top, post, -, htext, hnode⟩ := exists_top_of_mem hw
      (show .doctype decl ∈ w.locate.nodesByKind by simp [Document.nodesByKind, hdecl]) (by simp)
    cases top with
    | doctype s =>
        cases hnode
        exact ⟨Part.cutFrom_of_span rfl ⟨_, _, rfl, place_le htext⟩,
          fun e he => Part.cutFrom_of_span rfl (cutFrom_external (place_le htext) e he)⟩
    | misc kind image => cases hnode
    | root item => cases hnode
  · obtain ⟨pre, top, post, -, htext, hnode⟩ := exists_top_of_mem hw
      (show .misc m ∈ w.locate.nodesByKind by simp [Document.nodesByKind, hm]) (by simp)
    cases top with
    | misc kind image =>
        cases hnode
        exact Part.cutFrom_of_span rfl ⟨_, _, rfl, place_le htext⟩
    | doctype s => cases hnode
    | root item => cases hnode
  · obtain ⟨pre, item, post, -, htext, hlocate⟩ := exists_item_of_mem_elements hw he
    exact cutFrom_element (place_le htext) hlocate

end Spelled

/-! ### Reading -/

namespace Document

/-- Positions are exact. Whatever part of a document is not empty has the lines and columns of its first and its last
character; a text that is refused is refused at one of its offsets or at its end, with the line and the column of
that offset, or of the last character if the offset is the end. The table of line starts finds the line and the column
of every offset of the text, and of its end. -/
theorem read_positions (t : Text) :
    (∀ d, read t = .ok d → ∀ part ∈ d.parts, ∀ s ∈ part.span?, s.first ≤ s.last → s.Exact t) ∧
      (∀ e, read t = .error e → e.offset ≤ t.length ∧ e.position.Marks t (min e.offset (t.length - 1))) ∧
      ∀ n ≤ t.length, ((Source.ofText t).position n).Marks t n := by
  refine ⟨fun d hread part hpart s hs hne => ?_, fun e hread => ?_, fun n hn => Source.marks_position hn⟩
  · obtain ⟨w, hw, rfl, rfl⟩ := exists_spelling hread
    exact (Spelled.cutFrom_parts hw part hpart s hs).exact hne
  · obtain ⟨hle, hposition⟩ := offset_le_of_read hread
    rw [hposition]
    exact ⟨hle, Position.marks_of (by omega)⟩

/-- An element in the second line. -/
def secondLineText : Text := "\n <a/>".toList

/-- The element stands in the second column of the second line, and the text is refused there when its end is missing. -/
theorem read_positions_secondLine :
    (∃ d, read secondLineText = .ok d ∧ ∃ e ∈ d.elements, e.tag.span.start = ⟨2, 2⟩ ∧ e.tag.span.Exact secondLineText) ∧
      ∃ e, read (secondLineText.take 4) = .error e ∧ e.offset = 2 ∧ e.position.Marks (secondLineText.take 4) 2 := by
  constructor
  · obtain ⟨d, hread, htest⟩ := @exists_ok_of_any _ _ (read secondLineText)
      (fun d => d.root.any fun e : Element => e.tag.span == ⟨2, 5, ⟨2, 2⟩, ⟨2, 5⟩⟩) (by decide +kernel)
    rw [Option.any_eq_true] at htest
    obtain ⟨e, he, hspan⟩ := htest
    have hmem : e ∈ d.elements := List.mem_of_mem_head? (head?_elements he)
    have hpart : Part.element e ∈ d.parts :=
      List.mem_append_right _ (List.mem_flatMap.2 ⟨e, hmem, by simp [Element.parts]⟩)
    have hspan := eq_of_beq hspan
    exact ⟨d, hread, e, hmem, by rw [hspan], (read_positions _).1 d hread _ hpart _ rfl (by rw [hspan]; decide)⟩
  · have hfails : (read (secondLineText.take 4)).map (fun _ => ()) =
        .error ⟨.unterminatedStartTag ['a'], ⟨2, 2⟩, 2⟩ := by decide +kernel
    cases hread : read (secondLineText.take 4) with
    | ok d => rw [hread] at hfails; cases hfails
    | error e =>
        rw [hread] at hfails
        cases hfails
        exact ⟨_, rfl, rfl, ((read_positions _).2.1 _ hread).2⟩

end Document

end XmlTidy
