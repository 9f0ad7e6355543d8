import XmlTidy.Proofs.CommentDelimiters

/-!
What may stand in an internal subset. The scan for the closing bracket steps over comments and over quoted literals,
whatever they hold, and over all other characters one by one. So blanks, references to parameter entities,
comments and markup declarations can be put together in any order, and the subset still ends at its own bracket. Processing
instructions are not told apart from the text around them: a quote in one of them opens a literal. They are
stepped over if their own quotes and brackets allow it.
-/

namespace XmlTidy

open Cursor Spelled

namespace Subset

/-! ### What is stepped over -/

/-- A text that the scan for the closing bracket steps over without finding it. -/
inductive SteppedOver : Text → Prop where
  | nil : SteppedOver []
  | comment {image rest : Text} (himage : LeafClass.Image .comment image) (hrest : SteppedOver rest) :
      SteppedOver (image ++ rest)
  | literal {q : Char} {inner rest : Text} (hq : Literal.isQuote q = true) (hinner : Text.EndsAt [q] inner)
      (hrest : SteppedOver rest) : SteppedOver (q :: (inner ++ rest))
  | other {c : Char} {rest : Text} (hq : Literal.isQuote c = false) (hc : c ≠ ']')
      (hstart : Text.startsWith commentStart (c :: rest) = false) (hrest : SteppedOver rest) : SteppedOver (c :: rest)

/-- Two texts that make up the opening of a comment where they meet. -/
def Straddles (s t : Text) : Prop :=
  ∃ a b, a ≠ [] ∧ b ≠ [] ∧ commentStart = a ++ b ∧ a <:+ s ∧ b <+: t

variable {s t u : Text}

theorem Straddles.append_left (h : Straddles s t) (u : Text) : Straddles (u ++ s) t := by
  obtain ⟨a, b, ha, hb, hopen, hsuffix, hstarts⟩ := h
  exact ⟨a, b, ha, hb, hopen, hsuffix.trans (List.suffix_append u s), hstarts⟩

theorem not_straddles_nil (t : Text) : ¬ Straddles [] t := by
  rintro ⟨a, b, ha, -, -, hsuffix, -⟩
  exact ha (List.suffix_nil.1 hsuffix)

/-- Texts do not straddle at a character that is no part of the opening of a comment. -/
theorem not_straddles_of_last {x : Char} (hx : x ∉ commentStart) : ¬ Straddles (s ++ [x]) t := by
  rintro ⟨a, b, ha, -, hopen, ⟨r, hr⟩, -⟩
  have hlast := congrArg List.getLast? hr
  rw [List.getLast?_append_of_ne_nil _ ha, List.getLast?_concat] at hlast
  exact hx (hopen ▸ List.mem_append_left b (List.mem_of_getLast? hlast))

theorem not_straddles_of_head {x : Char} (hx : x ∉ commentStart) : ¬ Straddles s (x :: t) := by
  rintro ⟨a, b, -, hb, hopen, -, ⟨r, hr⟩⟩
  obtain ⟨y, b, rfl⟩ := List.exists_cons_of_ne_nil hb
  obtain rfl : y = x := (List.cons.inj hr).1
  exact hx (by rw [hopen]; simp)

theorem startsWith_append_eq_false {c : Char} (h : Text.startsWith commentStart (c :: s) = false)
    (hapart : ¬ Straddles (c :: s) t) : Text.startsWith commentStart (c :: (s ++ t)) = false := by
  by_contra hpos
  rw [Bool.not_eq_false, Text.startsWith_iff] at hpos
  obtain ⟨u, hu⟩ := hpos
  have hnot : ∀ r, c :: s ≠ commentStart ++ r := by
    intro r hr
    rw [Text.startsWith_iff.2 ⟨r, hr⟩] at h
    cases h
  rw [← List.cons_append] at hu
  rcases List.append_eq_append_iff.1 hu with ⟨b, hb, ht⟩ | ⟨b, hb, -⟩
  · rcases b with _ | ⟨x, b⟩
    · exact hnot [] (by simpa using hb.symm)
    · exact hapart ⟨c :: s, x :: b, by simp, by simp, hb, List.suffix_refl _, u, ht.symm⟩
  · exact hnot b hb

theorem SteppedOver.append (hs : SteppedOver s) (ht : SteppedOver t) (hapart : ¬ Straddles s t) :
    SteppedOver (s ++ t) := by
  induction hs with
  | nil => exact ht
  | @comment image rest himage hrest ih =>
      rw [List.append_assoc]
      exact .comment himage (ih fun h => hapart (h.append_left image))
  | @literal q inner rest hq hinner hrest ih =>
      rw [List.cons_append, List.append_assoc]
      refine .literal hq hinner (ih fun h => hapart ?_)
      exact h.append_left (q :: inner)
  | @other c rest hq hc hstart hrest ih =>
      exact .other hq hc (startsWith_append_eq_false hstart hapart) (ih fun h => hapart (h.append_left [c]))

/-- A text that is stepped over, followed by a closing bracket, makes up a subset. -/
theorem SteppedOver.subsetBody (h : SteppedOver s) : SubsetBody (s ++ [']']) := by
  induction h with
  | nil => exact .close
  | @comment image rest himage hrest ih =>
      rw [List.append_assoc]
      exact .comment himage ih
  | @literal q inner rest hq hinner hrest ih =>
      rw [List.cons_append, List.append_assoc]
      exact .literal hq hinner ih
  | @other c rest hq hc hstart hrest ih =>
      exact .other hq hc (startsWith_append_eq_false hstart (not_straddles_of_head (by decide))) ih

/-- What makes up a subset is stepped over, up to the closing bracket. -/
theorem exists_steppedOver {body : Text} (h : SubsetBody body) : ∃ t, body = t ++ [']'] ∧ SteppedOver t := by
  induction h with
  | close => exact ⟨[], rfl, .nil⟩
  | @comment image body himage hbody ih =>
      obtain ⟨t, rfl, ht⟩ := ih
      exact ⟨image ++ t, by simp, .comment himage ht⟩
  | @literal q inner body hq hinner hbody ih =>
      obtain ⟨t, rfl, ht⟩ := ih
      exact ⟨q :: (inner ++ t), by simp, .literal hq hinner ht⟩
  | @other c body hq hc hstart hbody ih =>
      obtain ⟨t, rfl, ht⟩ := ih
      refine ⟨c :: t, rfl, .other hq hc ?_ ht⟩
      by_contra hpos
      rw [Bool.not_eq_false] at hpos
      have hmore := Text.startsWith_append_of [']'] hpos
      rw [List.cons_append, hstart] at hmore
      cases hmore

theorem subsetBody_iff : SubsetBody (t ++ [']']) ↔ SteppedOver t := by
  refine ⟨fun h => ?_, SteppedOver.subsetBody⟩
  obtain ⟨s, hs, hstepped⟩ := exists_steppedOver h
  rwa [List.append_inj_left' hs rfl]

/-! ### Parts -/

/-- A text without quotes and closing brackets that opens no comment. -/
structure Plain (t : Text) : Prop where
  chars : t.all (fun c => ! Literal.isQuote c && c != ']') = true
  no_comment : ¬ commentStart <:+: t

theorem Plain.tail {c : Char} (h : Plain (c :: t)) : Plain t where
  chars := (Bool.and_eq_true_iff.1 (List.all_cons ▸ h.chars)).2
  no_comment hholds := h.no_comment (hholds.trans (List.suffix_cons c t).isInfix)

theorem Plain.steppedOver (h : Plain t) : SteppedOver t := by
  induction t with
  | nil => exact .nil
  | cons c t ih =>
      have hc := h.chars
      simp only [List.all_cons, Bool.and_eq_true, Bool.not_eq_true', bne_iff_ne, ne_eq] at hc
      refine .other hc.1.1 hc.1.2 ?_ (ih h.tail)
      by_contra hpos
      rw [Bool.not_eq_false, Text.startsWith_iff] at hpos
      obtain ⟨u, hu⟩ := hpos
      exact h.no_comment ⟨[], u, hu.symm⟩

/-- Without angle brackets no comment is opened. -/
theorem plain_of_safe (h : ∀ c ∈ t, Literal.isQuote c = false ∧ c ≠ ']' ∧ c ≠ '<') : Plain t where
  chars := List.all_eq_true.2 fun c hc => by simp [h c hc]
  no_comment hholds := (h '<' (hholds.subset (by decide))).2.2 rfl

/-- A literal with its quotes, and the text behind it. -/
structure Quoted where
  quote : Char
  inner : Text
  behind : Text
deriving DecidableEq, Repr

namespace Quoted

def text (l : Quoted) : Text := l.quote :: (l.inner ++ l.quote :: l.behind)

/-- The literal may hold anything but its own quote. -/
structure WellFormed (l : Quoted) : Prop where
  isQuote : Literal.isQuote l.quote = true
  inner : l.quote ∉ l.inner
  behind : Plain l.behind

theorem endsAt_quote {q : Char} {inner : Text} (h : q ∉ inner) : Text.EndsAt [q] (inner ++ [q]) := by
  refine Text.endsAt_append (by simp) fun hholds => h ?_
  exact hholds.subset (List.mem_singleton.2 rfl)

theorem not_mem_commentStart {q : Char} (h : Literal.isQuote q = true) : q ∉ commentStart := by
  simp only [Literal.isQuote, Bool.or_eq_true, beq_iff_eq] at h
  rcases h with rfl | rfl <;> decide

theorem WellFormed.steppedOver {l : Quoted} (h : l.WellFormed) : SteppedOver l.text := by
  have hliteral := SteppedOver.literal h.isQuote (endsAt_quote h.inner) h.behind.steppedOver
  rwa [List.append_assoc] at hliteral

/-- Texts with literals between them are stepped over. -/
theorem steppedOver_append {lead : Text} (hlead : SteppedOver lead) {literals : List Quoted}
    (h : ∀ l ∈ literals, l.WellFormed) : SteppedOver (lead ++ literals.flatMap text) := by
  induction literals generalizing lead with
  | nil => simpa using hlead
  | cons l literals ih =>
      obtain ⟨hl, hrest⟩ := List.forall_mem_cons.1 h
      rw [List.flatMap_cons, ← List.append_assoc]
      exact ih (hlead.append hl.steppedOver (not_straddles_of_head (not_mem_commentStart hl.isQuote))) hrest

end Quoted

/-- A part of an internal subset. A markup declaration is spelled by the text in front of its first literal, and by its
literals. -/
inductive SubsetPart where
  | blanks (image : Text)
  | parameter (name : Text)
  | comment (body : Text)
  | instruction (body : Text)
  | declaration (lead : Text) (literals : List Quoted)
deriving Repr

namespace SubsetPart

def text : SubsetPart → Text
  | .blanks image => image
  | .parameter name => '%' :: (name ++ [';'])
  | .comment body => commentStart ++ (body ++ Comment.closing)
  | .instruction body => '<' :: '?' :: (body ++ ['?', '>'])
  | .declaration lead literals => '<' :: '!' :: lead ++ literals.flatMap Quoted.text ++ ['>']

def WellFormed : SubsetPart → Prop
  | .blanks image => Blanks image
  | .parameter name => Name.IsName name
  | .comment body => ¬ ['>'] <+: body ∧ ¬ ['-', '>'] <+: body ∧ ¬ ['-', '-'] <:+: body
  | .instruction body => ¬ ['?', '>'] <:+: body
  | .declaration lead literals => Plain ('<' :: '!' :: lead) ∧ ∀ l ∈ literals, l.WellFormed

theorem plain_blanks (h : Blanks t) : Plain t := by
  refine plain_of_safe fun c hc => ?_
  have hblank := h c hc
  simp only [isBlank, Bool.or_eq_true, beq_iff_eq] at hblank
  rcases hblank with ((rfl | rfl) | rfl) | rfl <;> decide

theorem plain_parameter {name : Text} (h : Name.IsName name) : Plain (text (.parameter name)) := by
  refine plain_of_safe fun c hc => ?_
  have hname : ∀ x, Name.isInner x = false → c ∈ name → c ≠ x := by
    rintro x hx hmem rfl
    exact h.not_mem hx hmem
  simp only [text, List.mem_cons, List.mem_append, List.not_mem_nil, or_false] at hc
  rcases hc with rfl | hmem | rfl
  · decide
  · refine ⟨?_, hname ']' (by decide) hmem, hname '<' (by decide) hmem⟩
    simp [Literal.isQuote, hname '"' (by decide) hmem, hname '\'' (by decide) hmem]
  · decide

/-- The body of a comment shows that its delimiters do not overlap. -/
theorem starts_of_starts_closing {lead body : Text} (hlead : lead = ['>'] ∨ lead = ['-', '>'])
    (h : lead <+: body ++ Comment.closing) : lead <+: body := by
  obtain ⟨u, hu⟩ := h
  rcases hlead with rfl | rfl
  · rcases body with _ | ⟨x, body⟩
    · cases hu
    · obtain rfl : '>' = x := (List.cons.inj hu).1
      exact ⟨body, rfl⟩
  · rcases body with _ | ⟨x, _ | ⟨y, body⟩⟩
    · cases hu
    · cases hu
    · obtain ⟨rfl, rfl, -⟩ : '-' = x ∧ '>' = y ∧ u = body ++ Comment.closing := by simpa using hu
      exact ⟨body, rfl⟩

theorem image_comment {body : Text} (h : WellFormed (.comment body)) : LeafClass.Image .comment (text (.comment body)) := by
  obtain ⟨hbracket, hdash, hdashes⟩ := h
  refine Comment.Shape.image (.inr ⟨⟨body, rfl, fun hholds => hdashes ?_⟩, fun short hmem hstarts => ?_⟩)
  · exact List.IsInfix.trans (by decide) hholds
  · rcases List.mem_pair.1 hmem with rfl | rfl
    · exact hbracket (starts_of_starts_closing (.inl rfl)
        ((@List.prefix_append_right_inj _ ['>'] (body ++ Comment.closing) commentStart).1 hstarts))
    · exact hdash (starts_of_starts_closing (.inr rfl)
        ((@List.prefix_append_right_inj _ ['-', '>'] (body ++ Comment.closing) commentStart).1 hstarts))

theorem steppedOver_text {part : SubsetPart} (h : part.WellFormed)
    (hinstruction : ∀ body, part = .instruction body → SteppedOver part.text) : SteppedOver part.text := by
  cases part with
  | blanks image => exact (plain_blanks h).steppedOver
  | parameter name => exact (plain_parameter h).steppedOver
  | comment body => simpa using SteppedOver.comment (image_comment h) .nil
  | instruction body => exact hinstruction body rfl
  | declaration lead literals =>
      have hclose : SteppedOver ['>'] := (plain_of_safe (by simp [Literal.isQuote])).steppedOver
      exact (Quoted.steppedOver_append h.1.steppedOver h.2).append hclose (not_straddles_of_head (by decide))

/-- No part goes on in the next one. -/
theorem not_straddles_text {part : SubsetPart} (h : part.WellFormed) (t : Text) : ¬ Straddles part.text t := by
  cases part with
  | blanks image =>
      rcases List.eq_nil_or_concat' image with rfl | ⟨s, x, rfl⟩
      · exact not_straddles_nil t
      · have hblank : isBlank x = true := h x (by simp)
        refine not_straddles_of_last ?_
        intro hx
        have hopen : commentStart.all (fun c => ! isBlank c) = true := by decide
        simpa [hblank] using List.all_eq_true.1 hopen x hx
  | parameter name => exact @not_straddles_of_last ('%' :: name) t ';' (by decide)
  | comment body =>
      have htext : text (.comment body) = (commentStart ++ (body ++ ['-', '-'])) ++ ['>'] := by simp [text, Comment.closing]
      rw [htext]
      exact not_straddles_of_last (by decide)
  | instruction body =>
      have htext : text (.instruction body) = ('<' :: '?' :: (body ++ ['?'])) ++ ['>'] := by simp [text]
      rw [htext]
      exact not_straddles_of_last (by decide)
  | declaration lead literals => exact not_straddles_of_last (by decide)

/-- Parts in any order and number are stepped over. -/
theorem steppedOver_flatMap {parts : List SubsetPart} (h : ∀ part ∈ parts, part.WellFormed)
    (hinstructions : ∀ body, .instruction body ∈ parts → SteppedOver (text (.instruction body))) :
    SteppedOver (parts.flatMap text) := by
  induction parts with
  | nil => exact .nil
  | cons part parts ih =>
      obtain ⟨hpart, hrest⟩ := List.forall_mem_cons.1 h
      rw [List.flatMap_cons]
      refine SteppedOver.append (steppedOver_text hpart ?_) (ih hrest ?_) (not_straddles_text hpart _)
      · rintro body rfl
        exact hinstructions body (by simp)
      · exact fun body hmem => hinstructions body (by simp [hmem])

end SubsetPart

end Subset

/-! ### Putting a subset into a document -/

theorem Document.doctype_of_mem_topNodes {d : Document} {decl : Doctype} (h : .doctype decl ∈ d.topNodes) :
    d.doctype = some decl := by
  have hmem : TopNode.doctype decl ∈ d.nodesByKind := (List.mergeSort_perm ..).mem_iff.1 h
  simpa [Document.nodesByKind] using hmem

namespace Spelled

theorem endsSolid_name {name : Text} (h : Name.IsName name) : EndsSolid name := by
  obtain ⟨s, x, hlast⟩ := (List.eq_nil_or_concat' name).resolve_left h.ne_nil
  refine ⟨s, x, hlast, ?_⟩
  by_contra hblank
  rw [Bool.not_eq_false] at hblank
  exact h.not_mem (Name.isInner_of_isBlank hblank) (by simp [hlast])

theorem External.Spaced.endsSolid {gap literal : Text} (h : External.Spaced gap literal) : EndsSolid literal := by
  obtain ⟨q, body, rfl, hq, -⟩ := h.literal
  exact ⟨q :: body, q, rfl, Literal.isBlank_of_isQuote hq⟩

theorem External.endsSolid {e : External} (h : e.WellFormed) : EndsSolid e.text := by
  refine EndsSolid.append_left ?_ _
  cases e with
  | systemId gap literal =>
      have hspaced : Spaced gap literal := h
      exact hspaced.endsSolid.append_left gap
  | publicId gap literal system =>
      obtain ⟨hspaced, hsystem⟩ : Spaced gap literal ∧ ∀ s ∈ system, Spaced s.1 s.2 := h
      refine EndsSolid.append_left ?_ gap
      cases system with
      | none => simpa [optionText] using hspaced.endsSolid
      | some s => exact ((hsystem s rfl).endsSolid.append_left s.1).append_left literal

/-- A document type declaration up to the blanks in front of its subset or of its closing bracket. -/
def TypeDecl.front (d : TypeDecl) : Text :=
  doctypeStart ++ (d.lead ++ (d.name ++ d.externalText))

theorem TypeDecl.endsSolid_front {d : TypeDecl} (h : d.WellFormed) : EndsSolid d.front := by
  refine EndsSolid.append_left (EndsSolid.append_left ?_ _) _
  rw [externalText]
  cases he : d.external with
  | none => simpa using endsSolid_name h.name
  | some part =>
      obtain ⟨gap, e⟩ := part
      exact ((External.endsSolid (h.external _ he).2.2).append_left gap).append_left d.name

/-- Blanks at the end of a text lie behind its last other character. -/
theorem exists_blanks_of_endsSolid {core blanks front tail : Text} (hcore : EndsSolid core) (hblanks : Blanks blanks)
    (htail : Blanks tail) (h : core ++ blanks = front ++ tail) : ∃ before, Blanks before ∧ front = core ++ before := by
  obtain ⟨s, x, rfl, hx⟩ := hcore
  rcases List.append_eq_append_iff.1 h with ⟨a, hfront, ha⟩ | ⟨b, hcore, hb⟩
  · exact ⟨a, fun c hc => hblanks c (by simp [ha, hc]), hfront⟩
  · rcases List.eq_nil_or_concat' b with rfl | ⟨b, y, rfl⟩
    · exact ⟨[], blanks_nil, by simpa using hcore.symm⟩
    · rw [← List.append_assoc] at hcore
      obtain rfl : x = y := (List.append_inj_right' hcore rfl |> List.cons.inj).1
      rw [htail x (by simp [hb])] at hx
      cases hx

theorem TypeDecl.text_of_none {d : TypeDecl} (h : d.subset = none) :
    d.text = d.front ++ (d.before ++ d.tail) ++ ['>'] := by
  simp [text, front, subsetText, h]

/-- The same declaration with a subset, in front of given blanks. -/
def TypeDecl.withSubset (d : TypeDecl) (before body tail : Text) : TypeDecl :=
  { d with before := before, subset := some ('[' :: body), tail := tail }

theorem TypeDecl.WellFormed.withSubset {d : TypeDecl} (h : d.WellFormed) {before body tail : Text}
    (hbefore : Blanks before) (hbody : SubsetBody body) (htail : Blanks tail) :
    (d.withSubset before body tail).WellFormed where
  lead_blanks := h.lead_blanks
  lead_ne_nil := h.lead_ne_nil
  name := h.name
  external := h.external
  before_blanks := hbefore
  subset := by
    rintro _ ⟨⟩
    exact ⟨body, rfl, hbody⟩
  tail_blanks := htail

theorem TypeDecl.text_withSubset (d : TypeDecl) (before body tail : Text) :
    (d.withSubset before body tail).text = d.front ++ (before ++ ('[' :: (body ++ (tail ++ ['>'])))) := by
  simp [text, withSubset, front, externalText, subsetText]

/-- Another declaration in place of one leaves the order of the nodes as it is. -/
theorem Whole.WellFormed.replace {w : Whole} (h : w.WellFormed) {before after : List (Text × Top)} {gap : Text}
    {decl decl' : TypeDecl} (htops : w.tops = before ++ (gap, .doctype decl) :: after) (hdecl : decl'.WellFormed) :
    Whole.WellFormed { w with tops := before ++ (gap, .doctype decl') :: after } := by
  obtain ⟨hdeclaration, hwf, horder, htail⟩ := h
  rw [htops] at hwf horder
  refine ⟨hdeclaration, ?_, ?_, htail⟩
  · simp only [List.forall_mem_append, List.forall_mem_cons] at hwf ⊢
    exact ⟨hwf.1, ⟨hwf.2.1.1, hdecl⟩, hwf.2.2⟩
  · simp only [List.map_append, List.map_cons, List.pairwise_append, List.pairwise_cons, List.mem_cons,
      forall_eq_or_imp] at horder ⊢
    have hbehind : ∀ top : Top, top.Before (.doctype decl) → top.Before (.doctype decl') := by
      intro top
      cases top <;> exact id
    have hfront : ∀ top : Top, Top.Before (.doctype decl) top → Top.Before (.doctype decl') top := by
      intro top
      cases top <;> exact id
    refine ⟨horder.1, ⟨fun top htop => hfront top (horder.2.1.1 top htop), horder.2.1.2⟩, fun top htop => ?_⟩
    exact ⟨hbehind top (horder.2.2 top htop).1, (horder.2.2 top htop).2⟩

theorem exists_node_mem {src : Source} {n : Nat} {before after : List (Text × Top)} {gap : Text} {top : Top} :
    ∃ m, top.node src m ∈ topNodesAt src n (before ++ (gap, top) :: after) := by
  induction before generalizing n with
  | nil => exact ⟨_, List.mem_cons_self⟩
  | cons first before ih =>
      obtain ⟨m, hm⟩ := @ih (n + first.1.length + first.2.text.length)
      exact ⟨m, List.mem_cons_of_mem _ hm⟩

theorem exists_doctype_of_tops {w : Whole} (hw : w.WellFormed) {before after : List (Text × Top)} {gap : Text}
    {s : TypeDecl} (h : w.tops = before ++ (gap, .doctype s) :: after) :
    ∃ m, w.locate.doctype = some (s.locate (.ofText w.text) m) := by
  obtain ⟨m, hm⟩ := @exists_node_mem (.ofText w.text) w.declarationText.length before after gap (.doctype s)
  refine ⟨m, Document.doctype_of_mem_topNodes ?_⟩
  rw [topNodes_locate hw, Whole.nodes, h]
  exact List.mem_append_right _ hm

theorem Whole.text_of_tops {w : Whole} {before after : List (Text × Top)} {gap : Text} {top : Top}
    (h : w.tops = before ++ (gap, top) :: after) :
    w.text = w.declarationText ++ (topsText before ++ gap) ++ (top.text ++ (topsText after ++ w.tail)) := by
  simp [text, h, topsText]

/-- The document type declaration of a document is spelled by one of its nodes. -/
theorem exists_doctype_spelling {w : Whole} (hw : w.WellFormed) {decl : Doctype} (h : w.locate.doctype = some decl) :
    ∃ before gap s after, w.tops = before ++ (gap, .doctype s) :: after ∧
      decl = s.locate (.ofText w.text) (w.declarationText.length + (Whole.topsText before ++ gap).length) := by
  have hmem : TopNode.doctype decl ∈ w.locate.topNodes :=
    (List.mergeSort_perm ..).mem_iff.2 (by simp [Document.nodesByKind, h])
  rw [topNodes_locate hw, Whole.nodes, List.mem_append] at hmem
  rcases hmem with hmem | hmem
  · simp at hmem
  · obtain ⟨before, gap, top, after, htops, hnode⟩ := exists_of_mem_topNodesAt hmem
    cases top with
    | misc kind image => cases hnode
    | root item => cases hnode
    | doctype s =>
        cases hnode
        exact ⟨before, gap, s, after, htops, rfl⟩

end Spelled

/-- Another declaration in place of one is read in its place. -/
theorem Document.exists_read_replace {w : Whole} (hw : w.WellFormed) {before after : List (Text × Top)} {gap : Text}
    {decl decl' : TypeDecl} (htops : w.tops = before ++ (gap, .doctype decl) :: after) (hdecl : decl'.WellFormed) :
    ∃ d src m, read (w.declarationText ++ (Whole.topsText before ++ gap) ++ (decl'.text ++
      (Whole.topsText after ++ w.tail))) = .ok d ∧ d.doctype = some (decl'.locate src m) := by
  have hw' := hw.replace htops hdecl
  have hread := read_text hw'
  rw [Whole.text_of_tops rfl] at hread
  obtain ⟨m, hm⟩ := exists_doctype_of_tops hw' rfl
  exact ⟨_, _, m, hread, hm⟩

/-- Where a document type declaration has only blanks in front of its closing bracket, a subset can be put. -/
theorem Document.exists_read_subset {front tail rest : Text} {d : Document} {decl : Doctype} (htail : Blanks tail)
    (hread : read (front ++ (tail ++ '>' :: rest)) = .ok d) (hdecl : d.doctype = some decl)
    (hnone : decl.internalSubset = none) (hlast : decl.span.last = (front ++ tail).length) {body : Text}
    (hbody : SubsetBody body) :
    ∃ d' decl', read (front ++ '[' :: (body ++ (tail ++ '>' :: rest))) = .ok d' ∧ d'.doctype = some decl' ∧
      decl'.internalSubset = some ('[' :: body) := by
  obtain ⟨w, hw, htext, rfl⟩ := exists_spelling hread
  obtain ⟨before, gap, s, after, htops, rfl⟩ := exists_doctype_spelling hw hdecl
  have hs : s.WellFormed := (hw.tops (gap, .doctype s) (by simp [htops])).2
  have hbare : s.text = s.front ++ (s.before ++ s.tail) ++ ['>'] := TypeDecl.text_of_none hnone
  -- the closing bracket is the last character of the declaration
  obtain ⟨hfront, rfl⟩ : front ++ tail ++ ['>'] = w.declarationText ++ (Whole.topsText before ++ gap) ++ s.text ∧
      rest = Whole.topsText after ++ w.tail := by
    refine List.append_inj ?_ ?_
    · rw [List.append_assoc _ s.text, ← Top.text, ← Whole.text_of_tops htops, ← htext]
      simp
    · simp only [TypeDecl.locate, Source.span, List.length_append, List.length_singleton] at hlast ⊢
      omega
  have hcore := (TypeDecl.endsSolid_front hs).append_left (w.declarationText ++ (Whole.topsText before ++ gap))
  rw [hbare, ← List.append_assoc, ← List.append_assoc] at hfront
  obtain ⟨blanks, hblanks, rfl⟩ := exists_blanks_of_endsSolid hcore (hs.before_blanks.append hs.tail_blanks) htail
    (List.append_inj_left' hfront rfl).symm
  obtain ⟨d', src, m, hread', hdecl'⟩ := exists_read_replace hw htops (hs.withSubset hblanks hbody htail)
  refine ⟨d', _, ?_, hdecl', rfl⟩
  rw [← hread', TypeDecl.text_withSubset]
  simp

/-- The subset of a document that is read, up to its closing bracket. -/
theorem Document.subsetBody_of_read {t : Text} {d : Document} {decl : Doctype} (hread : read t = .ok d)
    (hdecl : d.doctype = some decl) {body : Text} (hsubset : decl.internalSubset = some ('[' :: body)) :
    SubsetBody body := by
  obtain ⟨w, hw, rfl, rfl⟩ := exists_spelling hread
  obtain ⟨before, gap, s, after, htops, rfl⟩ := exists_doctype_spelling hw hdecl
  have hs : s.WellFormed := (hw.tops (gap, .doctype s) (by simp [htops])).2
  obtain ⟨body', hbody, hwf⟩ := hs.subset _ hsubset
  rwa [(List.cons.inj hbody).2]

/-! ### Reading -/

open Subset SubsetPart

/-- Where a document type declaration has room for a subset, one that is put together from parts ends at its own bracket,
and is read as it is written, exactly if its text is stepped over. Blanks, references, comments and markup declarations
always are, whatever their literals and comments hold; so it suffices that each processing instruction is. -/
theorem Document.read_subset_parts {front tail rest : Text} {d : Document} {decl : Doctype} (htail : Blanks tail)
    (hread : read (front ++ (tail ++ '>' :: rest)) = .ok d) (hdecl : d.doctype = some decl)
    (hnone : decl.internalSubset = none) (hlast : decl.span.last = (front ++ tail).length)
    {parts : List SubsetPart} (hparts : ∀ part ∈ parts, part.WellFormed) :
    ((∃ d' decl', read (front ++ '[' :: (parts.flatMap text ++ ']' :: (tail ++ '>' :: rest))) = .ok d' ∧
      d'.doctype = some decl' ∧ decl'.internalSubset = some ('[' :: (parts.flatMap text ++ [']']))) ↔
        SteppedOver (parts.flatMap text)) ∧
      ((∀ body, .instruction body ∈ parts → SteppedOver (text (.instruction body))) →
        SteppedOver (parts.flatMap text)) := by
  refine ⟨⟨?_, fun hstepped => ?_⟩, steppedOver_flatMap hparts⟩
  · rintro ⟨d', decl', hread', hdecl', hsubset⟩
    exact subsetBody_iff.1 (subsetBody_of_read hread' hdecl' hsubset)
  · obtain ⟨d', decl', hread', hdecl', hsubset⟩ :=
      exists_read_subset htail hread hdecl hnone hlast hstepped.subsetBody
    rw [List.append_assoc] at hread'
    exact ⟨d', decl', hread', hdecl', hsubset⟩

/-- A declaration with room for a subset. -/
theorem Document.exists_read_bare : ∃ d decl, read "<!DOCTYPE a ><a/>".toList = .ok d ∧ d.doctype = some decl ∧
    decl.internalSubset = none ∧ decl.span.last = 12 := by
  obtain ⟨d, hread, htest⟩ := @exists_ok_of_any _ _ (read "<!DOCTYPE a ><a/>".toList)
    (fun d => d.doctype.any fun decl : Doctype => decl.internalSubset.isNone && decl.span.last == 12) (by decide +kernel)
  rw [Option.any_eq_true] at htest
  obtain ⟨decl, hdecl, htest⟩ := htest
  rw [Bool.and_eq_true, Option.isNone_iff_eq_none, beq_iff_eq] at htest
  exact ⟨d, decl, hread, hdecl, htest.1, htest.2⟩

/-- Parts of all kinds, with quotes, brackets and the opening of a comment where they do no harm. -/
def Subset.mixedParts : List SubsetPart :=
  [.blanks ['\n'], .parameter ['p'], .comment [' ', ']', '\''], .instruction ['s', '=', '"', ']', '"'],
    .declaration ['E', ' '] [⟨'"', [']', '>', '\'', '<', '!', '-', '-'], [' ']⟩]]

theorem Subset.mixedParts_wellFormed : ∀ part ∈ mixedParts, part.WellFormed := by
  have hliteral : Quoted.WellFormed ⟨'"', [']', '>', '\'', '<', '!', '-', '-'], [' ']⟩ :=
    ⟨rfl, by decide, rfl, by decide⟩
  have hdeclaration : WellFormed (.declaration ['E', ' '] [⟨'"', [']', '>', '\'', '<', '!', '-', '-'], [' ']⟩]) :=
    ⟨⟨rfl, by decide⟩, List.forall_mem_singleton.2 hliteral⟩
  have hcomment : WellFormed (.comment [' ', ']', '\'']) := ⟨by decide, by decide, by decide⟩
  have hinstruction : ¬ ['?', '>'] <:+: ['s', '=', '"', ']', '"'] := by decide
  simp only [mixedParts, List.forall_mem_cons, List.not_mem_nil, false_implies, implies_true, and_true]
  exact ⟨by simp [WellFormed, Blanks, isBlank], ⟨'p', [], rfl, by decide, by simp⟩, hcomment, hinstruction, hdeclaration⟩

theorem Subset.mixedParts_steppedOver {body : Text} (h : .instruction body ∈ mixedParts) :
    SteppedOver (text (.instruction body)) := by
  obtain rfl : body = ['s', '=', '"', ']', '"'] := by simpa [mixedParts] using h
  have hlead : Plain ['<', '?', 's', '='] := ⟨rfl, by decide⟩
  exact @Quoted.steppedOver_append _ hlead.steppedOver [⟨'"', [']'], ['?', '>']⟩]
    (List.forall_mem_singleton.2 ⟨rfl, by decide, rfl, by decide⟩)

/-- They make up a subset that is read as it is written. -/
theorem Document.read_subset_parts_mixed :
    (∀ part ∈ mixedParts, part.WellFormed) ∧ ∃ d decl,
      read ("<!DOCTYPE a".toList ++ '[' :: (mixedParts.flatMap text ++ ']' :: ([' '] ++ '>' :: "<a/>".toList))) = .ok d ∧
      d.doctype = some decl ∧ decl.internalSubset = some ('[' :: (mixedParts.flatMap text ++ [']'])) := by
  obtain ⟨d, decl, hread, hdecl, hnone, hlast⟩ := exists_read_bare
  obtain ⟨hiff, hparts⟩ := @read_subset_parts "<!DOCTYPE a".toList [' '] "<a/>".toList d decl
    (by simp [Blanks, isBlank]) hread hdecl hnone hlast mixedParts mixedParts_wellFormed
  exact ⟨mixedParts_wellFormed, hiff.2 (hparts fun _ => mixedParts_steppedOver)⟩

/-- A quote in a processing instruction opens a literal, which nothing closes. -/
theorem Document.read_subset_parts_quote :
    (SubsetPart.instruction "p it's".toList).WellFormed ∧ text (.instruction "p it's".toList) = "<?p it's?>".toList ∧
      (∃ d decl, read "<!DOCTYPE a ><a/>".toList = .ok d ∧ d.doctype = some decl ∧ decl.internalSubset = none ∧
        decl.span.last = 12) ∧
      ∃ e, read "<!DOCTYPE a [<?p it's?>]><a/>".toList = .error e := by
  have hfails : (read "<!DOCTYPE a [<?p it's?>]><a/>".toList).toOption.isNone = true := by decide +kernel
  refine ⟨show ¬ ['?', '>'] <:+: "p it's".toList by decide, rfl, exists_read_bare, ?_⟩
  cases hread : read "<!DOCTYPE a [<?p it's?>]><a/>".toList with
  | ok d => rw [hread] at hfails; cases hfails
  | error e => exact ⟨e, rfl⟩

end XmlTidy
