import XmlTidy.Proofs.ReadTag

/-!
Reading content. Each item is read back as the node it stands for, and content is read item by item; the
other way round, whatever is read inside an element up to its end tag is spelled by a list of items
that keep apart. Elements that are still open stand in a stack of frames, so both directions are
stated for the innermost frame and leave the frames around it as they are.
-/

namespace XmlTidy

/-- The frame with more nodes read into it. -/
def Frame.addAll (f : Frame) (nodes : List Node) : Frame :=
  { f with children := nodes.reverse ++ f.children }

namespace Cursor

open Spelled

variable {src : Source} {frame : Frame} {outer : List Frame} {c d : Cursor}

/-! ### Steps of the stack of frames -/

theorem content_of_leaf {l : Leaf} (h : c.event src frame.name frame.start = .ok (.leaf l, d)) :
    content src frame outer c = content src (frame.add (.leaf l)) outer d := by
  rw [content]
  split <;> simp_all

theorem content_of_selfClosed {tag : Tag}
    (h : c.event src frame.name frame.start = .ok (.selfClosed tag, d)) :
    content src frame outer c = content src (frame.add (.element tag [])) outer d := by
  rw [content]
  split <;> simp_all

theorem content_of_opening {inner : Frame}
    (h : c.event src frame.name frame.start = .ok (.opening inner, d)) :
    content src frame outer c = content src inner (frame :: outer) d := by
  rw [content]
  split <;> simp_all

/-- Reading goes on in the parent when an element ends. -/
theorem content_of_closing {parent : Frame} {endName : Text}
    (h : c.event src frame.name frame.start = .ok (.closing endName, d)) :
    content src frame (parent :: outer) c =
      content src (parent.add (frame.close src endName c.offset d.offset).toNode) outer d := by
  rw [content]
  split <;> simp_all

theorem content_of_last {endName : Text}
    (h : c.event src frame.name frame.start = .ok (.closing endName, d)) :
    content src frame [] c = .ok (frame.close src endName c.offset d.offset, d) := by
  rw [content]
  split <;> simp_all

/-! ### Events -/

variable {parent : Text} {start n : Nat} {image rest : Text}

/-- Markup other than an end tag is told apart by what it starts with. -/
theorem event_of_angle {s t : Text} {ch : Char} (hs : s = '<' :: ch :: t) (h : ch ≠ '/') :
    event src parent start ⟨n, s⟩ =
      if Text.startsWith commentStart s then tokenEvent .comment (comment src ⟨n, s⟩)
      else if Text.startsWith sectionStart s then tokenEvent .cdata (cdata src ⟨n, s⟩)
      else if Text.startsWith ['<', '?'] s then tokenEvent .instruction (instruction src ⟨n, s⟩)
      else if Text.startsWith ['<', '!'] s then fail ⟨n, s⟩ .unexpectedDeclaration
      else startEvent (startTag src ⟨n, s⟩) := by
  have hatEnd : atEnd ⟨n, s⟩ = false := by
    rw [hs]
    rfl
  have hslash : skip? ⟨n, s⟩ ['<', '/'] = none := by
    simp [hs, skip?, Text.after?, h.symm]
  have hangle : Text.startsWith ['<'] s = true := Text.startsWith_iff.2 ⟨ch :: t, hs⟩
  simp only [event, hatEnd, Bool.false_eq_true, if_false, hslash, hangle, if_true]

theorem event_comment (h : LeafClass.Image .comment image) :
    event src parent start ⟨n, image ++ rest⟩ =
      .ok (.leaf (LeafClass.leaf .comment image (src.span n (n + image.length))),
        ⟨n + image.length, rest⟩) := by
  obtain ⟨hstart, hend⟩ := h
  have hlead := Text.startsWith_append_of rest hstart
  obtain ⟨t, ht⟩ := Text.startsWith_iff.1 hlead
  rw [event_of_angle ht (by decide), if_pos hlead]
  simp only [comment, token, hend.append (by simp) rest, tokenEvent, past, LeafClass.leaf]

theorem event_cdata (h : LeafClass.Image .cdata image) :
    event src parent start ⟨n, image ++ rest⟩ =
      .ok (.leaf (LeafClass.leaf .cdata image (src.span n (n + image.length))),
        ⟨n + image.length, rest⟩) := by
  obtain ⟨hstart, hend⟩ := h
  have hlead := Text.startsWith_append_of rest hstart
  obtain ⟨t, ht⟩ := Text.startsWith_iff.1 hlead
  have hcomment : Text.startsWith commentStart (image ++ rest) = false := by
    rw [ht]
    simp [sectionStart, commentStart, Text.startsWith, Text.after?]
  rw [event_of_angle ht (by decide), hcomment, if_neg Bool.false_ne_true, if_pos hlead]
  simp only [cdata, token, hend.append (by simp) rest, tokenEvent, past, LeafClass.leaf]

theorem instruction_append (h : LeafClass.Image .instruction image) :
    instruction src ⟨n, image ++ rest⟩ =
      .ok (⟨image, src.span n (n + image.length)⟩, ⟨n + image.length, rest⟩) := by
  obtain ⟨-, hend, target, hleads, hreserved⟩ := h
  obtain ⟨tail, htarget⟩ := Name.leads_iff.1 hleads
  have hthrough := hend.append (by simp) rest
  simp only [instruction, token, hthrough, htarget, hreserved, past, Bool.false_eq_true, if_false]

theorem event_instruction (h : LeafClass.Image .instruction image) :
    event src parent start ⟨n, image ++ rest⟩ =
      .ok (.leaf (LeafClass.leaf .instruction image (src.span n (n + image.length))),
        ⟨n + image.length, rest⟩) := by
  have hlead := Text.startsWith_append_of rest h.1
  obtain ⟨t, ht⟩ := Text.startsWith_iff.1 hlead
  have hcomment : Text.startsWith commentStart (image ++ rest) = false := by
    rw [ht]
    simp [commentStart, Text.startsWith, Text.after?]
  have hsection : Text.startsWith sectionStart (image ++ rest) = false := by
    rw [ht]
    simp [sectionStart, Text.startsWith, Text.after?]
  rw [event_of_angle ht (by decide), hcomment, if_neg Bool.false_ne_true, hsection,
    if_neg Bool.false_ne_true, if_pos hlead, instruction_append h]
  rfl

/-- Markup is told from character data by its first character. -/
theorem event_of_not_angle {ch : Char} {t : Text} (h : ch ≠ '<') :
    event src parent start ⟨n, ch :: t⟩ =
      if Text.startsWith ['&'] (ch :: t) then reference src ⟨n, ch :: t⟩
      else .ok (charData src ⟨n, ch :: t⟩) := by
  simp [event, atEnd, skip?, Text.after?, Text.startsWith, commentStart, sectionStart, h.symm]

theorem event_reference {kind : ReferenceKind} (h : LeafClass.Image (.reference kind) image) :
    event src parent start ⟨n, image ++ rest⟩ =
      .ok (.leaf (LeafClass.leaf (.reference kind) image (src.span n (n + image.length))),
        ⟨n + image.length, rest⟩) := by
  have hsplit := Reference.IsReference.split?_append h rest
  obtain ⟨body, rfl⟩ := Reference.IsReference.shape h
  rw [List.cons_append] at hsplit ⊢
  rw [event_of_not_angle (by decide), if_pos (by rfl), reference]
  simp only [hsplit, past, LeafClass.leaf]

theorem isBlank_ne_angle {ch : Char} (h : isBlank ch = true) : ch ≠ '<' ∧ ch ≠ '&' := by
  constructor <;> rintro rfl <;> exact absurd h (by decide)

theorem event_blank (h : LeafClass.Image .blank image) (hrest : Stops isBlank rest) :
    event src parent start ⟨n, image ++ rest⟩ =
      .ok (.leaf (LeafClass.leaf .blank image (src.span n (n + image.length))),
        ⟨n + image.length, rest⟩) := by
  obtain ⟨hne, hblanks⟩ := h
  obtain ⟨ch, t, rfl⟩ := List.exists_cons_of_ne_nil hne
  obtain ⟨hangle, hamp⟩ := isBlank_ne_angle (hblanks ch (by simp))
  have htake := takeWhile_append_stops hblanks hrest
  rw [List.cons_append, event_of_not_angle hangle, if_neg (by simp [Text.startsWith_cons_ne hamp.symm]),
    charData, ← List.cons_append, htake, if_neg hne, skipBlanks_append hblanks hrest]
  rfl

theorem event_text (h : LeafClass.Image .text image) (hrest : Stops isTextChar rest) :
    event src parent start ⟨n, image ++ rest⟩ =
      .ok (.leaf (LeafClass.leaf .text image (src.span n (n + image.length))),
        ⟨n + image.length, rest⟩) := by
  obtain ⟨hne, hstop, htext⟩ := h
  obtain ⟨ch, t, rfl⟩ := List.exists_cons_of_ne_nil hne
  have hch := htext ch (by simp)
  simp only [isTextChar, bne_iff_ne, ne_eq, Bool.and_eq_true] at hch
  have htake : ((ch :: t) ++ rest).takeWhile isBlank = [] := by
    simp [stops_cons.1 hstop]
  rw [List.cons_append, event_of_not_angle hch.1,
    if_neg (by simp [Text.startsWith_cons_ne (Ne.symm hch.2)]), charData, ← List.cons_append, htake,
    if_pos rfl, takeWhile_append_stops htext hrest, dropWhile_append_stops htext hrest]
  rfl

/-- An element is told from other markup by the name behind its bracket. -/
theorem event_startTag {tag : Open} (htag : tag.WellFormed) (src : Source) (parent : Text)
    (start n : Nat) (t : Text) :
    event src parent start ⟨n, tag.text ++ t⟩ = startEvent (startTag src ⟨n, tag.text ++ t⟩) := by
  obtain ⟨ch, s, hname, hstart, -⟩ := htag.name
  have hne : ∀ x : Char, Name.isStart x = false → x ≠ ch := by
    rintro x hx rfl
    rw [hx] at hstart
    exact Bool.noConfusion hstart
  have h₁ := hne '/' (by decide)
  have h₂ := hne '!' (by decide)
  have h₃ := hne '?' (by decide)
  simp [event, Open.text, hname, atEnd, skip?, Text.after?, Text.startsWith, commentStart,
    sectionStart, h₁, h₂, h₃]

theorem event_endTag {name endTail : Text} (hname : Name.IsName name) (hend : Blanks endTail)
    (src : Source) (start n : Nat) (rest : Text) :
    event src name start ⟨n, Item.endTag name endTail ++ rest⟩ =
      .ok (.closing name, ⟨n + (Item.endTag name endTail).length, rest⟩) := by
  have htext : Item.endTag name endTail ++ rest =
      ['<', '/'] ++ (name ++ (endTail ++ '>' :: rest)) := by simp [Item.endTag]
  have hatEnd : atEnd ⟨n, ['<', '/'] ++ (name ++ (endTail ++ '>' :: rest))⟩ = false := rfl
  have hlen : n + ['<', '/'].length + (name.length + endTail.length + 1) =
      n + (Item.endTag name endTail).length := by
    simp only [Item.endTag, List.length_cons, List.length_append, List.length_nil]
    omega
  rw [htext]
  simp only [event, hatEnd, Bool.false_eq_true, if_false, skip?_append, endTag_append hname hend, hlen]

/-! ### Items -/

/-- What may follow an item without prolonging it. -/
def Follows : Item → Text → Prop
  | .leaf .blank _, rest => Stops isBlank rest
  | .leaf .text _, rest => Stops isTextChar rest
  | _, _ => True

theorem event_leaf {cls : LeafClass} (h : cls.Image image) (hrest : Follows (.leaf cls image) rest) :
    event src parent start ⟨n, image ++ rest⟩ =
      .ok (.leaf (cls.leaf image (src.span n (n + image.length))), ⟨n + image.length, rest⟩) := by
  cases cls with
  | blank => exact event_blank h hrest
  | text => exact event_text h hrest
  | cdata => exact event_cdata h
  | comment => exact event_comment h
  | instruction => exact event_instruction h
  | reference kind => exact event_reference h

/-- Items that are no character data start with a bracket or an ampersand. -/
theorem markup_head {item : Item} (h : item.WellFormed) :
    (∃ image, item = .leaf .blank image) ∨ (∃ image, item = .leaf .text image) ∨
      ∃ ch t, item.text = ch :: t ∧ (ch = '<' ∨ ch = '&') := by
  cases item with
  | leaf cls image =>
      rw [Item.WellFormed] at h
      rw [Item.text]
      cases cls with
      | blank => exact .inl ⟨image, rfl⟩
      | text => exact .inr (.inl ⟨image, rfl⟩)
      | cdata =>
          obtain ⟨t, rfl⟩ := Text.startsWith_iff.1 h.1
          exact .inr (.inr ⟨'<', _, rfl, .inl rfl⟩)
      | comment =>
          obtain ⟨t, rfl⟩ := Text.startsWith_iff.1 h.1
          exact .inr (.inr ⟨'<', _, rfl, .inl rfl⟩)
      | instruction =>
          obtain ⟨t, rfl⟩ := Text.startsWith_iff.1 h.1
          exact .inr (.inr ⟨'<', _, rfl, .inl rfl⟩)
      | reference kind =>
          obtain ⟨body, rfl⟩ := Reference.IsReference.shape h
          exact .inr (.inr ⟨'&', _, rfl, .inr rfl⟩)
  | empty tag => exact .inr (.inr ⟨'<', _, by rw [Item.text, Open.text, List.cons_append], .inl rfl⟩)
  | full tag children endTail =>
      exact .inr (.inr ⟨'<', _, by rw [Item.text, Open.text, List.cons_append], .inl rfl⟩)

theorem follows_markup {item : Item} {ch : Char} (hch : ch = '<' ∨ ch = '&') :
    Follows item (ch :: rest) := by
  have hblank : isBlank ch = false := by rcases hch with rfl | rfl <;> decide
  have htext : isTextChar ch = false := by rcases hch with rfl | rfl <;> decide
  unfold Follows
  split
  · exact stops_cons.2 hblank
  · exact stops_cons.2 htext
  · trivial

theorem follows_of_apart {item next : Item} (hnext : next.WellFormed) (h : item.Apart next) :
    Follows item (next.text ++ rest) := by
  rcases markup_head hnext with ⟨image, rfl⟩ | ⟨image, rfl⟩ | ⟨ch, t, htext, hch⟩
  · rw [Item.WellFormed] at hnext
    unfold Follows
    split
    · simp [Item.Apart] at h
    · simp [Item.Apart] at h
    · trivial
  · rw [Item.WellFormed] at hnext
    unfold Follows
    split
    · rw [Item.text, stops_append hnext.1]
      exact hnext.2.1
    · simp [Item.Apart] at h
    · trivial
  · rw [htext, List.cons_append]
    exact follows_markup hch

mutual
/-- An item is read back as the node it stands for. -/
theorem content_item {frame : Frame} {outer : List Frame} {n : Nat} {rest : Text} {item : Item}
    (h : item.WellFormed) (hrest : Follows item rest) :
    content src frame outer ⟨n, item.text ++ rest⟩ =
      content src (frame.add (item.locate src n)) outer ⟨n + item.text.length, rest⟩ := by
  match item with
  | .leaf cls image =>
      rw [Item.WellFormed] at h
      rw [Item.text, Item.locate]
      exact content_of_leaf (event_leaf h hrest)
  | .empty tag =>
      rw [Item.WellFormed] at h
      rw [Item.text, Item.locate, List.append_assoc, List.length_append]
      refine content_of_selfClosed ?_
      rw [event_startTag h, startTag_empty h]
      rfl
  | .full tag children endTail =>
      rw [Item.WellFormed] at h
      obtain ⟨htag, hchildren, hend⟩ := h
      -- the element is opened, its content is read, and its end tag returns to the parent
      have htext : (Item.full tag children endTail).text ++ rest =
          tag.text ++ (['>'] ++ (Item.textAll children ++
            '<' :: ('/' :: (tag.name ++ (endTail ++ ['>'])) ++ rest))) := by
        simp [Item.text, Item.endTag]
      rw [htext]
      have hopen := event_startTag htag src frame.name frame.start n (['>'] ++
        (Item.textAll children ++ '<' :: ('/' :: (tag.name ++ (endTail ++ ['>'])) ++ rest)))
      rw [startTag_full htag] at hopen
      rw [content_of_opening hopen, content_items hchildren]
      have hclose := event_endTag htag.name hend src n
        (n + (tag.text.length + 1) + (Item.textAll children).length) rest
      rw [Item.endTag, List.cons_append] at hclose
      rw [content_of_closing hclose]
      have hlen : n + (tag.text.length + 1) + (Item.textAll children).length +
          ('<' :: '/' :: (tag.name ++ (endTail ++ ['>']))).length =
          n + (Item.full tag children endTail).text.length := by
        simp only [Item.text, Item.endTag, List.length_append, List.length_cons, List.length_nil]
        omega
      simp only [Frame.close, Frame.addAll, Open.frame, Element.toNode, Item.locate, Item.endTag,
        hlen, List.append_nil, List.reverse_reverse]

theorem content_items {frame : Frame} {outer : List Frame} {n : Nat} {rest : Text}
    {items : List Item} (h : Item.WellFormedAll items) :
    content src frame outer ⟨n, Item.textAll items ++ '<' :: rest⟩ =
      content src (frame.addAll (Item.locateAll src n items)) outer
        ⟨n + (Item.textAll items).length, '<' :: rest⟩ := by
  match items with
  | [] => simp [Item.textAll, Item.locateAll, Frame.addAll]
  | item :: items =>
      rw [Item.WellFormedAll] at h
      obtain ⟨hitem, hapart, hitems⟩ := h
      have hfollows : Follows item (Item.textAll items ++ '<' :: rest) := by
        cases items with
        | nil => exact follows_markup (.inl rfl)
        | cons next items =>
            rw [Item.WellFormedAll] at hitems
            rw [Item.textAll, List.append_assoc]
            exact follows_of_apart hitems.1 (hapart next (by simp))
      rw [Item.textAll, List.append_assoc, content_item hitem hfollows, content_items hitems]
      simp [Frame.addAll, Frame.add, Item.locateAll, Nat.add_assoc]
end

/-- The element of a frame, as an item is located. -/
theorem close_addAll {tag : Open} {children : List Item} (endTail : Text) {src : Source} {n : Nat} :
    (((tag.frame src n).addAll (Item.locateAll src (n + (tag.text.length + 1)) children)).close src
        tag.name (n + (tag.text.length + 1) + (Item.textAll children).length)
        (n + (tag.text.length + 1) + (Item.textAll children).length +
          (Item.endTag tag.name endTail).length)).toNode =
      (Item.full tag children endTail).locate src n := by
  simp only [Frame.close, Frame.addAll, Open.frame, Element.toNode, Item.locate, List.append_nil,
    List.reverse_reverse]

/-! ### From what was read back to a spelling -/

theorem of_token {stop : Text} {unterminated : Fault} {tok : Token} (hstop : stop ≠ [])
    (h : c.token src stop unterminated = .ok (tok, d)) :
    Text.EndsAt stop tok.image ∧ c.Took tok.image d ∧ tok.span = src.span c.offset d.offset := by
  simp only [token] at h
  split at h
  · simp [fail] at h
  · next image' rest' hthrough =>
      simp only [Except.ok.injEq, Prod.mk.injEq] at h
      obtain ⟨rfl, rfl⟩ := h
      exact ⟨Text.endsAt_of_through? hstop hthrough, .past (Text.eq_append_of_through? hthrough), rfl⟩

theorem of_instruction {tok : Token} (h : c.instruction src = .ok (tok, d)) :
    Text.EndsAt ['?', '>'] tok.image ∧
      (∃ target, Name.Leads target (tok.image.drop 2) ∧ isReserved target = false) ∧
      c.Took tok.image d ∧ tok.span = src.span c.offset d.offset := by
  revert h
  fun_cases instruction src c with
  | case1 => simp
  | case2 => simp
  | case3 => simp [fail]
  | case4 tok' d' htoken target tail htarget hreserved =>
      obtain ⟨hend, htook, hspan⟩ := of_token (by simp) htoken
      rintro ⟨⟩
      exact ⟨hend, ⟨target, Name.leads_iff.2 ⟨tail, htarget⟩, by simpa using hreserved⟩, htook, hspan⟩

/-- What was read is one item: where it ends, what it is, and that what follows does not prolong it. -/
structure ReadsItem (src : Source) (c d : Cursor) (item : Item) (node : Node) : Prop where
  wellFormed : item.WellFormed
  took : c.Took item.text d
  node : node = item.locate src c.offset
  follows : Follows item d.rest

/-- A token shows how it starts: its end does not belong to its start. -/
theorem startsWith_token {lead stop image rest : Text} (hend : Text.EndsAt stop image)
    (hlead : Text.startsWith lead (image ++ rest) = true) (hstop : '>' ∈ stop) (hnot : '>' ∉ lead) :
    Text.startsWith lead image = true := by
  obtain ⟨s, hs⟩ := hend.suffix
  refine Text.startsWith_of_append hlead (x := '>') ?_ hnot
  rw [hs]
  exact List.mem_append_right s hstop

theorem readsItem_token {cls : LeafClass} {tok : Token} (himage : cls.Image tok.image)
    (hcls : cls ≠ .blank ∧ cls ≠ .text) (htook : c.Took tok.image d)
    (hspan : tok.span = src.span c.offset d.offset) :
    ReadsItem src c d (.leaf cls tok.image) (.leaf (cls.leaf tok.image tok.span)) where
  wellFormed := by rwa [Item.WellFormed]
  took := by rwa [Item.text]
  node := by rw [Item.locate, hspan, htook.offset]
  follows := by
    unfold Follows
    split
    · simp_all
    · simp_all
    · trivial

/-- What an event says about the text it was read from. -/
def Reads (src : Source) (parent : Text) (c d : Cursor) : Event → Prop
  | .leaf l => ∃ cls image, ReadsItem src c d (.leaf cls image) (.leaf l)
  | .selfClosed tag => ∃ o, ReadsItem src c d (.empty o) (.element tag [])
  | .opening frame => ∃ o : Open, o.WellFormed ∧ c.Took (o.text ++ ['>']) d ∧ frame = o.frame src c.offset
  | .closing name => name = parent ∧ ∃ endTail, Blanks endTail ∧ c.Took (Item.endTag parent endTail) d

theorem reads_tokenEvent (cls : LeafClass) {wrap : Token → Leaf} {r : Except Failure (Token × Cursor)}
    {ev : Event} (hwrap : ∀ tok, wrap tok = cls.leaf tok.image tok.span)
    (hr : ∀ tok, r = .ok (tok, d) → ReadsItem src c d (.leaf cls tok.image)
      (.leaf (cls.leaf tok.image tok.span)))
    (h : tokenEvent wrap r = .ok (ev, d)) : Reads src parent c d ev := by
  simp only [tokenEvent] at h
  split at h
  · simp at h
  · next tok d' =>
      simp only [Except.ok.injEq, Prod.mk.injEq] at h
      obtain ⟨rfl, rfl⟩ := h
      exact ⟨cls, tok.image, by rw [hwrap]; exact hr tok rfl⟩

theorem reads_startEvent {ev : Event} {t : Text} (hc : c.rest = '<' :: t)
    (h : startEvent (c.startTag src) = .ok (ev, d)) : Reads src parent c d ev := by
  simp only [startEvent] at h
  split at h
  · simp at h
  · next tag d' hstart =>
      simp only [Except.ok.injEq, Prod.mk.injEq] at h
      obtain ⟨rfl, rfl⟩ := h
      obtain ⟨o, ho, ⟨htook, htag⟩ | ⟨-, hfalse⟩⟩ := of_startTag hc hstart
      · refine ⟨o, by rwa [Item.WellFormed], by rwa [Item.text], ?_, trivial⟩
        rw [Item.locate, ← Sum.inl.inj htag]
      · cases hfalse
  · next frame d' hstart =>
      simp only [Except.ok.injEq, Prod.mk.injEq] at h
      obtain ⟨rfl, rfl⟩ := h
      obtain ⟨o, ho, ⟨-, hfalse⟩ | ⟨htook, hframe⟩⟩ := of_startTag hc hstart
      · cases hfalse
      · exact ⟨o, ho, htook, Sum.inr.inj hframe⟩

theorem reads_reference {ev : Event} (h : c.reference src = .ok (ev, d)) :
    Reads src parent c d ev := by
  simp only [reference] at h
  split at h
  · simp [fail] at h
  · next kind image rest hsplit =>
      simp only [Except.ok.injEq, Prod.mk.injEq] at h
      obtain ⟨rfl, rfl⟩ := h
      refine ⟨.reference kind, image, ?_, ?_, rfl, trivial⟩
      · rw [Item.WellFormed]
        exact XmlTidy.Reference.isReference_of_split? hsplit
      · rw [Item.text]
        exact .past (XmlTidy.Reference.eq_append_of_split? hsplit)

theorem reads_charData (hend : c.atEnd = false) (hangle : Text.startsWith ['<'] c.rest = false)
    (hamp : Text.startsWith ['&'] c.rest = false) {ev : Event} (h : c.charData src = (ev, d)) :
    Reads src parent c d ev := by
  obtain ⟨offset, rest⟩ := c
  cases rest with
  | nil => simp [atEnd] at hend
  | cons ch t =>
      simp only [charData] at h
      split at h
      · next hblanks =>
          simp only [Prod.mk.injEq] at h
          obtain ⟨rfl, rfl⟩ := h
          have hblank : isBlank ch = false := by
            cases hb : isBlank ch with
            | false => rfl
            | true => simp [hb] at hblanks
          have hch : isTextChar ch = true := by
            simp only [isTextChar, bne_iff_ne, ne_eq, Bool.and_eq_true]
            constructor
            · rintro rfl
              simp [Text.startsWith, Text.after?] at hangle
            · rintro rfl
              simp [Text.startsWith, Text.after?] at hamp
          have htake : (ch :: t).takeWhile isTextChar = ch :: t.takeWhile isTextChar := by
            simp [hch]
          refine ⟨.text, (ch :: t).takeWhile isTextChar, ?_, ?_, rfl, stops_dropWhile isTextChar (ch :: t)⟩
          · rw [Item.WellFormed]
            refine ⟨by simp [htake], by rw [htake]; exact stops_cons.2 hblank, fun x hx => ?_⟩
            exact List.all_eq_true.1 List.all_takeWhile x hx
          · rw [Item.text]
            exact .past List.takeWhile_append_dropWhile.symm
      · next hblanks =>
          simp only [Prod.mk.injEq] at h
          obtain ⟨rfl, rfl⟩ := h
          refine ⟨.blank, (ch :: t).takeWhile isBlank, ?_, ?_, rfl, stops_dropWhile isBlank (ch :: t)⟩
          · rw [Item.WellFormed]
            exact ⟨hblanks, blanks_takeWhile _⟩
          · rw [Item.text]
            exact .past List.takeWhile_append_dropWhile.symm

/-- A token that is told by how it starts and how it ends. -/
theorem reads_token (cls : LeafClass) {wrap : Token → Leaf} {lead : Text} (stop : Text) {unterminated : Fault}
    (himage : ∀ image, Text.startsWith lead image = true → Text.EndsAt stop image → cls.Image image)
    (hcls : cls ≠ .blank ∧ cls ≠ .text) (hwrap : ∀ tok, wrap tok = cls.leaf tok.image tok.span)
    (hstop : '>' ∈ stop) (hnot : '>' ∉ lead) (hlead : Text.startsWith lead c.rest = true) {ev : Event}
    (h : tokenEvent wrap (c.token src stop unterminated) = .ok (ev, d)) : Reads src parent c d ev := by
  refine reads_tokenEvent cls hwrap (fun tok htok => ?_) h
  obtain ⟨hend, htook, hspan⟩ := of_token (List.ne_nil_of_mem hstop) htok
  rw [htook.rest] at hlead
  exact readsItem_token (himage _ (startsWith_token hend hlead hstop hnot) hend) hcls htook hspan

theorem reads_instruction (hlead : Text.startsWith ['<', '?'] c.rest = true) {ev : Event}
    (h : tokenEvent .instruction (c.instruction src) = .ok (ev, d)) : Reads src parent c d ev := by
  refine reads_tokenEvent .instruction (fun _ => rfl) (fun tok htok => ?_) h
  obtain ⟨hend, htarget, htook, hspan⟩ := of_instruction htok
  rw [htook.rest] at hlead
  exact readsItem_token ⟨startsWith_token hend hlead (by simp) (by decide), hend, htarget⟩ (by simp) htook hspan

theorem reads_event {ev : Event} (h : c.event src parent start = .ok (ev, d)) :
    Reads src parent c d ev := by
  revert h
  fun_cases event src parent start c with
  | case1 => simp
  | case2 _ c₁ hskip =>
      intro h
      obtain ⟨endTail, hblanks, htook, rfl⟩ := of_endTag h
      exact ⟨rfl, endTail, hblanks, (skip?_eq_some_iff.1 hskip).trans htook⟩
  | case3 _ _ hlead =>
      exact reads_token .comment ['-', '-', '>'] (fun _ hstart hend => ⟨hstart, hend⟩) (by simp) (fun _ => rfl)
        (by simp) (by decide) hlead
  | case4 _ _ _ hlead =>
      exact reads_token .cdata [']', ']', '>'] (fun _ hstart hend => ⟨hstart, hend⟩) (by simp) (fun _ => rfl)
        (by simp) (by decide) hlead
  | case5 _ _ _ _ hlead => exact reads_instruction hlead
  | case6 => simp [fail]
  | case7 _ _ _ _ _ _ hangle =>
      obtain ⟨t, ht⟩ := Text.startsWith_iff.1 hangle
      exact reads_startEvent ht
  | case8 => exact reads_reference
  | case9 hatEnd _ _ _ _ _ hangle hamp =>
      intro h
      exact reads_charData (by simpa using hatEnd) (by simpa using hangle) (by simpa using hamp) (Except.ok.inj h)

theorem apart_of_follows {item next : Item} (hnext : next.WellFormed)
    (h : Follows item (next.text ++ rest)) : item.Apart next := by
  unfold Item.Apart
  split
  · rw [Item.WellFormed] at hnext
    obtain ⟨ch, t, rfl⟩ := List.exists_cons_of_ne_nil hnext.1
    have hstop : isBlank ch = false := stops_cons.1 h
    rw [hnext.2 ch (by simp)] at hstop
    exact Bool.noConfusion hstop
  · rw [Item.WellFormed] at hnext
    obtain ⟨ch, t, rfl⟩ := List.exists_cons_of_ne_nil hnext.1
    have hstop : isTextChar ch = false := stops_cons.1 h
    obtain ⟨hangle, hamp⟩ := isBlank_ne_angle (hnext.2 ch (by simp))
    simp [isTextChar, hangle, hamp] at hstop
  · rw [Item.WellFormed] at hnext
    obtain ⟨ch, t, rfl⟩ := List.exists_cons_of_ne_nil hnext.1
    have hstop : isTextChar ch = false := stops_cons.1 h
    rw [hnext.2.2 ch (by simp)] at hstop
    exact Bool.noConfusion hstop
  · trivial

theorem wellFormedAll_cons {item : Item} {items : List Item} (hitem : item.WellFormed)
    (hitems : Item.WellFormedAll items) {s : Text} (h : Follows item (Item.textAll items ++ s)) :
    Item.WellFormedAll (item :: items) := by
  rw [Item.WellFormedAll]
  refine ⟨hitem, fun next hnext => ?_, hitems⟩
  cases items with
  | nil => simp at hnext
  | cons next' items =>
      obtain rfl : next' = next := by simpa using hnext
      rw [Item.WellFormedAll] at hitems
      rw [Item.textAll, List.append_assoc] at h
      exact apart_of_follows hitems.1 h

/-- Where reading stands after the end tag of a frame: at the end if it was the outermost one, else in
the frame around it. -/
def Returns (src : Source) (node : Element) (e : Element) (d c : Cursor) : List Frame → Prop
  | [] => e = node ∧ d = c
  | parent :: outer => content src (parent.add node.toNode) outer c = .ok (e, d)

/-- What is read inside a frame: items that keep apart, and the end tag behind them. -/
structure ReadsContent (src : Source) (frame : Frame) (outer : List Frame) (c d : Cursor) (e : Element)
    (items : List Item) (endTail : Text) (c' : Cursor) : Prop where
  wellFormed : Item.WellFormedAll items
  blanks : Blanks endTail
  took : c.Took (Item.textAll items ++ Item.endTag frame.name endTail) c'
  returns : Returns src ((frame.addAll (Item.locateAll src c.offset items)).close src frame.name
    (c.offset + (Item.textAll items).length) c'.offset) e d c' outer

/-- One item in front of what the rest of the frame gives. -/
theorem ReadsItem.cons {item : Item} {node : Node} {c₁ c' : Cursor} (hitem : ReadsItem src c c₁ item node)
    {e : Element} {items : List Item} {endTail : Text}
    (h : ReadsContent src (frame.add node) outer c₁ d e items endTail c') :
    ReadsContent src frame outer c d e (item :: items) endTail c' := by
  have hfollows := hitem.follows
  rw [h.took.rest, List.append_assoc] at hfollows
  have hstop : c.offset + (Item.textAll (item :: items)).length = c₁.offset + (Item.textAll items).length := by
    rw [hitem.took.offset, Item.textAll, List.length_append, Nat.add_assoc]
  have hframe : frame.addAll (Item.locateAll src c.offset (item :: items)) =
      (frame.add node).addAll (Item.locateAll src c₁.offset items) := by
    simp [Frame.addAll, Frame.add, Item.locateAll, hitem.node, hitem.took.offset]
  refine ⟨wellFormedAll_cons hitem.wellFormed h.wellFormed hfollows, h.blanks, ?_, ?_⟩
  · exact (hitem.took.trans h.took).of_eq (by simp [Item.textAll, Frame.add])
  · rw [hstop, hframe]
    exact h.returns

/-- A start tag in front of what its frame gives is an element. -/
theorem readsItem_full {o : Open} (ho : o.WellFormed) {c₁ c₂ : Cursor} (hopen : c.Took (o.text ++ ['>']) c₁)
    {e : Element} {children : List Item} {endTail : Text}
    (h : ReadsContent src (o.frame src c.offset) outer c₁ d e children endTail c₂) :
    ReadsItem src c c₂ (.full o children endTail)
      (((o.frame src c.offset).addAll (Item.locateAll src c₁.offset children)).close src o.name
        (c₁.offset + (Item.textAll children).length) c₂.offset).toNode := by
  have hstart : c₁.offset = c.offset + (o.text.length + 1) := by rw [hopen.offset, List.length_append]; rfl
  refine ⟨?_, ?_, ?_, trivial⟩
  · rw [Item.WellFormed]
    exact ⟨ho, h.wellFormed, h.blanks⟩
  · exact (hopen.trans h.took).of_eq (by simp [Item.text, Open.frame])
  · rw [← close_addAll, ← hstart, h.took.offset, List.length_append, Nat.add_assoc]
    rfl

/-- What is read inside a frame, up to its end tag, is spelled by items that keep apart. -/
theorem of_content {frame : Frame} {outer : List Frame} {c d : Cursor} {e : Element}
    (h : content src frame outer c = .ok (e, d)) :
    ∃ items endTail c', ReadsContent src frame outer c d e items endTail c' := by
  unfold content at h
  split at h
  · simp at h
  · next l c₁ hev =>
      obtain ⟨cls, image, hitem⟩ := reads_event hev
      obtain ⟨items, endTail, c', hrest⟩ := of_content h
      exact ⟨_, endTail, c', hitem.cons hrest⟩
  · next tag c₁ hev =>
      obtain ⟨o, hitem⟩ := reads_event hev
      obtain ⟨items, endTail, c', hrest⟩ := of_content h
      exact ⟨_, endTail, c', hitem.cons hrest⟩
  · next inner c₁ hev =>
      have hlt := length_event_lt hev
      obtain ⟨o, ho, hopen, rfl⟩ := reads_event hev
      obtain ⟨children, innerTail, c₂, hinner⟩ := of_content h
      have hlt₂ : c₂.rest.length < c.rest.length := by
        have hlength := congrArg List.length hinner.took.rest
        simp only [List.length_append] at hlength
        omega
      obtain ⟨items, endTail, c', hrest⟩ := of_content hinner.returns
      exact ⟨_, endTail, c', (readsItem_full ho hopen hinner).cons hrest⟩
  · next endName c₁ hev =>
      obtain ⟨rfl, endTail, hend, htook⟩ := reads_event hev
      refine ⟨[], endTail, c₁, trivial, hend, htook, ?_⟩
      cases outer with
      | nil =>
          simp only [Except.ok.injEq, Prod.mk.injEq] at h
          exact ⟨h.1.symm, h.2.symm⟩
      | cons parent outer => exact h
termination_by c.rest.length
decreasing_by
  all_goals first
    | exact length_event_lt ‹_›
    | assumption

/-! ### Elements -/

theorem element_append {item : Item} (helement : item.IsElement) (h : item.WellFormed) (src : Source)
    (n : Nat) (rest : Text) : ∃ e : Element, e.toNode = item.locate src n ∧
      element src ⟨n, item.text ++ rest⟩ = .ok (e, ⟨n + item.text.length, rest⟩) := by
  cases item with
  | leaf cls image => exact helement.elim
  | empty tag =>
      rw [Item.WellFormed] at h
      refine ⟨⟨tag.emptyTag src n, []⟩, by rw [Item.locate, Element.toNode], ?_⟩
      rw [Item.text, List.append_assoc, element, startTag_empty h]
      simp
  | full tag children endTail =>
      rw [Item.WellFormed] at h
      obtain ⟨htag, hchildren, hend⟩ := h
      refine ⟨_, close_addAll endTail, ?_⟩
      have htext : (Item.full tag children endTail).text ++ rest =
          tag.text ++ (['>'] ++ (Item.textAll children ++ (Item.endTag tag.name endTail ++ rest))) := by
        simp [Item.text]
      have hopen : Item.endTag tag.name endTail ++ rest =
          '<' :: ('/' :: (tag.name ++ (endTail ++ ['>'])) ++ rest) := by simp [Item.endTag]
      rw [htext, element, startTag_full htag]
      simp only
      rw [hopen, content_items hchildren, ← hopen]
      have hev := event_endTag htag.name hend src
        ((tag.frame src n).addAll (Item.locateAll src (n + (tag.text.length + 1)) children)).start
        (n + (tag.text.length + 1) + (Item.textAll children).length) rest
      rw [content_of_last hev]
      simp only [Item.text, List.length_append, List.length_cons]
      congr 3
      omega

theorem of_element {e : Element} {t : Text} (hc : c.rest = '<' :: t)
    (h : c.element src = .ok (e, d)) :
    ∃ item : Item, item.IsElement ∧ item.WellFormed ∧ c.Took item.text d ∧
      e.toNode = item.locate src c.offset := by
  simp only [element] at h
  split at h
  · simp at h
  · next tag d' hstart =>
      obtain ⟨o, ho, ⟨htook, hopened⟩ | ⟨-, hopened⟩⟩ := of_startTag hc hstart
      · simp only [Except.ok.injEq, Prod.mk.injEq] at h
        obtain ⟨rfl, rfl⟩ := h
        cases hopened
        refine ⟨.empty o, trivial, by rwa [Item.WellFormed], by rwa [Item.text], ?_⟩
        rw [Item.locate, Element.toNode]
      · cases hopened
  · next frame c₁ hstart =>
      obtain ⟨o, ho, ⟨-, hopened⟩ | ⟨hopen, hopened⟩⟩ := of_startTag hc hstart
      · cases hopened
      · cases hopened
        obtain ⟨children, endTail, c₂, hcontent⟩ := of_content h
        obtain ⟨rfl, rfl⟩ := hcontent.returns
        have hitem := readsItem_full ho hopen hcontent
        exact ⟨.full o children endTail, trivial, hitem.wellFormed, hitem.took, hitem.node⟩

end Cursor

end XmlTidy
