import XmlTidy.Proofs.ReadDocument

/-!
Where reading fails. A failure is reported at the cursor that was reached, or at a place that was remembered on
the way: the start of a token, of a tag, of an element or of a subset. Every reader keeps the offset at which
the text ends, and all of these places lie in front of it or on it.
-/

namespace XmlTidy

namespace Cursor

open Spelled

/-- The offset behind the last character of the text. -/
def stop (c : Cursor) : Nat := c.offset + c.rest.length

theorem offset_le_stop (c : Cursor) : c.offset ≤ c.stop := Nat.le_add_right ..

theorem Took.stop_eq {c d : Cursor} {t : Text} (h : c.Took t d) : d.stop = c.stop := by
  rw [stop, stop, h.offset, h.rest, List.length_append, Nat.add_assoc]

theorem Took.offset_le {c d : Cursor} {t : Text} (h : c.Took t d) : d.offset ≤ c.stop :=
  h.stop_eq ▸ d.offset_le_stop

theorem stop_skipBlanks (c : Cursor) : c.skipBlanks.stop = c.stop := by
  obtain ⟨b, -, htook, -⟩ := exists_skipBlanks c
  exact htook.stop_eq

/-- Reading that fails, if it fails, no farther than at an offset. -/
def FailsWithin {α : Type} (bound : Nat) (r : Except Failure α) : Prop :=
  ∀ e, r = .error e → e.offset ≤ bound

variable {src : Source} {c d : Cursor}

theorem failsWithin_ok {α : Type} {bound : Nat} {a : α} : FailsWithin bound (.ok a) := by
  rintro e ⟨⟩

theorem failsWithin_error {α : Type} {bound : Nat} {e : Failure} (h : e.offset ≤ bound) :
    FailsWithin bound (.error e : Except Failure α) := by
  rintro _ ⟨⟩
  exact h

/-- Failing at a cursor of the text. -/
theorem failsWithin_fail {α : Type} {bound : Nat} (h : c.stop = bound) (fault : Fault) :
    FailsWithin bound (c.fail fault : Except Failure α) :=
  failsWithin_error (h ▸ c.offset_le_stop)

/-- Handing a failure on. -/
theorem FailsWithin.rethrow {α β : Type} {bound : Nat} {r : Except Failure α} {e : Failure} (h : FailsWithin bound r)
    (hr : r = .error e) : FailsWithin bound (.error e : Except Failure β) :=
  failsWithin_error (h e hr)

/-! ### Tags -/

theorem failsWithin_name (c : Cursor) (missing : Fault) : FailsWithin c.stop (c.name missing) := by
  rw [name]
  split
  · exact failsWithin_ok
  · exact failsWithin_fail rfl missing

theorem failsWithin_attr (src : Source) (c : Cursor) : FailsWithin c.stop (c.attr src) := by
  fun_cases attr src c with
  | case1 e hname => exact (failsWithin_name c _).rethrow hname
  | case2 name c₁ hname c₂ hsign =>
      obtain ⟨-, htook, -⟩ := of_name hname
      exact failsWithin_fail ((stop_skipBlanks c₁).trans htook.stop_eq) _
  | case3 name c₁ hname c₂ c₃ hsign c₄ hvalue =>
      obtain ⟨-, htook, -⟩ := of_name hname
      refine failsWithin_fail ?_ _
      rw [stop_skipBlanks, (skip?_eq_some_iff.1 hsign).stop_eq, stop_skipBlanks, htook.stop_eq]
  | case4 => exact failsWithin_ok

theorem failsWithin_attrs {α : Type} {closers : List (Text × α)} {unterminated : Failure} {missingBlank : Fault}
    (h : unterminated.offset ≤ c.stop) : FailsWithin c.stop (c.attrs src closers unterminated missingBlank) := by
  fun_induction attrs src closers unterminated missingBlank c with
  | case1 => exact failsWithin_ok
  | case2 => exact failsWithin_error h
  | case3 c => exact failsWithin_fail (stop_skipBlanks c) _
  | case4 c c₁ _ _ _ e hattr => exact stop_skipBlanks c ▸ (failsWithin_attr src c₁).rethrow hattr
  | case5 c c₁ _ _ hmoved a c₂ hattr e hrest ih =>
      obtain ⟨lead, hlead, hblanks, -⟩ := exists_skipBlanks c
      obtain ⟨s, -, htook, -⟩ := of_attr hlead (hblanks.ne_nil hmoved) hblanks hattr
      rw [← htook.stop_eq] at h ⊢
      exact (ih h).rethrow hrest
  | case6 => exact failsWithin_ok

theorem took_angle {t : Text} (hc : c.rest = '<' :: t) : c.Took ['<'] (c.past ['<'] (c.rest.drop 1)) :=
  .past (by rw [hc]; rfl)

theorem failsWithin_startTag {t : Text} (hc : c.rest = '<' :: t) : FailsWithin c.stop (c.startTag src) := by
  have hangle := took_angle hc
  fun_cases startTag src c with
  | case1 c₁ e hname => exact hangle.stop_eq ▸ (failsWithin_name c₁ _).rethrow hname
  | case2 c₁ name c₂ hname e hattrs =>
      obtain ⟨-, htook, -⟩ := of_name hname
      have hstop : c₂.stop = c.stop := htook.stop_eq.trans hangle.stop_eq
      refine FailsWithin.rethrow ?_ hattrs
      rw [← hstop]
      exact failsWithin_attrs (hstop ▸ c.offset_le_stop)
  | case3 => exact failsWithin_ok
  | case4 => exact failsWithin_ok

theorem failsWithin_endTag {expected : Text} {start : Nat} (h : start ≤ c.stop) :
    FailsWithin c.stop (c.endTag expected start) := by
  fun_cases endTag expected start c with
  | case1 e hname => exact (failsWithin_name c _).rethrow hname
  | case2 => exact failsWithin_error h
  | case3 found c₁ hname _ c₂ hskip =>
      obtain ⟨-, htook, -⟩ := of_name hname
      exact failsWithin_fail ((stop_skipBlanks c₁).trans htook.stop_eq) _
  | case4 => exact failsWithin_ok

/-! ### Content -/

theorem failsWithin_token (src : Source) (c : Cursor) (close : Text) (unterminated : Fault) :
    FailsWithin c.stop (c.token src close unterminated) := by
  rw [token]
  split
  · exact failsWithin_fail rfl unterminated
  · exact failsWithin_ok

/-- A missing target is reported behind the two characters that open an instruction; it has no fewer, since
it ends with as many. -/
theorem failsWithin_instruction (src : Source) (c : Cursor) : FailsWithin c.stop (c.instruction src) := by
  fun_cases instruction src c with
  | case1 e htoken => exact (failsWithin_token src c _ _).rethrow htoken
  | case2 tok d htoken _ =>
      obtain ⟨hends, htook, -⟩ := of_token (by simp) htoken
      obtain ⟨s, hs⟩ := hends.suffix
      have hoffset := htook.offset_le
      rw [htook.offset, hs, List.length_append] at hoffset
      refine failsWithin_error (Nat.le_trans ?_ hoffset)
      simp
  | case3 => exact failsWithin_fail rfl _
  | case4 => exact failsWithin_ok

theorem failsWithin_reference (src : Source) (c : Cursor) : FailsWithin c.stop (c.reference src) := by
  rw [reference]
  split
  · exact failsWithin_fail rfl _
  · exact failsWithin_ok

theorem FailsWithin.tokenEvent {bound : Nat} {r : Except Failure (Token × Cursor)} (h : FailsWithin bound r)
    (leaf : Token → Leaf) : FailsWithin bound (Cursor.tokenEvent leaf r) := by
  cases r with
  | error e => exact h.rethrow rfl
  | ok result => exact failsWithin_ok

theorem FailsWithin.startEvent {bound : Nat} {r : Except Failure ((Tag ⊕ Frame) × Cursor)} (h : FailsWithin bound r) :
    FailsWithin bound (Cursor.startEvent r) := by
  fun_cases Cursor.startEvent r with
  | case1 e => exact h.rethrow rfl
  | case2 => exact failsWithin_ok
  | case3 => exact failsWithin_ok

theorem failsWithin_event {parent : Text} {start : Nat} (h : start ≤ c.stop) :
    FailsWithin c.stop (c.event src parent start) := by
  fun_cases event src parent start c with
  | case1 => exact failsWithin_error h
  | case2 _ c₁ hskip =>
      have hstop := (skip?_eq_some_iff.1 hskip).stop_eq
      rw [← hstop]
      exact failsWithin_endTag (hstop ▸ c.offset_le_stop)
  | case3 => exact (failsWithin_token src c _ _).tokenEvent _
  | case4 => exact (failsWithin_token src c _ _).tokenEvent _
  | case5 => exact (failsWithin_instruction src c).tokenEvent _
  | case6 => exact failsWithin_fail rfl _
  | case7 _ _ _ _ _ _ hangle =>
      obtain ⟨t, ht⟩ := Text.startsWith_iff.1 hangle
      exact (failsWithin_startTag ht).startEvent
  | case8 => exact failsWithin_reference src c
  | case9 => exact failsWithin_ok

theorem Reads.stop_eq {parent : Text} {ev : Event} (h : Reads src parent c d ev) : d.stop = c.stop := by
  cases ev with
  | leaf l =>
      obtain ⟨cls, image, hitem⟩ := h
      exact hitem.took.stop_eq
  | selfClosed tag =>
      obtain ⟨o, hitem⟩ := h
      exact hitem.took.stop_eq
  | opening frame =>
      obtain ⟨o, -, htook, -⟩ := h
      exact htook.stop_eq
  | closing name =>
      obtain ⟨-, endTail, -, htook⟩ := h
      exact htook.stop_eq

/-- Nodes that are read into an element leave its start where it is. -/
theorem start_le_of_add {frame : Frame} {outer : List Frame} {bound : Nat} (h : ∀ f ∈ frame :: outer, f.start ≤ bound)
    (node : Node) : ∀ f ∈ frame.add node :: outer, f.start ≤ bound := by
  obtain ⟨hframe, houter⟩ := List.forall_mem_cons.1 h
  exact List.forall_mem_cons.2 ⟨hframe, houter⟩

/-- An unclosed element is reported where it starts, so the starts of all open elements are kept inside the text. -/
theorem failsWithin_content {frame : Frame} {outer : List Frame} (h : ∀ f ∈ frame :: outer, f.start ≤ c.stop) :
    FailsWithin c.stop (content src frame outer c) := by
  fun_induction content src frame outer c with
  | case1 frame outer c e hev => exact (failsWithin_event (h frame (by simp))).rethrow hev
  | case2 frame outer c l d hev ih =>
      have hstop := (reads_event hev).stop_eq
      rw [← hstop] at h ⊢
      exact ih (start_le_of_add h _)
  | case3 frame outer c tag d hev ih =>
      have hstop := (reads_event hev).stop_eq
      rw [← hstop] at h ⊢
      exact ih (start_le_of_add h _)
  | case4 frame outer c inner d hev ih =>
      have hstop := (reads_event hev).stop_eq
      obtain ⟨o, -, -, hframe⟩ := reads_event hev
      have hinner : inner.start ≤ c.stop := hframe ▸ c.offset_le_stop
      rw [← hstop] at h hinner ⊢
      exact ih (List.forall_mem_cons.2 ⟨hinner, h⟩)
  | case5 => exact failsWithin_ok
  | case6 frame c endName d hev element parent outer ih =>
      have hstop := (reads_event hev).stop_eq
      rw [← hstop] at h ⊢
      exact ih (start_le_of_add (List.forall_mem_cons.1 h).2 _)

theorem failsWithin_element {t : Text} (hc : c.rest = '<' :: t) : FailsWithin c.stop (c.element src) := by
  fun_cases element src c with
  | case1 e hstart => exact (failsWithin_startTag hc).rethrow hstart
  | case2 => exact failsWithin_ok
  | case3 frame d hstart =>
      obtain ⟨o, -, ⟨-, hopened⟩ | ⟨htook, hopened⟩⟩ := of_startTag hc hstart
      · cases hopened
      · cases hopened
        rw [← htook.stop_eq]
        refine failsWithin_content (List.forall_mem_singleton.2 ?_)
        exact htook.stop_eq ▸ c.offset_le_stop

/-! ### Document type declarations -/

theorem failsWithin_quoted (c : Cursor) (missing : Fault) : FailsWithin c.stop (c.quoted missing) := by
  rw [quoted]
  split
  · exact failsWithin_ok
  · exact failsWithin_fail rfl missing

theorem failsWithin_externalLiterals (keyword : ExternalKeyword) (c : Cursor) :
    FailsWithin c.stop (externalLiterals keyword c) := by
  fun_cases externalLiterals keyword c with
  | case1 e hquoted => exact (failsWithin_quoted c _).rethrow hquoted
  | case2 => exact failsWithin_ok
  | case3 e hquoted => exact (failsWithin_quoted c _).rethrow hquoted
  | case4 => exact failsWithin_ok

theorem failsWithin_externalId? (src : Source) (c : Cursor) : FailsWithin c.stop (c.externalId? src) := by
  fun_cases externalId? src c with
  | case1 => exact failsWithin_ok
  | case2 keyword c₁ hkeyword =>
      exact failsWithin_fail ((stop_skipBlanks c₁).trans (of_externalKeyword? hkeyword).stop_eq) _
  | case3 keyword c₁ hkeyword c₂ _ e hliterals =>
      have hstop := (stop_skipBlanks c₁).trans (of_externalKeyword? hkeyword).stop_eq
      exact hstop ▸ (failsWithin_externalLiterals keyword c₂).rethrow hliterals
  | case4 => exact failsWithin_ok

theorem failsWithin_subsetEnd {start : Nat} (h : start ≤ c.stop) : FailsWithin c.stop (subsetEnd src start c) := by
  fun_induction subsetEnd src start c with
  | case1 => exact failsWithin_error h
  | case2 c ch t hc _ e hcomment => exact (failsWithin_token src c _ _).rethrow hcomment
  | case3 c ch t hc _ tok d hcomment ih =>
      obtain ⟨-, htook, -⟩ := of_token (by simp) hcomment
      rw [← htook.stop_eq] at h ⊢
      exact ih h
  | case4 c => exact failsWithin_fail rfl _
  | case5 c ch t hc _ _ image rest hthrough ih =>
      have htook : c.Took (ch :: image) (c.past (ch :: image) rest) :=
        .past (by rw [hc, Text.eq_append_of_through? hthrough]; rfl)
      rw [← htook.stop_eq] at h ⊢
      exact ih h
  | case6 => exact failsWithin_ok
  | case7 c ch t hc _ _ _ ih =>
      have htook : c.Took [ch] (c.past [ch] t) := .past hc
      rw [← htook.stop_eq] at h ⊢
      exact ih h

theorem failsWithin_subset? (src : Source) (c : Cursor) : FailsWithin c.stop (c.subset? src) := by
  fun_cases subset? src c with
  | case1 => exact failsWithin_ok
  | case2 c₁ hskip e hend =>
      have hstop := (skip?_eq_some_iff.1 hskip).stop_eq
      refine FailsWithin.rethrow ?_ hend
      rw [← hstop]
      exact failsWithin_subsetEnd (hstop ▸ c.offset_le_stop)
  | case3 => exact failsWithin_ok

theorem stop_externalId? {externalId : Option ExternalId} (h : c.externalId? src = .ok (externalId, d)) :
    d.stop = c.stop := by
  obtain ⟨-, rfl⟩ | ⟨e, -, -, htook⟩ := of_externalId? h
  · rfl
  · exact htook.stop_eq

theorem failsWithin_doctype (hc : Text.startsWith doctypeStart c.rest = true) :
    FailsWithin c.stop (c.doctype src) := by
  obtain ⟨rest, hrest⟩ := Text.startsWith_iff.1 hc
  have hkeyword : c.Took doctypeStart (c.past doctypeStart (c.rest.drop doctypeStart.length)) :=
    .past (by rw [hrest, List.drop_left])
  have hstart := (stop_skipBlanks _).trans hkeyword.stop_eq
  fun_cases doctype src c with
  | case1 => exact failsWithin_fail hstart _
  | case2 c₁ c₂ _ e hname => exact hstart ▸ (failsWithin_name c₂ _).rethrow hname
  | case3 c₁ c₂ _ name c₃ hname e hexternal =>
      obtain ⟨-, htook, -⟩ := of_name hname
      have hstop := (stop_skipBlanks c₃).trans (htook.stop_eq.trans hstart)
      exact hstop ▸ (failsWithin_externalId? src _).rethrow hexternal
  | case4 c₁ c₂ _ name c₃ hname externalId c₄ hexternal e hsubset =>
      obtain ⟨-, htook, -⟩ := of_name hname
      have hstop : c₄.skipBlanks.stop = c.stop := by
        rw [stop_skipBlanks, stop_externalId? hexternal, stop_skipBlanks, htook.stop_eq, hstart]
      exact hstop ▸ (failsWithin_subset? src _).rethrow hsubset
  | case5 c₁ c₂ _ name c₃ hname externalId c₄ hexternal subset c₅ hsubset c₆ hclose =>
      obtain ⟨-, htook, -⟩ := of_name hname
      obtain ⟨-, htook'⟩ := of_subset? hsubset
      refine failsWithin_fail ?_ _
      rw [stop_skipBlanks, htook'.stop_eq, stop_skipBlanks, stop_externalId? hexternal, stop_skipBlanks,
        htook.stop_eq, hstart]
  | case6 => exact failsWithin_ok

/-! ### Documents -/

theorem failsWithin_topLevel (draft : Draft) (c : Cursor) : FailsWithin c.stop (topLevel src draft c) := by
  fun_induction topLevel src draft c with
  | case1 => exact failsWithin_ok
  | case2 draft c c₁ _ _ e htok => exact stop_skipBlanks c ▸ (failsWithin_token src c₁ _ _).rethrow htok
  | case3 draft c c₁ _ _ tok d htok ih =>
      obtain ⟨-, htook, -⟩ := of_token (by simp) htok
      exact htook.stop_eq.trans (stop_skipBlanks c) ▸ ih
  | case4 draft c => exact failsWithin_fail (stop_skipBlanks c) _
  | case5 draft c c₁ _ _ hstart _ e hdecl =>
      exact stop_skipBlanks c ▸ (failsWithin_doctype hstart).rethrow hdecl
  | case6 draft c c₁ _ _ hstart _ decl d hdecl ih =>
      obtain ⟨s, -, htook, -⟩ := of_doctype hstart hdecl
      exact htook.stop_eq.trans (stop_skipBlanks c) ▸ ih
  | case7 draft c c₁ _ _ _ _ e htok => exact stop_skipBlanks c ▸ (failsWithin_instruction src c₁).rethrow htok
  | case8 draft c c₁ _ _ _ _ tok d htok ih =>
      obtain ⟨-, -, htook, -⟩ := of_instruction htok
      exact htook.stop_eq.trans (stop_skipBlanks c) ▸ ih
  | case9 draft c => exact failsWithin_fail (stop_skipBlanks c) _
  | case10 draft c c₁ _ _ _ _ hstart _ e hroot =>
      obtain ⟨t, ht⟩ := Text.startsWith_iff.1 hstart
      exact stop_skipBlanks c ▸ (failsWithin_element ht).rethrow hroot
  | case11 draft c c₁ _ _ _ _ hstart _ root d hroot ih =>
      obtain ⟨t, ht⟩ := Text.startsWith_iff.1 hstart
      obtain ⟨item, -, -, htook, -⟩ := of_element ht hroot
      exact htook.stop_eq.trans (stop_skipBlanks c) ▸ ih
  | case12 draft c => exact failsWithin_fail (stop_skipBlanks c) _

theorem failsWithin_prolog? (src : Source) (c : Cursor) : FailsWithin c.stop (c.prolog? src) := by
  fun_cases prolog? src c with
  | case1 => exact failsWithin_ok
  | case2 c₁ hstart e hattrs =>
      have hstop := (of_prologStart? hstart).1.stop_eq
      refine FailsWithin.rethrow ?_ hattrs
      rw [← hstop]
      exact failsWithin_attrs (hstop ▸ c.offset_le_stop)
  | case3 => exact failsWithin_ok

theorem failsWithin_draft (src : Source) (c : Cursor) : FailsWithin c.stop (c.draft src) := by
  fun_cases draft src c with
  | case1 e hprolog => exact (failsWithin_prolog? src c).rethrow hprolog
  | case2 prolog d hprolog =>
      obtain ⟨-, rfl⟩ | ⟨decl, -, -, htook⟩ := of_prolog? hprolog
      · exact failsWithin_topLevel _ d
      · exact htook.stop_eq ▸ failsWithin_topLevel _ d

end Cursor

/-- A text is refused at one of its offsets, the one behind its last character included. -/
theorem Document.offset_le_of_read {t : Text} {e : SyntaxError} (h : read t = .error e) :
    e.offset ≤ t.length ∧ e.position = .of t (min e.offset (t.length - 1)) := by
  rw [read] at h
  split at h
  · next failure hdraft =>
      cases h
      have hle := Cursor.failsWithin_draft _ _ _ hdraft
      refine ⟨by simpa [SyntaxError.ofFailure, Cursor.stop, Cursor.ofText] using hle, ?_⟩
      have hplace : min failure.offset ((Source.ofText t).text.length - 1) ≤ t.length :=
        Nat.le_trans (Nat.min_le_right ..) (Nat.sub_le ..)
      rw [SyntaxError.ofFailure, Source.position_ofText hplace]
      rfl
  · cases h

end XmlTidy
