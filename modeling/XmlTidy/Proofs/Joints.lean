import XmlTidy.Proofs.SpelledLayout

/-!
How the entries of reflowed children are joined. The joint of an entry depends on the item before it; what
flows into the text behind an item is taken off the entries, and what is left stays on lines of its own.
-/

namespace XmlTidy

namespace Spelled

/-! ### Joints -/

theorem joint_none (e : Entry) :
    e.joint none =
      if e.item.isComment then
        if e.gap.hasNewline then .newLine else .attach (!e.gap.isEmpty)
      else .newLine := by
  simp [Entry.joint]

theorem joint_some (e : Entry) (item : Item) :
    e.joint (some item) =
      if 2 ≤ lineEnds item e.gap then .blankLine
      else if e.item.isComment then
        if e.gap.hasNewline then .newLine else .beside (!e.gap.isEmpty || item.endsBlank)
      else if e.item.isInline && item.isInline then .flow (!e.gap.isEmpty || item.endsBlank)
      else .newLine := by
  simp [Entry.joint]

theorem isInline_of_flow {item : Item} {e : Entry} {spaced : Bool} (h : e.joint item = .flow spaced) :
    e.item.isInline = true := by
  rw [joint_some] at h
  split at h
  · cases h
  · split at h
    · split at h <;> cases h
    · split at h
      · next hinline => exact (Bool.and_eq_true_iff.1 hinline).1
      · cases h

theorem isComment_of_beside {previous : Option Item} {e : Entry} {spaced : Bool}
    (h : e.joint previous = .beside spaced) : e.item.isComment = true := by
  cases previous with
  | none =>
      rw [joint_none] at h
      split at h
      · assumption
      · cases h
  | some item =>
      rw [joint_some] at h
      split at h
      · cases h
      · split at h
        · assumption
        · split at h <;> cases h

theorem isComment_of_attach {e : Entry} {spaced : Bool} (h : e.joint none = .attach spaced) :
    e.item.isComment = true := by
  rw [joint_none] at h
  split at h
  · assumption
  · cases h

/-! ### What flows into the text -/

/-- The entries that flow into the text behind an item. -/
def flowTake (previous : Item) : List Entry → List Entry
  | [] => []
  | e :: rest =>
      match e.joint previous with
      | .flow _ => e :: flowTake e.item rest
      | _ => []

section Stop

variable {previous : Item} {es : List Entry}

/-- Entries of which the first does not flow into the text. -/
def Stays (previous : Item) (es : List Entry) : Prop :=
  ∀ e ∈ es.head?, ∀ spaced, e.joint previous ≠ .flow spaced

theorem flowParts_of_stays (h : Stays previous es) (layout : Item → Doc) :
    flowParts layout previous es = [] := by
  cases es with
  | nil => rfl
  | cons e rest =>
      rw [flowParts]
      split
      · next spaced hjoint => exact absurd hjoint (h e rfl spaced)
      · rfl

theorem flowRest_of_stays (h : Stays previous es) : flowRest previous es = (previous, es) := by
  cases es with
  | nil => rfl
  | cons e rest =>
      rw [flowRest]
      split
      · next spaced hjoint => exact absurd hjoint (h e rfl spaced)
      · rfl

theorem flowTake_of_stays (h : Stays previous es) : flowTake previous es = [] := by
  cases es with
  | nil => rfl
  | cons e rest =>
      rw [flowTake]
      split
      · next spaced hjoint => exact absurd hjoint (h e rfl spaced)
      · rfl

theorem flow_or_stays (previous : Item) (e : Entry) (rest : List Entry) :
    (∃ spaced, e.joint previous = .flow spaced) ∨ Stays previous (e :: rest) := by
  by_cases h : ∃ spaced, e.joint previous = .flow spaced
  · exact .inl h
  · refine .inr fun e' he' spaced hjoint => h ⟨spaced, ?_⟩
    obtain rfl : e = e' := by simpa using he'
    exact hjoint

section Flow

variable {e : Entry} {rest : List Entry} {spaced : Bool} (h : e.joint previous = .flow spaced)
include h

theorem flowParts_flow (layout : Item → Doc) :
    flowParts layout previous (e :: rest) =
      delimiter spaced :: layout e.item :: flowParts layout e.item rest := by
  simp only [flowParts, h]

theorem flowRest_flow : flowRest previous (e :: rest) = flowRest e.item rest := by
  simp only [flowRest, h]

theorem flowTake_flow : flowTake previous (e :: rest) = e :: flowTake e.item rest := by
  simp only [flowTake, h]

end Flow

theorem flowTake_append (previous : Item) (es : List Entry) :
    flowTake previous es ++ (flowRest previous es).2 = es := by
  induction es generalizing previous with
  | nil => rfl
  | cons e rest ih =>
      rcases flow_or_stays previous e rest with ⟨spaced, h⟩ | h
      · rw [flowTake_flow h, flowRest_flow h, List.cons_append, ih]
      · rw [flowTake_of_stays h, flowRest_of_stays h]
        rfl

theorem stays_flowRest (previous : Item) (es : List Entry) :
    Stays (flowRest previous es).1 (flowRest previous es).2 := by
  induction es generalizing previous with
  | nil => simp [Stays, flowRest]
  | cons e rest ih =>
      rcases flow_or_stays previous e rest with ⟨spaced, h⟩ | h
      · rw [flowRest_flow h]
        exact ih e.item
      · rw [flowRest_of_stays h]
        exact h

end Stop

theorem stays_of_not_inline {item : Item} (h : item.isInline = false) (es : List Entry) : Stays item es := by
  intro e _ spaced hjoint
  rw [joint_some, h] at hjoint
  split at hjoint
  · cases hjoint
  · split at hjoint
    · split at hjoint <;> cases hjoint
    · simp at hjoint

theorem not_text_of_not_inline {item : Item} (h : item.isInline = false) : item.isText = false := by
  cases item with
  | leaf cls image => cases cls <;> first | rfl | cases h
  | _ => rfl

/-- What text flows behind flows itself. -/
theorem isInline_of_flowRest {item : Item} {es : List Entry} (h : (flowRest item es).1.isText = true) :
    item.isInline = true := by
  cases hinline : item.isInline with
  | true => rfl
  | false =>
      rw [flowRest_of_stays (stays_of_not_inline hinline es), not_text_of_not_inline hinline] at h
      cases h

end Spelled

end XmlTidy
