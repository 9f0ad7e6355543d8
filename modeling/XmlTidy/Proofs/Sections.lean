import XmlTidy.Settings.Profile

/-!
What the check of a section lets through. A section that passes has known choices, set markers that differ, and
positive widths; its values are those it was given, with every choice under its first name. So a section that
passed passes again, and keeps its values.
-/

namespace XmlTidy

theorem exists_of_bind_eq_ok {ε α β : Type} {x : Except ε α} {f : α → Except ε β} {b : β} (h : x >>= f = .ok b) :
    ∃ a, x = .ok a ∧ f a = .ok b := by
  cases x with
  | error e => cases h
  | ok a => exact ⟨a, rfl, h⟩

theorem eq_ok_of_mapError {ε ε' α : Type} {x : Except ε α} {f : ε → ε'} {a : α} (h : x.mapError f = .ok a) :
    x = .ok a := by
  cases x with
  | error fault => cases h
  | ok b => exact congrArg Except.ok (Except.ok.inj h)

/-! ### Choices -/

namespace Setting

/-- The first name of what a name stands for. -/
def firstName : Setting → String → String
  | .whitespaceSensitivity, name => if name = "ignorable" then Sensitivity.ignore.key else name
  | _, name => name

/-- The value that a setting keeps of one that it is given. -/
def kept (setting : Setting) : Json → Json
  | .str name => .str (setting.firstName name)
  | value => value

/-- Only one setting has values with a second name. -/
theorem kept_eq_self {setting : Setting} (h : setting ≠ .whitespaceSensitivity) (value : Json) :
    setting.kept value = value := by
  cases value with
  | str name =>
      cases setting with
      | whitespaceSensitivity => exact absurd rfl h
      | _ => rfl
  | _ => rfl

end Setting

theorem QuoteStyle.ofKey?_key (style : QuoteStyle) : ofKey? style.key = some style := by
  cases style <;> rfl

theorem Sensitivity.ofKey?_key (sensitivity : Sensitivity) : ofKey? sensitivity.key = some sensitivity := by
  cases sensitivity <;> rfl

theorem LineEnd.ofKey?_key (lineEnd : LineEnd) : ofKey? lineEnd.key = some lineEnd := by
  cases lineEnd <;> rfl

theorem QuoteStyle.key_of_ofKey? {name : String} {style : QuoteStyle} (h : ofKey? name = some style) :
    style.key = name := by
  simpa using List.find?_some h

theorem LineEnd.key_of_ofKey? {name : String} {lineEnd : LineEnd} (h : ofKey? name = some lineEnd) :
    lineEnd.key = name := by
  simpa using List.find?_some h

theorem Sensitivity.key_of_ofKey? {name : String} {sensitivity : Sensitivity}
    (h : ofKey? name = some sensitivity) :
    sensitivity.key = Setting.firstName .whitespaceSensitivity name := by
  rw [ofKey?] at h
  by_cases hname : name = "ignorable"
  · rw [if_pos hname] at h
    cases h
    exact (if_pos hname).symm
  · rw [if_neg hname] at h
    have hkey : sensitivity.key = name := by simpa using List.find?_some h
    exact hkey.trans (if_neg hname).symm

section Choices

variable {α : Type} {choice : Choice} {key : α → String} {ofKey? : String → Option α}

/-- A choice is kept under its first name. -/
theorem kept_of_checkChoice {setting : Setting}
    (hkey : ∀ {name x}, ofKey? name = some x → key x = setting.firstName name) {value kept : Json}
    (h : checkChoice choice (fun name => (ofKey? name).map key) value = .ok kept) :
    kept = setting.kept value := by
  cases value with
  | str name =>
      rw [checkChoice] at h
      cases hof : ofKey? name with
      | none => simp [hof] at h
      | some x =>
          simp only [hof, Option.map_some, Except.ok.injEq] at h
          rw [← h, hkey hof, Setting.kept]
  | scalar s =>
      cases s with
      | halved codes => cases h
      | _ =>
          cases h
          rfl
  | _ =>
      cases h
      rfl

/-- A first name stands for itself. -/
theorem checkChoice_of_checkChoice (hkey : ∀ x, ofKey? (key x) = some x) {value kept : Json}
    (h : checkChoice choice (fun name => (ofKey? name).map key) value = .ok kept) :
    checkChoice choice (fun name => (ofKey? name).map key) kept = .ok kept := by
  cases value with
  | str name =>
      rw [checkChoice] at h
      cases hof : ofKey? name with
      | none => simp [hof] at h
      | some x =>
          simp only [hof, Option.map_some, Except.ok.injEq] at h
          rw [← h, checkChoice]
          simp only [hkey x, Option.map_some]
  | scalar s =>
      cases s with
      | halved codes => cases h
      | _ =>
          cases h
          rfl
  | _ =>
      cases h
      rfl

end Choices

/-! ### Sections that pass -/

/-- What the check of the printer section lets through. -/
structure PrinterChecked (values checked : Values) : Prop where
  quotes : checkChoice .quotes (fun name => (QuoteStyle.ofKey? name).map QuoteStyle.key) (values .quoteAttributes) =
    .ok (checked .quoteAttributes)
  sensitivity : checkChoice .sensitivity (fun name => (Sensitivity.ofKey? name).map Sensitivity.key)
    (values .whitespaceSensitivity) = .ok (checked .whitespaceSensitivity)
  start_set : (values .ignoreStartMarker).isVoid = false
  end_set : (values .ignoreEndMarker).isVoid = false
  differ : (values .ignoreStartMarker).equals (values .ignoreEndMarker) = false
  others : ∀ setting, setting ≠ .quoteAttributes → setting ≠ .whitespaceSensitivity →
    checked setting = values setting

/-- What the check of the layout section lets through. -/
structure LayoutChecked (values checked : Values) : Prop where
  lineEnd : checkChoice .lineEnd (fun name => (LineEnd.ofKey? name).map LineEnd.key) (values .endOfLine) =
    .ok (checked .endOfLine)
  width : isPositive (values .printWidth) = .ok true
  tabWidth : isPositive (values .tabWidth) = .ok true
  others : ∀ setting, setting ≠ .endOfLine → checked setting = values setting

theorem checkPrinter_iff {values checked : Values} :
    checkPrinter values = .ok checked ↔ PrinterChecked values checked := by
  constructor
  · intro h
    rw [checkPrinter] at h
    obtain ⟨quotes, hquotes, h⟩ := exists_of_bind_eq_ok h
    obtain ⟨sensitivity, hsensitivity, h⟩ := exists_of_bind_eq_ok h
    by_cases hvoid : ((values .ignoreStartMarker).isVoid || (values .ignoreEndMarker).isVoid) = true
    · simp only [hvoid, if_true] at h
      cases h
    · by_cases hequal : (values .ignoreStartMarker).equals (values .ignoreEndMarker) = true
      · simp only [hvoid, hequal, if_true] at h
        cases h
      · simp only [hvoid, hequal] at h
        cases h
        rw [Bool.or_eq_true, not_or, Bool.not_eq_true, Bool.not_eq_true] at hvoid
        refine ⟨?_, ?_, hvoid.1, hvoid.2, Bool.not_eq_true _ ▸ hequal, ?_⟩
        · exact hquotes
        · exact hsensitivity
        · intro setting hq hs
          simp [Values.set, hq, hs]
  · intro h
    have heq : checked = (values.set .quoteAttributes (checked .quoteAttributes)).set .whitespaceSensitivity
        (checked .whitespaceSensitivity) := by
      funext setting
      by_cases hs : setting = .whitespaceSensitivity
      · simp [Values.set, hs]
      · by_cases hq : setting = .quoteAttributes
        · simp [Values.set, hq]
        · simp [Values.set, hs, hq, h.others setting hq hs]
    rw [checkPrinter, h.quotes, h.sensitivity]
    simp only [bind, Except.bind, h.start_set, h.end_set, h.differ, pure, Except.pure]
    exact congrArg Except.ok heq.symm

theorem checkLayout_iff {values checked : Values} :
    checkLayout values = .ok checked ↔ LayoutChecked values checked := by
  constructor
  · intro h
    rw [checkLayout] at h
    obtain ⟨lineEnd, hlineEnd, h⟩ := exists_of_bind_eq_ok h
    obtain ⟨width, hwidth, h⟩ := exists_of_bind_eq_ok h
    cases width with
    | false => cases h
    | true =>
        obtain ⟨tabWidth, htabWidth, h⟩ := exists_of_bind_eq_ok h
        cases tabWidth with
        | false => cases h
        | true =>
            cases h
            refine ⟨hlineEnd, hwidth, htabWidth, ?_⟩
            intro setting hsetting
            simp [Values.set, hsetting]
  · intro h
    have heq : checked = values.set .endOfLine (checked .endOfLine) := by
      funext setting
      by_cases hsetting : setting = .endOfLine
      · simp [Values.set, hsetting]
      · simp [Values.set, hsetting, h.others setting hsetting]
    rw [checkLayout, h.lineEnd]
    simp only [bind, Except.bind, h.width, h.tabWidth, pure, Except.pure]
    exact congrArg Except.ok heq.symm

namespace Section

variable {s : Section} {values checked : Values}

/-- The values of a section that passed are those it was given, with choices under their first names. -/
theorem kept_of_check (h : s.check values = .ok checked) {setting : Setting} (hs : setting ∈ s.settings) :
    checked setting = setting.kept (values setting) := by
  cases s with
  | printer =>
      have h' := checkPrinter_iff.1 h
      by_cases hsensitivity : setting = .whitespaceSensitivity
      · rw [hsensitivity]
        exact kept_of_checkChoice Sensitivity.key_of_ofKey? h'.sensitivity
      · by_cases hquotes : setting = .quoteAttributes
        · rw [hquotes]
          exact kept_of_checkChoice QuoteStyle.key_of_ofKey? h'.quotes
        · rw [h'.others setting hquotes hsensitivity, Setting.kept_eq_self hsensitivity]
  | layout =>
      have h' := checkLayout_iff.1 h
      have hsensitivity : setting ≠ .whitespaceSensitivity := by
        rintro rfl
        simp [settings] at hs
      by_cases hlineEnd : setting = .endOfLine
      · rw [hlineEnd]
        exact kept_of_checkChoice LineEnd.key_of_ofKey? h'.lineEnd
      · rw [h'.others setting hlineEnd, Setting.kept_eq_self hsensitivity]

/-- A section that passed passes again. -/
theorem check_of_check (h : s.check values = .ok checked) : s.check checked = .ok checked := by
  cases s with
  | printer =>
      have h' := checkPrinter_iff.1 h
      have hstart := h'.others .ignoreStartMarker (by decide) (by decide)
      have hend := h'.others .ignoreEndMarker (by decide) (by decide)
      apply checkPrinter_iff.2
      exact {
        quotes := checkChoice_of_checkChoice QuoteStyle.ofKey?_key h'.quotes
        sensitivity := checkChoice_of_checkChoice Sensitivity.ofKey?_key h'.sensitivity
        start_set := by rw [hstart, h'.start_set]
        end_set := by rw [hend, h'.end_set]
        differ := by rw [hstart, hend, h'.differ]
        others := fun _ _ _ => rfl }
  | layout =>
      have h' := checkLayout_iff.1 h
      apply checkLayout_iff.2
      exact {
        lineEnd := checkChoice_of_checkChoice LineEnd.ofKey?_key h'.lineEnd
        width := by rw [h'.others .printWidth (by decide), h'.width]
        tabWidth := by rw [h'.others .tabWidth (by decide), h'.tabWidth]
        others := fun _ _ => rfl }

end Section

/-! ### Profiles -/

namespace Profile

/-- A profile whose sections passed their checks. -/
def Checked (p : Profile) : Prop := ∀ s, ∃ values, Section.check s values = .ok (p.get s)

theorem Checked.check {p : Profile} (h : p.Checked) (s : Section) : s.check (p.get s) = .ok (p.get s) := by
  obtain ⟨values, hvalues⟩ := h s
  exact Section.check_of_check hvalues

theorem checked_default : Checked {} := by
  intro s
  refine ⟨Setting.default, ?_⟩
  cases s with
  | printer => exact checkPrinter_iff.2 ⟨rfl, rfl, rfl, rfl, rfl, fun _ _ _ => rfl⟩
  | layout => exact checkLayout_iff.2 ⟨rfl, rfl, rfl, fun _ _ => rfl⟩

/-- A profile whose printer section passed its check, with texts for markers. -/
structure ValidMarkers (p : Profile) : Prop where
  checked : ∃ values, checkPrinter values = .ok p.printer
  start : ∃ marker, p.printer .ignoreStartMarker = .str marker
  stop : ∃ marker, p.printer .ignoreEndMarker = .str marker

theorem ValidMarkers.style_valid {p : Profile} (h : p.ValidMarkers) : p.style.Valid := by
  obtain ⟨⟨values, hvalues⟩, ⟨start, hstart⟩, ⟨stop, hstop⟩⟩ := h
  have hchecked := checkPrinter_iff.1 (Section.check_of_check (s := .printer) hvalues)
  have hstartSet := hchecked.start_set
  have hendSet := hchecked.end_set
  have hdiffer := hchecked.differ
  rw [hstart] at hstartSet hdiffer
  rw [hstop] at hendSet hdiffer
  constructor
  · intro hnil
    rw [style, hstart] at hnil
    simp [textOf] at hnil
    simp [Json.isVoid, hnil] at hstartSet
  · intro hnil
    rw [style, hstop] at hnil
    simp [textOf] at hnil
    simp [Json.isVoid, hnil] at hendSet
  · intro hequal
    rw [style, hstart, hstop] at hequal
    simp only [textOf] at hequal
    rw [String.toList_injective hequal] at hdiffer
    simp [Json.equals, Json.same] at hdiffer

end Profile

end XmlTidy
