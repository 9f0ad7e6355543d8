import XmlTidy.Proofs.Stages
import XmlTidy.Proofs.Writing

/-!
Measuring is exact, and what fits is printed flat. Measuring answers whether there is room for all that stands in
front of the first line break, nothing more and nothing less. From this it follows that a group that has room on the
page is printed on one line: neither the groups inside it nor the fills, which measure their parts again, decide
otherwise.
-/

namespace XmlTidy

open Command

/-- Measuring a command and those behind it always gives an answer, and it is yes if and only if the width is not
negative, there is room for what comes before the first line break, and, if it is asked for, no group before it has to
break. -/
theorem fits_iff_room {next : Command} {rest : List Command} (h : Valid (next :: rest)) (must : Bool) (width : Int) :
    ∃ measured, fits must width (next :: rest) = .ok measured ∧
      (measured = true ↔ 0 ≤ width ∧ Sight.total (Sight.firstLine (sights (next :: rest))) ≤ width ∧
        (must = true → .forcedGroup ∉ Sight.firstLine (sights (next :: rest)))) := by
  refine ⟨_, (fits_eq_scan ..).trans (Sight.scan_eq_roomy (stray?_of_valid h) must width), ?_⟩
  rw [decide_eq_true_iff]
  rfl

/-- A group with a fill in front of a command that breaks its line. -/
def Command.clause : List Command :=
  [⟨0, .flat, .grouped (.concat [.text ['a'], .spaceLine,
      .fill [.text ['b'], .softLine, .group (.ifBreak (.text ['c', 'd']) (.text ['c'])) true]])⟩,
    ⟨0, .broken, .concat [.text ['e'], .softLine, .text ['f']]⟩]

/-- The clause takes up six columns in front of its line break, and one of its groups has to break. -/
theorem fits_iff_room_clause :
    Valid clause ∧ fits false (6 : Int) clause = .ok true ∧ fits false (5 : Int) clause = .ok false ∧
      fits true (6 : Int) clause = .ok false := by
  have hvalid : Valid clause := by simp [Valid, clause, Doc.grouped, Doc.spaceLine, Doc.softLine]
  have hanswer : ∀ must width answer, (answer = true ↔ Sight.Roomy must width (Sight.firstLine (sights clause))) →
      fits must width clause = .ok answer := by
    intro must width answer hroom
    obtain ⟨measured, hfits, hiff⟩ := fits_iff_room hvalid must width
    rw [clause, hfits, Bool.eq_iff_iff.2 (hiff.trans hroom.symm)]
  exact ⟨hvalid, hanswer false 6 true (by decide +kernel), hanswer false 5 false (by decide +kernel),
    hanswer true 6 false (by decide +kernel)⟩

/-! ### The flat form of a document -/

namespace Doc

mutual
/-- The text of a document on one line. -/
def flatForm : Doc → Text
  | .text t => t
  | .concat parts | .fill parts => flatFormAll parts
  | .indent contents | .group contents _ => flatForm contents
  | .ifBreak _ flat => flatForm flat
  | .line l => if l.soft then [] else [' ']
  | .breakParent | .stray _ => []

def flatFormAll : List Doc → Text
  | [] => []
  | doc :: docs => flatForm doc ++ flatFormAll docs
end

mutual
/-- Whether nothing keeps a document from standing on one line: it holds no hard line, no `breakParent`, no group that
was created to break, no text with a newline and no stray value. -/
def canBeFlat : Doc → Bool
  | .text t => !t.hasNewline
  | .concat parts | .fill parts => allCanBeFlat parts
  | .indent contents => canBeFlat contents
  | .group contents forced => !forced && canBeFlat contents
  | .ifBreak broken flat => canBeFlat broken && canBeFlat flat
  | .line l => !l.hard
  | .breakParent | .stray _ => false

def allCanBeFlat : List Doc → Bool
  | [] => true
  | doc :: docs => canBeFlat doc && allCanBeFlat docs
end

theorem flatFormAll_eq (docs : List Doc) : flatFormAll docs = docs.flatMap flatForm := by
  induction docs with
  | nil => rfl
  | cons doc docs ih => rw [flatFormAll, ih, List.flatMap_cons]

theorem allCanBeFlat_iff {docs : List Doc} : allCanBeFlat docs = true ↔ ∀ doc ∈ docs, doc.canBeFlat = true := by
  induction docs with
  | nil => simp [allCanBeFlat]
  | cons doc docs ih => simp [allCanBeFlat, ih]

@[simp] theorem canBeFlat_fill {parts : List Doc} :
    (fill parts).canBeFlat = true ↔ ∀ doc ∈ parts, doc.canBeFlat = true := allCanBeFlat_iff

/-- A branch that is passed over holds nothing. -/
theorem flatForm_of_isVoid {doc : Doc} (h : doc.isVoid = true) : doc.flatForm = [] := by
  cases doc with
  | text t => exact List.isEmpty_iff.1 h
  | concat parts =>
      rw [isVoid, List.isEmpty_iff] at h
      rw [h]
      rfl
  | stray value => rfl
  | _ => cases h

mutual
/-- There is nothing to mark in a document that can be flat. -/
theorem propagate_of_canBeFlat {doc : Doc} (h : doc.canBeFlat = true) : doc.propagate = (doc, false) := by
  cases doc with
  | concat parts | fill parts =>
      rw [canBeFlat] at h
      rw [propagate, propagateAll_of_canBeFlat h]
  | indent contents =>
      rw [canBeFlat] at h
      rw [propagate, propagate_of_canBeFlat h]
  | group contents forced =>
      rw [canBeFlat, Bool.and_eq_true, Bool.not_eq_true'] at h
      rw [propagate, propagate_of_canBeFlat h.2, h.1]
      rfl
  | ifBreak broken flat =>
      rw [canBeFlat, Bool.and_eq_true] at h
      rw [propagate, propagate_of_canBeFlat h.1, propagate_of_canBeFlat h.2]
      rfl
  | text | line => rfl
  | breakParent | stray => cases h

theorem propagateAll_of_canBeFlat {docs : List Doc} (h : allCanBeFlat docs = true) :
    propagateAll docs = (docs, false) := by
  cases docs with
  | nil => rfl
  | cons doc docs =>
      rw [allCanBeFlat, Bool.and_eq_true] at h
      rw [propagateAll, propagate_of_canBeFlat h.1, propagateAll_of_canBeFlat h.2]
      rfl
end

mutual
theorem hasNewline_flatForm {doc : Doc} (h : doc.canBeFlat = true) : doc.flatForm.hasNewline = false := by
  cases doc with
  | text t => simpa [canBeFlat, flatForm] using h
  | concat parts | fill parts =>
      rw [canBeFlat] at h
      rw [flatForm]
      exact hasNewline_flatFormAll h
  | indent contents =>
      rw [canBeFlat] at h
      rw [flatForm]
      exact hasNewline_flatForm h
  | group contents forced =>
      rw [canBeFlat, Bool.and_eq_true] at h
      rw [flatForm]
      exact hasNewline_flatForm h.2
  | ifBreak broken flat =>
      rw [canBeFlat, Bool.and_eq_true] at h
      rw [flatForm]
      exact hasNewline_flatForm h.2
  | line l =>
      rw [flatForm]
      split <;> rfl
  | breakParent | stray => rfl

theorem hasNewline_flatFormAll {docs : List Doc} (h : allCanBeFlat docs = true) :
    (flatFormAll docs).hasNewline = false := by
  cases docs with
  | nil => rfl
  | cons doc docs =>
      rw [allCanBeFlat, Bool.and_eq_true] at h
      rw [flatFormAll, Text.hasNewline_append, hasNewline_flatForm h.1, hasNewline_flatFormAll h.2]
      rfl
end

mutual
/-- In flat mode, measuring meets the columns of the flat form and nothing else. -/
theorem sights_flat {doc : Doc} (h : doc.canBeFlat = true) :
    (∀ sight ∈ doc.sights .flat, sight = .columns sight.width) ∧
      Sight.total (doc.sights .flat) = doc.flatForm.width := by
  cases doc with
  | text t => simp [sights, flatForm, Sight.total, Sight.width]
  | concat parts | fill parts =>
      rw [canBeFlat] at h
      rw [sights, flatForm]
      exact sightsAll_flat h
  | indent contents =>
      rw [canBeFlat] at h
      rw [sights, flatForm]
      exact sights_flat h
  | group contents forced =>
      rw [canBeFlat, Bool.and_eq_true, Bool.not_eq_true'] at h
      rw [sights, h.1, flatForm]
      exact sights_flat h.2
  | ifBreak broken flat =>
      rw [canBeFlat, Bool.and_eq_true] at h
      rw [sights, flatForm]
      by_cases hvoid : flat.isVoid = true
      · rw [if_pos hvoid, flatForm_of_isVoid hvoid]
        simp [Sight.total, Text.width]
      · rw [if_neg hvoid]
        exact sights_flat h.2
  | line l =>
      rw [canBeFlat, Bool.not_eq_true'] at h
      rw [sights, h, flatForm]
      by_cases hsoft : l.soft = true
      · simp [hsoft, Sight.total, Text.width]
      · simp [hsoft, Sight.total, Sight.width]
        rfl
  | breakParent | stray => cases h

theorem sightsAll_flat {docs : List Doc} (h : allCanBeFlat docs = true) :
    (∀ sight ∈ sightsAll .flat docs, sight = .columns sight.width) ∧
      Sight.total (sightsAll .flat docs) = (flatFormAll docs).width := by
  cases docs with
  | nil => simp [sightsAll, flatFormAll, Sight.total, Text.width]
  | cons doc docs =>
      rw [allCanBeFlat, Bool.and_eq_true] at h
      obtain ⟨hdoc, hwidth⟩ := sights_flat h.1
      obtain ⟨hdocs, hwidths⟩ := sightsAll_flat h.2
      rw [sightsAll, flatFormAll, Sight.total_append, Text.width_append, hwidth, hwidths]
      exact ⟨List.forall_mem_append.2 ⟨hdoc, hdocs⟩, rfl⟩
end

end Doc

open Doc Stage

/-! ### A line that is printed flat -/

namespace Command

/-- The text of commands on one line. -/
def flatText (front : List Command) : Text := front.flatMap fun c => c.doc.flatForm

theorem flatText_cons (c : Command) (front : List Command) :
    flatText (c :: front) = c.doc.flatForm ++ flatText front := List.flatMap_cons

theorem flatText_append (s t : List Command) : flatText (s ++ t) = flatText s ++ flatText t := List.flatMap_append

theorem flatText_map (depth : Nat) (mode : Mode) (docs : List Doc) :
    flatText (docs.map (⟨depth, mode, ·⟩)) = flatFormAll docs := by
  rw [flatText, List.flatMap_map, flatFormAll_eq]

/-- Commands that stand in flat mode and can be flat. -/
def Flat (front : List Command) : Prop := ∀ c ∈ front, c.mode = .flat ∧ c.doc.canBeFlat = true

theorem flat_map (depth : Nat) {docs : List Doc} (h : ∀ doc ∈ docs, doc.canBeFlat = true) :
    Flat (docs.map (⟨depth, .flat, ·⟩)) := by
  intro c hc
  obtain ⟨doc, hdoc, rfl⟩ := List.mem_map.1 hc
  exact ⟨rfl, h doc hdoc⟩

theorem Flat.hasNewline {front : List Command} (h : Flat front) : (flatText front).hasNewline = false := by
  induction front with
  | nil => rfl
  | cons c front ih =>
      obtain ⟨hc, hfront⟩ := List.forall_mem_cons.1 h
      rw [flatText_cons, Text.hasNewline_append, hasNewline_flatForm hc.2, ih hfront]
      rfl

theorem Flat.sights {front : List Command} (h : Flat front) :
    (∀ sight ∈ sights front, sight = .columns sight.width) ∧
      Sight.total (Command.sights front) = (flatText front).width := by
  induction front with
  | nil => simp [Command.sights, flatText, Sight.total, Text.width]
  | cons c front ih =>
      obtain ⟨⟨hmode, hdoc⟩, hfront⟩ := List.forall_mem_cons.1 h
      obtain ⟨hsights, hwidth⟩ := sights_flat hdoc
      obtain ⟨hsights', hwidth'⟩ := ih hfront
      rw [sights_cons, hmode, flatText_cons, Sight.total_append, Text.width_append, hwidth, hwidth']
      exact ⟨List.forall_mem_append.2 ⟨hsights, hsights'⟩, rfl⟩

/-- Flat commands fit if there is room for their text. -/
theorem Flat.fits {front : List Command} (h : Flat front) (must : Bool) {width : Int}
    (hroom : (flatText front).width ≤ width) : XmlTidy.fits must width front = .ok true := by
  obtain ⟨hcolumns, hwidth⟩ := h.sights
  have hstray : ∀ sight ∈ Command.sights front, sight.stray? = none := by
    intro sight hsight
    rw [hcolumns sight hsight]
    rfl
  have hline : Sight.firstLine (Command.sights front) = Command.sights front := by
    apply List.takeWhile_eq_self_iff.2
    intro sight hsight
    rw [hcolumns sight hsight]
    rfl
  have hforced : Sight.forcedGroup ∉ Command.sights front := by
    intro hmem
    cases hcolumns _ hmem
  rw [fits_eq_scan, Sight.scan_eq_roomy hstray, hline, decide_eq_true]
  exact ⟨by omega, by omega, fun _ => hforced⟩

end Command

/-- A fill that has room is printed flat, all of its parts: no separator is broken. -/
theorem fillFront_flat {parts : List Doc} (h : ∀ doc ∈ parts, doc.canBeFlat = true) (depth : Nat) {remaining : Int}
    (hroom : (flatFormAll parts).width ≤ remaining) :
    fillFront remaining depth .flat parts = .ok ((fillDocs parts).map (⟨depth, .flat, ·⟩)) := by
  -- what is measured is a number of parts from the front, so there is room for it
  have hfits : ∀ docs rest, parts = docs ++ rest →
      fits true remaining (docs.map (⟨depth, .flat, ·⟩)) = .ok true := by
    intro docs rest hparts
    apply (flat_map depth fun doc hdoc => h doc (by simp [hparts, hdoc])).fits
    rw [flatText_map]
    rw [hparts, flatFormAll_eq, List.flatMap_append, ← flatFormAll_eq, Text.width_append] at hroom
    omega
  match parts with
  | [] => rfl
  | [first] =>
      have hfirst := hfits [first] [] rfl
      simp only [List.map_cons, List.map_nil] at hfirst
      simp [fillFront, hfirst, fillDocs]
  | [first, separator] =>
      have hfirst := hfits [first] [separator] rfl
      simp only [List.map_cons, List.map_nil] at hfirst
      simp [fillFront, hfirst, fillDocs]
  | first :: separator :: next :: rest =>
      have hfirst := hfits [first] (separator :: next :: rest) rfl
      have hpair := hfits [first, separator, next] rest rfl
      simp only [List.map_cons, List.map_nil] at hfirst hpair
      simp [fillFront, hfirst, hpair, fillDocs]

theorem flatFormAll_fillDocs (parts : List Doc) : flatFormAll (fillDocs parts) = flatFormAll parts := by
  unfold fillDocs
  split
  · simp [flatFormAll, flatForm]
  · rfl

/-- Flat commands at the front of a stack that are about to print the rest of a line. -/
structure OneLine (page : Page) (goal p : Printed Text Int) (front : List Command) : Prop where
  flat : Flat front
  remeasure : p.remeasure = false
  printed : p.write (flatText front) = goal
  room : goal.column ≤ page.width

namespace OneLine

variable {page : Page} {goal p : Printed Text Int} {c : Command} {front : List Command}

theorem width_le (h : OneLine page goal p front) : ((flatText front).width : Int) ≤ page.width - p.column := by
  have hcolumn := congrArg Printed.column h.printed
  simp only [Printed.write_text, h.flat.hasNewline, Bool.false_eq_true, if_false] at hcolumn
  have hroom := h.room
  omega

/-- The first command writes some text and makes way for others that print the rest of it. -/
theorem replace (h : OneLine page goal p (c :: front)) (t : Text) (new : List Command) (hnew : Flat new)
    (ht : t ++ flatText new = c.doc.flatForm) : OneLine page goal (p.write t) (new ++ front) where
  flat := List.forall_mem_append.2 ⟨hnew, (List.forall_mem_cons.1 h.flat).2⟩
  remeasure := h.remeasure
  printed := by rw [flatText_append, Printed.write_write, ← List.append_assoc, ht, ← flatText_cons, h.printed]
  room := h.room

/-- The first command writes nothing and makes way for others that print the same. -/
theorem replace_nil (h : OneLine page goal p (c :: front)) (new : List Command) (hnew : Flat new)
    (hform : flatText new = c.doc.flatForm) : OneLine page goal p (new ++ front) := by
  have hline := h.replace [] new hnew hform
  rwa [Printed.write_nil] at hline

/-- One step on a line that is printed flat. -/
theorem exists_step (h : OneLine page goal p (c :: front)) (rest : List Command) :
    ∃ p' front', Step page ⟨p, c :: front ++ rest⟩ ⟨p', front' ++ rest⟩ ∧ OneLine page goal p' front' := by
  obtain ⟨depth, mode, doc⟩ := c
  obtain ⟨⟨hmode, hdoc⟩, -⟩ := List.forall_mem_cons.1 h.flat
  simp only at hmode hdoc
  subst hmode
  -- what stands in for a command that prints nothing by itself
  have hone : ∀ {contents : Doc} {depth' : Nat}, contents.canBeFlat = true → contents.flatForm = doc.flatForm →
      OneLine page goal p (⟨depth', .flat, contents⟩ :: front) := by
    intro contents depth' hcontents hform
    exact h.replace_nil [⟨depth', .flat, contents⟩] (by simpa [Flat] using hcontents) (by simpa [flatText] using hform)
  cases doc with
  | text t => exact ⟨_, front, rfl, h.replace t [] (by simp [Flat]) (by simp [flatText, flatForm])⟩
  | concat parts =>
      rw [canBeFlat, allCanBeFlat_iff] at hdoc
      refine ⟨p, push depth .flat parts front, by simp [Step, next, push], ?_⟩
      exact h.replace_nil _ (flat_map depth hdoc) (flatText_map depth .flat parts)
  | indent contents => exact ⟨p, _ :: front, rfl, hone hdoc rfl⟩
  | group contents forced =>
      rw [canBeFlat, Bool.and_eq_true, Bool.not_eq_true'] at hdoc
      refine ⟨p, ⟨depth, .flat, contents⟩ :: front, ?_, hone hdoc.2 rfl⟩
      simp [Step, next, h.remeasure, hdoc.1]
  | fill parts =>
      rw [canBeFlat_fill] at hdoc
      have hroom := h.width_le
      rw [flatText_cons, Text.width_append] at hroom
      have hfront := @fillFront_flat parts hdoc depth (page.width - p.column) (by
        rw [flatForm] at hroom
        omega)
      refine ⟨p, (fillDocs parts).map (⟨depth, .flat, ·⟩) ++ front, by simp [Step, next, hfront], ?_⟩
      have hnew : Flat ((fillDocs parts).map (⟨depth, .flat, ·⟩)) :=
        flat_map depth (forall_mem_fillDocs canBeFlat_fill.2 hdoc)
      exact h.replace_nil _ hnew (by rw [flatText_map, flatFormAll_fillDocs, flatForm])
  | ifBreak broken flat =>
      rw [canBeFlat, Bool.and_eq_true] at hdoc
      by_cases hvoid : flat.isVoid = true
      · refine ⟨p, front, by simp [Step, next, Mode.choose, hvoid], ?_⟩
        exact h.replace_nil [] (by simp [Flat]) (by rw [flatForm, flatForm_of_isVoid hvoid]; rfl)
      · exact ⟨p, ⟨depth, .flat, flat⟩ :: front, by simp [Step, next, Mode.choose, hvoid], hone hdoc.2 rfl⟩
  | line l =>
      rw [canBeFlat, Bool.not_eq_true'] at hdoc
      refine ⟨p.writeFlatLine l, front, by simp [Step, next, hdoc], ?_⟩
      rw [Printed.writeFlatLine_eq]
      exact h.replace _ [] (by simp [Flat]) (by simp [flatText, flatForm, Printed.flatLine])
  | breakParent | stray => cases hdoc

/-- All of a line is printed flat. -/
theorem runs (h : OneLine page goal p front) (rest : List Command) :
    Runs page ⟨p, front ++ rest⟩ ⟨goal, rest⟩ := by
  induction hn : stackSize (front ++ rest) using Nat.strongRecOn generalizing p front with
  | ind n ih =>
      cases front with
      | nil =>
          have hgoal := h.printed
          rw [flatText, List.flatMap_nil, Printed.write_nil] at hgoal
          rw [hgoal]
          exact .refl
      | cons c front =>
          obtain ⟨p', front', hstep, hline⟩ := h.exists_step rest
          exact .head hstep (ih _ (hn ▸ hstep.size_lt) hline rfl)

end OneLine

/-- A group that can be flat, and whose flat form is no wider than the page, is printed as that form. -/
theorem Page.render_grouped {doc : Doc} (h : doc.canBeFlat = true) {page : Page}
    (hroom : doc.flatForm.width ≤ page.width) : page.render (.grouped doc) = .ok doc.flatForm := by
  have hflat : Flat [⟨0, .flat, doc⟩] := @flat_map 0 [doc] (by simpa using h)
  have htext : flatText [⟨0, .flat, doc⟩] = doc.flatForm := by simp [flatText]
  have hnewline := hasNewline_flatForm h
  have hstart : start (.grouped doc) = ⟨.empty, [⟨0, .broken, .group doc false⟩]⟩ := by
    rw [start, grouped, settled_group, settled, forces, propagate_of_canBeFlat h]
    rfl
  have hfits : fits false (page.width - (0 : Int)) [⟨0, .flat, doc⟩] = .ok true := by
    apply hflat.fits
    rw [htext]
    omega
  have hopens : Step page (start (.grouped doc)) ⟨.empty, [⟨0, .flat, doc⟩]⟩ := by
    rw [hstart, Step, next, Printed.empty_text, hfits]
    rfl
  have hline : OneLine page (Printed.empty.write doc.flatForm) .empty [⟨0, .flat, doc⟩] := by
    refine ⟨hflat, rfl, by rw [htext], ?_⟩
    simp only [Printed.write_text, hnewline, Bool.false_eq_true, if_false, Printed.empty_text]
    omega
  have hruns : Runs page (start (.grouped doc)) ⟨Printed.empty.write doc.flatForm, []⟩ :=
    .head hopens (hline.runs [])
  rw [render_of_runs hruns]
  have hprinted : (Printed.empty.write doc.flatForm : Printed Text Int).text = doc.flatForm := by
    simp [Printed.text, Printed.write_text, Printed.empty_text]
  rw [hprinted, Text.withLineEnds_of_hasNewline hnewline]

/-- Words and a wide character in groups and fills, and a mark that only a broken line shows. -/
def Doc.phrase : Doc :=
  .concat [.text ['o', 'n', 'e'], .spaceLine,
    .fill [.text ['t', 'w', 'o'], .spaceLine, .grouped (.indent (.concat [.softLine, .text ['漢']])), .softLine],
    .ifBreak (.text ['-']) (.fill [.text ['!'], .softLine])]

/-- The phrase takes up eleven columns, and a page of eleven columns has it on one line. -/
theorem Page.render_grouped_phrase :
    Doc.phrase.canBeFlat = true ∧ Doc.phrase.flatForm.width ≤ 11 ∧
      Page.render { width := 11 } (.grouped .phrase) = .ok "one two 漢!".toList := by
  refine ⟨by decide +kernel, by decide +kernel, ?_⟩
  exact Page.render_grouped (by decide +kernel) (by decide +kernel)

end XmlTidy
