import XmlTidy.Proofs.FlowPrinting

/-!
What is printed for children that are reflowed. Each entry is printed behind a gap that its joint allows:
on a line of its own, or else on the line where it is put. Printing the entries again, with the gaps as
they were printed, makes the same choices: an entry that was moved to a line of its own stays there, and
one that shared a line still fits.
-/

namespace XmlTidy

namespace Spelled

open Printed

section Printing

variable {style : Style} (page : Page) (depth : Nat)

/-! ### The first item of a cluster -/

/-- Where the first item of a cluster on a line of its own stands. -/
def Joint.lead (page : Page) (depth : Nat) (p : Printed Text Int) : Joint → Printed Text Int
  | .blankLine => (p.write ['\n']).newLine page depth
  | _ => p.newLine page depth

theorem lead_of_even {page : Page} (heven : page.Even) (depth : Nat) (joint : Joint) (p : Printed Text Int) :
    joint.lead page depth p = p.write (joint.gap page depth true) := by
  cases joint with
  | blankLine =>
      rw [Joint.lead, heven.newLine_eq, write_write]
      rfl
  | _ => exact heven.newLine_eq depth p

section Lead

variable {p : Printed Text Int} {joint : Joint} (hp : p.Solid) (hjoint : ∀ spaced, joint ≠ .beside spaced)

theorem wrote_lead (p : Printed Text Int) : Wrote p (joint.gap page depth true) (joint.lead page depth p) := by
  cases joint with
  | blankLine => exact (wrote_write p ['\n']).trans (wrote_newLine ..)
  | _ => exact wrote_newLine ..

include hp hjoint

theorem run_lead_inline (layout : Item → Doc) {item : Item} (hinline : item.isInline = true)
    (parts : List Doc) :
    ∃ mode, ((joint.cluster layout item).extend parts).layout.run page depth .broken .clear p =
      Doc.runFill page depth mode (layout item :: parts) .clear (joint.lead page depth p) := by
  cases joint with
  | beside spaced => exact absurd rfl (hjoint spaced)
  | blankLine =>
      simp only [Joint.cluster, Cluster.extend, Cluster.layout, lineStyle, hinline, if_true, Doc.run,
        List.cons_append, List.nil_append, Doc.runAll, Doc.run_hardLine hp, Doc.run_hardLine_newLine,
        Doc.grouped]
      exact ⟨_, rfl⟩
  | _ =>
      simp only [Joint.cluster, Cluster.extend, Cluster.layout, lineStyle, hinline, if_true, Doc.run,
        List.cons_append, List.nil_append, Doc.runAll, Doc.run_hardLine hp, Doc.grouped]
      exact ⟨_, rfl⟩

theorem run_lead_plain (layout : Item → Doc) {item : Item} (hinline : item.isInline = false) :
    ((joint.cluster layout item).extend []).layout.run page depth .broken .clear p =
      (layout item).run page depth .broken .clear (joint.lead page depth p) := by
  cases joint with
  | beside spaced => exact absurd rfl (hjoint spaced)
  | blankLine =>
      simp [Joint.cluster, Cluster.extend, Cluster.layout, lineStyle, hinline, Doc.run, Doc.runAll,
        Doc.reachAll, Doc.run_hardLine hp, Doc.run_hardLine_newLine, Joint.lead]
  | _ =>
      simp [Joint.cluster, Cluster.extend, Cluster.layout, lineStyle, hinline, Doc.run, Doc.runAll,
        Doc.reachAll, Doc.run_hardLine hp, Joint.lead]

end Lead

/-- Whether a comment shares the line of what stands before it. -/
def besideMode (page : Page) (spaced : Bool) (image : Text) (p : Printed Text Int) : Mode :=
  Doc.fillMode (decide ((if spaced then 1 else 0) + (image.width : Int) ≤ page.width - p.column))

theorem besideMode_spaced {page : Page} {spaced : Bool} {image : Text} {p : Printed Text Int}
    (h : besideMode page spaced image p = .broken) : besideMode page true image p = .broken := by
  have hbroken : ∀ {measured : Bool}, Doc.fillMode measured = .broken ↔ measured = false := by
    intro measured
    cases measured <;> simp [Doc.fillMode]
  rw [besideMode, hbroken, decide_eq_false_iff_not] at h ⊢
  rw [if_pos rfl]
  split at h <;> omega

theorem besideMode_iff {page : Page} {spaced : Bool} {image : Text} {p : Printed Text Int} :
    besideMode page spaced image p ≠ .broken ↔
      p.column + (if spaced then 1 else 0) + image.width ≤ page.width := by
  have hflat : ∀ {measured : Bool}, Doc.fillMode measured ≠ .broken ↔ measured = true := by
    intro measured
    cases measured <;> simp [Doc.fillMode]
  rw [besideMode, hflat, decide_eq_true_iff]
  split <;> omega

/-- A comment on the line of what stands before it, if it fits there. -/
theorem run_beside {p : Printed Text Int} (hp : p.Solid) (spaced : Bool) (image : Text) :
    (((Joint.beside spaced).cluster (Item.flow style) (.leaf .comment image)).extend []).layout.run
        page depth .broken .clear p =
      ((delimiter spaced).run page depth (besideMode page spaced image p) .clear p).write image := by
  have hmode : Doc.groupMode page .broken (.concat [delimiter spaced, .text image]) false .clear p =
      besideMode page spaced image p := by
    have hreach : Doc.reach false .flat (.concat [delimiter spaced, .text image]) .clear (page.width - p.column) =
        decide ((if spaced then 1 else 0) + (image.width : Int) ≤ page.width - p.column) := by
      cases spaced <;>
        simp [Doc.reach, Doc.reachAll, delimiter, Doc.softLine, Doc.spaceLine, Ahead.clear]
      all_goals omega
    have hforces : (Doc.concat [delimiter spaced, .text image]).forces = false := by
      cases spaced <;> simp [delimiter, Doc.softLine, Doc.spaceLine]
    rw [Doc.groupMode, hforces, hreach, besideMode, Doc.fillMode]
    rfl
  simp only [Joint.cluster, Cluster.extend, Cluster.layout, List.append_nil, List.nil_append,
    flow_leaf (show LeafClass.comment ≠ .blank by simp) (by simp), Doc.grouped, Doc.run, Doc.runAll, Doc.reachAll,
    hmode]
  rw [run_delimiter hp, run_delimiter hp]

/-- Behind a line that was broken, a joint leads to the same place. -/
theorem Joint.lead_again {joint : Joint} (hjoint : ∀ spaced, joint ≠ .beside spaced) (behindText : Bool)
    (p : Printed Text Int) :
    (∀ spaced, joint.again behindText true ≠ .beside spaced) ∧
      (joint.again behindText true).lead page depth p = joint.lead page depth p := by
  cases joint with
  | beside spaced => exact absurd rfl (hjoint spaced)
  | _ => exact ⟨by rintro _ ⟨⟩, rfl⟩

theorem Joint.hasNewline_gap (joint : Joint) : (joint.gap page depth true).hasNewline = true := by
  cases joint <;> simp [Joint.gap, lineGap, newLineText, Text.hasNewline]

/-- The first item of a cluster on a line of its own stands at the indentation. -/
theorem columnAt_lead (joint : Joint) (p : Printed Text Int) (before : Text) :
    (joint.lead page depth p).column = page.columnAt (before ++ joint.gap page depth true) := by
  cases joint with
  | blankLine =>
      have hgap : before ++ Joint.blankLine.gap page depth true = before ++ ['\n'] ++ newLineText page depth := by
        simp [Joint.gap]
      rw [hgap]
      exact (page.columnAt_newLineText _ depth).symm
  | _ => exact (page.columnAt_newLineText _ depth).symm

theorem column_lead (joint : Joint) (p : Printed Text Int) : 0 ≤ (joint.lead page depth p).column := by
  cases joint <;> exact Int.natCast_nonneg (depth * page.tabWidth)

/-! ### Clusters -/

/-- An entry that is printed behind what was printed before it: behind a gap that its joint allows. A comment that
is put beside what stands before it stays on the line just if it fits there. -/
def Entry.Put (page : Page) (depth : Nat) (previous : Option Item) (p : Printed Text Int) (e e' : Entry) : Prop :=
  ∃ broken, e'.gap = (e.joint previous).gap page depth broken ∧
    ∀ spaced, e.joint previous = .beside spaced →
      (broken = false ↔ p.column + (if spaced then 1 else 0) + e.item.text.width ≤ page.width)

theorem Entry.put_of_lead {page : Page} {depth : Nat} {previous : Option Item} {e : Entry}
    (h : ∀ spaced, e.joint previous ≠ .beside spaced) (p : Printed Text Int) (item' : Item) :
    e.Put page depth previous p ⟨(e.joint previous).gap page depth true, item'⟩ :=
  ⟨true, rfl, fun spaced hjoint => absurd hjoint (h spaced)⟩

/-- What is printed for an entry that starts a cluster and for those that flow into the text behind it.
Behind what is printed for the item before them, they are printed again so. -/
structure ClusterPrinted (style : Style) (page : Page) (depth : Nat) (previous : Option Item) (e : Entry)
    (rest : List Entry) (p q : Printed Text Int) (e' : Entry) (fs : List Entry) : Prop where
  entry : e.Laid style page e'
  entries : List.Forall₂ (Entry.Laid style page) (flowTake e.item rest) fs
  gap : e.Put page depth previous p e'
  flows : ∀ before before', List.Forall₂ (Neighbours.Laid page depth)
    (neighboursFrom before e.item (flowTake e.item rest)) (neighboursFrom (before' ++ e'.gap) e'.item fs)
  solid : (entriesText (e' :: fs)).Solid
  wrote : Wrote p (entriesText (e' :: fs)) q
  column : e.item.isInline = true → page.Even → (entriesText (e' :: fs)).hasNewline = true ∧
    ∀ before, q.column = page.columnAt (before ++ entriesText (e' :: fs))
  follows : Follows (some (flowRest e.item rest).1) (some (lastOf e'.item fs))
  again : Suits style page → (∀ e' ∈ e :: rest, e'.item.isText = true → page.Even) →
    Tied previous (e :: rest) → ∀ previous' tail, Follows previous previous' → Blanks tail →
      let first := e'.settled (previous'.any Item.isText) (headGap tail fs)
      let joint := first.joint (previous'.map (Item.extend e'.gap))
      (∃ broken, joint = (e.joint previous).again (previous'.any Item.isText) broken) ∧
      ∀ more, Stays ((lastOf e'.item fs).extend tail) more →
        flowRest first.item (settle tail e'.item.isText fs ++ more) =
          ((lastOf e'.item fs).extend tail, more) ∧
        ((joint.cluster (Item.flow style) first.item).extend
          (flowParts (Item.flow style) first.item (settle tail e'.item.isText fs ++ more))).layout.run
            page depth .broken .clear p = q

variable {previous : Option Item} {e : Entry} {rest : List Entry} {p : Printed Text Int}

theorem entriesText_cons (e : Entry) (es : List Entry) :
    entriesText (e :: es) = e.gap ++ (e.item.text ++ entriesText es) := by
  simp [entriesText]

/-- A comment beside what stands before it is printed again so. If it did not fit there, it does not with
a blank before it either. -/
theorem run_beside_again (hp : p.Solid) {spaced : Bool} {image : Text} {mode : Mode}
    (hmode : besideMode page spaced image p = mode) (behindText : Bool) :
    ((((Joint.beside spaced).again behindText (mode = .broken)).cluster (Item.flow style)
        (.leaf .comment image)).extend []).layout.run page depth .broken .clear p =
      ((delimiter spaced).run page depth mode .clear p).write image := by
  cases mode with
  | flat =>
      have hagain : (Joint.beside spaced).again behindText (decide (Mode.flat = .broken)) = .beside spaced := rfl
      rw [hagain, run_beside page depth hp, hmode]
  | broken =>
      have hnewLine : (Joint.newLine.lead page depth p).write image =
          ((delimiter spaced).run page depth .broken .clear p).write image := by
        rw [run_delimiter hp]
        rfl
      cases behindText with
      | true =>
          have hagain : (Joint.beside spaced).again true (decide (Mode.broken = .broken)) = .beside true := rfl
          rw [hagain, run_beside page depth hp, besideMode_spaced hmode, run_delimiter hp, ← hnewLine]
          rfl
      | false =>
          have hagain : (Joint.beside spaced).again false (decide (Mode.broken = .broken)) = .newLine := rfl
          have hnot : ∀ spaced, Joint.newLine ≠ .beside spaced := by simp
          have hplain : (Item.leaf .comment image).isInline = false := rfl
          rw [hagain, run_lead_plain page depth hp hnot _ hplain, flow_leaf (by simp) (by simp), Doc.run_text,
            hnewLine]

theorem cluster_beside (he : e.item.Flows style) (hp : p.Solid) {spaced : Bool}
    (hjoint : e.joint previous = .beside spaced) :
    ∃ e' fs, ClusterPrinted style page depth previous e rest p
      ((((e.joint previous).cluster (Item.flow style) e.item).extend
        (flowParts (Item.flow style) e.item rest)).layout.run page depth .broken .clear p) e' fs := by
  obtain ⟨image, hitem⟩ := exists_comment (isComment_of_beside hjoint)
  have hinline : e.item.isInline = false := by rw [hitem]; rfl
  have hstays := stays_of_not_inline hinline rest
  obtain ⟨item', hlaid, hwf, hsolid, hfollows, -⟩ := he.prints page depth .flat .clear p
  have hflowed := hlaid.reshaped
  obtain rfl : item' = .leaf .comment image := by
    rw [hitem] at hflowed
    exact hflowed.eq_leaf (by simp)
  rw [flowParts_of_stays hstays, hjoint, hitem, run_beside page depth hp]
  generalize hmode : besideMode page spaced image p = mode
  refine ⟨⟨lineGap page depth spaced (mode = .broken), .leaf .comment image⟩, [], ?_, ?_, ?_, ?_, ?_, ?_, ?_, ?_, ?_⟩
  · exact ⟨hlaid, hwf, hfollows.trimmed, blanks_lineGap page depth spaced _⟩
  · rw [flowTake_of_stays hstays]
    exact .nil
  · rw [Entry.Put, hjoint]
    refine ⟨_, rfl, fun spaced' hspaced => ?_⟩
    obtain rfl := Joint.beside.inj hspaced
    rw [decide_eq_false_iff_not, ← hmode, hitem, Item.text]
    exact besideMode_iff
  · rw [flowTake_of_stays hstays]
    exact fun _ _ => .nil
  · simpa [entriesText] using hsolid.append _
  · simpa [entriesText, Item.text] using (wrote_delimiter hp spaced).trans (wrote_write _ image)
  · intro hpos
    cases hinline.symm.trans hpos
  · rw [flowRest_of_stays hstays]
    exact hfollows
  · intro _ _ htied previous' tail hprevious _
    have hjoint' := @joint_again _ _ hprevious e htied.1 _ hflowed.isComment_eq hflowed.isInline_eq page depth
      (mode = .broken) (headGap tail [])
    rw [hjoint] at hjoint' ⊢
    refine ⟨⟨_, hjoint'⟩, fun more hmore => ⟨flowRest_of_stays hmore, ?_⟩⟩
    have hmore' : Stays (.leaf .comment image) more := hmore
    refine Eq.trans (congrArg (fun joint : Joint => ((joint.cluster (Item.flow style)
      (.leaf .comment image)).extend (flowParts (Item.flow style) (.leaf .comment image) more)).layout.run page
        depth .broken .clear p) hjoint') ?_
    rw [flowParts_of_stays hmore']
    exact run_beside_again page depth hp hmode _

theorem cluster_inline (he : e.item.Flows style) (hes : ∀ e ∈ rest, e.item.Flows style) (hp : p.Solid)
    (hjoint : ∀ spaced, e.joint previous ≠ .beside spaced) (hinline : e.item.isInline = true) :
    ∃ e' fs, ClusterPrinted style page depth previous e rest p
      ((((e.joint previous).cluster (Item.flow style) e.item).extend
        (flowParts (Item.flow style) e.item rest)).layout.run page depth .broken .clear p) e' fs := by
  obtain ⟨mode, hrun⟩ := run_lead_inline page depth hp hjoint (Item.flow style) hinline
    (flowParts (Item.flow style) e.item rest)
  rw [hrun]
  obtain ⟨item', fs, hfill⟩ := runFill_flow page depth he hinline hes mode .clear
    ((e.joint previous).lead page depth p)
  refine ⟨⟨(e.joint previous).gap page depth true, item'⟩, fs, ?_, hfill.entries, Entry.put_of_lead hjoint p item',
    ?_, ?_, ?_, fun _ heven => ?_, hfill.follows, ?_⟩
  · exact ⟨hfill.laid, hfill.wellFormed, hfill.trimmed,
      Joint.blanks_gap page depth true (e.joint previous)⟩
  · intro before before'
    refine hfill.gaps before _ ?_ (columnAt_lead page depth _ p before')
    rw [Text.hasNewline_append, Joint.hasNewline_gap, Bool.or_true]
  · rw [entriesText_cons]
    exact hfill.solid.append _
  · rw [entriesText_cons]
    exact (wrote_lead page depth p).trans hfill.wrote
  · have hline : (entriesText (⟨(e.joint previous).gap page depth true, item'⟩ :: fs)).hasNewline = true := by
      rw [entriesText_cons, Text.hasNewline_append, Joint.hasNewline_gap, Bool.true_or]
    refine ⟨hline, fun before => ?_⟩
    rw [hfill.written heven, lead_of_even heven, write_write, ← entriesText_cons ⟨_, item'⟩]
    exact heven.column_write p before hline
  · intro _ hevens htied previous' tail hprevious htail
    have hjoint' := @joint_again _ _ hprevious e htied.1 _ hfill.flowed.isComment_eq hfill.flowed.isInline_eq
      page depth true (headGap tail fs)
    refine ⟨⟨true, hjoint'⟩, fun more hmore => ?_⟩
    obtain ⟨hrest, hsame⟩ := hfill.again (hevens e (by simp)) (fun e' he => hevens e' (by simp [he])) htied.2
      tail more htail hmore
    refine ⟨hrest, ?_⟩
    obtain ⟨hnot, hlead⟩ := Joint.lead_again page depth hjoint (previous'.any Item.isText) p
    have hinline' : (item'.extend (headGap tail fs)).isInline = true := by
      rw [isInline_extend, hfill.flowed.isInline_eq, hinline]
    obtain ⟨mode', hrun'⟩ := run_lead_inline page depth hp hnot (Item.flow style) hinline'
      (flowParts (Item.flow style) (item'.extend (headGap tail fs)) (settle tail item'.isText fs ++ more))
    rw [flow_extend hfill.wellFormed (blanks_headGap hfill.entries htail), hlead, hsame] at hrun'
    rw [hjoint']
    exact hrun'

theorem cluster_plain (he : e.item.Flows style) (hp : p.Solid)
    (hjoint : ∀ spaced, e.joint previous ≠ .beside spaced) (hinline : e.item.isInline = false) :
    ∃ e' fs, ClusterPrinted style page depth previous e rest p
      ((((e.joint previous).cluster (Item.flow style) e.item).extend
        (flowParts (Item.flow style) e.item rest)).layout.run page depth .broken .clear p) e' fs := by
  have hstays := stays_of_not_inline hinline rest
  have htext := not_text_of_not_inline hinline
  rw [flowParts_of_stays hstays, run_lead_plain page depth hp hjoint _ hinline]
  obtain ⟨item', hlaid, hwf, hsolid, hfollows, hwrote, hsame⟩ := he.prints page depth .broken .clear
    ((e.joint previous).lead page depth p)
  have hflowed := hlaid.reshaped
  refine ⟨⟨(e.joint previous).gap page depth true, item'⟩, [], ?_, ?_, Entry.put_of_lead hjoint p item', ?_, ?_, ?_,
    fun hpos => absurd (hinline.symm.trans hpos) Bool.false_ne_true, ?_, ?_⟩
  · exact ⟨hlaid, hwf, hfollows.trimmed, Joint.blanks_gap page depth true (e.joint previous)⟩
  · rw [flowTake_of_stays hstays]
    exact .nil
  · rw [flowTake_of_stays hstays]
    exact fun _ _ => .nil
  · simpa [entriesText] using hsolid.append _
  · simpa [entriesText] using (wrote_lead page depth p).trans hwrote
  · rw [flowRest_of_stays hstays]
    exact hfollows
  · intro hsuits _ htied previous' tail hprevious _
    have hjoint' := @joint_again _ _ hprevious e htied.1 _ hflowed.isComment_eq hflowed.isInline_eq page depth true
      (headGap tail [])
    refine ⟨⟨true, hjoint'⟩, fun more hmore => ?_⟩
    have hsame' := (hsame htext hsuits ⟨Ahead.regular_clear, column_lead page depth _ p, by simp⟩).run_eq
    obtain ⟨hnot, hlead⟩ := Joint.lead_again page depth hjoint (previous'.any Item.isText) p
    have hextend : ∀ blanks, item'.extend blanks = item' := extend_of_not_text (hflowed.isText_eq.trans htext)
    simp only [Entry.settled, hextend, lastOf, settle, List.nil_append] at hmore hjoint' ⊢
    refine ⟨flowRest_of_stays hmore, ?_⟩
    rw [flowParts_of_stays hmore, hjoint', run_lead_plain page depth hp hnot _ (hflowed.isInline_eq.trans hinline),
      hlead, hsame']

theorem run_cluster (he : e.item.Flows style) (hes : ∀ e ∈ rest, e.item.Flows style) (hp : p.Solid) :
    ∃ e' fs, ClusterPrinted style page depth previous e rest p
      ((((e.joint previous).cluster (Item.flow style) e.item).extend
        (flowParts (Item.flow style) e.item rest)).layout.run page depth .broken .clear p) e' fs := by
  by_cases hbeside : ∃ spaced, e.joint previous = .beside spaced
  · obtain ⟨spaced, hjoint⟩ := hbeside
    exact cluster_beside page depth he hp hjoint
  · have hjoint : ∀ spaced, e.joint previous ≠ .beside spaced := fun spaced h => hbeside ⟨spaced, h⟩
    cases hinline : e.item.isInline with
    | true => exact cluster_inline page depth he hes hp hjoint hinline
    | false => exact cluster_plain page depth he hp hjoint hinline

/-- What is printed for the clusters of entries. -/
structure ClustersPrinted (style : Style) (page : Page) (depth : Nat) (previous : Option Item)
    (es : List Entry) (p q : Printed Text Int) (es' : List Entry) : Prop where
  entries : List.Forall₂ (Entry.Laid style page) es es'
  head : ∀ e ∈ es.head?, ∀ e' ∈ es'.head?, e.Put page depth previous p e'
  gaps : ∀ before before',
    List.Forall₂ (Neighbours.Laid page depth) (neighbours before es) (neighbours before' es')
  solid : q.Solid
  wrote : Wrote p (entriesText es') q
  again : Suits style page → (∀ e ∈ es, e.item.isText = true → page.Even) → Tied previous es →
    ∀ previous' tail, Follows previous previous' → Blanks tail →
      let before := previous'.map (Item.extend (headGap tail es'))
      let settled := settle tail (previous'.any Item.isText) es'
      (∀ e ∈ es.head?, ∀ e' ∈ settled.head?,
        ∃ broken, e'.joint before = (e.joint previous).again (previous'.any Item.isText) broken) ∧
      Doc.runAll page depth .broken ((clusters (Item.flow style) before settled).map Cluster.layout) .clear p = q

theorem Joint.flow_of_again {joint : Joint} {behindText broken spaced : Bool}
    (h : joint.again behindText broken = .flow spaced) : ∃ spaced', joint = .flow spaced' := by
  cases joint with
  | flow spaced' => exact ⟨spaced', rfl⟩
  | beside spaced' => cases broken <;> cases behindText <;> cases h
  | _ => cases broken <;> cases h

/-- Behind the first cluster, what is printed stays where it is. -/
theorem ClustersPrinted.stays {item last : Item} {es es' : List Entry} {q : Printed Text Int}
    (h : ClustersPrinted style page depth (some item) es p q es') (hsuits : Suits style page)
    (hevens : ∀ e ∈ es, e.item.isText = true → page.Even) (htied : Tied (some item) es)
    (hlast : Follows (some item) (some last)) (hstays : Stays item es) {tail : Text} (htail : Blanks tail) :
    Stays (last.extend (headGap tail es')) (settle tail last.isText es') := by
  intro e' he' spaced hjoint
  have hhead := (h.again hsuits hevens htied (some last) tail hlast htail).1
  cases hentries : h.entries with
  | nil => simp [settle] at he'
  | @cons e _ rest _ _ _ =>
      obtain ⟨broken, hbroken⟩ := hhead e rfl e' he'
      obtain ⟨spaced', hspaced⟩ := Joint.flow_of_again (hbroken.symm.trans hjoint)
      exact hstays e rfl spaced' hspaced

/-- The neighbours among an item and the entries of the clusters behind it. -/
theorem ClustersPrinted.gapsFrom {item item' : Item} {es es' : List Entry} {q : Printed Text Int}
    (h : ClustersPrinted style page depth (some item) es p q es') (hstays : Stays item es)
    (hfollows : Follows (some item) (some item')) (before : Text) {before' : Text}
    (hcolumn : item.isText = true → page.Even → (before' ++ item'.text).hasNewline = true ∧
      p.column = page.columnAt (before' ++ item'.text)) :
    List.Forall₂ (Neighbours.Laid page depth) (neighboursFrom before item es) (neighboursFrom before' item' es') := by
  have hgaps := h.gaps (before ++ item.text) (before' ++ item'.text)
  cases hentries : h.entries with
  | nil => exact .nil
  | @cons e e' rest rest' _ _ =>
      obtain ⟨broken, hbroken, hbeside⟩ := h.head e rfl e' rfl
      rw [neighboursFrom_cons, neighboursFrom_cons]
      refine .cons ⟨broken, ?_, fun spaced hjoint => absurd hjoint (hstays e rfl spaced),
        fun spaced hjoint htext heven => ?_⟩ hgaps
      · rw [Neighbours.blanks, Item.endBlanks_of_trimmed hfollows.trimmed]
        exact hbroken
      · obtain ⟨hline, hplace⟩ := hcolumn htext heven
        rw [Neighbours.front, hfollows.dropEndWhile_eq htext]
        refine ⟨hline, (hbeside spaced hjoint).trans ?_⟩
        rw [hplace]
        dsimp only
        split <;> omega

theorem runAll_clusters {es : List Entry} (hes : ∀ e ∈ es, e.item.Flows style) (previous : Option Item)
    (hp : p.Solid) :
    ∃ es', ClustersPrinted style page depth previous es p
      (Doc.runAll page depth .broken ((clusters (Item.flow style) previous es).map Cluster.layout) .clear p)
      es' := by
  fun_induction clusters (Item.flow style) previous es generalizing p with
  | case1 previous =>
      refine ⟨[], .nil, by simp, fun _ _ => .nil, hp, wrote_nil p, fun _ _ _ previous' tail _ _ => ⟨by simp, ?_⟩⟩
      rw [settle, clusters]
  | case2 previous e rest ih =>
      have hrest : ∀ e' ∈ rest, e'.item.Flows style := fun e' he => hes e' (by simp [he])
      rw [List.map_cons, Doc.runAll, reachAll_clusters]
      obtain ⟨e', fs, hfirst⟩ := @run_cluster style page depth previous e rest p (hes e (by simp)) hrest hp
      generalize Doc.run page depth .broken _ .clear p = q at hfirst ⊢
      obtain ⟨es', hmore⟩ := ih (fun e' he => hrest e' (mem_of_mem_flowRest he))
        (hfirst.wrote.solid hfirst.solid)
      refine ⟨e' :: fs ++ es', ?_, ?_, fun before before' => ?_, hmore.solid, ?_,
        fun hsuits hevens htied previous' tail hprevious htail => ?_⟩
      · have happend : List.Forall₂ (Entry.Laid style page)
            (flowTake e.item rest ++ (flowRest e.item rest).2) (fs ++ es') :=
          List.rel_append hfirst.entries hmore.entries
        rw [flowTake_append] at happend
        exact .cons hfirst.entry happend
      · simpa using hfirst.gap
      · have hlast := stays_flowRest e.item rest
        have hfollows := hfirst.follows
        have hcolumn : (flowRest e.item rest).1.isText = true → page.Even →
            (beforeLast (before' ++ e'.gap) e'.item fs ++ (lastOf e'.item fs).text).hasNewline = true ∧
              q.column = page.columnAt (beforeLast (before' ++ e'.gap) e'.item fs ++ (lastOf e'.item fs).text) := by
          intro htext heven
          obtain ⟨hline, hplace⟩ := hfirst.column (isInline_of_flowRest htext) heven
          rw [beforeLast_append, List.append_assoc, ← entriesText_cons, Text.hasNewline_append, hline, Bool.or_true]
          exact ⟨rfl, hplace before'⟩
        rw [← lastOf_flowTake] at hlast hmore hfollows hcolumn
        have happend := List.rel_append (hfirst.flows (before ++ e.gap) before')
          (hmore.gapsFrom page depth hlast hfollows
            (beforeLast (before ++ e.gap) e.item (flowTake e.item rest)) hcolumn)
        beta_reduce at happend
        rwa [← neighboursFrom_append, flowTake_append, ← neighboursFrom_append] at happend
      · rw [entriesText, List.flatMap_append]
        exact hfirst.wrote.trans hmore.wrote
      · have hevens' : ∀ e' ∈ (flowRest e.item rest).2, e'.item.isText = true → page.Even := fun e' he =>
          hevens e' (by simp [mem_of_mem_flowRest he])
        have htied' := tied_flowRest htied.2
        have hgap := blanks_headGap hmore.entries htail
        obtain ⟨hjoint, hagain⟩ := hfirst.again hsuits hevens htied previous' (headGap tail es') hprevious hgap
        obtain ⟨hsplit, hsame⟩ := hagain (settle tail (lastOf e'.item fs).isText es')
          (hmore.stays page depth hsuits hevens' htied' hfirst.follows (stays_flowRest e.item rest) htail)
        have hlast := (hmore.again hsuits hevens' htied' (some (lastOf e'.item fs)) tail hfirst.follows htail).2
        rw [List.cons_append, settle, headGap_append, settle_append]
        refine ⟨?_, ?_⟩
        · intro first hfirst' first' hfirst''
          obtain rfl : e = first := by simpa using hfirst'
          obtain rfl := Option.some.inj hfirst''
          exact hjoint
        · rw [clusters, List.map_cons, Doc.runAll, reachAll_clusters, hsplit]
          exact (congrArg _ hsame).trans hlast

/-! ### The comment on the line of the open tag -/

section Attachment

variable {layout : Item → Doc}

theorem attachment_attach {spaced : Bool} (h : e.joint none = .attach spaced) :
    attachment layout (e :: rest) =
      ([attachedDoc spaced (layout e.item)], clusters layout (some e.item) rest) := by
  simp only [attachment, h]

theorem attachment_of_not (h : ∀ spaced, e.joint none ≠ .attach spaced) :
    attachment layout (e :: rest) = ([], clusters layout none (e :: rest)) := by
  rw [attachment]
  split
  · next spaced hjoint => exact absurd hjoint (h spaced)
  · rfl

end Attachment

/-- The open tag with a comment, which stays on its line if it fits there. If it does not, the tag is
printed as one without a comment is. -/
theorem run_attached {o : Open} (ho : o.WellFormed) (spaced : Bool) (image : Text) (p : Printed Text Int) :
    ∃ o' mode, o.Reshaped style o' ∧ ∃ q, Wrote p (o'.text ++ ['>']) q ∧
      (o.openDoc style [attachedDoc spaced ((Item.leaf .comment image).flow style)]).run page depth .broken
          .clear p =
        ((delimiter spaced).run page (depth + 1) mode .clear q).write image ∧
      (mode = .broken → (o.bareDoc style).run page depth .broken .clear p = q) := by
  rw [flow_leaf (by simp) (by simp)]
  simp only [Open.openDoc, List.isEmpty_cons, Bool.false_eq_true, if_false, Doc.grouped, Doc.run, Doc.runAll,
    Doc.reachAll]
  generalize Doc.groupMode page .broken _ false .clear p = outer
  have hsolid : ∀ (o' : Open) {q}, Wrote p (o'.text ++ ['>']) q → q.Solid := fun o' _ h =>
    h.solid (Text.solid_concat rfl o'.text)
  cases outer with
  | flat =>
      obtain ⟨o', ho', hwrote⟩ := @run_bareDoc style o page depth .flat
        (Doc.reach false .flat (attachedDoc spaced (.text image)) .clear) p ho
      generalize (o.bareDoc style).run page depth .flat _ p = q at hwrote ⊢
      refine ⟨o', .flat, ho', q, hwrote, ?_, by simp⟩
      simp [attachedDoc, Doc.run, Doc.isVoid, Doc.runAll, run_delimiter (hsolid o' hwrote), lineGap]
  | broken =>
      rw [reach_attached]
      obtain ⟨o', ho', hwrote⟩ := @run_bareDoc style o page depth .broken .clear p ho
      generalize hq : (o.bareDoc style).run page depth .broken .clear p = q at hwrote ⊢
      simp only [attachedDoc, Doc.run, Doc.isVoid, Doc.grouped, Doc.runAll, Bool.false_eq_true, if_false]
      generalize Doc.groupMode page .broken _ false .clear q = inner
      refine ⟨o', inner, ho', q, hwrote, ?_, fun _ => rfl⟩
      rw [run_delimiter (hsolid o' hwrote), run_delimiter (hsolid o' hwrote)]

/-- What is printed for the open tag and the entries behind it. -/
structure OpenPrinted (style : Style) (page : Page) (depth : Nat) (o : Open) (es : List Entry)
    (p q : Printed Text Int) (o' : Open) (es' : List Entry) : Prop where
  tag : o.Reshaped style o'
  entries : List.Forall₂ (Entry.Laid style page) es es'
  head : ∀ e ∈ es.head?, ∀ e' ∈ es'.head?, e.Opens page (depth + 1) e'
  gaps : ∀ before before',
    List.Forall₂ (Neighbours.Laid page (depth + 1)) (neighbours before es) (neighbours before' es')
  solid : q.Solid
  wrote : Wrote p (o'.text ++ '>' :: entriesText es') q
  again : Suits style page → (∀ e ∈ es, e.item.isText = true → page.Even) → Tied none es → ∀ tail, Blanks tail →
    Doc.runAll page (depth + 1) .broken
      ((attachment (Item.flow style) (settle tail false es')).2.map Cluster.layout) .clear
      ((o'.openDoc style (attachment (Item.flow style) (settle tail false es')).1).run page depth .broken .clear p) =
        q

theorem Joint.attach_of_again {joint : Joint} {behindText broken spaced : Bool}
    (h : joint.again behindText broken = .attach spaced) : joint = .attach spaced := by
  cases joint with
  | attach spaced' => cases broken <;> first | exact h | cases h
  | beside spaced' => cases broken <;> cases behindText <;> cases h
  | _ => cases broken <;> cases h

/-- No comment is attached to the open tag: the entries are clusters. -/
theorem attachment_bare {o : Open} (ho : o.WellFormed) (hes : ∀ e' ∈ e :: rest, e'.item.Flows style)
    (p : Printed Text Int) (hjoint : ∀ spaced, e.joint none ≠ .attach spaced) :
    ∃ o' es', OpenPrinted style page depth o (e :: rest) p
      (Doc.runAll page (depth + 1) .broken
        ((attachment (Item.flow style) (e :: rest)).2.map Cluster.layout) .clear
        ((o.openDoc style (attachment (Item.flow style) (e :: rest)).1).run page depth .broken .clear p))
      o' es' := by
  obtain ⟨o', ho', hwrote⟩ := @run_bareDoc style o page depth .broken .clear p ho
  rw [attachment_of_not hjoint]
  obtain ⟨es', hes'⟩ := runAll_clusters page (depth + 1) hes none
    (hwrote.solid (Text.solid_concat rfl o'.text))
  refine ⟨o', es', ho', hes'.entries, fun first hfirst first' hfirst' _ => ?_, hes'.gaps, hes'.solid, ?_,
    fun hsuits hevens htied tail htail => ?_⟩
  · obtain ⟨broken, hbroken, -⟩ := hes'.head first hfirst first' hfirst'
    exact ⟨broken, hbroken⟩
  · rw [List.append_cons]
    exact hwrote.trans hes'.wrote
  · obtain ⟨hhead, hsame⟩ := hes'.again hsuits hevens htied none tail .start htail
    obtain ⟨e', rest', -, -, rfl⟩ := List.forall₂_cons_left_iff.1 hes'.entries
    obtain ⟨broken, hbroken⟩ := hhead e rfl _ rfl
    have hjoint' : ∀ spaced, (e'.settled false (headGap tail rest')).joint none ≠ .attach spaced :=
      fun spaced h => hjoint spaced (Joint.attach_of_again (hbroken.symm.trans h))
    rw [settle, attachment_of_not hjoint', ho'.openDoc]
    exact hsame

/-- A comment in a line of its own behind the open tag. -/
theorem runAll_attachment_line {o : Open} {gap image : Text} {p q : Printed Text Int} (hq : q.Solid)
    (hline : (Entry.mk gap (.leaf .comment image)).joint none = .newLine)
    (hopen : (o.openDoc style []).run page depth .broken .clear p = q) :
    Doc.runAll page (depth + 1) .broken
        ((attachment (Item.flow style) (⟨gap, .leaf .comment image⟩ :: rest)).2.map Cluster.layout) .clear
        ((o.openDoc style (attachment (Item.flow style) (⟨gap, .leaf .comment image⟩ :: rest)).1).run page depth
          .broken .clear p) =
      Doc.runAll page (depth + 1) .broken
        ((clusters (Item.flow style) (some (.leaf .comment image)) rest).map Cluster.layout) .clear
        ((q.newLine page (depth + 1)).write image) := by
  have hstays := stays_of_not_inline (show (Item.leaf .comment image).isInline = false from rfl) rest
  have hnewLine : ∀ spaced, Joint.newLine ≠ .beside spaced := by simp
  rw [attachment_of_not (by rw [hline]; simp), clusters, hline, flowParts_of_stays hstays,
    flowRest_of_stays hstays, List.map_cons, Doc.runAll, reachAll_clusters, hopen,
    run_lead_plain page (depth + 1) hq hnewLine _ rfl, flow_leaf (by simp) (by simp), Doc.run_text]
  rfl

/-- A comment is attached to the open tag. It stays on its line, or gets a line of its own. -/
theorem attachment_printed {o : Open} (ho : o.WellFormed) (hes : ∀ e' ∈ e :: rest, e'.item.Flows style)
    (p : Printed Text Int) {spaced : Bool} (hjoint : e.joint none = .attach spaced) :
    ∃ o' es', OpenPrinted style page depth o (e :: rest) p
      (Doc.runAll page (depth + 1) .broken
        ((attachment (Item.flow style) (e :: rest)).2.map Cluster.layout) .clear
        ((o.openDoc style (attachment (Item.flow style) (e :: rest)).1).run page depth .broken .clear p))
      o' es' := by
  obtain ⟨image, hitem⟩ := exists_comment (isComment_of_attach hjoint)
  obtain ⟨item', hlaid, hwf, hsolid, hfollows, -⟩ := (hes e (by simp)).prints page depth .flat .clear p
  have hflowed := hlaid.reshaped
  obtain rfl : item' = .leaf .comment image := by
    rw [hitem] at hflowed
    exact hflowed.eq_leaf (by simp)
  obtain ⟨o', mode, ho', q, hwrote, hrun, hbare⟩ := @run_attached style page depth o ho spaced image p
  have hqsolid := hwrote.solid (Text.solid_concat rfl o'.text)
  have hcomment : Wrote q ((Joint.attach spaced).gap page (depth + 1) (mode = .broken) ++ image)
      (((delimiter spaced).run page (depth + 1) mode .clear q).write image) :=
    (wrote_delimiter hqsolid spaced).trans (wrote_write _ image)
  have hflows : ∀ e' ∈ rest, e'.item.Flows style := fun e' he => hes e' (by simp [he])
  obtain ⟨rest', hrest⟩ := runAll_clusters page (depth + 1) hflows (some e.item)
    (hcomment.solid (hsolid.append _))
  rw [attachment_attach hjoint, hitem, hrun]
  rw [hitem] at hrest hfollows
  refine ⟨o', ⟨(Joint.attach spaced).gap page (depth + 1) (mode = .broken), .leaf .comment image⟩ :: rest',
    ho', ?_, ?_, fun before before' => ?_, hrest.solid, ?_, fun hsuits hevens htied tail htail => ?_⟩
  · exact .cons ⟨hlaid, hwf, hfollows.trimmed,
      Joint.blanks_gap page (depth + 1) (mode = .broken) (.attach spaced)⟩ hrest.entries
  · intro first hfirst first' hfirst' _
    obtain rfl : e = first := by simpa using hfirst
    obtain rfl := Option.some.inj hfirst'
    rw [hjoint]
    exact ⟨_, rfl⟩
  · have hstays := stays_of_not_inline (show (Item.leaf .comment image).isInline = false from rfl) rest
    rw [neighbours, hitem]
    exact hrest.gapsFrom page (depth + 1) hstays hfollows _ (by rintro ⟨⟩)
  · rw [List.append_cons, entriesText_cons, ← List.append_assoc _ (Item.text _)]
    exact hwrote.trans (hcomment.trans hrest.wrote)
  · have htied' := htied.2
    rw [hitem] at htied'
    obtain ⟨-, hsame⟩ := hrest.again hsuits (fun e' he => hevens e' (by simp [he])) htied' _ tail hfollows htail
    have hjoint' := @joint_again _ _ .start e htied.1 _ hflowed.isComment_eq hflowed.isInline_eq page (depth + 1)
      (mode = .broken) (headGap tail rest')
    rw [hjoint] at hjoint'
    cases mode with
    | flat =>
        have hattach : Entry.joint none ⟨(Joint.attach spaced).gap page (depth + 1) false, .leaf .comment image⟩ =
            .attach spaced := hjoint'
        have hsettle : settle tail false (⟨(Joint.attach spaced).gap page (depth + 1) false, .leaf .comment image⟩ ::
            rest') = ⟨(Joint.attach spaced).gap page (depth + 1) false, .leaf .comment image⟩ ::
              settle tail false rest' := rfl
        simp only [reduceCtorEq, decide_false]
        rw [hsettle, attachment_attach hattach, ho'.openDoc, hrun]
        exact hsame
    | broken =>
        have hline : Entry.joint none ⟨(Joint.attach spaced).gap page (depth + 1) true, .leaf .comment image⟩ =
            .newLine := hjoint'
        have hsettle : settle tail false (⟨(Joint.attach spaced).gap page (depth + 1) true, .leaf .comment image⟩ ::
            rest') = ⟨(Joint.attach spaced).gap page (depth + 1) true, .leaf .comment image⟩ ::
              settle tail false rest' := rfl
        have hopen : (o'.openDoc style []).run page depth .broken .clear p = q := by
          rw [ho'.openDoc]
          exact hbare rfl
        simp only [decide_true]
        rw [hsettle, runAll_attachment_line page depth hqsolid hline hopen]
        rw [run_delimiter hqsolid] at hsame ⊢
        exact hsame

theorem run_attachment {o : Open} (ho : o.WellFormed) {es : List Entry}
    (hes : ∀ e ∈ es, e.item.Flows style) (p : Printed Text Int) :
    ∃ o' es', OpenPrinted style page depth o es p
      (Doc.runAll page (depth + 1) .broken ((attachment (Item.flow style) es).2.map Cluster.layout) .clear
        ((o.openDoc style (attachment (Item.flow style) es).1).run page depth .broken .clear p)) o' es' := by
  cases es with
  | nil =>
      obtain ⟨o', ho', hwrote⟩ := @run_bareDoc style o page depth .broken .clear p ho
      refine ⟨o', [], ho', .nil, by simp, fun _ _ => .nil, ?_, ?_, fun _ _ _ tail _ => ?_⟩
      · exact hwrote.solid (Text.solid_concat rfl o'.text)
      · exact hwrote
      · rw [settle, attachment, ho'.openDoc]
  | cons e rest =>
      by_cases hattach : ∃ spaced, e.joint none = .attach spaced
      · obtain ⟨spaced, hjoint⟩ := hattach
        exact attachment_printed page depth ho hes p hjoint
      · exact attachment_bare page depth ho hes p fun spaced h => hattach ⟨spaced, h⟩

end Printing

end Spelled

end XmlTidy
