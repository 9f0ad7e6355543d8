import XmlTidy.Proofs.Formattable
import XmlTidy.Proofs.IgnoreRanges
import XmlTidy.Proofs.KeptChildren
import XmlTidy.Proofs.Lossless
import XmlTidy.Proofs.Sections

/-!
Reports add up. The report on a document that was read is the sum of the reports on its elements, each apart from
the elements inside it: what is counted is added, and the remarks are those on the elements in another order.
So a result counts every element once, whichever way it is laid out, the ignore ranges of all contents, and the
contents that leave a range open.
-/

namespace XmlTidy

/-! ### Sums of reports -/

namespace Report

@[simp] theorem elements_append (r s : Report) : (r ++ s).elements = r.elements + s.elements := rfl
@[simp] theorem fragments_append (r s : Report) : (r ++ s).fragments = r.fragments + s.fragments := rfl
@[simp] theorem ranges_append (r s : Report) : (r ++ s).ranges = r.ranges + s.ranges := rfl
@[simp] theorem diagnostics_append (r s : Report) : (r ++ s).diagnostics = r.diagnostics ++ s.diagnostics := rfl

/-- Reports that count the same and make the same remarks, in whatever order. -/
structure Alike (r s : Report) : Prop where
  elements : r.elements = s.elements
  fragments : r.fragments = s.fragments
  ranges : r.ranges = s.ranges
  diagnostics : r.diagnostics.Perm s.diagnostics

namespace Alike

variable {r r' s s' : Report}

theorem refl (r : Report) : Alike r r := ⟨rfl, rfl, rfl, .refl _⟩

theorem symm (h : Alike r s) : Alike s r :=
  ⟨h.elements.symm, h.fragments.symm, h.ranges.symm, h.diagnostics.symm⟩

theorem trans (h : Alike r r') (h' : Alike r' s) : Alike r s :=
  ⟨h.elements.trans h'.elements, h.fragments.trans h'.fragments, h.ranges.trans h'.ranges,
    h.diagnostics.trans h'.diagnostics⟩

theorem append (h : Alike r r') (h' : Alike s s') : Alike (r ++ s) (r' ++ s') where
  elements := congrArg₂ (· + ·) h.elements h'.elements
  fragments := congrArg₂ (· + ·) h.fragments h'.fragments
  ranges := congrArg₂ (· + ·) h.ranges h'.ranges
  diagnostics := h.diagnostics.append h'.diagnostics

theorem append_comm (r s : Report) : Alike (r ++ s) (s ++ r) where
  elements := Nat.add_comm ..
  fragments := Nat.add_comm ..
  ranges := Nat.add_comm ..
  diagnostics := List.perm_append_comm

theorem append_assoc (r s u : Report) : Alike (r ++ s ++ u) (r ++ (s ++ u)) where
  elements := Nat.add_assoc ..
  fragments := Nat.add_assoc ..
  ranges := Nat.add_assoc ..
  diagnostics := .of_eq (List.append_assoc ..)

theorem append_empty (r : Report) : Alike (r ++ {}) r where
  elements := rfl
  fragments := rfl
  ranges := rfl
  diagnostics := .of_eq (List.append_nil _)

theorem empty_append (r : Report) : Alike ({} ++ r) r :=
  (append_comm {} r).trans (append_empty r)

theorem append_right_comm (r s u : Report) : Alike (r ++ s ++ u) (r ++ u ++ s) := by
  have hswap := (Alike.refl r).append (append_comm s u)
  exact (append_assoc r s u).trans (hswap.trans (append_assoc r u s).symm)

end Alike

/-- Reports one behind the other. -/
def total : List Report → Report
  | [] => {}
  | r :: rs => r ++ total rs

theorem alike_total_append (rs ss : List Report) : Alike (total (rs ++ ss)) (total rs ++ total ss) := by
  induction rs with
  | nil => exact (Alike.empty_append _).symm
  | cons r rs ih => exact ((Alike.refl r).append ih).trans (Alike.append_assoc ..).symm

theorem alike_total_of_perm {rs ss : List Report} (h : rs.Perm ss) : Alike (total rs) (total ss) := by
  induction h with
  | nil => exact .refl _
  | cons r _ ih => exact (Alike.refl r).append ih
  | swap r s rs =>
      have hswap := (Alike.append_comm s r).append (.refl (total rs))
      exact (Alike.append_assoc ..).symm.trans (hswap.trans (.append_assoc ..))
  | trans _ _ ih ih' => exact ih.trans ih'

end Report

/-! ### Contents of character data -/

/-- Whether a child is character data or a section of it. -/
def Node.isCharacters : Node → Bool
  | .leaf (.charData _) | .leaf (.cdata _) => true
  | _ => false

/-- Contents without children of the other kinds hold characters only. -/
theorem Content.all_isCharacters (content : Content) :
    (content.elements.isEmpty && content.comments.isEmpty && content.instructions.isEmpty &&
      content.references.isEmpty) = content.children.all Node.isCharacters := by
  obtain ⟨children, span⟩ := content
  simp only [elements, comments, instructions, references]
  induction children with
  | nil => rfl
  | cons node children ih =>
      rw [List.all_cons, ← ih]
      simp only [List.filterMap_cons]
      cases node with
      | element tag grandchildren => rfl
      | leaf l =>
          cases l <;> simp [Node.element?, Node.comment?, Node.instruction?, Node.reference?, Node.isCharacters]

namespace Job

variable (job : Job)

/-- A formatter is called for an element of its name whose content holds characters only. -/
theorem embedding?_eq (tag : Tag) (content : Content) :
    job.embedding? tag content =
      (Members.find? job.embedders (String.ofList tag.name)).bind fun embedder =>
        if content.children.all Node.isCharacters then
          some (embedder job.style (job.source.slice content.span.first (content.span.last + 1)))
        else none := by
  rw [embedding?]
  cases Members.find? job.embedders (String.ofList tag.name) with
  | none => rfl
  | some embedder =>
      rw [Option.bind_some, ← Content.all_isCharacters]

/-- What an embedded formatter lays out holds characters only. -/
theorem all_isCharacters_of_embedded? {tag : Tag} {content : Content} {doc : Doc}
    (h : job.embedded? tag content = some doc) : content.children.all Node.isCharacters = true := by
  rw [embedded?, embedding?_eq] at h
  cases hfind : Members.find? job.embedders (String.ofList tag.name) with
  | none =>
      rw [hfind] at h
      cases h
  | some embedder =>
      by_contra hnot
      rw [hfind, Option.bind_some, if_neg hnot] at h
      cases h

end Job

/-! ### The report on one element -/

/-- An element that has children only if it has content. -/
def Element.Sealed (e : Element) : Prop := Job.content? e.tag e.children = none → e.children = []

/-- The report on an element apart from the elements inside it. -/
def Job.ownReport (job : Job) (e : Element) : Report := job.elementReport e.tag e.children {}

theorem Element.comments_of_isCharacters {e : Element} (h : e.children.all Node.isCharacters = true) :
    e.comments = [] := by
  rw [Element.comments, List.filterMap_eq_nil_iff]
  intro node hnode
  have hnode' := List.all_eq_true.1 h _ hnode
  cases node with
  | element => rfl
  | leaf l =>
      cases l with
      | comment => cases hnode'
      | _ => rfl

theorem Node.reportAll_of_isCharacters (job : Job) {children : List Node}
    (h : children.all Node.isCharacters = true) : Node.reportAll job children = {} := by
  induction children with
  | nil => rw [Node.reportAll_nil]
  | cons node children ih =>
      rw [List.all_cons, Bool.and_eq_true] at h
      cases node with
      | leaf l => rw [Node.reportAll_leaf, ih h.2]
      | element tag grandchildren => cases h.1

namespace Job

variable (job : Job)

theorem children_of_content? {tag : Tag} {children : List Node} {content : Content}
    (h : content? tag children = some content) : content.children = children := by
  rw [content?] at h
  split at h
  · cases h
  · obtain ⟨span, -, rfl⟩ := Option.map_eq_some_iff.1 h
    rfl

theorem alike_contentReport (preserve : Bool) (content : Content) (elements : Report) :
    (job.contentReport preserve content elements).Alike (job.contentReport preserve content {} ++ elements) := by
  rw [contentReport, contentReport]
  have hswap := Report.Alike.append_comm elements
    ({ fragments := (content.fragments job.style preserve []).length + content.elements.length } ++
      job.rangesReport content)
  have hempty := Report.Alike.empty_append
    { fragments := (content.fragments job.style preserve []).length + content.elements.length }
  have hcontent := (hempty.append (.refl (job.rangesReport content))).append (.refl elements)
  exact (Report.Alike.append_assoc ..).trans (hswap.trans hcontent.symm)

/-- The report on an element adds that on the elements inside it to its own. -/
theorem alike_elementReport {e : Element} (he : e.Sealed) :
    (job.elementReport e.tag e.children (Node.reportAll job e.children)).Alike
      (job.ownReport e ++ Node.reportAll job e.children) := by
  rw [ownReport, elementReport, elementReport]
  cases hcontent : content? e.tag e.children with
  | none =>
      rw [he hcontent, Node.reportAll_nil]
      exact (Report.Alike.append_empty _).symm
  | some content =>
      cases hdoc : job.embedded? e.tag content with
      | some doc =>
          -- there is no element for which the embedded formatter would have to be passed over
          have hcharacters := job.all_isCharacters_of_embedded? hdoc
          rw [children_of_content? hcontent] at hcharacters
          rw [Node.reportAll_of_isCharacters job hcharacters]
          exact (Report.Alike.append_empty _).symm
      | none =>
          simp only [hdoc]
          exact ((Report.Alike.refl _).append (job.alike_contentReport ..)).trans (Report.Alike.append_assoc ..).symm

/-- How an element is reported on by itself: it is counted, and so are its fragments and its ranges unless it is
laid out as empty or by an embedded formatter. -/
inductive Reports (e : Element) : Report → Prop where
  | bare (h : e.children.all Node.isCharacters = true) : Reports e { elements := 1 }
  | regular (content : Content) (h : content.children = e.children) :
      Reports e ({ elements := 1 } ++ job.embeddingReport e.tag content ++
        job.contentReport (!job.reflows e.tag content) content {})

theorem reports_ownReport {e : Element} (he : e.Sealed) : job.Reports e (job.ownReport e) := by
  rw [ownReport, elementReport]
  split
  · next hnone =>
      apply Reports.bare
      rw [he hnone, List.all_nil]
  · next content hcontent =>
      have hchildren := children_of_content? hcontent
      split
      · next hdoc => exact .bare (hchildren ▸ job.all_isCharacters_of_embedded? hdoc)
      · exact .regular content hchildren

end Job

/-! ### What is counted -/

theorem Markers.among_nil (markers : Markers) : markers.among [] = [] := by
  simp [Markers.among, IgnoreRange.sortTokens, sortedBy]

/-- Whether the last marker among the comments of an element is a start marker. -/
def Element.leavesOpen (markers : Markers) (e : Element) : Bool :=
  (markers.among e.comments).getLast?.any fun c => c.image = markers.start

/-- The ranges that the markers among the comments of an element make with their neighbours. -/
def Element.markedRanges (markers : Markers) (e : Element) : List IgnoreRange :=
  IgnoreRange.ofNeighbours markers (markers.among e.comments)

namespace Report

/-- The remarks of a severity. -/
def ofSeverity (r : Report) (severity : Severity) : List Diagnostic := r.diagnostics.filter (·.severity = severity)

/-- A report that counts each of some elements, their ranges, and those that leave a range open. -/
structure Counts (markers : Markers) (es : List Element) (r : Report) : Prop where
  elements : r.elements = es.length
  ranges : r.ranges = (es.flatMap fun e => e.markedRanges markers).length
  infos : (r.ofSeverity .info).length = (es.filter fun e => e.leavesOpen markers).length

variable {markers : Markers} {es es' : List Element} {r s : Report}

theorem Counts.append (h : Counts markers es r) (h' : Counts markers es' s) : Counts markers (es ++ es') (r ++ s) where
  elements := by rw [elements_append, h.elements, h'.elements, List.length_append]
  ranges := by rw [ranges_append, h.ranges, h'.ranges, List.flatMap_append, List.length_append]
  infos := by
    have hr := h.infos
    have hs := h'.infos
    rw [ofSeverity] at hr hs ⊢
    rw [diagnostics_append, List.filter_append, List.filter_append, List.length_append, List.length_append, hr, hs]

theorem Counts.of_alike (h : Counts markers es r) (halike : Alike s r) : Counts markers es s where
  elements := halike.elements.trans h.elements
  ranges := halike.ranges.trans h.ranges
  infos := ((halike.diagnostics.filter _).length_eq).trans h.infos

/-- What is said of each element by itself adds up. -/
theorem counts_total {own : Element → Report} (h : ∀ e ∈ es, Counts markers [e] (own e)) :
    Counts markers es (total (es.map own)) := by
  induction es with
  | nil => exact ⟨rfl, rfl, rfl⟩
  | cons e es ih =>
      obtain ⟨he, hes⟩ := List.forall_mem_cons.1 h
      exact he.append (ih hes)

end Report

namespace Job

variable {job : Job} (hmarkers : job.style.markers.start ≠ job.style.markers.stop) {e : Element}

/-- An embedded formatter that fails is remarked on and not counted. -/
theorem counts_embeddingReport (tag : Tag) (content : Content) :
    (job.embeddingReport tag content).Counts job.style.markers [] := by
  rw [embeddingReport]
  split
  · exact ⟨rfl, rfl, rfl⟩
  · exact ⟨rfl, rfl, rfl⟩

include hmarkers

theorem counts_contentReport (preserve : Bool) {content : Content} (h : content.children = e.children) :
    ({ elements := 1 } ++ job.contentReport preserve content {} : Report).Counts job.style.markers [e] := by
  have hscan : job.ranges content =
      (e.markedRanges job.style.markers,
        IgnoreRange.openAtEnd job.style.markers (job.style.markers.among e.comments)) := by
    rw [ranges, Content.comments, h]
    exact IgnoreRange.scan_eq hmarkers e.comments
  have hopen : e.leavesOpen job.style.markers =
      (IgnoreRange.openAtEnd job.style.markers (job.style.markers.among e.comments)).isSome :=
    Option.isSome_filter.symm
  rw [contentReport, rangesReport, hscan]
  refine ⟨rfl, ?_, ?_⟩
  · simp
  · rw [List.filter_singleton, hopen]
    cases IgnoreRange.openAtEnd job.style.markers (job.style.markers.among e.comments) with
    | none => rfl
    | some token => rfl

theorem Reports.counts {r : Report} (hr : job.Reports e r) : r.Counts job.style.markers [e] := by
  cases hr with
  | bare h =>
      have hcomments := Element.comments_of_isCharacters h
      refine ⟨rfl, ?_, ?_⟩
      · simp [Element.markedRanges, hcomments, Markers.among_nil, IgnoreRange.ofNeighbours]
      · simp [Report.ofSeverity, Element.leavesOpen, hcomments, Markers.among_nil]
  | regular content h =>
      have hcounts := (counts_contentReport hmarkers (!job.reflows e.tag content) h).append
        (counts_embeddingReport e.tag content)
      exact hcounts.of_alike (.append_right_comm ..)

end Job

/-! ### The report on a tree -/

theorem Node.alike_reportAll_cons (job : Job) (node : Node) (rest : List Node) :
    (Node.reportAll job (node :: rest)).Alike (node.report job ++ Node.reportAll job rest) := by
  cases node with
  | leaf l =>
      rw [Node.reportAll_leaf, Node.report_leaf]
      exact (Report.Alike.empty_append _).symm
  | element tag children =>
      rw [Node.reportAll_element, Node.report_element]
      exact .refl _

/-- The report on a tree is the sum of those on its elements. -/
theorem Node.alike_report (job : Job) (node : Node) (h : ∀ e ∈ node.elements, e.Sealed) :
    (node.report job).Alike (.total (node.elements.map job.ownReport)) := by
  induction node using Node.induct with
  | leaf l =>
      rw [Node.report_leaf, Node.elements]
      exact .refl _
  | element tag children ih =>
      have hperm := Node.elements_perm tag children
      have hsealed : ∀ e ∈ (⟨tag, children⟩ :: children.flatMap Node.elements : List Element), e.Sealed :=
        fun e he => h e (hperm.mem_iff.2 he)
      obtain ⟨hself, hchildren⟩ := List.forall_mem_cons.1 hsealed
      have hall : (Node.reportAll job children).Alike
          (.total ((children.flatMap Node.elements).map job.ownReport)) := by
        clear h hperm hself hsealed
        induction children with
        | nil =>
            rw [Node.reportAll_nil]
            exact .refl _
        | cons node children ihchildren =>
            rw [List.flatMap_cons, List.forall_mem_append] at hchildren
            obtain ⟨hnode, hrest⟩ := List.forall_mem_cons.1 ih
            rw [List.flatMap_cons, List.map_append]
            have hcons := (hnode hchildren.1).append (ihchildren hrest hchildren.2)
            exact (node.alike_reportAll_cons job children).trans (hcons.trans (Report.alike_total_append ..).symm)
      rw [Node.report_element]
      have hreport := (job.alike_elementReport hself).trans ((Report.Alike.refl _).append hall)
      exact hreport.trans (Report.alike_total_of_perm (hperm.map job.ownReport)).symm

/-- An element of a document that was read is empty, or its children are spelled between its tags. -/
theorem Spelled.children_of_mem {w : Whole} (hw : w.WellFormed) {e : Element} (he : e ∈ w.locate.elements) :
    e.children = [] ∨ ∃ (pre : Text) (items : List Item) (post : Text), w.text = pre ++ (Item.textAll items ++ post) ∧
      e.children = Item.locateAll (Source.ofText w.text) pre.length items ∧ e.tag.selfClosing = false ∧
      e.tag.contentSpan =
        some ((Source.ofText w.text).span pre.length (pre.length + (Item.textAll items).length)) := by
  obtain ⟨pre, item, post, -, htext, hlocate⟩ := exists_item_of_mem_elements hw he
  obtain ⟨tag, children⟩ := e
  cases item with
  | leaf cls image => cases hlocate
  | empty o =>
      rw [Item.locate] at hlocate
      cases hlocate
      exact .inl rfl
  | full o items endTail =>
      have hinside : w.text = (pre ++ (o.text ++ ['>'])) ++ (Item.textAll items ++
          (Item.endTag o.name endTail ++ post)) := by
        rw [htext, Item.text]
        simp
      have hlength : pre.length + (o.text.length + 1) = (pre ++ (o.text ++ ['>'])).length := by simp
      rw [Item.locate, hlength] at hlocate
      cases hlocate
      exact .inr ⟨_, items, _, hinside, rfl, rfl, rfl⟩

namespace Document

theorem sealed_of_mem {w : Spelled.Whole} (hw : w.WellFormed) {e : Element} (he : e ∈ w.locate.elements) :
    e.Sealed := by
  intro hnone
  rcases Spelled.children_of_mem hw he with hnil | ⟨pre, items, post, -, -, hopen, hspan⟩
  · exact hnil
  · simpa [Job.content?, hopen, hspan] using hnone

/-- The report on a document that was read is the sum of those on its elements. -/
theorem alike_report {t : Text} {d : Document} (hread : read t = .ok d) (job : Job) :
    (d.report job).Alike (.total (d.elements.map job.ownReport)) := by
  obtain ⟨w, hw, rfl, rfl⟩ := exists_spelling hread
  have hsealed := fun e he => @sealed_of_mem w hw e he
  rw [report]
  rw [elements] at hsealed ⊢
  cases hroot : w.locate.root with
  | none => exact .refl _
  | some e =>
      rw [hroot] at hsealed
      exact Node.alike_report job e.toNode hsealed

/-- The report on a document that was read counts its elements. -/
theorem counts_report {t : Text} {d : Document} (hread : read t = .ok d) {job : Job}
    (hmarkers : job.style.markers.start ≠ job.style.markers.stop) :
    (d.report job).Counts job.style.markers d.elements := by
  have hsealed : ∀ e ∈ d.elements, e.Sealed := by
    obtain ⟨w, hw, -, rfl⟩ := exists_spelling hread
    intro e he
    exact sealed_of_mem hw he
  have htotal : (Report.total (d.elements.map job.ownReport)).Counts job.style.markers d.elements := by
    apply Report.counts_total
    intro e he
    exact Job.Reports.counts hmarkers (job.reports_ownReport (hsealed e he))
  exact htotal.of_alike (alike_report hread job)

theorem mem_elements_iff {d : Document} {e : Element} :
    e ∈ d.elements ↔ ∃ root, d.root = some root ∧ root.toNode.Holds e := by
  rw [elements]
  cases d.root with
  | none => simp
  | some root => simp [Node.mem_elements_iff]

end Document

/-! ### The result -/

namespace Formatter

/-- The result of formatting a text counts its elements, which are listed once each in the order of their offsets; it
counts their ranges, and it has a remark for each element whose last marker is a start marker. -/
theorem format_counts {profile : Profile} (hvalid : profile.Valid) (hmarkers : profile.ValidMarkers)
    {correlationId : Option String} {embedders : Registry} {f : Formatter}
    (hmake : make profile correlationId embedders = .ok f) {t : Text} {d : Document} (hread : read t = .ok d) :
    ∃ r, f.format t = .ok r ∧ r.metrics.elements = d.elements.length ∧
      (∀ e, e ∈ d.elements ↔ ∃ root, d.root = some root ∧ root.toNode.Holds e) ∧
      d.elements.Pairwise (fun a b => a.tag.span.first < b.tag.span.first) ∧
      r.metrics.ranges = (d.elements.flatMap fun e => e.markedRanges profile.style.markers).length ∧
      (r.ofSeverity .info).length = (d.elements.filter fun e => e.leavesOpen profile.style.markers).length := by
  obtain ⟨rfl, -, hindentation⟩ := of_make hmake
  obtain ⟨printed, hprint⟩ := f.profile.exists_print hvalid hindentation (d.isValid_layout (f.job t.normalize))
  have hcounts : (d.report (f.job t.normalize)).Counts f.profile.style.markers d.elements :=
    @Document.counts_report _ _ hread (f.job t.normalize) hmarkers.style_valid.start_ne_end
  have hincreasing : d.elements.Pairwise fun a b => a.tag.span.first < b.tag.span.first := by
    obtain ⟨w, hw, -, rfl⟩ := exists_spelling hread
    exact Spelled.increasing_elements_locate hw
  refine ⟨_, format_of_print hread hprint, congrArg Int.ofNat hcounts.elements, fun _ => Document.mem_elements_iff,
    hincreasing, congrArg Int.ofNat hcounts.ranges, hcounts.infos⟩

/-- A range around an element, and a start marker behind it. -/
def openedText : Text :=
  ("<a><!-- prettier-ignore-start --> <b>x</b>\n<!-- prettier-ignore-end -->" ++
    "<!-- prettier-ignore-start --></a>").toList

/-- In such a text a range is counted, and the start marker is remarked on. -/
theorem format_counts_opened :
    ∃ d r, read openedText = .ok d ∧
      format { profile := .canonical, embedders := [("b", fun _ t => .ok (t ++ t))] } openedText = .ok r ∧
      0 < r.metrics.ranges ∧ r.ofSeverity .info ≠ [] := by
  have hmarkers : Profile.canonical.ValidMarkers :=
    ⟨⟨_, checkPrinter_iff.2 ⟨rfl, rfl, rfl, rfl, rfl, fun _ _ _ => rfl⟩⟩, ⟨_, rfl⟩, ⟨_, rfl⟩⟩
  -- The markers are tested in the order they are found in: sorting them does not compute.
  obtain ⟨d, hread, htest⟩ := @exists_ok_of_any _ _ (read openedText)
    (fun d : Document => d.root.any fun e : Element =>
      let found := e.comments.filter Profile.canonical.style.markers.marks
      decide (found.Pairwise fun a b : Token => a.span.first < b.span.first) &&
        (decide (IgnoreRange.ofNeighbours Profile.canonical.style.markers found ≠ []) &&
          found.getLast?.any fun c => c.image = Profile.canonical.style.markers.start))
    (by decide +kernel)
  rw [Option.any_eq_true] at htest
  obtain ⟨e, he, htest⟩ := htest
  rw [Bool.and_eq_true, Bool.and_eq_true, decide_eq_true_iff, decide_eq_true_iff] at htest
  obtain ⟨hsorted, hranges, hopen⟩ := htest
  rw [← sortedBy_eq_of_perm (.refl _) hsorted, ← IgnoreRange.sortTokens, ← Markers.among] at hranges hopen
  have hmem : e ∈ d.elements := Document.mem_elements_iff.2 ⟨e, he, .here e⟩
  obtain ⟨r, hformat, -, -, -, hcount, hinfos⟩ := @format_counts .canonical (Profile.valid_of_layout rfl) hmarkers none
    [("b", fun _ t => .ok (t ++ t))] _ rfl _ _ hread
  refine ⟨d, r, hread, hformat, ?_, ?_⟩
  · rw [hcount, Int.natCast_pos, List.length_pos_iff]
    intro hnil
    exact hranges (List.flatMap_eq_nil_iff.1 hnil e hmem)
  · rw [← List.length_pos_iff, hinfos, List.length_pos_iff]
    intro hnil
    exact List.filter_eq_nil_iff.1 hnil e hmem hopen

end Formatter

end XmlTidy
