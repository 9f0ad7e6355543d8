import XmlTidy.Proofs.Joints
import XmlTidy.Proofs.LocatedRanges

/-!
Clustering children that stand in a text. The fragments come in the order of the children, a run of
blanks among them only as a hint; what the last fragments tell about the place of the next one is what
the text of the last child and the blanks behind it tell.
-/

namespace XmlTidy

open Spelled

/-! ### Fragments that may be reflowed -/

/-- The fragments of items one behind the other. -/
def flowFragments (src : Source) (layout : Item → Doc) : Nat → List Item → List Fragment
  | _, [] => []
  | n, item :: rest =>
      item.fragment src false layout n :: flowFragments src layout (n + item.text.length) rest

section Fragments

variable {job : Job} {src : Source} {layout : Item → Doc}

theorem flowFragments_eq {items : List Item} {n : Nat} (hlayout : LaidOut job src layout n items) :
    flowFragments src layout n items =
      (Item.locateAll src n items).map fun node => nodeFragment false (node.layout job) node := by
  induction items generalizing n with
  | nil => simp [Item.locateAll, flowFragments]
  | cons item rest ih =>
      have htail : LaidOut job src layout (n + item.text.length) rest := by
        simpa [Item.textAll] using LaidOut.drop [item] hlayout
      rw [Item.locateAll, List.map_cons, flowFragments, ih htail, Item.fragment, hlayout.head]

theorem le_offset_of_mem_flowFragments {items : List Item} {n : Nat} {f : Fragment}
    (h : f ∈ flowFragments src layout n items) : (n : Int) ≤ f.offset := by
  induction items generalizing n with
  | nil => simp [flowFragments] at h
  | cons item rest ih =>
      rw [flowFragments] at h
      rcases List.mem_cons.1 h with rfl | h
      · rw [Item.fragment, offset_nodeFragment, first_locate]
      · have := ih h
        omega

theorem inOrder_flowFragments {items : List Item} (hitems : Item.WellFormedAll items) (n : Nat) :
    InOrder (flowFragments src layout n items) := by
  induction items generalizing n with
  | nil => exact .nil
  | cons item rest ih =>
      have hpos := List.length_pos_iff.2
        (text_ne_nil (wellFormed_of_mem hitems (List.mem_cons_self ..)))
      rw [flowFragments, InOrder, List.pairwise_cons]
      refine ⟨fun f hf => ?_, ih (wellFormedAll_tail hitems) _⟩
      have := le_offset_of_mem_flowFragments hf
      rw [Item.fragment, offset_nodeFragment, first_locate]
      push_cast at this
      omega

/-- A marker left open and a range are what makes a range exist. -/
theorem existsIn_commentsAt (markers : Markers) (started : Bool) (n : Nat) (items : List Item) :
    IgnoreRange.existsIn markers started (commentsAt src n items) =
      ((started && Item.closes markers items) || Item.hasRange markers items) := by
  induction items generalizing n started with
  | nil => simp [commentsAt, Item.locateAll, IgnoreRange.existsIn, Item.closes, Item.hasRange]
  | cons item rest ih =>
      rw [Item.closes, Item.hasRange]
      obtain ⟨image, rfl, hcons⟩ | ⟨hcomment, hcons⟩ := commentsAt_cons src n item rest
      · rw [hcons, IgnoreRange.existsIn]
        by_cases hstart : image = markers.start
        · simp [hstart, Item.isStart, ih]
        · by_cases hstop : image = markers.stop
          · cases started <;> simp_all [Item.isStart, Item.isStop]
          · simp [hstart, hstop, Item.isStart, Item.isStop, ih]
      · obtain ⟨hstart, hstop⟩ := not_marker markers hcomment
        simp [hcons, hstart, hstop, ih]

theorem existsAmong_commentsAt {markers : Markers} {items : List Item}
    (hitems : Item.WellFormedAll items) (n : Nat) :
    IgnoreRange.existsAmong markers (commentsAt src n items) = Item.hasRange markers items := by
  rw [IgnoreRange.existsAmong, sortTokens_commentsAt hitems, existsIn_commentsAt]
  simp

theorem rangesAt_of_not_hasRange {markers : Markers} {items : List Item}
    (h : Item.hasRange markers items = false) (n : Nat) :
    rangesAt src n (pieces markers true items) = [] := by
  induction items using pieces_induct markers true generalizing n with
  | nil => simp [pieces, rangesAt]
  | range item rest hrange ih =>
      rw [Item.hasRange] at h
      simp_all
  | pair item next rest hrange hmeets ih =>
      rw [pieces_pair hrange hmeets, rangesAt]
      · exact ih (by simp_all [Item.hasRange]) _
      · simp
  | single item rest hrange hmeets ih =>
      rw [pieces_single hrange hmeets, rangesAt]
      · exact ih (by simp_all [Item.hasRange]) _
      · simp

/-- Content that is reflowed is the fragments of its items. -/
theorem fragments_flow {items : List Item} (hitems : Item.WellFormedAll items) {n : Nat}
    (hlayout : LaidOut job src layout n items) (span : Span)
    (hpreserve : (job.style.sensitivity = .preserve &&
      (Content.mk (Item.locateAll src n items) span).hasText) = false)
    (hrange : Item.hasRange job.style.markers items = false) :
    job.fragments false ⟨Item.locateAll src n items, span⟩
        (Node.elementFragments job (Item.locateAll src n items)) = flowFragments src layout n items := by
  have hranges : (job.ranges ⟨Item.locateAll src n items, span⟩).1 = [] := by
    rw [Job.ranges, IgnoreRange.scan]
    exact (congrArg (fun l => (IgnoreRange.pair _ none l).1) (sortTokens_commentsAt hitems _)).trans
      ((pair_commentsAt hitems _).trans (rangesAt_of_not_hasRange hrange n))
  have hfragments := fragments_eq job false ⟨Item.locateAll src n items, span⟩
  rw [hpreserve] at hfragments
  rw [Job.fragments, hranges, hfragments]
  rw [flowFragments_eq hlayout]
  exact sortedBy_eq_of_perm (kindFragments_flow job _).symm (flowFragments_eq hlayout ▸ inOrder_flowFragments hitems n)

end Fragments

/-! ### What a fragment tells -/

/-- A fragment that stands for an item at an offset. -/
structure StandsFor (src : Source) (layout : Item → Doc) (n : Nat) (item : Item) (f : Fragment) :
    Prop where
  isBlank : f.isBlank = false
  isInline : f.isInline = item.isInline
  endsBlank : f.endsBlank = item.endsBlank
  isComment : decide (f.kind = .comment) = item.isComment
  isClosed : f.kind = .element → f.isClosed = true
  printed : f.printed = item.flowDoc layout
  startLine : f.startLine = (src.span n (n + item.text.length)).start.line
  endLine : f.endLine = (src.span n (n + item.text.length)).stop.line

section Clusters

variable {src : Source} {layout : Item → Doc}

/-- Leaves are laid out as they were written. -/
def PlainLeaves (layout : Item → Doc) : Prop :=
  ∀ cls image, layout (.leaf cls image) = cls.doc image

theorem standsFor_fragment (src : Source) (hleaf : PlainLeaves layout) {item : Item} (h : item.isBlankRun = false)
    (n : Nat) : StandsFor src layout n item (item.fragment src false layout n) := by
  have hspan := span_locate src n item
  cases item with
  | leaf cls image =>
      cases cls with
      | blank => simp [Item.isBlankRun] at h
      | text => exact ⟨rfl, rfl, rfl, rfl, by rintro ⟨⟩, rfl, rfl, rfl⟩
      | cdata => exact ⟨rfl, rfl, rfl, rfl, by rintro ⟨⟩, (hleaf .cdata image).symm, rfl, rfl⟩
      | comment => exact ⟨rfl, rfl, rfl, rfl, by rintro ⟨⟩, (hleaf .comment image).symm, rfl, rfl⟩
      | instruction => exact ⟨rfl, rfl, rfl, rfl, by rintro ⟨⟩, (hleaf .instruction image).symm, rfl, rfl⟩
      | reference kind => exact ⟨rfl, rfl, rfl, rfl, by rintro ⟨⟩, (hleaf (.reference kind) image).symm, rfl, rfl⟩
  | empty tag =>
      rw [Item.fragment, Item.locate]
      exact ⟨rfl, rfl, rfl, rfl, fun _ => rfl, rfl, congrArg (fun s => (s.start.line : Int)) hspan,
        congrArg (fun s => (s.stop.line : Int)) hspan⟩
  | full tag children endTail =>
      rw [Item.locate] at hspan
      rw [Item.fragment, Item.locate]
      exact ⟨rfl, rfl, rfl, rfl, fun _ => rfl, rfl, congrArg (fun s => (s.start.line : Int)) hspan,
        congrArg (fun s => (s.stop.line : Int)) hspan⟩

/-! ### One step of clustering -/

/-- What the last fragments tell, if an item stands at an offset with blanks behind it. -/
structure Behind (src : Source) (layout : Item → Doc) (n : Nat) (previous : Item) (gap : Text)
    (s : Clustering) : Prop where
  emitted : ∃ f, s.emitted = some f ∧ StandsFor src layout n previous f
  hint : (gap = [] ∧ s.previous = s.emitted) ∨
    (gap ≠ [] ∧ ∃ b, s.previous = some b ∧ b.isBlank = true ∧ b.hasNewline = gap.hasNewline)
  inline : previous.isInline = true → ∃ c done, s.clusters = c :: done ∧ c.style = .fill

theorem not_inline_of_comment {item : Item} (h : item.isComment = true) : item.isInline = false := by
  cases item with
  | leaf cls image => cases cls <;> first | rfl | simp [Item.isComment] at h
  | _ => rfl

theorem hasNewline_nil : Text.hasNewline [] = false := rfl

namespace Behind

variable {n : Nat} {previous : Item} {gap : Text} {s : Clustering}

theorem delimiter_eq (h : Behind src layout n previous gap s) :
    s.delimiter = delimiter (!gap.isEmpty || previous.endsBlank) := by
  obtain ⟨f, hemitted, hf⟩ := h.emitted
  rcases h.hint with ⟨rfl, hprevious⟩ | ⟨hgap, b, hprevious, hblank, -⟩
  · rw [Clustering.delimiter, hprevious, hemitted]
    simp [hf.isBlank, hf.endsBlank, delimiter]
  · rw [Clustering.delimiter, hprevious]
    simp [hblank, hgap, delimiter]

theorem startsLine_eq (h : Behind src layout n previous gap s) : s.startsLine = gap.hasNewline := by
  obtain ⟨f, hemitted, hf⟩ := h.emitted
  rcases h.hint with ⟨rfl, hprevious⟩ | ⟨-, b, hprevious, hblank, hnewline⟩
  · rw [Clustering.startsLine, hprevious, hemitted]
    simp [hf.isBlank, hasNewline_nil]
  · rw [Clustering.startsLine, hprevious]
    simp [hblank, hnewline]

theorem flows_eq (h : Behind src layout n previous gap s) (f : Fragment) :
    s.flows f = (f.isInline && previous.isInline) := by
  obtain ⟨e, hemitted, he⟩ := h.emitted
  rw [Clustering.flows, hemitted]
  cases hinline : previous.isInline with
  | true =>
      obtain ⟨c, done, hclusters, hstyle⟩ := h.inline hinline
      simp [hclusters, he.isInline, hinline, hstyle]
  | false =>
      cases s.clusters <;> simp [he.isInline, hinline]

theorem leavesLine_eq {pre post : Text} (h : Behind src layout pre.length previous gap s)
    (hne : previous.text ≠ []) (hsrc : src = Source.ofText (pre ++ (previous.text ++ (gap ++ post))))
    {f : Fragment} {item : Item}
    (hf : StandsFor src layout (pre.length + previous.text.length + gap.length) item f) :
    s.leavesLine f = decide (2 ≤ lineEnds previous gap) := by
  obtain ⟨e, hemitted, he⟩ := h.emitted
  rw [Clustering.leavesLine, hemitted]
  have hline := Source.line_start_eq hne src hsrc
    (pre.length + previous.text.length + gap.length + item.text.length)
  simp only [he.endLine, hf.startLine, hline, lineEnds]
  exact decide_eq_decide.2 (by omega)

/-- Placing the next fragment starts the cluster of its joint, or extends the last one. -/
theorem place_eq {pre post : Text} (h : Behind src layout pre.length previous gap s)
    (hne : previous.text ≠ []) (hsrc : src = Source.ofText (pre ++ (previous.text ++ (gap ++ post))))
    {f : Fragment} {item : Item}
    (hf : StandsFor src layout (pre.length + previous.text.length + gap.length) item f) :
    (∃ spaced c done, (Entry.mk gap item).joint (some previous) = .flow spaced ∧ s.clusters = c :: done ∧
      c.style = .fill ∧
      s.place f =
        { s with clusters := c.extend [delimiter spaced, item.flowDoc layout] :: done }) ∨
    ((∀ spaced, (Entry.mk gap item).joint (some previous) ≠ .flow spaced) ∧
      s.place f =
        { s with
          clusters := ((Entry.mk gap item).joint (some previous)).cluster (Item.flowDoc layout) item ::
            s.clusters }) := by
  have hkind : (f.kind = .comment) = (item.isComment = true) := by
    rw [← hf.isComment, decide_eq_true_eq]
  have hstyle : Clustering.inlineStyle f = lineStyle item := by
    rw [Clustering.inlineStyle, lineStyle, hf.isInline]
  simp only [Clustering.place, h.leavesLine_eq hne hsrc hf, hkind, h.flows_eq, hf.isInline, hstyle,
    hf.printed, decide_eq_true_eq, Entry.joint, Option.map_some, Option.getD_some]
  by_cases hline : 2 ≤ lineEnds previous gap
  · refine .inr ⟨by simp [hline], ?_⟩
    simp [hline, Clustering.start, Joint.cluster]
  by_cases hcomment : item.isComment = true
  · refine .inr ⟨by cases hgap : gap.hasNewline <;> simp [hline, hcomment], ?_⟩
    have hplain : lineStyle item = .plain := by rw [lineStyle, not_inline_of_comment hcomment]; rfl
    obtain ⟨e, hemitted, he⟩ := h.emitted
    have hopen : (decide (e.kind = .element) && !e.isClosed) = false := by
      by_cases helement : e.kind = .element
      · simp [he.isClosed helement]
      · simp [helement]
    cases hgap : gap.hasNewline with
    | true =>
        simp [hline, hcomment, Clustering.addComment, h.startsLine_eq, hgap, Clustering.start,
          Joint.cluster, hplain, hf.printed]
    | false =>
        simp [hline, hcomment, Clustering.addComment, h.startsLine_eq, hgap, Clustering.start,
          Joint.cluster, hemitted, hopen, hf.printed, h.delimiter_eq]
  · by_cases hflow : (item.isInline && previous.isInline) = true
    · obtain ⟨c, done, hclusters, hfill⟩ := h.inline (by simp_all)
      refine .inl ⟨!gap.isEmpty || previous.endsBlank, c, done, by simp [hline, hcomment, hflow], hclusters, hfill, ?_⟩
      simp [hline, hcomment, hflow, Clustering.amend, hclusters, h.delimiter_eq]
    · refine .inr ⟨by simp [hline, hcomment, hflow], ?_⟩
      simp [hline, hcomment, hflow, Clustering.start, Joint.cluster]

end Behind

/-! ### All steps of clustering -/

/-- A run of blanks is a hint for what follows it. -/
theorem Behind.add_blank {n : Nat} {previous : Item} {s : Clustering}
    (h : Behind src layout n previous [] s) {image : Text} (hne : image ≠ []) (m : Nat) :
    Behind src layout n previous image
      (s.add ((Item.leaf .blank image).fragment src false layout m)) where
  emitted := h.emitted
  hint := .inr ⟨hne, _, rfl, rfl, rfl⟩
  inline := h.inline

/-- A fragment that has just been placed. -/
theorem behind_placed {n : Nat} {item : Item} {f : Fragment} (hf : StandsFor src layout n item f)
    {s : Clustering} (h : item.isInline = true → ∃ c done, s.clusters = c :: done ∧ c.style = .fill) :
    Behind src layout n item [] { s with previous := some f, emitted := some f } where
  emitted := ⟨f, rfl, hf⟩
  hint := .inl ⟨rfl, rfl⟩
  inline := h

/-- The clusters so far, the last one extended. -/
def extendLast (parts : List Doc) : List Cluster → List Cluster
  | [] => []
  | c :: done => c.extend parts :: done

theorem extendLast_nil (built : List Cluster) : extendLast [] built = built := by
  cases built with
  | nil => rfl
  | cons c done => simp [extendLast, Cluster.extend]

theorem style_joint_cluster {item : Item} (h : item.isInline = true) {previous : Option Item} {gap : Text} :
    (((Entry.mk gap item).joint previous).cluster (Item.flowDoc layout) item).style = .fill := by
  have hcomment : item.isComment = false := by
    by_contra hpos
    rw [not_inline_of_comment (by simpa using hpos)] at h
    exact Bool.false_ne_true h
  have hstyle : lineStyle item = .fill := by rw [lineStyle, h]; rfl
  simp only [Entry.joint, hcomment, Bool.false_eq_true, if_false]
  split
  · exact hstyle
  · split <;> exact hstyle

theorem entries_blank (gap image : Text) (rest : List Item) :
    entries gap (.leaf .blank image :: rest) = entries image rest := by
  rw [entries]

theorem entries_cons (gap : Text) {item : Item} (h : item.isBlankRun = false) (rest : List Item) :
    entries gap (item :: rest) = ⟨gap, item⟩ :: entries [] rest := by
  rw [entries]
  rintro image rfl
  simp [Item.isBlankRun] at h

theorem not_blank_of_apart {image : Text} {next : Item} {rest : List Item}
    (h : Item.WellFormedAll (.leaf .blank image :: next :: rest)) : next.isBlankRun = false := by
  rw [Item.WellFormedAll] at h
  have hapart := h.2.1 next rfl
  cases next with
  | leaf cls image => cases cls <;> first | rfl | exact hapart.elim
  | _ => rfl

/-- The clusters of a text of which some are built: the entries that flow into the text extend the last
one, and the others start their own. -/
def built (layout : Item → Doc) (done : List Cluster) (previous : Item) (es : List Entry) : List Cluster :=
  (extendLast (flowParts layout previous es) done).reverse ++
    clusters layout (some (flowRest previous es).1) (flowRest previous es).2

/-- One step of clustering: an item moves from the entries that are left into the clusters. -/
theorem Behind.add_item (hleaf : PlainLeaves layout) {pre post gap : Text} {previous item : Item} {s : Clustering}
    (h : Behind src layout pre.length previous gap s) (hne : previous.text ≠ [])
    (hblank : item.isBlankRun = false)
    (hsrc : src = Source.ofText (pre ++ (previous.text ++ (gap ++ post)))) :
    ∃ s', s.add (item.fragment src false layout (pre.length + previous.text.length + gap.length)) = s' ∧
      Behind src layout (pre.length + previous.text.length + gap.length) item [] s' ∧
      s'.attached = s.attached ∧ ∀ es, built (Item.flowDoc layout) s'.clusters item es =
        built (Item.flowDoc layout) s.clusters previous (⟨gap, item⟩ :: es) := by
  have hf := standsFor_fragment src hleaf hblank (pre.length + previous.text.length + gap.length)
  rw [Clustering.add, hf.isBlank, if_neg Bool.false_ne_true]
  obtain ⟨spaced, c, done, hjoint, hclusters, hstyle, hplace⟩ | ⟨hjoint, hplace⟩ := h.place_eq hne hsrc hf
  · refine ⟨_, rfl, behind_placed hf (s := s.place _) fun _ => ?_, by rw [hplace], fun es => ?_⟩
    · rw [hplace]
      exact ⟨_, _, rfl, hstyle⟩
    · simp [built, hplace, flowParts_flow hjoint, flowRest_flow hjoint, extendLast, hclusters, Cluster.extend]
  · refine ⟨_, rfl, behind_placed hf (s := s.place _) fun hinline => ?_, by rw [hplace], fun es => ?_⟩
    · rw [hplace]
      exact ⟨_, _, rfl, style_joint_cluster hinline⟩
    · have hstays : Stays previous (⟨gap, item⟩ :: es) := by simpa [Stays] using hjoint
      rw [built, built, flowParts_of_stays hstays, flowRest_of_stays hstays, clusters, extendLast_nil]
      simp [hplace, extendLast]

/-- Clustering what stands behind an item. -/
theorem foldl_add (hleaf : PlainLeaves layout) {items : List Item} (hitems : Item.WellFormedAll items)
    {pre post gap : Text} {previous : Item} {s : Clustering}
    (h : Behind src layout pre.length previous gap s) (hne : previous.text ≠ [])
    (hgap : gap ≠ [] → ∀ item ∈ items.head?, item.isBlankRun = false)
    (hsrc : src = Source.ofText (pre ++ (previous.text ++ (gap ++ (Item.textAll items ++ post))))) :
    ((flowFragments src layout (pre.length + previous.text.length + gap.length) items).foldl
        Clustering.add s).attached = s.attached ∧
    ((flowFragments src layout (pre.length + previous.text.length + gap.length) items).foldl
        Clustering.add s).ordered = built (Item.flowDoc layout) s.clusters previous (entries gap items) := by
  induction items generalizing pre gap previous s with
  | nil => simp [flowFragments, entries, built, flowParts, flowRest, clusters, extendLast_nil, Clustering.ordered]
  | cons item rest ih =>
      have hwf := wellFormed_of_mem hitems (List.mem_cons_self ..)
      have htail := wellFormedAll_tail hitems
      rw [flowFragments, List.foldl_cons]
      cases hblank : item.isBlankRun with
      | true =>
          obtain ⟨image, rfl⟩ := exists_of_isBlankRun hblank
          obtain rfl : gap = [] := by
            by_contra hne
            simp [hgap hne _ rfl] at hblank
          rw [entries_blank]
          refine ih htail (h.add_blank (text_ne_nil hwf) _) hne (fun _ next hnext => ?_) ?_
          · obtain ⟨rest, rfl⟩ := List.head?_eq_some_iff.1 hnext
            exact not_blank_of_apart hitems
          · rw [hsrc, Item.textAll, Item.text]
            simp
      | false =>
          obtain ⟨s', hadd, hbehind, hattached, hbuilt⟩ := h.add_item hleaf hne hblank hsrc
          have hlength : (pre ++ previous.text ++ gap).length =
              pre.length + previous.text.length + gap.length := by
            simp [Nat.add_assoc]
          have hsrc' : src = Source.ofText ((pre ++ previous.text ++ gap) ++
              (item.text ++ ([] ++ (Item.textAll rest ++ post)))) := by
            rw [hsrc, Item.textAll]
            simp
          rw [← hlength] at hbehind
          obtain ⟨hrestAttached, hrestOrdered⟩ := ih htail hbehind (text_ne_nil hwf) (by simp) hsrc'
          rw [hlength, List.length_nil, Nat.add_zero] at hrestAttached hrestOrdered
          rw [hadd, entries_cons gap hblank]
          exact ⟨hrestAttached.trans hattached, hrestOrdered.trans (hbuilt _)⟩

/-- Clustering from the first child that is more than blanks. -/
theorem foldl_add_first (hleaf : PlainLeaves layout) {item : Item} {rest : List Item}
    (hitems : Item.WellFormedAll (item :: rest)) (hblank : item.isBlankRun = false) {pre post gap : Text}
    (hsrc : src = Source.ofText (pre ++ (Item.textAll (item :: rest) ++ post))) {s : Clustering}
    (hemitted : s.emitted = none) (hclusters : s.clusters = []) (hattached : s.attached = [])
    (hdelimiter : s.delimiter = delimiter (!gap.isEmpty)) (hline : s.startsLine = gap.hasNewline) :
    (((flowFragments src layout pre.length (item :: rest)).foldl Clustering.add s).attached,
      ((flowFragments src layout pre.length (item :: rest)).foldl Clustering.add s).ordered) =
      attachment (Item.flowDoc layout) (⟨gap, item⟩ :: entries [] rest) := by
  have hwf := wellFormed_of_mem hitems (List.mem_cons_self ..)
  have hf := standsFor_fragment src hleaf hblank pre.length
  have hkind : ((item.fragment src false layout pre.length).kind = .comment) =
      (item.isComment = true) := by
    rw [← hf.isComment, decide_eq_true_eq]
  have hstyle : Clustering.inlineStyle (item.fragment src false layout pre.length) = lineStyle item := by
    rw [Clustering.inlineStyle, lineStyle, hf.isInline]
  have hsrc' : src = Source.ofText (pre ++ (item.text ++ ([] ++ (Item.textAll rest ++ post)))) := by
    rw [hsrc, Item.textAll]
    simp
  have hrest := fun s hs => @foldl_add src layout hleaf rest (wellFormedAll_tail hitems) pre post [] item s
    hs (text_ne_nil hwf) (by simp) hsrc'
  rw [List.length_nil, Nat.add_zero] at hrest
  rw [flowFragments, List.foldl_cons, Clustering.add, hf.isBlank, if_neg Bool.false_ne_true, attachment]
  by_cases hattach : item.isComment = true ∧ gap.hasNewline = false
  · have hinline := not_inline_of_comment hattach.1
    have hjoint : (Entry.mk gap item).joint none = .attach (!gap.isEmpty) := by
      simp [Entry.joint, hattach]
    have hplace : s.place (item.fragment src false layout pre.length) =
        { s with attached := [attachedDoc (!gap.isEmpty) (item.flowDoc layout)] } := by
      simp [Clustering.place, Clustering.leavesLine, hemitted, hkind, hattach, Clustering.addComment,
        hline, hattached, hdelimiter, hf.printed, attachedDoc]
    obtain ⟨hatt, hord⟩ := hrest _ (behind_placed hf (s := s.place _) (by simp [hinline]))
    rw [hatt, hord, hjoint, built, flowRest_of_stays (stays_of_not_inline hinline _), hplace]
    simp [hclusters, extendLast]
  · have hjoint : (Entry.mk gap item).joint none = .newLine := by
      cases hcomment : item.isComment <;> simp_all [Entry.joint]
    have hplace : s.place (item.fragment src false layout pre.length) =
        { s with
          clusters := [((Entry.mk gap item).joint none).cluster (Item.flowDoc layout) item] } := by
      rw [hjoint]
      cases hcomment : item.isComment with
      | true =>
          have hplain : lineStyle item = .plain := by
            rw [lineStyle, not_inline_of_comment hcomment]
            rfl
          have hnewline : gap.hasNewline = true := by simpa [hcomment] using hattach
          simp [Clustering.place, Clustering.leavesLine, hemitted, hkind, hcomment, Clustering.addComment,
            hline, hnewline, Clustering.start, hclusters, Joint.cluster, hplain, hf.printed]
      | false =>
          simp [Clustering.place, Clustering.leavesLine, hemitted, hkind, hcomment, Clustering.flows,
            Clustering.start, hclusters, Joint.cluster, hstyle, hf.printed]
    obtain ⟨hatt, hord⟩ := hrest _ (behind_placed hf (s := s.place _) fun hinline => by
      rw [hplace]
      exact ⟨_, _, rfl, style_joint_cluster hinline⟩)
    rw [hatt, hord, hplace]
    simp [hjoint, hattached, built, extendLast, clusters]

/-- Clustering the children of an element. -/
theorem ofFragments_eq (hleaf : PlainLeaves layout) {items : List Item} (hitems : Item.WellFormedAll items)
    {pre post : Text} (hsrc : src = Source.ofText (pre ++ (Item.textAll items ++ post))) :
    ((Clustering.ofFragments (flowFragments src layout pre.length items)).attached,
      (Clustering.ofFragments (flowFragments src layout pre.length items)).ordered) =
      attachment (Item.flowDoc layout) (entries [] items) := by
  cases items with
  | nil => rfl
  | cons item rest =>
      cases hblank : item.isBlankRun with
      | false =>
          rw [entries_cons [] hblank]
          exact foldl_add_first hleaf hitems hblank hsrc rfl rfl rfl rfl rfl
      | true =>
          obtain ⟨image, rfl⟩ := exists_of_isBlankRun hblank
          have himage : image ≠ [] := text_ne_nil (wellFormed_of_mem hitems (List.mem_cons_self ..))
          rw [entries_blank]
          cases rest with
          | nil => rfl
          | cons item' rest =>
              have hblank' := not_blank_of_apart hitems
              have hsrc' : src = Source.ofText ((pre ++ image) ++
                  (Item.textAll (item' :: rest) ++ post)) := by
                rw [hsrc, Item.textAll, Item.text]
                simp
              rw [entries_cons image hblank', ← foldl_add_first hleaf (wellFormedAll_tail hitems) hblank'
                hsrc' (s := Clustering.add {} ((Item.leaf .blank image).fragment src false layout pre.length))
                rfl rfl rfl ?_ ?_, List.length_append]
              · rfl
              · obtain ⟨c, t, rfl⟩ := List.exists_cons_of_ne_nil himage
                rfl
              · rfl

end Clusters

end XmlTidy
