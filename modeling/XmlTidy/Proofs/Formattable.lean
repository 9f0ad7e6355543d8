import XmlTidy.Proofs.ClusterContents
import XmlTidy.Proofs.Elements
import XmlTidy.Proofs.Skeleton
import XmlTidy.Proofs.Stages

/-!
What can be read can be formatted. Every part of a document has a layout, whatever the document, the style and the
embedded formatters; no layout holds a stray value, so printing it cannot get stuck. While children are
clustered, a step that looks at the last cluster finds one. Hence the only fault of formatting is that of
reading.
-/

namespace XmlTidy

/-! ### Texts -/

namespace Doc

@[simp] theorem isValid_grouped (contents : Doc) : (grouped contents).isValid = contents.isValid := isValid_group ..
@[simp] theorem isValid_lit (s : String) : (lit s).isValid = true := rfl
@[simp] theorem isValid_spaceLine : spaceLine.isValid = true := rfl
@[simp] theorem isValid_softLine : softLine.isValid = true := rfl
@[simp] theorem isValid_hardLine : hardLine.isValid = true := rfl
@[simp] theorem isValid_literalLine : literalLine.isValid = true := rfl

/-- Documents without stray values. -/
def AllValid (docs : List Doc) : Prop := ∀ doc ∈ docs, doc.isValid = true

theorem isValid_concat_append {docs docs' : List Doc} (h : AllValid docs) (h' : AllValid docs') :
    (concat (docs ++ docs')).isValid = true :=
  isValid_concat.2 (List.forall_mem_append.2 ⟨h, h'⟩)

theorem isValid_join {separator : Doc} (hseparator : separator.isValid = true) {docs : List Doc}
    (h : AllValid docs) : (concat (join separator docs)).isValid = true := by
  refine isValid_concat.2 fun doc hdoc => ?_
  rcases mem_join hdoc with rfl | hmem
  · exact hseparator
  · exact h doc hmem

theorem isValid_ofLines {lineBreak : Doc} (h : lineBreak.isValid = true) (t : Text) :
    (ofLines lineBreak t).isValid = true := by
  rw [ofLines]
  split
  · exact isValid_join h (List.forall_mem_map.2 fun _ _ => isValid_text _)
  · exact isValid_text t

@[simp] theorem isValid_verbatim (t : Text) : (verbatim t).isValid = true := isValid_ofLines rfl t

end Doc

open Doc

theorem allValid_segmentFills {current : List Doc} (h : AllValid current) (segments : List Segment) :
    AllValid (segmentFills current segments) := by
  have hfill : ∀ {docs : List Doc}, AllValid docs → (Doc.fill docs.reverse).isValid = true := by
    intro docs hdocs
    exact isValid_fill.2 fun doc hdoc => hdocs doc (List.mem_reverse.1 hdoc)
  have hcons : ∀ {doc : Doc} {docs : List Doc}, doc.isValid = true → AllValid docs → AllValid (doc :: docs) :=
    fun hdoc hdocs => List.forall_mem_cons.2 ⟨hdoc, hdocs⟩
  have hnil : AllValid [] := List.forall_mem_nil _
  fun_induction segmentFills current segments with
  | case1 current => exact hcons (hfill h) hnil
  | case2 current _ rest ih => exact hcons (hfill h) (hcons rfl (ih hnil))
  | case3 current _ rest ih => exact ih (hcons rfl h)
  | case4 current value rest ih => exact ih (hcons rfl h)

@[simp] theorem isValid_segmentsLayout (segments : List Segment) : (segmentsLayout segments).isValid = true := by
  rw [segmentsLayout, isValid_grouped, isValid_concat]
  exact allValid_segmentFills (List.forall_mem_nil _) segments

/-! ### Tags -/

@[simp] theorem Attribute.isValid_layout (style : QuoteStyle) (a : Attribute) : (a.layout style).isValid = true := rfl

theorem isValid_attributes {separator : Doc} (hseparator : separator.isValid = true) (style : QuoteStyle)
    (attributes : List Attribute) :
    (Doc.indent (.concat [.spaceLine, .concat (join separator (attributes.map (·.layout style)))])).isValid = true := by
  have hjoin := isValid_join hseparator (List.forall_mem_map.2 fun a (_ : a ∈ attributes) => a.isValid_layout style)
  rw [isValid_indent, isValid_concat]
  exact List.forall_mem_cons.2 ⟨rfl, List.forall_mem_singleton.2 hjoin⟩

namespace Tag

theorem allValid_head (style : Style) (tag : Tag) : AllValid (tag.head style) := by
  have hstart : AllValid [.text ['<'], .text tag.name] := by simp [AllValid]
  rw [head]
  split
  · exact hstart
  · refine List.forall_mem_append.2 ⟨hstart, List.forall_mem_singleton.2 (isValid_attributes ?_ ..)⟩
    split <;> rfl

@[simp] theorem isValid_selfClosed (style : Style) (tag : Tag) : (tag.selfClosed style).isValid = true := by
  have hspace : (slashSpace style).isValid = true := by
    rw [slashSpace]
    split <;> split <;> rfl
  rw [selfClosed, isValid_grouped]
  exact isValid_concat_append (tag.allValid_head style) (by simp [AllValid, hspace])

theorem isValid_opened (style : Style) (tag : Tag) {attached : List Doc} (h : AllValid attached) :
    (tag.opened style attached).isValid = true := by
  have hspace : (if style.bracketSameLine then Doc.text [] else softLine).isValid = true := by
    split <;> rfl
  have hbare : (grouped (.concat (tag.head style ++
      [if style.bracketSameLine then Doc.text [] else softLine, .text ['>']]))).isValid = true := by
    rw [isValid_grouped]
    exact isValid_concat_append (tag.allValid_head style) (by simp [AllValid, hspace])
  rw [opened]
  split
  · exact hbare
  · rw [isValid_grouped, isValid_concat]
    exact List.forall_mem_cons.2 ⟨hbare, h⟩

@[simp] theorem isValid_opened_nil (style : Style) (tag : Tag) : (tag.opened style []).isValid = true :=
  tag.isValid_opened style (List.forall_mem_nil _)

@[simp] theorem isValid_closed (tag : Tag) : tag.closed.isValid = true := by
  rw [closed]
  split <;> rfl

end Tag

/-! ### Fragments -/

namespace Fragment

/-- Fragments whose layouts hold no stray value. -/
def AllPrintable (fragments : List Fragment) : Prop := ∀ f ∈ fragments, f.printed.isValid = true

theorem allPrintable_append {fs gs : List Fragment} : AllPrintable (fs ++ gs) ↔ AllPrintable fs ∧ AllPrintable gs :=
  List.forall_mem_append

theorem isValid_extend {f : Fragment} (h : f.printed.isValid = true) (run : CharData) :
    (f.extend run).printed.isValid = true := by
  simp [extend, h]

theorem isValid_ofReflowed (run : CharData) : (ofReflowed run).printed.isValid = true := by
  rw [ofReflowed]
  split
  · rfl
  · exact isValid_segmentsLayout _

theorem allPrintable_preservedRuns {open? : Option (Fragment × Span)}
    (h : ∀ f ∈ open?, f.1.printed.isValid = true) (runs : List CharData) :
    AllPrintable (preservedRuns open? runs) := by
  have hpreserved : ∀ (run : CharData) (f : Fragment × Span), f ∈ some (ofPreserved run, run.span) →
      f.1.printed.isValid = true := by
    rintro run _ ⟨⟩
    exact isValid_verbatim _
  induction runs generalizing open? with
  | nil =>
      intro f hf
      rw [preservedRuns, Option.mem_toList, Option.map_eq_some_iff] at hf
      obtain ⟨pair, hpair, rfl⟩ := hf
      exact h pair hpair
  | cons run rest ih =>
      cases open? with
      | none => exact ih (hpreserved run)
      | some pair =>
          obtain ⟨f, previous⟩ := pair
          have hf : f.printed.isValid = true := h _ rfl
          rw [preservedRuns]
          split
          · apply ih
            rintro _ ⟨⟩
            exact isValid_extend hf run
          · exact List.forall_mem_cons.2 ⟨hf, ih (hpreserved run)⟩

theorem allPrintable_charData (preserve : Bool) (runs : List CharData) :
    AllPrintable (charDataFragments preserve runs) := by
  rw [charDataFragments]
  split
  · exact allPrintable_preservedRuns (by simp) runs
  · exact List.forall_mem_map.2 fun run _ => isValid_ofReflowed run

theorem allPrintable_content (style : Style) (preserve : Bool) (content : Content) {elements : List Fragment}
    (h : AllPrintable elements) : AllPrintable (content.fragments style preserve elements) := by
  have htokens : ∀ (kind : FragmentKind) (tokens : List Token), AllPrintable (tokens.map (ofToken kind)) :=
    fun kind tokens => List.forall_mem_map.2 fun _ _ => rfl
  have hreferences : AllPrintable (content.references.map ofReference) := List.forall_mem_map.2 fun _ _ => rfl
  have hall : AllPrintable (content.cdata.map (ofToken .cdata) ++ content.comments.map (ofToken .comment) ++
      charDataFragments (preserve || (style.sensitivity = .preserve && content.hasText)) content.charData ++ elements ++
      content.instructions.map (ofToken .instruction) ++ content.references.map ofReference) := by
    simp only [allPrintable_append]
    exact ⟨⟨⟨⟨⟨htokens _ _, htokens _ _⟩, allPrintable_charData _ _⟩, h⟩, htokens _ _⟩, hreferences⟩
  exact fun f hf => hall f ((List.mergeSort_perm ..).mem_iff.1 hf)

theorem allPrintable_splice (source : Text) (ranges : List IgnoreRange) {fragments : List Fragment}
    (h : AllPrintable fragments) : AllPrintable (IgnoreRange.splice source ranges fragments) := by
  rw [IgnoreRange.splice]
  split
  · exact h
  · have hkept : AllPrintable (IgnoreRange.kept ranges fragments) :=
      fun f hf => h f (List.mem_of_mem_filter hf)
    refine List.foldlRecOn (motive := fun s : IgnoreRange.Spliced => AllPrintable s.fragments) _ _ hkept
      fun s hs range hrange => ?_
    obtain ⟨r, -, rfl⟩ := List.mem_map.1 hrange
    intro f hf
    rcases List.eq_or_mem_of_mem_insertIdx hf with rfl | hmem
    · exact isValid_verbatim _
    · exact hs f hmem

end Fragment

/-! ### Clusters -/

/-- A cluster that holds no stray value. -/
structure Cluster.Valid (c : Cluster) : Prop where
  leading : AllValid c.leading
  parts : AllValid c.parts

theorem Cluster.Valid.isValid_layout {c : Cluster} (h : c.Valid) : c.layout.isValid = true := by
  refine isValid_concat_append h.leading (List.forall_mem_singleton.2 ?_)
  cases c.style with
  | plain => exact isValid_concat.2 h.parts
  | group => exact (isValid_grouped _).trans (isValid_concat.2 h.parts)
  | fill => exact (isValid_grouped _).trans (isValid_fill.2 h.parts)

namespace Clustering

/-- A clustering that holds no stray value. -/
structure Valid (s : Clustering) : Prop where
  clusters : ∀ c ∈ s.clusters, c.Valid
  attached : AllValid s.attached

theorem isValid_delimiter (s : Clustering) : s.delimiter.isValid = true := by
  rcases s.isDelimiter_delimiter with h | h <;> rw [h] <;> rfl

theorem Effect.valid {s s' : Clustering} {f : Fragment} (h : Effect s f s') (hs : s.Valid)
    (hf : f.printed.isValid = true) : s'.Valid := by
  have hparts : AllValid [s.delimiter, f.printed] := by simp [AllValid, s.isValid_delimiter, hf]
  have hleading : ∀ {leading : List Doc}, Cluster.IsLeading leading → AllValid leading := by
    intro leading h doc hdoc
    rw [h.forall_mem doc hdoc]
    rfl
  have hextend : ∀ {c : Cluster}, c.Valid → ∀ style,
      Cluster.Valid ⟨style, c.leading, c.parts ++ [s.delimiter, f.printed]⟩ :=
    fun hc _ => ⟨hc.leading, List.forall_mem_append.2 ⟨hc.parts, hparts⟩⟩
  have hclusters : ∀ {c : Cluster} {rest : List Cluster}, s.clusters = c :: rest →
      c.Valid ∧ ∀ c' ∈ rest, c'.Valid := by
    intro c rest hclusters
    have hvalid := hs.clusters
    rwa [hclusters, List.forall_mem_cons] at hvalid
  cases h with
  | attach =>
      refine ⟨hs.clusters, List.forall_mem_append.2 ⟨hs.attached, List.forall_mem_singleton.2 ?_⟩⟩
      rw [Doc.attachment, isValid_ifBreak, isValid_grouped, isValid_indent, isValid_concat.2 hparts]
      rfl
  | alone h =>
      exact ⟨List.forall_mem_cons.2 ⟨⟨hleading h, List.forall_mem_singleton.2 hf⟩, hs.clusters⟩, hs.attached⟩
  | beside => exact ⟨List.forall_mem_cons.2 ⟨⟨List.forall_mem_nil _, hparts⟩, hs.clusters⟩, hs.attached⟩
  | @join _ c rest _ _ _ h =>
      refine ⟨List.forall_mem_cons.2 ⟨?_, (hclusters h).2⟩, hs.attached⟩
      rw [Cluster.joined]
      split
      · exact hextend (hclusters h).1 .group
      · exact hextend (hclusters h).1 c.style
  | flow _ h => exact ⟨List.forall_mem_cons.2 ⟨hextend (hclusters h).1 _, (hclusters h).2⟩, hs.attached⟩

/-- Clustering fragments without stray values adds none. -/
theorem valid_ofFragments {fragments : List Fragment} (h : Fragment.AllPrintable fragments) :
    (ofFragments fragments).Valid := by
  refine List.foldlRecOn _ _ ⟨List.forall_mem_nil _, List.forall_mem_nil _⟩ fun s hs f hf => ?_
  rw [add]
  split
  · exact ⟨hs.clusters, hs.attached⟩
  · have hplaced := (effect_place s f).valid hs (h f hf)
    exact ⟨hplaced.clusters, hplaced.attached⟩

theorem led_ofFragments (fragments : List Fragment) : (ofFragments fragments).Led :=
  List.foldlRecOn _ _ led_empty fun _ hs f _ => hs.add f

/-- The clustering with other clusters. -/
def withClusters (s : Clustering) (clusters : List Cluster) : Clustering := { s with clusters }

section FirstCluster

variable {s : Clustering} (hled : ∀ e ∈ s.emitted, e.kind = .comment) (f : Fragment) (clusters : List Cluster)

@[simp] theorem leavesLine_withClusters : (s.withClusters clusters).leavesLine f = s.leavesLine f := rfl

@[simp] theorem startsLine_withClusters : (s.withClusters clusters).startsLine = s.startsLine := rfl

@[simp] theorem emitted_withClusters : (s.withClusters clusters).emitted = s.emitted := rfl

include hled

theorem flows_of_led : (s.withClusters clusters).flows f = false := by
  rw [flows]
  split
  · next e c rest hemitted _ =>
      have hinline : e.isInline = false := by simp [Fragment.isInline, hled e hemitted]
      simp [hinline]
  · rfl

omit clusters in
/-- A comment behind comments that are attached to the open tag is attached too, or starts a cluster. -/
theorem addComment_of_led :
    ∃ added, ∀ clusters, ((s.withClusters clusters).addComment f).clusters = added ++ clusters := by
  simp only [addComment, startsLine_withClusters, emitted_withClusters]
  by_cases hstarts : s.startsLine = true
  · simp only [hstarts, if_true]
    exact ⟨[⟨.plain, [.hardLine], [f.printed]⟩], fun clusters => rfl⟩
  · simp only [hstarts, Bool.false_eq_true, if_false]
    cases hemitted : s.emitted with
    | none => exact ⟨[], fun clusters => rfl⟩
    | some e =>
        have helement : (decide (e.kind = .element) && !e.isClosed) = false := by
          rw [hled e hemitted]
          rfl
        simp only [helement]
        exact ⟨[⟨.group, [], [s.delimiter, f.printed]⟩], fun clusters => rfl⟩

end FirstCluster

/-- Whether placing a fragment leaves the clusters as they are, whatever they are, and puts others behind them. -/
def OnlyAdds (s : Clustering) (f : Fragment) : Prop :=
  ∃ added, ∀ clusters, ((s.withClusters clusters).place f).clusters = added ++ clusters

/-- Where placing a fragment depends on the last cluster, there is one. -/
theorem onlyAdds_or_clusters_ne_nil (before : List Fragment) (f : Fragment) :
    (ofFragments before).OnlyAdds f ∨ (ofFragments before).clusters ≠ [] := by
  have hled := led_ofFragments before
  generalize ofFragments before = s at hled ⊢
  refine or_iff_not_imp_right.2 fun hnil => ?_
  rw [not_not] at hnil
  simp only [OnlyAdds, place, leavesLine_withClusters]
  by_cases hleaves : s.leavesLine f = true
  · simp only [hleaves, if_true]
    exact ⟨[⟨inlineStyle f, [.hardLine, .hardLine], [f.printed]⟩], fun clusters => rfl⟩
  · by_cases hcomment : f.kind = .comment
    · simp only [hleaves, Bool.false_eq_true, if_false, hcomment, if_true]
      exact addComment_of_led (hled hnil) f
    · simp only [hleaves, hcomment, flows_of_led (hled hnil) f, Bool.false_eq_true, if_false]
      exact ⟨[⟨inlineStyle f, [.hardLine], [f.printed]⟩], fun clusters => rfl⟩

end Clustering

/-! ### Elements -/

open Fragment in
theorem Job.allPrintable_fragments (job : Job) (preserve : Bool) (content : Content) {elements : List Fragment}
    (h : AllPrintable elements) : AllPrintable (job.fragments preserve content elements) :=
  allPrintable_splice _ _ (allPrintable_content _ _ _ h)

namespace Job

variable (job : Job) {elements : List Fragment} (h : Fragment.AllPrintable elements)
include h

theorem isValid_contentLayout (content : Content) : (job.contentLayout content elements).isValid = true := by
  rw [contentLayout, isValid_grouped, isValid_concat]
  exact List.forall_mem_map.2 (job.allPrintable_fragments true content h)

theorem isValid_reflowedLayout (tag : Tag) (content : Content) :
    (job.reflowedLayout tag content elements).isValid = true := by
  have hfragments := job.allPrintable_fragments false content h
  rw [reflowedLayout]
  split
  · have hprinted : (Doc.concat ((job.fragments false content elements).map Fragment.printed)).isValid = true :=
      isValid_concat.2 (List.forall_mem_map.2 hfragments)
    rw [isValid_grouped, isValid_concat]
    simp only [List.forall_mem_cons]
    exact ⟨tag.isValid_opened_nil job.style, hprinted, tag.isValid_closed, List.forall_mem_nil _⟩
  · split
    · exact tag.isValid_selfClosed job.style
    · next item others hitems =>
        dsimp only
        split
        · have hitem : item.printed.isValid = true :=
            hfragments item (List.mem_of_mem_filter (hitems ▸ List.mem_cons_self))
          simp [hitem]
        · have hvalid := Clustering.valid_ofFragments hfragments
          have hclusters : (Doc.concat ((Clustering.ofFragments (job.fragments false content elements)).ordered.map
              Cluster.layout)).isValid = true :=
            isValid_concat.2 (List.forall_mem_map.2 fun c hc =>
              (hvalid.clusters c (List.mem_reverse.1 hc)).isValid_layout)
          rw [isValid_grouped, isValid_concat]
          simp only [List.forall_mem_cons, isValid_indent]
          exact ⟨tag.isValid_opened job.style hvalid.attached, hclusters, rfl, tag.isValid_closed,
            List.forall_mem_nil _⟩

omit h in
theorem isValid_of_embedded? {tag : Tag} {content : Content} {doc : Doc}
    (h : job.embedded? tag content = some doc) : doc.isValid = true := by
  rw [embedded?] at h
  split at h
  · rw [embeddedLayout?] at h
    split at h
    · cases h
    · cases h
      exact isValid_ofLines rfl _
  · cases h

theorem isValid_elementLayout (tag : Tag) (children : List Node) :
    (job.elementLayout tag children elements).isValid = true := by
  rw [elementLayout]
  split
  · exact tag.isValid_selfClosed job.style
  · split
    · next hdoc => simp [job.isValid_of_embedded? hdoc]
    · split
      · exact job.isValid_reflowedLayout h tag _
      · simp [job.isValid_contentLayout h]

end Job

mutual
/-- The layout of a node holds no stray value. -/
theorem Node.isValid_layout (job : Job) (node : Node) : (node.layout job).isValid = true := by
  cases node with
  | leaf l => cases l <;> simp [Leaf.layout]
  | element tag children =>
      rw [Node.layout_element]
      exact job.isValid_elementLayout (Node.allPrintable_elementFragments job children) tag children

theorem Node.allPrintable_elementFragments (job : Job) (nodes : List Node) :
    Fragment.AllPrintable (Node.elementFragments job nodes) := by
  cases nodes with
  | nil =>
      rw [Node.elementFragments_nil]
      exact List.forall_mem_nil _
  | cons node rest =>
      cases node with
      | leaf l =>
          rw [Node.elementFragments_leaf]
          exact Node.allPrintable_elementFragments job rest
      | element tag children =>
          rw [Node.elementFragments_element]
          refine List.forall_mem_cons.2 ⟨?_, Node.allPrintable_elementFragments job rest⟩
          exact job.isValid_elementLayout (Node.allPrintable_elementFragments job children) tag children
end

/-! ### Documents -/

theorem Prolog.isValid_layout (style : Style) (p : Prolog) : (p.layout style).isValid = true := by
  have hspace : (if style.selfClosingSpace then spaceLine else softLine).isValid = true := by
    split <;> rfl
  have hattributes : AllValid (if p.attributes.isEmpty then [] else
      [.indent (.concat [.spaceLine, .concat (join .spaceLine (p.attributes.map (·.layout style.quotes)))])]) := by
    split
    · exact List.forall_mem_nil _
    · exact List.forall_mem_singleton.2 (isValid_attributes rfl ..)
  rw [Prolog.layout, isValid_grouped]
  refine isValid_concat_append (List.forall_mem_cons.2 ⟨rfl, hattributes⟩) ?_
  simp [AllValid, hspace]

theorem ExternalId.isValid_layout (e : ExternalId) : e.layout.isValid = true := by
  rw [ExternalId.layout]
  dsimp only
  split
  · simp
  · split <;> simp

theorem Doctype.isValid_layout (d : Doctype) : d.layout.isValid = true := by
  rw [Doctype.layout, isValid_grouped, isValid_concat]
  simp only [List.forall_mem_append]
  refine ⟨⟨⟨by simp, ?_⟩, ?_⟩, by simp⟩
  · split
    · exact List.forall_mem_nil _
    · simp [ExternalId.isValid_layout]
  · split
    · exact List.forall_mem_nil _
    · simp

theorem Document.allValid_topNodes (job : Job) (d : Document) : AllValid (d.topNodes.map (·.layout job)) := by
  refine List.forall_mem_map.2 fun node _ => ?_
  cases node with
  | prolog p => exact p.isValid_layout job.style
  | doctype decl => exact decl.isValid_layout
  | misc m => rfl
  | root node => exact node.isValid_layout job

theorem Document.isValid_layout (job : Job) (d : Document) : (d.layout job).isValid = true := by
  rw [Document.layout_eq, isValid_concat]
  simp only [List.forall_mem_cons]
  exact ⟨isValid_join rfl (d.allValid_topNodes job), rfl, List.forall_mem_nil _⟩

/-! ### Parts -/

/-- A leaf by itself. -/
def Leaf.part : Leaf → Part
  | .charData run => .charData run
  | .cdata token | .comment token | .instruction token => .token token
  | .reference ref => .reference ref

/-- A child of an element by itself. -/
def Node.part : Node → Part
  | .leaf l => l.part
  | .element tag children => .element ⟨tag, children⟩

/-- An element with its attributes, its content and its children. -/
def Element.parts (e : Element) : List Part :=
  .element e :: e.tag.attributes.map .attr ++ e.content?.toList.map .content ++ e.children.map Node.part

/-- All that a document is made of. -/
def Document.parts (d : Document) : List Part :=
  .document d :: (d.prolog.toList.flatMap fun p => .prolog p :: p.attributes.map .attr) ++
    (d.doctype.toList.flatMap fun decl => .doctype decl :: decl.externalId.toList.map .externalId) ++
    d.misc.map .misc ++ d.elements.flatMap Element.parts

/-- What has a layout that holds no stray value. -/
def Part.Printable (job : Job) (part : Part) : Prop :=
  ∃ doc, part.layout? job = some doc ∧ doc.isValid = true

theorem Node.printable_part (job : Job) (node : Node) : node.part.Printable job := by
  cases node with
  | leaf l =>
      cases l with
      | charData run => exact ⟨_, rfl, isValid_verbatim _⟩
      | _ => exact ⟨_, rfl, rfl⟩
  | element tag children => exact ⟨_, rfl, Node.isValid_layout job _⟩

theorem Element.printable_parts (job : Job) (e : Element) : ∀ part ∈ e.parts, part.Printable job := by
  simp only [Element.parts, List.forall_mem_append, List.forall_mem_cons, List.forall_mem_map]
  refine ⟨⟨⟨⟨_, rfl, e.toNode.isValid_layout job⟩, fun a _ => ⟨_, rfl, rfl⟩⟩, fun content _ => ?_⟩,
    fun node _ => node.printable_part job⟩
  exact ⟨_, rfl, job.isValid_contentLayout (Node.allPrintable_elementFragments job _) content⟩

theorem Document.printable_parts (job : Job) (d : Document) : ∀ part ∈ d.parts, part.Printable job := by
  simp only [Document.parts, List.forall_mem_append, List.forall_mem_cons, List.forall_mem_map,
    List.forall_mem_flatMap]
  refine ⟨⟨⟨⟨⟨_, rfl, d.isValid_layout job⟩, fun p _ => ⟨⟨_, rfl, p.isValid_layout job.style⟩,
    fun a _ => ⟨_, rfl, rfl⟩⟩⟩, fun decl _ => ⟨⟨_, rfl, decl.isValid_layout⟩, fun e _ => ⟨_, rfl, e.isValid_layout⟩⟩⟩,
    fun m _ => ⟨_, rfl, rfl⟩⟩, fun e _ => e.printable_parts job⟩

/-! ### Formatting -/

/-- A profile with a page prints a document as what is printed at the last stage, with its line ends. -/
theorem Profile.print_of_runs {profile : Profile} (hindentation : profile.checkIndentation = .ok ()) {page : Page}
    (hpage : profile.page? = some page) {lineEnd : LineEnd} (hlineEnd : profile.lineEnd = .ok lineEnd) {doc : Doc}
    {q : Printed Text Int} (h : Stage.Runs page (.start doc) ⟨q, []⟩) :
    profile.print doc = .ok (q.text.withLineEnds lineEnd.image) := by
  simp only [Profile.print, hindentation, Profile.printLines, hpage, Stage.print_of_runs h, hlineEnd]
  rfl

/-- Printing a document without stray values for a valid profile gives a text. -/
theorem Profile.exists_print {profile : Profile} (hvalid : profile.Valid)
    (hindentation : profile.checkIndentation = .ok ()) {doc : Doc} (h : doc.isValid = true) :
    ∃ printed, profile.print doc = .ok printed := by
  obtain ⟨page, lineEnd, hpage, hlineEnd⟩ := hvalid.exists_page
  obtain ⟨q, hruns, -⟩ := Stage.exists_runs_start page h
  exact ⟨_, print_of_runs hindentation hpage hlineEnd hruns⟩

namespace Formatter

/-- The result for a document whose layout is printed. -/
theorem format_of_print {f : Formatter} {t : Text} {d : Document} (hread : read t = .ok d) {printed : Text}
    (hprint : f.profile.print (d.layout (f.job t.normalize)) = .ok printed) :
    f.format t = .ok
      { formatted := marked t printed
        input := t
        diagnostics := (d.report (f.job t.normalize)).diagnostics
        notices := .parsedDocument :: (d.report (f.job t.normalize)).notices ++ [.formattedDocument]
        metrics := (d.report (f.job t.normalize)).metrics t.length
        correlationId := f.correlationId } := by
  simp only [format, hread, bind, Except.bind, Except.mapError, hprint]
  rfl

/-- What can be read can be formatted: every part of the document has a layout without stray values, clustering
never looks for a cluster that is not there, and a result is returned. A text is refused exactly if it cannot
be read, and for that reason. -/
theorem exists_format_of_read {profile : Profile} (hvalid : profile.Valid) {correlationId : Option String}
    {embedders : Registry} {f : Formatter} (hmake : make profile correlationId embedders = .ok f) (t : Text) :
    (∀ d, read t = .ok d →
      (∀ part ∈ d.parts, ∃ doc, part.layout? (f.job t.normalize) = some doc ∧ doc.isValid = true) ∧
      ∃ r, f.format t = .ok r) ∧
    (∀ before fragment, (Clustering.ofFragments before).OnlyAdds fragment ∨
      (Clustering.ofFragments before).clusters ≠ []) ∧
    ∀ fault, f.format t = .error fault ↔ ∃ error, read t = .error error ∧ fault = .malformed error := by
  obtain ⟨rfl, -, hindentation⟩ := of_make hmake
  have hformat : ∀ d, read t = .ok d → ∃ r, f.format t = .ok r := by
    intro d hread
    obtain ⟨printed, hprint⟩ := f.profile.exists_print hvalid hindentation (d.isValid_layout (f.job t.normalize))
    simp only [format, hread, bind, Except.bind, Except.mapError, hprint]
    exact ⟨_, rfl⟩
  refine ⟨fun d hread => ⟨d.printable_parts _, hformat d hread⟩, Clustering.onlyAdds_or_clusters_ne_nil,
    fun fault => ?_⟩
  cases hread : read t with
  | ok d =>
      obtain ⟨r, hr⟩ := hformat d hread
      simp [hr]
  | error e => simp [format, hread, bind, Except.bind, Except.mapError, eq_comm]

/-- A declaration, a document type with an external identifier, a comment behind the open tag, and text around a
reference. -/
def motleyText : Text :=
  "<?xml version='1.0'?><!DOCTYPE a SYSTEM 'b'><a k='1'><!--c-->x &amp; <b/></a>".toList

/-- Such a text is formatted, and a text that ends in an open tag is refused. -/
theorem exists_format_of_read_motley :
    ∃ d r e, read motleyText = .ok d ∧
      (∀ part ∈ d.parts, ∃ doc,
        part.layout? (job { profile := .canonical } motleyText.normalize) = some doc ∧ doc.isValid = true) ∧
      format { profile := .canonical } motleyText = .ok r ∧
      format { profile := .canonical } ['<', 'a', '>'] = .error (.malformed e) := by
  have hvalid : Profile.canonical.Valid := Profile.valid_of_layout rfl
  obtain ⟨d, hread, -⟩ := @exists_ok_of_any _ _ (read motleyText) (fun d => d.root.isSome) (by decide +kernel)
  obtain ⟨hparts, r, hformat⟩ := (@exists_format_of_read .canonical hvalid none [] _ rfl motleyText).1 d hread
  have hrefused : (read ['<', 'a', '>']).toBool = false := by decide +kernel
  cases hbad : read ['<', 'a', '>'] with
  | ok d' =>
      rw [hbad] at hrefused
      cases hrefused
  | error e =>
      refine ⟨d, r, e, hread, hparts, hformat, ?_⟩
      exact ((@exists_format_of_read .canonical hvalid none [] _ rfl ['<', 'a', '>']).2.2 _).2 ⟨e, hbad, rfl⟩

end Formatter

end XmlTidy
