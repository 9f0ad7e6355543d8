import XmlTidy.Proofs.Accounting

/-!
Embedded formatters that fail. A formatter is called for each element of its name whose content is not empty and holds
characters only, with these characters. If all calls fail or return nothing but white space, then a text is
formatted as if there were no formatters: the result is the same text with the same counts, and all that is added are
the remarks on the calls that failed, one at the start of each of their elements.
-/

namespace XmlTidy

/-! ### Calls -/

/-- What a leaf spells. -/
def Node.characters : Node → Text
  | .leaf l => l.image
  | .element .. => []

def Element.characters (e : Element) : Text := e.children.flatMap Node.characters

namespace Job

/-- The outcome of calling a formatter for an element, if there is one of its name and the element holds characters
only. -/
def call? (job : Job) (e : Element) : Option (Except EmbedFailure Text) :=
  if e.children ≠ [] ∧ e.children.all Node.isCharacters then
    (Members.find? job.embedders (String.ofList e.tag.name)).map fun embedder => embedder job.style e.characters
  else none

/-- The remark on a call that failed. -/
def warning? (job : Job) (e : Element) : Option Diagnostic :=
  match job.call? e with
  | some (.error failure) => some
      { severity := .warning
        message := "Embedded formatter for <" ++ String.ofList e.tag.name ++ "> failed: " ++ failure.message
        component := componentName
        position := .obj [("line", .int e.tag.span.start.line), ("column", .int e.tag.span.start.column)]
        details := .obj [("exception_type", .str failure.kind)]
        correlationId := job.correlationId }
  | _ => none

/-- The same job without formatters. -/
def plain (job : Job) : Job := { job with embedders := [] }

end Job

namespace Spelled

/-- Children that hold characters only spell what stands in the text. -/
theorem characters_locateAll {src : Source} {items : List Item} {n : Nat}
    (h : (Item.locateAll src n items).all Node.isCharacters = true) :
    (Item.locateAll src n items).flatMap Node.characters = Item.textAll items := by
  induction items generalizing n with
  | nil => rfl
  | cons item items ih =>
      rw [Item.locateAll, List.all_cons, Bool.and_eq_true] at h
      rw [Item.locateAll, List.flatMap_cons, ih h.2, Item.textAll]
      cases item with
      | leaf cls image =>
          have himage : (Item.locate src n (.leaf cls image)).characters = image := by
            rw [Item.locate]
            cases cls <;> rfl
          rw [himage, Item.text]
      | empty tag => simp [Item.locate, Node.isCharacters] at h
      | full tag children endTail => simp [Item.locate, Node.isCharacters] at h

end Spelled

namespace Job

open Spelled

variable {job : Job} {e : Element} {content : Content}

theorem call?_of_nil (h : e.children = []) : job.call? e = none := if_neg fun hne => hne.1 h

/-- What is called for an element is registered under its name. -/
theorem exists_of_call? {outcome : Except EmbedFailure Text} (h : job.call? e = some outcome) :
    ∃ embedder, (String.ofList e.tag.name, embedder) ∈ job.embedders ∧ embedder job.style e.characters = outcome := by
  rw [call?] at h
  split at h
  · obtain ⟨embedder, hfind, houtcome⟩ := Option.map_eq_some_iff.1 h
    obtain ⟨before, after, hregistry, -⟩ := List.lookup_eq_some_iff.1 hfind
    exact ⟨embedder, by simp [hregistry], houtcome⟩
  · cases h

theorem children_ne_nil_of_content? (h : content? e.tag e.children = some content) : e.children ≠ [] := by
  intro hnil
  simp [content?, hnil] at h

/-- The content of an element that was read, if it holds characters only, is what they spell. -/
theorem textIn_content {w : Whole} (hw : w.WellFormed) (he : e ∈ w.locate.elements)
    (hcontent : content? e.tag e.children = some content) (h : e.children.all Node.isCharacters = true) :
    content.span.textIn w.text = e.characters := by
  have hne := children_ne_nil_of_content? hcontent
  obtain ⟨pre, items, post, htext, hchildren, hopen, hspan⟩ := (children_of_mem hw he).resolve_left hne
  simp only [content?, hopen, List.isEmpty_eq_false_iff.2 hne, hspan] at hcontent
  cases hcontent
  rw [hchildren] at h
  rw [Element.characters, hchildren, characters_locateAll h]
  exact Text.textIn_span htext _ rfl rfl

/-- The formatter of an element that was read is called with the characters it holds. -/
theorem embedding?_eq_call? {w : Whole} (hw : w.WellFormed) (hsource : job.source = w.text)
    (he : e ∈ w.locate.elements) (hcontent : content? e.tag e.children = some content) :
    job.embedding? e.tag content = job.call? e := by
  rw [embedding?_eq, children_of_content? hcontent, call?]
  cases Members.find? job.embedders (String.ofList e.tag.name) with
  | none => simp
  | some embedder =>
      by_cases h : e.children.all Node.isCharacters = true
      · have htext : job.source.slice content.span.first (content.span.last + 1) = e.characters := by
          rw [hsource]
          exact textIn_content hw he hcontent h
        rw [Option.bind_some, if_pos h, if_pos ⟨children_ne_nil_of_content? hcontent, h⟩, htext]
        rfl
      · rw [Option.bind_some, if_neg h, if_neg fun hboth => h hboth.2]

end Job

/-! ### Layouts -/

/-- White space is no layout. -/
theorem embeddedLayout?_of_white {t : Text} (h : t.all Text.isWhiteSpace = true) : embeddedLayout? t = none := by
  have hbody : (Text.stripWhile (· == '\n') t).all Text.isWhiteSpace = true := by
    rw [List.all_eq_true] at h ⊢
    intro c hc
    rw [Text.stripWhile, Text.dropEndWhile, List.mem_reverse] at hc
    have hdropped := List.mem_reverse.1 ((List.dropWhile_sublist _).subset hc)
    exact h c ((List.dropWhile_sublist _).subset hdropped)
  exact if_pos hbody

namespace Job

/-- An element that no formatter lays out. -/
def Idle (job : Job) (e : Element) : Prop :=
  ∀ content, content? e.tag e.children = some content → job.embedded? e.tag content = none

variable {job : Job}

theorem elementLayout_plain {e : Element} (h : job.Idle e) (elements : List Fragment) :
    job.plain.elementLayout e.tag e.children elements = job.elementLayout e.tag e.children elements := by
  rw [elementLayout, elementLayout]
  cases hcontent : content? e.tag e.children with
  | none => rfl
  | some content =>
      have hnone : job.plain.embedded? e.tag content = none := rfl
      simp only [h content hcontent, hnone]
      rfl

end Job

theorem Node.elementFragments_congr {job job' : Job} {children : List Node}
    (h : ∀ child ∈ children, child.layout job = child.layout job') :
    Node.elementFragments job children = Node.elementFragments job' children := by
  induction children with
  | nil => rw [Node.elementFragments_nil, Node.elementFragments_nil]
  | cons child children ih =>
      obtain ⟨hchild, hchildren⟩ := List.forall_mem_cons.1 h
      cases child with
      | leaf l => rw [Node.elementFragments_leaf, Node.elementFragments_leaf, ih hchildren]
      | element tag grandchildren =>
          rw [Node.layout_element, Node.layout_element] at hchild
          rw [Node.elementFragments_element, Node.elementFragments_element, hchild, ih hchildren]

/-- A tree that no formatter lays out is laid out as without formatters. -/
theorem Node.layout_plain {job : Job} {node : Node} (h : ∀ e ∈ node.elements, job.Idle e) :
    node.layout job.plain = node.layout job := by
  induction node using Node.induct with
  | leaf l => rw [Node.layout_leaf, Node.layout_leaf]
  | element tag children ih =>
      have hperm := Node.elements_perm tag children
      have hself := h ⟨tag, children⟩ (hperm.mem_iff.2 (by simp))
      rw [Node.layout_element, Node.layout_element,
        Node.elementFragments_congr fun child hchild => ih child hchild fun e he => ?_]
      · exact Job.elementLayout_plain hself _
      · exact h e (hperm.mem_iff.2 (List.mem_cons_of_mem _ (List.mem_flatMap_of_mem hchild he)))

theorem Document.layout_plain {job : Job} {d : Document} (h : ∀ e ∈ d.elements, job.Idle e) :
    d.layout job.plain = d.layout job := by
  have hroot : (d.root.map fun e => (e.tag.span.first, e.toNode.layout job.plain)) =
      d.root.map fun e => (e.tag.span.first, e.toNode.layout job) := by
    cases hd : d.root with
    | none => rfl
    | some e =>
        rw [Document.elements, hd] at h
        rw [Option.map_some, Option.map_some, Node.layout_plain h]
  rw [Document.layout, Document.layout, Document.located, Document.located, hroot]
  rfl

/-! ### Reports -/

namespace Job

variable {job : Job} {e : Element}

/-- A call is remarked on if it fails. -/
theorem alike_embeddingReport {content : Content} (h : job.embedding? e.tag content = job.call? e) :
    (job.embeddingReport e.tag content).Alike { diagnostics := (job.warning? e).toList } := by
  rw [embeddingReport, warning?, h]
  cases job.call? e with
  | none => exact .refl _
  | some outcome =>
      cases outcome with
      | ok formatted => exact .refl _
      | error failure => exact ⟨rfl, rfl, rfl, .refl _⟩

/-- The report on an element that no formatter lays out is that without formatters, and the remark on the call. -/
theorem alike_ownReport (he : e.Sealed) (hidle : job.Idle e)
    (hcall : ∀ content, content? e.tag e.children = some content → job.embedding? e.tag content = job.call? e) :
    (job.ownReport e).Alike (job.plain.ownReport e ++ { diagnostics := (job.warning? e).toList }) := by
  rw [ownReport, ownReport, elementReport, elementReport]
  cases hcontent : content? e.tag e.children with
  | none =>
      have hwarning : job.warning? e = none := by
        rw [warning?, call?_of_nil (he hcontent)]
      rw [hwarning]
      exact (Report.Alike.append_empty _).symm
  | some content =>
      have hnone : job.plain.embedded? e.tag content = none := rfl
      have hembedding := alike_embeddingReport (hcall content hcontent)
      have hplain : (job.plain.embeddingReport e.tag content) = {} := rfl
      simp only [hidle content hcontent, hnone, hplain]
      have hempty := (Report.Alike.append_empty { elements := 1 }).symm.append hembedding
      exact (hempty.append (.refl _)).trans (.append_right_comm ..)

end Job

/-- Remarks on single reports are remarks on their sum. -/
theorem Report.alike_total_remarked {es : List Element} {own own' : Element → Report}
    {remark? : Element → Option Diagnostic}
    (h : ∀ e ∈ es, (own e).Alike (own' e ++ { diagnostics := (remark? e).toList })) :
    (total (es.map own)).Alike (total (es.map own') ++ { diagnostics := es.filterMap remark? }) := by
  induction es with
  | nil => exact (Alike.append_empty _).symm
  | cons e es ih =>
      obtain ⟨he, hes⟩ := List.forall_mem_cons.1 h
      have hremarks : (e :: es).filterMap remark? = (remark? e).toList ++ es.filterMap remark? := by
        cases hremark : remark? e <;> simp [hremark]
      rw [hremarks]
      have hboth := he.append (ih hes)
      have hswap := (Alike.append_right_comm (own' e) { diagnostics := (remark? e).toList }
        (total (es.map own'))).append (.refl { diagnostics := es.filterMap remark? })
      exact hboth.trans ((Alike.append_assoc ..).symm.trans (hswap.trans (.append_assoc ..)))

theorem Report.Alike.metrics_eq {r s : Report} (h : r.Alike s) (characters : Nat) :
    r.metrics characters = s.metrics characters := by
  rw [Report.metrics, Report.metrics, h.elements, h.fragments, h.ranges]

namespace Document

open Spelled

/-- If all calls fail or return white space, the report on a document is that without formatters and the remarks on
the calls that failed. -/
theorem alike_report_plain {t : Text} {d : Document} (hread : read t = .ok d) {job : Job} (hsource : job.source = t)
    (hfail : ∀ e ∈ d.elements, ∀ formatted, job.call? e = some (.ok formatted) →
      formatted.all Text.isWhiteSpace = true) :
    (∀ e ∈ d.elements, job.Idle e) ∧
      (d.report job).Alike (d.report job.plain ++ { diagnostics := d.elements.filterMap job.warning? }) := by
  have hreport := alike_report hread job
  have hplain := alike_report hread job.plain
  obtain ⟨w, hw, rfl, rfl⟩ := exists_spelling hread
  have hcall : ∀ e ∈ w.locate.elements, ∀ content, Job.content? e.tag e.children = some content →
      job.embedding? e.tag content = job.call? e := by
    intro e he content hcontent
    exact Job.embedding?_eq_call? hw hsource he hcontent
  have hidle : ∀ e ∈ w.locate.elements, job.Idle e := by
    intro e he content hcontent
    rw [Job.embedded?, hcall e he content hcontent]
    split
    · next formatted hformatted => exact embeddedLayout?_of_white (hfail e he formatted hformatted)
    · rfl
  refine ⟨hidle, ?_⟩
  have hremarks := Report.alike_total_remarked fun e he =>
    Job.alike_ownReport (sealed_of_mem hw he) (hidle e he) (hcall e he)
  exact hreport.trans (hremarks.trans (hplain.symm.append (.refl _)))

end Document

namespace Formatter

theorem eq_of_make {profile : Profile} {correlationId : Option String} {embedders : Registry} {f : Formatter}
    (h : make profile correlationId embedders = .ok f) :
    f = { profile, correlationId, embedders } ∧ profile.checkIndentation = .ok () := by
  obtain ⟨check, hcheck, h⟩ := exists_of_bind_eq_ok h
  cases h
  exact ⟨rfl, hcheck⟩

/-- If each call of an embedded formatter fails or returns white space, then formatting gives the text and the counts
that it gives without formatters, and its remarks are those without formatters and one on each call that failed. -/
theorem format_failedEmbedding {profile : Profile} (hvalid : profile.Valid) {correlationId : Option String}
    {embedders : Registry} {f f' : Formatter} (hmake : make profile correlationId embedders = .ok f)
    (hmake' : make profile correlationId [] = .ok f') {t : Text} {d : Document} (hread : read t = .ok d)
    (hfail : ∀ e ∈ d.elements, ∀ formatted, (f.job t.normalize).call? e = some (.ok formatted) →
      formatted.all Text.isWhiteSpace = true) :
    ∃ r r', f.format t = .ok r ∧ f'.format t = .ok r' ∧ r.formatted = r'.formatted ∧ r.metrics = r'.metrics ∧
      r.diagnostics.Perm (r'.diagnostics ++ d.elements.filterMap (f.job t.normalize).warning?) := by
  obtain ⟨rfl, hindentation⟩ := eq_of_make hmake
  obtain ⟨rfl, -⟩ := eq_of_make hmake'
  obtain ⟨hidle, hreport⟩ := Document.alike_report_plain hread rfl hfail
  obtain ⟨printed, hprint⟩ := profile.exists_print hvalid hindentation
    (d.isValid_layout (job { profile, correlationId, embedders } t.normalize))
  have hprint' := hprint
  rw [← Document.layout_plain hidle] at hprint'
  exact ⟨_, _, format_of_print hread hprint, format_of_print hread hprint', rfl, hreport.metrics_eq t.length,
    hreport.diagnostics⟩

/-- Two elements with text. -/
def scriptedText : Text := "<a><s>x</s><p>y</p></a>".toList

/-- A formatter that fails, and one that returns a blank line. -/
def idleEmbedders : Registry :=
  [("s", fun _ _ => .error ⟨"ValueError", "no script"⟩), ("p", fun _ _ => .ok ['\n', ' ', '\n'])]

/-- With such formatters the text is formatted as without them, and the failure is remarked on where its element
starts. -/
theorem format_failedEmbedding_scripted :
    ∃ d r r', read scriptedText = .ok d ∧
      format { profile := .canonical, embedders := idleEmbedders } scriptedText = .ok r ∧
      format { profile := .canonical } scriptedText = .ok r' ∧
      r.formatted = r'.formatted ∧ r.metrics = r'.metrics ∧
      ∃ warning ∈ r.diagnostics, warning.severity = .warning ∧
        warning.position = .obj [("line", .int 1), ("column", .int 4)] := by
  have hfail : ∀ (e : Element) (formatted : Text),
      (job { profile := .canonical, embedders := idleEmbedders } scriptedText.normalize).call? e =
        some (.ok formatted) → formatted.all Text.isWhiteSpace = true := by
    intro e formatted hcall
    obtain ⟨embedder, hmem, houtcome⟩ := Job.exists_of_call? hcall
    rcases List.mem_cons.1 hmem with heq | hmem
    · rw [(Prod.mk.inj heq).2] at houtcome
      cases houtcome
    · rw [(Prod.mk.inj (List.mem_singleton.1 hmem)).2] at houtcome
      cases houtcome
      decide
  obtain ⟨d, hread, htest⟩ := @exists_ok_of_any _ _ (read scriptedText)
    (fun d : Document => d.root.any fun root : Element => root.children.any fun child : Node =>
      child.element?.any fun e : Element =>
        ((job { profile := .canonical, embedders := idleEmbedders } scriptedText.normalize).warning? e).isSome &&
          decide (e.tag.span.start.line = 1 ∧ e.tag.span.start.column = 4))
    (by decide +kernel)
  obtain ⟨r, r', hformat, hformat', hformatted, hmetrics, hdiagnostics⟩ :=
    @format_failedEmbedding .canonical (Profile.valid_of_layout rfl) none idleEmbedders _ _ rfl rfl _ _ hread
      fun e _ => hfail e
  rw [Option.any_eq_true] at htest
  obtain ⟨root, hroot, htest⟩ := htest
  obtain ⟨child, hchild, htest⟩ := List.any_eq_true.1 htest
  cases child with
  | leaf l => cases htest
  | element tag children =>
      rw [Node.element?, Option.any_some, Bool.and_eq_true, decide_eq_true_iff] at htest
      obtain ⟨hsome, hline, hcolumn⟩ := htest
      obtain ⟨warning, hwarning⟩ := Option.isSome_iff_exists.1 hsome
      have hmem : (⟨tag, children⟩ : Element) ∈ d.elements :=
        Document.mem_elements_iff.2 ⟨root, hroot, .inside hchild (.here ⟨tag, children⟩)⟩
      have hin : warning ∈ r.diagnostics :=
        hdiagnostics.mem_iff.2 (List.mem_append_right _ (List.mem_filterMap.2 ⟨_, hmem, hwarning⟩))
      refine ⟨d, r, r', hread, hformat, hformat', hformatted, hmetrics, warning, hin, ?_⟩
      rw [Job.warning?] at hwarning
      split at hwarning
      · cases hwarning
        rw [hline, hcolumn]
        exact ⟨rfl, rfl⟩
      · cases hwarning

end Formatter

end XmlTidy
