import XmlTidy.Proofs.SiblingSpacing

/-!
How far `xml:space` reaches. The attribute is in force in the element that carries it and, unless an element nearer
by carries one, in all elements inside of it. Whitespace that is to be preserved is kept in the elements that
carry the attribute themselves, in those where whitespace counts for another reason, and in those that stand in an
ignore range. An element that only stands inside of such an element is laid out by what its own tag says, and its
whitespace may be reflowed.
-/

namespace XmlTidy

/-! ### Scopes -/

def spaceName : Text := "xml:space".toList

/-- The value that preserves whitespace. -/
def preserveValue : Text := "preserve".toList

/-- The values of the `xml:space` attributes of a tag. -/
def Tag.spaces (tag : Tag) : List Text := (tag.attributes.filter (·.name = spaceName)).map Attribute.inner

/-- The values in force inside of a tag, given those around it. -/
def Tag.scope (outer : List Text) (tag : Tag) : List Text := if tag.spaces.isEmpty then outer else tag.spaces

mutual
/-- The elements of a subtree in document order, each with the values in force in it. -/
def Node.spaceScopes (outer : List Text) : Node → List (Element × List Text)
  | .leaf _ => []
  | .element tag children =>
      (⟨tag, children⟩, tag.scope outer) ::
        ((sortedBy Prod.fst (Node.spaceScopesIn (tag.scope outer) children)).map Prod.snd).flatten

/-- The elements of each subtree, with the offset at which the subtree starts. -/
def Node.spaceScopesIn (outer : List Text) : List Node → List (Nat × List (Element × List Text))
  | [] => []
  | node :: rest => (node.span.first, node.spaceScopes outer) :: Node.spaceScopesIn outer rest
end

/-- The elements of a document in document order, each with the values of `xml:space` in force in it. -/
def Document.spaceScopes (d : Document) : List (Element × List Text) :=
  match d.root with
  | some root => root.toNode.spaceScopes []
  | none => []

mutual
/-- The elements are listed in document order. -/
theorem Node.map_fst_spaceScopes (outer : List Text) (node : Node) : (node.spaceScopes outer).map Prod.fst = node.elements := by
  cases node with
  | leaf l => rw [Node.spaceScopes, Node.elements, List.map_nil]
  | element tag children =>
      have hsorted := List.map_mergeSort (r := fun a b : Nat × List (Element × List Text) => decide (a.1 ≤ b.1))
        (s := fun a b : Nat × List Element => decide (a.1 ≤ b.1)) (f := fun x => (x.1, x.2.map Prod.fst))
        (l := Node.spaceScopesIn (tag.scope outer) children) fun _ _ _ _ => rfl
      rw [Node.map_spaceScopesIn (tag.scope outer) children] at hsorted
      rw [Node.spaceScopes, Node.elements, List.map_cons, sortedBy, sortedBy, ← hsorted, List.map_flatten, List.map_map,
        List.map_map]
      rfl

theorem Node.map_spaceScopesIn (outer : List Text) (nodes : List Node) :
    ((Node.spaceScopesIn outer nodes).map fun x => (x.1, x.2.map Prod.fst)) = Node.elementsIn nodes := by
  cases nodes with
  | nil => rw [Node.spaceScopesIn, Node.elementsIn, List.map_nil]
  | cons node rest =>
      rw [Node.spaceScopesIn, Node.elementsIn, List.map_cons, Node.map_fst_spaceScopes outer node, Node.map_spaceScopesIn outer rest]
end

mutual
/-- In an element that carries the attribute, its own values are in force. -/
theorem Node.scope_of_mem (outer : List Text) (node : Node) {x : Element × List Text} (h : x ∈ node.spaceScopes outer)
    (hown : x.1.tag.spaces ≠ []) : x.2 = x.1.tag.spaces := by
  cases node with
  | leaf l =>
      rw [Node.spaceScopes] at h
      cases h
  | element tag children =>
      rw [Node.spaceScopes, List.mem_cons, List.mem_flatten] at h
      rcases h with rfl | ⟨subtree, hsubtree, hmem⟩
      · rw [Tag.scope, if_neg (by simpa using hown)]
      · obtain ⟨pair, hpair, rfl⟩ := List.mem_map.1 hsubtree
        have hsorted := (List.mergeSort_perm (Node.spaceScopesIn (tag.scope outer) children) _).mem_iff.1 hpair
        exact Node.scope_of_mem_spaceScopesIn (tag.scope outer) children hsorted hmem hown

theorem Node.scope_of_mem_spaceScopesIn (outer : List Text) (nodes : List Node)
    {pair : Nat × List (Element × List Text)} (h : pair ∈ Node.spaceScopesIn outer nodes) {x : Element × List Text}
    (hmem : x ∈ pair.2) (hown : x.1.tag.spaces ≠ []) : x.2 = x.1.tag.spaces := by
  cases nodes with
  | nil =>
      rw [Node.spaceScopesIn] at h
      cases h
  | cons node rest =>
      rw [Node.spaceScopesIn, List.mem_cons] at h
      rcases h with rfl | h
      · exact Node.scope_of_mem outer node hmem hown
      · exact Node.scope_of_mem_spaceScopesIn outer rest h hmem hown
end

namespace Document

theorem map_fst_spaceScopes (d : Document) : d.spaceScopes.map Prod.fst = d.elements := by
  rw [spaceScopes, elements]
  cases d.root with
  | none => rfl
  | some root => exact root.toNode.map_fst_spaceScopes []

theorem scope_of_mem {d : Document} {x : Element × List Text} (h : x ∈ d.spaceScopes) (hown : x.1.tag.spaces ≠ []) :
    x.2 = x.1.tag.spaces := by
  rw [spaceScopes] at h
  split at h
  · next root _ => exact root.toNode.scope_of_mem [] h hown
  · cases h

end Document

/-! ### Runs of character data -/

/-- Whether a run is blank, and its image; only runs of character data have both. -/
def Face.run? : Face → Option (Bool × Text)
  | .leaf .blank image => some (true, image)
  | .leaf .text image => some (false, image)
  | _ => none

namespace Element

/-- The runs of character data among the children of an element: for each whether it is blank, and its image. -/
def runs (e : Element) : List (Bool × Text) :=
  (e.children.filterMap Node.charData?).map fun run => (run.blank, run.image)

theorem runs_eq_filterMap (e : Element) : e.runs = (e.children.map Node.face).filterMap Face.run? := by
  rw [runs, List.map_filterMap, List.filterMap_map]
  congr 1
  funext node
  cases node with
  | leaf l =>
      cases l with
      | charData run =>
          obtain ⟨image, blank, span⟩ := run
          cases blank <;> rfl
      | _ => rfl
  | element tag children => rfl

/-- Elements with the same children have the same runs. -/
theorem runs_eq_of_faces {e e' : Element} (h : e'.children.map Node.face = e.children.map Node.face) :
    e'.runs = e.runs := by
  rw [runs_eq_filterMap, runs_eq_filterMap, h]

/-- Whitespace counts in an element that is told to preserve it. -/
theorem spaceCounts_of_preserve {style : Style} {e : Element} (h : preserveValue ∈ e.tag.spaces) :
    e.SpaceCounts style := by
  obtain ⟨a, ha, hinner⟩ := List.mem_map.1 h
  obtain ⟨hmem, hname⟩ := List.mem_filter.1 ha
  have hany : (e.tag.attributes.any fun a =>
      a.name = "xml:space".toList && a.inner ≠ "default".toList) = true := by
    refine List.any_eq_true.2 ⟨a, hmem, ?_⟩
    rw [hinner, Bool.and_eq_true]
    exact ⟨hname, by decide⟩
  refine .inl ?_
  rw [isReflowable, hany, Bool.not_true, Bool.and_false, Bool.false_and]

end Element

/-! ### Formatting -/

namespace Formatter

/-- Where `xml:space` preserves whitespace, an element that carries the attribute, that stands in an ignore range, or in
which whitespace counts for another reason, has the same runs as the element in its place in the result. -/
theorem read_format_scoped {profile : Profile} (hvalid : profile.Valid) {correlationId : Option String}
    {f : Formatter} (hmake : make profile correlationId [] = .ok f) {t : Text} {d : Document}
    (hread : read t = .ok d) :
    ∃ r, f.format t = .ok r ∧
      ((∀ p ∈ d.prolog, p.attributes ≠ []) → ∃ d', read r.formatted = .ok d') ∧
      ∀ d', read r.formatted = .ok d' →
        List.Forall₂ (fun (x : Element × List Text) (e' : Element) => preserveValue ∈ x.2 →
          x.1.tag.spaces ≠ [] ∨ d.KeepsSpace profile.style x.1 → e'.runs = x.1.runs) d.spaceScopes d'.elements := by
  obtain ⟨r, page, hformat, -, hreadable, hspaced⟩ := exists_spacedAll hvalid hmake hread
  refine ⟨r, hformat, hreadable, fun d' hread' => ?_⟩
  have hkeeps := hspaced d' hread'
  rw [← Document.map_fst_spaceScopes, List.forall₂_map_left_iff] at hkeeps
  have hscoped := (List.forall₂_and_left _ _).2 ⟨fun x hx => hx, hkeeps⟩
  refine hscoped.imp fun x e' hx hpreserve hcounts => Element.runs_eq_of_faces (hx.2.faces ?_)
  rcases hcounts with hown | hkept
  · rw [Document.scope_of_mem hx.1 hown] at hpreserve
    exact .inr (Element.spaceCounts_of_preserve hpreserve)
  · exact hkept

/-- The root of a text that carries the attribute keeps its runs. -/
theorem read_format_scoped_spaced :
    ∃ d r d', read spacedText = .ok d ∧
      (∃ x ∈ d.spaceScopes, preserveValue ∈ x.2 ∧ x.1.tag.spaces ≠ []) ∧
      format { profile := .canonical } spacedText = .ok r ∧ read r.formatted = .ok d' ∧
      List.Forall₂ (fun (x : Element × List Text) (e' : Element) => preserveValue ∈ x.2 →
        x.1.tag.spaces ≠ [] ∨ d.KeepsSpace Profile.canonical.style x.1 → e'.runs = x.1.runs)
        d.spaceScopes d'.elements := by
  obtain ⟨d, hread, htest⟩ := @exists_ok_of_any _ _ (read spacedText)
    (fun d : Document => d.prolog.isNone && d.root.any fun e : Element => decide (preserveValue ∈ e.tag.spaces))
    (by decide +kernel)
  rw [Bool.and_eq_true, Option.isNone_iff_eq_none, Option.any_eq_true] at htest
  obtain ⟨hnone, e, he, hpreserve⟩ := htest
  have hspaces : e.tag.spaces ≠ [] := List.ne_nil_of_mem (of_decide_eq_true hpreserve)
  have hmem : (e, e.tag.spaces) ∈ d.spaceScopes := by
    have hscope : e.tag.scope [] = e.tag.spaces := by rw [Tag.scope, if_neg (by simpa using hspaces)]
    simp [Document.spaceScopes, he, Element.toNode, Node.spaceScopes, hscope]
  obtain ⟨r, hformat, hreadable, hkeeps⟩ :=
    @read_format_scoped .canonical (Profile.valid_of_layout rfl) none _ rfl _ _ hread
  obtain ⟨d', hread'⟩ := hreadable (by simp [hnone])
  exact ⟨d, r, d', hread, ⟨_, hmem, of_decide_eq_true hpreserve, hspaces⟩, hformat, hread', hkeeps d' hread'⟩

section Inherited

open Spelled

/-- Whitespace is ignored unless something makes it count. -/
def ignoring : Profile where
  printer := Values.set Setting.default .whitespaceSensitivity (.str "ignore")

/-- An element that preserves whitespace, and an element without the attribute in it. -/
def preservingRoot (children : List Item) : Item :=
  .full ⟨['a'], [⟨[' '], spaceName, [], [], '"' :: preserveValue ++ ['"']⟩], []⟩ [.full ⟨['b'], [], []⟩ children []] []

theorem wellFormed_preservingRoot {children : List Item} (h : Item.WellFormedAll children) :
    (preservingRoot children).WellFormed := by
  have hname : ∀ c, Name.isStart c = true → Name.IsName [c] := fun c hc => ⟨c, [], rfl, hc, by simp⟩
  have hspace : Name.IsName spaceName := ⟨'x', "ml:space".toList, by decide, rfl, List.all_eq_true.1 (by decide)⟩
  have hvalue : Literal.IsLiteral (· != '<') ('"' :: preserveValue ++ ['"']) := by
    have hinner : preserveValue.all (fun d => d != '"' && d != '<') = true := by decide
    refine ⟨'"', preserveValue, rfl, rfl, ?_⟩
    intro d hd
    have := List.all_eq_true.1 hinner d hd
    rwa [Bool.and_eq_true, bne_iff_ne] at this
  have hattr : Attr.WellFormed ⟨[' '], spaceName, [], [], '"' :: preserveValue ++ ['"']⟩ :=
    ⟨List.all_eq_true.1 rfl, by simp, hspace, blanks_nil, blanks_nil, hvalue⟩
  simp only [preservingRoot, Item.WellFormed, Item.WellFormedAll, List.head?_nil, Option.mem_def, reduceCtorEq,
    false_implies, implies_true, and_true]
  exact ⟨⟨hname _ rfl, List.forall_mem_singleton.2 hattr, blanks_nil⟩,
    ⟨⟨hname _ rfl, List.forall_mem_nil _, blanks_nil⟩, h, blanks_nil⟩, blanks_nil⟩

/-- The attribute of the root is in force in the element inside of it. -/
theorem exists_spaceScopes (children : List Item) (tail : Text) :
    ∃ first src n tag rest, (Whole.ofRoot (preservingRoot children) tail).locate.spaceScopes =
      first :: (⟨tag, Item.locateAll src n children⟩, [preserveValue]) :: rest := by
  have hroot : (Whole.ofRoot (preservingRoot children) tail).locate.spaceScopes =
      ((preservingRoot children).locate (Source.ofText (Whole.ofRoot (preservingRoot children) tail).text)
        0).spaceScopes [] := by
    rw [preservingRoot, Item.locate]
    rfl
  rw [hroot]
  generalize Source.ofText (Whole.ofRoot (preservingRoot children) tail).text = src
  simp only [preservingRoot, Item.locate, Item.locateAll, Node.spaceScopes, Node.spaceScopesIn, sortedBy,
    List.mergeSort_singleton, List.map_cons, List.map_nil, List.flatten_cons, List.flatten_nil, List.append_nil]
  exact ⟨_, src, _, _, _, rfl⟩

def wideChildren : List Item := [.leaf .blank [' '], .leaf .text ['x', ' ']]

def tightChildren : List Item := [.leaf .text ['x']]

theorem wellFormedAll_children : Item.WellFormedAll wideChildren ∧ Item.WellFormedAll tightChildren := by
  simp only [wideChildren, tightChildren, Item.WellFormedAll, Item.WellFormed, LeafClass.Image, Item.Apart,
    List.head?_cons, List.head?_nil, Option.mem_def, Option.some.injEq, reduceCtorEq, forall_eq', implies_true,
    and_true, true_and, false_implies]
  exact ⟨⟨⟨by simp, List.all_eq_true.1 rfl⟩, by simp, stops_cons.2 rfl, List.all_eq_true.1 rfl⟩, by simp,
    stops_cons.2 rfl, List.all_eq_true.1 rfl⟩

def defaultPage : Page where
  width := 80
  tabWidth := 2
  useTabs := false
  lineEnd := .lf
  width_pos := by decide
  tabWidth_pos := by decide

/-- An element that only stands inside of one that preserves whitespace loses the blanks around its text. -/
theorem read_format_inherited :
    ∃ f d r d', ignoring.Valid ∧ make ignoring none [] = .ok f ∧
      read "<a xml:space=\"preserve\"><b> x </b></a>".toList = .ok d ∧
      f.format "<a xml:space=\"preserve\"><b> x </b></a>".toList = .ok r ∧
      r.formatted = "<a xml:space=\"preserve\"><b>x</b></a>\n".toList ∧ read r.formatted = .ok d' ∧
      ¬List.Forall₂ (fun (x : Element × List Text) (e' : Element) => preserveValue ∈ x.2 → e'.runs = x.1.runs)
        d.spaceScopes d'.elements := by
  have hv := @Whole.wellFormed_ofRoot (preservingRoot wideChildren) trivial
    (wellFormed_preservingRoot wellFormedAll_children.1) [] blanks_nil
  have hw := @Whole.wellFormed_ofRoot (preservingRoot tightChildren) trivial
    (wellFormed_preservingRoot wellFormedAll_children.2) ['\n'] (List.all_eq_true.1 rfl)
  let f : Formatter := { profile := ignoring }
  have hsource : Text.normalize "<a xml:space=\"preserve\"><b> x </b></a>".toList =
      (Whole.ofRoot (preservingRoot wideChildren) []).text := by decide +kernel
  have hprinted : (((Whole.ofRoot (preservingRoot wideChildren) []).doc ignoring.style).run defaultPage 0 .broken
      .clear .empty).text = "<a xml:space=\"preserve\"><b>x</b></a>\n".toList := by decide +kernel
  have hsource' : Text.normalize "<a xml:space=\"preserve\"><b>x</b></a>\n".toList =
      (Whole.ofRoot (preservingRoot tightChildren) ['\n']).text := by decide +kernel
  obtain ⟨r, hformat, hformatted⟩ := @format_eq f defaultPage .lf rfl rfl rfl rfl _ _ hv hsource
  have houtput : r.formatted = "<a xml:space=\"preserve\"><b>x</b></a>\n".toList := by
    rw [hformatted, hprinted]
    decide
  refine ⟨f, (Whole.ofRoot (preservingRoot wideChildren) []).locate, r,
    (Whole.ofRoot (preservingRoot tightChildren) ['\n']).locate, Profile.valid_of_layout rfl, rfl, ?_, hformat,
    houtput, ?_, ?_⟩
  · rw [read, hsource, read_text hv]
  · rw [houtput, read, hsource', read_text hw]
  · intro hruns
    obtain ⟨first, src, n, tag, rest, hscopes⟩ := exists_spaceScopes wideChildren []
    obtain ⟨first', src', n', tag', rest', hscopes'⟩ := exists_spaceScopes tightChildren ['\n']
    rw [← Document.map_fst_spaceScopes, hscopes, hscopes'] at hruns
    cases hruns with
    | cons _ hruns =>
        cases hruns with
        | cons hsecond _ =>
            have hequal : [(false, ['x'])] = [(true, [' ']), (false, ['x', ' '])] := hsecond (by simp)
            exact absurd hequal (by decide)

end Inherited

end Formatter

end XmlTidy
