import XmlTidy.Proofs.LocatedLayout

/-!
Reading inverts spelling. The outline of a document is what it says, without the places of its nodes; the outline
of a spelling is what it says, without the blanks that markup leaves to choice. The text of every well-formed
spelling can be read, whatever the blanks, and the document that is read has the outline of the spelling.
-/

namespace XmlTidy

/-! ### Outlines -/

/-- A node without its places. -/
inductive Outline where
  | leaf (cls : Spelled.LeafClass) (image : Text)
  | element (name : Text) (attributes : List (Text × Text)) (selfClosing : Bool) (endName : Option Text)
      (content : Option (List Outline))

/-- A node at the top level without its places. -/
inductive TopOutline where
  | prolog (attributes : List (Text × Text))
  | doctype (name : Text) (externalId : Option (Text × Option Text × Option Text)) (internalSubset : Option Text)
  | misc (kind : MiscKind) (image : Text)
  | root (node : Outline)

mutual
def Node.outline : Node → Outline
  | .leaf l => .leaf (.of l) l.image
  | .element tag children =>
      .element tag.name (tag.attributes.map Attribute.pair) tag.selfClosing tag.endName
        (tag.contentSpan.map fun _ => Node.outlineAll children)

def Node.outlineAll : List Node → List Outline
  | [] => []
  | node :: rest => node.outline :: Node.outlineAll rest
end

def ExternalId.outline (e : ExternalId) : Text × Option Text × Option Text :=
  (e.keyword, e.publicLiteral, e.systemLiteral)

def TopNode.outline : TopNode → TopOutline
  | .prolog p => .prolog (p.attributes.map Attribute.pair)
  | .doctype d => .doctype d.name (d.externalId.map ExternalId.outline) d.internalSubset
  | .misc m => .misc m.kind m.image
  | .root node => .root node.outline

/-- The nodes of a document in the order of the text, without their places. -/
def Document.outline (d : Document) : List TopOutline := d.topNodes.map TopNode.outline

namespace Spelled

mutual
def Item.outline : Item → Outline
  | .leaf cls image => .leaf cls image
  | .empty tag => .element tag.name tag.pairs true none none
  | .full tag children _ => .element tag.name tag.pairs false (some tag.name) (some (Item.outlineAll children))

def Item.outlineAll : List Item → List Outline
  | [] => []
  | item :: rest => item.outline :: Item.outlineAll rest
end

def External.outline (e : External) : Text × Option Text × Option Text :=
  (e.keyword.image, e.publicLiteral, e.systemLiteral)

def Top.outline : Top → TopOutline
  | .misc kind image => .misc kind image
  | .doctype decl => .doctype decl.name (decl.external.map fun e => e.2.outline) decl.subset
  | .root item => .root item.outline

/-- What a spelling says. -/
def Whole.outline (w : Whole) : List TopOutline :=
  (w.declaration.map fun d => .prolog (d.attributes.map Attr.pair)).toList ++ w.tops.map fun top => top.2.outline

/-! ### What is read -/

theorem outline_locate (src : Source) (n : Nat) (item : Item) : (item.locate src n).outline = item.outline := by
  induction item using Item.induct generalizing n with
  | leaf cls image => cases cls <;> rfl
  | empty tag =>
      rw [Item.locate, Node.outline, Item.outline, Open.pairs, ← map_pair_locateAll]
      rfl
  | full tag children endTail ih =>
      have hchildren : ∀ m, Node.outlineAll (Item.locateAll src m children) = Item.outlineAll children := by
        clear n
        induction children with
        | nil => exact fun _ => rfl
        | cons child rest ihrest =>
            intro m
            rw [Item.locateAll, Node.outlineAll, Item.outlineAll, ih child (by simp),
              ihrest fun next hnext => ih next (by simp [hnext])]
      rw [Item.locate, Node.outline, Item.outline, Open.pairs, hchildren, ← map_pair_locateAll]
      rfl

theorem outline_node (src : Source) (n : Nat) (top : Top) : (top.node src n).outline = top.outline := by
  cases top with
  | misc kind image => rfl
  | doctype decl =>
      simp only [Top.node, TopNode.outline, TypeDecl.locate, Top.outline, Option.map_map]
      rfl
  | root item => exact congrArg TopOutline.root (outline_locate src n item)

theorem map_outline_topNodesAt (src : Source) (n : Nat) (tops : List (Text × Top)) :
    (topNodesAt src n tops).map TopNode.outline = tops.map fun top => top.2.outline := by
  induction tops generalizing n with
  | nil => rfl
  | cons first rest ih => rw [topNodesAt, List.map_cons, List.map_cons, outline_node, ih]

/-- The document that a well-formed spelling stands for says what the spelling says. -/
theorem document_outline_locate {w : Whole} (hw : w.WellFormed) : w.locate.outline = w.outline := by
  rw [Document.outline, topNodes_locate hw, Whole.nodes, List.map_append, map_outline_topNodesAt, Whole.outline]
  congr 1
  cases w.declaration with
  | none => rfl
  | some d => exact congrArg (fun attributes => [TopOutline.prolog attributes]) (map_pair_locateAll ..)

end Spelled

/-- Every well-formed spelling can be read, whatever its blanks, and what is read says what the spelling says. -/
theorem Document.read_spelling {w : Spelled.Whole} (h : w.WellFormed) :
    ∃ d, read w.text = .ok d ∧ d.outline = w.outline :=
  ⟨w.locate, read_text h, Spelled.document_outline_locate h⟩

/-- A declaration, a document type whose subset holds a bracket in a literal, and a root with text, a reference, an
element without content and a comment, with blanks wherever they may stand. -/
def Spelled.Whole.sample : Spelled.Whole where
  declaration := some ⟨[⟨[' '], ['v'], [], ['\n'], ['\'', '1', '\'']⟩], [' ']⟩
  tops :=
    [(['\n'], .doctype ⟨[' '], ['a'], some ([' '], .systemId ['\t'] ['"', '"']), [' '],
        some ['[', ' ', '\'', ']', '\'', ']'], []⟩),
      ([], .root (.full ⟨['a'], [⟨['\n'], ['k'], [' '], [], ['"', '\'', '"']⟩], [' ']⟩
        [.leaf .blank [' '], .leaf .text ['x', ' '], .leaf (.reference .character) ['&', '#', '9', ';'],
          .empty ⟨['b'], [], []⟩, .leaf .comment ['<', '!', '-', '-', 'c', '-', '-', '>']] [' ']))]
  tail := ['\n']

theorem Spelled.Whole.wellFormed_sample : sample.WellFormed := by
  have hname : ∀ c, Name.isStart c = true → Name.IsName [c] := fun c hc => ⟨c, [], rfl, hc, by simp⟩
  have hblank : ∀ c, isBlank c = true → Blanks [c] := fun c hc d hd => by rwa [List.mem_singleton.1 hd]
  have hends : ∀ stop image : Text, stop ≠ [] → Text.through? stop image = some (image, []) →
      Text.EndsAt stop image := fun _ _ hstop h => Text.endsAt_of_through? hstop h
  have hsubset : SubsetBody [' ', '\'', ']', '\'', ']'] :=
    .other (by decide) (by decide) (by decide)
      (@SubsetBody.literal '\'' [']', '\''] [']'] (by decide) (hends _ _ (by simp) (by decide)) .close)
  have hdoctype : TypeDecl.WellFormed ⟨[' '], ['a'], some ([' '], .systemId ['\t'] ['"', '"']), [' '],
      some ['[', ' ', '\'', ']', '\'', ']'], []⟩ := by
    refine ⟨hblank _ rfl, by simp, hname _ rfl, ?_, hblank _ rfl, ?_, blanks_nil⟩
    · rintro _ ⟨⟩
      exact ⟨hblank _ rfl, by simp, hblank _ rfl, by simp, '"', [], rfl, rfl, by simp⟩
    · rintro _ ⟨⟩
      exact ⟨_, rfl, hsubset⟩
  have htag : Open.WellFormed ⟨['a'], [⟨['\n'], ['k'], [' '], [], ['"', '\'', '"']⟩], [' ']⟩ := by
    refine ⟨hname _ rfl, ?_, hblank _ rfl⟩
    simp only [List.mem_singleton, forall_eq]
    exact ⟨hblank _ rfl, by simp, hname _ rfl, hblank _ rfl, blanks_nil, '"', ['\''], rfl, rfl, by simp⟩
  have hchildren : Item.WellFormedAll [.leaf .blank [' '], .leaf .text ['x', ' '],
      .leaf (.reference .character) ['&', '#', '9', ';'], .empty ⟨['b'], [], []⟩,
      .leaf .comment ['<', '!', '-', '-', 'c', '-', '-', '>']] := by
    simp only [Item.WellFormedAll, Item.WellFormed, LeafClass.Image, Item.Apart, List.head?_cons, List.head?_nil,
      Option.mem_def, Option.some.injEq, reduceCtorEq, forall_eq', implies_true, and_true, true_and]
    exact ⟨⟨by simp, hblank _ rfl⟩, ⟨by simp, stops_cons.2 rfl, List.all_eq_true.1 rfl⟩,
      @Reference.IsReference.decimal ['9'] (by simp) (List.all_eq_true.1 rfl), ⟨hname _ rfl, by simp, blanks_nil⟩,
      by decide, hends _ _ (by simp) (by decide)⟩
  refine ⟨?_, ?_, ?_, hblank _ rfl⟩
  · rintro _ ⟨⟩
    refine ⟨?_, hblank _ rfl, by simp⟩
    simp only [List.mem_singleton, forall_eq]
    exact ⟨hblank _ rfl, by simp, hname _ rfl, blanks_nil, hblank _ rfl, '\'', ['1'], rfl, rfl, by simp⟩
  · simp only [sample, List.mem_cons, List.not_mem_nil, or_false, forall_eq_or_imp, forall_eq]
    refine ⟨⟨hblank _ rfl, hdoctype⟩, blanks_nil, trivial, ?_⟩
    rw [Item.WellFormed]
    exact ⟨htag, hchildren, hblank _ rfl⟩
  · simp [sample, Top.Before]

/-- The sample can be read, and what is read says what it says. -/
theorem Document.read_spelling_sample : ∃ d, read Spelled.Whole.sample.text = .ok d ∧
    d.outline = Spelled.Whole.sample.outline :=
  read_spelling Spelled.Whole.wellFormed_sample

end XmlTidy
