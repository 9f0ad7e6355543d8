import XmlTidy.Proofs.Chunks

/-!
What printing a document does, said without a stack. `Doc.reach` tells whether what a document prints up
to its first line break stays within a width, and `Doc.run` prints a document; both take what follows
the document as a function that answers the same question for it. On documents in which every hard
line forces the groups around it to break, printing with a stack is the same as `Doc.run`: such a
hard line is never printed in flat mode, so no group is ever measured again.
-/

namespace XmlTidy

/-- Whether what follows a document, up to its first line break, stays within a width. -/
abbrev Ahead := Int → Bool

/-- Nothing follows, or a line break does. -/
def Ahead.clear : Ahead := fun width => 0 ≤ width

namespace Doc

/-! ### Forced breaks -/

/-- Whether a document forces the groups around it to break. -/
def forces (doc : Doc) : Bool := (propagate doc).2

theorem propagateAll_eq (docs : List Doc) :
    propagateAll docs = (docs.map settled, docs.any forces) := by
  induction docs with
  | nil => rfl
  | cons doc docs ih =>
      rw [propagateAll, ih]
      rfl

@[simp] theorem forces_text (t : Text) : (text t).forces = false := rfl
@[simp] theorem forces_line (l : Line) : (line l).forces = false := rfl
@[simp] theorem forces_breakParent : breakParent.forces = true := rfl
@[simp] theorem forces_indent (doc : Doc) : (indent doc).forces = doc.forces := rfl

@[simp] theorem forces_group (doc : Doc) (forced : Bool) :
    (group doc forced).forces = (doc.forces || forced) := rfl

@[simp] theorem forces_ifBreak (broken flat : Doc) :
    (ifBreak broken flat).forces = (broken.forces || flat.forces) := rfl

@[simp] theorem forces_concat (parts : List Doc) : (concat parts).forces = parts.any forces := by
  show (propagateAll parts).2 = _
  rw [propagateAll_eq]

@[simp] theorem forces_fill (parts : List Doc) : (fill parts).forces = parts.any forces := by
  show (propagateAll parts).2 = _
  rw [propagateAll_eq]

theorem settled_text (t : Text) : (text t).settled = text t := rfl
theorem settled_line (l : Line) : (line l).settled = line l := rfl
theorem settled_indent (doc : Doc) : (indent doc).settled = indent doc.settled := rfl

theorem settled_group (doc : Doc) (forced : Bool) :
    (group doc forced).settled = group doc.settled (doc.forces || forced) := rfl

theorem settled_ifBreak (broken flat : Doc) :
    (ifBreak broken flat).settled = ifBreak broken.settled flat.settled := rfl

theorem settled_concat (parts : List Doc) :
    (concat parts).settled = concat (parts.map settled) := by
  show concat (propagateAll parts).1 = _
  rw [propagateAll_eq]

theorem settled_fill (parts : List Doc) : (fill parts).settled = fill (parts.map settled) := by
  show fill (propagateAll parts).1 = _
  rw [propagateAll_eq]

theorem isVoid_settled (doc : Doc) : doc.settled.isVoid = doc.isVoid := by
  cases doc with
  | concat parts => simp [settled_concat, isVoid]
  | fill parts => simp [settled_fill, isVoid]
  | _ => rfl

/-! ### Measuring -/

mutual
/-- Whether a document and what follows it, up to the first line break, stay within a width. With `must`,
a group that has to break does not. -/
def reach (must : Bool) (mode : Mode) : Doc → Ahead → Ahead
  | .text t, k => fun width => k (width - t.width)
  | .concat parts, k | .fill parts, k => reachAll must mode parts k
  | .indent contents, k => reach must mode contents k
  | .group contents forced, k =>
      if contents.forces || forced then
        if must then fun _ => false else reach must .broken contents k
      else reach must mode contents k
  | .ifBreak broken flat, k =>
      match mode with
      | .broken => if broken.isVoid then k else reach must mode broken k
      | .flat => if flat.isVoid then k else reach must mode flat k
  | .line l, k =>
      if mode = .broken || l.hard then .clear
      else fun width => k (if l.soft then width else width - 1)
  | .breakParent, k => k
  | .stray _, k => k

def reachAll (must : Bool) (mode : Mode) : List Doc → Ahead → Ahead
  | [], k => k
  | doc :: docs, k => reach must mode doc (reachAll must mode docs k)
end

mutual
theorem reach_of_neg {must : Bool} {mode : Mode} {doc : Doc} {k : Ahead}
    (hk : ∀ w < 0, k w = false) : ∀ w < 0, reach must mode doc k w = false := by
  cases doc with
  | text t =>
      intro w hw
      rw [reach]
      exact hk _ (by omega)
  | concat parts => rw [reach]; exact reachAll_of_neg hk
  | fill parts => rw [reach]; exact reachAll_of_neg hk
  | indent contents => rw [reach]; exact reach_of_neg hk
  | group contents forced =>
      rw [reach]
      split
      · split
        · exact fun _ _ => rfl
        · exact reach_of_neg hk
      · exact reach_of_neg hk
  | ifBreak broken flat =>
      cases mode with
      | broken =>
          rw [reach]
          split
          · exact hk
          · exact reach_of_neg hk
      | flat =>
          rw [reach]
          split
          · exact hk
          · exact reach_of_neg hk
  | line l =>
      intro w hw
      rw [reach]
      split
      · simp only [Ahead.clear, decide_eq_false_iff_not]
        omega
      · refine hk _ ?_
        split <;> omega
  | breakParent => rw [reach]; exact hk
  | stray value => rw [reach]; exact hk

theorem reachAll_of_neg {must : Bool} {mode : Mode} {docs : List Doc} {k : Ahead}
    (hk : ∀ w < 0, k w = false) : ∀ w < 0, reachAll must mode docs k w = false := by
  cases docs with
  | nil => rw [reachAll]; exact hk
  | cons doc docs => rw [reachAll]; exact reach_of_neg (reachAll_of_neg hk)
end

/-! ### Printing -/

/-- The mode in which the contents of a group are printed. -/
def groupMode (page : Page) (mode : Mode) (contents : Doc) (forced : Bool) (k : Ahead)
    (p : Printed Text Int) : Mode :=
  if contents.forces || forced then .broken
  else if mode = .flat then .flat
  else if reach false .flat contents k (page.width - p.column) then .flat
  else .broken

/-- The mode of a part of a fill that was measured. -/
def fillMode (measured : Bool) : Mode := if measured then .flat else .broken

mutual
/-- What is printed after a document, given what was printed before it and what follows it. -/
def run (page : Page) (depth : Nat) (mode : Mode) : Doc → Ahead → Printed Text Int → Printed Text Int
  | .text t, _, p => p.write t
  | .concat parts, k, p => runAll page depth mode parts k p
  | .fill parts, k, p => runFill page depth mode parts k p
  | .indent contents, k, p => run page (depth + 1) mode contents k p
  | .group contents forced, k, p =>
      run page depth (groupMode page mode contents forced k p) contents k p
  | .ifBreak broken flat, k, p =>
      match mode with
      | .broken => if broken.isVoid then p else run page depth mode broken k p
      | .flat => if flat.isVoid then p else run page depth mode flat k p
  | .line l, _, p =>
      if mode = .flat && !l.hard then p.writeFlatLine l
      else p.breakLine page.ruler depth .broken l
  | .breakParent, _, p => p
  | .stray _, _, p => p

def runAll (page : Page) (depth : Nat) (mode : Mode) : List Doc → Ahead → Printed Text Int → Printed Text Int
  | [], _, p => p
  | doc :: docs, k, p =>
      runAll page depth mode docs k (run page depth mode doc (reachAll false mode docs k) p)

def runFill (page : Page) (depth : Nat) (mode : Mode) : List Doc → Ahead → Printed Text Int → Printed Text Int
  | [], _, p => p
  | [content], k, p =>
      run page depth (fillMode (reach true .flat content .clear (page.width - p.column))) content k p
  | [content, separator], k, p =>
      let inner := fillMode (reach true .flat content .clear (page.width - p.column))
      run page depth inner separator k
        (run page depth inner content (reach false inner separator k) p)
  | content :: separator :: next :: rest, k, p =>
      let left := page.width - p.column
      let alone := reach true .flat content .clear left
      let paired := reachAll true .flat [content, separator, next] .clear left
      runFill page depth mode (next :: rest) k
        (run page depth (fillMode paired) separator (reachAll false mode (next :: rest) k)
          (run page depth (fillMode (paired || alone)) content
            (reach false (fillMode paired) separator (reachAll false mode (next :: rest) k)) p))
end

mutual
theorem remeasure_run (page : Page) (depth : Nat) (mode : Mode) (doc : Doc) (k : Ahead)
    (p : Printed Text Int) : (doc.run page depth mode k p).remeasure = p.remeasure := by
  cases doc with
  | text t => rw [run]; rfl
  | concat parts => rw [run]; exact remeasure_runAll ..
  | fill parts => rw [run]; exact remeasure_runFill ..
  | indent contents => rw [run]; exact remeasure_run ..
  | group contents forced => rw [run]; exact remeasure_run ..
  | ifBreak broken flat =>
      cases mode with
      | broken =>
          rw [run]
          split
          · rfl
          · exact remeasure_run ..
      | flat =>
          rw [run]
          split
          · rfl
          · exact remeasure_run ..
  | line l =>
      rw [run]
      split
      · rw [Printed.writeFlatLine]
        split <;> rfl
      · simp only [Printed.breakLine]
        split <;> simp
  | breakParent => rw [run]
  | stray value => rw [run]

theorem remeasure_runAll (page : Page) (depth : Nat) (mode : Mode) (docs : List Doc) (k : Ahead)
    (p : Printed Text Int) : (runAll page depth mode docs k p).remeasure = p.remeasure := by
  cases docs with
  | nil => rw [runAll]
  | cons doc docs =>
      rw [runAll, remeasure_runAll]
      exact remeasure_run ..

theorem remeasure_runFill (page : Page) (depth : Nat) (mode : Mode) (docs : List Doc) (k : Ahead)
    (p : Printed Text Int) : (runFill page depth mode docs k p).remeasure = p.remeasure := by
  match docs with
  | [] => rw [runFill]
  | [content] => rw [runFill]; exact remeasure_run ..
  | [content, separator] =>
      rw [runFill]
      simp only [remeasure_run]
  | content :: separator :: next :: rest =>
      rw [runFill]
      simp only [remeasure_runFill, remeasure_run]
end

/-! ### Hard lines force a break -/

/-- What may be a content of a fill: if it is measured with `must` and fits, nothing in it breaks. -/
inductive FillContent : Doc → Prop where
  | text (t : Text) : FillContent (.text t)
  | group (contents : Doc) (forced : Bool) : FillContent (.group contents forced)

/-- Contents with a line between each two. -/
inductive FillParts : List Doc → Prop where
  | nil : FillParts []
  | last {content : Doc} (h : FillContent content) : FillParts [content]
  | cons {content : Doc} {rest : List Doc} (h : FillContent content) (l : Line)
      (hrest : FillParts rest) : FillParts (content :: .line l :: rest)

/-- Documents of allowed texts, without stray values, in which every hard line forces the groups around
it to break. -/
inductive Paired (allowed : Text → Prop) : Doc → Prop where
  | text {t : Text} (ht : allowed t) : Paired allowed (.text t)
  | line {l : Line} (hl : l.hard = false) : Paired allowed (.line l)
  | hardLine : Paired allowed hardLine
  | literalLine : Paired allowed literalLine
  | concat {parts : List Doc} (h : ∀ doc ∈ parts, Paired allowed doc) : Paired allowed (.concat parts)
  | fill {parts : List Doc} (h : ∀ doc ∈ parts, Paired allowed doc) (hparts : FillParts parts) :
      Paired allowed (.fill parts)
  | indent {contents : Doc} (h : Paired allowed contents) : Paired allowed (.indent contents)
  | group {contents : Doc} (h : Paired allowed contents) (forced : Bool) :
      Paired allowed (.group contents forced)
  | ifBreak {broken flat : Doc} (hbroken : Paired allowed broken) (hflat : Paired allowed flat) :
      Paired allowed (.ifBreak broken flat)

variable {allowed : Text → Prop}

/-! ### Measuring with a stack -/

theorem fits_of_neg {must : Bool} {width : Int} (h : width < 0) (stack : List Command) :
    fits must width stack = .ok false := by
  rw [fits.eq_def, if_neg (by omega)]

/-- What a stack measures is told by a function. -/
def Tells (must : Bool) (stack : List Command) (k : Ahead) : Prop :=
  ∀ width, fits must width stack = .ok (k width)

theorem tells_nil (must : Bool) : Tells must [] .clear := by
  intro width
  rw [fits.eq_def]
  split <;> simp_all [Ahead.clear]

theorem Tells.of_neg {must : Bool} {stack : List Command} {k : Ahead} (h : Tells must stack k) :
    ∀ w < 0, k w = false := by
  intro w hw
  have := h w
  rw [fits_of_neg hw] at this
  simpa using this.symm

/-- To tell what a stack measures it is enough to do so for widths that are not negative. -/
theorem tells_of_nonneg {must : Bool} {stack : List Command} {k : Ahead}
    (hneg : ∀ w < 0, k w = false) (h : ∀ w, 0 ≤ w → fits must w stack = .ok (k w)) :
    Tells must stack k := by
  intro w
  by_cases hw : 0 ≤ w
  · exact h w hw
  · rw [fits_of_neg (by omega), hneg w (by omega)]

/-- A document in front of a stack is measured as `reach` says. -/
def Measured (doc : Doc) : Prop :=
  ∀ {must : Bool} {rest : List Command} {k : Ahead} (depth : Nat) (mode : Mode), Tells must rest k →
    Tells must (⟨depth, mode, doc.settled⟩ :: rest) (doc.reach must mode k)

theorem tells_push {parts : List Doc} (h : ∀ doc ∈ parts, Measured doc) {must : Bool}
    {rest : List Command} {k : Ahead} (depth : Nat) (mode : Mode) (hk : Tells must rest k) :
    Tells must (Command.push depth mode (parts.map settled) rest) (reachAll must mode parts k) := by
  induction parts with
  | nil => rw [reachAll]; exact hk
  | cons doc docs ih =>
      rw [reachAll]
      exact h doc (by simp) depth mode (ih fun d hd => h d (by simp [hd]))

/-- A hard line with the mark that comes with it ends what is measured. -/
theorem measured_break {l : Line} (hl : l.hard = true) : Measured (.concat [.line l, .breakParent]) := by
  intro must rest k depth mode hk
  refine tells_of_nonneg (reach_of_neg hk.of_neg) fun w hw => ?_
  rw [fits.eq_def, if_pos hw]
  simp only [settled_concat, List.map_cons, settled_line, Command.push, List.map_nil, List.cons_append,
    List.nil_append]
  rw [fits.eq_def, if_pos hw]
  simp [reach, reachAll, Ahead.clear, hl, hw]

theorem Paired.measured {doc : Doc} (h : Paired allowed doc) : Measured doc := by
  induction h with
  | text ht =>
      intro must rest k depth mode hk
      refine tells_of_nonneg (reach_of_neg hk.of_neg) fun w hw => ?_
      rw [settled_text, fits.eq_def, if_pos hw, reach]
      exact hk _
  | line hl =>
      rename_i l
      intro must rest k depth mode hk
      refine tells_of_nonneg (reach_of_neg hk.of_neg) fun w hw => ?_
      rw [settled_line, fits.eq_def, if_pos hw, reach]
      simp only [hl, Bool.or_false, decide_eq_true_eq]
      split
      · simp [Ahead.clear, hw]
      · exact hk _
  | hardLine => exact measured_break rfl
  | literalLine => exact measured_break rfl
  | concat _ ih =>
      intro must rest k depth mode hk
      refine tells_of_nonneg (reach_of_neg hk.of_neg) fun w hw => ?_
      rw [settled_concat, fits.eq_def, if_pos hw, reach]
      exact tells_push ih depth mode hk w
  | fill _ _ ih =>
      intro must rest k depth mode hk
      refine tells_of_nonneg (reach_of_neg hk.of_neg) fun w hw => ?_
      rw [settled_fill, fits.eq_def, if_pos hw, reach]
      exact tells_push ih depth mode hk w
  | indent _ ih =>
      intro must rest k depth mode hk
      refine tells_of_nonneg (reach_of_neg hk.of_neg) fun w hw => ?_
      rw [settled_indent, fits.eq_def, if_pos hw, reach]
      exact ih depth mode hk w
  | @group contents _ forced ih =>
      intro must rest k depth mode hk
      refine tells_of_nonneg (reach_of_neg hk.of_neg) fun w hw => ?_
      rw [settled_group, fits.eq_def, if_pos hw, reach]
      cases hforced : contents.forces || forced with
      | false => simpa using ih depth mode hk w
      | true =>
          cases must with
          | false => simpa using ih depth .broken hk w
          | true => simp
  | @ifBreak broken flat _ _ ihbroken ihflat =>
      intro must rest k depth mode hk
      refine tells_of_nonneg (reach_of_neg hk.of_neg) fun w hw => ?_
      rw [settled_ifBreak, fits.eq_def, if_pos hw]
      cases mode with
      | broken =>
          simp only [Mode.choose, isVoid_settled, reach]
          split
          · exact hk w
          · exact ihbroken depth .broken hk w
      | flat =>
          simp only [Mode.choose, isVoid_settled, reach]
          split
          · exact hk w
          · exact ihflat depth .flat hk w

/-! ### Printing with a stack -/

/-- A document in front of a stack is printed as `run` says, unless it stands in flat mode and has to
break. -/
def Prints (doc : Doc) : Prop :=
  ∀ {rest : List Command} {k : Ahead} {p : Printed Text Int} (page : Page) (depth : Nat) (mode : Mode),
    p.remeasure = false → (mode = .flat → doc.forces = false) → Tells false rest k →
      printStack page.ruler p (⟨depth, mode, doc.settled⟩ :: rest) =
        printStack page.ruler (doc.run page depth mode k p) rest

theorem prints_push {parts : List Doc} (h : ∀ doc ∈ parts, Paired allowed doc)
    (hprints : ∀ doc ∈ parts, Prints doc) {page : Page} {rest : List Command} {k : Ahead}
    {p : Printed Text Int} (depth : Nat) (mode : Mode) (hp : p.remeasure = false)
    (hflat : mode = .flat → parts.any forces = false) (hk : Tells false rest k) :
    printStack page.ruler p (Command.push depth mode (parts.map settled) rest) =
      printStack page.ruler (runAll page depth mode parts k p) rest := by
  induction parts generalizing p with
  | nil => rw [runAll]; rfl
  | cons doc docs ih =>
      have hdoc : mode = .flat → doc.forces = false ∧ docs.any forces = false := by
        intro hmode
        simpa only [List.any_cons, Bool.or_eq_false_iff] using hflat hmode
      have hrest : Tells false (Command.push depth mode (docs.map settled) rest)
          (reachAll false mode docs k) :=
        tells_push (fun d hd => (h d (by simp [hd])).measured) depth mode hk
      have hstep := hprints doc (by simp) page depth mode hp (fun hm => (hdoc hm).1) hrest
      rw [runAll]
      refine hstep.trans (ih (fun d hd => h d (by simp [hd])) (fun d hd => hprints d (by simp [hd])) ?_
        fun hm => (hdoc hm).2)
      rw [remeasure_run, hp]

theorem printStack_fill {page : Page} {p : Printed Text Int} {depth : Nat} {mode : Mode}
    {parts : List Doc} {front rest : List Command}
    (h : fillFront (page.width - p.column) depth mode parts = .ok front) :
    printStack page.ruler p (⟨depth, mode, .fill parts⟩ :: rest) =
      printStack page.ruler p (front ++ rest) := by
  rw [printStack]
  simp only [Page.ruler]
  split <;> simp_all

theorem forces_of_fits {content : Doc} (h : FillContent content) {k : Ahead} {width : Int}
    (hfits : reach true .flat content k width = true) : content.forces = false := by
  cases h with
  | text t => rfl
  | group contents forced =>
      rw [forces_group]
      cases hforces : contents.forces || forced with
      | false => rfl
      | true => simp [reach, hforces] at hfits

theorem fillMode_eq_flat {measured : Bool} : fillMode measured = .flat ↔ measured = true := by
  cases measured <;> simp [fillMode]

/-- What `fits` answers about documents with nothing behind them. -/
theorem fits_content {content : Doc} (h : Paired allowed content) (depth : Nat) (width : Int) :
    fits true width [⟨depth, .flat, content.settled⟩] = .ok (reach true .flat content .clear width) :=
  h.measured depth .flat (tells_nil true) width

theorem fits_pair {content separator next : Doc} (h : Paired allowed content) (hs : Paired allowed separator)
    (hn : Paired allowed next) (depth : Nat) (width : Int) :
    fits true width [⟨depth, .flat, content.settled⟩, ⟨depth, .flat, separator.settled⟩,
        ⟨depth, .flat, next.settled⟩] =
      .ok (reachAll true .flat [content, separator, next] .clear width) :=
  h.measured depth .flat (hs.measured depth .flat (hn.measured depth .flat (tells_nil true))) width

section FillFront

variable {content separator next : Doc} (width : Int) (depth : Nat) (mode : Mode)

theorem fillFront_last (h : Paired allowed content) : fillFront width depth mode ([content].map settled) =
    .ok [⟨depth, fillMode (reach true .flat content .clear width), content.settled⟩] := by
  simp only [fillFront, List.map_cons, List.map_nil, fits_content h]
  rfl

theorem fillFront_separator (h : Paired allowed content) :
    fillFront width depth mode ([content, separator].map settled) =
      .ok [⟨depth, fillMode (reach true .flat content .clear width), content.settled⟩,
        ⟨depth, fillMode (reach true .flat content .clear width), separator.settled⟩] := by
  simp only [fillFront, List.map_cons, List.map_nil, fits_content h]
  rfl

/-- The separator is printed flat if the contents on both sides of it fit. -/
theorem fillFront_next (h : Paired allowed content) (hs : Paired allowed separator) (hn : Paired allowed next)
    (tail : List Doc) :
    fillFront width depth mode ((content :: separator :: next :: tail).map settled) =
      .ok [⟨depth, fillMode (reachAll true .flat [content, separator, next] .clear width ||
          reach true .flat content .clear width), content.settled⟩,
        ⟨depth, fillMode (reachAll true .flat [content, separator, next] .clear width), separator.settled⟩,
        ⟨depth, mode, (Doc.fill (next :: tail)).settled⟩] := by
  simp only [fillFront, List.map_cons, fits_content h, fits_pair h hs hn, settled_fill]
  rfl

end FillFront

theorem prints_fill {parts : List Doc} (hparts : FillParts parts) (h : ∀ doc ∈ parts, Paired allowed doc)
    (hprints : ∀ doc ∈ parts, Prints doc) : Prints (.fill parts) := by
  induction hparts with
  | nil =>
      intro rest k p page depth mode hp hflat hk
      have hfront : fillFront (page.width - p.column) depth mode ([].map settled) = .ok [] := rfl
      rw [settled_fill, run, runFill, printStack_fill hfront]
      rfl
  | @last content hcontent =>
      intro rest k p page depth mode hp hflat hk
      rw [settled_fill, run, runFill, printStack_fill (fillFront_last _ _ _ (h content (by simp)))]
      refine hprints content (by simp) page depth _ hp (fun hm => ?_) hk
      exact forces_of_fits hcontent (fillMode_eq_flat.1 hm)
  | @cons content rest' hcontent l hrest' ih =>
      intro rest k p page depth mode hp hflat hk
      have hp₁ := h content (by simp)
      have hp₂ := h (.line l) (by simp)
      have hpr₁ : Prints content := hprints content (by simp)
      have hpr₂ : Prints (.line l) := hprints (.line l) (by simp)
      cases rest' with
      | nil =>
          rw [settled_fill, run, runFill, printStack_fill (fillFront_separator _ _ _ hp₁)]
          have hline := hp₂.measured depth
            (fillMode (reach true .flat content .clear (page.width - p.column))) hk
          refine (hpr₁ page depth _ hp (fun hm => ?_) hline).trans
            (hpr₂ page depth _ ?_ (fun _ => rfl) hk)
          · exact forces_of_fits hcontent (fillMode_eq_flat.1 hm)
          · rw [remeasure_run, hp]
      | cons next tail =>
          have hflat' : mode = .flat → (Doc.fill (next :: tail)).forces = false := by
            intro hm
            have := hflat hm
            simp only [forces_fill, List.any_cons, Bool.or_eq_false_iff] at this ⊢
            exact this.2.2
          have hpaired : Paired allowed (.fill (next :: tail)) :=
            .fill (fun d hd => h d (by simp [List.mem_cons.1 hd])) hrest'
          have htail := hpaired.measured depth mode hk
          rw [settled_fill, run, runFill, printStack_fill (fillFront_next _ _ _ hp₁ hp₂ (h next (by simp)) _)]
          refine (hpr₁ page depth _ hp (fun hm => ?_) (hp₂.measured depth _ htail)).trans
            ((hpr₂ page depth _ ?_ (fun _ => rfl) htail).trans
              (ih (fun d hd => h d ?_) (fun d hd => hprints d ?_) page depth mode ?_ hflat' hk))
          · have hfits := fillMode_eq_flat.1 hm
            rw [Bool.or_eq_true] at hfits
            rcases hfits with hpair | halone
            · exact forces_of_fits hcontent hpair
            · exact forces_of_fits hcontent halone
          · rw [remeasure_run, hp]
          · simp [List.mem_cons.1 hd]
          · simp [List.mem_cons.1 hd]
          · rw [remeasure_run, remeasure_run, hp]

/-- A hard line with the mark that comes with it. -/
theorem prints_break (l : Line) : Prints (.concat [.line l, .breakParent]) := by
  intro rest k p page depth mode hp hflat hk
  have hmode : mode = .broken := by
    cases mode with
    | broken => rfl
    | flat => exact absurd (hflat rfl) (by simp)
  subst hmode
  rw [settled_concat, printStack, run]
  simp only [List.map_cons, List.map_nil, settled_line, Command.push, List.cons_append,
    List.nil_append, runAll, run]
  rw [printStack]
  simp only [reduceCtorEq, decide_false, Bool.false_and, Bool.false_eq_true, if_false]
  rw [show breakParent.settled = breakParent from rfl, printStack]

/-- A group is measured only in broken mode, and only if nothing in it forces it to break. -/
theorem prints_group {contents : Doc} (h : Paired allowed contents) (hprints : Prints contents) (forced : Bool) :
    Prints (.group contents forced) := by
  intro rest k p page depth mode hp hflat hk
  have hsame : { p with remeasure := false } = p := by rw [← hp]
  rw [settled_group, printStack, run]
  simp only [hp, Bool.not_false, Bool.and_true, decide_eq_true_eq, hsame]
  cases hforced : contents.forces || forced with
  | true =>
      have hgroup : groupMode page mode contents forced k p = .broken := by
        simp [groupMode, hforced]
      rw [hgroup]
      simp only [if_true, ite_self]
      exact hprints page depth .broken hp (by simp) hk
  | false =>
      have hfree : contents.forces = false := (Bool.or_eq_false_iff.1 hforced).1
      cases mode with
      | flat =>
          have hgroup : groupMode page .flat contents forced k p = .flat := by
            simp [groupMode, hforced]
          rw [hgroup]
          simp only [if_true, Bool.false_eq_true, if_false]
          exact hprints page depth .flat hp (fun _ => hfree) hk
      | broken =>
          have hgroup : groupMode page .broken contents forced k p =
              if reach false .flat contents k (page.width - p.column) then .flat
              else .broken := by
            simp [groupMode, hforced]
          have hfits := h.measured depth .flat hk (page.width - p.column)
          rw [hgroup]
          simp only [reduceCtorEq, if_false, Bool.false_eq_true, Page.ruler, hfits]
          exact hprints page depth _ hp (fun _ => hfree) hk

theorem Paired.prints {doc : Doc} (h : Paired allowed doc) : Prints doc := by
  induction h with
  | text ht =>
      intro rest k p page depth mode hp hflat hk
      rw [settled_text, printStack, run]
  | @line l hl =>
      intro rest k p page depth mode hp hflat hk
      rw [settled_line, printStack, run, hl]
      cases mode with
      | flat => simp
      | broken => simp
  | hardLine => exact prints_break _
  | literalLine => exact prints_break _
  | concat h ih =>
      intro rest k p page depth mode hp hflat hk
      rw [forces_concat] at hflat
      rw [settled_concat, printStack, run]
      exact prints_push h ih depth mode hp hflat hk
  | fill h hparts ih => exact prints_fill hparts h ih
  | indent _ ih =>
      intro rest k p page depth mode hp hflat hk
      rw [settled_indent, printStack, run]
      exact ih page (depth + 1) mode hp hflat hk
  | group h forced ih => exact prints_group h ih forced
  | @ifBreak broken flat _ _ ihbroken ihflat =>
      intro rest k p page depth mode hp hflat hk
      rw [forces_ifBreak] at hflat
      rw [settled_ifBreak, printStack]
      cases mode with
      | broken =>
          simp only [Mode.choose, isVoid_settled, run]
          split
          · rfl
          · exact ihbroken page depth .broken hp (by simp) hk
      | flat =>
          have := hflat rfl
          simp only [Bool.or_eq_false_iff] at this
          simp only [Mode.choose, isVoid_settled, run]
          split
          · rfl
          · exact ihflat page depth .flat hp (fun _ => this.2) hk

/-! ### What all of printing preserves -/

section Invariant

variable {Q : Printed Text Int → Prop} {page : Page}

/-- What holds after a document if it held before it. -/
def Keeps (Q : Printed Text Int → Prop) (page : Page) (doc : Doc) : Prop :=
  ∀ depth mode k p, Q p → Q (doc.run page depth mode k p)

theorem keeps_runAll {parts : List Doc} (h : ∀ doc ∈ parts, Keeps Q page doc) (depth : Nat) (mode : Mode)
    (k : Ahead) {p : Printed Text Int} (hp : Q p) : Q (runAll page depth mode parts k p) := by
  induction parts generalizing p with
  | nil => rw [runAll]; exact hp
  | cons doc docs ih =>
      rw [runAll]
      exact ih (fun d hd => h d (by simp [hd])) (h doc (by simp) depth mode _ p hp)

theorem keeps_runFill {parts : List Doc} (h : ∀ doc ∈ parts, Keeps Q page doc) (depth : Nat)
    (mode : Mode) (k : Ahead) {p : Printed Text Int} (hp : Q p) : Q (runFill page depth mode parts k p) := by
  match parts with
  | [] => rw [runFill]; exact hp
  | [content] => rw [runFill]; exact h content (by simp) depth _ _ p hp
  | [content, separator] =>
      rw [runFill]
      exact h separator (by simp) depth _ _ _ (h content (by simp) depth _ _ p hp)
  | content :: separator :: next :: rest =>
      rw [runFill]
      refine keeps_runFill (fun d hd => h d (by simp [List.mem_cons.1 hd])) depth mode k ?_
      exact h separator (by simp) depth _ _ _ (h content (by simp) depth _ _ p hp)

/-- What every write and every line preserves is preserved by a document. -/
theorem Paired.keeps {doc : Doc} (h : Paired allowed doc)
    (hwrite : ∀ p t, allowed t → Q p → Q (p.write t)) (hflat : ∀ p l, Q p → Q (p.writeFlatLine l))
    (hbreak : ∀ p depth l, Q p → Q (p.breakLine page.ruler depth .broken l)) : Keeps Q page doc := by
  induction h with
  | text ht =>
      intro depth mode k p hp
      rw [run]
      exact hwrite p _ ht hp
  | line hl =>
      intro depth mode k p hp
      rw [run]
      split
      · exact hflat p _ hp
      · exact hbreak p depth _ hp
  | hardLine =>
      intro depth mode k p hp
      simp only [Doc.hardLine, run, runAll]
      split
      · exact hflat p _ hp
      · exact hbreak p depth _ hp
  | literalLine =>
      intro depth mode k p hp
      simp only [Doc.literalLine, run, runAll]
      split
      · exact hflat p _ hp
      · exact hbreak p depth _ hp
  | concat _ ih =>
      intro depth mode k p hp
      rw [run]
      exact keeps_runAll ih depth mode k hp
  | fill _ _ ih =>
      intro depth mode k p hp
      rw [run]
      exact keeps_runFill ih depth mode k hp
  | indent _ ih =>
      intro depth mode k p hp
      rw [run]
      exact ih (depth + 1) mode k p hp
  | group _ forced ih =>
      intro depth mode k p hp
      rw [run]
      exact ih depth _ k p hp
  | ifBreak _ _ ihbroken ihflat =>
      intro depth mode k p hp
      cases mode with
      | broken =>
          rw [run]
          split
          · exact hp
          · exact ihbroken depth .broken k p hp
      | flat =>
          rw [run]
          split
          · exact hp
          · exact ihflat depth .flat k p hp

end Invariant

/-- Printing a whole document. -/
theorem print_eq_run {doc : Doc} (h : Paired allowed doc) (page : Page) :
    page.ruler.print doc = .ok (doc.run page 0 .broken .clear .empty).text := by
  have hprint := h.prints (p := .empty) page 0 .broken rfl (by simp) (tells_nil false)
  rw [Ruler.print_eq, hprint, printStack]
  rfl

end Doc

end XmlTidy
