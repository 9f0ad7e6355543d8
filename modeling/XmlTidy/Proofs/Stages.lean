import Mathlib.Logic.Relation
import XmlTidy.Proofs.Rendering
import XmlTidy.Proofs.Sights

/-!
Printing step by step. A stage is what has been printed and the commands that are left, and a step carries out
the first of them. Printing a stack is going from stage to stage until no command is left. A document without
stray values never gets stuck: every stage with a command has a next one, on every page, and the stack
gets smaller with every step.
-/

namespace XmlTidy

namespace Doc

/-! ### Documents without stray values -/

mutual
/-- Whether a document holds no stray value. -/
def isValid : Doc → Bool
  | .concat parts | .fill parts => allValid parts
  | .indent contents | .group contents _ => isValid contents
  | .ifBreak broken flat => isValid broken && isValid flat
  | .text _ | .line _ | .breakParent => true
  | .stray _ => false

def allValid : List Doc → Bool
  | [] => true
  | doc :: docs => isValid doc && allValid docs
end

theorem allValid_iff {docs : List Doc} : allValid docs = true ↔ ∀ doc ∈ docs, doc.isValid = true := by
  induction docs with
  | nil => simp [allValid]
  | cons doc docs ih => simp [allValid, ih]

@[simp] theorem isValid_concat {parts : List Doc} :
    (concat parts).isValid = true ↔ ∀ doc ∈ parts, doc.isValid = true := allValid_iff

@[simp] theorem isValid_fill {parts : List Doc} :
    (fill parts).isValid = true ↔ ∀ doc ∈ parts, doc.isValid = true := allValid_iff

@[simp] theorem isValid_indent (contents : Doc) : (indent contents).isValid = contents.isValid := rfl

@[simp] theorem isValid_group (contents : Doc) (forced : Bool) :
    (group contents forced).isValid = contents.isValid := rfl

@[simp] theorem isValid_ifBreak (broken flat : Doc) :
    (ifBreak broken flat).isValid = (broken.isValid && flat.isValid) := rfl

@[simp] theorem isValid_text (t : Text) : (text t).isValid = true := rfl
@[simp] theorem isValid_line (l : Line) : (line l).isValid = true := rfl
@[simp] theorem isValid_breakParent : breakParent.isValid = true := rfl
@[simp] theorem isValid_stray (value : Stray) : (stray value).isValid = false := rfl

mutual
/-- Marking the groups that have to break adds no stray value. -/
theorem isValid_settled {doc : Doc} (h : doc.isValid = true) : doc.settled.isValid = true := by
  cases doc with
  | concat parts =>
      rw [settled_concat, isValid_concat]
      exact forall_isValid_settled (isValid_concat.1 h)
  | fill parts =>
      rw [settled_fill, isValid_fill]
      exact forall_isValid_settled (isValid_fill.1 h)
  | indent contents =>
      rw [isValid_indent] at h
      rw [settled_indent, isValid_indent]
      exact isValid_settled h
  | group contents forced =>
      rw [isValid_group] at h
      rw [settled_group, isValid_group]
      exact isValid_settled h
  | ifBreak broken flat =>
      rw [isValid_ifBreak, Bool.and_eq_true] at h
      rw [settled_ifBreak, isValid_ifBreak, isValid_settled h.1, isValid_settled h.2]
      rfl
  | text t => exact h
  | line l => exact h
  | breakParent => exact h
  | stray value => exact h

theorem forall_isValid_settled {docs : List Doc} (h : ∀ doc ∈ docs, doc.isValid = true) :
    ∀ doc ∈ docs.map settled, doc.isValid = true := by
  cases docs with
  | nil => simp
  | cons doc docs =>
      rw [List.map_cons, List.forall_mem_cons]
      exact ⟨isValid_settled (h doc (by simp)), forall_isValid_settled fun d hd => h d (by simp [hd])⟩
end

mutual
/-- Measuring meets no stray value where there is none. -/
theorem stray?_of_isValid {doc : Doc} (h : doc.isValid = true) (mode : Mode) :
    ∀ sight ∈ doc.sights mode, sight.stray? = none := by
  cases doc with
  | text t =>
      rw [sights]
      simp [Sight.stray?]
  | concat parts | fill parts =>
      rw [sights]
      exact stray?_of_allValid h mode
  | indent contents =>
      rw [isValid_indent] at h
      rw [sights]
      exact stray?_of_isValid h mode
  | group contents forced =>
      rw [isValid_group] at h
      rw [sights]
      split
      · exact List.forall_mem_cons.2 ⟨rfl, stray?_of_isValid h .broken⟩
      · exact stray?_of_isValid h mode
  | ifBreak broken flat =>
      rw [isValid_ifBreak, Bool.and_eq_true] at h
      rw [sights_ifBreak]
      split
      · simp
      · cases mode with
        | broken => exact stray?_of_isValid h.1 .broken
        | flat => exact stray?_of_isValid h.2 .flat
  | line l =>
      rw [sights]
      split
      · simp [Sight.stray?]
      · split <;> simp [Sight.stray?]
  | breakParent =>
      rw [sights]
      simp
  | stray value => cases h

theorem stray?_of_allValid {docs : List Doc} (h : allValid docs = true) (mode : Mode) :
    ∀ sight ∈ sightsAll mode docs, sight.stray? = none := by
  cases docs with
  | nil =>
      rw [sightsAll]
      simp
  | cons doc docs =>
      rw [allValid, Bool.and_eq_true] at h
      rw [sightsAll]
      exact List.forall_mem_append.2 ⟨stray?_of_isValid h.1 mode, stray?_of_allValid h.2 mode⟩
end

end Doc

/-! ### Measuring -/

namespace Command

/-- Stacks without stray values. -/
def Valid (stack : List Command) : Prop := ∀ c ∈ stack, c.doc.isValid = true

theorem valid_cons {c : Command} {stack : List Command} : Valid (c :: stack) ↔ c.doc.isValid = true ∧ Valid stack :=
  List.forall_mem_cons

theorem valid_append {s t : List Command} : Valid (s ++ t) ↔ Valid s ∧ Valid t := List.forall_mem_append

theorem valid_choose {broken flat : Doc} (h : (Doc.ifBreak broken flat).isValid = true) (mode : Mode) :
    (mode.choose broken flat).isValid = true := by
  rw [Doc.isValid_ifBreak, Bool.and_eq_true] at h
  cases mode with
  | broken => exact h.1
  | flat => exact h.2

end Command

open Command

theorem stray?_of_valid {stack : List Command} (h : Valid stack) : ∀ sight ∈ sights stack, sight.stray? = none := by
  intro sight hsight
  obtain ⟨c, hc, hsight⟩ := List.mem_flatMap.1 hsight
  exact Doc.stray?_of_isValid (h c hc) c.mode sight hsight

/-- Measuring a stack without stray values gives a result. -/
theorem exists_fits (must : Bool) (width : Int) {stack : List Command} (h : Valid stack) :
    ∃ measured, fits must width stack = .ok measured := by
  cases hfits : fits must width stack with
  | ok measured => exact ⟨measured, rfl⟩
  | error value =>
      rw [fits_eq_scan] at hfits
      have hfirst := Sight.head?_of_scan_error hfits
      rw [List.filterMap_eq_nil_iff.2 (stray?_of_valid h)] at hfirst
      cases hfirst

/-- The documents that the front of a fill prints, whichever of them fit. -/
def fillDocs : List Doc → List Doc
  | content :: separator :: next :: rest => [content, separator, .fill (next :: rest)]
  | parts => parts

/-- What holds of the parts of a fill, and carries over to fills, holds of all that its front prints. -/
theorem forall_mem_fillDocs {P : Doc → Prop}
    (hfill : ∀ {parts : List Doc}, (∀ doc ∈ parts, P doc) → P (.fill parts)) {parts : List Doc}
    (h : ∀ doc ∈ parts, P doc) : ∀ doc ∈ fillDocs parts, P doc := by
  unfold fillDocs
  split
  · next content separator next rest =>
      simp only [List.forall_mem_cons] at h
      simpa [h.1, h.2.1] using hfill (List.forall_mem_cons.2 h.2.2)
  · exact h

theorem forall_mem_front {P : Doc → Prop} (hfill : ∀ {parts : List Doc}, (∀ doc ∈ parts, P doc) → P (.fill parts))
    {parts : List Doc} {front : List Command} (hfront : front.map (·.doc) = fillDocs parts)
    (h : ∀ doc ∈ parts, P doc) : ∀ c ∈ front, P c.doc := by
  have hdocs := forall_mem_fillDocs hfill h
  rw [← hfront] at hdocs
  exact List.forall_mem_map.1 hdocs

/-- The front of a fill prints all of it. -/
theorem map_doc_fillFront {remaining : Int} {depth : Nat} {mode : Mode} {parts : List Doc} {front : List Command}
    (h : fillFront remaining depth mode parts = .ok front) : front.map (·.doc) = fillDocs parts := by
  unfold fillFront at h
  split at h
  · cases h
    rfl
  · split at h <;> cases h
    rfl
  · split at h <;> cases h
    rfl
  · split at h
    · cases h
    · split at h <;> cases h
      rfl

/-- A fill without stray values has a front. -/
theorem exists_fillFront (remaining : Int) (depth : Nat) (mode : Mode) {parts : List Doc}
    (h : ∀ doc ∈ parts, doc.isValid = true) :
    ∃ front, fillFront remaining depth mode parts = .ok front ∧ front.map (·.doc) = fillDocs parts := by
  match parts with
  | [] => exact ⟨[], rfl, rfl⟩
  | [content] | [content, separator] =>
      obtain ⟨contentFits, hfits⟩ := @exists_fits true remaining [⟨depth, .flat, content⟩]
        (by simpa [Valid] using h content (by simp))
      simp only [fillFront, hfits]
      exact ⟨_, rfl, rfl⟩
  | content :: separator :: next :: rest =>
      simp only [List.mem_cons, forall_eq_or_imp] at h
      obtain ⟨contentFits, hfits⟩ := @exists_fits true remaining [⟨depth, .flat, content⟩] (by simp [Valid, h.1])
      obtain ⟨pairFits, hpair⟩ := @exists_fits true remaining
        [⟨depth, .flat, content⟩, ⟨depth, .flat, separator⟩, ⟨depth, .flat, next⟩]
        (by simp [Valid, h.1, h.2.1, h.2.2.1])
      simp only [fillFront, hfits, hpair]
      exact ⟨_, rfl, rfl⟩

/-! ### Stages -/

/-- Where printing stands: what has been printed, and the commands that are left. -/
structure Stage where
  printed : Printed Text Int
  stack : List Command
deriving Repr

namespace Stage

/-- The stage at which printing a document starts. -/
def start (doc : Doc) : Stage := ⟨.empty, [⟨0, .broken, doc.settled⟩]⟩

/-- The stage behind the first command, if there is a command. -/
def next (page : Page) : Stage → Except RenderFault (Option Stage)
  | ⟨_, []⟩ => .ok none
  | ⟨p, ⟨depth, mode, doc⟩ :: rest⟩ =>
      match doc with
      | .text t => .ok (some ⟨p.write t, rest⟩)
      | .concat parts => .ok (some ⟨p, push depth mode parts rest⟩)
      | .indent contents => .ok (some ⟨p, ⟨depth + 1, mode, contents⟩ :: rest⟩)
      | .group contents forced =>
          if mode = .flat && !p.remeasure then
            .ok (some ⟨p, ⟨depth, if forced then .broken else .flat, contents⟩ :: rest⟩)
          else if forced then
            .ok (some ⟨{ p with remeasure := false }, ⟨depth, .broken, contents⟩ :: rest⟩)
          else
            match fits false (page.width - p.column) (⟨depth, .flat, contents⟩ :: rest) with
            | .error e => .error (.stray e)
            | .ok flat =>
                .ok (some ⟨{ p with remeasure := false },
                  ⟨depth, if flat then .flat else .broken, contents⟩ :: rest⟩)
      | .fill parts =>
          match fillFront (page.width - p.column) depth mode parts with
          | .error e => .error (.stray e)
          | .ok front => .ok (some ⟨p, front ++ rest⟩)
      | .ifBreak broken flat =>
          if (mode.choose broken flat).isVoid then .ok (some ⟨p, rest⟩)
          else .ok (some ⟨p, ⟨depth, mode, mode.choose broken flat⟩ :: rest⟩)
      | .line l =>
          if mode = .flat && !l.hard then .ok (some ⟨p.writeFlatLine l, rest⟩)
          else .ok (some ⟨p.breakLine page.ruler depth mode l, rest⟩)
      | .breakParent => .ok (some ⟨p, rest⟩)
      | .stray value => .error (.stray value)

/-- One step of printing. -/
def Step (page : Page) (s s' : Stage) : Prop := s.next page = .ok (some s')

/-- Any number of steps. -/
abbrev Runs (page : Page) : Stage → Stage → Prop := Relation.ReflTransGen (Step page)

variable {page : Page} {s s' : Stage}

/-- Printing a stack carries out its first command and goes on from there. -/
theorem printStack_eq (page : Page) (s : Stage) :
    printStack page.ruler s.printed s.stack =
      match s.next page with
      | .error e => .error e
      | .ok none => .ok s.printed
      | .ok (some s') => printStack page.ruler s'.printed s'.stack := by
  obtain ⟨p, stack⟩ := s
  cases stack with
  | nil => rw [printStack, next]
  | cons c rest =>
      obtain ⟨depth, mode, doc⟩ := c
      cases doc with
      | group contents forced =>
          rw [printStack]
          simp only [next, Page.ruler]
          by_cases hflat : (mode = .flat && !p.remeasure) = true
          · rw [if_pos hflat, if_pos hflat]
          · rw [if_neg hflat, if_neg hflat]
            cases forced with
            | true => rfl
            | false =>
                simp only [Bool.false_eq_true, if_false]
                cases fits false (page.width - p.column) (⟨depth, .flat, contents⟩ :: rest) <;> rfl
      | fill parts =>
          rw [printStack]
          simp only [next, Page.ruler]
          cases hfront : fillFront (page.width - p.column) depth mode parts <;> split <;> simp_all
      | ifBreak broken flat =>
          rw [printStack]
          simp only [next]
          split <;> rfl
      | line l =>
          rw [printStack]
          simp only [next]
          split <;> rfl
      | _ => rw [printStack]; rfl

theorem printStack_of_step (h : Step page s s') :
    printStack page.ruler s.printed s.stack = printStack page.ruler s'.printed s'.stack := by
  rw [printStack_eq, show s.next page = .ok (some s') from h]

/-- What is printed from one stage is what is printed from any later one. -/
theorem printStack_of_runs (h : Runs page s s') :
    printStack page.ruler s.printed s.stack = printStack page.ruler s'.printed s'.stack := by
  induction h with
  | refl => rfl
  | tail _ hstep ih => rw [ih, printStack_of_step hstep]

/-- The text of a document is what is printed at the last stage. -/
theorem print_of_runs {doc : Doc} {q : Printed Text Int} (h : Runs page (start doc) ⟨q, []⟩) :
    page.ruler.print doc = .ok q.text := by
  have hprint : printStack page.ruler .empty [⟨0, .broken, doc.settled⟩] = .ok q := by
    refine (printStack_of_runs h).trans ?_
    rw [printStack]
  rw [Ruler.print_eq, hprint]
  rfl

/-- A page prints a document as what is printed at the last stage. -/
theorem render_of_runs {doc : Doc} {q : Printed Text Int} (h : Runs page (start doc) ⟨q, []⟩) :
    page.render doc = .ok (q.text.withLineEnds page.lineEnd.image) := by
  rw [Page.render, print_of_runs h]
  rfl

/-- A step has one outcome. -/
theorem rightUnique_step (page : Page) : Relator.RightUnique (Step page) := by
  intro s s₁ s₂ h₁ h₂
  have heq := Eq.trans (Eq.symm h₁) h₂
  simpa using heq

/-- The stage after a number of steps, if printing gets that far. -/
def after (page : Page) : Nat → Stage → Option Stage
  | 0, s => some s
  | n + 1, s =>
      match s.next page with
      | .ok (some s') => after page n s'
      | _ => none

theorem runs_of_after {n : Nat} (h : s.after page n = some s') : Runs page s s' := by
  induction n generalizing s with
  | zero =>
      obtain rfl : s = s' := by simpa [after] using h
      exact .refl
  | succ n ih =>
      rw [after] at h
      split at h
      · next hnext => exact .head hnext (ih h)
      · cases h

/-! ### What a step does to the stack -/

/-- The commands that a command makes way for. A group that has to break does so in broken mode. -/
inductive Opens : Command → List Command → Prop where
  | text (depth : Nat) (mode : Mode) (t : Text) : Opens ⟨depth, mode, .text t⟩ []
  | line (depth : Nat) (mode : Mode) (l : Line) : Opens ⟨depth, mode, .line l⟩ []
  | breakParent (depth : Nat) (mode : Mode) : Opens ⟨depth, mode, .breakParent⟩ []
  | concat (depth : Nat) (mode : Mode) (parts : List Doc) :
      Opens ⟨depth, mode, .concat parts⟩ (parts.map (⟨depth, mode, ·⟩))
  | indent (depth : Nat) (mode : Mode) (contents : Doc) :
      Opens ⟨depth, mode, .indent contents⟩ [⟨depth + 1, mode, contents⟩]
  | group (depth : Nat) (mode : Mode) (contents : Doc) {forced : Bool} {inner : Mode}
      (h : forced = true → inner = .broken) :
      Opens ⟨depth, mode, .group contents forced⟩ [⟨depth, inner, contents⟩]
  | fill {depth : Nat} {mode : Mode} {parts : List Doc} {remaining : Int} {front : List Command}
      (h : fillFront remaining depth mode parts = .ok front) : Opens ⟨depth, mode, .fill parts⟩ front
  | skip (depth : Nat) (mode : Mode) {broken flat : Doc} (h : (mode.choose broken flat).isVoid = true) :
      Opens ⟨depth, mode, .ifBreak broken flat⟩ []
  | ifBreak (depth : Nat) (mode : Mode) (broken flat : Doc) :
      Opens ⟨depth, mode, .ifBreak broken flat⟩ [⟨depth, mode, mode.choose broken flat⟩]

/-- A step puts the commands that the first one makes way for in its place. -/
theorem Step.opens {p : Printed Text Int} {c : Command} {rest : List Command} (h : Step page ⟨p, c :: rest⟩ s') :
    ∃ new, s'.stack = new ++ rest ∧ Opens c new := by
  obtain ⟨depth, mode, doc⟩ := c
  cases doc with
  | text t => cases h; exact ⟨[], rfl, .text ..⟩
  | concat parts => cases h; exact ⟨_, rfl, .concat ..⟩
  | indent contents => cases h; exact ⟨[_], rfl, .indent ..⟩
  | group contents forced =>
      simp only [Step, next] at h
      split at h
      · cases h
        exact ⟨[_], rfl, .group _ _ _ fun hforced => if_pos hforced⟩
      · split at h
        · cases h
          exact ⟨[_], rfl, .group _ _ _ fun _ => rfl⟩
        · next hforced =>
            split at h
            · cases h
            · cases h
              exact ⟨[_], rfl, .group _ _ _ fun h => absurd h hforced⟩
  | fill parts =>
      simp only [Step, next] at h
      split at h
      · cases h
      · next front hfront =>
          cases h
          exact ⟨front, rfl, .fill hfront⟩
  | ifBreak broken flat =>
      simp only [Step, next] at h
      split at h
      · next hvoid => cases h; exact ⟨[], rfl, .skip _ _ hvoid⟩
      · cases h; exact ⟨[_], rfl, .ifBreak ..⟩
  | line l =>
      simp only [Step, next] at h
      split at h <;> cases h <;> exact ⟨[], rfl, .line ..⟩
  | breakParent => cases h; exact ⟨[], rfl, .breakParent ..⟩
  | stray value => cases h

/-- Printing ends only where no command is left. -/
theorem stack_of_next_none (h : s.next page = .ok none) : s.stack = [] := by
  obtain ⟨p, stack⟩ := s
  cases stack with
  | nil => rfl
  | cons c rest =>
      obtain ⟨depth, mode, doc⟩ := c
      cases doc with
      | text | concat | indent | breakParent | stray => cases h
      | group | fill | ifBreak | line =>
          simp only [next] at h
          repeat' split at h
          all_goals cases h

/-- What a command makes way for is smaller. -/
theorem Opens.size_lt {c : Command} {new : List Command} (h : Opens c new) : stackSize new < c.doc.size := by
  cases h with
  | text | line | breakParent | skip => exact Doc.size_pos _
  | concat depth mode parts =>
      have := stackSize_push depth mode parts []
      simp only [push, List.append_nil, stackSize, Doc.size] at this ⊢
      omega
  | indent | group => simp only [stackSize, Doc.size]; omega
  | fill h => exact stackSize_fillFront h
  | ifBreak depth mode broken flat =>
      have := mode.size_choose_le broken flat
      simp only [stackSize, Doc.size]
      omega

/-- The stack gets smaller with every step. -/
theorem Step.size_lt (h : Step page s s') : stackSize s'.stack < stackSize s.stack := by
  obtain ⟨p, stack⟩ := s
  cases stack with
  | nil => cases h
  | cons c rest =>
      obtain ⟨new, hstack, hopens⟩ := h.opens
      have := hopens.size_lt
      rw [hstack, stackSize_append, stackSize]
      omega

/-! ### What a step does to the page -/

/-- What a command does to the page. Only texts and lines are printed; other commands at most settle whether the next
group is to be measured again. -/
inductive Marks (page : Page) (p : Printed Text Int) : Command → Printed Text Int → Prop where
  | text (depth : Nat) (mode : Mode) (t : Text) : Marks page p ⟨depth, mode, .text t⟩ (p.write t)
  | flatLine (depth : Nat) {l : Line} (h : l.hard = false) : Marks page p ⟨depth, .flat, .line l⟩ (p.writeFlatLine l)
  | breakLine (depth : Nat) {mode : Mode} {l : Line} (h : mode = .flat → l.hard = true) :
      Marks page p ⟨depth, mode, .line l⟩ (p.breakLine page.ruler depth mode l)
  | keeps {c : Command} {remeasure : Bool} (htext : ∀ t, c.doc ≠ .text t) (hline : ∀ l, c.doc ≠ .line l)
      (h : remeasure = true → p.remeasure = true) : Marks page p c { p with remeasure }

/-- A step does to the page what its command does. -/
theorem Step.marks {p : Printed Text Int} {c : Command} {rest : List Command} (h : Step page ⟨p, c :: rest⟩ s') :
    Marks page p c s'.printed := by
  obtain ⟨depth, mode, doc⟩ := c
  cases doc with
  | text t => cases h; exact .text ..
  | concat | indent | breakParent => cases h; exact .keeps (by simp) (by simp) id
  | group contents forced =>
      simp only [Step, next] at h
      split at h
      · cases h
        exact .keeps (by simp) (by simp) id
      · split at h
        · cases h
          exact .keeps (by simp) (by simp) (by simp)
        · split at h <;> cases h
          exact .keeps (by simp) (by simp) (by simp)
  | fill | ifBreak =>
      simp only [Step, next] at h
      split at h <;> cases h <;> exact .keeps (by simp) (by simp) id
  | line l =>
      simp only [Step, next] at h
      split at h
      · next hflat =>
          cases h
          simp only [Bool.and_eq_true, decide_eq_true_eq, Bool.not_eq_true'] at hflat
          obtain ⟨rfl, hl⟩ := hflat
          exact .flatLine depth hl
      · next hbreak =>
          cases h
          exact .breakLine depth (by simpa using hbreak)
  | stray value => cases h

/-! ### Documents without stray values are printed -/

/-- What a command without stray values makes way for has none. -/
theorem Opens.valid {c : Command} {new : List Command} (h : Opens c new) (hc : c.doc.isValid = true) : Valid new := by
  cases h with
  | text | line | breakParent | skip => simp [Valid]
  | concat => exact List.forall_mem_map.2 (Doc.isValid_concat.1 hc)
  | indent | group => exact valid_cons.2 ⟨hc, by simp [Valid]⟩
  | fill h => exact forall_mem_front Doc.isValid_fill.2 (map_doc_fillFront h) (Doc.isValid_fill.1 hc)
  | ifBreak depth mode => exact valid_cons.2 ⟨valid_choose hc mode, by simp [Valid]⟩

/-- Where no value is stray, every command can be carried out. -/
theorem exists_step (page : Page) {p : Printed Text Int} {c : Command} {rest : List Command} (h : Valid (c :: rest)) :
    ∃ s', Step page ⟨p, c :: rest⟩ s' ∧ Valid s'.stack := by
  obtain ⟨hdoc, hrest⟩ := valid_cons.1 h
  have hstep : ∃ s', Step page ⟨p, c :: rest⟩ s' := by
    obtain ⟨depth, mode, doc⟩ := c
    cases doc with
    | text | concat | indent | breakParent => exact ⟨_, rfl⟩
    | group contents forced =>
        obtain ⟨measured, hfits⟩ := @exists_fits false (page.width - p.column) (⟨depth, .flat, contents⟩ :: rest)
          (valid_cons.2 ⟨by simpa using hdoc, hrest⟩)
        simp only [Step, next, hfits]
        split
        · exact ⟨_, rfl⟩
        · split <;> exact ⟨_, rfl⟩
    | fill parts =>
        obtain ⟨front, hfront, -⟩ :=
          exists_fillFront (page.width - p.column) depth mode (Doc.isValid_fill.1 hdoc)
        simp only [Step, next, hfront]
        exact ⟨_, rfl⟩
    | ifBreak broken flat =>
        simp only [Step, next]
        split <;> exact ⟨_, rfl⟩
    | line l =>
        simp only [Step, next]
        split <;> exact ⟨_, rfl⟩
    | stray value => simp at hdoc
  obtain ⟨s', hstep⟩ := hstep
  obtain ⟨new, hstack, hopens⟩ := hstep.opens
  exact ⟨s', hstep, hstack ▸ valid_append.2 ⟨hopens.valid hdoc, hrest⟩⟩

/-- From every stage without stray values printing comes to an end. -/
theorem exists_runs (page : Page) {s : Stage} (h : Valid s.stack) : ∃ q, Runs page s ⟨q, []⟩ := by
  induction hn : stackSize s.stack using Nat.strongRecOn generalizing s with
  | ind n ih =>
      obtain ⟨p, stack⟩ := s
      cases stack with
      | nil => exact ⟨p, .refl⟩
      | cons c rest =>
          obtain ⟨s', hstep, hvalid⟩ := @exists_step page p c rest h
          obtain ⟨q, hruns⟩ := ih _ (hn ▸ hstep.size_lt) hvalid rfl
          exact ⟨q, .head hstep hruns⟩

/-- On every page, printing a document without stray values goes from stage to stage to its end. -/
theorem exists_runs_start (page : Page) {doc : Doc} (h : doc.isValid = true) :
    ∃ q, Runs page (start doc) ⟨q, []⟩ ∧ page.render doc = .ok (q.text.withLineEnds page.lineEnd.image) := by
  have hvalid : Valid (start doc).stack := by
    intro c hc
    obtain rfl := List.mem_singleton.1 hc
    exact Doc.isValid_settled h
  obtain ⟨q, hruns⟩ := exists_runs page hvalid
  exact ⟨q, hruns, render_of_runs hruns⟩

end Stage

end XmlTidy
