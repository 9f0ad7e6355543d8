import Mathlib.Data.List.Basic
import XmlTidy.Proofs.Stages

/-!
A stray value is found whatever the page. Printing fails on a value that is no document when it gets there, and
measuring, which runs ahead, may get there first. Both go from left to right, and measuring only looks at what is still
to be printed: so it is always the first stray value that is named, and how far measuring went does not matter. An
`ifBreak` is left out, since a stray value in the branch that is not taken is not found.
-/

namespace XmlTidy

namespace Doc

mutual
/-- The stray values of a document, from left to right. -/
def strays : Doc → List Stray
  | .concat parts | .fill parts => straysAll parts
  | .indent contents | .group contents _ => strays contents
  | .ifBreak broken flat => strays broken ++ strays flat
  | .text _ | .line _ | .breakParent => []
  | .stray value => [value]

def straysAll : List Doc → List Stray
  | [] => []
  | doc :: docs => strays doc ++ straysAll docs
end

mutual
/-- Whether a document holds no `ifBreak`. -/
def isUnconditional : Doc → Bool
  | .concat parts | .fill parts => allUnconditional parts
  | .indent contents | .group contents _ => isUnconditional contents
  | .ifBreak _ _ => false
  | .text _ | .line _ | .breakParent | .stray _ => true

def allUnconditional : List Doc → Bool
  | [] => true
  | doc :: docs => isUnconditional doc && allUnconditional docs
end

theorem straysAll_eq (docs : List Doc) : straysAll docs = docs.flatMap strays := by
  induction docs with
  | nil => rfl
  | cons doc docs ih => rw [straysAll, ih, List.flatMap_cons]

theorem allUnconditional_iff {docs : List Doc} :
    allUnconditional docs = true ↔ ∀ doc ∈ docs, doc.isUnconditional = true := by
  induction docs with
  | nil => simp [allUnconditional]
  | cons doc docs ih => simp [allUnconditional, ih]

theorem isUnconditional_fill {parts : List Doc} :
    (fill parts).isUnconditional = true ↔ ∀ doc ∈ parts, doc.isUnconditional = true := allUnconditional_iff

mutual
/-- Marking the groups that have to break keeps the stray values. -/
theorem strays_settled (doc : Doc) : doc.settled.strays = doc.strays := by
  cases doc with
  | concat parts =>
      rw [settled_concat, strays, strays]
      exact straysAll_settled parts
  | fill parts =>
      rw [settled_fill, strays, strays]
      exact straysAll_settled parts
  | indent contents =>
      rw [settled_indent, strays, strays]
      exact strays_settled contents
  | group contents forced =>
      rw [settled_group, strays, strays]
      exact strays_settled contents
  | ifBreak broken flat =>
      rw [settled_ifBreak, strays, strays, strays_settled broken, strays_settled flat]
  | text | line | breakParent | stray => rfl

theorem straysAll_settled (docs : List Doc) : straysAll (docs.map settled) = straysAll docs := by
  cases docs with
  | nil => rfl
  | cons doc docs => rw [List.map_cons, straysAll, straysAll, strays_settled doc, straysAll_settled docs]
end

mutual
theorem isUnconditional_settled {doc : Doc} (h : doc.isUnconditional = true) :
    doc.settled.isUnconditional = true := by
  cases doc with
  | concat parts =>
      rw [isUnconditional] at h
      rw [settled_concat, isUnconditional]
      exact allUnconditional_settled h
  | fill parts =>
      rw [isUnconditional] at h
      rw [settled_fill, isUnconditional]
      exact allUnconditional_settled h
  | indent contents =>
      rw [isUnconditional] at h
      rw [settled_indent, isUnconditional]
      exact isUnconditional_settled h
  | group contents forced =>
      rw [isUnconditional] at h
      rw [settled_group, isUnconditional]
      exact isUnconditional_settled h
  | ifBreak => cases h
  | text | line | breakParent | stray => rfl

theorem allUnconditional_settled {docs : List Doc} (h : allUnconditional docs = true) :
    allUnconditional (docs.map settled) = true := by
  cases docs with
  | nil => rfl
  | cons doc docs =>
      rw [allUnconditional, Bool.and_eq_true] at h
      rw [List.map_cons, allUnconditional, isUnconditional_settled h.1, allUnconditional_settled h.2]
      rfl
end

mutual
/-- Measuring meets the stray values of a document in their order. -/
theorem filterMap_sights {doc : Doc} (h : doc.isUnconditional = true) (mode : Mode) :
    (doc.sights mode).filterMap Sight.stray? = doc.strays := by
  cases doc with
  | concat parts | fill parts =>
      rw [isUnconditional] at h
      rw [sights, strays]
      exact filterMap_sightsAll h mode
  | indent contents =>
      rw [isUnconditional] at h
      rw [sights, strays]
      exact filterMap_sights h mode
  | group contents forced =>
      rw [isUnconditional] at h
      rw [sights, strays]
      split
      · rw [List.filterMap_cons_none rfl]
        exact filterMap_sights h .broken
      · exact filterMap_sights h mode
  | ifBreak => cases h
  | line l =>
      rw [sights, strays]
      split
      · rfl
      · split <;> rfl
  | text | breakParent | stray =>
      rw [sights, strays]
      rfl

theorem filterMap_sightsAll {docs : List Doc} (h : allUnconditional docs = true) (mode : Mode) :
    (sightsAll mode docs).filterMap Sight.stray? = straysAll docs := by
  cases docs with
  | nil => rfl
  | cons doc docs =>
      rw [allUnconditional, Bool.and_eq_true] at h
      rw [sightsAll, straysAll, List.filterMap_append, filterMap_sights h.1, filterMap_sightsAll h.2]
end

end Doc

namespace Command

/-- The stray values of a stack, from the top down. -/
def strays (stack : List Command) : List Stray := stack.flatMap fun c => c.doc.strays

def Unconditional (stack : List Command) : Prop := ∀ c ∈ stack, c.doc.isUnconditional = true

theorem strays_cons (c : Command) (stack : List Command) : strays (c :: stack) = c.doc.strays ++ strays stack :=
  List.flatMap_cons

theorem strays_append (s t : List Command) : strays (s ++ t) = strays s ++ strays t := List.flatMap_append

theorem strays_map (depth : Nat) (mode : Mode) (docs : List Doc) :
    strays (docs.map (⟨depth, mode, ·⟩)) = Doc.straysAll docs := by
  rw [strays, List.flatMap_map, Doc.straysAll_eq]

theorem unconditional_map (depth : Nat) (mode : Mode) {docs : List Doc}
    (h : ∀ doc ∈ docs, doc.isUnconditional = true) : Unconditional (docs.map (⟨depth, mode, ·⟩)) :=
  List.forall_mem_map.2 h

end Command

open Command Doc

/-- Measuring fails only on the first stray value. -/
theorem head?_of_fits_error {must : Bool} {width : Int} {stack : List Command} {value : Stray}
    (hstack : Unconditional stack) (h : fits must width stack = .error value) :
    (strays stack).head? = some value := by
  have hsights : (Command.sights stack).filterMap Sight.stray? = Command.strays stack := by
    rw [Command.sights, List.filterMap_flatMap, Command.strays]
    exact List.flatMap_congr fun c hc => filterMap_sights (hstack c hc) c.mode
  rw [fits_eq_scan] at h
  rw [← hsights]
  exact Sight.head?_of_scan_error h

theorem head?_append_of_head? {α : Type} {a : α} {s : List α} (t : List α) (h : s.head? = some a) :
    (s ++ t).head? = some a := by
  rw [List.head?_append, h]
  rfl

/-- A fill has no front only because of the first stray value. What is measured is always a number of parts from the
front. -/
theorem head?_of_fillFront_error {remaining : Int} {depth : Nat} {mode : Mode} {parts : List Doc} {value : Stray}
    (hparts : ∀ doc ∈ parts, doc.isUnconditional = true)
    (h : fillFront remaining depth mode parts = .error value) : (straysAll parts).head? = some value := by
  have hfits : ∀ docs rest, parts = docs ++ rest →
      fits true remaining (docs.map (⟨depth, .flat, ·⟩)) = .error value → (straysAll parts).head? = some value := by
    intro docs rest heq hfits
    have hdocs : ∀ doc ∈ docs, doc.isUnconditional = true := by
      intro doc hdoc
      apply hparts
      rw [heq]
      exact List.mem_append_left rest hdoc
    have hfirst := head?_of_fits_error (unconditional_map depth .flat hdocs) hfits
    rw [strays_map] at hfirst
    rw [heq, straysAll_eq, List.flatMap_append, ← straysAll_eq]
    exact head?_append_of_head? _ hfirst
  unfold fillFront at h
  split at h
  · cases h
  · next content =>
      split at h
      · next e he =>
          cases h
          exact hfits [content] [] rfl he
      · cases h
  · next content separator =>
      split at h
      · next e he =>
          cases h
          exact hfits [content] [separator] rfl he
      · cases h
  · next content separator next rest =>
      split at h
      · next e he =>
          cases h
          exact hfits [content] (separator :: next :: rest) rfl he
      · split at h
        · next e he =>
            cases h
            exact hfits [content, separator, next] rest rfl he
        · cases h

theorem straysAll_fillDocs (parts : List Doc) : straysAll (fillDocs parts) = straysAll parts := by
  unfold fillDocs
  split
  · simp [straysAll, Doc.strays]
  · rfl

namespace Stage

variable {page : Page} {s s' : Stage}

/-- A step that fails names the first stray value. -/
theorem head?_of_next_error {fault : RenderFault} (hs : Unconditional s.stack) (h : s.next page = .error fault) :
    ∃ value, (strays s.stack).head? = some value ∧ fault = .stray value := by
  obtain ⟨p, stack⟩ := s
  cases stack with
  | nil => cases h
  | cons c rest =>
      obtain ⟨depth, mode, doc⟩ := c
      obtain ⟨hdoc, hrest⟩ := List.forall_mem_cons.1 hs
      rw [strays_cons]
      cases doc with
      | text | concat | indent | breakParent => cases h
      | group contents forced =>
          simp only [next] at h
          split at h
          · cases h
          · split at h
            · cases h
            · split at h
              · next value hfits =>
                  cases h
                  have hstack : Unconditional (⟨depth, .flat, contents⟩ :: rest) :=
                    List.forall_mem_cons.2 ⟨hdoc, hrest⟩
                  exact ⟨value, head?_of_fits_error hstack hfits, rfl⟩
              · cases h
      | fill parts =>
          simp only [next] at h
          split at h
          · next value hfront =>
              cases h
              have hfirst := head?_of_fillFront_error (isUnconditional_fill.1 hdoc) hfront
              exact ⟨value, head?_append_of_head? _ hfirst, rfl⟩
          · cases h
      | ifBreak => cases hdoc
      | line l =>
          simp only [next] at h
          split at h <;> cases h
      | stray value =>
          cases h
          exact ⟨value, rfl, rfl⟩

/-- What a command makes way for has the same stray values. -/
theorem Opens.strays {c : Command} {new : List Command} (h : Opens c new) (hc : c.doc.isUnconditional = true) :
    Unconditional new ∧ Command.strays new = c.doc.strays := by
  cases h with
  | text | line | breakParent => exact ⟨by simp [Unconditional], rfl⟩
  | concat depth mode parts =>
      rw [isUnconditional, allUnconditional_iff] at hc
      exact ⟨unconditional_map depth mode hc, strays_map depth mode parts⟩
  | indent | group =>
      rw [isUnconditional] at hc
      exact ⟨by simpa [Unconditional] using hc, List.append_nil _⟩
  | @fill _ _ parts _ _ h =>
      have hdocs := map_doc_fillFront h
      refine ⟨forall_mem_front isUnconditional_fill.2 hdocs (isUnconditional_fill.1 hc), ?_⟩
      calc Command.strays new = straysAll (new.map (·.doc)) := by
            rw [straysAll_eq, List.flatMap_map, Command.strays]
        _ = straysAll parts := by rw [hdocs, straysAll_fillDocs]
  | skip | ifBreak => cases hc

/-- A step that does not fail keeps the stray values. -/
theorem Step.strays (hs : Unconditional s.stack) (h : Step page s s') :
    Unconditional s'.stack ∧ Command.strays s'.stack = Command.strays s.stack := by
  obtain ⟨p, stack⟩ := s
  cases stack with
  | nil => cases h
  | cons c rest =>
      obtain ⟨hc, hrest⟩ := List.forall_mem_cons.1 hs
      obtain ⟨new, hstack, hopens⟩ := h.opens
      obtain ⟨hnew, hstrays⟩ := hopens.strays hc
      rw [hstack, strays_append, strays_cons, hstrays]
      exact ⟨List.forall_mem_append.2 ⟨hnew, hrest⟩, rfl⟩

/-- Printing a stack fails only on the first stray value, and does not get past one. -/
theorem printStack_strays (page : Page) (hs : Unconditional s.stack) :
    (∀ q, printStack page.ruler s.printed s.stack = .ok q → Command.strays s.stack = []) ∧
      ∀ fault, printStack page.ruler s.printed s.stack = .error fault →
        ∃ value, (Command.strays s.stack).head? = some value ∧ fault = .stray value := by
  induction hn : stackSize s.stack using Nat.strongRecOn generalizing s with
  | ind n ih =>
      rw [printStack_eq]
      cases hnext : s.next page with
      | error fault =>
          refine ⟨by simp, ?_⟩
          rintro _ ⟨⟩
          exact head?_of_next_error hs hnext
      | ok stage =>
          cases stage with
          | none =>
              refine ⟨fun _ _ => ?_, by simp⟩
              rw [stack_of_next_none hnext]
              rfl
          | some s' =>
              have hstep : Step page s s' := hnext
              obtain ⟨hs', hstrays⟩ := hstep.strays hs
              have hrest := ih _ (hn ▸ hstep.size_lt) hs' rfl
              rwa [hstrays] at hrest

end Stage

/-- What is said of a fault that a stray value is the cause of. -/
def RenderFault.strayMessage? : RenderFault → Option String
  | .stray value => some (invalidDocMessage value.typeName)
  | .immeasurable => none

/-- A document without `ifBreak` cannot be printed if and only if it holds a stray value. The fault is the first stray
value, and the message names its type, on every page. -/
theorem Page.render_strays {doc : Doc} (h : doc.isUnconditional = true) (page : Page) :
    ((∃ fault, page.render doc = .error fault) ↔ doc.strays ≠ []) ∧
      (∀ fault, page.render doc = .error fault →
        ∃ value, doc.strays.head? = some value ∧ fault = .stray value ∧
          fault.strayMessage? = some (invalidDocMessage value.typeName)) ∧
      ∀ (page' : Page) (fault : RenderFault), page.render doc = .error fault ↔ page'.render doc = .error fault := by
  have hstart : Unconditional (Stage.start doc).stack := by
    simpa [Stage.start, Unconditional] using isUnconditional_settled h
  have hstrays : Command.strays (Stage.start doc).stack = doc.strays := by
    simp [Stage.start, Command.strays, strays_settled]
  -- what a page does with the document is told by its first stray value alone
  have herror : ∀ (page : Page) (fault : RenderFault),
      page.render doc = .error fault ↔ ∃ value, doc.strays.head? = some value ∧ fault = .stray value := by
    intro page fault
    obtain ⟨hok, hfail⟩ := Stage.printStack_strays page hstart
    rw [hstrays] at hok hfail
    rw [Page.render, Ruler.print_eq]
    cases hprint : printStack page.ruler (.empty : Printed Text Int) [⟨0, .broken, doc.settled⟩] with
    | error fault' =>
        obtain ⟨value, hvalue, rfl⟩ := hfail fault' hprint
        simp [Except.map, hvalue, eq_comm]
    | ok q => simp [Except.map, hok q hprint]
  refine ⟨?_, ?_, ?_⟩
  · simp only [herror page, ne_eq, ← List.head?_eq_none_iff, Option.eq_none_iff_forall_ne_some, not_forall, not_not]
    constructor
    · rintro ⟨_, value, hvalue, -⟩
      exact ⟨value, hvalue⟩
    · rintro ⟨value, hvalue⟩
      exact ⟨.stray value, value, hvalue, rfl⟩
  · intro fault hfault
    obtain ⟨value, hvalue, rfl⟩ := (herror page fault).1 hfault
    exact ⟨value, hvalue, rfl, rfl⟩
  · intro page' fault
    rw [herror page, herror page']

/-- A set among the words of a fill, and a null behind the group that holds them. -/
def Doc.mislaid : Doc :=
  .concat [.grouped (.concat [.text ['a'], .spaceLine, .fill [.text ['b'], .softLine, .stray (.other "set" false)]]),
    .stray (.scalar .null)]

/-- It is the set that is named on every page, whether measuring or printing gets there first. -/
theorem Page.render_strays_mislaid :
    Doc.mislaid.isUnconditional = true ∧ Doc.mislaid.strays = [.other "set" false, .scalar .null] ∧
      ∀ page : Page, page.render .mislaid = .error (.stray (.other "set" false)) ∧
        (RenderFault.stray (.other "set" false)).strayMessage? = some "Unexpected layout document type: set" := by
  have hmislaid : Doc.mislaid.isUnconditional = true := by decide +kernel
  have hstrays : Doc.mislaid.strays = [.other "set" false, .scalar .null] := by decide +kernel
  refine ⟨hmislaid, hstrays, fun page => ?_⟩
  obtain ⟨hfails, hnames, -⟩ := Page.render_strays hmislaid page
  obtain ⟨fault, hfault⟩ := hfails.2 (by simp [hstrays])
  obtain ⟨value, hvalue, rfl, hmessage⟩ := hnames fault hfault
  obtain rfl : Stray.other "set" false = value := by simpa [hstrays] using hvalue
  exact ⟨hfault, hmessage⟩

end XmlTidy
