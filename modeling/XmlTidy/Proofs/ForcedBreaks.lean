import Mathlib.Logic.Function.Basic
import XmlTidy.Proofs.Stages

/-!
Which groups have to break. Documents may share parts: a store keeps each part at an address, and a document is what
unfolds from an address. A walk over the store finds the groups that have to break, with a stack of addresses to
enter or to leave and a memo of those that were left, so that a shared part is looked at once. What it finds is exact:
a group is marked if and only if something that it reaches forces a break. Marking the unfolded document gives the
same marks, and printing keeps to them: at every stage, the contents of a marked group are printed in broken mode.
-/

namespace XmlTidy

/-! ### Stores -/

/-- One layer of a document, whose parts are told by their addresses. -/
inductive Cell (α : Type) where
  | text (t : Text)
  | concat (parts : List α)
  | group (contents : α) (forced : Bool)
  | fill (parts : List α)
  | indent (contents : α)
  | line (l : Line)
  | ifBreak (broken flat : α)
  | breakParent
  | stray (value : Stray)

namespace Cell

variable {α : Type}

def parts : Cell α → List α
  | .concat parts | .fill parts => parts
  | .group contents _ | .indent contents => [contents]
  | .ifBreak broken flat => [broken, flat]
  | .text _ | .line _ | .breakParent | .stray _ => []

def isText : Cell α → Bool
  | .text _ => true
  | _ => false

def isGroup : Cell α → Bool
  | .group _ _ => true
  | _ => false

/-- Whether a cell forces the groups around it to break, and itself if it is a group, without regard to its parts. -/
def isBreaker : Cell α → Bool
  | .breakParent => true
  | .group _ forced => forced
  | _ => false

/-- The document of a cell, given the documents of its parts and the mark of a group. -/
def doc (part : α → Doc) (mark : Bool → Bool) : Cell α → Doc
  | .text t => .text t
  | .concat parts => .concat (parts.map part)
  | .group contents forced => .group (part contents) (mark forced)
  | .fill parts => .fill (parts.map part)
  | .indent contents => .indent (part contents)
  | .line l => .line l
  | .ifBreak broken flat => .ifBreak (part broken) (part flat)
  | .breakParent => .breakParent
  | .stray value => .stray value

theorem exists_of_isText {cell : Cell α} (h : cell.isText = true) : ∃ t, cell = .text t := by
  cases cell with
  | text t => exact ⟨t, rfl⟩
  | _ => cases h

/-- The document of a cell depends on its parts, and on the mark if it is a group. -/
theorem doc_congr {cell : Cell α} {part part' : α → Doc} {mark mark' : Bool → Bool}
    (hparts : ∀ b ∈ cell.parts, part b = part' b) (hmark : cell.isGroup = true → mark = mark') :
    cell.doc part mark = cell.doc part' mark' := by
  cases cell with
  | concat parts | fill parts =>
      rw [doc, doc]
      exact congrArg _ (List.map_congr_left hparts)
  | group contents forced => rw [doc, doc, hparts contents (List.mem_singleton_self contents), hmark rfl]
  | indent contents => rw [doc, doc, hparts contents (List.mem_singleton_self contents)]
  | ifBreak broken flat =>
      rw [doc, doc, hparts broken List.mem_cons_self,
        hparts flat (List.mem_cons_of_mem broken (List.mem_singleton_self flat))]
  | text | line | breakParent | stray => rfl

theorem forces_doc (cell : Cell α) (part : α → Doc) :
    (cell.doc part id).forces = (cell.isBreaker || cell.parts.any fun b => (part b).forces) := by
  cases cell with
  | concat parts | fill parts =>
      simp only [doc, Doc.forces_concat, Doc.forces_fill, isBreaker, Cell.parts, List.any_map, Bool.false_or]
      rfl
  | group contents forced => simp [doc, isBreaker, parts, Bool.or_comm]
  | ifBreak broken flat => simp [doc, isBreaker, parts]
  | indent contents => simp [doc, isBreaker, parts]
  | text | line | breakParent | stray => rfl

/-- Marking a document marks its parts, and its group if it has to break. -/
theorem settled_doc (cell : Cell α) (part : α → Doc) :
    (cell.doc part id).settled = cell.doc (fun b => (part b).settled) fun _ => (cell.doc part id).forces := by
  cases cell with
  | concat parts =>
      rw [doc, Doc.settled_concat, List.map_map]
      rfl
  | fill parts =>
      rw [doc, Doc.settled_fill, List.map_map]
      rfl
  | group | ifBreak | indent | text | line | breakParent | stray => rfl

end Cell

/-- Parts of documents at addresses. A part is built before the documents that it is part of. -/
structure Store (α : Type) where
  cell : α → Cell α
  built : α → Nat
  built_lt {a b : α} : b ∈ (cell a).parts → built b < built a

namespace Store

variable {α : Type} (store : Store α)

/-- What unfolds from an address, with groups marked as `mark` says of the address and of how they were created. -/
def unfolded (mark : α → Bool → Bool) (a : α) : Doc :=
  match _h : store.cell a with
  | .text t => .text t
  | .concat parts => .concat (parts.attach.map fun b => unfolded mark b.1)
  | .group contents forced => .group (unfolded mark contents) (mark a forced)
  | .fill parts => .fill (parts.attach.map fun b => unfolded mark b.1)
  | .indent contents => .indent (unfolded mark contents)
  | .line l => .line l
  | .ifBreak broken flat => .ifBreak (unfolded mark broken) (unfolded mark flat)
  | .breakParent => .breakParent
  | .stray value => .stray value
termination_by store.built a
decreasing_by
  all_goals apply store.built_lt
  all_goals rw [_h, Cell.parts]
  · exact b.2
  · exact List.mem_singleton_self contents
  · exact b.2
  · exact List.mem_singleton_self contents
  · exact List.mem_cons_self
  · exact List.mem_cons_of_mem broken (List.mem_singleton_self flat)

/-- The document at an address, as it was created. -/
def doc (a : α) : Doc := store.unfolded (fun _ => id) a

theorem unfolded_eq (mark : α → Bool → Bool) (a : α) :
    store.unfolded mark a = (store.cell a).doc (store.unfolded mark) (mark a) := by
  rw [unfolded]
  split <;> simp_all [Cell.doc]

/-- An address is the other one or holds a part of it, or a part of a part, and so on. -/
def Reaches : α → α → Prop := Relation.ReflTransGen fun a b => b ∈ (store.cell a).parts

variable {store}

theorem induction {P : α → Prop} (h : ∀ a, (∀ b ∈ (store.cell a).parts, P b) → P a) (a : α) : P a := by
  induction hn : store.built a using Nat.strongRecOn generalizing a with
  | ind n ih =>
      apply h
      intro b hb
      exact ih _ (hn ▸ store.built_lt hb) b rfl

theorem Reaches.built_le {a b : α} (h : store.Reaches a b) : store.built b ≤ store.built a := by
  induction h with
  | refl => exact Nat.le_refl _
  | tail _ hpart ih => exact Nat.le_trans (Nat.le_of_lt (store.built_lt hpart)) ih

theorem forces_doc (a : α) :
    (store.doc a).forces = ((store.cell a).isBreaker || (store.cell a).parts.any fun b => (store.doc b).forces) := by
  rw [doc, unfolded_eq]
  exact Cell.forces_doc ..

/-- A document forces a break if and only if it reaches something that does so by itself. -/
theorem forces_iff {a : α} :
    (store.doc a).forces = true ↔ ∃ b, store.Reaches a b ∧ (store.cell b).isBreaker = true := by
  constructor
  · induction a using store.induction with
    | h a ih =>
        intro hforces
        rw [forces_doc, Bool.or_eq_true, List.any_eq_true] at hforces
        rcases hforces with hself | ⟨b, hb, hforces⟩
        · exact ⟨a, .refl, hself⟩
        · obtain ⟨c, hreaches, hc⟩ := ih b hb hforces
          exact ⟨c, .head hb hreaches, hc⟩
  · rintro ⟨b, hreaches, hb⟩
    induction hreaches using Relation.ReflTransGen.head_induction_on with
    | refl => rw [forces_doc, hb, Bool.true_or]
    | head hpart _ ih =>
        rw [forces_doc, Bool.or_eq_true, List.any_eq_true]
        exact .inr ⟨_, hpart, ih⟩

end Store

/-- The top layer of a document. -/
def Doc.layer : Doc → Cell Doc
  | .text t => .text t
  | .concat parts => .concat parts
  | .group contents forced => .group contents forced
  | .fill parts => .fill parts
  | .indent contents => .indent contents
  | .line l => .line l
  | .ifBreak broken flat => .ifBreak broken flat
  | .breakParent => .breakParent
  | .stray value => .stray value

theorem Doc.size_lt_of_mem {doc : Doc} {docs : List Doc} (h : doc ∈ docs) : doc.size < sizeAll docs := by
  induction docs with
  | nil => cases h
  | cons first docs ih =>
      rw [sizeAll]
      rcases List.mem_cons.1 h with rfl | h
      · omega
      · have := ih h
        omega

theorem Doc.size_lt_of_mem_parts {doc part : Doc} (h : part ∈ doc.layer.parts) : part.size < doc.size := by
  cases doc with
  | concat parts | fill parts =>
      have := Doc.size_lt_of_mem (show part ∈ parts from h)
      rw [Doc.size]
      omega
  | group contents _ | indent contents =>
      obtain rfl := List.mem_singleton.1 h
      rw [Doc.size]
      omega
  | ifBreak broken flat =>
      simp only [Doc.layer, Cell.parts, List.mem_cons, List.not_mem_nil, or_false] at h
      rw [Doc.size]
      rcases h with rfl | rfl <;> omega
  | text | line | breakParent | stray => cases h

/-- All documents, each of them at itself: equal parts are always shared. -/
def Store.ofDocs : Store Doc where
  cell := Doc.layer
  built := Doc.size
  built_lt := Doc.size_lt_of_mem_parts

/-- Every document is kept in a store. -/
theorem Store.doc_ofDocs (doc : Doc) : ofDocs.doc doc = doc := by
  induction doc using ofDocs.induction with
  | h doc ih =>
      have hlayer : (Doc.layer doc).doc id id = doc := by
        cases doc <;> simp [Doc.layer, Cell.doc]
      calc ofDocs.doc doc = (Doc.layer doc).doc ofDocs.doc id := ofDocs.unfolded_eq (fun _ => id) doc
        _ = (Doc.layer doc).doc id id := Cell.doc_congr ih fun _ => rfl
        _ = doc := hlayer

/-! ### The walk -/

/-- What a walk has found: of the addresses that it has left whether they force a break, and the groups that have to
break. -/
structure Found (α : Type) where
  forces : α → Option Bool
  broken : List α

/-- A walk over a store, with a stack of addresses and whether each of them is to be left or to be entered. -/
structure Walk (α : Type) where
  stack : List (α × Bool)
  found : Found α

namespace Found

variable {α : Type}

def empty : Found α := ⟨fun _ => none, []⟩

/-- Whether an address needs no visit: texts never do. -/
def Seen (store : Store α) (found : Found α) (a : α) : Prop :=
  (store.cell a).isText = true ∨ (found.forces a).isSome = true

/-- The mark of the group at an address. -/
def mark [DecidableEq α] (found : Found α) (a : α) (_ : Bool) : Bool := a ∈ found.broken

/-- Whether the cell at an address forces a break, told by what was found about its parts. -/
def forcesAt (store : Store α) (found : Found α) (a : α) : Bool :=
  (store.cell a).isBreaker ||
    (store.cell a).parts.any fun b => !(store.cell b).isText && (found.forces b).getD false

/-- What is found when an address is left. -/
def leave [DecidableEq α] (store : Store α) (found : Found α) (a : α) : Found α where
  forces := Function.update found.forces a (some (found.forcesAt store a))
  broken := if (store.cell a).isGroup && found.forcesAt store a then a :: found.broken else found.broken

section Leave

variable [DecidableEq α] (store : Store α) (found : Found α) (a : α)

theorem forces_leave_self : (found.leave store a).forces a = some (found.forcesAt store a) :=
  Function.update_self ..

theorem forces_leave_of_ne {b : α} (h : b ≠ a) : (found.leave store a).forces b = found.forces b :=
  Function.update_of_ne h ..

theorem mem_broken_leave {b : α} : b ∈ (found.leave store a).broken ↔
    b ∈ found.broken ∨ b = a ∧ (store.cell a).isGroup = true ∧ found.forcesAt store a = true := by
  rw [leave]
  by_cases hmarked : ((store.cell a).isGroup && found.forcesAt store a) = true
  · rw [if_pos hmarked, List.mem_cons, or_comm]
    rw [Bool.and_eq_true] at hmarked
    simp [hmarked]
  · rw [if_neg hmarked]
    rw [Bool.and_eq_true] at hmarked
    simp [hmarked]

end Leave

end Found

namespace Walk

variable {α : Type} [DecidableEq α]

def start (root : α) : Walk α := ⟨[(root, false)], .empty⟩

/-- One step of a walk. An address that is entered is left after all of its parts. -/
def next (store : Store α) : Walk α → Option (Walk α)
  | ⟨[], _⟩ => none
  | ⟨(a, leaving) :: rest, found⟩ =>
      if (store.cell a).isText || (found.forces a).isSome then some ⟨rest, found⟩
      else if leaving then some ⟨rest, found.leave store a⟩
      else some ⟨(store.cell a).parts.reverse.map (·, false) ++ (a, true) :: rest, found⟩

/-- Any number of steps. -/
abbrev Runs (store : Store α) : Walk α → Walk α → Prop :=
  Relation.ReflTransGen fun w w' => w.next store = some w'

end Walk

namespace Found

variable {α : Type} {store : Store α} {found found' found'' : Found α}

/-- What was found is true. -/
structure Right (store : Store α) (found : Found α) : Prop where
  forces : ∀ a forces, found.forces a = some forces → forces = (store.doc a).forces
  closed : ∀ a, (found.forces a).isSome = true → ∀ b ∈ (store.cell a).parts, found.Seen store b
  broken : ∀ a, a ∈ found.broken ↔ (store.cell a).isGroup = true ∧ found.forces a = some true

/-- What a visit to some addresses finds: they are seen afterwards, what was found before stays, and what is new is
reached from them. -/
structure Visited (store : Store α) (targets : List α) (found found' : Found α) : Prop where
  right : found'.Right store
  seen : ∀ a ∈ targets, found'.Seen store a
  keeps : ∀ a, (found.forces a).isSome = true → found'.forces a = found.forces a
  new : ∀ a, (found'.forces a).isSome = true → (found.forces a).isSome = true ∨ ∃ b ∈ targets, store.Reaches b a

theorem right_empty : Right store empty where
  forces := by simp [empty]
  closed := by simp [empty]
  broken := by simp [empty]

theorem Visited.nothing (h : found.Right store) : Visited store [] found found :=
  ⟨h, by simp, fun _ _ => rfl, fun _ ha => .inl ha⟩

theorem Visited.seen_of_seen {targets : List α} (h : Visited store targets found found') {a : α}
    (ha : found.Seen store a) : found'.Seen store a := by
  rcases ha with htext | hsome
  · exact .inl htext
  · refine .inr ?_
    rw [h.keeps a hsome]
    exact hsome

/-- Visits one after the other. -/
theorem Visited.append {s t : List α} (h : Visited store s found found') (h' : Visited store t found' found'') :
    Visited store (s ++ t) found found'' where
  right := h'.right
  seen := List.forall_mem_append.2 ⟨fun a ha => h'.seen_of_seen (h.seen a ha), h'.seen⟩
  keeps a ha := by
    have hkeeps := h.keeps a ha
    rw [h'.keeps a (by rw [hkeeps]; exact ha), hkeeps]
  new a ha := by
    rcases h'.new a ha with ha | ⟨b, hb, hreaches⟩
    · rcases h.new a ha with ha | ⟨b, hb, hreaches⟩
      · exact .inl ha
      · exact .inr ⟨b, List.mem_append_left t hb, hreaches⟩
    · exact .inr ⟨b, List.mem_append_right s hb, hreaches⟩

/-- A visit to addresses is a visit to those among them that reach all of them. -/
theorem Visited.of_reaches {s t : List α} (h : Visited store s found found') (ht : ∀ a ∈ t, a ∈ s)
    (hs : ∀ b ∈ s, ∃ a ∈ t, store.Reaches a b) : Visited store t found found' where
  right := h.right
  seen a ha := h.seen a (ht a ha)
  keeps := h.keeps
  new a ha := by
    rcases h.new a ha with ha | ⟨b, hb, hreaches⟩
    · exact .inl ha
    · obtain ⟨c, hc, hcb⟩ := hs b hb
      exact .inr ⟨c, hc, hcb.trans hreaches⟩

/-- Once the parts of an address are seen, it is known whether it forces a break. -/
theorem Right.forcesAt (h : found.Right store) {a : α} (hparts : ∀ b ∈ (store.cell a).parts, found.Seen store b) :
    found.forcesAt store a = (store.doc a).forces := by
  have hpart : ∀ b ∈ (store.cell a).parts,
      (!(store.cell b).isText && (found.forces b).getD false) = (store.doc b).forces := by
    intro b hb
    cases htext : (store.cell b).isText with
    | true =>
        obtain ⟨t, hcell⟩ := Cell.exists_of_isText htext
        rw [Store.forces_doc, hcell]
        rfl
    | false =>
        rcases hparts b hb with htext' | hsome
        · rw [htext] at htext'
          cases htext'
        · obtain ⟨forces, hforces⟩ := Option.isSome_iff_exists.1 hsome
          rw [hforces, h.forces b forces hforces]
          rfl
  rw [Found.forcesAt, Store.forces_doc]
  congr 1
  rw [Bool.eq_iff_iff, List.any_eq_true, List.any_eq_true]
  refine exists_congr fun b => and_congr_right fun hb => ?_
  rw [hpart b hb]

variable [DecidableEq α]

theorem Seen.leave {a b : α} (h : found.Seen store b) : (found.leave store a).Seen store b := by
  rcases h with htext | hsome
  · exact .inl htext
  · refine .inr ?_
    by_cases hb : b = a
    · rw [hb, forces_leave_self]
      rfl
    · rwa [forces_leave_of_ne _ _ _ hb]

/-- An address is left once its parts are seen. -/
theorem Right.leave (h : found.Right store) {a : α} (ha : found.forces a = none)
    (hparts : ∀ b ∈ (store.cell a).parts, found.Seen store b) : Visited store [a] found (found.leave store a) := by
  have hself : (found.leave store a).forces a = some (store.doc a).forces := by
    rw [forces_leave_self, h.forcesAt hparts]
  have hother : ∀ b, b ≠ a → (found.leave store a).forces b = found.forces b := fun b hb =>
    forces_leave_of_ne store found a hb
  refine ⟨⟨?_, ?_, ?_⟩, ?_, ?_, ?_⟩
  · intro b forces hforces
    by_cases hb : b = a
    · subst hb
      rw [hself] at hforces
      exact (Option.some.inj hforces).symm
    · rw [hother b hb] at hforces
      exact h.forces b forces hforces
  · intro b hsome c hc
    apply Seen.leave
    by_cases hb : b = a
    · subst hb
      exact hparts c hc
    · rw [hother b hb] at hsome
      exact h.closed b hsome c hc
  · intro b
    rw [mem_broken_leave, h.forcesAt hparts, h.broken]
    by_cases hb : b = a
    · subst hb
      simp [ha, hself]
    · simp [hb, hother b hb]
  · intro b hb
    obtain rfl := List.mem_singleton.1 hb
    exact .inr (by rw [hself]; rfl)
  · intro b hsome
    apply hother
    rintro rfl
    rw [ha] at hsome
    cases hsome
  · intro b hsome
    by_cases hb : b = a
    · exact .inr ⟨a, List.mem_singleton_self a, hb ▸ .refl⟩
    · rw [hother b hb] at hsome
      exact .inl hsome

end Found

namespace Walk

open Found

variable {α : Type} [DecidableEq α]

/-- A visit to an address ends, whatever else is on the stack. -/
def Visits (store : Store α) (targets : List α) : Prop :=
  ∀ (found : Found α) (rest : List (α × Bool)), found.Right store →
    ∃ found', Runs store ⟨targets.map (·, false) ++ rest, found⟩ ⟨rest, found'⟩ ∧ Visited store targets found found'

theorem visits_all {store : Store α} {targets : List α} (h : ∀ a ∈ targets, Visits store [a]) :
    Visits store targets := by
  induction targets with
  | nil => exact fun found rest hright => ⟨found, .refl, .nothing hright⟩
  | cons a targets ih =>
      intro found rest hright
      obtain ⟨ha, htargets⟩ := List.forall_mem_cons.1 h
      obtain ⟨found₁, hruns₁, hvisited₁⟩ := ha found (targets.map (·, false) ++ rest) hright
      obtain ⟨found₂, hruns₂, hvisited₂⟩ := ih htargets found₁ rest hvisited₁.right
      exact ⟨found₂, hruns₁.trans hruns₂, hvisited₁.append hvisited₂⟩

/-- The parts of an address are visited between entering and leaving it. None of them reaches it, so it is not yet known
when it is left. -/
theorem visits (store : Store α) (a : α) : Visits store [a] := by
  induction a using store.induction with
  | h a ih =>
      intro found rest hright
      by_cases hseen : ((store.cell a).isText || (found.forces a).isSome) = true
      · refine ⟨found, .single (if_pos hseen), hright, ?_, fun _ _ => rfl, fun _ ha => .inl ha⟩
        simpa [Seen] using hseen
      · have henter : Runs store ⟨(a, false) :: rest, found⟩
            ⟨(store.cell a).parts.reverse.map (·, false) ++ (a, true) :: rest, found⟩ :=
          .single (if_neg hseen)
        rw [Bool.or_eq_true, not_or, Bool.not_eq_true, Bool.not_eq_true, Option.isSome_eq_false_iff,
          Option.isNone_iff_eq_none] at hseen
        obtain ⟨htext, hnone⟩ := hseen
        obtain ⟨found₁, hparts, hvisited⟩ :=
          visits_all (fun b hb => ih b (List.mem_reverse.1 hb)) found ((a, true) :: rest) hright
        have hnone₁ : found₁.forces a = none := by
          rw [← Option.not_isSome_iff_eq_none]
          intro hsome
          rcases hvisited.new a hsome with hsome | ⟨b, hb, hreaches⟩
          · rw [hnone] at hsome
            cases hsome
          · have := hreaches.built_le
            have := store.built_lt (List.mem_reverse.1 hb)
            omega
        have hleave : Runs store ⟨(a, true) :: rest, found₁⟩ ⟨rest, found₁.leave store a⟩ := by
          apply Relation.ReflTransGen.single
          rw [next, htext, hnone₁]
          rfl
        have hleft := hvisited.right.leave hnone₁ fun b hb => hvisited.seen b (List.mem_reverse.2 hb)
        refine ⟨found₁.leave store a, henter.trans (hparts.trans hleave), (hvisited.append hleft).of_reaches ?_ ?_⟩
        · intro b hb
          exact List.mem_append_right _ hb
        · intro b hb
          refine ⟨a, List.mem_singleton_self a, ?_⟩
          rcases List.mem_append.1 hb with hb | hb
          · exact .single (List.mem_reverse.1 hb)
          · rw [List.mem_singleton.1 hb]
            exact .refl

end Walk

/-! ### What the walk finds -/

namespace Found

variable {α : Type} {store : Store α} {found : Found α} {root : α}

/-- All that the root reaches is seen. -/
theorem Visited.seen_of_reaches (h : Visited store [root] empty found) {a : α} (ha : store.Reaches root a) :
    found.Seen store a := by
  induction ha with
  | refl => exact h.seen root (List.mem_singleton_self root)
  | @tail b c _ hpart ih =>
      rcases ih with htext | hsome
      · obtain ⟨t, hcell⟩ := Cell.exists_of_isText htext
        rw [hcell] at hpart
        cases hpart
      · exact h.right.closed b hsome c hpart

/-- A group is marked if and only if the root reaches it and it reaches something that forces a break. -/
theorem Visited.mem_broken (h : Visited store [root] empty found) {a : α} :
    a ∈ found.broken ↔ store.Reaches root a ∧ (store.cell a).isGroup = true ∧
      ∃ b, store.Reaches a b ∧ (store.cell b).isBreaker = true := by
  rw [h.right.broken, ← Store.forces_iff]
  constructor
  · rintro ⟨hgroup, hforces⟩
    have hreaches : store.Reaches root a := by
      rcases h.new a (by rw [hforces]; rfl) with hsome | ⟨b, hb, hreaches⟩
      · cases hsome
      · rwa [List.mem_singleton.1 hb] at hreaches
    exact ⟨hreaches, hgroup, (h.right.forces a true hforces).symm⟩
  · rintro ⟨hreaches, hgroup, hforces⟩
    refine ⟨hgroup, ?_⟩
    rcases h.seen_of_reaches hreaches with htext | hsome
    · obtain ⟨t, hcell⟩ := Cell.exists_of_isText htext
      rw [hcell] at hgroup
      cases hgroup
    · obtain ⟨forces, hfound⟩ := Option.isSome_iff_exists.1 hsome
      rw [hfound, h.right.forces a forces hfound, hforces]

/-- The marks that were found are those of the unfolded document. -/
theorem Visited.settled_doc [DecidableEq α] (h : Visited store [root] empty found) {a : α}
    (ha : store.Reaches root a) : (store.doc a).settled = store.unfolded found.mark a := by
  induction a using store.induction with
  | h a ih =>
      have hdoc : store.doc a = (store.cell a).doc store.doc id := store.unfolded_eq (fun _ => id) a
      rw [hdoc, Cell.settled_doc, ← hdoc, store.unfolded_eq]
      apply Cell.doc_congr
      · intro b hb
        exact ih b hb (ha.tail hb)
      · intro hgroup
        funext forced
        rw [Bool.eq_iff_iff, Found.mark, decide_eq_true_iff, h.mem_broken, Store.forces_iff]
        simp [ha, hgroup]

end Found

/-! ### Printing keeps to the marks -/

/-- Documents that printing meets when it starts from an address: what unfolds from an address that it reaches, or the
rest of a fill. -/
inductive Store.Meets {α : Type} (store : Store α) (mark : α → Bool → Bool) (root : α) : Doc → Prop where
  | whole {a : α} (h : store.Reaches root a) : store.Meets mark root (store.unfolded mark a)
  | rest {a : α} {parts rest : List α} (h : store.Reaches root a) (hcell : store.cell a = .fill parts)
      (hrest : rest <:+ parts) : store.Meets mark root (.fill (rest.map (store.unfolded mark)))

/-- A group that is met is kept at an address, and is marked as that address is. -/
theorem Store.Meets.group {α : Type} {store : Store α} {mark : α → Bool → Bool} {root : α} {contents : Doc}
    {forced : Bool} (h : store.Meets mark root (.group contents forced)) :
    ∃ a b created, store.Reaches root a ∧ store.cell a = .group b created ∧ contents = store.unfolded mark b ∧
      forced = mark a created := by
  generalize hdoc : Doc.group contents forced = doc at h
  cases h with
  | @whole a ha =>
      rw [unfolded_eq] at hdoc
      cases hcell : store.cell a with
      | group b created =>
          rw [hcell] at hdoc
          cases hdoc
          exact ⟨a, b, created, ha, hcell, rfl, rfl⟩
      | _ => rw [hcell] at hdoc; cases hdoc
  | rest => cases hdoc

namespace Stage

open Store

variable {α : Type} {store : Store α} {mark : α → Bool → Bool} {root : α} {page : Page} {s s' : Stage}

/-- What a fill makes way for is a part of it or its rest. -/
theorem meets_fillDocs {a : α} {parts rest : List α} (h : store.Reaches root a) (hcell : store.cell a = .fill parts)
    (hrest : rest <:+ parts) : ∀ doc ∈ fillDocs (rest.map (store.unfolded mark)), store.Meets mark root doc := by
  have hpart : ∀ b ∈ rest, store.Meets mark root (store.unfolded mark b) := by
    intro b hb
    apply Meets.whole
    apply h.tail
    rw [hcell]
    exact hrest.subset hb
  match rest with
  | [] | [_] | [_, _] => exact List.forall_mem_map.2 hpart
  | content :: separator :: next :: tail =>
      simp only [List.forall_mem_cons] at hpart
      simp only [List.map_cons, fillDocs, List.forall_mem_cons]
      refine ⟨hpart.1, hpart.2.1, ?_, by simp⟩
      have hsuffix : next :: tail <:+ content :: separator :: next :: tail := ⟨[content, separator], rfl⟩
      exact .rest h hcell (hsuffix.trans hrest)

/-- What a command makes way for is met if the command is. -/
theorem Opens.meets {c : Command} {new : List Command} (h : Opens c new) (hc : store.Meets mark root c.doc) :
    ∀ d ∈ new, store.Meets mark root d.doc := by
  obtain ⟨depth, mode, doc⟩ := c
  change store.Meets mark root doc at hc
  have hfill : ∀ {remaining : Int} {a : α} {parts rest : List α}, store.Reaches root a →
      store.cell a = .fill parts → rest <:+ parts →
      fillFront remaining depth mode (rest.map (store.unfolded mark)) = .ok new →
      ∀ d ∈ new, store.Meets mark root d.doc := by
    intro remaining a parts rest ha hcell hrest hfront
    have hdocs := @meets_fillDocs _ _ mark _ _ _ _ ha hcell hrest
    rw [← map_doc_fillFront hfront] at hdocs
    exact List.forall_mem_map.1 hdocs
  cases hc with
  | @whole a ha =>
      have hpart : ∀ b ∈ (store.cell a).parts, store.Meets mark root (store.unfolded mark b) := fun b hb =>
        .whole (ha.tail hb)
      rw [unfolded_eq] at h
      cases hcell : store.cell a with
      | text | line | breakParent =>
          rw [hcell] at h
          cases h
          simp
      | concat parts =>
          rw [hcell] at h hpart
          cases h
          rw [List.forall_mem_map, List.forall_mem_map]
          exact hpart
      | group contents forced | indent contents =>
          rw [hcell] at h hpart
          cases h
          simpa using hpart contents (List.mem_singleton_self contents)
      | fill parts =>
          rw [hcell] at h
          cases h with
          | fill hfront => exact hfill ha hcell List.suffix_rfl hfront
      | ifBreak broken flat =>
          rw [hcell] at h hpart
          cases h with
          | skip => simp
          | ifBreak =>
              have hflat : flat ∈ (Cell.ifBreak broken flat).parts :=
                List.mem_cons_of_mem broken (List.mem_singleton_self flat)
              cases mode with
              | broken => simpa [Mode.choose] using hpart broken List.mem_cons_self
              | flat => simpa [Mode.choose] using hpart flat hflat
      | stray value =>
          rw [hcell] at h
          cases h
  | @rest a parts rest ha hcell hrest =>
      cases h with
      | fill hfront => exact hfill ha hcell hrest hfront

/-- Stages of documents that printing meets. -/
def Meets (store : Store α) (mark : α → Bool → Bool) (root : α) (s : Stage) : Prop :=
  ∀ c ∈ s.stack, store.Meets mark root c.doc

theorem Meets.step (hs : s.Meets store mark root) (h : Step page s s') : s'.Meets store mark root := by
  obtain ⟨p, stack⟩ := s
  cases stack with
  | nil => cases h
  | cons c rest =>
      obtain ⟨hc, hrest⟩ := List.forall_mem_cons.1 hs
      obtain ⟨new, hstack, hopens⟩ := h.opens
      rw [Meets, hstack]
      exact List.forall_mem_append.2 ⟨hopens.meets hc, hrest⟩

theorem Meets.runs (hs : s.Meets store mark root) (h : Runs page s s') : s'.Meets store mark root := by
  induction h with
  | refl => exact hs
  | tail _ hstep ih => exact ih.step hstep

/-- In whatever mode a marked group stands, the next stage has its contents in broken mode. -/
theorem step_marked (page : Page) (p : Printed Text Int) (depth : Nat) (mode : Mode) (contents : Doc)
    (rest : List Command) :
    ∃ q, Step page ⟨p, ⟨depth, mode, .group contents true⟩ :: rest⟩ ⟨q, ⟨depth, .broken, contents⟩ :: rest⟩ := by
  by_cases hflat : (mode = .flat && !p.remeasure) = true
  · refine ⟨p, ?_⟩
    rw [Step, next, if_pos hflat, if_pos rfl]
  · refine ⟨{ p with remeasure := false }, ?_⟩
    rw [Step, next, if_neg hflat, if_pos rfl]

end Stage

/-- Every document is kept in a store, and over every store the walk comes to an end. It marks exactly the groups that
reach a `breakParent` or a group that was created to break, be it themselves; so a group that reaches a marked one is
marked. The document that unfolds is marked in the same way, however often a part of it is shared. And at every stage of
printing it, on every page, a group that comes next is one of the store, with its mark, and if it is marked its contents
are printed in broken mode. -/
theorem Store.walk_marks :
    (∀ doc : Doc, ofDocs.doc doc = doc) ∧
    ∀ {α : Type} [DecidableEq α] (store : Store α) (root : α),
      ∃ found : Found α, Walk.Runs store (Walk.start root) ⟨[], found⟩ ∧
        (∀ a, a ∈ found.broken ↔ store.Reaches root a ∧ (store.cell a).isGroup = true ∧
          ∃ b, store.Reaches a b ∧ (store.cell b).isBreaker = true) ∧
        (∀ a b, store.Reaches root a → (store.cell a).isGroup = true → store.Reaches a b → b ∈ found.broken →
          a ∈ found.broken) ∧
        (store.doc root).settled = store.unfolded found.mark root ∧
        ∀ (page : Page) (s : Stage), Stage.Runs page (.start (store.doc root)) s →
          ∀ depth mode contents forced rest, s.stack = ⟨depth, mode, .group contents forced⟩ :: rest →
            ∃ a b created, store.Reaches root a ∧ store.cell a = .group b created ∧
              contents = store.unfolded found.mark b ∧ (forced = true ↔ a ∈ found.broken) ∧
              (a ∈ found.broken → ∃ p, Stage.Step page s ⟨p, ⟨depth, .broken, contents⟩ :: rest⟩) := by
  refine ⟨doc_ofDocs, ?_⟩
  intro α _ store root
  obtain ⟨found, hruns, hvisited⟩ := Walk.visits store root .empty [] Found.right_empty
  have hsettled := hvisited.settled_doc .refl
  refine ⟨found, hruns, fun a => hvisited.mem_broken, ?_, hsettled, ?_⟩
  · intro a b ha hgroup hreaches hb
    obtain ⟨-, -, c, hc, hbreaker⟩ := hvisited.mem_broken.1 hb
    exact hvisited.mem_broken.2 ⟨ha, hgroup, c, hreaches.trans hc, hbreaker⟩
  · intro page s hs depth mode contents forced rest hstack
    have hstart : (Stage.start (store.doc root)).Meets store found.mark root := by
      intro c hc
      obtain rfl := List.mem_singleton.1 hc
      show store.Meets found.mark root (store.doc root).settled
      rw [hsettled]
      exact .whole .refl
    have hgroup := hstart.runs hs ⟨depth, mode, .group contents forced⟩ (by rw [hstack]; exact List.mem_cons_self)
    obtain ⟨a, b, created, ha, hcell, hcontents, hforced⟩ := hgroup.group
    have hmark : forced = true ↔ a ∈ found.broken := by rw [hforced, Found.mark, decide_eq_true_iff]
    refine ⟨a, b, created, ha, hcell, hcontents, hmark, ?_⟩
    intro hbroken
    obtain ⟨p, stack⟩ := s
    obtain rfl : stack = _ := hstack
    rw [hmark.2 hbroken]
    exact Stage.step_marked page p depth mode contents rest

end XmlTidy
