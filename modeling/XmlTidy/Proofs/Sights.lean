import XmlTidy.Proofs.Chunks

/-!
What measuring meets. A document in a mode is spread out into sights: the columns that its texts and unbroken
lines take up, the groups that have to break, the line breaks, and the stray values. Measuring a stack is then one
scan over the sights of its commands, which ends at a line break, at a stray value or where the columns are used
up. So what measuring answers depends on the sights alone, and not on how documents are put together.
-/

namespace XmlTidy

/-- What measuring meets in a document. -/
inductive Sight where
  | columns (n : Nat)
  | forcedGroup
  | lineBreak
  | stray (value : Stray)
deriving DecidableEq, Repr

namespace Sight

/-- The columns that a sight takes up. -/
def width : Sight → Nat
  | .columns n => n
  | .forcedGroup | .lineBreak | .stray _ => 0

def stray? : Sight → Option Stray
  | .stray value => some value
  | .columns _ | .forcedGroup | .lineBreak => none

/-- The sights in front of the first line break. -/
def firstLine (sights : List Sight) : List Sight := sights.takeWhile (· != .lineBreak)

/-- The columns that all of the sights take up. -/
def total : List Sight → Nat
  | [] => 0
  | sight :: line => sight.width + total line

end Sight

namespace Doc

mutual
/-- What measuring meets in a document in a mode, from left to right. A group that has to break shows itself in front
of its contents, which are in broken mode. -/
def sights (mode : Mode) : Doc → List Sight
  | .text t => [.columns t.width]
  | .concat parts | .fill parts => sightsAll mode parts
  | .indent contents => sights mode contents
  | .group contents forced => if forced then .forcedGroup :: sights .broken contents else sights mode contents
  | .ifBreak broken flat =>
      match mode with
      | .broken => if broken.isVoid then [] else sights .broken broken
      | .flat => if flat.isVoid then [] else sights .flat flat
  | .line l => if mode = .broken || l.hard then [.lineBreak] else if l.soft then [] else [.columns 1]
  | .breakParent => []
  | .stray value => [.stray value]

def sightsAll (mode : Mode) : List Doc → List Sight
  | [] => []
  | doc :: docs => sights mode doc ++ sightsAll mode docs
end

theorem sightsAll_eq (mode : Mode) (docs : List Doc) : sightsAll mode docs = docs.flatMap (sights mode) := by
  induction docs with
  | nil => rfl
  | cons doc docs ih => rw [sightsAll, ih, List.flatMap_cons]

theorem sights_ifBreak (mode : Mode) (broken flat : Doc) :
    (ifBreak broken flat).sights mode =
      if (mode.choose broken flat).isVoid then [] else (mode.choose broken flat).sights mode := by
  cases mode with
  | broken => rw [sights]; rfl
  | flat => rw [sights]; rfl

end Doc

namespace Command

/-- What measuring meets in a stack, each command in its own mode. -/
def sights (stack : List Command) : List Sight := stack.flatMap fun c => c.doc.sights c.mode

theorem sights_cons (c : Command) (stack : List Command) :
    sights (c :: stack) = c.doc.sights c.mode ++ sights stack := List.flatMap_cons

theorem sights_append (s t : List Command) : sights (s ++ t) = sights s ++ sights t := List.flatMap_append

theorem sights_push (depth : Nat) (mode : Mode) (parts : List Doc) (stack : List Command) :
    sights (push depth mode parts stack) = Doc.sightsAll mode parts ++ sights stack := by
  rw [push, sights_append, Doc.sightsAll_eq, sights, List.flatMap_map]

end Command

/-! ### Scanning -/

namespace Sight

/-- Goes through sights until the answer is known: whether there is room for all of them up to the first line
break. -/
def scan (must : Bool) (width : Int) : List Sight → Except Stray Bool
  | [] => .ok (decide (0 ≤ width))
  | .columns n :: rest => if 0 ≤ width then scan must (width - n) rest else .ok false
  | .forcedGroup :: rest => if 0 ≤ width ∧ must = false then scan must width rest else .ok false
  | .lineBreak :: _ => .ok (decide (0 ≤ width))
  | .stray value :: _ => if 0 ≤ width then .error value else .ok false

theorem scan_of_neg (must : Bool) {width : Int} (h : width < 0) (sights : List Sight) :
    scan must width sights = .ok false := by
  have hw : ¬ 0 ≤ width := by omega
  fun_cases scan must width sights with
  | case1 | case6 => rw [decide_eq_false hw]
  | case2 _ _ h | case7 _ _ h => exact absurd h hw
  | case4 _ h => exact absurd h.1 hw
  | case3 | case5 | case8 => rfl

end Sight

open Command Sight

/-- Measuring a stack is a scan over its sights. -/
theorem fits_eq_scan (must : Bool) (width : Int) (stack : List Command) :
    fits must width stack = scan must width (sights stack) := by
  fun_induction fits must width stack with
  | case1 width hw => rw [sights, List.flatMap_nil, scan, decide_eq_true hw]
  | case2 width hw depth mode rest t ih =>
      rw [ih, sights_cons, Doc.sights, List.singleton_append, scan, if_pos hw]
  | case3 width hw depth mode rest parts ih | case4 width hw depth mode rest parts ih =>
      rw [ih, sights_push, sights_cons, Doc.sights]
  | case5 width hw depth mode rest contents ih => rw [ih, sights_cons, sights_cons, Doc.sights]
  | case6 width hw depth mode rest contents forced hforced =>
      obtain ⟨rfl, rfl⟩ := Bool.and_eq_true_iff.1 hforced
      rw [sights_cons, Doc.sights, if_pos rfl, List.cons_append, scan, if_neg (by simp)]
  | case7 width hw depth mode rest contents forced hforced ih =>
      refine ih.trans ?_
      rw [sights_cons, sights_cons, Doc.sights]
      cases forced with
      | false => rfl
      | true =>
          have hmust : must = false := by simpa using hforced
          rw [if_pos rfl, List.cons_append, scan, if_pos ⟨hw, hmust⟩]
          rfl
  | case8 width hw depth mode rest broken flat chosen hvoid ih =>
      rw [ih, sights_cons, Doc.sights_ifBreak, if_pos hvoid, List.nil_append]
  | case9 width hw depth mode rest broken flat chosen hvoid ih =>
      rw [ih, sights_cons, sights_cons, Doc.sights_ifBreak, if_neg hvoid]
  | case10 width hw depth mode rest l hbreak =>
      rw [sights_cons, Doc.sights, if_pos hbreak, List.singleton_append, scan, decide_eq_true hw]
  | case11 width hw depth mode rest l hbreak ih =>
      refine ih.trans ?_
      rw [sights_cons, Doc.sights, if_neg hbreak]
      by_cases hsoft : l.soft = true
      · rw [dif_pos hsoft, if_pos hsoft, List.nil_append]
      · rw [dif_neg hsoft, if_neg hsoft, List.singleton_append, scan, if_pos hw]
  | case12 width hw depth mode rest ih => rw [ih, sights_cons, Doc.sights, List.nil_append]
  | case13 width hw depth mode rest value =>
      rw [sights_cons, Doc.sights, List.singleton_append, scan, if_pos hw]
  | case14 width stack hw => exact (scan_of_neg must (by omega) _).symm

/-! ### What a scan answers -/

namespace Sight

/-- There is room for what a line holds. With `must`, nothing on it has to break. -/
def Roomy (must : Bool) (width : Int) (line : List Sight) : Prop :=
  0 ≤ width ∧ total line ≤ width ∧ (must = true → .forcedGroup ∉ line)

instance (must : Bool) (width : Int) (line : List Sight) : Decidable (Roomy must width line) :=
  inferInstanceAs (Decidable (_ ∧ _ ∧ _))

theorem total_append (s t : List Sight) : total (s ++ t) = total s + total t := by
  induction s with
  | nil => rw [List.nil_append, total, Nat.zero_add]
  | cons sight s ih => rw [List.cons_append, total, total, ih, Nat.add_assoc]

/-- A scan without stray values tells whether there is room for the first line. -/
theorem scan_eq_roomy {sights : List Sight} (h : ∀ sight ∈ sights, sight.stray? = none) (must : Bool) (width : Int) :
    scan must width sights = .ok (decide (Roomy must width (firstLine sights))) := by
  induction sights generalizing width with
  | nil => simp [scan, firstLine, Roomy, total]
  | cons sight rest ih =>
      obtain ⟨hsight, hrest⟩ := List.forall_mem_cons.1 h
      by_cases hw : 0 ≤ width
      · cases sight with
        | columns n =>
            have hline : firstLine (.columns n :: rest) = .columns n :: firstLine rest := rfl
            rw [scan, if_pos hw, ih hrest, hline]
            congr 2
            simp only [Roomy, total, Sight.width, List.mem_cons, reduceCtorEq, false_or, eq_iff_iff]
            constructor
            · rintro ⟨h₁, h₂, h₃⟩
              exact ⟨hw, by omega, h₃⟩
            · rintro ⟨h₁, h₂, h₃⟩
              exact ⟨by omega, by omega, h₃⟩
        | forcedGroup =>
            have hline : firstLine (.forcedGroup :: rest) = .forcedGroup :: firstLine rest := rfl
            rw [scan, hline]
            cases must with
            | true => simp [Roomy]
            | false =>
                rw [if_pos ⟨hw, rfl⟩, ih hrest]
                simp [Roomy, total, Sight.width]
        | lineBreak =>
            have hline : firstLine (.lineBreak :: rest) = [] := rfl
            rw [scan, hline]
            simp [Roomy, total]
        | stray value => cases hsight
      · rw [scan_of_neg must (by omega)]
        simp [Roomy, hw]

/-- A scan fails only at the first stray value. -/
theorem head?_of_scan_error {must : Bool} {width : Int} {sights : List Sight} {value : Stray}
    (h : scan must width sights = .error value) : (sights.filterMap stray?).head? = some value := by
  fun_induction scan must width sights with
  | case1 | case3 | case5 | case6 | case8 => cases h
  | case2 _ _ _ _ ih | case4 _ _ _ ih => exact ih h
  | case7 =>
      cases h
      rfl

end Sight

end XmlTidy
