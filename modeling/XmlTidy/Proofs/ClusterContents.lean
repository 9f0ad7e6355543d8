import Mathlib.Data.List.Forall2
import XmlTidy.Printing.Cluster

/-!
Clustering loses nothing. Whatever fragments come, in whatever order, those that are more than a hint are laid
out once each and in their order: a comment in front of all others may be attached to the open tag, and
the rest fall into groups, one for each cluster. What placing a fragment can do is said once (`Effect`). A
cluster knows from its last fragment how it may grow, so clustering never looks for a last cluster
where there is none, and a fill always alternates text or references with lines.
-/

namespace XmlTidy

/-! ### Every other part -/

mutual
/-- What stands at the even positions of a list. -/
def evens {α : Type} : List α → List α
  | [] => []
  | a :: l => a :: odds l

/-- What stands at the odd positions of a list. -/
def odds {α : Type} : List α → List α
  | [] => []
  | _ :: l => evens l
end

theorem evens_cons_flatMap {α β : Type} (a : β) (l : List α) (g h : α → β) :
    evens (a :: l.flatMap fun x => [g x, h x]) = a :: l.map h := by
  induction l generalizing a with
  | nil => rfl
  | cons x l ih =>
      simp only [List.flatMap_cons, List.cons_append, List.nil_append, evens, odds, List.map_cons] at ih ⊢
      rw [ih]

theorem odds_cons_flatMap {α β : Type} (a : β) (l : List α) (g h : α → β) :
    odds (a :: l.flatMap fun x => [g x, h x]) = l.map g := by
  induction l generalizing a with
  | nil => rfl
  | cons x l ih =>
      simp only [List.flatMap_cons, List.cons_append, List.nil_append, evens, odds, List.map_cons] at ih ⊢
      rw [ih (h x)]

/-! ### The contents of clusters -/

/-- What separates fragments that are laid out together. -/
def Doc.IsDelimiter (doc : Doc) : Prop := doc = .spaceLine ∨ doc = .softLine

/-- A comment behind a delimiter, attached to the open tag. -/
def Doc.attachment (delimiter comment : Doc) : Doc :=
  .ifBreak (.grouped (.indent (.concat [delimiter, comment]))) (.concat [delimiter, comment])

/-- What an attached document holds behind its delimiter. -/
def Doc.attachedContents : Doc → List Doc
  | .ifBreak _ (.concat (_ :: contents)) => contents
  | _ => []

namespace Cluster

/-- What a cluster holds. It starts with its contents if line breaks stand before it, and with a delimiter if none
do. -/
def contents (c : Cluster) : List Doc :=
  if c.leading.isEmpty then odds c.parts else evens c.parts

/-- What stands between the contents of a cluster. -/
def delimiters (c : Cluster) : List Doc :=
  if c.leading.isEmpty then evens c.parts else odds c.parts

/-- The line breaks in front of a cluster that stands on lines of its own. -/
def IsLeading (leading : List Doc) : Prop := leading = [.hardLine] ∨ leading = [.hardLine, .hardLine]

theorem IsLeading.isEmpty {leading : List Doc} (h : IsLeading leading) : leading.isEmpty = false := by
  rcases h with rfl | rfl <;> rfl

/-- The fragments of a cluster: one alone on its lines, a comment beside what precedes it, an element with a comment
beside it, or a run of text and references with delimiters between them. -/
inductive Holds : List Fragment → Cluster → Prop where
  | alone {f : Fragment} {leading : List Doc} (hleading : IsLeading leading) :
      Holds [f] ⟨.plain, leading, [f.printed]⟩
  | beside {f : Fragment} {d : Doc} (hf : f.kind = .comment) (hd : d.IsDelimiter) :
      Holds [f] ⟨.group, [], [d, f.printed]⟩
  | joined {e f : Fragment} {d : Doc} {leading : List Doc} (hleading : IsLeading leading) (hd : d.IsDelimiter)
      (hf : f.kind = .comment) : Holds [e, f] ⟨.group, leading, [e.printed, d, f.printed]⟩
  | flow {f : Fragment} {rest : List (Doc × Fragment)} {leading : List Doc} (hleading : IsLeading leading)
      (hf : f.isInline = true) (hrest : ∀ x ∈ rest, x.1.IsDelimiter ∧ x.2.isInline = true) :
      Holds (f :: rest.map Prod.snd) ⟨.fill, leading, f.printed :: rest.flatMap fun x => [x.1, x.2.printed]⟩

namespace Holds

variable {fs : List Fragment} {c : Cluster}

theorem ne_nil (h : Holds fs c) : fs ≠ [] := by
  cases h <;> exact List.cons_ne_nil _ _

theorem isInline_of_fill (h : Holds fs c) (hstyle : c.style = .fill) : ∀ f ∈ fs, f.isInline = true := by
  cases h with
  | alone => cases hstyle
  | beside => cases hstyle
  | joined => cases hstyle
  | flow _ hf hrest => exact List.forall_mem_cons.2 ⟨hf, List.forall_mem_map.2 fun x hx => (hrest x hx).2⟩

/-- A cluster whose last fragment is an element holds nothing else. -/
theorem eq_of_element (h : Holds fs c) {e : Fragment} (hlast : fs.getLast? = some e) (he : e.kind = .element) :
    fs = [e] ∧ ∃ leading, IsLeading leading ∧ c = ⟨.plain, leading, [e.printed]⟩ := by
  have hinline := h.isInline_of_fill
  cases h with
  | @alone f leading hleading =>
      obtain rfl : f = e := by simpa using hlast
      exact ⟨rfl, leading, hleading, rfl⟩
  | @beside f d hf =>
      obtain rfl : f = e := by simpa using hlast
      simp [hf] at he
  | @joined _ f d leading _ _ hf =>
      obtain rfl : f = e := by simpa using hlast
      simp [hf] at he
  | flow =>
      have hfalse : e.isInline = false := by simp [Fragment.isInline, he]
      rw [hinline rfl e (List.mem_of_getLast? hlast)] at hfalse
      cases hfalse

/-- A fill goes on with text or a reference. -/
theorem extend (h : Holds fs c) (hstyle : c.style = .fill) {f : Fragment} (hf : f.isInline = true) {d : Doc}
    (hd : d.IsDelimiter) : Holds (fs ++ [f]) (c.extend [d, f.printed]) := by
  cases h with
  | alone => cases hstyle
  | beside => cases hstyle
  | joined => cases hstyle
  | @flow first rest leading hleading hfirst hrest =>
      have hflow := @Holds.flow first (rest ++ [(d, f)]) leading hleading hfirst
        (List.forall_mem_append.2 ⟨hrest, List.forall_mem_singleton.2 ⟨hd, hf⟩⟩)
      simpa [Cluster.extend] using hflow

end Holds

/-- How a cluster lays out its fragments. -/
structure LaysOut (fs : List Fragment) (c : Cluster) : Prop where
  contents : c.contents = fs.map Fragment.printed
  delimiters : ∀ d ∈ c.delimiters, d.IsDelimiter
  parts : c.parts ≠ []
  leading : ∀ doc ∈ c.leading, doc = .hardLine
  fill : c.style = .fill → c.parts.length % 2 = 1 ∧ (∀ f ∈ fs, f.isInline = true) ∧
    evens c.parts = fs.map Fragment.printed ∧ ∀ d ∈ odds c.parts, d.IsDelimiter
  unled : c.leading = [] → c.style = .group ∧ ∃ f, fs = [f] ∧ f.kind = .comment

theorem IsLeading.forall_mem {leading : List Doc} (h : IsLeading leading) : ∀ doc ∈ leading, doc = .hardLine := by
  rcases h with rfl | rfl <;> simp

theorem IsLeading.ne_nil {leading : List Doc} (h : IsLeading leading) : leading ≠ [] := by
  rcases h with rfl | rfl <;> simp

theorem Holds.laysOut {fs : List Fragment} {c : Cluster} (h : Holds fs c) : LaysOut fs c := by
  have hinline := h.isInline_of_fill
  cases h with
  | alone hleading =>
      refine ⟨?_, ?_, by simp, hleading.forall_mem, by simp, fun hnil => absurd hnil hleading.ne_nil⟩
      · simp [Cluster.contents, hleading.isEmpty, evens, odds]
      · simp [Cluster.delimiters, hleading.isEmpty, evens, odds]
  | @beside f d hf hd =>
      refine ⟨rfl, ?_, by simp, by simp, by simp, fun _ => ⟨rfl, f, rfl, hf⟩⟩
      simpa [Cluster.delimiters, evens, odds] using hd
  | joined hleading hd hf =>
      refine ⟨?_, ?_, by simp, hleading.forall_mem, by simp, fun hnil => absurd hnil hleading.ne_nil⟩
      · simp [Cluster.contents, hleading.isEmpty, evens, odds]
      · simpa [Cluster.delimiters, hleading.isEmpty, evens, odds] using hd
  | @flow f rest leading hleading hf hrest =>
      have hevens : evens (f.printed :: rest.flatMap fun x => [x.1, x.2.printed]) =
          (f :: rest.map Prod.snd).map Fragment.printed := by
        rw [evens_cons_flatMap, List.map_cons, List.map_map]
        rfl
      have hodds : ∀ d ∈ odds (f.printed :: rest.flatMap fun x => [x.1, x.2.printed]), d.IsDelimiter := by
        rw [odds_cons_flatMap]
        exact List.forall_mem_map.2 fun x hx => (hrest x hx).1
      have hlength : (f.printed :: rest.flatMap fun x => [x.1, x.2.printed]).length % 2 = 1 := by
        have htwo : (rest.flatMap fun x => [x.1, x.2.printed]).length = rest.length * 2 := by
          rw [List.length_flatMap]
          simp
        rw [List.length_cons]
        omega
      refine ⟨?_, ?_, by simp, hleading.forall_mem, fun _ => ⟨hlength, hinline rfl, hevens, hodds⟩,
        fun hnil => absurd hnil hleading.ne_nil⟩
      · rwa [Cluster.contents, hleading.isEmpty]
      · rwa [Cluster.delimiters, hleading.isEmpty]

end Cluster

namespace Clustering

/-! ### One step of clustering -/

theorem isDelimiter_delimiter (s : Clustering) : s.delimiter.IsDelimiter := by
  rw [delimiter]
  split
  · split
    · exact .inl rfl
    · exact .inr rfl
  · exact .inr rfl

/-- What placing a fragment can do: a comment in front of all else is attached to the open tag, a new cluster is
started, or the last cluster is extended. -/
inductive Effect (s : Clustering) (f : Fragment) : Clustering → Prop where
  | attach (hcomment : f.kind = .comment) (hfirst : s.emitted = none) :
      Effect s f { s with attached := s.attached ++ [.attachment s.delimiter f.printed] }
  | alone {leading : List Doc} (hleading : Cluster.IsLeading leading) :
      Effect s f (s.start (inlineStyle f) leading [f.printed])
  | beside (hcomment : f.kind = .comment) : Effect s f (s.start .group [] [s.delimiter, f.printed])
  | join {e : Fragment} {c : Cluster} {rest : List Cluster} (hcomment : f.kind = .comment)
      (hemitted : s.emitted = some e) (he : e.kind = .element) (hclusters : s.clusters = c :: rest) :
      Effect s f { s with clusters := c.joined.extend [s.delimiter, f.printed] :: rest }
  | flow {c : Cluster} {rest : List Cluster} (hf : f.isInline = true) (hclusters : s.clusters = c :: rest)
      (hstyle : c.style = .fill) : Effect s f { s with clusters := c.extend [s.delimiter, f.printed] :: rest }

theorem inlineStyle_comment {f : Fragment} (h : f.kind = .comment) : inlineStyle f = .plain := by
  simp [inlineStyle, Fragment.isInline, h]

theorem effect_addComment (s : Clustering) {f : Fragment} (h : f.kind = .comment) : Effect s f (s.addComment f) := by
  rw [addComment]
  split
  · rw [← inlineStyle_comment h]
    exact .alone (.inl rfl)
  · dsimp only
    split
    · next hfirst => exact .attach h hfirst
    · next e hemitted =>
        split
        · next helement =>
            rw [amend]
            split
            · next c rest hclusters => exact .join h hemitted (by simp_all) hclusters
            · exact .beside h
        · exact .beside h

theorem effect_place (s : Clustering) (f : Fragment) : Effect s f (s.place f) := by
  rw [place]
  split
  · exact .alone (.inr rfl)
  · split
    · next hcomment => exact effect_addComment s hcomment
    · split
      · next hflows =>
          rw [flows] at hflows
          split at hflows
          · next e c rest hemitted hclusters =>
              simp only [Bool.and_eq_true, decide_eq_true_eq] at hflows
              rw [amend, hclusters]
              exact .flow hflows.1.1 hclusters hflows.2
          · cases hflows
      · exact .alone (.inl rfl)

/-! ### What a clustering holds -/

/-- A comment as it is attached to the open tag. -/
def Attaches (f : Fragment) (doc : Doc) : Prop :=
  f.kind = .comment ∧ ∃ d : Doc, d.IsDelimiter ∧ doc = .attachment d f.printed

/-- The fragments of a clustering: `head` is attached to the open tag, and each of the `groups`, the last one first,
belongs to a cluster. -/
structure Holds (s : Clustering) (kept head : List Fragment) (groups : List (List Fragment)) : Prop where
  kept_eq : kept = head ++ groups.reverse.flatten
  head_le : head.length ≤ 1
  attached : List.Forall₂ Attaches head s.attached
  clusters : List.Forall₂ Cluster.Holds groups s.clusters
  emitted : s.emitted = kept.getLast?

namespace Holds

variable {s s' : Clustering} {kept head : List Fragment} {groups : List (List Fragment)} {f : Fragment}

/-- As long as nothing was placed, there is nothing. -/
theorem eq_nil (h : s.Holds kept head groups) (hfirst : s.emitted = none) : head = [] ∧ groups = [] := by
  have hkept : kept = [] := List.getLast?_eq_none_iff.1 (h.emitted.symm.trans hfirst)
  obtain ⟨hhead, hgroups⟩ := List.append_eq_nil_iff.1 (h.kept_eq.symm.trans hkept)
  refine ⟨hhead, ?_⟩
  cases groups with
  | nil => rfl
  | cons g groups =>
      rw [List.flatten_eq_nil_iff] at hgroups
      obtain ⟨c, rest, hholds, -⟩ := List.forall₂_cons_left_iff.1 h.clusters
      exact absurd (hgroups g (by simp)) hholds.ne_nil

theorem start (h : s.Holds kept head groups) {style : ClusterStyle} {leading parts : List Doc}
    (hcluster : Cluster.Holds [f] ⟨style, leading, parts⟩) :
    { s.start style leading parts with previous := some f, emitted := some f }.Holds (kept ++ [f]) head
      ([f] :: groups) where
  kept_eq := by simp [h.kept_eq]
  head_le := h.head_le
  attached := h.attached
  clusters := .cons hcluster h.clusters
  emitted := by simp

/-- The last fragment that was placed is the last of the last cluster, which may grow. -/
theorem grow {c c' : Cluster} {rest : List Cluster} (h : s.Holds kept head groups)
    (hclusters : s.clusters = c :: rest)
    (hgrows : ∀ g, Cluster.Holds g c → g.getLast? = s.emitted → Cluster.Holds (g ++ [f]) c') :
    ∃ groups', { s with clusters := c' :: rest, previous := some f, emitted := some f }.Holds (kept ++ [f]) head
      groups' := by
  have hforall := h.clusters
  rw [hclusters] at hforall
  obtain ⟨g, groups, hg, hrest, rfl⟩ := List.forall₂_cons_right_iff.1 hforall
  have hlast : g.getLast? = s.emitted := by
    rw [h.emitted, h.kept_eq, List.reverse_cons, List.flatten_append, List.flatten_singleton, ← List.append_assoc,
      List.getLast?_append]
    cases hlast : g.getLast? with
    | none => exact absurd (List.getLast?_eq_none_iff.1 hlast) hg.ne_nil
    | some e => rfl
  exact ⟨(g ++ [f]) :: groups, by simp [h.kept_eq], h.head_le, h.attached, .cons (hgrows g hg hlast) hrest, by simp⟩

/-- Placing a fragment puts it behind all others. -/
theorem place (h : s.Holds kept head groups) (f : Fragment) :
    ∃ head' groups', { s.place f with previous := some f, emitted := some f }.Holds (kept ++ [f]) head' groups' := by
  have heffect := effect_place s f
  generalize s.place f = s' at heffect
  cases heffect with
  | attach hcomment hfirst =>
      obtain ⟨rfl, rfl⟩ := h.eq_nil hfirst
      obtain rfl : kept = [] := h.kept_eq
      have hattached : s.attached = [] := List.forall₂_nil_left_iff.1 h.attached
      refine ⟨[f], [], rfl, Nat.le_refl 1, ?_, h.clusters, rfl⟩
      rw [hattached]
      exact .cons ⟨hcomment, s.delimiter, s.isDelimiter_delimiter, rfl⟩ .nil
  | @alone leading hleading =>
      refine ⟨head, _, h.start ?_⟩
      rw [inlineStyle]
      split
      · next hinline => exact @Cluster.Holds.flow f [] leading hleading hinline (by simp)
      · exact .alone hleading
  | beside hcomment => exact ⟨head, _, h.start (.beside hcomment s.isDelimiter_delimiter)⟩
  | @join e c rest hcomment hemitted he hclusters =>
      refine ⟨head, h.grow hclusters fun g hg hlast => ?_⟩
      obtain ⟨rfl, leading, hleading, rfl⟩ := hg.eq_of_element (hlast.trans hemitted) he
      exact .joined hleading s.isDelimiter_delimiter hcomment
  | @flow c rest hf hclusters hstyle =>
      exact ⟨head, h.grow hclusters fun g hg _ => hg.extend hstyle hf s.isDelimiter_delimiter⟩

/-- Clustering more fragments puts those that are more than a hint behind all others. -/
theorem foldl (h : s.Holds kept head groups) (fragments : List Fragment) :
    ∃ head' groups', (fragments.foldl add s).Holds (kept ++ fragments.filter fun f => !f.isBlank) head' groups' := by
  induction fragments generalizing s kept head groups with
  | nil => exact ⟨head, groups, by simpa using h⟩
  | cons f fragments ih =>
      rw [List.foldl_cons, add]
      split
      · next hblank =>
          have hhint : { s with previous := some f }.Holds kept head groups := ⟨h.1, h.2, h.3, h.4, h.5⟩
          simpa [hblank] using ih hhint
      · next hblank =>
          obtain ⟨head', groups', hplaced⟩ := h.place f
          simpa [hblank] using ih hplaced

end Holds

theorem exists_holds (fragments : List Fragment) :
    ∃ head groups, (ofFragments fragments).Holds (fragments.filter fun f => !f.isBlank) head groups := by
  have hempty : Holds {} [] [] [] := ⟨rfl, Nat.zero_le 1, .nil, .nil, rfl⟩
  exact hempty.foldl fragments

/-! ### The last cluster -/

/-- Changes the last cluster, which has to be there. -/
def amend? (s : Clustering) (change : Cluster → Cluster) : Option Clustering :=
  match s.clusters with
  | c :: rest => some { s with clusters := change c :: rest }
  | [] => none

/-- Whether text flows into a fragment. If both flow, the last cluster is asked, which has to be there. -/
def flows? (s : Clustering) (f : Fragment) : Option Bool :=
  if f.isInline && s.emitted.any Fragment.isInline then s.clusters.head?.map fun c => c.style = .fill
  else some false

/-- Places a comment. Behind an element that was not closed, the last cluster has to be there. -/
def addComment? (s : Clustering) (f : Fragment) : Option Clustering :=
  if !s.startsLine && s.emitted.any fun e => e.kind = .element && !e.isClosed then
    s.amend? fun c => c.joined.extend [s.delimiter, f.printed]
  else some (s.addComment f)

/-- Places a fragment. Wherever the last cluster is looked at, it has to be there. -/
def place? (s : Clustering) (f : Fragment) : Option Clustering :=
  if s.leavesLine f then some (s.start (inlineStyle f) [.hardLine, .hardLine] [f.printed])
  else if f.kind = .comment then s.addComment? f
  else
    (s.flows? f).bind fun flows =>
      if flows then s.amend? (·.extend [s.delimiter, f.printed])
      else some (s.start (inlineStyle f) [.hardLine] [f.printed])

def add? (s : Clustering) (f : Fragment) : Option Clustering :=
  if f.isBlank then some { s with previous := some f }
  else (s.place? f).map fun s => { s with previous := some f, emitted := some f }

/-- As long as there is no cluster, only comments came before. -/
def Led (s : Clustering) : Prop := s.clusters = [] → ∀ e ∈ s.emitted, e.kind = .comment

namespace Led

variable {s : Clustering}

theorem add (hs : s.Led) (f : Fragment) : (s.add f).Led := by
  rw [Clustering.add]
  split
  · exact hs
  · intro hnil
    have hplaced := effect_place s f
    dsimp only at hnil
    rintro _ ⟨⟩
    generalize s.place f = s' at hplaced hnil
    cases hplaced with
    | attach hcomment => exact hcomment
    | alone => cases hnil
    | beside => cases hnil
    | join => cases hnil
    | flow => cases hnil

/-- Where something other than a comment came before, there is a last cluster. -/
theorem exists_cluster (hs : s.Led) {e : Fragment} (hemitted : s.emitted = some e) (he : e.kind ≠ .comment) :
    ∃ c rest, s.clusters = c :: rest := by
  cases hclusters : s.clusters with
  | nil => exact absurd (hs hclusters e hemitted) he
  | cons c rest => exact ⟨c, rest, rfl⟩

theorem addComment?_eq (hs : s.Led) (f : Fragment) : s.addComment? f = some (s.addComment f) := by
  rw [addComment?]
  split
  · next hopen =>
      rw [Bool.and_eq_true, Option.any_eq_true] at hopen
      obtain ⟨hstarts, e, hemitted, he⟩ := hopen
      have hkind : e.kind = .element := by simp_all
      obtain ⟨c, rest, hclusters⟩ := hs.exists_cluster hemitted (by simp [hkind])
      simp_all [amend?, addComment, amend]
  · rfl

theorem flows?_eq (hs : s.Led) (f : Fragment) : s.flows? f = some (s.flows f) := by
  cases hemitted : s.emitted with
  | none => simp [flows?, flows, hemitted]
  | some e =>
      cases hinline : f.isInline && e.isInline with
      | false => cases hclusters : s.clusters <;> simp [flows?, flows, hemitted, hclusters, hinline]
      | true =>
          have hkind : e.kind ≠ .comment := by
            intro hkind
            simp [Fragment.isInline, hkind] at hinline
          obtain ⟨c, rest, hclusters⟩ := hs.exists_cluster hemitted hkind
          simp [flows?, flows, hemitted, hclusters, hinline]

theorem add?_eq (hs : s.Led) (f : Fragment) : s.add? f = some (s.add f) := by
  have hplace : s.place? f = some (s.place f) := by
    rw [place?, place, hs.addComment?_eq, hs.flows?_eq]
    dsimp only [Option.bind_some]
    split
    · rfl
    · split
      · rfl
      · split
        · next hflows =>
            rw [flows] at hflows
            split at hflows
            · next hclusters => simp [amend?, amend, hclusters]
            · cases hflows
        · rfl
  rw [add?, Clustering.add, hplace]
  split <;> rfl

theorem foldlM_add? (hs : s.Led) (fragments : List Fragment) :
    fragments.foldlM add? s = some (fragments.foldl Clustering.add s) := by
  induction fragments generalizing s with
  | nil => rfl
  | cons f fragments ih =>
      rw [List.foldlM_cons, hs.add?_eq]
      exact ih (hs.add f)

end Led

theorem led_empty : Led {} := by simp [Led]

/-! ### All fragments -/

theorem flatMap_attachedContents {head : List Fragment} {docs : List Doc} (h : List.Forall₂ Attaches head docs) :
    docs.flatMap Doc.attachedContents = head.map Fragment.printed := by
  induction h with
  | nil => rfl
  | @cons f doc head docs hfirst _ ih =>
      obtain ⟨-, d, -, rfl⟩ := hfirst
      rw [List.flatMap_cons, ih]
      rfl

theorem flatMap_contents {groups : List (List Fragment)} {cs : List Cluster}
    (h : List.Forall₂ Cluster.LaysOut groups cs) :
    cs.flatMap Cluster.contents = groups.flatten.map Fragment.printed := by
  induction h with
  | nil => rfl
  | cons hfirst _ ih => rw [List.flatMap_cons, ih, hfirst.contents, List.flatten_cons, List.map_append]

/-- Clustering never misses a last cluster where it looks for one, and it loses nothing: without their delimiters, the
attached comment and the clusters are the fragments that are more than a hint, each once and in their order. At most the
first of these is attached, if it is a comment, and the others fall into the groups that the clusters lay out. -/
theorem ofFragments_loses_nothing (fragments : List Fragment) :
    fragments.foldlM add? {} = some (ofFragments fragments) ∧
      (ofFragments fragments).attached.flatMap Doc.attachedContents ++
          (ofFragments fragments).ordered.flatMap Cluster.contents =
        (fragments.filter fun f => !f.isBlank).map Fragment.printed ∧
      ∃ head groups, head ++ groups.flatten = fragments.filter (fun f => !f.isBlank) ∧ head.length ≤ 1 ∧
        List.Forall₂ Attaches head (ofFragments fragments).attached ∧
        List.Forall₂ Cluster.LaysOut groups (ofFragments fragments).ordered := by
  obtain ⟨head, groups, hholds⟩ := exists_holds fragments
  have hordered : List.Forall₂ Cluster.LaysOut groups.reverse (ofFragments fragments).ordered :=
    List.forall₂_reverse_iff.2 (hholds.clusters.imp fun _ _ => Cluster.Holds.laysOut)
  refine ⟨led_empty.foldlM_add? fragments, ?_, head, groups.reverse, hholds.kept_eq.symm, hholds.head_le,
    hholds.attached, hordered⟩
  rw [flatMap_attachedContents hholds.attached, flatMap_contents hordered, ← List.map_append, ← hholds.kept_eq]

end Clustering

end XmlTidy
