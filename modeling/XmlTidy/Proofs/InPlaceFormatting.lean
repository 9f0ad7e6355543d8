import XmlTidy.Proofs.Formattable
import XmlTidy.Proofs.ProfileFiles
import XmlTidy.Proofs.Utf8Coding

/-!
Formatting files in place. Each file that a command line lists is left as it is, because its bytes are no text or the
text cannot be read as a document, or it holds the formatted text afterwards, if it can be written. A file that cannot
be opened for writing stays as it is, and one whose writing ends half-way holds the start of the formatted text. What
becomes of a file depends on the file only, so one that fails does not keep the others from being formatted; it only
sets the exit code.
-/

namespace XmlTidy

/-! ### Replacing a file -/

/-- What a file holds after some content was written to it, given how writing to it fails, if it does. -/
def WriteFault.left (bytes content : Bytes) : Option WriteFault → Bytes
  | none => content
  | some (.refused _) => bytes
  | some (.cut n _) => content.take n

namespace FileTree

theorem read?_write (tree : FileTree) (loc : Location) (content : Bytes) (loc' : Location) :
    (tree.write loc content).read? loc' =
      if loc' = loc then (tree.read? loc').map fun _ => content else tree.read? loc' := by
  obtain ⟨files, folders, home, faults⟩ := tree
  simp only [read?, write]
  induction files with
  | nil => simp
  | cons file files ih =>
      obtain ⟨l, bytes⟩ := file
      rw [List.map_cons, List.lookup_cons, List.lookup_cons, ih]
      by_cases hl : loc' = l
      · subst hl
        by_cases hloc : loc' = loc
        · simp [hloc]
        · simp [hloc]
      · have hbeq : (loc' == l) = false := beq_eq_false_iff_ne.2 hl
        simp only [hbeq]

theorem isFolder_write (tree : FileTree) (loc : Location) (content : Bytes) (loc' : Location) :
    (tree.write loc content).isFolder loc' = tree.isFolder loc' := by
  simp only [isFolder, write, List.any_map]
  rfl

theorem resolve?_write (tree : FileTree) (loc : Location) (content : Bytes) (p : Path) :
    (tree.write loc content).resolve? p = tree.resolve? p := by
  have hstep : (tree.write loc content).step = tree.step := by
    funext loc' name
    rw [step, step, isFolder_write]
  have hread : ∀ loc', ((tree.write loc content).read? loc').isSome = (tree.read? loc').isSome := by
    intro loc'
    rw [read?_write]
    split
    · exact Option.isSome_map
    · rfl
  rw [resolve?, resolve?, hstep]
  simp only [hread, isFolder_write]
  rfl

/-- The second tree is the first one with a content for the file at a path. -/
structure Replaces (tree tree' : FileTree) (p : Path) (content : Bytes) : Prop where
  resolve?_eq : ∀ q, tree'.resolve? q = tree.resolve? q
  read?_eq : ∀ loc, tree'.read? loc = if tree.resolve? p = some loc then some content else tree.read? loc
  faults_eq : tree'.faults = tree.faults

variable {tree tree' : FileTree} {p q : Path} {bytes content : Bytes}

theorem readAt?_eq_some_iff :
    tree.readAt? p = some bytes ↔ ∃ loc, tree.resolve? p = some loc ∧ tree.read? loc = some bytes :=
  Option.bind_eq_some_iff

theorem replaces_self (h : tree.readAt? p = some bytes) : Replaces tree tree p bytes := by
  obtain ⟨loc, hresolve, hread⟩ := readAt?_eq_some_iff.1 h
  refine ⟨fun _ => rfl, fun loc' => ?_, rfl⟩
  split
  · next hloc =>
      cases hresolve.symm.trans hloc
      exact hread
  · rfl

theorem replaces_write {loc : Location} (hresolve : tree.resolve? p = some loc) (hread : tree.read? loc = some bytes)
    (content : Bytes) : Replaces tree (tree.write loc content) p content := by
  refine ⟨resolve?_write tree loc content, fun loc' => ?_, rfl⟩
  rw [read?_write, hresolve]
  by_cases hloc : loc' = loc
  · simp [hloc, hread]
  · simp [hloc, Ne.symm hloc]

/-- Writing to a file replaces what it holds by what is left of the bytes, and tells if it failed. -/
theorem replaces_writeAt (h : tree.readAt? p = some bytes) (content : Bytes) :
    Replaces tree (tree.writeAt p content).1 p (WriteFault.left bytes content (tree.faultAt? p)) ∧
      (tree.writeAt p content).2.isSome = (tree.faultAt? p).isSome := by
  obtain ⟨loc, hresolve, hread⟩ := readAt?_eq_some_iff.1 h
  simp only [writeAt, faultAt?, hresolve, Option.bind_some]
  cases tree.faults.lookup loc with
  | none => exact ⟨replaces_write hresolve hread content, rfl⟩
  | some fault =>
      cases fault with
      | refused reason => exact ⟨replaces_self h, rfl⟩
      | cut n reason => exact ⟨replaces_write hresolve hread (content.take n), rfl⟩

theorem Replaces.faultAt?_eq (h : Replaces tree tree' p content) (q : Path) : tree'.faultAt? q = tree.faultAt? q := by
  rw [faultAt?, faultAt?, h.resolve?_eq, h.faults_eq]

theorem Replaces.readAt?_self (h : Replaces tree tree' p content) (hp : tree.readAt? p = some bytes) :
    tree'.readAt? p = some content := by
  obtain ⟨loc, hresolve, -⟩ := readAt?_eq_some_iff.1 hp
  rw [readAt?, h.resolve?_eq, hresolve, Option.bind_some, h.read?_eq, if_pos hresolve]

theorem Replaces.readAt?_of_ne (h : Replaces tree tree' p content) (hq : tree.resolve? p ≠ tree.resolve? q) :
    tree'.readAt? q = tree.readAt? q := by
  rw [readAt?, readAt?, h.resolve?_eq]
  cases hresolve : tree.resolve? q with
  | none => rfl
  | some loc => rw [Option.bind_some, Option.bind_some, h.read?_eq, if_neg (hresolve ▸ hq)]

/-- Paths to files stand for themselves. -/
theorem collect_of_files {paths : List Path} (h : ∀ p ∈ paths, (tree.readAt? p).isSome) (recursive : Bool) :
    tree.collect recursive paths = paths := by
  have hfind : ∀ p ∈ paths, (tree.find? recursive p).getD [] = [p] := by
    intro p hp
    obtain ⟨bytes, hbytes⟩ := Option.isSome_iff_exists.1 (h p hp)
    obtain ⟨loc, hresolve, hread⟩ := readAt?_eq_some_iff.1 hbytes
    simp [find?, hresolve, hread]
  rw [collect, List.flatMap_congr hfind]
  exact List.flatMap_singleton' paths

end FileTree

/-! ### One file -/

/-- Bytes that cannot be formatted: they are no text, or the text cannot be read as a document. -/
inductive Rejected (bytes : Bytes) : Prop where
  | encoding (h : ∀ t, bytes ≠ Utf8.encode t)
  | malformed (t : Text) (e : SyntaxError) (ht : bytes = Utf8.encode t) (hread : Formatter.read t = .error e)

/-- What formatting makes of the bytes of a file, given how writing to it fails, if it does; and how many failures it
adds. -/
inductive Rewrites (formatter : Formatter) (fault : Option WriteFault) : Bytes → Bytes → Nat → Prop where
  | rejected {bytes : Bytes} (h : Rejected bytes) : Rewrites formatter fault bytes bytes 1
  | same {t : Text} {r : Result} (h : formatter.format t = .ok r) (hsame : r.formatted = t) :
      Rewrites formatter fault (Utf8.encode t) (Utf8.encode t) 0
  | changed {t : Text} {r : Result} (h : formatter.format t = .ok r) (hchanged : r.formatted ≠ t) :
      Rewrites formatter fault (Utf8.encode t) (WriteFault.left (Utf8.encode t) (Utf8.encode r.formatted) fault)
        (if fault.isSome then 1 else 0)

/-- A file that cannot be formatted in place: its bytes are rejected, or they have to change and the file cannot be
written. -/
inductive Formatter.Fails (formatter : Formatter) (fault : Option WriteFault) (bytes : Bytes) : Prop where
  | rejected (h : Rejected bytes)
  | unwritten {t : Text} {r : Result} (ht : bytes = Utf8.encode t) (h : formatter.format t = .ok r)
      (hchanged : r.formatted ≠ t) (hfault : fault.isSome = true)

namespace Formatter

variable {formatter : Formatter} {t : Text} {r : Result}

/-- A result tells what it is the result of, and there is one only for a text that can be read. -/
theorem input_of_format (h : formatter.format t = .ok r) : r.input = t ∧ ∃ d, read t = .ok d := by
  obtain ⟨d, hread, h⟩ := exists_of_bind_eq_ok h
  obtain ⟨printed, -, h⟩ := exists_of_bind_eq_ok h
  cases h
  exact ⟨rfl, d, eq_ok_of_mapError hread⟩

end Formatter

theorem not_rejected {t : Text} {d : Document} (h : Formatter.read t = .ok d) : ¬ Rejected (Utf8.encode t) := by
  rintro (hencoding | ⟨t', e, ht, hmalformed⟩)
  · exact hencoding t rfl
  · cases Utf8.encode_injective ht
    cases h.symm.trans hmalformed

theorem Formatter.fails_iff {formatter : Formatter} {t : Text} {r : Result} (h : formatter.format t = .ok r)
    (fault : Option WriteFault) :
    formatter.Fails fault (Utf8.encode t) ↔ r.formatted ≠ t ∧ fault.isSome = true := by
  constructor
  · rintro (hrejected | ⟨ht, h', hchanged, hfault⟩)
    · obtain ⟨-, d, hread⟩ := input_of_format h
      exact absurd hrejected (not_rejected hread)
    · cases Utf8.encode_injective ht
      cases h.symm.trans h'
      exact ⟨hchanged, hfault⟩
  · rintro ⟨hchanged, hfault⟩
    exact .unwritten rfl h hchanged hfault

theorem Rewrites.eq_zero_iff {formatter : Formatter} {fault : Option WriteFault} {bytes content : Bytes} {n : Nat}
    (h : Rewrites formatter fault bytes content n) : n = 0 ↔ ¬ formatter.Fails fault bytes := by
  cases h with
  | rejected h => simp [Formatter.Fails.rejected h]
  | same h hsame => simp [Formatter.fails_iff h, hsame]
  | changed h hchanged => simp [Formatter.fails_iff h, hchanged]

theorem Rewrites.of_rejected {formatter : Formatter} {fault : Option WriteFault} {bytes content : Bytes} {n : Nat}
    (h : Rewrites formatter fault bytes content n) (hrejected : Rejected bytes) : content = bytes := by
  cases h with
  | rejected => rfl
  | same => rfl
  | changed h _ =>
      obtain ⟨-, d, hread⟩ := Formatter.input_of_format h
      exact absurd hrejected (not_rejected hread)

theorem Rewrites.of_not_rejected {formatter : Formatter} {fault : Option WriteFault} {bytes content : Bytes} {n : Nat}
    (h : Rewrites formatter fault bytes content n) (hnot : ¬ Rejected bytes) :
    ∃ t r, bytes = Utf8.encode t ∧ formatter.format t = .ok r ∧
      content = if r.formatted = t then bytes else WriteFault.left bytes (Utf8.encode r.formatted) fault := by
  cases h with
  | rejected h => exact absurd h hnot
  | same h hsame => exact ⟨_, _, rfl, h, (if_pos hsame).symm⟩
  | changed h hchanged => exact ⟨_, _, rfl, h, (if_neg hchanged).symm⟩

section Format

variable {profile : Profile} (hvalid : profile.Valid) {correlationId : Option String} {embedders : Registry}
  {formatter : Formatter} (hmake : Formatter.make profile correlationId embedders = .ok formatter)
include hvalid hmake

/-- Bytes are either rejected, with a message, or formatted. -/
theorem Formatter.exists_formatBytes (p : Path) (bytes : Bytes) :
    ∃ result, formatter.formatBytes p bytes = .ok result ∧ result.path = p ∧
      ((∃ message, result.outcome = .error message ∧ Rejected bytes) ∨
        ∃ t r, result.outcome = .ok r ∧ bytes = Utf8.encode t ∧ formatter.format t = .ok r) := by
  obtain ⟨rfl, -, hindentation⟩ := of_make hmake
  cases hdecode : Utf8.decode bytes with
  | error fault =>
      simp only [formatBytes, hdecode]
      refine ⟨_, rfl, rfl, .inl ⟨_, rfl, .encoding fun t ht => ?_⟩⟩
      rw [Utf8.decode_eq_ok_iff.2 ht] at hdecode
      cases hdecode
  | ok t =>
      have ht := Utf8.decode_eq_ok_iff.1 hdecode
      cases hread : read t with
      | error e =>
          have hformat : formatter.format t = .error (.malformed e) := by
            simp only [format, hread, bind, Except.bind, Except.mapError]
          simp only [formatBytes, hdecode, hformat]
          exact ⟨_, rfl, rfl, .inl ⟨_, rfl, .malformed t e ht hread⟩⟩
      | ok d =>
          obtain ⟨printed, hprint⟩ :=
            formatter.profile.exists_print hvalid hindentation (d.isValid_layout (formatter.job t.normalize))
          have hformat := format_of_print hread hprint
          simp only [formatBytes, hdecode, hformat]
          exact ⟨_, rfl, rfl, .inr ⟨t, _, rfl, ht, hformat⟩⟩

variable {a : Arguments} (hwrite : a.write = true) (threshold : Nat)
include hwrite

/-- Formatting one file in place replaces what it holds, and no other file. -/
theorem Arguments.exists_formatOne {s : Progress} {p : Path} {bytes : Bytes} (hp : s.tree.readAt? p = some bytes) :
    ∃ s' content n, a.formatOne formatter threshold s p = .ok s' ∧
      Rewrites formatter (s.tree.faultAt? p) bytes content n ∧
      FileTree.Replaces s.tree s'.tree p content ∧ s'.failures = s.failures + n := by
  obtain ⟨result, hresult, rfl, hcases⟩ := Formatter.exists_formatBytes hvalid hmake p bytes
  have hone : a.formatOne formatter threshold s result.path = .ok (a.record threshold s result) := by
    simp only [formatOne, Formatter.formatAt, hp, hresult]
    rfl
  rw [hone]
  rcases hcases with ⟨message, houtcome, hrejected⟩ | ⟨t, r, houtcome, rfl, hformat⟩
  · refine ⟨_, bytes, 1, rfl, .rejected hrejected, ?_, ?_⟩
    · simpa only [record, houtcome] using FileTree.replaces_self hp
    · simp only [record, houtcome]
  · have hinput := (Formatter.input_of_format hformat).1
    by_cases hsame : r.formatted = t
    · have hchanged : r.changed = false := by simp [Result.changed, hinput, hsame]
      refine ⟨_, _, 0, rfl, .same hformat hsame, ?_⟩
      simp only [record, houtcome, hwrite, hchanged]
      exact ⟨FileTree.replaces_self hp, rfl⟩
    · have hchanged : r.changed = true := by simpa [Result.changed, hinput] using hsame
      refine ⟨_, _, _, rfl, .changed hformat hsame, ?_⟩
      obtain ⟨hreplaces, hreason⟩ := FileTree.replaces_writeAt hp (Utf8.encode r.formatted)
      rw [← hreason]
      simp only [record, houtcome, hwrite, hchanged]
      cases hwritten : s.tree.writeAt result.path (Utf8.encode r.formatted) with
      | mk tree reason =>
          rw [hwritten] at hreplaces
          cases reason with
          | none => exact ⟨hreplaces, rfl⟩
          | some reason => exact ⟨hreplaces, rfl⟩

end Format

/-! ### Many files -/

/-- The second tree is the first one with the files at some paths formatted, and with so many failures. -/
structure Rewritten (formatter : Formatter) (tree tree' : FileTree) (paths : List Path) (failures : Nat) : Prop where
  resolve?_eq : ∀ q, tree'.resolve? q = tree.resolve? q
  listed : ∀ p ∈ paths, ∀ bytes, tree.readAt? p = some bytes →
    ∃ content n, Rewrites formatter (tree.faultAt? p) bytes content n ∧ tree'.readAt? p = some content
  unlisted : ∀ loc, (∀ p ∈ paths, tree.resolve? p ≠ some loc) → tree'.read? loc = tree.read? loc
  failures_eq_zero_iff : failures = 0 ↔
    ∀ p ∈ paths, ∀ bytes, tree.readAt? p = some bytes → ¬ formatter.Fails (tree.faultAt? p) bytes

namespace Rewritten

variable {formatter : Formatter} {tree tree' tree'' : FileTree} {p : Path} {paths : List Path} {bytes content : Bytes}
  {m n : Nat}

theorem nil (formatter : Formatter) (tree : FileTree) : Rewritten formatter tree tree [] 0 where
  resolve?_eq _ := rfl
  listed := by simp
  unlisted _ _ := rfl
  failures_eq_zero_iff := by simp

/-- One more file in front, which none of the other paths leads to. -/
theorem cons (hp : tree.readAt? p = some bytes) (hbytes : Rewrites formatter (tree.faultAt? p) bytes content m)
    (hreplaces : FileTree.Replaces tree tree' p content) (hne : ∀ q ∈ paths, tree.resolve? p ≠ tree.resolve? q)
    (h : Rewritten formatter tree' tree'' paths n) : Rewritten formatter tree tree'' (p :: paths) (m + n) where
  resolve?_eq q := (h.resolve?_eq q).trans (hreplaces.resolve?_eq q)
  listed := by
    have hfirst : tree''.readAt? p = tree'.readAt? p := by
      obtain ⟨loc, hresolve, -⟩ := FileTree.readAt?_eq_some_iff.1 hp
      have hother : ∀ q ∈ paths, tree'.resolve? q ≠ some loc := by
        intro q hq
        rw [hreplaces.resolve?_eq, ← hresolve]
        exact (hne q hq).symm
      rw [FileTree.readAt?, FileTree.readAt?, h.resolve?_eq, hreplaces.resolve?_eq, hresolve]
      exact h.unlisted loc hother
    refine List.forall_mem_cons.2 ⟨fun bytes' hbytes' => ?_, fun q hq bytes' hbytes' => ?_⟩
    · cases hp.symm.trans hbytes'
      exact ⟨content, m, hbytes, hfirst.trans (hreplaces.readAt?_self hp)⟩
    · rw [← hreplaces.faultAt?_eq]
      exact h.listed q hq bytes' ((hreplaces.readAt?_of_ne (hne q hq)).trans hbytes')
  unlisted loc hloc := by
    obtain ⟨hlocp, hlocs⟩ := List.forall_mem_cons.1 hloc
    rw [h.unlisted loc fun q hq => hreplaces.resolve?_eq q ▸ hlocs q hq, hreplaces.read?_eq, if_neg hlocp]
  failures_eq_zero_iff := by
    have hrest : ∀ q ∈ paths, tree'.readAt? q = tree.readAt? q := fun q hq => hreplaces.readAt?_of_ne (hne q hq)
    rw [Nat.add_eq_zero_iff, hbytes.eq_zero_iff, h.failures_eq_zero_iff, List.forall_mem_cons]
    refine and_congr ⟨fun hdone bytes' hbytes' => ?_, fun hall => hall bytes hp⟩ ?_
    · cases hp.symm.trans hbytes'
      exact hdone
    · exact forall₂_congr fun q hq => by rw [hrest q hq, hreplaces.faultAt?_eq]

end Rewritten

section Run

variable {profile : Profile} (hvalid : profile.Valid) {correlationId : Option String} {embedders : Registry}
  {formatter : Formatter} (hmake : Formatter.make profile correlationId embedders = .ok formatter)
  {a : Arguments} (hwrite : a.write = true)
include hvalid hmake hwrite

/-- Formatting different files one after the other. -/
theorem Arguments.exists_foldlM_formatOne (threshold : Nat) {paths : List Path} (s : Progress)
    (hfiles : ∀ p ∈ paths, (s.tree.readAt? p).isSome)
    (hdistinct : paths.Pairwise fun p q => s.tree.resolve? p ≠ s.tree.resolve? q) :
    ∃ s' n, paths.foldlM (a.formatOne formatter threshold) s = .ok s' ∧
      Rewritten formatter s.tree s'.tree paths n ∧ s'.failures = s.failures + n := by
  induction paths generalizing s with
  | nil => exact ⟨s, 0, rfl, .nil formatter s.tree, rfl⟩
  | cons p paths ih =>
      obtain ⟨hp, hpaths⟩ := List.forall_mem_cons.1 hfiles
      obtain ⟨hne, hdistinct⟩ := List.pairwise_cons.1 hdistinct
      obtain ⟨bytes, hbytes⟩ := Option.isSome_iff_exists.1 hp
      obtain ⟨s₁, content, m, hone, hrewrites, hreplaces, hm⟩ := exists_formatOne hvalid hmake hwrite threshold hbytes
      have hfiles₁ : ∀ q ∈ paths, (s₁.tree.readAt? q).isSome := by
        intro q hq
        rw [hreplaces.readAt?_of_ne (hne q hq)]
        exact hpaths q hq
      obtain ⟨s₂, n, hall, hrewritten, hn⟩ := ih s₁ hfiles₁ (by simpa only [hreplaces.resolve?_eq] using hdistinct)
      refine ⟨s₂, m + n, ?_, .cons hbytes hrewrites hreplaces hne hrewritten, by omega⟩
      rw [List.foldlM_cons, hone]
      exact hall

/-- Executing a command that formats different files in place. -/
theorem Arguments.exists_execute (hverb : a.verb = .format) {tree : FileTree} (hpaths : a.paths ≠ [])
    (hfiles : ∀ p ∈ a.paths, (tree.readAt? p).isSome)
    (hdistinct : a.paths.Pairwise fun p q => tree.resolve? p ≠ tree.resolve? q) :
    ∃ outcome n, a.execute formatter tree = .ok outcome ∧ Rewritten formatter tree outcome.tree a.paths n ∧
      outcome.exit = if n = 0 then 0 else 1 := by
  obtain ⟨s', n, hfold, hrewritten, hn⟩ :=
    exists_foldlM_formatOne hvalid hmake hwrite (a.threshold formatter.profile) { tree } hfiles hdistinct
  have hcollect := FileTree.collect_of_files hfiles a.recursive
  have hempty : a.paths.isEmpty = false := by simpa using hpaths
  have hfailures : s'.failures = n := by simpa using hn
  simp only [execute, hcollect, hempty, hverb, formatAll, hfold]
  exact ⟨_, n, rfl, hrewritten, by rw [← hfailures]⟩

end Run

/-- Without a formatter there is no outcome. -/
theorem run_of_make_error {texts : List Text} {a : Arguments} {tree : FileTree} {profile : Profile} {room : Int}
    {fault : PageFault} (hread : Arguments.read texts = .ok a) (hprofile : a.profile tree = .ok profile)
    (hmake : Formatter.make profile none [] room = .error fault) : run texts tree room = .error (.page fault) := by
  simp only [run, hread, Except.mapError, bind, Except.bind, hprofile, hmake]

/-- A command line that formats different files in place. If lines can be indented where there is room for so many
blanks, then rejected bytes are left, and every other file holds the formatted text if it can be written or does not
change; it is left if it cannot be opened for writing, and holds the start of the formatted text if writing to it ends
half-way. No other file changes, and the exit code tells whether any listed file failed. If lines cannot be indented
there is no outcome. -/
theorem run_in_place {texts : List Text} {a : Arguments} {tree : FileTree} {profile : Profile} (room : Int)
    (hread : Arguments.read texts = .ok a) (hverb : a.verb = .format) (hwrite : a.write = true)
    (hprofile : a.profile tree = .ok profile) (hvalid : profile.Valid) (hpaths : a.paths ≠ [])
    (hfiles : ∀ p ∈ a.paths, (tree.readAt? p).isSome ∧ tree.isOverlong p = false)
    (hdistinct : a.paths.Pairwise fun p q => tree.resolve? p ≠ tree.resolve? q) :
    (∀ fault, Formatter.make profile none [] room = .error fault → run texts tree room = .error (.page fault)) ∧
      ∀ formatter, Formatter.make profile none [] room = .ok formatter → ∃ outcome, run texts tree room = .ok outcome ∧
        (∀ p ∈ a.paths, ∀ bytes, tree.readAt? p = some bytes →
          (Rejected bytes → outcome.tree.readAt? p = some bytes) ∧
          (¬ Rejected bytes → ∃ t r, bytes = Utf8.encode t ∧ formatter.format t = .ok r ∧
            (tree.faultAt? p = none ∨ r.formatted = t → outcome.tree.readAt? p = some (Utf8.encode r.formatted)) ∧
            (∀ reason, tree.faultAt? p = some (.refused reason) → outcome.tree.readAt? p = some bytes) ∧
            ∀ n reason, tree.faultAt? p = some (.cut n reason) → r.formatted ≠ t →
              outcome.tree.readAt? p = some ((Utf8.encode r.formatted).take n))) ∧
        (∀ loc, (∀ p ∈ a.paths, tree.resolve? p ≠ some loc) → outcome.tree.read? loc = tree.read? loc) ∧
        (∀ p, outcome.tree.resolve? p = tree.resolve? p) ∧
        (outcome.exit = 1 ↔
          ∃ p ∈ a.paths, ∃ bytes, tree.readAt? p = some bytes ∧ formatter.Fails (tree.faultAt? p) bytes) ∧
        (outcome.exit = 0 ↔
          ∀ p ∈ a.paths, ∀ bytes, tree.readAt? p = some bytes → ¬ formatter.Fails (tree.faultAt? p) bytes) := by
  refine ⟨fun fault hmake => run_of_make_error hread hprofile hmake, fun formatter hmake => ?_⟩
  obtain ⟨outcome, n, hexecute, hrewritten, hexit⟩ := Arguments.exists_execute hvalid (Formatter.make_of_room hmake)
    hwrite hverb hpaths (fun p hp => (hfiles p hp).1) hdistinct
  have hshort : a.paths.any tree.isOverlong = false := List.any_eq_false.2 fun p hp => by simp [(hfiles p hp).2]
  have hcode : (outcome.exit = 1 ↔ ¬ n = 0) ∧ (outcome.exit = 0 ↔ n = 0) := by
    rw [hexit]
    by_cases hn : n = 0
    · simp [hn]
    · simp [hn]
  refine ⟨outcome, ?_, fun p hp bytes hbytes => ?_, hrewritten.unlisted, hrewritten.resolve?_eq, ?_,
    hcode.2.trans hrewritten.failures_eq_zero_iff⟩
  · simp only [run, hread, Except.mapError, bind, Except.bind, hprofile, hmake, hshort, hexecute]
    rfl
  · obtain ⟨content, m, hrewrites, hcontent⟩ := hrewritten.listed p hp bytes hbytes
    refine ⟨fun hrejected => hrewrites.of_rejected hrejected ▸ hcontent, fun hnot => ?_⟩
    obtain ⟨t, r, rfl, hformat, rfl⟩ := hrewrites.of_not_rejected hnot
    refine ⟨t, r, rfl, hformat, fun hwritable => ?_, fun reason hfault => ?_, fun k reason hfault hchanged => ?_⟩
    · by_cases hsame : r.formatted = t
      · rwa [if_pos hsame, ← hsame] at hcontent
      · rwa [if_neg hsame, hwritable.resolve_right hsame] at hcontent
    · rw [hfault, WriteFault.left, ite_self] at hcontent
      exact hcontent
    · rwa [if_neg hchanged, hfault] at hcontent
  · rw [hcode.1, hrewritten.failures_eq_zero_iff]
    simp only [not_forall, not_not, exists_prop]

/-- The profile of arguments that choose nothing. -/
theorem Arguments.profile_default {a : Arguments} (hconfig : a.config = none) (hpreset : a.preset = none)
    (hsettings : ∀ x ∈ Profile.adjustable, a.settings x.2 = none) (tree : FileTree) : a.profile tree = .ok {} := by
  have hnone : (Profile.adjustable.filterMap fun x =>
      (a.settings x.2).map fun value => (x.1.key ++ "__" ++ x.2.key, value)) = [] :=
    List.filterMap_eq_nil_iff.2 fun x hx => by rw [hsettings x hx, Option.map_none]
  simp only [profile, hconfig, Profile.adjust, hpreset, hnone]
  rfl

/-- A text that ends inside an element, a byte that starts no character, and two documents. -/
def mixedFiles : FileTree where
  files :=
    [(["a.xml".toList], Utf8.encode "<a>".toList), (["b.xml".toList], [0xFF]),
     (["c.xml".toList], Utf8.encode "<c></c>".toList), (["d.xml".toList], Utf8.encode "<d></d>".toList)]

/-- Of the first three files only the last is formatted, and the fourth, which is not listed, stays as it is. -/
theorem run_in_place_mixed :
    ∃ outcome r, run (["format", "--write", "a.xml", "b.xml", "c.xml"].map String.toList) mixedFiles = .ok outcome ∧
      outcome.tree.readAt? (.ofText "a.xml".toList) = some (Utf8.encode "<a>".toList) ∧
      outcome.tree.readAt? (.ofText "b.xml".toList) = some [0xFF] ∧
      Formatter.format {} "<c></c>".toList = .ok r ∧
      outcome.tree.readAt? (.ofText "c.xml".toList) = some (Utf8.encode r.formatted) ∧
      outcome.tree.read? ["d.xml".toList] = some (Utf8.encode "<d></d>".toList) ∧ outcome.exit = 1 := by
  obtain ⟨a, hread, ha⟩ := @exists_ok_of_any _ _
    (Arguments.read (["format", "--write", "a.xml", "b.xml", "c.xml"].map String.toList))
    (fun a => a.verb = .format && a.write && a.config.isNone && a.preset.isNone &&
      Profile.adjustable.all (fun x => (a.settings x.2).isNone) &&
      a.paths = ["a.xml", "b.xml", "c.xml"].map fun name => Path.ofText name.toList) (by decide +kernel)
  simp only [Bool.and_eq_true, decide_eq_true_eq, Option.isNone_iff_eq_none, List.all_eq_true] at ha
  obtain ⟨⟨⟨⟨⟨hverb, hwrite⟩, hconfig⟩, hpreset⟩, hsettings⟩, hpaths⟩ := ha
  have hprofile : a.profile mixedFiles = .ok {} := Arguments.profile_default hconfig hpreset hsettings _
  obtain ⟨outcome, hrun, hlisted, hunlisted, -, hexit, -⟩ :=
    (@run_in_place _ a mixedFiles {} Profile.countableBlanks hread hverb hwrite hprofile (Profile.valid_of_layout rfl)
      (by simp [hpaths]) (by rw [hpaths]; decide +kernel) (by rw [hpaths]; decide +kernel)).2 _ rfl
  rw [hpaths] at hlisted hunlisted hexit
  have hopen : Rejected (Utf8.encode "<a>".toList) := by
    have hrefused : (Formatter.read "<a>".toList).toBool = false := by decide +kernel
    cases h : Formatter.read "<a>".toList with
    | ok d =>
        rw [h] at hrefused
        cases hrefused
    | error e => exact .malformed _ e rfl h
  have hbyte : Rejected [0xFF] := by
    refine .encoding fun t ht => ?_
    have hrefused : (Utf8.decode [0xFF]).toBool = false := by decide +kernel
    rw [Utf8.decode_eq_ok_iff.2 ht] at hrefused
    cases hrefused
  obtain ⟨d, hd, -⟩ :=
    @exists_ok_of_any _ _ (Formatter.read "<c></c>".toList) (fun d => d.root.isSome) (by decide +kernel)
  obtain ⟨t, r, ht, hformat, hc, -⟩ :=
    (hlisted (.ofText "c.xml".toList) (by simp) _ (by decide +kernel)).2 (not_rejected hd)
  cases Utf8.encode_injective ht
  have hb : mixedFiles.readAt? (.ofText "b.xml".toList) = some [0xFF] := by decide +kernel
  exact ⟨outcome, r, hrun, (hlisted _ (by simp) _ (by decide +kernel)).1 hopen, (hlisted _ (by simp) _ hb).1 hbyte,
    hformat, hc (.inl (by decide +kernel)), hunlisted _ (by decide +kernel),
    hexit.2 ⟨.ofText "b.xml".toList, by simp, _, hb, .rejected hbyte⟩⟩

/-- A file that cannot be opened for writing, and one that takes two bytes. -/
def guardedFiles : FileTree where
  files :=
    [(["a.xml".toList], Utf8.encode "<a></a>".toList), (["b.xml".toList], Utf8.encode "<b></b>".toList)]
  faults := [(["a.xml".toList], .refused "Permission denied"), (["b.xml".toList], .cut 2 "No space left on device")]

def Json.scalar? : Json → Option Scalar
  | .scalar s => some s
  | _ => none

theorem Json.scalar?_eq_some_iff {value : Json} {s : Scalar} : value.scalar? = some s ↔ value = .scalar s := by
  cases value <;> simp [scalar?]

theorem Profile.Checked.adjust {p q : Profile} (hp : p.Checked) {chosen : Setting → Option Json}
    (h : p.adjust none chosen = .ok q) : q.Checked := by
  simp only [Profile.adjust, Option.getD_none] at h
  split at h
  · cases h
    exact hp
  · exact hp.override h

/-- Neither file is rejected and neither is formatted: the first stays as it is and the second loses its end. With a
valid profile whose tabs are wider than any line, there is no outcome at all. -/
theorem run_in_place_guarded :
    (∃ outcome r s, run (["format", "--write", "a.xml", "b.xml"].map String.toList) guardedFiles = .ok outcome ∧
      Formatter.format {} "<a></a>".toList = .ok r ∧ r.formatted = "<a />\n".toList ∧
      outcome.tree.readAt? (.ofText "a.xml".toList) = some (Utf8.encode "<a></a>".toList) ∧
      Formatter.format {} "<b></b>".toList = .ok s ∧ s.formatted = "<b />\n".toList ∧
      outcome.tree.readAt? (.ofText "b.xml".toList) = some (Utf8.encode "<b".toList) ∧ outcome.exit = 1) ∧
    ∃ a profile,
      Arguments.read (["format", "--write", "--tab-width", "9223372036854775808", "b.xml"].map String.toList) = .ok a ∧
      a.profile guardedFiles = .ok profile ∧ profile.Valid ∧
      run (["format", "--write", "--tab-width", "9223372036854775808", "b.xml"].map String.toList) guardedFiles =
        .error (.page .blanksNotCountable) := by
  constructor
  · obtain ⟨outcome, hrun, houtcome⟩ := @exists_ok_of_any _ _
      (run (["format", "--write", "a.xml", "b.xml"].map String.toList) guardedFiles)
      (fun outcome => outcome.tree.readAt? (.ofText "a.xml".toList) = some (Utf8.encode "<a></a>".toList) &&
        outcome.tree.readAt? (.ofText "b.xml".toList) = some (Utf8.encode "<b".toList) && outcome.exit = 1)
      (by decide +kernel)
    obtain ⟨r, hr, hformatted⟩ := @exists_ok_of_any _ _ (Formatter.format {} "<a></a>".toList)
      (fun r => r.formatted = "<a />\n".toList) (by decide +kernel)
    obtain ⟨s, hs, hformatted'⟩ := @exists_ok_of_any _ _ (Formatter.format {} "<b></b>".toList)
      (fun s => s.formatted = "<b />\n".toList) (by decide +kernel)
    simp only [Bool.and_eq_true, decide_eq_true_eq] at houtcome hformatted hformatted'
    obtain ⟨⟨ha, hb⟩, hexit⟩ := houtcome
    exact ⟨outcome, r, s, hrun, hr, hformatted, ha, hs, hformatted', hb, hexit⟩
  · obtain ⟨a, hread, ha⟩ := @exists_ok_of_any _ _
      (Arguments.read (["format", "--write", "--tab-width", "9223372036854775808", "b.xml"].map String.toList))
      (fun a => a.config.isNone && a.preset.isNone && (a.profile guardedFiles).toOption.any fun profile =>
        (profile.layout .printWidth).scalar? = some (.int 80) &&
          (profile.layout .tabWidth).scalar? = some (.int 9223372036854775808) &&
          profile.lineEnd.toBool && !profile.useTabs) (by decide +kernel)
    simp only [Bool.and_eq_true, Option.isNone_iff_eq_none] at ha
    obtain ⟨⟨hconfig, hpreset⟩, hany⟩ := ha
    obtain ⟨profile, hprofile, hlayout⟩ := exists_ok_of_any hany
    simp only [Bool.and_eq_true, decide_eq_true_eq, Bool.not_eq_true'] at hlayout
    obtain ⟨⟨⟨hwidth, htabWidth⟩, hnamed⟩, htabs⟩ := hlayout
    rw [Json.scalar?_eq_some_iff] at hwidth htabWidth
    have hlineEnd : ∃ key, profile.layout .endOfLine = .str key := by
      cases hvalue : profile.layout .endOfLine with
      | str key => exact ⟨key, rfl⟩
      | _ =>
          rw [Profile.lineEnd, hvalue] at hnamed
          cases hnamed
    have hadjust : (({} : Profile).adjust none a.settings) = .ok profile := by
      simp only [Arguments.profile, hconfig, hpreset] at hprofile
      exact eq_ok_of_mapError hprofile
    have hvalid : profile.Valid :=
      ⟨Profile.checked_default.adjust hadjust .layout, ⟨_, hwidth⟩, ⟨_, htabWidth⟩, hlineEnd⟩
    have hmake : Formatter.make profile none [] = .error .blanksNotCountable := by
      simp only [Formatter.make, Profile.checkIndentation, htabs, htabWidth]
      rfl
    exact ⟨a, profile, hread, hprofile, hvalid, run_of_make_error hread hprofile hmake⟩

end XmlTidy
