import XmlTidy.Proofs.Overrides

/-!
A checked profile comes back from what it is written as. It can be written as an object with its sections inside, or
as one override for each of its fields. The object read by itself, and the overrides applied to any other checked
profile in any order, give all fields to their owners at once; only then is a section checked, so no value of the
other profile takes part in its check.
-/

namespace XmlTidy

namespace Section

variable {s : Section} {values values' checked : Values}

/-- The check of a section looks at its own settings only. -/
theorem exists_check_of_eq (h : s.check values = .ok checked)
    (heq : ∀ setting ∈ s.settings, values' setting = values setting) : ∃ checked', s.check values' = .ok checked' := by
  cases s with
  | printer =>
      have h' := checkPrinter_iff.1 h
      have hstart := heq .ignoreStartMarker (by decide)
      have hend := heq .ignoreEndMarker (by decide)
      refine ⟨(values'.set .quoteAttributes (checked .quoteAttributes)).set .whitespaceSensitivity
        (checked .whitespaceSensitivity), checkPrinter_iff.2 ?_⟩
      exact {
        quotes := by rw [heq .quoteAttributes (by decide), h'.quotes]; rfl
        sensitivity := by rw [heq .whitespaceSensitivity (by decide), h'.sensitivity]; rfl
        start_set := by rw [hstart, h'.start_set]
        end_set := by rw [hend, h'.end_set]
        differ := by rw [hstart, hend, h'.differ]
        others := by
          intro setting hquotes hsensitivity
          rw [Values.set, if_neg hsensitivity, Values.set, if_neg hquotes] }
  | layout =>
      have h' := checkLayout_iff.1 h
      refine ⟨values'.set .endOfLine (checked .endOfLine), checkLayout_iff.2 ?_⟩
      exact {
        lineEnd := by rw [heq .endOfLine (by decide), h'.lineEnd]; rfl
        width := by rw [heq .printWidth (by decide), h'.width]
        tabWidth := by rw [heq .tabWidth (by decide), h'.tabWidth]
        others := by
          intro setting hlineEnd
          rw [Values.set, if_neg hlineEnd] }

end Section

namespace Profile

/-- The fields of a profile with their values, owner by owner. -/
def fields (p : Profile) : FieldsByOwner
  | .oneSection s => s.settings.map fun setting => (setting.key, p.get s setting)
  | .profile => [("logging_level", .str p.level.key), ("name", p.name)]

/-- One override for each field of a profile. -/
def fieldOverrides (p : Profile) : List Override :=
  [Owner.oneSection .printer, .oneSection .layout, .profile].flatMap fun owner =>
    (p.fields owner).map fun x => .field owner x.1 x.2

/-- Profiles with the same value in each field. -/
structure Same (p q : Profile) : Prop where
  get_eq : ∀ s : Section, ∀ setting ∈ s.settings, q.get s setting = p.get s setting
  level_eq : q.level = p.level
  name_eq : q.name = p.name

variable {p d : Profile} {given : FieldsByOwner}

theorem nodup_fields (p : Profile) (owner : Owner) : ((p.fields owner).map Prod.fst).Nodup := by
  cases owner with
  | profile =>
      show ["logging_level", "name"].Nodup
      decide
  | oneSection s =>
      rw [fields, List.map_map]
      show (s.settings.map Setting.key).Nodup
      cases s <;> decide

theorem knowsAll_fields (p : Profile) (owner : Owner) : owner.knowsAll (p.fields owner) = true := by
  cases owner with
  | profile => rfl
  | oneSection s => cases s <;> rfl

theorem mem_fields {s : Section} {setting : Setting} (h : setting ∈ s.settings) (p : Profile) :
    (setting.key, p.get s setting) ∈ p.fields (.oneSection s) :=
  List.mem_map.2 ⟨setting, h, rfl⟩

/-- A profile that is given all fields of another becomes that other one. -/
theorem exists_assignAll_fields (hd : d.Checked) (hp : p.Checked)
    (hperm : ∀ owner, (given owner).Perm (p.fields owner)) :
    ∃ q, d.assignAll given = .ok q ∧ p.Same q := by
  have hkeys : ∀ owner, ((given owner).map Prod.fst).Nodup := fun owner =>
    ((hperm owner).map Prod.fst).symm.nodup (p.nodup_fields owner)
  have hfind : ∀ owner x, x ∈ p.fields owner → Members.find? (given owner) x.1 = some x.2 := fun owner x hx =>
    (Members.find?_eq_some_iff (hkeys owner)).2 ((hperm owner).mem_iff.2 hx)
  have haccepts : d.Accepts given := by
    refine ⟨fun owner => (hperm owner).all_eq.trans (p.knowsAll_fields owner), fun s => ?_, p.level, ?_⟩
    · apply Section.exists_check_of_eq (hp.check s)
      intro setting hs
      rw [Section.assigned, if_pos hs, hfind _ _ (mem_fields hs p)]
      rfl
    · rw [hfind .profile ("logging_level", .str p.level.key) (by simp [fields])]
      exact Level.ofKey?_key p.level
  obtain ⟨q, hq⟩ := (exists_assignAll_iff hkeys).2 haccepts
  have htakes : ∀ owner, ∀ x ∈ p.fields owner, q.value? owner x.1 = some (owner.kept x.1 x.2) := fun owner x hx =>
    (takes_of_assignAll hd hkeys hq owner).given x ((hperm owner).mem_iff.2 hx)
  refine ⟨q, hq, fun s setting hs => ?_, ?_, ?_⟩
  · have hvalue := htakes _ _ (mem_fields hs p)
    -- a value that passed its check is kept as it is
    have hkept := Section.kept_of_check (hp.check s) hs
    rw [value?, Owner.kept, Section.setting?_key hs, Option.map_some, Option.map_some, Option.getD_some,
      ← hkept] at hvalue
    exact Option.some.inj hvalue
  · have hvalue := htakes .profile ("logging_level", .str p.level.key) (by simp [fields])
    have hkey : Json.str q.level.key = .str p.level.key := Option.some.inj hvalue
    have hlevels := Level.ofKey?_key q.level
    rw [Json.str.inj hkey, Level.ofKey?_key] at hlevels
    exact (Option.some.inj hlevels).symm
  · exact Option.some.inj (htakes .profile ("name", p.name) (by simp [fields]))

/-! ### The two ways of reading -/

/-- An object with objects for both sections gives their fields to the default profile. -/
theorem ofMembers_eq {members : Members Json}
    (hsection : ∀ s : Section, members.find? s.key = some (.obj (given (.oneSection s))))
    (htop : topFields members = given .profile) : ofMembers members = assignAll {} given := by
  have hmake : ∀ s : Section, makeSection members s =
      (s.replace Setting.default (given (.oneSection s))).mapError .settings := by
    intro s
    rw [makeSection, sectionFields, hsection s]
    rfl
  rw [ofMembers, hmake, hmake, htop, assignAll]
  cases Section.printer.replace Setting.default (given (.oneSection .printer)) with
  | error fault => rfl
  | ok printer =>
      cases Section.layout.replace Setting.default (given (.oneSection .layout)) with
      | error fault => rfl
      | ok layout => rfl

theorem mem_fieldOverrides {o : Override} (h : o ∈ p.fieldOverrides) :
    ∃ owner, ∃ x ∈ p.fields owner, o = .field owner x.1 x.2 := by
  obtain ⟨owner, -, h⟩ := List.mem_flatMap.1 h
  obtain ⟨x, hx, rfl⟩ := List.mem_map.1 h
  exact ⟨owner, x, hx, rfl⟩

theorem fieldsOf_fieldOverrides (p : Profile) (owner : Owner) :
    Override.fieldsOf owner p.fieldOverrides = p.fields owner := by
  cases owner with
  | profile => rfl
  | oneSection s => cases s <;> rfl

/-- The fields of a profile are told apart by their keys. -/
theorem apart_fieldOverrides (p : Profile) : Override.Apart p.fieldOverrides where
  keys := by
    show ((Section.all.flatMap fun s => s.settings.map fun setting => s.key ++ "__" ++ setting.key) ++
      ["logging_level", "name"]).Nodup
    decide
  fields := fun owner => by
    rw [fieldsOf_fieldOverrides]
    exact p.nodup_fields owner
  plain := by
    intro name value hmem
    obtain ⟨owner, x, hx, heq⟩ := mem_fieldOverrides hmem
    cases heq
    rcases List.mem_cons.1 hx with rfl | hx
    · show splitKey? "logging_level".toList = none ∧ Section.ofKey? "logging_level" = none
      decide
    · cases List.mem_singleton.1 hx
      show splitKey? "name".toList = none ∧ Section.ofKey? "name" = none
      decide

/-- Overrides of single fields do not make each other disappear. -/
theorem lasting_fieldOverrides {os : List Override} (h : os.Perm p.fieldOverrides) :
    Override.lasting os = fun owner => Override.fieldsOf owner os := by
  have hblocks : ∀ o ∈ os, ∀ owner, o.blocks owner = false := by
    intro o ho owner
    obtain ⟨owner', x, -, rfl⟩ := mem_fieldOverrides (h.mem_iff.1 ho)
    rfl
  have hsurvivors : Override.survivors os = os := by
    clear h
    induction os with
    | nil => rfl
    | cons o os ih =>
        obtain ⟨-, hrest⟩ := List.forall_mem_cons.1 hblocks
        have hany : os.any (Override.blocks o.owner) = false :=
          List.any_eq_false.2 fun o' ho' => by simp [hrest o' ho']
        rw [Override.survivors, hany, ih hrest]
        rfl
  funext owner
  rw [Override.lasting, hsurvivors]

/-- A checked profile is written as an object that is read as the same profile, and as one override for each of its
fields. In any order these turn every checked profile into it. -/
theorem restored (hp : p.Checked) :
    (∃ members q, p.toJson = .obj members ∧ ofMembers members = .ok q ∧ p.Same q) ∧
      ∀ d : Profile, d.Checked → ∀ os : List Override, os.Perm p.fieldOverrides →
        ∃ q, d.override (os.map Override.pair) = .ok q ∧ p.Same q := by
  constructor
  · obtain ⟨q, hq, hsame⟩ := exists_assignAll_fields checked_default hp fun owner => List.Perm.refl (p.fields owner)
    refine ⟨_, q, rfl, ?_, hsame⟩
    rw [@ofMembers_eq p.fields _ (fun s => by cases s <;> rfl) rfl]
    exact hq
  · intro d hd os hos
    have hreserved : SettingFault.reservedKey ∉ (os.map Override.pair).map Prod.fst := by
      rw [((hos.map Override.pair).map Prod.fst).mem_iff, List.map_map]
      show SettingFault.reservedKey ∉
        (Section.all.flatMap fun s => s.settings.map fun setting => s.key ++ "__" ++ setting.key) ++
          ["logging_level", "name"]
      decide
    rw [override_eq hd (p.apart_fieldOverrides.of_perm hos) (Members.find?_eq_none_iff.2 hreserved),
      lasting_fieldOverrides hos]
    apply exists_assignAll_fields hd hp
    intro owner
    rw [← fieldsOf_fieldOverrides]
    exact Override.fieldsOf_perm hos owner

/-- The default markers the other way round, a width beyond any machine word, and an empty name. -/
def swappedMarkers : Profile where
  printer :=
    (Values.set Setting.default .ignoreStartMarker (.str defaultIgnoreEnd)).set .ignoreEndMarker
      (.str defaultIgnoreStart)
  layout := Values.set Setting.default .printWidth (.int 1000000000000000000000000000000)
  level := .debug
  name := .str ""

/-- The default profile becomes such a profile, though either of its markers alone would clash with the other one. -/
theorem restored_swapped :
    ∃ members q q', swappedMarkers.toJson = .obj members ∧ ofMembers members = .ok q ∧
      swappedMarkers.Same q ∧
      override {} (swappedMarkers.fieldOverrides.reverse.map Override.pair) = .ok q' ∧ swappedMarkers.Same q' := by
  have hchecked : swappedMarkers.Checked := by
    intro s
    refine ⟨swappedMarkers.get s, ?_⟩
    cases s with
    | printer => exact checkPrinter_iff.2 ⟨rfl, rfl, rfl, rfl, rfl, fun _ _ _ => rfl⟩
    | layout => exact checkLayout_iff.2 ⟨rfl, rfl, rfl, fun _ _ => rfl⟩
  obtain ⟨⟨members, q, hmembers, hq, hsame⟩, hoverride⟩ := restored hchecked
  obtain ⟨q', hq', hsame'⟩ := hoverride {} checked_default _ (List.reverse_perm _)
  exact ⟨members, q, q', hmembers, hq, hsame, hq', hsame'⟩

end Profile

end XmlTidy
